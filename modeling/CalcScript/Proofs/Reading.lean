import CalcScript.Proofs.Precedence

set_option autoImplicit false

namespace CalcScript.Parse

@[simp] theorem ok_bind {ε α β : Type} (a : α) (f : α → Except ε β) :
    (Except.ok a >>= f) = f a := rfl

@[simp] theorem error_bind {ε α β : Type} (e : ε) (f : α → Except ε β) :
    (Except.error e >>= f) = .error e := rfl

@[simp] theorem pure_eq_ok {ε α : Type} (a : α) : (pure a : Except ε α) = .ok a := rfl

theorem bind_eq_ok {ε α β : Type} {x : Except ε α} {f : α → Except ε β} {b : β} :
    (x >>= f) = .ok b ↔ ∃ a, x = .ok a ∧ f a = .ok b := by
  cases x <;> simp

theorem expect_cons {kind : TokenKind} {fault : String → Fault} {t : Token} {rest : List Token}
    (same : t.kind = kind) : expect kind fault (t :: rest) = .ok (t, rest) := by
  simp [expect, same]

theorem expect_eq_ok {kind : TokenKind} {fault : String → Fault} {ts rest : List Token}
    {t : Token} :
    expect kind fault ts = .ok (t, rest) ↔ ts = t :: rest ∧ t.kind = kind := by
  cases ts with
  | nil => simp [expect]
  | cons u us =>
    by_cases same : u.kind = kind
    · simp [expect, same]
      grind
    · simp [expect, same]
      grind

theorem next?_cons {kind : TokenKind} {t : Token} {rest : List Token} (same : t.kind = kind) :
    next? kind (t :: rest) = some (t, rest) := by
  simp [next?, same]

theorem next?_eq_some {kind : TokenKind} {ts rest : List Token} {t : Token} :
    next? kind ts = some (t, rest) ↔ ts = t :: rest ∧ t.kind = kind := by
  cases ts with
  | nil => simp [next?]
  | cons u us => simp [next?]; grind

theorem next?_eq_none {kind : TokenKind} {ts : List Token} :
    next? kind ts = none ↔ ∀ t ∈ ts.head?, t.kind ≠ kind := by
  cases ts with
  | nil => simp [next?]
  | cons u us => simp [next?]

def peek {α : Type} (kind : TokenKind) (without : Parser α) (behind : Token → Parser α) :
    Parser α := fun ts =>
  match next? kind ts with
  | none => without ts
  | some (t, rest) => behind t rest

theorem peek_stop {α : Type} {kind : TokenKind} {without : Parser α} {behind : Token → Parser α}
    {rest : List Token} (stop : ∀ t ∈ rest.head?, t.kind ≠ kind) :
    peek kind without behind rest = without rest := by
  simp only [peek, next?_eq_none.mpr stop]

theorem peek_cons {α : Type} {kind : TokenKind} {without : Parser α} {behind : Token → Parser α}
    {t : Token} (same : t.kind = kind) (rest : List Token) :
    peek kind without behind (t :: rest) = behind t rest := by
  simp only [peek, next?_cons same]

theorem peek_eq {α : Type} {kind : TokenKind} {without : Parser α} {behind : Token → Parser α}
    {ts : List Token} {r : Except SyntaxError (α × List Token)}
    (h : peek kind without behind ts = r) :
    (without ts = r ∧ ∀ t ∈ ts.head?, t.kind ≠ kind) ∨
    ∃ t rest, ts = t :: rest ∧ t.kind = kind ∧ behind t rest = r := by
  unfold peek at h
  split at h
  · next missed => exact .inl ⟨h, next?_eq_none.mp missed⟩
  · next t rest found =>
    obtain ⟨rfl, same⟩ := next?_eq_some.mp found
    exact .inr ⟨t, rest, rfl, same, h⟩

theorem run_stop {α : Type} {op? : TokenKind → Option α} {p : Parser Expr}
    {rest : List Token} (bound : List Token) (stop : ∀ t ∈ rest.head?, op? t.kind = none) :
    run op? p bound rest = .ok ([], rest) := by
  cases bound with
  | nil => cases rest <;> rfl
  | cons b bound =>
    cases rest with
    | nil => rfl
    | cons t rest => simp [run, stop t (by simp)]

theorem run_step {α : Type} {op? : TokenKind → Option α} {p : Parser Expr} {op : α} {rhs : Expr}
    {b t : Token} {bound ts rest : List Token} (sign : op? t.kind = some op)
    (read : p ts = .ok (rhs, rest)) :
    run op? p (b :: bound) (t :: ts) =
      (run op? p bound rest).map fun (more, rest) => ((op, t.pos, rhs) :: more, rest) := by
  simp only [run, sign, read]
  show (run op? p bound rest >>= _) = _
  cases run op? p bound rest <;> rfl

theorem run_cons_eq_ok {α : Type} {op? : TokenKind → Option α} {p : Parser Expr} {b t : Token}
    {bound ts rest : List Token} {more : List (α × Position × Expr)}
    (h : run op? p (b :: bound) (t :: ts) = .ok (more, rest)) :
    (op? t.kind = none ∧ more = [] ∧ rest = t :: ts) ∨
    ∃ op rhs us tail, op? t.kind = some op ∧ p ts = .ok (rhs, us) ∧
      run op? p bound us = .ok (tail, rest) ∧ more = (op, t.pos, rhs) :: tail := by
  simp only [run] at h
  split at h
  · next missed =>
    cases h
    exact .inl ⟨missed, rfl, rfl⟩
  · next op sign =>
    simp only [bind_eq_ok, Prod.exists, pure_eq_ok] at h
    obtain ⟨rhs, us, read, tail, rest', runs, eq⟩ := h
    cases eq
    exact .inr ⟨op, rhs, us, tail, sign, read, runs, rfl⟩

def continueRun {α : Type} (op? : TokenKind → Option α) (node : α → Expr → Expr → Position → Expr)
    (p : Parser Expr) (first : Expr) (bound : List Token) : Parser Expr := fun ts => do
  let (more, rest) ← run op? p bound ts
  return (more.foldl (fun lhs (op, pos, rhs) => node op lhs rhs pos) first, rest)

theorem leftRun_eq {α : Type} {op? : TokenKind → Option α}
    {node : α → Expr → Expr → Position → Expr} {p : Parser Expr} {ts rest : List Token}
    {first : Expr} (read : p ts = .ok (first, rest)) :
    leftRun op? node p ts = continueRun op? node p first rest rest := by
  simp only [leftRun, read, continueRun]
  rfl

theorem leftRun_eq_ok {α : Type} {op? : TokenKind → Option α}
    {node : α → Expr → Expr → Position → Expr} {p : Parser Expr} {ts rest : List Token} {e : Expr}
    (h : leftRun op? node p ts = .ok (e, rest)) :
    ∃ first more us, p ts = .ok (first, us) ∧ run op? p us us = .ok (more, rest) ∧
      e = more.foldl (fun lhs (op, pos, rhs) => node op lhs rhs pos) first := by
  simp only [leftRun, bind_eq_ok, Prod.exists, pure_eq_ok] at h
  obtain ⟨first, us, read, more, rest', runs, eq⟩ := h
  cases eq
  exact ⟨first, more, us, read, runs, rfl⟩

theorem continueRun_stop {α : Type} {op? : TokenKind → Option α}
    {node : α → Expr → Expr → Position → Expr} {p : Parser Expr} {rest : List Token}
    (first : Expr) (bound : List Token) (stop : ∀ t ∈ rest.head?, op? t.kind = none) :
    continueRun op? node p first bound rest = .ok (first, rest) := by
  simp only [continueRun, run_stop bound stop]
  rfl

theorem continueRun_step {α : Type} {op? : TokenKind → Option α}
    {node : α → Expr → Expr → Position → Expr} {p : Parser Expr} {op : α} {rhs : Expr}
    {b t : Token} {bound ts rest : List Token} (first : Expr) (sign : op? t.kind = some op)
    (read : p ts = .ok (rhs, rest)) :
    continueRun op? node p first (b :: bound) (t :: ts) =
      continueRun op? node p (node op first rhs t.pos) bound rest := by
  simp only [continueRun, run_step sign read]
  cases run op? p bound rest <;> rfl

def chained (first : Expr) : List (ComparisonOp × Position × Expr) → Expr
  | [] => first
  | (op, pos, e) :: more => .comparison (first :: e :: more.map (·.2.2)) (op :: more.map (·.1)) pos

theorem comparison_eq (operand : Parser Expr) : comparison operand = fun ts =>
    term operand ts >>= fun r => run TokenKind.comparisonOp? (term operand) r.2 r.2 >>= fun s =>
      .ok (chained r.1 s.1, s.2) := by
  funext ts
  simp only [comparison]
  cases term operand ts with
  | error fault => rfl
  | ok first =>
    simp only [ok_bind]
    cases run TokenKind.comparisonOp? (term operand) first.2 first.2 with
    | error fault => rfl
    | ok chain =>
      obtain ⟨more, rest⟩ := chain
      cases more <;> rfl

theorem comparison_term {operand : Parser Expr} {e : Expr} {ts rest : List Token}
    (first : term operand ts = .ok (e, rest))
    (stop : ∀ t ∈ rest.head?, t.kind.comparisonOp? = none) :
    comparison operand ts = .ok (e, rest) := by
  simp only [comparison_eq, first, ok_bind, run_stop rest stop, chained]

theorem comparison_chain {operand : Parser Expr} {e f : Expr} {op : ComparisonOp} {pos : Position}
    {more : List (ComparisonOp × Position × Expr)} {ts us rest : List Token}
    (first : term operand ts = .ok (e, us))
    (chain : run TokenKind.comparisonOp? (term operand) us us = .ok ((op, pos, f) :: more, rest)) :
    comparison operand ts =
      .ok (.comparison (e :: f :: more.map (·.2.2)) (op :: more.map (·.1)) pos, rest) := by
  simp only [comparison_eq, first, ok_bind, chain, chained]

theorem comparison_eq_ok {operand : Parser Expr} {ts rest : List Token} {e : Expr}
    (h : comparison operand ts = .ok (e, rest)) :
    ∃ first more us, term operand ts = .ok (first, us) ∧
      run TokenKind.comparisonOp? (term operand) us us = .ok (more, rest) ∧
      e = chained first more := by
  simp only [comparison_eq, bind_eq_ok, Prod.exists] at h
  obtain ⟨first, us, read, more, rest', runs, eq⟩ := h
  cases eq
  exact ⟨first, more, us, read, runs, rfl⟩

theorem arguments_last {expr : Parser Expr} {b : Token} {bound ts rest : List Token} {e : Expr}
    (read : expr ts = .ok (e, rest)) (stop : ∀ t ∈ rest.head?, t.kind ≠ .comma) :
    arguments expr (b :: bound) ts = .ok ([e], rest) := by
  simp only [arguments, read, ok_bind, next?_eq_none.mpr stop, pure_eq_ok]

theorem arguments_more {expr : Parser Expr} {b c : Token} {bound ts us rest : List Token} {e : Expr}
    {es : List Expr} (read : expr ts = .ok (e, c :: us)) (comma : c.kind = .comma)
    (more : arguments expr bound us = .ok (es, rest)) :
    arguments expr (b :: bound) ts = .ok (e :: es, rest) := by
  simp only [arguments, read, ok_bind, next?_cons comma, more, pure_eq_ok]

theorem arguments_cons_eq_ok {expr : Parser Expr} {b : Token} {bound ts rest : List Token}
    {es : List Expr} (h : arguments expr (b :: bound) ts = .ok (es, rest)) :
    ∃ e us, expr ts = .ok (e, us) ∧
      ((es = [e] ∧ rest = us ∧ ∀ t ∈ us.head?, t.kind ≠ .comma) ∨
      ∃ c vs more, us = c :: vs ∧ c.kind = .comma ∧ arguments expr bound vs = .ok (more, rest) ∧
        es = e :: more) := by
  simp only [arguments, bind_eq_ok, Prod.exists] at h
  obtain ⟨e, us, read, h⟩ := h
  refine ⟨e, us, read, ?_⟩
  split at h
  · next next =>
    cases h
    exact .inl ⟨rfl, rfl, next?_eq_none.mp next⟩
  · next c vs next =>
    obtain ⟨rfl, comma⟩ := next?_eq_some.mp next
    simp only [bind_eq_ok, Prod.exists, pure_eq_ok] at h
    obtain ⟨more, rest', args, eq⟩ := h
    cases eq
    exact .inr ⟨c, vs, more, rfl, comma, args, rfl⟩

theorem enter_eq_ok {α : Type} {inner : Option α} {pos : Position} {below : α} :
    enter inner pos = .ok below ↔ inner = some below := by
  cases inner <;> simp [enter]

theorem primary_literal {inner : Option (Parser Expr)} {t : Token} {v : Literal}
    (kind : t.kind = .integer ∨ t.kind = .float ∨ t.kind = .string) (value : t.literal = some v)
    (rest : List Token) : primary inner (t :: rest) = .ok (.literal v t.pos, rest) := by
  rcases kind with kind | kind | kind <;> simp only [primary, kind, value]

theorem primary_variable {inner : Option (Parser Expr)} {t : Token} {rest : List Token}
    (kind : t.kind = .identifier) (plain : ∀ u ∈ rest.head?, u.kind.extendsName = false) :
    primary inner (t :: rest) = .ok (.variable ⟨t.lexeme, t.pos⟩, rest) := by
  cases rest with
  | nil => simp only [primary, kind]
  | cons u rest =>
    obtain ⟨paren, sign⟩ := extendsName_eq_false.mp (plain u (by simp))
    simp only [primary, kind, if_neg paren, sign]

theorem primary_group {below : Parser Expr} {l r : Token} {e : Expr} {ts rest : List Token}
    (left : l.kind = .leftParen) (read : expression below ts = .ok (e, r :: rest))
    (right : r.kind = .rightParen) : primary (some below) (l :: ts) = .ok (e, rest) := by
  simp only [primary, left, group, enter, ok_bind, read, expect_cons right, pure_eq_ok]

theorem group_eq_ok {inner : Option (Parser Expr)} {pos : Position} {ts rest : List Token}
    {e : Expr} (h : group inner pos ts = .ok (e, rest)) :
    ∃ below r, inner = some below ∧ expression below ts = .ok (e, r :: rest) ∧
      r.kind = .rightParen := by
  simp only [group, bind_eq_ok, enter_eq_ok, Prod.exists, expect_eq_ok, pure_eq_ok] at h
  obtain ⟨below, room, e', us, read, r, rest', ⟨rfl, right⟩, eq⟩ := h
  cases eq
  exact ⟨below, r, room, read, right⟩

theorem primary_emptyCall {inner : Option (Parser Expr)} {t l r : Token}
    (kind : t.kind = .identifier) (left : l.kind = .leftParen) (right : r.kind = .rightParen)
    (rest : List Token) :
    primary inner (t :: l :: r :: rest) = .ok (.call ⟨t.lexeme, t.pos⟩ [], rest) := by
  simp only [primary, kind, left, call, next?_cons right, if_true, pure_eq_ok]

theorem primary_call {below : Parser Expr} {t l r : Token} {es : List Expr} {ts rest : List Token}
    (kind : t.kind = .identifier) (left : l.kind = .leftParen)
    (other : ∀ u ∈ ts.head?, u.kind ≠ .rightParen)
    (read : arguments (expression below) ts ts = .ok (es, r :: rest))
    (right : r.kind = .rightParen) :
    primary (some below) (t :: l :: ts) = .ok (.call ⟨t.lexeme, t.pos⟩ es, rest) := by
  simp only [primary, kind, left, call, next?_eq_none.mpr other, if_true, enter, ok_bind, read,
    expect_cons right, pure_eq_ok]

theorem call_eq_ok {inner : Option (Parser Expr)} {callee : Identifier} {ts rest : List Token}
    {e : Expr} (h : call inner callee ts = .ok (e, rest)) :
    (∃ r, ts = r :: rest ∧ r.kind = .rightParen ∧ e = .call callee []) ∨
    ∃ below es r, inner = some below ∧ arguments (expression below) ts ts = .ok (es, r :: rest) ∧
      r.kind = .rightParen ∧ e = .call callee es := by
  unfold call at h
  split at h
  · next r us next =>
    obtain ⟨rfl, right⟩ := next?_eq_some.mp next
    cases h
    exact .inl ⟨r, rfl, right, rfl⟩
  · simp only [bind_eq_ok, enter_eq_ok, Prod.exists, expect_eq_ok, pure_eq_ok] at h
    obtain ⟨below, room, es, us, read, r, rest', ⟨rfl, right⟩, eq⟩ := h
    cases eq
    exact .inr ⟨below, es, r, room, read, right, rfl⟩

theorem primary_assignment {below : Parser Expr} {t eq : Token} {e : Expr} {ts rest : List Token}
    (kind : t.kind = .identifier) (sign : eq.kind = .assign)
    (read : expression below ts = .ok (e, rest)) :
    primary (some below) (t :: eq :: ts) = .ok (.assignment ⟨t.lexeme, t.pos⟩ e, rest) := by
  simp [primary, kind, sign, assignmentOp?, assignment, enter, read]

theorem primary_compound {below : Parser Expr} {t eq : Token} {op : BinaryOp} {e : Expr}
    {ts rest : List Token} (kind : t.kind = .identifier) (sign : eq.kind = .compound op)
    (read : expression below ts = .ok (e, rest)) :
    primary (some below) (t :: eq :: ts) =
      .ok (.assignment ⟨t.lexeme, t.pos⟩
        (.binary op (.variable ⟨t.lexeme, t.pos⟩) e eq.pos), rest) := by
  simp [primary, kind, sign, assignmentOp?, assignment, enter, read]

def assigned (target : Identifier) (pos : Position) (value : Expr) : Option BinaryOp → Expr
  | none => value
  | some op => .binary op (.variable target) value pos

theorem assignment_eq_ok {inner : Option (Parser Expr)} {target : Identifier}
    {op : Option BinaryOp} {pos : Position} {ts rest : List Token} {e : Expr}
    (h : assignment inner target op pos ts = .ok (e, rest)) :
    ∃ below value, inner = some below ∧ expression below ts = .ok (value, rest) ∧
      e = .assignment target (assigned target pos value op) := by
  simp only [assignment, bind_eq_ok, enter_eq_ok, Prod.exists] at h
  obtain ⟨below, room, value, us, read, h⟩ := h
  cases op <;> cases h <;> exact ⟨below, value, room, read, rfl⟩

theorem primary_eq_ok {inner : Option (Parser Expr)} {ts rest : List Token} {e : Expr}
    (h : primary inner ts = .ok (e, rest)) : ∃ t us, ts = t :: us ∧
      ((∃ v, (t.kind = .integer ∨ t.kind = .float ∨ t.kind = .string) ∧ t.literal = some v ∧
          e = .literal v t.pos ∧ rest = us) ∨
        t.kind = .leftParen ∧ group inner t.pos us = .ok (e, rest) ∨
        t.kind = .identifier ∧
          (e = .variable ⟨t.lexeme, t.pos⟩ ∧ rest = us ∧
              (∀ u ∈ us.head?, u.kind.extendsName = false) ∨
            (∃ l vs, us = l :: vs ∧ l.kind = .leftParen ∧
              call inner ⟨t.lexeme, t.pos⟩ vs = .ok (e, rest)) ∨
            ∃ sign vs op, us = sign :: vs ∧ assignmentOp? sign.kind = some op ∧
              assignment inner ⟨t.lexeme, t.pos⟩ op sign.pos vs = .ok (e, rest))) := by
  cases ts with
  | nil => cases h
  | cons t us =>
    refine ⟨t, us, rfl, ?_⟩
    cases kind : t.kind
    case integer | float | string =>
      refine .inl ?_
      simp only [primary, kind] at h
      cases value : t.literal with
      | none => simp [value] at h
      | some v =>
        simp only [value] at h
        cases h
        exact ⟨v, by simp, rfl, rfl, rfl⟩
    case leftParen =>
      simp only [primary, kind] at h
      exact .inr (.inl ⟨rfl, h⟩)
    case identifier =>
      simp only [primary, kind] at h
      refine .inr (.inr ⟨rfl, ?_⟩)
      cases us with
      | nil =>
        cases h
        exact .inl ⟨rfl, rfl, by simp⟩
      | cons u vs =>
        simp only at h
        split at h
        · next left => exact .inr (.inl ⟨u, vs, rfl, left, h⟩)
        · next other =>
          split at h
          · next op sign => exact .inr (.inr ⟨u, vs, op, rfl, sign, h⟩)
          · next sign =>
            cases h
            exact .inl ⟨rfl, rfl, by simpa using extendsName_eq_false.mpr ⟨other, sign⟩⟩
    all_goals
      simp only [primary, kind] at h
      cases h

theorem power_caret {below : Parser Expr} {t : Token} {b e : Expr} {ts us rest : List Token}
    (base : primary (some below) ts = .ok (b, t :: us)) (sign : t.kind = .binary .power)
    (exponent : below us = .ok (e, rest)) :
    power (some below) ts = .ok (.binary .power b e t.pos, rest) := by
  simp only [power, base, ok_bind, next?_cons sign, enter, exponent, pure_eq_ok]

theorem power_primary {inner : Option (Parser Expr)} {b : Expr} {ts rest : List Token}
    (base : primary inner ts = .ok (b, rest)) (stop : ∀ t ∈ rest.head?, t.kind ≠ .binary .power) :
    power inner ts = .ok (b, rest) := by
  simp only [power, base, ok_bind, next?_eq_none.mpr stop, pure_eq_ok]

theorem power_eq_ok {inner : Option (Parser Expr)} {ts rest : List Token} {e : Expr}
    (h : power inner ts = .ok (e, rest)) :
    (primary inner ts = .ok (e, rest) ∧ ∀ t ∈ rest.head?, t.kind ≠ .binary .power) ∨
    ∃ below b exponent t us, inner = some below ∧ primary inner ts = .ok (b, t :: us) ∧
      t.kind = .binary .power ∧ below us = .ok (exponent, rest) ∧
      e = .binary .power b exponent t.pos := by
  simp only [power, bind_eq_ok, Prod.exists] at h
  obtain ⟨b, us, base, h⟩ := h
  split at h
  · next next =>
    cases h
    exact .inl ⟨base, next?_eq_none.mp next⟩
  · next t us' next =>
    obtain ⟨rfl, sign⟩ := next?_eq_some.mp next
    simp only [bind_eq_ok, enter_eq_ok, Prod.exists, pure_eq_ok] at h
    obtain ⟨below, room, exponent, us, read, eq⟩ := h
    cases eq
    exact .inr ⟨below, b, exponent, t, us', room, base, sign, read, rfl⟩

theorem operand_unary {below : Parser Expr} {t : Token} {op : UnaryOp} {e : Expr}
    {ts rest : List Token} (sign : t.kind.unaryOp? = some op) (read : below ts = .ok (e, rest)) :
    operand (some below) (t :: ts) = .ok (.unary op e t.pos, rest) := by
  simp only [operand, sign, enter, ok_bind, read, pure_eq_ok]

theorem operand_power {inner : Option (Parser Expr)} {t : Token} (plain : t.kind.unaryOp? = none)
    (ts : List Token) : operand inner (t :: ts) = power inner (t :: ts) := by
  simp only [operand, plain]

theorem operand_eq_ok {inner : Option (Parser Expr)} {ts rest : List Token} {e : Expr}
    (h : operand inner ts = .ok (e, rest)) :
    power inner ts = .ok (e, rest) ∨
    ∃ below op f t us, inner = some below ∧ ts = t :: us ∧ t.kind.unaryOp? = some op ∧
      below us = .ok (f, rest) ∧ e = .unary op f t.pos := by
  unfold operand at h
  split at h
  · cases h
  · next t us =>
    split at h
    · exact .inl h
    · next op sign =>
      simp only [bind_eq_ok, enter_eq_ok, Prod.exists, pure_eq_ok] at h
      obtain ⟨below, room, f, rest', read, eq⟩ := h
      cases eq
      exact .inr ⟨below, op, f, t, us, room, rfl, sign, read, rfl⟩

def inside : Nat → Option (Parser Expr)
  | 0 => none
  | room + 1 => some (operandWithin room)

theorem operandWithin_eq (room : Nat) : operandWithin room = operand (inside room) := by
  cases room <;> rfl

theorem block_braces {below : Parser (List Statement)} {l r : Token} {body : List Statement}
    {ts rest : List Token} (left : l.kind = .leftBrace) (read : below ts = .ok (body, r :: rest))
    (right : r.kind = .rightBrace) : block (some below) (l :: ts) = .ok (body, rest) := by
  simp only [block, expect_cons left, ok_bind, enter, read, expect_cons right, pure_eq_ok]

theorem block_eq_ok {inner : Option (Parser (List Statement))} {ts rest : List Token}
    {body : List Statement} (h : block inner ts = .ok (body, rest)) :
    ∃ below l us r, inner = some below ∧ ts = l :: us ∧ l.kind = .leftBrace ∧
      below us = .ok (body, r :: rest) ∧ r.kind = .rightBrace := by
  simp only [block, bind_eq_ok, Prod.exists, expect_eq_ok, enter_eq_ok, pure_eq_ok] at h
  obtain ⟨l, us, ⟨rfl, left⟩, below, room, body, _, read, r, _, ⟨rfl, right⟩, eq⟩ := h
  cases eq
  exact ⟨below, l, us, r, room, rfl, left, read, right⟩

def lastAlternative (body : Parser (List Statement)) : Parser (Option (List Statement)) :=
  peek (.keyword .otherwise) (fun rest => .ok (none, rest)) fun _ rest =>
    body rest >>= fun read => .ok (some read.1, read.2)

def alternatives (expr : Parser Expr) (body : Parser (List Statement)) :
    List Token → Parser (Option (List Statement))
  | [] => lastAlternative body
  | _ :: bound =>
    peek .elseIf (lastAlternative body) fun t rest =>
      expr rest >>= fun condition => body condition.2 >>= fun read =>
        alternatives expr body bound read.2 >>= fun otherwise =>
          .ok (some [.branch condition.1 read.1 otherwise.1 t.pos], otherwise.2)

-- The branches that start with `else if` nest in each other as they are read.
theorem alternatives_eq (expr : Parser Expr) (body : Parser (List Statement)) (bound : List Token) :
    ∀ ts, alternatives expr body bound ts = elseIfs expr body bound ts >>= fun more =>
      lastAlternative body more.2 >>= fun last =>
        .ok (more.1.foldr (fun (condition, statements, pos) otherwise =>
          some [.branch condition statements otherwise pos]) last.1, last.2) := by
  have alone (ts : List Token) :
      lastAlternative body ts = lastAlternative body ts >>= fun last => .ok (last.1, last.2) := by
    cases lastAlternative body ts <;> rfl
  induction bound with
  | nil => exact alone
  | cons b bound ih =>
    intro ts
    cases ts with
    | nil => exact alone []
    | cons t ts =>
      by_cases word : t.kind = .elseIf
      · simp only [alternatives, elseIfs, peek_cons word, next?_cons word]
        cases expr ts with
        | error fault => rfl
        | ok condition =>
          simp only [ok_bind]
          cases body condition.2 with
          | error fault => rfl
          | ok read =>
            simp only [ok_bind, ih]
            cases elseIfs expr body bound read.2 with
            | error fault => rfl
            | ok more =>
              simp only [ok_bind, pure_eq_ok]
              cases lastAlternative body more.2 <;> rfl
      · have other : ∀ u ∈ (t :: ts).head?, u.kind ≠ .elseIf := by simpa using word
        simp only [alternatives, elseIfs, peek_stop other, next?_eq_none.mpr other]
        exact alone _

theorem branch_eq (expr : Parser Expr) (body : Parser (List Statement)) (pos : Position) :
    branch expr body pos = fun ts => expr ts >>= fun condition => body condition.2 >>= fun read =>
      alternatives expr body read.2 read.2 >>= fun otherwise =>
        .ok (.branch condition.1 read.1 otherwise.1 pos, otherwise.2) := by
  funext ts
  simp only [branch, alternatives_eq, lastAlternative, peek]
  cases expr ts with
  | error fault => rfl
  | ok condition =>
    simp only [ok_bind]
    cases body condition.2 with
    | error fault => rfl
    | ok read =>
      simp only [ok_bind]
      cases elseIfs expr body read.2 read.2 with
      | error fault => rfl
      | ok more =>
        simp only [ok_bind]
        cases next? (.keyword .otherwise) more.2 with
        | none => rfl
        | some behind =>
          simp only
          cases body behind.2 <;> rfl

theorem alternatives_none {expr : Parser Expr} {body : Parser (List Statement)}
    {rest : List Token} (bound : List Token)
    (stop : ∀ t ∈ rest.head?, t.kind ≠ .elseIf ∧ t.kind ≠ .keyword .otherwise) :
    alternatives expr body bound rest = .ok (none, rest) := by
  have last : lastAlternative body rest = .ok (none, rest) :=
    peek_stop fun t head => (stop t head).2
  cases bound with
  | nil => exact last
  | cons b bound => exact (peek_stop fun t head => (stop t head).1).trans last

theorem alternatives_block {expr : Parser Expr} {body : Parser (List Statement)} {t : Token}
    {statements : List Statement} {ts rest : List Token} (bound : List Token)
    (word : t.kind = .keyword .otherwise) (read : body ts = .ok (statements, rest)) :
    alternatives expr body bound (t :: ts) = .ok (some statements, rest) := by
  have last : lastAlternative body (t :: ts) = .ok (some statements, rest) := by
    rw [lastAlternative, peek_cons word, read, ok_bind]
  cases bound with
  | nil => exact last
  | cons b bound => exact (peek_stop (by simp [word])).trans last

theorem alternatives_branch {expr : Parser Expr} {body : Parser (List Statement)} {b t : Token}
    {bound ts us vs rest : List Token} {c : Expr} {statements : List Statement}
    {otherwise : Option (List Statement)} (word : t.kind = .elseIf)
    (condition : expr ts = .ok (c, us)) (read : body us = .ok (statements, vs))
    (more : alternatives expr body bound vs = .ok (otherwise, rest)) :
    alternatives expr body (b :: bound) (t :: ts) =
      .ok (some [.branch c statements otherwise t.pos], rest) := by
  rw [alternatives, peek_cons word]
  simp only [condition, read, more, ok_bind]

theorem alternatives_eq_ok {expr : Parser Expr} {body : Parser (List Statement)}
    {bound ts rest : List Token} {otherwise : Option (List Statement)}
    (h : alternatives expr body bound ts = .ok (otherwise, rest)) :
    (otherwise = none ∧ rest = ts) ∨
    (∃ t us statements, ts = t :: us ∧ t.kind = .keyword .otherwise ∧
      body us = .ok (statements, rest) ∧ otherwise = some statements) ∨
    ∃ b bound' t us c vs statements ws more, bound = b :: bound' ∧ ts = t :: us ∧
      t.kind = .elseIf ∧ expr us = .ok (c, vs) ∧ body vs = .ok (statements, ws) ∧
      alternatives expr body bound' ws = .ok (more, rest) ∧
      otherwise = some [.branch c statements more t.pos] := by
  have last (h : lastAlternative body ts = .ok (otherwise, rest)) :
      (otherwise = none ∧ rest = ts) ∨ ∃ t us statements, ts = t :: us ∧
        t.kind = .keyword .otherwise ∧ body us = .ok (statements, rest) ∧
        otherwise = some statements := by
    rcases peek_eq h with ⟨h, -⟩ | ⟨t, us, rfl, word, h⟩
    · cases h
      exact .inl ⟨rfl, rfl⟩
    · simp only [bind_eq_ok, Prod.exists] at h
      obtain ⟨statements, _, read, eq⟩ := h
      cases eq
      exact .inr ⟨t, us, statements, rfl, word, read, rfl⟩
  cases bound with
  | nil => exact (last h).imp_right .inl
  | cons b bound =>
    rcases peek_eq h with ⟨h, -⟩ | ⟨t, us, rfl, word, h⟩
    · exact (last h).imp_right .inl
    · simp only [bind_eq_ok, Prod.exists] at h
      obtain ⟨c, vs, condition, statements, ws, read, more, _, later, eq⟩ := h
      cases eq
      exact .inr (.inr ⟨b, bound, t, us, c, vs, statements, ws, more, rfl, rfl, word, condition,
        read, later, rfl⟩)

theorem params_nil {b r : Token} {bound rest : List Token} (right : r.kind = .rightParen) :
    params (b :: bound) (r :: rest) = .ok ([], r :: rest) := by
  simp only [params, next?_cons right]

theorem params_last {b t r : Token} {bound rest : List Token} (kind : t.kind = .identifier)
    (own : isGlobalName t.lexeme = false) (right : r.kind = .rightParen) :
    params (b :: bound) (t :: r :: rest) = .ok ([⟨t.lexeme, t.pos⟩], r :: rest) := by
  simp [params, next?, expect, kind, own, right]

theorem params_more {b t c : Token} {bound ts rest : List Token} {names : List Identifier}
    (kind : t.kind = .identifier) (own : isGlobalName t.lexeme = false) (comma : c.kind = .comma)
    (more : params bound ts = .ok (names, rest)) :
    params (b :: bound) (t :: c :: ts) = .ok (⟨t.lexeme, t.pos⟩ :: names, rest) := by
  simp [params, next?, expect, kind, own, comma, more]

theorem params_cons_eq_ok {b : Token} {bound ts rest : List Token} {names : List Identifier}
    (h : params (b :: bound) ts = .ok (names, rest)) :
    (names = [] ∧ rest = ts) ∨
    ∃ t us, ts = t :: us ∧ t.kind = .identifier ∧ isGlobalName t.lexeme = false ∧
      ((names = [⟨t.lexeme, t.pos⟩] ∧ rest = us) ∨
      ∃ c vs more, us = c :: vs ∧ c.kind = .comma ∧ params bound vs = .ok (more, rest) ∧
        names = ⟨t.lexeme, t.pos⟩ :: more) := by
  simp only [params] at h
  split at h
  · cases h
    exact .inl ⟨rfl, rfl⟩
  · simp only [bind_eq_ok, Prod.exists, expect_eq_ok] at h
    obtain ⟨t, us, ⟨rfl, kind⟩, h⟩ := h
    refine .inr ⟨t, us, rfl, kind, ?_⟩
    cases own : isGlobalName t.lexeme with
    | true => simp [own] at h
    | false =>
      simp only [own, Bool.false_eq_true, if_false, pure_eq_ok] at h
      split at h
      · cases h
        exact ⟨rfl, .inl ⟨rfl, rfl⟩⟩
      · next c vs next =>
        obtain ⟨rfl, comma⟩ := next?_eq_some.mp next
        simp only [bind_eq_ok, Prod.exists] at h
        obtain ⟨more, _, read, eq⟩ := h
        cases eq
        exact ⟨rfl, .inr ⟨c, vs, more, rfl, comma, read, rfl⟩⟩

theorem function_block {body : Parser (List Statement)} {f l r : Token} {names : List Identifier}
    {statements : List Statement} {ts us rest : List Token} (name : f.kind = .identifier)
    (left : l.kind = .leftParen) (read : params ts ts = .ok (names, r :: us))
    (right : r.kind = .rightParen) (block : body us = .ok (statements, rest)) :
    function body (f :: l :: ts) = .ok (.function ⟨f.lexeme, f.pos⟩ names statements, rest) := by
  simp only [function, expect_cons name, expect_cons left, expect_cons right, read, block, ok_bind,
    pure_eq_ok]

theorem function_eq_ok {body : Parser (List Statement)} {s : Statement} {ts rest : List Token}
    (h : function body ts = .ok (s, rest)) :
    ∃ f l us names r vs statements, ts = f :: l :: us ∧ f.kind = .identifier ∧
      l.kind = .leftParen ∧ params us us = .ok (names, r :: vs) ∧ r.kind = .rightParen ∧
      body vs = .ok (statements, rest) ∧ s = .function ⟨f.lexeme, f.pos⟩ names statements := by
  simp only [function, bind_eq_ok, Prod.exists, expect_eq_ok, pure_eq_ok] at h
  obtain ⟨f, _, ⟨rfl, name⟩, l, us, ⟨rfl, left⟩, names, _, read, r, vs, ⟨rfl, right⟩, statements, _,
    block, eq⟩ := h
  cases eq
  exact ⟨f, l, us, names, r, vs, statements, rfl, name, left, read, right, block, rfl⟩

theorem loop_block {expr : Parser Expr} {body : Parser (List Statement)} {pos : Position} {c : Expr}
    {statements : List Statement} {ts us rest : List Token} (condition : expr ts = .ok (c, us))
    (block : body us = .ok (statements, rest)) :
    loop expr body pos ts = .ok (.loop c statements pos, rest) := by
  simp only [loop, condition, block, ok_bind, pure_eq_ok]

theorem loop_eq_ok {expr : Parser Expr} {body : Parser (List Statement)} {pos : Position}
    {s : Statement} {ts rest : List Token} (h : loop expr body pos ts = .ok (s, rest)) :
    ∃ c us statements, expr ts = .ok (c, us) ∧ body us = .ok (statements, rest) ∧
      s = .loop c statements pos := by
  simp only [loop, bind_eq_ok, Prod.exists, pure_eq_ok] at h
  obtain ⟨c, us, condition, statements, _, block, eq⟩ := h
  cases eq
  exact ⟨c, us, statements, condition, block, rfl⟩

theorem branch_eq_ok {expr : Parser Expr} {body : Parser (List Statement)} {pos : Position}
    {s : Statement} {ts rest : List Token} (h : branch expr body pos ts = .ok (s, rest)) :
    ∃ c us statements vs otherwise, expr ts = .ok (c, us) ∧ body us = .ok (statements, vs) ∧
      alternatives expr body vs vs = .ok (otherwise, rest) ∧
      s = .branch c statements otherwise pos := by
  simp only [branch_eq, bind_eq_ok, Prod.exists] at h
  obtain ⟨c, us, condition, statements, vs, read, otherwise, _, more, eq⟩ := h
  cases eq
  exact ⟨c, us, statements, vs, otherwise, condition, read, more, rfl⟩

theorem blockStatement?_eq_some {expr : Parser Expr} {body : Parser (List Statement)} {t : Token}
    {parser : Parser Statement} (found : blockStatement? expr body t = some parser) :
    t.kind = .keyword .branch ∧ parser = branch expr body t.pos ∨
    t.kind = .keyword .loop ∧ parser = loop expr body t.pos ∨
    t.kind = .keyword .function ∧ parser = function body := by
  unfold blockStatement? at found
  split at found
  · next kind => exact .inl ⟨kind, (Option.some.inj found).symm⟩
  · next kind => exact .inr (.inl ⟨kind, (Option.some.inj found).symm⟩)
  · next kind => exact .inr (.inr ⟨kind, (Option.some.inj found).symm⟩)
  · cases found

theorem control_none {expr : Parser Expr} {kind : ControlKind} (pos : Position) {rest : List Token}
    (stop : ∀ t ∈ rest.head?, t.kind = .semicolon ∨ t.kind = .rightBrace) :
    control expr kind pos rest = .ok (.control kind none pos, rest) := by
  cases rest with
  | nil => rfl
  | cons t rest => rw [control, if_pos (.inr (stop t rfl))]

theorem control_value {expr : Parser Expr} {e : Expr} (pos : Position) {t : Token}
    {ts rest : List Token} (goes : t.kind ≠ .semicolon ∧ t.kind ≠ .rightBrace)
    (read : expr (t :: ts) = .ok (e, rest)) :
    control expr .returnValue pos (t :: ts) = .ok (.control .returnValue (some e) pos, rest) := by
  simp [control, goes, read]

theorem control_eq_ok {expr : Parser Expr} {kind : ControlKind} {pos : Position} {s : Statement}
    {ts rest : List Token} (h : control expr kind pos ts = .ok (s, rest)) :
    (s = .control kind none pos ∧ rest = ts) ∨
    ∃ e, kind = .returnValue ∧ expr ts = .ok (e, rest) ∧
      s = .control .returnValue (some e) pos := by
  cases ts with
  | nil =>
    cases h
    exact .inl ⟨rfl, rfl⟩
  | cons t ts =>
    simp only [control] at h
    split at h
    · cases h
      exact .inl ⟨rfl, rfl⟩
    · next goes =>
      simp only [bind_eq_ok, Prod.exists, pure_eq_ok] at h
      obtain ⟨e, _, read, eq⟩ := h
      obtain rfl : kind = .returnValue :=
        Decidable.byContradiction fun other => goes (.inl other)
      cases eq
      exact .inr ⟨e, rfl, read, rfl⟩

theorem simpleStatement_control {expr : Parser Expr} {kind : ControlKind} {t : Token}
    (word : t.kind = .keyword (.control kind)) (ts : List Token) :
    simpleStatement expr (t :: ts) = control expr kind t.pos ts := by
  simp only [simpleStatement, word]

theorem simpleStatement_expression {expr : Parser Expr} {e : Expr} {t : Token}
    {ts rest : List Token} (starts : t.kind.startsPhrase = true)
    (read : expr (t :: ts) = .ok (e, rest)) :
    simpleStatement expr (t :: ts) = .ok (.expression e, rest) := by
  simp only [simpleStatement]
  split
  · next kind => simp [kind, TokenKind.startsPhrase] at starts
  · rw [read, ok_bind, pure_eq_ok]

theorem simpleStatement_eq_ok {expr : Parser Expr} {s : Statement} {ts rest : List Token}
    (h : simpleStatement expr ts = .ok (s, rest)) :
    (∃ e, expr ts = .ok (e, rest) ∧ s = .expression e) ∨
    ∃ t us kind, ts = t :: us ∧ t.kind = .keyword (.control kind) ∧
      control expr kind t.pos us = .ok (s, rest) := by
  cases ts with
  | nil => cases h
  | cons t ts =>
    simp only [simpleStatement] at h
    split at h
    · next kind word => exact .inr ⟨t, ts, kind, rfl, word, h⟩
    · simp only [bind_eq_ok, Prod.exists, pure_eq_ok] at h
      obtain ⟨e, _, read, eq⟩ := h
      cases eq
      exact .inl ⟨e, read, rfl⟩

def skipSemicolon (ts : List Token) : List Token := ((next? .semicolon ts).map (·.2)).getD ts

theorem skipSemicolon_cons {t : Token} (sign : t.kind = .semicolon) (ts : List Token) :
    skipSemicolon (t :: ts) = ts := by
  simp [skipSemicolon, next?, sign]

theorem skipSemicolon_of_other {ts : List Token} (other : ∀ t ∈ ts.head?, t.kind ≠ .semicolon) :
    skipSemicolon ts = ts := by
  simp [skipSemicolon, next?_eq_none.mpr other]

theorem skipSemicolon_cases (ts : List Token) :
    skipSemicolon ts = ts ∨ ∃ t, ts = t :: skipSemicolon ts ∧ t.kind = .semicolon := by
  cases ts with
  | nil => exact .inl rfl
  | cons t ts =>
    by_cases sign : t.kind = .semicolon
    · exact .inr ⟨t, by rw [skipSemicolon_cons sign], sign⟩
    · exact .inl (skipSemicolon_of_other (by simpa using sign))

section

variable {expr : Parser Expr} {body : Parser (List Statement)}

theorem statements_stop {rest : List Token} (bound : List Token)
    (stop : ∀ t ∈ rest.head?, t.kind = .rightBrace) :
    statements expr body bound rest = .ok ([], rest) := by
  cases bound with
  | nil => rfl
  | cons b bound =>
    cases rest with
    | nil => rfl
    | cons t rest => rw [statements, if_pos (stop t rfl)]

theorem statements_block {b t : Token} {bound ts rest : List Token} {parser : Parser Statement}
    {s : Statement} (found : blockStatement? expr body t = some parser)
    (read : parser ts = .ok (s, rest)) :
    statements expr body (b :: bound) (t :: ts) =
      (statements expr body bound (skipSemicolon rest)).map fun (more, rest) =>
        (s :: more, rest) := by
  have inside : t.kind ≠ .rightBrace := by
    intro brace
    simp [blockStatement?, brace] at found
  simp only [statements, if_neg inside, found, read, ok_bind]
  show (statements expr body bound (skipSemicolon rest) >>= _) = _
  cases statements expr body bound (skipSemicolon rest) <;> rfl

theorem statements_last {b t : Token} {bound ts rest : List Token} {s : Statement}
    (plain : blockStatement? expr body t = none) (inside : t.kind ≠ .rightBrace)
    (read : simpleStatement expr (t :: ts) = .ok (s, rest))
    (stop : ∀ t ∈ rest.head?, t.kind = .rightBrace) :
    statements expr body (b :: bound) (t :: ts) = .ok ([s], rest) := by
  simp only [statements, if_neg inside, plain, read, ok_bind]
  cases rest with
  | nil => rfl
  | cons u rest =>
    have brace : u.kind = .rightBrace := stop u rfl
    simp [brace]

theorem statements_simple {b t u : Token} {bound ts rest : List Token} {s : Statement}
    (plain : blockStatement? expr body t = none) (inside : t.kind ≠ .rightBrace)
    (read : simpleStatement expr (t :: ts) = .ok (s, u :: rest)) (sign : u.kind = .semicolon) :
    statements expr body (b :: bound) (t :: ts) =
      (statements expr body bound rest).map fun (more, rest) => (s :: more, rest) := by
  simp only [statements, if_neg inside, plain, read, ok_bind, if_pos sign]
  cases statements expr body bound rest <;> rfl

theorem statements_cons_eq_ok {b t : Token} {bound ts rest : List Token} {items : List Statement}
    (h : statements expr body (b :: bound) (t :: ts) = .ok (items, rest)) :
    (t.kind = .rightBrace ∧ items = [] ∧ rest = t :: ts) ∨
    (∃ parser s us more, blockStatement? expr body t = some parser ∧ parser ts = .ok (s, us) ∧
      statements expr body bound (skipSemicolon us) = .ok (more, rest) ∧ items = s :: more) ∨
    ∃ s us, simpleStatement expr (t :: ts) = .ok (s, us) ∧
      ((items = [s] ∧ rest = us ∧ ∀ u ∈ us.head?, u.kind = .rightBrace) ∨
      ∃ u vs more, us = u :: vs ∧ u.kind = .semicolon ∧
        statements expr body bound vs = .ok (more, rest) ∧ items = s :: more) := by
  simp only [statements] at h
  split at h
  · next brace =>
    cases h
    exact .inl ⟨brace, rfl, rfl⟩
  · split at h
    · next parser found =>
      simp only [bind_eq_ok, Prod.exists, pure_eq_ok] at h
      obtain ⟨s, us, read, more, _, later, eq⟩ := h
      cases eq
      exact .inr (.inl ⟨parser, s, us, more, found, read, later, rfl⟩)
    · simp only [bind_eq_ok, Prod.exists, pure_eq_ok] at h
      obtain ⟨s, us, read, h⟩ := h
      refine .inr (.inr ⟨s, us, read, ?_⟩)
      cases us with
      | nil =>
        cases h
        exact .inl ⟨rfl, rfl, by simp⟩
      | cons u us =>
        simp only at h
        split at h
        · next sign =>
          simp only [bind_eq_ok, Prod.exists] at h
          obtain ⟨more, _, later, eq⟩ := h
          cases eq
          exact .inr ⟨u, us, more, rfl, sign, later, rfl⟩
        · split at h
          · next brace =>
            cases h
            exact .inl ⟨rfl, rfl, by simpa using brace⟩
          · cases h

end

def insideBlock : Nat → Option (Parser (List Statement))
  | 0 => none
  | room + 1 => some (statementsWithin room)

theorem statementsWithin_eq (room : Nat) (ts : List Token) :
    statementsWithin room ts =
      statements (expressionWithin room) (block (insideBlock room)) ts ts := by
  cases room <;> rfl

def toEnd {α : Type} (p : Parser α) (ts : List Token) : Except SyntaxError α :=
  p ts >>= fun r =>
    match r.2 with
    | [] => .ok r.1
    | t :: _ => .error (unexpected t)

theorem toEnd_eq_ok {α : Type} {p : Parser α} {ts : List Token} {a : α} :
    toEnd p ts = .ok a ↔ p ts = .ok (a, []) := by
  cases read : p ts with
  | error e => simp [toEnd, read]
  | ok r =>
    obtain ⟨b, rest⟩ := r
    cases rest <;> simp [toEnd, read]

theorem programWithin_eq (room : Nat) : programWithin room = toEnd (statementsWithin room) := by
  funext ts
  simp only [programWithin, toEnd]
  cases statementsWithin room ts with
  | error e => rfl
  | ok r =>
    obtain ⟨items, rest⟩ := r
    cases rest <;> rfl

def soleWithin (room : Nat) : Parser Expr := fun ts =>
  expressionWithin room ts >>= fun r => .ok (r.1, skipSemicolon r.2)

theorem soleExpressionWithin_eq (room : Nat) :
    soleExpressionWithin room = toEnd (soleWithin room) := by
  funext ts
  simp only [soleExpressionWithin, toEnd, soleWithin]
  cases expressionWithin room ts with
  | error e => rfl
  | ok r =>
    obtain ⟨e, rest⟩ := r
    simp only [ok_bind]
    change (match skipSemicolon rest with
      | [] => pure e
      | t :: _ => Except.error (unexpected t)) = _
    cases skipSemicolon rest <;> rfl

end CalcScript.Parse
