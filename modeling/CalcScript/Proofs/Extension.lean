import CalcScript.Proofs.Reading

set_option autoImplicit false

namespace CalcScript.Parse

inductive Open {α : Type} : Except SyntaxError (α × List Token) → Prop
  | done (a : α) : Open (.ok (a, []))
  | incomplete : Open (.error .incomplete)
  | tooDeep (pos : Position) : Open (.error (.located pos .nestedTooDeeply))

inductive Agrees {α : Type} (us : List Token) (n : Nat) :
    Except SyntaxError (α × List Token) → Except SyntaxError (α × List Token) → Prop
  | ok (a : α) (rest : List Token) (le : rest.length ≤ n) :
      Agrees us n (.ok (a, rest)) (.ok (a, rest ++ us))
  | error (e : SyntaxError) : Agrees us n (.error e) (.error e)
  | tooDeep (pos : Position) (r : Except SyntaxError (α × List Token)) :
      Agrees us n (.error (.located pos .nestedTooDeeply)) r
  | atEnd (more : us ≠ []) {r : Except SyntaxError (α × List Token)} (opened : Open r)
      (s : Except SyntaxError (α × List Token)) : Agrees us n r s

structure FollowsTo {α : Type} (us : List Token) (n : Nat) (p q : Parser α) : Prop where
  agrees : ∀ ts, ts.length ≤ n → Agrees us ts.length (p ts) (q (ts ++ us))
  atEnd : Open (p [])

def Follows {α : Type} (us : List Token) (p q : Parser α) : Prop := ∀ n, FollowsTo us n p q

def FollowsInside {α : Type} (us : List Token) (inner inner' : Option (Parser α)) : Prop :=
  ∀ p, inner = some p → ∃ q, inner' = some q ∧ Follows us p q

theorem Agrees.mono {α : Type} {us : List Token} {n m : Nat}
    {r s : Except SyntaxError (α × List Token)} (agrees : Agrees us n r s) (le : n ≤ m) :
    Agrees us m r s := by
  cases agrees with
  | ok a rest short => exact .ok a rest (Nat.le_trans short le)
  | error e => exact .error e
  | tooDeep pos s => exact .tooDeep pos s
  | atEnd more opened s => exact .atEnd more opened s

namespace FollowsTo

variable {α β : Type} {us : List Token} {n : Nat}

-- It is enough to look at the first token, when nothing is left to do without one.
theorem of_cons {p q : Parser α} (opened : Open (p []))
    (nil : us = [] → Agrees us 0 (p []) (q []))
    (cons : ∀ t ts, ts.length < n → Agrees us (ts.length + 1) (p (t :: ts)) (q (t :: (ts ++ us)))) :
    FollowsTo us n p q where
  agrees ts le := by
    cases ts with
    | nil =>
      by_cases none : us = []
      · subst none
        exact nil rfl
      · exact .atEnd none opened _
    | cons t ts => exact cons t ts le
  atEnd := opened

theorem behind {p q : Parser α} (h : FollowsTo us n p q) {ts : List Token} (lt : ts.length ≤ n) :
    Agrees us (ts.length + 1) (p ts) (q (ts ++ us)) :=
  (h.agrees ts lt).mono (Nat.le_succ _)

theorem ok (a : α) : FollowsTo us n (fun ts => .ok (a, ts)) (fun ts => .ok (a, ts)) where
  agrees ts _ := .ok a ts (Nat.le_refl _)
  atEnd := .done a

theorem bind {p q : Parser α} {f g : α → Parser β} (first : FollowsTo us n p q)
    (later : ∀ a, FollowsTo us n (f a) (g a)) :
    FollowsTo us n (fun ts => p ts >>= fun r => f r.1 r.2)
      (fun ts => q ts >>= fun r => g r.1 r.2) := by
  have opened {r : Except SyntaxError (α × List Token)} (opened : Open r) :
      Open (r >>= fun r => f r.1 r.2) := by
    cases opened with
    | done a => exact (later a).atEnd
    | incomplete => exact .incomplete
    | tooDeep pos => exact .tooDeep pos
  refine ⟨fun ts le => ?_, opened first.atEnd⟩
  have agrees := first.agrees ts le
  revert agrees
  generalize p ts = r, q (ts ++ us) = s
  intro agrees
  cases agrees with
  | ok a rest short => exact ((later a).agrees rest (Nat.le_trans short le)).mono short
  | error e => exact .error e
  | tooDeep pos s => exact .tooDeep pos _
  | atEnd more ends s => exact .atEnd more (opened ends) _

theorem map {p q : Parser α} (f : α → β) (h : FollowsTo us n p q) :
    FollowsTo us n (fun ts => p ts >>= fun r => .ok (f r.1, r.2))
      (fun ts => q ts >>= fun r => .ok (f r.1, r.2)) :=
  h.bind fun a => ok (f a)

theorem enter {inner inner' : Option (Parser α)} {f g : Parser α → Parser β} (pos : Position)
    (inside : FollowsInside us inner inner')
    (later : ∀ p q, Follows us p q → FollowsTo us n (f p) (g q)) :
    FollowsTo us n (fun ts => Parse.enter inner pos >>= fun p => f p ts)
      (fun ts => Parse.enter inner' pos >>= fun q => g q ts) := by
  cases inner with
  | none => exact ⟨fun ts _ => .tooDeep pos _, .tooDeep pos⟩
  | some p =>
    obtain ⟨q, rfl, follows⟩ := inside p rfl
    exact later p q follows

theorem expect (kind : TokenKind) (fault : String → Fault) :
    FollowsTo us n (Parse.expect kind fault) (Parse.expect kind fault) := by
  refine of_cons .incomplete (fun _ => .error _) ?_
  intro t ts _
  simp only [Parse.expect]
  split
  · exact .ok t ts (Nat.le_succ _)
  · exact .error _

theorem peek (kind : TokenKind) {p q : Parser α} {f g : Token → Parser α}
    (without : FollowsTo us n p q) (behind : ∀ t, FollowsTo us (n - 1) (f t) (g t)) :
    FollowsTo us n (Parse.peek kind p f) (Parse.peek kind q g) := by
  refine of_cons without.atEnd ?_ ?_
  · rintro rfl
    exact without.agrees [] (Nat.zero_le n)
  · intro t ts lt
    by_cases kind : t.kind = kind
    · simp only [Parse.peek, next?_cons kind]
      exact (behind t).behind (Nat.le_sub_one_of_lt lt)
    · simp only [Parse.peek, next?, if_neg kind]
      exact without.agrees (t :: ts) lt

-- A loop that takes as many tokens as a bound for the tokens themselves.
theorem diagonal {p q : List Token → Parser α}
    (h : ∀ m bound, m ≤ bound.length → FollowsTo us m (p bound) (q (bound ++ us))) :
    FollowsTo us n (fun ts => p ts ts) (fun ts => q ts ts) where
  agrees ts _ := (h ts.length ts (Nat.le_refl _)).agrees ts (Nat.le_refl _)
  atEnd := (h 0 [] (Nat.le_refl _)).atEnd

theorem of_nil {p q : Parser α} (none : n ≤ 0) (opened : Open (p []))
    (nil : us = [] → Agrees us 0 (p []) (q [])) : FollowsTo us n p q :=
  of_cons opened nil fun _ _ lt => absurd lt (by omega)

end FollowsTo

section

variable {α : Type} {us : List Token} {p q : Parser Expr}

theorem run_follows {op? : TokenKind → Option α} (operand : Follows us p q) :
    ∀ n bound, n ≤ bound.length → FollowsTo us n (run op? p bound) (run op? q (bound ++ us)) := by
  have nil (p : Parser Expr) (bound : List Token) : run op? p bound [] = .ok ([], []) :=
    run_stop bound (by simp)
  have opened (bound : List Token) : Open (run op? p bound []) := nil p bound ▸ .done []
  have same (bound : List Token) (none : us = []) :
      Agrees us 0 (run op? p bound []) (run op? q (bound ++ us) []) := by
    rw [nil, nil, none]
    exact .ok [] [] (Nat.le_refl _)
  intro n bound
  induction bound generalizing n with
  | nil => exact fun le => .of_nil le (opened []) (same [])
  | cons b bound ih =>
    intro le
    refine .of_cons (opened _) (same _) fun t ts lt => ?_
    rw [List.cons_append, run, run]
    split
    · exact .ok [] (t :: ts) (Nat.le_refl _)
    · next op _ =>
      have step := (operand ts.length).bind fun rhs =>
        (ih ts.length (by simp at le; omega)).map fun more => (op, t.pos, rhs) :: more
      exact step.behind (Nat.le_refl _)

theorem leftRun_follows {op? : TokenKind → Option α} {node : α → Expr → Expr → Position → Expr}
    (operand : Follows us p q) : Follows us (leftRun op? node p) (leftRun op? node q) := fun n =>
  (operand n).bind fun _ => (FollowsTo.diagonal (run_follows operand)).map _

theorem factor_follows (operand : Follows us p q) : Follows us (factor p) (factor q) :=
  leftRun_follows operand

theorem term_follows (operand : Follows us p q) : Follows us (term p) (term q) :=
  leftRun_follows (factor_follows operand)

theorem comparison_follows (operand : Follows us p q) :
    Follows us (comparison p) (comparison q) := by
  rw [comparison_eq, comparison_eq]
  exact fun n => (term_follows operand n).bind fun first =>
    (FollowsTo.diagonal (run_follows (term_follows operand))).map (chained first)

theorem conjunction_follows (operand : Follows us p q) :
    Follows us (conjunction p) (conjunction q) :=
  leftRun_follows (comparison_follows operand)

theorem expression_follows (operand : Follows us p q) :
    Follows us (expression p) (expression q) :=
  leftRun_follows (conjunction_follows operand)

theorem arguments_follows (expr : Follows us p q) :
    ∀ n bound, n ≤ bound.length →
      FollowsTo us n (arguments p bound) (arguments q (bound ++ us)) := by
  intro n bound
  induction bound generalizing n with
  | nil =>
    intro le
    refine .of_nil le .incomplete ?_
    rintro rfl
    exact .error .incomplete
  | cons b bound ih =>
    intro le
    have later := ih (n - 1) (by simp at le; omega)
    exact (expr n).bind fun e =>
      FollowsTo.peek .comma (.ok [e]) fun _ => later.map fun more => e :: more

end

section

variable {us : List Token} {inner inner' : Option (Parser Expr)}

theorem group_follows (inside : FollowsInside us inner inner') (pos : Position) :
    Follows us (group inner pos) (group inner' pos) := fun n =>
  .enter pos inside fun _ _ operand =>
    (expression_follows operand n).bind fun e => (FollowsTo.expect _ _).bind fun _ => .ok e

theorem call_eq (inner : Option (Parser Expr)) (callee : Identifier) :
    call inner callee = peek .rightParen
      (fun ts => enter inner callee.pos >>= fun below =>
        arguments (expression below) ts ts >>= fun r =>
          expect .rightParen (.missing ')') r.2 >>= fun s => .ok (Expr.call callee r.1, s.2))
      (fun _ rest => .ok (Expr.call callee [], rest)) := by
  funext ts
  simp only [call, peek]
  cases next? .rightParen ts <;> rfl

theorem call_follows (inside : FollowsInside us inner inner') (callee : Identifier) :
    Follows us (call inner callee) (call inner' callee) := by
  intro n
  rw [call_eq, call_eq]
  exact .peek .rightParen (.enter callee.pos inside fun _ _ operand =>
    (FollowsTo.diagonal (arguments_follows (expression_follows operand))).bind fun args =>
      (FollowsTo.expect .rightParen (.missing ')')).bind fun _ => .ok (Expr.call callee args))
    fun _ => .ok _

theorem assignment_eq (inner : Option (Parser Expr)) (target : Identifier) (op : Option BinaryOp)
    (pos : Position) : assignment inner target op pos =
      fun ts => enter inner pos >>= fun below => expression below ts >>= fun r =>
        .ok (.assignment target (assigned target pos r.1 op), r.2) := by
  cases op <;> rfl

theorem assignment_follows (inside : FollowsInside us inner inner') (target : Identifier)
    (op : Option BinaryOp) (pos : Position) :
    Follows us (assignment inner target op pos) (assignment inner' target op pos) := by
  rw [assignment_eq, assignment_eq]
  exact fun n => .enter pos inside fun _ _ operand =>
    (expression_follows operand n).map fun e =>
      Expr.assignment target (assigned target pos e op)

def behindName (inner : Option (Parser Expr)) (name : Identifier) : Parser Expr
  | [] => .ok (.variable name, [])
  | u :: rest =>
    if u.kind = .leftParen then call inner name rest
    else
      match assignmentOp? u.kind with
      | some op => assignment inner name op u.pos rest
      | none => .ok (.variable name, u :: rest)

theorem primary_eq_behindName {t : Token} (kind : t.kind = .identifier)
    (inner : Option (Parser Expr)) (ts : List Token) :
    primary inner (t :: ts) = behindName inner ⟨t.lexeme, t.pos⟩ ts := by
  rw [primary, kind]
  cases ts <;> rfl

theorem behindName_follows (inside : FollowsInside us inner inner') (name : Identifier) :
    Follows us (behindName inner name) (behindName inner' name) := by
  intro n
  refine .of_cons (.done _) ?_ fun u rest lt => ?_
  · rintro rfl
    exact .ok _ [] (Nat.le_refl _)
  · simp only [behindName]
    split
    · exact (call_follows inside name n).behind (Nat.le_of_lt lt)
    · split
      · next op _ => exact (assignment_follows inside name op u.pos n).behind (Nat.le_of_lt lt)
      · exact .ok _ (u :: rest) (Nat.le_refl _)

theorem primary_follows (inside : FollowsInside us inner inner') :
    Follows us (primary inner) (primary inner') := by
  intro n
  refine .of_cons .incomplete (fun _ => .error _) fun t ts lt => ?_
  have le := Nat.le_of_lt lt
  cases kind : t.kind
  case identifier =>
    rw [primary_eq_behindName kind, primary_eq_behindName kind]
    exact (behindName_follows inside _ n).behind le
  case integer | float | string =>
    simp only [primary, kind]
    cases t.literal with
    | some v => exact .ok (Expr.literal v t.pos) ts (Nat.le_succ _)
    | none => exact .error _
  case leftParen =>
    simp only [primary, kind]
    exact (group_follows inside t.pos n).behind le
  all_goals
    simp only [primary, kind]
    exact .error _

theorem power_follows (inside : FollowsInside us inner inner') :
    Follows us (power inner) (power inner') := fun n =>
  (primary_follows inside n).bind fun b =>
    FollowsTo.peek (.binary .power) (.ok b) fun caret =>
      .enter caret.pos inside fun _ _ below => (below (n - 1)).bind fun e =>
        .ok (Expr.binary .power b e caret.pos)

theorem operand_follows (inside : FollowsInside us inner inner') :
    Follows us (operand inner) (operand inner') := by
  intro n
  refine .of_cons .incomplete (fun _ => .error _) fun t ts lt => ?_
  rw [operand, operand]
  split
  · exact (power_follows inside n).agrees (t :: ts) lt
  · next op _ =>
    have step := FollowsTo.enter (n := n) t.pos inside fun _ _ below =>
      (below n).bind fun e => .ok (Expr.unary op e t.pos)
    exact step.behind (Nat.le_of_lt lt)

end

section

variable {us : List Token}

theorem block_follows {inner inner' : Option (Parser (List Statement))}
    (inside : FollowsInside us inner inner') : Follows us (block inner) (block inner') := fun n =>
  (FollowsTo.expect .leftBrace (.missing '{')).bind fun brace =>
    .enter brace.pos inside fun _ _ below => (below n).bind fun body =>
      (FollowsTo.expect .rightBrace (.missing '}')).bind fun _ => .ok body

variable {expr expr' : Parser Expr} {body body' : Parser (List Statement)}

theorem lastAlternative_follows (block : Follows us body body') :
    Follows us (lastAlternative body) (lastAlternative body') := fun n =>
  .peek (.keyword .otherwise) (.ok none) fun _ => (block (n - 1)).map some

theorem alternatives_follows (condition : Follows us expr expr') (block : Follows us body body') :
    ∀ n bound, n ≤ bound.length →
      FollowsTo us n (alternatives expr body bound) (alternatives expr' body' (bound ++ us)) := by
  intro n bound
  induction bound generalizing n with
  | nil =>
    intro le
    refine .of_nil le (.done none) ?_
    rintro rfl
    exact .ok none [] (Nat.le_refl _)
  | cons b bound ih =>
    intro le
    have later := ih (n - 1) (by simp at le; omega)
    exact .peek .elseIf (lastAlternative_follows block n) fun t =>
      (condition (n - 1)).bind fun c => (block (n - 1)).bind fun statements =>
        later.map fun otherwise => some [Statement.branch c statements otherwise t.pos]

theorem branch_follows (condition : Follows us expr expr') (block : Follows us body body')
    (pos : Position) : Follows us (branch expr body pos) (branch expr' body' pos) := by
  rw [branch_eq, branch_eq]
  exact fun n => (condition n).bind fun c => (block n).bind fun statements =>
    (FollowsTo.diagonal (alternatives_follows condition block)).map fun otherwise =>
      Statement.branch c statements otherwise pos

theorem loop_follows (condition : Follows us expr expr') (block : Follows us body body')
    (pos : Position) : Follows us (loop expr body pos) (loop expr' body' pos) := fun n =>
  (condition n).bind fun c => (block n).map fun statements => Statement.loop c statements pos

theorem params_follows : ∀ n bound, n ≤ bound.length →
    FollowsTo us n (params bound) (params (bound ++ us)) := by
  intro n bound
  induction bound generalizing n with
  | nil =>
    intro le
    refine .of_nil le .incomplete ?_
    rintro rfl
    exact .error .incomplete
  | cons b bound ih =>
    intro le
    have later := ih (n - 1 - 1) (by simp at le; omega)
    refine .of_cons .incomplete (fun _ => .error .incomplete) fun t ts lt => ?_
    rw [List.cons_append, params, params]
    by_cases right : t.kind = .rightParen
    · rw [next?_cons right, next?_cons right]
      exact .ok [] (t :: ts) (Nat.le_refl _)
    · have other (rest : List Token) : next? .rightParen (t :: rest) = none :=
        next?_eq_none.mpr (by simpa using right)
      simp only [other]
      by_cases name : t.kind = .identifier
      · rw [expect_cons name, expect_cons name]
        cases own : isGlobalName t.lexeme with
        | true =>
          simp only [ok_bind, own]
          exact .error _
        | false =>
          have stop : FollowsTo us (n - 1) (fun ts => .ok ([(⟨t.lexeme, t.pos⟩ : Identifier)], ts))
            fun ts => .ok ([⟨t.lexeme, t.pos⟩], ts) := .ok _
          have step := stop.peek .comma fun _ => later.map fun more => ⟨t.lexeme, t.pos⟩ :: more
          simp only [ok_bind, own]
          exact step.behind (by omega)
      · have fails (rest : List Token) : expect .identifier .notAnIdentifier (t :: rest) =
            .error (.located t.pos (.notAnIdentifier t.lexeme)) := by
          rw [expect, if_neg name]
        rw [fails, fails]
        exact .error _

theorem function_follows (block : Follows us body body') :
    Follows us (function body) (function body') := fun n =>
  (FollowsTo.expect .identifier .notAnIdentifier).bind fun name =>
    (FollowsTo.expect .leftParen (.missing '(')).bind fun _ =>
      (FollowsTo.diagonal params_follows).bind fun names =>
        (FollowsTo.expect .rightParen (.missing ')')).bind fun _ =>
          (block n).map fun statements =>
            Statement.function ⟨name.lexeme, name.pos⟩ names statements

theorem control_follows (value : Follows us expr expr') (kind : ControlKind) (pos : Position) :
    Follows us (control expr kind pos) (control expr' kind pos) := by
  intro n
  refine .of_cons (.done _) ?_ fun t ts lt => ?_
  · rintro rfl
    exact .ok _ [] (Nat.le_refl _)
  · rw [control, control]
    split
    · exact .ok _ (t :: ts) (Nat.le_refl _)
    · exact ((value n).map fun e => Statement.control kind (some e) pos).agrees (t :: ts) lt

theorem simpleStatement_follows (value : Follows us expr expr') :
    Follows us (simpleStatement expr) (simpleStatement expr') := by
  intro n
  refine .of_cons .incomplete (fun _ => .error _) fun t ts lt => ?_
  rw [simpleStatement, simpleStatement]
  split
  · next kind _ => exact (control_follows value kind t.pos n).behind (Nat.le_of_lt lt)
  · exact ((value n).map Statement.expression).agrees (t :: ts) lt

theorem blockStatement?_follows (condition : Follows us expr expr')
    (block : Follows us body body') (t : Token) :
    blockStatement? expr body t = none ∧ blockStatement? expr' body' t = none ∨
    ∃ p q, blockStatement? expr body t = some p ∧ blockStatement? expr' body' t = some q ∧
      Follows us p q := by
  cases kind : t.kind with
  | keyword word =>
    cases word with
    | branch =>
      exact .inr ⟨_, _, by rw [blockStatement?, kind], by rw [blockStatement?, kind],
        branch_follows condition block t.pos⟩
    | loop =>
      exact .inr ⟨_, _, by rw [blockStatement?, kind], by rw [blockStatement?, kind],
        loop_follows condition block t.pos⟩
    | function =>
      exact .inr ⟨_, _, by rw [blockStatement?, kind], by rw [blockStatement?, kind],
        function_follows block⟩
    | control _ | otherwise =>
      exact .inl ⟨by rw [blockStatement?, kind], by rw [blockStatement?, kind]⟩
  | _ => exact .inl ⟨by rw [blockStatement?, kind], by rw [blockStatement?, kind]⟩

theorem skipSemicolon_follows {n : Nat} : FollowsTo us n (fun ts => .ok ((), skipSemicolon ts))
    (fun ts => .ok ((), skipSemicolon ts)) := by
  refine .of_cons (.done ()) ?_ fun t ts _ => ?_
  · rintro rfl
    exact .ok () [] (Nat.le_refl _)
  · by_cases sign : t.kind = .semicolon
    · rw [skipSemicolon_cons sign, skipSemicolon_cons sign]
      exact .ok () ts (Nat.le_succ _)
    · have other (rest : List Token) : ∀ u ∈ (t :: rest).head?, u.kind ≠ .semicolon := by
        simpa using sign
      rw [skipSemicolon_of_other (other ts), skipSemicolon_of_other (other _)]
      exact .ok () (t :: ts) (Nat.le_refl _)

def behindSimple (expr : Parser Expr) (body : Parser (List Statement)) (bound : List Token)
    (s : Statement) : Parser (List Statement)
  | [] => .ok ([s], [])
  | u :: rest =>
    if u.kind = .semicolon then
      statements expr body bound rest >>= fun more => .ok (s :: more.1, more.2)
    else if u.kind = .rightBrace then .ok ([s], u :: rest)
    else .error (.located u.pos (.missing ';' u.lexeme))

theorem statements_of_simple {b t : Token} (bound ts : List Token) (inside : t.kind ≠ .rightBrace)
    (plain : blockStatement? expr body t = none) : statements expr body (b :: bound) (t :: ts) =
      simpleStatement expr (t :: ts) >>= fun r => behindSimple expr body bound r.1 r.2 := by
  simp only [statements, if_neg inside, plain]
  cases simpleStatement expr (t :: ts) with
  | error fault => rfl
  | ok read =>
    obtain ⟨s, rest⟩ := read
    cases rest <;> rfl

theorem behindSimple_follows {n : Nat} {bound : List Token}
    (later : FollowsTo us n (statements expr body bound) (statements expr' body' (bound ++ us)))
    (s : Statement) : FollowsTo us (n + 1) (behindSimple expr body bound s)
      (behindSimple expr' body' (bound ++ us) s) := by
  refine .of_cons (.done _) ?_ fun u rest lt => ?_
  · rintro rfl
    exact .ok _ [] (Nat.le_refl _)
  · simp only [behindSimple]
    split
    · exact (later.map fun more => s :: more).behind (Nat.le_of_lt_succ lt)
    · split
      · exact .ok _ (u :: rest) (Nat.le_refl _)
      · exact .error _

theorem statements_follows (condition : Follows us expr expr') (block : Follows us body body') :
    ∀ n bound, n ≤ bound.length →
      FollowsTo us n (statements expr body bound) (statements expr' body' (bound ++ us)) := by
  have nil (expr : Parser Expr) (body : Parser (List Statement)) (bound : List Token) :
      statements expr body bound [] = .ok ([], []) := statements_stop bound (by simp)
  have opened (bound : List Token) : Open (statements expr body bound []) :=
    nil expr body bound ▸ .done []
  have same (bound : List Token) (none : us = []) :
      Agrees us 0 (statements expr body bound []) (statements expr' body' (bound ++ us) []) := by
    rw [nil, nil, none]
    exact .ok [] [] (Nat.le_refl _)
  intro n bound
  induction bound generalizing n with
  | nil => exact fun le => .of_nil le (opened []) (same [])
  | cons b bound ih =>
    intro le
    refine .of_cons (opened _) (same _) fun t ts lt => ?_
    have later := ih ts.length (by simp at le; omega)
    by_cases brace : t.kind = .rightBrace
    · rw [statements_stop _ (by simpa using brace), statements_stop _ (by simpa using brace)]
      exact .ok [] (t :: ts) (Nat.le_refl _)
    · rcases blockStatement?_follows condition block t with ⟨eq, eq'⟩ | ⟨p, q, eq, eq', parser⟩
      · rw [List.cons_append, statements_of_simple _ _ brace eq, statements_of_simple _ _ brace eq']
        have step := (simpleStatement_follows condition _).bind fun s =>
          behindSimple_follows later s
        exact step.agrees (t :: ts) (Nat.le_refl _)
      · rw [List.cons_append, statements, statements, if_neg brace, if_neg brace, eq, eq']
        have step := (parser ts.length).bind fun s => skipSemicolon_follows.bind fun _ =>
          later.map fun more => s :: more
        exact step.behind (Nat.le_refl _)

end

section

variable {us : List Token}

theorem operandWithin_follows {room room' : Nat} (le : room ≤ room') :
    Follows us (operandWithin room) (operandWithin room') := by
  induction room generalizing room' with
  | zero =>
    rw [operandWithin_eq room']
    exact operand_follows fun p found => nomatch found
  | succ room ih =>
    cases room' with
    | zero => omega
    | succ room' =>
      refine operand_follows fun p found => ⟨_, rfl, ?_⟩
      cases found
      exact ih (by omega)

theorem expressionWithin_follows {room room' : Nat} (le : room ≤ room') :
    Follows us (expressionWithin room) (expressionWithin room') :=
  expression_follows (operandWithin_follows le)

theorem soleWithin_follows {room room' : Nat} (le : room ≤ room') :
    Follows us (soleWithin room) (soleWithin room') := fun n =>
  (expressionWithin_follows le n).bind fun e => skipSemicolon_follows.map fun _ => e

theorem list_follows {expr expr' : Parser Expr} {inner inner' : Option (Parser (List Statement))}
    (condition : Follows us expr expr') (inside : FollowsInside us inner inner') :
    Follows us (fun ts => statements expr (block inner) ts ts)
      (fun ts => statements expr' (block inner') ts ts) := fun _ =>
  .diagonal (statements_follows condition (block_follows inside))

theorem statementsWithin_follows {room room' : Nat} (le : room ≤ room') :
    Follows us (statementsWithin room) (statementsWithin room') := by
  have eq (room : Nat) : statementsWithin room =
      fun ts => statements (expressionWithin room) (block (insideBlock room)) ts ts :=
    funext (statementsWithin_eq room)
  induction room generalizing room' with
  | zero =>
    rw [eq, eq]
    exact list_follows (expressionWithin_follows le) fun p found => nomatch found
  | succ room ih =>
    cases room' with
    | zero => omega
    | succ room' =>
      rw [eq, eq]
      refine list_follows (expressionWithin_follows le) fun p found => ⟨_, rfl, ?_⟩
      cases found
      exact ih (by omega)

end

theorem Follows.fails {α : Type} {p : Parser α} {ts us : List Token} (follows : Follows us p p)
    {pos : Position} {fault : Fault} (failed : p ts = .error (.located pos fault))
    (other : fault ≠ .nestedTooDeeply) : p (ts ++ us) = .error (.located pos fault) := by
  have agrees := (follows ts.length).agrees ts (Nat.le_refl _)
  rw [failed] at agrees
  generalize p (ts ++ us) = r at agrees
  cases agrees with
  | error => rfl
  | tooDeep => exact absurd rfl other
  | atEnd _ opened =>
    cases opened
    exact absurd rfl other

theorem Follows.stops {α : Type} {p : Parser α} {ts us : List Token} (follows : Follows us p p)
    {a : α} {t : Token} {rest : List Token} (read : p ts = .ok (a, t :: rest)) :
    p (ts ++ us) = .ok (a, t :: (rest ++ us)) := by
  have agrees := (follows ts.length).agrees ts (Nat.le_refl _)
  rw [read] at agrees
  generalize p (ts ++ us) = r at agrees
  cases agrees with
  | ok => rfl
  | atEnd _ opened => cases opened

theorem toEnd_fails {α : Type} {p : Parser α} {ts us : List Token} (follows : Follows us p p)
    {pos : Position} {fault : Fault} (failed : toEnd p ts = .error (.located pos fault))
    (other : fault ≠ .nestedTooDeeply) : toEnd p (ts ++ us) = .error (.located pos fault) := by
  cases read : p ts with
  | error e =>
    obtain rfl : e = .located pos fault := by simpa [toEnd, read] using failed
    simp only [toEnd, follows.fails read other, error_bind]
  | ok result =>
    obtain ⟨a, rest⟩ := result
    cases rest with
    | nil => simp [toEnd, read] at failed
    | cons t rest =>
      simp only [toEnd, read, ok_bind] at failed
      simp only [toEnd, follows.stops read, ok_bind, failed]

theorem programWithin_fails {room : Nat} {ts : List Token} {pos : Position} {fault : Fault}
    (failed : programWithin room ts = .error (.located pos fault))
    (other : fault ≠ .nestedTooDeeply) (us : List Token) :
    programWithin room (ts ++ us) = .error (.located pos fault) := by
  rw [programWithin_eq] at failed ⊢
  exact toEnd_fails (statementsWithin_follows (Nat.le_refl _)) failed other

theorem soleExpressionWithin_fails {room : Nat} {ts : List Token} {pos : Position} {fault : Fault}
    (failed : soleExpressionWithin room ts = .error (.located pos fault))
    (other : fault ≠ .nestedTooDeeply) (us : List Token) :
    soleExpressionWithin room (ts ++ us) = .error (.located pos fault) := by
  rw [soleExpressionWithin_eq] at failed ⊢
  exact toEnd_fails (soleWithin_follows (Nat.le_refl _)) failed other

end CalcScript.Parse
