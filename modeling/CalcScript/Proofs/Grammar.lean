import CalcScript.Proofs.Precedence

set_option autoImplicit false

namespace CalcScript

namespace Grammar

def endsInName (ts : List Token) : Bool :=
  match ts.getLast? with
  | some t => t.kind = .identifier
  | none => false

def Ends (level : Level) (used : List Token) : List Token → Prop
  | [] => True
  | t :: _ => level.takes t.kind = false ∧ (endsInName used = true → t.kind.extendsName = false)

-- A bare assignment takes everything it can, so behind it an expression of any level is at its end.
def reach (level : Level) (last : Bool) : Level := if last then .disjunction else level

mutual

/-- An expression that holds together at least as tightly as a level. Only where it is the `last`
thing of all expressions around it may it end in a bare assignment. -/
inductive Phrase : Nat → Level → Bool → Expr → List Token → Prop
  | literal {room : Nat} {last : Bool} {t : Token} {v : Literal}
      (kind : t.kind = .integer ∨ t.kind = .float ∨ t.kind = .string)
      (value : t.literal = some v) :
      Phrase room .primary last (.literal v t.pos) [t]
  | variable {room : Nat} {last : Bool} {t : Token} (kind : t.kind = .identifier) :
      Phrase room .primary last (.variable ⟨t.lexeme, t.pos⟩) [t]
  | group {room : Nat} {last : Bool} {e : Expr} {l r : Token} {ts : List Token}
      (left : l.kind = .leftParen) (inside : Phrase room .disjunction true e ts)
      (right : r.kind = .rightParen) :
      Phrase (room + 1) .primary last e (l :: (ts ++ [r]))
  | emptyCall {room : Nat} {last : Bool} {t l r : Token} (kind : t.kind = .identifier)
      (left : l.kind = .leftParen) (right : r.kind = .rightParen) :
      Phrase room .primary last (.call ⟨t.lexeme, t.pos⟩ []) [t, l, r]
  | call {room : Nat} {last : Bool} {es : List Expr} {t l r : Token} {ts : List Token}
      (kind : t.kind = .identifier) (left : l.kind = .leftParen) (inside : Arguments room es ts)
      (right : r.kind = .rightParen) :
      Phrase (room + 1) .primary last (.call ⟨t.lexeme, t.pos⟩ es) (t :: l :: (ts ++ [r]))
  | assignment {room : Nat} {e : Expr} {t eq : Token} {ts : List Token}
      (kind : t.kind = .identifier) (sign : eq.kind = .assign)
      (value : Phrase room .disjunction true e ts) :
      Phrase (room + 1) .primary true (.assignment ⟨t.lexeme, t.pos⟩ e) (t :: eq :: ts)
  | compound {room : Nat} {op : BinaryOp} {e : Expr} {t eq : Token} {ts : List Token}
      (kind : t.kind = .identifier) (sign : eq.kind = .compound op)
      (value : Phrase room .disjunction true e ts) :
      Phrase (room + 1) .primary true
        (.assignment ⟨t.lexeme, t.pos⟩ (.binary op (.variable ⟨t.lexeme, t.pos⟩) e eq.pos))
        (t :: eq :: ts)
  | power {room : Nat} {last : Bool} {b e : Expr} {t : Token} {ts us : List Token}
      (base : Phrase (room + 1) .primary false b ts) (sign : t.kind = .binary .power)
      (exponent : Phrase room .operand last e us) :
      Phrase (room + 1) .power last (.binary .power b e t.pos) (ts ++ t :: us)
  | unary {room : Nat} {last : Bool} {op : UnaryOp} {e : Expr} {t : Token} {ts : List Token}
      (sign : t.kind.unaryOp? = some op) (inside : Phrase room .operand last e ts) :
      Phrase (room + 1) .operand last (.unary op e t.pos) (t :: ts)
  | binary {room : Nat} {level : Level} {last : Bool} {op : BinaryOp} {l r : Expr} {t : Token}
      {ts us : List Token} (own : op.level = level) (leans : op ≠ .power)
      (left : Phrase room level false l ts) (sign : t.kind = .binary op)
      (right : Phrase room level.tighter last r us) :
      Phrase room level last (.binary op l r t.pos) (ts ++ t :: us)
  | logical {room : Nat} {level : Level} {last : Bool} {op : LogicalOp} {l r : Expr} {t : Token}
      {ts us : List Token} (own : op.level = level)
      (left : Phrase room level false l ts) (sign : t.kind = .logical op)
      (right : Phrase room level.tighter last r us) :
      Phrase room level last (.logical op l r t.pos) (ts ++ t :: us)
  | comparison {room : Nat} {last : Bool} {op : ComparisonOp} {pos : Position} {e f : Expr}
      {more : List (ComparisonOp × Position × Expr)} {ts us : List Token}
      (first : Phrase room .term false e ts) (chain : Chain room last ((op, pos, f) :: more) us) :
      Phrase room .comparison last
        (.comparison (e :: f :: more.map (·.2.2)) (op :: more.map (·.1)) pos) (ts ++ us)
  | lift {room : Nat} {level : Level} {last : Bool} {e : Expr} {ts : List Token}
      (phrase : Phrase room level.tighter last e ts) : Phrase room level last e ts

inductive Chain : Nat → Bool → List (ComparisonOp × Position × Expr) → List Token → Prop
  | last {room : Nat} {last : Bool} {op : ComparisonOp} {e : Expr} {t : Token} {ts : List Token}
      (sign : t.kind = .comparison op) (operand : Phrase room .term last e ts) :
      Chain room last [(op, t.pos, e)] (t :: ts)
  | more {room : Nat} {last : Bool} {op : ComparisonOp} {e : Expr}
      {chain : List (ComparisonOp × Position × Expr)} {t : Token} {ts us : List Token}
      (sign : t.kind = .comparison op) (operand : Phrase room .term false e ts)
      (rest : Chain room last chain us) :
      Chain room last ((op, t.pos, e) :: chain) (t :: (ts ++ us))

inductive Arguments : Nat → List Expr → List Token → Prop
  | last {room : Nat} {e : Expr} {ts : List Token} (argument : Phrase room .disjunction true e ts) :
      Arguments room [e] ts
  | more {room : Nat} {e : Expr} {es : List Expr} {c : Token} {ts us : List Token}
      (argument : Phrase room .disjunction true e ts) (comma : c.kind = .comma)
      (rest : Arguments room es us) :
      Arguments room (e :: es) (ts ++ c :: us)

end

inductive Params : List Identifier → List Token → Prop
  | nil : Params [] []
  | last {t : Token} (kind : t.kind = .identifier) (own : isGlobalName t.lexeme = false) :
      Params [⟨t.lexeme, t.pos⟩] [t]
  | more {t c : Token} {names : List Identifier} {ts : List Token} (kind : t.kind = .identifier)
      (own : isGlobalName t.lexeme = false) (comma : c.kind = .comma) (rest : Params names ts) :
      Params (⟨t.lexeme, t.pos⟩ :: names) (t :: c :: ts)

inductive Simple : Nat → Statement → List Token → Prop
  | expression {room : Nat} {e : Expr} {ts : List Token}
      (phrase : Phrase room .disjunction true e ts) : Simple room (.expression e) ts
  | control {room : Nat} {kind : ControlKind} {t : Token}
      (word : t.kind = .keyword (.control kind)) : Simple room (.control kind none t.pos) [t]
  | value {room : Nat} {e : Expr} {t : Token} {ts : List Token}
      (word : t.kind = .keyword (.control .returnValue))
      (phrase : Phrase room .disjunction true e ts) :
      Simple room (.control .returnValue (some e) t.pos) (t :: ts)

mutual

inductive Block : Nat → List Statement → List Token → Prop
  | braces {room : Nat} {body : List Statement} {l r : Token} {ts : List Token}
      (left : l.kind = .leftBrace) (inside : Statements room body ts)
      (right : r.kind = .rightBrace) : Block (room + 1) body (l :: (ts ++ [r]))

inductive Otherwise : Nat → Option (List Statement) → List Token → Prop
  | nothing {room : Nat} : Otherwise room none []
  | block {room : Nat} {body : List Statement} {t : Token} {ts : List Token}
      (word : t.kind = .keyword .otherwise) (block : Block room body ts) :
      Otherwise room (some body) (t :: ts)
  | branch {room : Nat} {c : Expr} {body : List Statement} {otherwise : Option (List Statement)}
      {t : Token} {ts us vs : List Token} (word : t.kind = .elseIf)
      (condition : Phrase room .disjunction true c ts) (block : Block room body us)
      (rest : Otherwise room otherwise vs) :
      Otherwise room (some [.branch c body otherwise t.pos]) (t :: (ts ++ (us ++ vs)))

inductive Compound : Nat → Statement → List Token → Prop
  | branch {room : Nat} {c : Expr} {body : List Statement} {otherwise : Option (List Statement)}
      {t : Token} {ts us vs : List Token} (word : t.kind = .keyword .branch)
      (condition : Phrase room .disjunction true c ts) (block : Block room body us)
      (rest : Otherwise room otherwise vs) :
      Compound room (.branch c body otherwise t.pos) (t :: (ts ++ (us ++ vs)))
  | loop {room : Nat} {c : Expr} {body : List Statement} {t : Token} {ts us : List Token}
      (word : t.kind = .keyword .loop) (condition : Phrase room .disjunction true c ts)
      (block : Block room body us) : Compound room (.loop c body t.pos) (t :: (ts ++ us))
  | function {room : Nat} {names : List Identifier} {body : List Statement} {t f l r : Token}
      {ts us : List Token} (word : t.kind = .keyword .function) (name : f.kind = .identifier)
      (left : l.kind = .leftParen) (params : Params names ts) (right : r.kind = .rightParen)
      (block : Block room body us) :
      Compound room (.function ⟨f.lexeme, f.pos⟩ names body) (t :: f :: l :: (ts ++ r :: us))

inductive Statements : Nat → List Statement → List Token → Prop
  | nil {room : Nat} : Statements room [] []
  | last {room : Nat} {s : Statement} {ts : List Token} (statement : Simple room s ts) :
      Statements room [s] ts
  | simple {room : Nat} {s : Statement} {rest : List Statement} {t : Token} {ts us : List Token}
      (statement : Simple room s ts) (separator : t.kind = .semicolon)
      (more : Statements room rest us) : Statements room (s :: rest) (ts ++ t :: us)
  | compound {room : Nat} {s : Statement} {rest : List Statement} {ts us : List Token}
      (statement : Compound room s ts) (more : Statements room rest us) :
      Statements room (s :: rest) (ts ++ us)
  | separated {room : Nat} {s : Statement} {rest : List Statement} {t : Token} {ts us : List Token}
      (statement : Compound room s ts) (separator : t.kind = .semicolon)
      (more : Statements room rest us) : Statements room (s :: rest) (ts ++ t :: us)

end

mutual

theorem Phrase.head {room : Nat} {level : Level} {last : Bool} {e : Expr} {ts : List Token} :
    Phrase room level last e ts → ∃ t us, ts = t :: us ∧ t.kind.startsPhrase = true ∧
      (Level.power.rank ≤ level.rank → t.kind.unaryOp? = none)
  | .literal kind _ => by
    refine ⟨_, _, rfl, ?_⟩
    rcases kind with kind | kind | kind <;> simp [kind, TokenKind.startsPhrase, TokenKind.unaryOp?]
  | .variable kind | .emptyCall kind _ _ | .call kind _ _ _ | .assignment kind _ _
  | .compound kind _ _ => by
    refine ⟨_, _, rfl, ?_⟩
    simp [kind, TokenKind.startsPhrase, TokenKind.unaryOp?]
  | .group left _ _ => by
    refine ⟨_, _, rfl, ?_⟩
    simp [left, TokenKind.startsPhrase, TokenKind.unaryOp?]
  | .power base _ _ => by
    obtain ⟨t, us, rfl, starts, plain⟩ := base.head
    exact ⟨t, _, rfl, starts, fun _ => plain (by decide)⟩
  | .unary (t := t) sign _ => by
    refine ⟨t, _, rfl, ?_, by simp [Level.rank]⟩
    revert sign
    cases t.kind <;> simp [TokenKind.unaryOp?, TokenKind.startsPhrase]
    rename_i op
    cases op <;> simp
  | .binary own leans left _ _ => by
    obtain ⟨t, us, rfl, starts, plain⟩ := left.head
    exact ⟨t, _, rfl, starts, plain⟩
  | .logical own left _ _ => by
    obtain ⟨t, us, rfl, starts, plain⟩ := left.head
    exact ⟨t, _, rfl, starts, plain⟩
  | .comparison first _ => by
    obtain ⟨t, us, rfl, starts, -⟩ := first.head
    exact ⟨t, _, rfl, starts, by simp [Level.rank]⟩
  | .lift phrase => by
    obtain ⟨t, us, rfl, starts, plain⟩ := phrase.head
    refine ⟨t, us, rfl, starts, fun tight => plain ?_⟩
    revert tight
    cases level <;> simp [Level.rank, Level.tighter]

theorem Arguments.head {room : Nat} {es : List Expr} {ts : List Token} :
    Arguments room es ts → ∃ t us, ts = t :: us ∧ t.kind.startsPhrase = true
  | .last argument => by
    obtain ⟨t, us, rfl, starts, -⟩ := argument.head
    exact ⟨t, us, rfl, starts⟩
  | .more argument _ _ => by
    obtain ⟨t, us, rfl, starts, -⟩ := argument.head
    exact ⟨t, _, rfl, starts⟩

end

theorem Chain.head {room : Nat} {last : Bool} {chain : List (ComparisonOp × Position × Expr)}
    {ts : List Token} (h : Chain room last chain ts) :
    ∃ op pos e more t us,
      chain = (op, pos, e) :: more ∧ ts = t :: us ∧ t.kind = .comparison op := by
  cases h with
  | last sign _ | more sign _ _ => exact ⟨_, _, _, _, _, _, rfl, rfl, sign⟩

theorem Phrase.ne_nil {room : Nat} {level : Level} {last : Bool} {e : Expr} {ts : List Token}
    (h : Phrase room level last e ts) : ts ≠ [] := by
  obtain ⟨t, us, rfl, -⟩ := h.head
  simp

theorem Chain.ne_nil {room : Nat} {last : Bool} {chain : List (ComparisonOp × Position × Expr)}
    {ts : List Token} (h : Chain room last chain ts) : ts ≠ [] := by
  obtain ⟨_, _, _, _, t, us, -, rfl, -⟩ := h.head
  simp

theorem Simple.head {room : Nat} {s : Statement} {ts : List Token} (h : Simple room s ts) :
    ∃ t us, ts = t :: us ∧
      (t.kind.startsPhrase = true ∨ ∃ kind, t.kind = .keyword (.control kind)) := by
  cases h with
  | expression phrase =>
    obtain ⟨t, us, rfl, starts, -⟩ := phrase.head
    exact ⟨t, us, rfl, .inl starts⟩
  | control word => exact ⟨_, _, rfl, .inr ⟨_, word⟩⟩
  | value word _ => exact ⟨_, _, rfl, .inr ⟨_, word⟩⟩

theorem Block.head {room : Nat} {body : List Statement} {ts : List Token} (h : Block room body ts) :
    ∃ l us, ts = l :: us ∧ l.kind = .leftBrace := by
  cases h with
  | braces left _ _ => exact ⟨_, _, rfl, left⟩

theorem Compound.head {room : Nat} {s : Statement} {ts : List Token} (h : Compound room s ts) :
    ∃ t us word, ts = t :: us ∧ t.kind = .keyword word ∧ word ≠ .otherwise := by
  cases h with
  | branch word _ _ _ | loop word _ _ | function word _ _ _ _ _ =>
    exact ⟨_, _, _, rfl, word, by simp⟩

theorem Statements.head {room : Nat} {items : List Statement} {ts : List Token}
    (h : Statements room items ts) :
    ts = [] ∨ ∃ t us, ts = t :: us ∧ t.kind.startsStatement = true := by
  have simple {s : Statement} {ts : List Token} (statement : Simple room s ts) :
      ∃ t us, ts = t :: us ∧ t.kind.startsStatement = true := by
    obtain ⟨t, us, rfl, starts | ⟨kind, word⟩⟩ := statement.head
    · exact ⟨t, us, rfl, startsStatement_of_startsPhrase starts⟩
    · exact ⟨t, us, rfl, by rw [word]; rfl⟩
  have compound {s : Statement} {ts : List Token} (statement : Compound room s ts) :
      ∃ t us, ts = t :: us ∧ t.kind.startsStatement = true := by
    obtain ⟨t, us, word, rfl, kind, other⟩ := statement.head
    refine ⟨t, us, rfl, ?_⟩
    cases word <;> simp_all [TokenKind.startsStatement]
  cases h with
  | nil => exact .inl rfl
  | last statement => exact .inr (simple statement)
  | simple statement _ _ =>
    obtain ⟨t, us, rfl, starts⟩ := simple statement
    exact .inr ⟨t, _, rfl, starts⟩
  | compound statement _ =>
    obtain ⟨t, us, rfl, starts⟩ := compound statement
    exact .inr ⟨t, _, rfl, starts⟩
  | separated statement _ _ =>
    obtain ⟨t, us, rfl, starts⟩ := compound statement
    exact .inr ⟨t, _, rfl, starts⟩

theorem endsInName_append {ts us : List Token} (ne : us ≠ []) :
    endsInName (ts ++ us) = endsInName us := by
  unfold endsInName
  rw [List.getLast?_append]
  cases last : us.getLast? with
  | none => exact absurd (List.getLast?_eq_none_iff.mp last) ne
  | some t => rfl

theorem endsInName_of_last (ts : List Token) {t : Token} (other : t.kind ≠ .identifier) :
    endsInName (ts ++ [t]) = false := by
  simp [endsInName, other]

theorem rank_reach (level : Level) (last : Bool) : (reach level last).rank ≤ level.rank := by
  cases last <;> simp [reach, Level.rank]

@[simp] theorem reach_disjunction (last : Bool) : reach .disjunction last = .disjunction := by
  cases last <;> rfl

theorem rank_reach_le {level other : Level} (le : level.rank ≤ other.rank) (last : Bool) :
    (reach level last).rank ≤ (reach other last).rank := by
  cases last
  · exact le
  · exact Nat.le_refl _

namespace Ends

variable {level : Level} {rest : List Token}

theorem tail {ts us : List Token} (ends : Ends level (ts ++ us) rest) (ne : us ≠ []) :
    Ends level us rest := by
  cases rest with
  | nil => trivial
  | cons t rest => exact ⟨ends.1, endsInName_append ne ▸ ends.2⟩

theorem of_append {ts us : List Token} (ends : Ends level us rest) (ne : us ≠ []) :
    Ends level (ts ++ us) rest := by
  cases rest with
  | nil => trivial
  | cons t rest => exact ⟨ends.1, fun name => ends.2 (endsInName_append ne ▸ name)⟩

theorem cons {t : Token} {ts : List Token} (ends : Ends level (t :: ts) rest) (ne : ts ≠ []) :
    Ends level ts rest :=
  tail (List.singleton_append ▸ ends) ne

theorem of_cons {t : Token} {ts : List Token} (ends : Ends level ts rest) (ne : ts ≠ []) :
    Ends level (t :: ts) rest :=
  (of_append ends ne : Ends level ([t] ++ ts) rest)

theorem weaken {other : Level} {ts : List Token} (ends : Ends level ts rest)
    (le : level.rank ≤ other.rank) : Ends other ts rest := by
  cases rest with
  | nil => trivial
  | cons t rest => exact ⟨Level.takes_of_rank le ends.1, ends.2⟩

theorem done {ts : List Token} (ends : Ends level ts rest) :
    ∀ t ∈ rest.head?, level.takes t.kind = false := by
  cases rest with
  | nil => simp
  | cons t rest => simpa using ends.1

theorem loosen (level : Level) {last : Bool} {used : List Token}
    (ends : Ends (reach level.tighter last) used rest)
    (stop : ∀ t ∈ rest.head?, t.kind.level? ≠ some level) : Ends (reach level last) used rest := by
  cases last with
  | true => exact ends
  | false =>
    cases rest with
    | nil => trivial
    | cons t rest => exact ⟨Level.takes_loosen (stop t rfl) ends.1, ends.2⟩

theorem not_of_last {used : List Token} {t : Token} {own : Level}
    (ends : Ends (reach level true) used (t :: rest)) (sign : t.kind.level? = some own) :
    False := by
  have missed : Level.disjunction.takes t.kind = false := ends.1
  rw [Level.takes_disjunction, sign] at missed
  cases missed

theorem operand_of_power {last : Bool} {used : List Token}
    (ends : Ends (reach .power last) used rest) : Ends (reach .operand last) used rest := by
  cases last with
  | true => exact ends
  | false =>
    cases rest with
    | nil => trivial
    | cons t rest => exact ⟨(Level.takes_operand _).trans ends.1, ends.2⟩

theorem of_primary {used : List Token} (plain : endsInName used = false) :
    Ends .primary used rest := by
  cases rest with
  | nil => trivial
  | cons t rest => exact ⟨Level.takes_primary _, fun name => absurd (plain ▸ name) (by simp)⟩

theorem of_level? {used : List Token} {t : Token} (rest : List Token) (done : t.kind.level? = none)
    (plain : t.kind.extendsName = false) : Ends level used (t :: rest) :=
  ⟨by simp [Level.takes, done], fun _ => plain⟩

theorem of_binary {op : BinaryOp} {used : List Token} {t : Token} (sign : t.kind = .binary op)
    (lt : op.level.rank < level.rank) : Ends level used (t :: rest) := by
  constructor
  · rw [sign]
    simpa using lt
  · intro _
    rw [sign]
    rfl

theorem of_logical {op : LogicalOp} {used : List Token} {t : Token} (sign : t.kind = .logical op)
    (lt : op.level.rank < level.rank) : Ends level used (t :: rest) := by
  constructor
  · rw [sign]
    simpa using lt
  · intro _
    rw [sign]
    rfl

theorem of_comparison {op : ComparisonOp} {used : List Token} {t : Token}
    (sign : t.kind = .comparison op) (lt : Level.comparison.rank < level.rank) :
    Ends level used (t :: rest) := by
  constructor
  · rw [sign]
    simpa using lt
  · intro _
    rw [sign]
    rfl

end Ends

mutual

theorem Phrase.atEnd {room : Nat} {level : Level} {last : Bool} {e : Expr} {ts : List Token} :
    Phrase room level last e ts → Phrase room level true e ts
  | .literal kind value => .literal kind value
  | .variable kind => .variable kind
  | .group left inside right => .group left inside right
  | .emptyCall kind left right => .emptyCall kind left right
  | .call kind left inside right => .call kind left inside right
  | .assignment kind sign value => .assignment kind sign value
  | .compound kind sign value => .compound kind sign value
  | .power base sign exponent => .power base sign exponent.atEnd
  | .unary sign inside => .unary sign inside.atEnd
  | .binary own leans left sign right => .binary own leans left sign right.atEnd
  | .logical own left sign right => .logical own left sign right.atEnd
  | .comparison first chain => .comparison first chain.atEnd
  | .lift phrase => .lift phrase.atEnd

theorem Chain.atEnd {room : Nat} {last : Bool} {chain : List (ComparisonOp × Position × Expr)}
    {ts : List Token} : Chain room last chain ts → Chain room true chain ts
  | .last sign operand => .last sign operand.atEnd
  | .more sign operand rest => .more sign operand rest.atEnd

end

theorem Phrase.loosen {room : Nat} {level : Level} {last : Bool} {e : Expr} {ts : List Token}
    (phrase : Phrase room level last e ts) :
    ∀ {other : Level}, other.rank ≤ level.rank → Phrase room other last e ts := by
  have steps (k : Nat) : ∀ {other : Level}, level.rank = other.rank + k →
      Phrase room other last e ts := by
    induction k with
    | zero =>
      intro other eq
      exact Level.rank_injective eq ▸ phrase
    | succ k ih =>
      intro other eq
      refine .lift (ih ?_)
      have lt : other.rank < level.rank := by omega
      have step := Level.rank_tighter lt
      omega
  intro other le
  exact steps (level.rank - other.rank) (by omega)

end Grammar

end CalcScript
