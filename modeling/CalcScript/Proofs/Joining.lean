import CalcScript.Proofs.Equations
import CalcScript.Proofs.Printing

set_option autoImplicit false

namespace CalcScript

def EndsInSemicolon (ts : List Token) : Prop := ∃ t ∈ ts.getLast?, t.kind = .semicolon

def EndsInBlock (items : List Statement) : Prop := ∃ s ∈ items.getLast?, s.endsInBlock = true

theorem endsInSemicolon_append (ts : List Token) {us : List Token} (nonempty : us ≠ []) :
    EndsInSemicolon (ts ++ us) ↔ EndsInSemicolon us := by
  rw [EndsInSemicolon, EndsInSemicolon, List.getLast?_append,
    List.getLast?_eq_some_getLast nonempty]
  rfl

theorem endsInSemicolon_concat (ts : List Token) {t : Token} (sign : t.kind = .semicolon) :
    EndsInSemicolon (ts ++ [t]) :=
  ⟨t, by simp, sign⟩

theorem endsInBlock_cons (s : Statement) {items : List Statement} (nonempty : items ≠ []) :
    EndsInBlock (s :: items) ↔ EndsInBlock items := by
  rw [EndsInBlock, EndsInBlock, List.getLast?_cons, List.getLast?_eq_some_getLast nonempty]
  rfl

namespace Grammar

def Unseparated (ts : List Token) : Prop := ∀ t ∈ ts, t.kind ≠ .semicolon

namespace Unseparated

variable {t : Token} {ts us : List Token}

theorem nil : Unseparated [] := List.forall_mem_nil _

theorem cons {kind : TokenKind} (sign : t.kind = kind) (other : kind ≠ .semicolon)
    (rest : Unseparated ts) : Unseparated (t :: ts) :=
  List.forall_mem_cons.mpr ⟨sign ▸ other, rest⟩

theorem append (first : Unseparated ts) (rest : Unseparated us) : Unseparated (ts ++ us) :=
  List.forall_mem_append.mpr ⟨first, rest⟩

theorem not_endsInSemicolon (h : Unseparated ts) : ¬EndsInSemicolon ts := by
  rintro ⟨t, last, sign⟩
  exact h t (List.mem_of_getLast? last) sign

end Unseparated

mutual

theorem Phrase.unseparated {room : Nat} {level : Level} {last : Bool} {e : Expr}
    {ts : List Token} : Phrase room level last e ts → Unseparated ts
  | .literal kind _ => by
    rcases kind with kind | kind | kind
    all_goals exact .cons kind nofun .nil
  | .variable kind => .cons kind nofun .nil
  | .group left inside right =>
    .cons left nofun (.append inside.unseparated (.cons right nofun .nil))
  | .emptyCall kind left right => .cons kind nofun (.cons left nofun (.cons right nofun .nil))
  | .call kind left inside right =>
    .cons kind nofun
      (.cons left nofun (.append inside.unseparated (.cons right nofun .nil)))
  | .assignment kind sign value => .cons kind nofun (.cons sign nofun value.unseparated)
  | .compound kind sign value => .cons kind nofun (.cons sign nofun value.unseparated)
  | .power base sign exponent =>
    .append base.unseparated (.cons sign nofun exponent.unseparated)
  | .unary sign inside => by
    refine .cons rfl ?_ inside.unseparated
    intro separator
    rw [separator] at sign
    cases sign
  | .binary _ _ left sign right => .append left.unseparated (.cons sign nofun right.unseparated)
  | .logical _ left sign right => .append left.unseparated (.cons sign nofun right.unseparated)
  | .comparison first chain => .append first.unseparated chain.unseparated
  | .lift phrase => phrase.unseparated

theorem Chain.unseparated {room : Nat} {last : Bool}
    {chain : List (ComparisonOp × Position × Expr)} {ts : List Token} :
    Chain room last chain ts → Unseparated ts
  | .last sign operand => .cons sign nofun operand.unseparated
  | .more sign operand rest => .cons sign nofun (.append operand.unseparated rest.unseparated)

theorem Arguments.unseparated {room : Nat} {es : List Expr} {ts : List Token} :
    Arguments room es ts → Unseparated ts
  | .last argument => argument.unseparated
  | .more argument comma rest =>
    .append argument.unseparated (.cons comma nofun rest.unseparated)

end

theorem Simple.unseparated {room : Nat} {s : Statement} {ts : List Token}
    (h : Simple room s ts) : Unseparated ts := by
  cases h with
  | expression phrase => exact phrase.unseparated
  | control word => exact .cons word nofun .nil
  | value word phrase => exact .cons word nofun phrase.unseparated

theorem Simple.endsInBlock {room : Nat} {s : Statement} {ts : List Token}
    (h : Simple room s ts) : s.endsInBlock = false := by
  cases h <;> rfl

theorem Statements.eq_nil_iff {room : Nat} {items : List Statement} {ts : List Token}
    (h : Statements room items ts) : ts = [] ↔ items = [] := by
  cases h with
  | nil => simp
  | last statement =>
    obtain ⟨t, us, rfl, -⟩ := statement.head
    simp
  | simple statement separator more => simp
  | compound statement more =>
    obtain ⟨t, us, word, rfl, -⟩ := statement.head
    simp
  | separated statement separator more => simp

def Settled (items : List Statement) (ts : List Token) : Prop :=
  ts = [] ∨ EndsInSemicolon ts ∨ EndsInBlock items

theorem Statements.settled {room : Nat} {s : Statement} {items : List Statement}
    {ts us : List Token} (h : Statements room items us)
    (settled : Settled (s :: items) (ts ++ us)) : Settled items us := by
  by_cases none : us = []
  · exact .inl none
  · have some : items ≠ [] := fun empty => none (h.eq_nil_iff.mpr empty)
    rcases settled with empty | separator | block
    · exact .inl (List.append_eq_nil_iff.mp empty).2
    · exact .inr (.inl ((endsInSemicolon_append ts none).mp separator))
    · exact .inr (.inr ((endsInBlock_cons s some).mp block))

section

variable {room : Nat} {more : List Statement} {bs : List Token}

theorem Statements.append (second : Statements room more bs) {items : List Statement}
    {ts : List Token} : Statements room items ts → Settled items ts →
      Statements room (items ++ more) (ts ++ bs)
  | .nil, _ => second
  | .last statement, settled => by
    rcases settled with rfl | separator | block
    · obtain ⟨t, us, ⟨⟩, -⟩ := statement.head
    · exact absurd separator statement.unseparated.not_endsInSemicolon
    · obtain ⟨s, ⟨⟩, ends⟩ := block
      exact Bool.noConfusion (statement.endsInBlock.symm.trans ends)
  | .simple statement separator later, settled => by
    rw [List.append_cons] at settled
    rw [List.append_assoc]
    exact .simple statement separator (second.append later (later.settled settled))
  | .compound statement later, settled => by
    rw [List.append_assoc]
    exact .compound statement (second.append later (later.settled settled))
  | .separated statement separator later, settled => by
    rw [List.append_cons] at settled
    rw [List.append_assoc]
    exact .separated statement separator (second.append later (later.settled settled))

theorem Statements.separate (second : Statements room more bs) {sep : Token}
    (sign : sep.kind = .semicolon) {items : List Statement} {ts : List Token} :
    Statements room items ts → ts ≠ [] → ¬EndsInSemicolon ts →
      Statements room (items ++ more) (ts ++ sep :: bs)
  | .nil, nonempty, _ => absurd rfl nonempty
  | .last statement, _, _ => .simple statement sign second
  | @Statements.simple _ _ _ t ts us statement separator later, _, unended => by
    have nonempty : us ≠ [] := by
      rintro rfl
      exact unended (endsInSemicolon_concat ts separator)
    rw [List.append_cons, endsInSemicolon_append _ nonempty] at unended
    rw [List.append_assoc]
    exact .simple statement separator (second.separate sign later nonempty unended)
  | @Statements.compound _ _ _ ts us statement later, _, unended => by
    rw [List.append_assoc]
    by_cases none : us = []
    · obtain rfl := later.eq_nil_iff.mp none
      subst none
      exact .separated statement sign second
    · rw [endsInSemicolon_append _ none] at unended
      exact .compound statement (second.separate sign later none unended)
  | @Statements.separated _ _ _ t ts us statement separator later, _, unended => by
    have nonempty : us ≠ [] := by
      rintro rfl
      exact unended (endsInSemicolon_concat ts separator)
    rw [List.append_cons, endsInSemicolon_append _ nonempty] at unended
    rw [List.append_assoc]
    exact .separated statement separator (second.separate sign later nonempty unended)

end

end Grammar

theorem Eval.statements_append (rounds : Nat) (caller : Caller) (items more : List Statement) :
    Eval.statements rounds caller (items ++ more) = do
      let vs ← Eval.statements rounds caller items
      let ws ← Eval.statements rounds caller more
      return vs ++ ws := by
  induction items with
  | nil => simp [Eval.statements]
  | cons s items ih => simp [Eval.statements, ih]

namespace Session

def andThen (first : Outcome (List Value) × Session)
    (second : Session → Outcome (List Value) × Session) : Outcome (List Value) × Session :=
  match first with
  | (.value vs, s) => ((second s).1.map (vs ++ ·), (second s).2)
  | (.error e, s) => (.error e, s)
  | (.exhausted, s) => (.exhausted, s)

theorem runStatements_append (rounds : Nat) (items more : List Statement) (s : Session) :
    s.runStatements rounds (items ++ more) =
      andThen (s.runStatements rounds items) fun t => t.runStatements rounds more := by
  simp only [runStatements, run, Eval.statements_append, Eval.bind_apply]
  rcases Eval.statements rounds (Eval.call rounds maxCallDepth) items s with
    ⟨(e | signal | _) | vs, t⟩
  · rfl
  · rfl
  · rfl
  · simp only [andThen, Outcome.ofResult]
    rcases Eval.statements rounds (Eval.call rounds maxCallDepth) more t with
      ⟨(e | signal | _) | ws, u⟩ <;> rfl

end Session

/-- Two programs, of which the first is not empty, make one program: as they are if the first ends
in a semicolon or in a block, and with a semicolon between them if it does not end in one. -/
theorem parseProgram_append {as bs : List Token} {items more : List Statement}
    (first : parseProgram as = .ok items) (second : parseProgram bs = .ok more)
    (nonempty : as ≠ []) :
    (EndsInSemicolon as ∨ EndsInBlock items → parseProgram (as ++ bs) = .ok (items ++ more)) ∧
    (¬EndsInSemicolon as → ∀ sep : Token, sep.kind = .semicolon →
      parseProgram (as ++ sep :: bs) = .ok (items ++ more)) ∧
    ∀ rounds (s : Session), s.runStatements rounds (items ++ more) =
      Session.andThen (s.runStatements rounds items) fun t => t.runStatements rounds more := by
  have front := Grammar.programWithin_eq_ok.mp first
  have rear := Grammar.programWithin_eq_ok.mp second
  refine ⟨?_, ?_, ?_⟩
  · intro settled
    exact Grammar.programWithin_eq_ok.mpr (rear.append front (.inr settled))
  · intro unended sep sign
    exact Grammar.programWithin_eq_ok.mpr (rear.separate sign front nonempty unended)
  · exact fun rounds s => s.runStatements_append rounds items more

theorem parseProgram_append_loop_and_jump :
    let loop : List Token := [⟨.keyword .loop, default, "while", none⟩,
      ⟨.identifier, default, "x", none⟩, ⟨.leftBrace, default, "\x7b", none⟩,
      ⟨.rightBrace, default, "\x7d", none⟩]
    let jump : List Token := [⟨.keyword (.control .returnValue), default, "return", none⟩]
    let sep : Token := ⟨.semicolon, default, ";", none⟩
    ∃ items more, parseProgram loop = .ok items ∧ parseProgram jump = .ok more ∧
      parseProgram (loop ++ jump) = .ok (items ++ more) ∧
      parseProgram (loop ++ sep :: jump) = .ok (items ++ more) ∧
      parseProgram (jump ++ sep :: loop) = .ok (more ++ items) ∧
      ∀ rounds (s : Session), s.runStatements rounds (more ++ items) =
        Session.andThen (s.runStatements rounds more) fun t => t.runStatements rounds items := by
  intro loop jump sep
  have one := @parseProgram_append loop jump _ _ rfl rfl (by simp [loop])
  have other := @parseProgram_append jump loop _ _ rfl rfl (by simp [jump])
  refine ⟨_, _, rfl, rfl, one.1 (.inr ⟨_, rfl, rfl⟩), one.2.1 ?_ sep rfl, other.2.1 ?_ sep rfl,
    other.2.2⟩
  · rintro ⟨t, ⟨⟩, ⟨⟩⟩
  · rintro ⟨t, ⟨⟩, ⟨⟩⟩

end CalcScript
