import CalcScript.Proofs.Equations
import CalcScript.Proofs.Preservation

set_option autoImplicit false

namespace CalcScript.Eval

variable {α β : Type}

def Outlasts (m' m : Eval α) : Prop := ∀ s, (m s).1 = .error .exhausted ∨ m' s = m s

namespace Outlasts

theorem refl (m : Eval α) : Outlasts m m := fun _ => .inr rfl

theorem bind {m m' : Eval α} {f f' : α → Eval β} (first : Outlasts m' m)
    (later : ∀ a, Outlasts (f' a) (f a)) : Outlasts (m' >>= f') (m >>= f) := by
  intro s
  simp only [bind_apply]
  rcases first s with stopped | same
  · left
    rcases result : m s with ⟨i | a, t⟩
    all_goals
      rw [result] at stopped
      cases stopped
    rfl
  · rw [same]
    rcases m s with ⟨i | a, t⟩
    · exact .inr rfl
    · exact later a t

theorem ite {c : Prop} [Decidable c] {m m' n n' : Eval α} (yes : Outlasts m' m)
    (no : Outlasts n' n) : Outlasts (if c then m' else n') (if c then m else n) := by
  split
  · exact yes
  · exact no

theorem roundThen {body body' : Eval Unit} {later later' : Eval Value}
    (round : Outlasts body' body) (next : Outlasts later' later) :
    Outlasts (Invariant.roundThen body' later') (Invariant.roundThen body later) := by
  intro s
  simp only [Invariant.roundThen]
  rcases round s with stopped | same
  · left
    rcases result : body s with ⟨i | _, t⟩
    all_goals
      rw [result] at stopped
      cases stopped
    rfl
  · rw [same]
    -- After the round, either nothing is left to do or the rest of the rounds is.
    rcases body s with ⟨(e | ⟨kind | _, value, pos⟩ | _) | _, t⟩
    · exact .inr rfl
    · cases kind with
      | continueLoop => exact next t
      | breakLoop | returnValue => exact .inr rfl
    · exact .inr rfl
    · exact .inr rfl
    · exact next t

theorem repeatWhile {condition condition' : Eval Value} {body body' : Eval Unit}
    (test : Outlasts condition' condition) (round : Outlasts body' body) {rounds rounds' : Nat}
    (le : rounds ≤ rounds') :
    Outlasts (Eval.repeatWhile condition' body' rounds')
      (Eval.repeatWhile condition body rounds) := by
  induction rounds generalizing rounds' with
  | zero => exact fun _ => .inl rfl
  | succ rounds ih =>
    obtain ⟨rounds', rfl⟩ := Nat.exists_eq_add_of_le' le
    have fewer : rounds ≤ rounds' + rounds := Nat.le_add_left _ _
    rw [← Nat.add_assoc, Invariant.repeatWhile_succ, Invariant.repeatWhile_succ]
    exact test.bind fun v => .ite (round.roundThen (ih fewer)) (.refl _)

end Outlasts

def CallsOutlast (caller' caller : Caller) : Prop :=
  ∀ f args pos, Outlasts (caller' f args pos) (caller f args pos)

section

variable {caller caller' : Caller} {rounds rounds' : Nat}

-- By recursion on the expression, which both evaluations take in the same order.

mutual

theorem expression_outlasts (calls : CallsOutlast caller' caller) : ∀ e : Expr,
    Outlasts (expression caller' e) (expression caller e)
  | .literal value pos => by
    rw [expression_literal, expression_literal]
    exact .refl _
  | .variable i => by
    rw [expression_variable, expression_variable]
    exact .refl _
  | .unary op e pos => by
    rw [expression_unary, expression_unary]
    exact (expression_outlasts calls e).bind fun v => .refl _
  | .binary op l r pos => by
    rw [expression_binary, expression_binary]
    exact (expression_outlasts calls l).bind fun v =>
      (expression_outlasts calls r).bind fun w => .refl _
  | .logical op l r pos => by
    rw [expression_logical, expression_logical]
    exact (expression_outlasts calls l).bind fun v =>
      .ite (.refl _) ((expression_outlasts calls r).bind fun w => .refl _)
  | .assignment i e => by
    rw [expression_assignment, expression_assignment]
    exact .ite (.refl _) ((expression_outlasts calls e).bind fun v => .refl _)
  | .comparison es ops pos => by
    rw [expression_comparison, expression_comparison]
    exact .ite (.refl _) ((walkAll_outlasts calls es).bind fun vs => .refl _)
  | .call i es => by
    rw [expression_call, expression_call]
    refine (Outlasts.refl _).bind fun target => (walkAll_outlasts calls es).bind fun vs => ?_
    cases target with
    | user f => exact calls f vs i.pos
    | builtin b => exact .refl _

theorem walkAll_outlasts (calls : CallsOutlast caller' caller) : ∀ es : List Expr,
    Outlasts (walkAll caller' es) (walkAll caller es)
  | [] => by
    rw [walkAll, walkAll]
    exact .refl _
  | e :: es => by
    rw [walkAll_cons, walkAll_cons]
    exact (expression_outlasts calls e).bind fun v =>
      (walkAll_outlasts calls es).bind fun vs => .refl _

end

mutual

theorem statement_outlasts (calls : CallsOutlast caller' caller) (le : rounds ≤ rounds') :
    ∀ s : Statement,
      Outlasts (statement rounds' caller' s) (statement rounds caller s)
  | .expression e => by
    rw [statement, statement]
    exact expression_outlasts calls e
  | .branch c body none pos => by
    rw [statement, statement]
    exact (expression_outlasts calls c).bind fun v =>
      .ite ((block_outlasts calls le body).bind fun _ => .refl _) (.refl _)
  | .branch c body (some other) pos => by
    rw [statement, statement]
    exact (expression_outlasts calls c).bind fun v =>
      .ite ((block_outlasts calls le body).bind fun _ => .refl _)
        ((block_outlasts calls le other).bind fun _ => .refl _)
  | .loop c body pos => by
    rw [statement, statement]
    exact (expression_outlasts calls c).repeatWhile (block_outlasts calls le body) le
  | .function name params body => by
    rw [statement, statement]
    exact .refl _
  | .control kind none pos => by
    rw [statement, statement]
    exact .refl _
  | .control kind (some e) pos => by
    rw [statement, statement]
    exact (expression_outlasts calls e).bind fun v => .refl _

theorem block_outlasts (calls : CallsOutlast caller' caller) (le : rounds ≤ rounds') :
    ∀ body : List Statement,
      Outlasts (block rounds' caller' body) (block rounds caller body)
  | [] => by
    rw [block, block]
    exact .refl _
  | s :: rest => by
    rw [block, block]
    exact (statement_outlasts calls le s).bind fun _ => block_outlasts calls le rest

end

theorem statements_outlasts (calls : CallsOutlast caller' caller) (le : rounds ≤ rounds')
    (items : List Statement) :
    Outlasts (statements rounds' caller' items) (statements rounds caller items) := by
  induction items with
  | nil => exact .refl _
  | cons s rest ih =>
    exact (statement_outlasts calls le s).bind fun v => ih.bind fun vs => .refl _

end

variable {rounds rounds' : Nat} (le : rounds ≤ rounds')

include le

theorem call_outlasts (room : Nat) (f : Function) (args : List Value) (pos : Position) :
    Outlasts (call rounds' room f args pos) (call rounds room f args pos) := by
  induction room generalizing f args pos with
  | zero => exact .refl _
  | succ room ih =>
    intro s
    simp only [call, inFrame]
    rcases block_outlasts ih le f.body { s with calls := arguments f.params args :: s.calls } with
      stopped | same
    · left
      rw [stopped]
      rfl
    · right
      rw [same]

theorem runStatements_outlasts (items : List Statement) (s : Session) :
    (s.runStatements rounds items).1 = .exhausted ∨
      s.runStatements rounds' items = s.runStatements rounds items := by
  unfold Session.runStatements Session.run
  rcases statements_outlasts (call_outlasts le maxCallDepth) le items s with stopped | same
  · left
    simp only [stopped]
    rfl
  · right
    simp only [same]

end CalcScript.Eval

namespace CalcScript.Session

theorem evaluate_outlasts {rounds rounds' : Nat} (le : rounds ≤ rounds') (source : String)
    (clearFirst : Bool) (last : Option Value) (s : Session)
    (finished : (s.evaluate rounds source clearFirst last).1 ≠ .exhausted) :
    s.evaluate rounds' source clearFirst last = s.evaluate rounds source clearFirst last := by
  unfold evaluate at finished ⊢
  split
  · rfl
  · next some =>
    rw [if_neg some] at finished
    split
    · rfl
    · next items read =>
      simp only [read] at finished
      exact (Eval.runStatements_outlasts le items _).resolve_left finished

end CalcScript.Session
