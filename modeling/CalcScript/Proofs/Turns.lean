import CalcScript.Proofs.Tracing

set_option autoImplicit false

namespace CalcScript

namespace Eval

variable {α β : Type} {m : Eval α} {s t : Session}

theorem bind_of_ok {a : α} (first : m s = (.ok a, t)) (f : α → Eval β) :
    (m >>= f) s = f a t := by
  rw [bind_apply, first]

theorem bind_of_error {i : Interrupt} (failed : m s = (.error i, t)) (f : α → Eval β) :
    (m >>= f) s = (.error i, t) := by
  rw [bind_apply, failed]

end Eval

namespace Traced

section

variable {α β : Type} {m : Traced α} {s t : Session}

theorem trace_bind (m : Traced α) (f : α → Traced β) : (m >>= f).trace = (m.bind f).trace := rfl

theorem bind_of_ok {a : α} (first : m.eval s = (.ok a, t)) (f : α → Traced β) :
    (m >>= f).eval s = (f a).eval t ∧ (m >>= f).trace s = m.trace s ++ (f a).trace t := by
  constructor
  · rw [eval_bind, Eval.bind_of_ok first]
  · simp only [trace_bind, Traced.bind, first]

theorem bind_of_error {i : Interrupt} (failed : m.eval s = (.error i, t)) (f : α → Traced β) :
    (m >>= f).eval s = (.error i, t) ∧ (m >>= f).trace s = m.trace s := by
  constructor
  · rw [eval_bind, Eval.bind_of_error failed]
  · simp only [trace_bind, Traced.bind, failed, List.append_nil]

end

structure GoesOn {α : Type} (m : Traced α) (s : Session) (events : List Event) (m' : Traced α)
    (t : Session) : Prop where
  eval : m.eval s = m'.eval t
  trace : m.trace s = events ++ m'.trace t

namespace GoesOn

variable {α β : Type} {m m' n : Traced α} {s t u : Session} {events more : List Event}

theorem refl (m : Traced α) (s : Session) : GoesOn m s [] m s := ⟨rfl, rfl⟩

theorem trans (first : GoesOn m s events m' t) (second : GoesOn m' t more n u) :
    GoesOn m s (events ++ more) n u where
  eval := first.eval.trans second.eval
  trace := by rw [first.trace, second.trace, List.append_assoc]

theorem bind (first : GoesOn m s events m' t) (f : α → Traced β) :
    GoesOn (m >>= f) s events (m' >>= f) t := by
  rcases here : m'.eval t with ⟨i | a, u⟩
  · have failed : m.eval s = (.error i, u) := first.eval.trans here
    constructor
    · rw [(bind_of_error failed f).1, (bind_of_error here f).1]
    · rw [(bind_of_error failed f).2, (bind_of_error here f).2, first.trace]
  · have value : m.eval s = (.ok a, u) := first.eval.trans here
    constructor
    · rw [(bind_of_ok value f).1, (bind_of_ok here f).1]
    · rw [(bind_of_ok value f).2, (bind_of_ok here f).2, first.trace, List.append_assoc]

theorem enter (inside : GoesOn m s events m' t) (nest : Nesting) (act : Act) :
    GoesOn (Traced.enter nest act m) s (⟨nest, act, s⟩ :: events) m' t where
  eval := inside.eval
  trace := congrArg _ inside.trace

theorem of_value {a : α} (value : m.eval s = (.ok a, t)) (f : α → Traced β) :
    GoesOn (m >>= f) s (m.trace s) (f a) t :=
  ⟨(bind_of_ok value f).1, (bind_of_ok value f).2⟩

theorem of_interrupt {i : Interrupt} (failed : m.eval s = (.error i, t)) (f : α → Traced β) :
    GoesOn (m >>= f) s (m.trace s) (Eval.interrupt i : Eval β) t :=
  ⟨(bind_of_error failed f).1, (bind_of_error failed f).2.trans (List.append_nil _).symm⟩

end GoesOn

inductive InTurn {α : Type} : List (Traced α) → Session → List α → List Event → Session → Prop
  | nil (s : Session) : InTurn [] s [] [] s
  | cons {m : Traced α} {ms : List (Traced α)} {s t u : Session} {a : α} {as : List α}
      {events : List Event} (first : m.eval s = (.ok a, t)) (later : InTurn ms t as events u) :
      InTurn (m :: ms) s (a :: as) (m.trace s ++ events) u

/-- Some evaluations come to values, the next one is interrupted, and those behind it do not take
place. -/
def BreaksOff {α : Type} (ms : List (Traced α)) (s : Session) (i : Interrupt)
    (events : List Event) (u : Session) : Prop :=
  ∃ before m after as earlier t, ms = before ++ m :: after ∧ InTurn before s as earlier t ∧
    m.eval t = (.error i, u) ∧ events = earlier ++ m.trace t

section

variable {α : Type} {m : Traced α} {ms : List (Traced α)} {s t u : Session} {a : α} {as : List α}
  {i : Interrupt} {events : List Event}

theorem BreaksOff.first (failed : m.eval s = (.error i, u)) (ms : List (Traced α)) :
    BreaksOff (m :: ms) s i (m.trace s) u :=
  ⟨[], m, ms, [], [], s, rfl, .nil s, failed, rfl⟩

theorem BreaksOff.behind (first : m.eval s = (.ok a, t)) (later : BreaksOff ms t i events u) :
    BreaksOff (m :: ms) s i (m.trace s ++ events) u := by
  obtain ⟨before, n, after, as, earlier, last, rfl, inTurn, failed, rfl⟩ := later
  exact ⟨m :: before, n, after, a :: as, _, last, rfl, .cons first inTurn, failed,
    (List.append_assoc _ _ _).symm⟩

theorem BreaksOff.cases (breaks : BreaksOff (m :: ms) s i events u) :
    (m.eval s = (.error i, u) ∧ events = m.trace s) ∨
      ∃ a t later, m.eval s = (.ok a, t) ∧ BreaksOff ms t i later u ∧
        events = m.trace s ++ later := by
  obtain ⟨before, n, after, as, earlier, last, split, inTurn, failed, rfl⟩ := breaks
  cases inTurn with
  | nil =>
    cases split
    exact .inl ⟨failed, rfl⟩
  | @cons _ before _ t _ a as earlier first inTurn =>
    cases split
    have later : BreaksOff (before ++ n :: after) t i (earlier ++ n.trace last) u :=
      ⟨before, n, after, as, earlier, last, rfl, inTurn, failed, rfl⟩
    exact .inr ⟨a, t, _, first, later, List.append_assoc _ _ _⟩

theorem inTurn_or_breaksOff (ms : List (Traced α)) (s : Session) :
    (∃ as events t, InTurn ms s as events t) ∨ ∃ i events t, BreaksOff ms s i events t := by
  induction ms generalizing s with
  | nil => exact .inl ⟨[], [], s, .nil s⟩
  | cons m ms ih =>
    rcases here : m.eval s with ⟨i | a, t⟩
    · exact .inr ⟨i, _, t, .first here ms⟩
    · rcases ih t with ⟨as, events, u, inTurn⟩ | ⟨i, events, u, breaks⟩
      · exact .inl ⟨_, _, u, .cons here inTurn⟩
      · exact .inr ⟨i, _, u, .behind here breaks⟩

end

section

variable {nest : Nesting} {caller : Caller} {es : List Expr} {s t : Session} {vs : List Value}
  {i : Interrupt} {events : List Event}

theorem expressions_of_inTurn (inTurn : InTurn (es.map (expression nest caller)) s vs events t) :
    (expressions nest caller es).eval s = (.ok vs, t) ∧
      (expressions nest caller es).trace s = events := by
  induction es generalizing s vs events with
  | nil =>
    cases inTurn
    exact ⟨rfl, rfl⟩
  | cons e es ih =>
    cases inTurn with
    | cons first later =>
      obtain ⟨values, trace⟩ := ih later
      rw [expressions, (bind_of_ok first _).1, (bind_of_ok first _).2, (bind_of_ok values _).1,
        (bind_of_ok values _).2, trace]
      exact ⟨rfl, congrArg _ (List.append_nil _)⟩

theorem expressions_of_breaksOff
    (breaks : BreaksOff (es.map (expression nest caller)) s i events t) :
    (expressions nest caller es).eval s = (.error i, t) ∧
      (expressions nest caller es).trace s = events := by
  induction es generalizing s events with
  | nil =>
    obtain ⟨before, m, after, _, _, _, split, _⟩ := breaks
    simp at split
  | cons e es ih =>
    rcases breaks.cases with ⟨failed, rfl⟩ | ⟨v, u, later, first, behind, rfl⟩
    · rw [expressions, (bind_of_error failed _).1, (bind_of_error failed _).2]
      exact ⟨rfl, rfl⟩
    · obtain ⟨failed, trace⟩ := ih behind
      rw [expressions, (bind_of_ok first _).1, (bind_of_ok first _).2, (bind_of_error failed _).1,
        (bind_of_error failed _).2, trace]
      exact ⟨rfl, rfl⟩

end

end Traced

end CalcScript
