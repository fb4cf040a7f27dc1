import CalcScript.Proofs.Holding
import CalcScript.Proofs.Tracing

set_option autoImplicit false

namespace CalcScript

def Interrupt.Ordinary : Interrupt → Prop
  | .error (.source _) | .error (.recursion _) | .error (.unknownCommand _) => False
  | .error (.misuse s) | .signal s => s.kind ≠ .abort
  | _ => True

theorem Error.Raised.ordinary {e : Error} (raised : e.Raised) : (Interrupt.error e).Ordinary := by
  cases e <;> trivial

namespace Event

def stop? (ev : Event) : Option Interrupt :=
  match ev.act, ev.room with
  | .call (.builtin .abort) _ pos, _ => some (.signal ⟨.abort, none, pos⟩)
  | .call (.user _) _ pos, 0 => some (.error (.recursion pos))
  | _, _ => none

theorem stop?_eq_abort {ev : Event} {pos : Position} :
    ev.stop? = some (.signal ⟨.abort, none, pos⟩) ↔
      ∃ args, ev.act = .call (.builtin .abort) args pos := by
  constructor
  · intro stop
    unfold stop? at stop
    split at stop
    · next args at' act =>
      cases stop
      exact ⟨args, act⟩
    · cases stop
    · cases stop
  · rintro ⟨args, act⟩
    simp only [stop?, act]

theorem stop?_eq_recursion {ev : Event} {pos : Position} :
    ev.stop? = some (.error (.recursion pos)) ↔
      (∃ f args, ev.act = .call (.user f) args pos) ∧ ev.room = 0 := by
  constructor
  · intro stop
    unfold stop? at stop
    split at stop
    · cases stop
    · next f args at' act room =>
      cases stop
      exact ⟨⟨f, args, act⟩, room⟩
    · cases stop
  · rintro ⟨⟨f, args, act⟩, room⟩
    simp only [stop?, act, room]

theorem stop?_cases {ev : Event} {i : Interrupt} (stop : ev.stop? = some i) :
    (∃ pos, i = .error (.recursion pos)) ∨ ∃ pos, i = .signal ⟨.abort, none, pos⟩ := by
  unfold stop? at stop
  split at stop
  · cases stop
    exact .inr ⟨_, rfl⟩
  · cases stop
    exact .inl ⟨_, rfl⟩
  · cases stop

theorem not_ordinary_of_stop {ev : Event} {i : Interrupt} (stop : ev.stop? = some i) :
    ¬ i.Ordinary := by
  rcases stop?_cases stop with ⟨pos, rfl⟩ | ⟨pos, rfl⟩
  · exact id
  · exact fun ordinary => ordinary rfl

end Event

structure Session.SameFrames (s t : Session) : Prop where
  length : t.calls.length = s.calls.length
  tail : t.calls.tail = s.calls.tail

namespace Session.SameFrames

theorem refl (s : Session) : s.SameFrames s := ⟨rfl, rfl⟩

theorem trans {s t u : Session} (first : s.SameFrames t) (second : t.SameFrames u) :
    s.SameFrames u :=
  ⟨second.length.trans first.length, second.tail.trans first.tail⟩

theorem bind (s : Session) (i : Identifier) (v : Value) : s.SameFrames (s.bind i v) := by
  simp only [Session.bind]
  split
  · next frame rest eq =>
    split
    · exact ⟨rfl, rfl⟩
    · exact ⟨by simp [eq], by simp [eq]⟩
  · exact ⟨rfl, rfl⟩

end Session.SameFrames

def Nesting.Fits (nest : Nesting) (s : Session) : Prop :=
  s.calls.length = nest.active.length ∧ nest.active.length + nest.room = maxCallDepth

theorem Nesting.Fits.same {nest : Nesting} {s t : Session} (fits : nest.Fits s)
    (same : s.SameFrames t) : nest.Fits t :=
  ⟨same.length.trans fits.1, fits.2⟩

def steady (s : Session) : Eval.Invariant := .single s.SameFrames Any Interrupt.Ordinary

open Eval.Invariant in
theorem steady_operations (s : Session) : (steady s).Operations where
  lookup i := keeps_single.mpr fun t same => ⟨fun _ _ => trivial, same⟩
  bindName {i v} _ _ := keeps_single.mpr fun t same => ⟨trivial, same.trans (.bind t i v)⟩
  write text := keeps_single.mpr fun t same => by
    simp only [Eval.write]
    split
    · exact ⟨trivial, same.length, same.tail⟩
    · exact ⟨trivial, same⟩
  readLine := keeps_single.mpr fun t same =>
    ⟨readLine_fits (fun fault => Error.Raised.ordinary (e := .io fault) trivial) trivial t,
      same.length, same.tail⟩
  plain _ := trivial
  raised := Error.Raised.ordinary
  exhausted := trivial

def Ordinarily {α : Type} (P : α → Prop) : Except Interrupt α → Prop
  | .ok a => P a
  | .error i => i.Ordinary

/-- An evaluation goes through all its events and ends as it likes, or the last event stops it. -/
inductive Ends {α : Type} (P : α → Prop) : List Event → Except Interrupt α → Session → Prop
  | passed {events : List Event} {r : Except Interrupt α} {s : Session}
      (going : ∀ ev ∈ events, ev.stop? = none) (fits : Ordinarily P r) : Ends P events r s
  | stopped {events : List Event} {ev : Event} {i : Interrupt} {s : Session}
      (going : ∀ ev ∈ events, ev.stop? = none) (stop : ev.stop? = some i)
      (globals : s.globals = ev.session.globals) (console : s.console = ev.session.console) :
      Ends P (events ++ [ev]) (.error i) s

namespace Ends

variable {α β : Type} {P : α → Prop} {Q : β → Prop} {events later : List Event} {s t : Session}

theorem going_of_ordinary {r : Except Interrupt α} (ends : Ends P events r s)
    (ordinary : ∀ i, r = .error i → i.Ordinary) : ∀ ev ∈ events, ev.stop? = none := by
  cases ends with
  | passed going fits => exact going
  | stopped going stop globals console =>
    exact absurd (ordinary _ rfl) (Event.not_ordinary_of_stop stop)

theorem going {a : α} (ends : Ends P events (.ok a) s) : ∀ ev ∈ events, ev.stop? = none := by
  cases ends with
  | passed going fits => exact going

theorem fits {a : α} (ends : Ends P events (.ok a) s) : P a := by
  cases ends with
  | passed going fits => exact fits

theorem append {r : Except Interrupt β} (going : ∀ ev ∈ events, ev.stop? = none)
    (ends : Ends Q later r t) : Ends Q (events ++ later) r t := by
  cases ends with
  | passed going' fits =>
    apply passed _ fits
    exact List.forall_mem_append.mpr ⟨going, going'⟩
  | stopped going' stop globals console =>
    rw [← List.append_assoc]
    apply stopped _ stop globals console
    exact List.forall_mem_append.mpr ⟨going, going'⟩

theorem error {i : Interrupt} (ends : Ends P events (.error i) s) : Ends Q events (.error i) s := by
  cases ends with
  | passed going fits => exact passed going fits
  | stopped going stop globals console => exact stopped going stop globals console

theorem stops {before : List Event} {ev : Event} {i : Interrupt} {r : Except Interrupt α}
    (ends : Ends P (before ++ ev :: later) r s) (stop : ev.stop? = some i) :
    later = [] ∧ r = .error i ∧ s.globals = ev.session.globals ∧
      s.console = ev.session.console := by
  generalize eq : before ++ ev :: later = events at ends
  have member : ev ∈ events := eq ▸ by simp
  have still (events : List Event) (going : ∀ other ∈ events, other.stop? = none) :
      ev ∉ events := by
    intro member
    have none := going ev member
    rw [stop] at none
    cases none
  cases ends with
  | passed going fits => exact absurd member (still _ going)
  | @stopped events last _ _ going stop' globals console =>
    rcases List.eq_nil_or_concat later with rfl | ⟨later, other, rfl⟩
    · obtain ⟨rfl, rfl⟩ : before = events ∧ ev = last := by simpa using eq
      cases stop.symm.trans stop'
      exact ⟨rfl, rfl, globals, console⟩
    · have joined : (before ++ ev :: later) ++ [other] = events ++ [last] := by simpa using eq
      have front : before ++ ev :: later = events := List.append_inj_left' joined rfl
      exact absurd (front ▸ by simp) (still _ going)

theorem exists_stop {i : Interrupt} (ends : Ends P events (.error i) s) :
    i.Ordinary ∨ ∃ before ev, events = before ++ [ev] ∧ ev.stop? = some i := by
  cases ends with
  | passed going fits => exact .inl fits
  | stopped going stop globals console => exact .inr ⟨_, _, rfl, stop⟩

theorem caught {P : Unit → Prop} {r : Except Interrupt Unit} (ends : Ends P events r s)
    (globals : t.globals = s.globals) (console : t.console = s.console) :
    Ends Any events (Eval.caught r) t := by
  cases ends with
  | passed going fits =>
    apply passed going
    rcases r with (e | ⟨kind | _, value, pos⟩ | _) | _
    · exact fits
    · cases kind with
      | continueLoop | breakLoop => exact SignalKind.noConfusion
      | returnValue => trivial
    · exact fits
    · trivial
    · trivial
  | @stopped _ ev i _ going stop globals' console' =>
    have uncaught : Eval.caught (.error i) = .error i := by
      rcases i with e | ⟨kind | _, value, pos⟩ | _
      · rfl
      · exact absurd SignalKind.noConfusion (Event.not_ordinary_of_stop stop)
      · rfl
      · rfl
    rw [uncaught]
    exact stopped going stop (globals.trans globals') (console.trans console')

end Ends

structure Course {α : Type} (nest : Nesting) (P : α → Prop) (s : Session) (events : List Event)
    (result : Except Interrupt α × Session) : Prop where
  frames : s.SameFrames result.2
  nested : nest.Fits s → ∀ ev ∈ events, ev.toNesting.Fits ev.session
  ends : Ends P events result.1 result.2

namespace Course

variable {α β : Type} {nest : Nesting} {P : α → Prop} {Q : β → Prop} {events later : List Event}
  {s t : Session}

theorem error {i : Interrupt} (course : Course nest P s events (.error i, t)) :
    Course nest Q s events (.error i, t) :=
  ⟨course.frames, course.nested, course.ends.error⟩

theorem append {r : Except Interrupt α} {result : Except Interrupt β × Session}
    (first : Course nest P s events (r, t)) (going : ∀ ev ∈ events, ev.stop? = none)
    (next : Course nest Q t later result) : Course nest Q s (events ++ later) result where
  frames := first.frames.trans next.frames
  nested fits :=
    List.forall_mem_append.mpr ⟨first.nested fits, next.nested (fits.same first.frames)⟩
  ends := next.ends.append going

theorem event {act : Act} {result : Except Interrupt α × Session}
    (going : (Event.mk nest act s).stop? = none) (course : Course nest P s events result) :
    Course nest P s (⟨nest, act, s⟩ :: events) result where
  frames := course.frames
  nested fits := List.forall_mem_cons.mpr ⟨fits, course.nested fits⟩
  ends := course.ends.append (List.forall_mem_singleton.mpr going)

theorem stop {act : Act} {i : Interrupt} (stop : (Event.mk nest act s).stop? = some i) :
    Course nest P s [⟨nest, act, s⟩] (.error i, s) where
  frames := .refl s
  nested fits := List.forall_mem_singleton.mpr fits
  ends := .stopped (List.forall_mem_nil _) stop rfl rfl

end Course

namespace Traced

open Eval (Callee)

variable {α β : Type} {nest : Nesting} {P : α → Prop} {Q : β → Prop}

def Orderly (nest : Nesting) (P : α → Prop) (m : Traced α) : Prop :=
  ∀ s, Course nest P s (m.trace s) (m.eval s)

namespace Orderly

theorem silent {m : Eval α} (keeps : ∀ s, (steady s).Keeps P m) :
    Orderly nest P (Traced.silent m) := by
  intro s
  have kept := Eval.Invariant.keeps_single.mp (keeps s) s (.refl s)
  refine ⟨kept.2, fun _ => List.forall_mem_nil _, .passed (List.forall_mem_nil _) ?_⟩
  have fits := kept.1
  change Ordinarily P (m s).1
  cases result : (m s).1 with
  | ok a =>
    rw [result] at fits
    exact fits
  | error i =>
    rw [result] at fits
    exact fits

theorem pure {a : α} (fits : P a) : Orderly nest P (Pure.pure a) := silent fun _ => .pure fits

theorem bind {m : Traced α} {f : α → Traced β} (first : Orderly nest P m)
    (later : ∀ a, P a → Orderly nest Q (f a)) : Orderly nest Q (m >>= f) := by
  intro s
  have course := first s
  simp only [Bind.bind, Traced.bind, Eval.bind]
  rcases result : m.eval s with ⟨i | a, t⟩
  · rw [result] at course
    rw [List.append_nil]
    exact course.error
  · rw [result] at course
    exact course.append course.ends.going (later a course.ends.fits t)

theorem lift_bind {m : Eval α} {f : α → Traced β} (keeps : ∀ s, (steady s).Keeps P m)
    (later : ∀ a, P a → Orderly nest Q (f a)) : Orderly nest Q ((liftM m : Traced α) >>= f) :=
  (silent keeps).bind later

theorem enter {act : Act} {m : Traced α} (going : ∀ s, (Event.mk nest act s).stop? = none)
    (orderly : Orderly nest P m) : Orderly nest P (Traced.enter nest act m) :=
  fun s => (orderly s).event (going s)

theorem stop {act : Act} {i : Interrupt} (stop : ∀ s, (Event.mk nest act s).stop? = some i) :
    Orderly nest P (Traced.enter nest act (Eval.interrupt i : Eval α)) :=
  fun s => .stop (stop s)

theorem roundThen {body : Traced Unit} {later : Traced Value} (round : Orderly nest Any body)
    (next : Orderly nest Any later) : Orderly nest Any (Traced.roundThen body later) := by
  intro s
  have course := round s
  simp only [Traced.roundThen, Eval.Invariant.roundThen]
  rcases result : body.eval s with ⟨(e | ⟨kind | _, value, pos⟩ | _) | _, t⟩
  all_goals rw [result] at course
  · rw [List.append_nil]
    exact course.error
  -- A jump stops nothing but what is left of the round.
  · have going := course.ends.going_of_ordinary fun i eq => by
      cases eq
      exact SignalKind.noConfusion
    cases kind with
    | continueLoop => exact course.append going (next t)
    | breakLoop =>
      rw [List.append_nil]
      exact ⟨course.frames, course.nested, .passed going trivial⟩
    | returnValue =>
      rw [List.append_nil]
      exact course.error
  · rw [List.append_nil]
    exact course.error
  · rw [List.append_nil]
    exact course.error
  · exact course.append course.ends.going (next t)

theorem repeatWhile {condition : Traced Value} {body : Traced Unit}
    (test : Orderly nest Any condition) (round : Orderly nest Any body) (rounds : Nat) :
    Orderly nest Any (Traced.repeatWhile condition body rounds) := by
  induction rounds with
  | zero => exact silent fun _ => .interrupt trivial
  | succ rounds ih =>
    apply test.bind
    intro v _
    split
    · exact round.roundThen ih
    · exact pure trivial

theorem inCall {f : Function} {active : List Function} {room : Nat} {frame : Frame}
    {body : Traced Unit} (inside : Orderly ⟨f :: active, room⟩ Any body) :
    Orderly ⟨active, room + 1⟩ Any (Traced.inCall frame body) := by
  intro s
  have course := inside { s with calls := frame :: s.calls }
  have calls : ((Traced.inCall frame body).eval s).2.calls = s.calls := course.frames.tail
  refine ⟨⟨congrArg _ calls, congrArg _ calls⟩, fun fits => course.nested ?_, ?_⟩
  · obtain ⟨frames, depth⟩ := fits
    simp only [Nesting.Fits, List.length_cons] at *
    omega
  · exact course.ends.caught rfl rfl

end Orderly

section

variable {caller : Caller}

theorem apply_orderly (calls : ∀ f args pos, Orderly nest Any (caller f args pos))
    {target : Callee} {args : List Value} (pos : Position)
    (accepts : target.arity.accepts args.length = true) :
    Orderly nest Any (apply nest caller target args pos) := by
  cases target with
  | user f => exact calls f args pos
  | builtin b =>
    by_cases aborts : b = .abort
    · subst aborts
      exact .stop fun s => rfl
    · apply Orderly.enter
      · intro s
        cases b <;> first | rfl | exact absurd rfl aborts
      · apply Orderly.silent
        exact fun s => (steady_operations s).builtin_keeps pos accepts fun h => absurd h aborts

-- By recursion on the expression, over an orderly caller. What is not evaluated any further keeps
-- the frames of its session, and no event here stops the evaluation.

mutual

theorem expression_orderly (calls : ∀ f args pos, Orderly nest Any (caller f args pos)) :
    ∀ e : Expr, Orderly nest Any (expression nest caller e)
  | .literal value pos => .enter (fun _ => rfl) (.pure trivial)
  | .variable i => .enter (fun _ => rfl) (.silent fun s => (steady_operations s).named_keeps i)
  | .unary op e pos => by
    refine .enter (fun _ => rfl) ((expression_orderly calls e).bind fun v _ => ?_)
    exact .silent fun s => (steady_operations s).unary_keeps op v pos
  | .binary op l r pos => by
    refine .enter (fun _ => rfl) ((expression_orderly calls l).bind fun v _ => ?_)
    refine (expression_orderly calls r).bind fun w _ => .silent fun s => ?_
    exact ((steady_operations s).ofExcept_keeps (Arithmetic.binary_proper op v w pos)).mono
      fun _ _ => trivial
  | .logical op l r pos => by
    refine .enter (fun _ => rfl) ((expression_orderly calls l).bind fun v _ => ?_)
    split
    · exact .pure trivial
    · exact (expression_orderly calls r).bind fun w _ => .pure trivial
  | .assignment i e => by
    refine .enter (fun _ => rfl) ?_
    split
    · exact .silent fun s => (steady_operations s).fail_keeps trivial
    · next free =>
      refine (expression_orderly calls e).bind fun v _ => ?_
      have bound (s : Session) : (steady s).Keeps Any (Eval.bindName i v) :=
        (steady_operations s).bindName (by simpa using free) trivial
      exact .lift_bind bound fun _ _ => .pure trivial
  | .comparison es ops pos => by
    refine .enter (fun _ => rfl) ?_
    split
    · exact .silent fun s => .interrupt trivial
    · refine (expressions_orderly calls es).bind fun vs _ => ?_
      have compared (s : Session) := (steady_operations s).ofExcept_keeps
        (Eval.compareAll_proper ops vs pos)
      exact .lift_bind compared fun _ _ => .pure trivial
  | .call i es => by
    refine .enter (fun _ => rfl) ?_
    have found (s : Session) : (steady s).Keeps (·.arity.accepts es.length = true)
        (Eval.callee i es.length) :=
      ((steady_operations s).callee_keeps i es.length).mono fun _ h => h.1
    refine .lift_bind found fun target accepts => ?_
    refine (expressions_orderly calls es).bind fun vs length => ?_
    exact apply_orderly calls i.pos (length ▸ accepts)

theorem expressions_orderly (calls : ∀ f args pos, Orderly nest Any (caller f args pos)) :
    ∀ es : List Expr, Orderly nest (·.length = es.length) (expressions nest caller es)
  | [] => .pure rfl
  | e :: es => by
    refine (expression_orderly calls e).bind fun v _ => ?_
    exact (expressions_orderly calls es).bind fun vs length => .pure (congrArg (· + 1) length)

end

mutual

theorem statement_orderly (calls : ∀ f args pos, Orderly nest Any (caller f args pos))
    (rounds : Nat) : ∀ s : Statement, Orderly nest Any (statement nest caller rounds s)
  | .expression e => .enter (fun _ => rfl) (expression_orderly calls e)
  | .branch c body none pos => by
    refine .enter (fun _ => rfl) ((expression_orderly calls c).bind fun v _ => ?_)
    split
    · exact (block_orderly calls rounds body).bind fun _ _ => .pure trivial
    · exact .pure trivial
  | .branch c body (some other) pos => by
    refine .enter (fun _ => rfl) ((expression_orderly calls c).bind fun v _ => ?_)
    split
    · exact (block_orderly calls rounds body).bind fun _ _ => .pure trivial
    · exact (block_orderly calls rounds other).bind fun _ _ => .pure trivial
  | .loop c body pos =>
    .enter (fun _ => rfl)
      ((expression_orderly calls c).repeatWhile (block_orderly calls rounds body) rounds)
  | .function name params body =>
    .enter (fun _ => rfl) (.silent fun s => (steady_operations s).define_keeps fun _ _ => trivial)
  | .control kind none pos =>
    .enter (fun _ => rfl) (.silent fun s => .interrupt SignalKind.noConfusion)
  | .control kind (some e) pos =>
    .enter (fun _ => rfl) ((expression_orderly calls e).bind fun v _ =>
      .silent fun s => .interrupt SignalKind.noConfusion)

theorem block_orderly (calls : ∀ f args pos, Orderly nest Any (caller f args pos))
    (rounds : Nat) : ∀ body : List Statement, Orderly nest Any (block nest caller rounds body)
  | [] => .pure trivial
  | s :: rest => (statement_orderly calls rounds s).bind fun _ _ => block_orderly calls rounds rest

end

theorem statements_orderly (calls : ∀ f args pos, Orderly nest Any (caller f args pos))
    (rounds : Nat) (items : List Statement) :
    Orderly nest Any (statements nest caller rounds items) := by
  induction items with
  | nil => exact .pure trivial
  | cons s rest ih =>
    exact (statement_orderly calls rounds s).bind fun _ _ => ih.bind fun _ _ => .pure trivial

end

-- By induction on the room. Where there is none the event stops the evaluation.
theorem call_orderly (rounds room : Nat) (active : List Function) (f : Function)
    (args : List Value) (pos : Position) :
    Orderly ⟨active, room⟩ Any (call rounds room active f args pos) := by
  induction room generalizing active f args pos with
  | zero => exact .stop fun s => rfl
  | succ room ih =>
    apply Orderly.enter (fun s => rfl)
    apply Orderly.inCall
    exact block_orderly (ih (f :: active)) rounds f.body

end Traced

end CalcScript
