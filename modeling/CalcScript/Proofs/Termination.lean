import CalcScript.Proofs.Hosting
import CalcScript.Proofs.Rounds

set_option autoImplicit false

namespace CalcScript

mutual

def Statement.loops : Statement → Bool
  | .expression _ | .control _ _ _ => false
  | .branch _ body otherwise _ => Statement.anyLoops body || Statement.elseLoops otherwise
  | .loop _ _ _ => true
  | .function _ _ body => Statement.anyLoops body

def Statement.anyLoops : List Statement → Bool
  | [] => false
  | s :: rest => s.loops || Statement.anyLoops rest

def Statement.elseLoops : Option (List Statement) → Bool
  | none => false
  | some body => Statement.anyLoops body

end

theorem Statement.anyLoops_eq_false {items : List Statement} :
    Statement.anyLoops items = false ↔ ∀ s ∈ items, s.loops = false := by
  induction items with
  | nil => simp [Statement.anyLoops]
  | cons s items ih => simp [Statement.anyLoops, ih]

def Function.LoopFree (f : Function) : Prop := Statement.anyLoops f.body = false

def Value.LoopFree : Value → Prop
  | .function f => f.LoopFree
  | _ => True

theorem Value.Plain.loopFree {v : Value} (plain : v.Plain) : v.LoopFree := by
  cases v with
  | function f => exact plain.elim
  | int n | float x | string s | nothing => trivial

def Interrupt.LoopFree : Interrupt → Prop
  | .error _ => True
  | .signal s => ∀ v, s.value = some v → v.LoopFree
  | .exhausted => False

namespace Console

variable {c : Console}

theorem readLine_ended : c.readLine.2.ended = c.ended := by
  unfold readLine
  split
  · rfl
  · dsimp only
    split <;> rfl

theorem readLine_ne_notYet (ended : c.ended = true) : c.readLine.1 ≠ .notYet := by
  unfold readLine
  rw [ended]
  split
  · simp
  · dsimp only
    split
    · next waits => simp at waits
    · split <;> simp

end Console

structure Session.Halting (s : Session) : Prop where
  stored : s.Holds Value.LoopFree
  ended : s.console.ended = true

namespace Session.Halting

variable {s : Session}

theorem bind (h : s.Halting) (i : Identifier) {v : Value} (value : v.LoopFree) :
    (s.bind i v).Halting :=
  ⟨h.stored.bind i value, (congrArg Console.ended (s.bind_console i v)).trans h.ended⟩

theorem started (h : s.Halting) (clearFirst : Bool) {last : Option Value}
    (supplied : ∀ v, last = some v → v.LoopFree) : (s.started clearFirst last).Halting := by
  have start : Session.Halting (if clearFirst then s.clear else s) := by
    split
    · exact ⟨.clear s fun _ => Value.Plain.loopFree, h.ended⟩
    · exact h
  cases last with
  | none => exact start
  | some v =>
    have globals := start.stored.globals.set "_" (supplied v rfl)
    exact ⟨⟨globals, start.stored.calls⟩, start.ended⟩

end Session.Halting

namespace Eval

open Invariant (keeps_single call_single)

def halting : Invariant := .single Session.Halting Value.LoopFree Interrupt.LoopFree

theorem halting_reach : halting.Reach Any where
  lookup i := keeps_single.mpr fun s h => ⟨fun v found => h.stored.lookup found, h⟩
  bindName {i v} _ value := keeps_single.mpr fun s h => ⟨trivial, h.bind i value⟩
  write text := keeps_single.mpr fun s h => by
    rcases s.console.write?_cases text with ⟨fails, -⟩ | ⟨works, -⟩
    · simp only [write, fails]
      exact ⟨trivial, h⟩
    · simp only [write, works]
      exact ⟨trivial, ⟨h.stored.globals, h.stored.calls⟩, h.ended⟩
  plain := Value.Plain.loopFree
  raised _ _ := trivial

theorem readLine_halting : halting.Keeps Any readLine := by
  refine keeps_single.mpr fun s h => ⟨?_, ⟨h.stored.globals, h.stored.calls⟩, ?_⟩
  · have waits := Console.readLine_ne_notYet h.ended
    simp only [readLine]
    cases line : s.console.readLine.1 with
    | text text | invalid | noMore => trivial
    | notYet => exact waits line
  · exact Console.readLine_ended.trans h.ended

theorem inheritedStatements_loopFree :
    Invariant.InheritedStatements Any fun s => s.loops = false where
  expression _ := trivial
  branch := by
    intro c body otherwise pos free
    rw [Statement.loops, Bool.or_eq_false_iff] at free
    refine ⟨trivial, Statement.anyLoops_eq_false.mp free.1, ?_⟩
    rintro other rfl
    exact Statement.anyLoops_eq_false.mp free.2
  loop := by
    intro c body pos free
    rw [Statement.loops] at free
    cases free
  result _ := trivial

theorem halting_respects {caller : Caller} (calls : ∀ f args pos, (Value.function f).LoopFree →
    (∀ v ∈ args, v.LoopFree) → halting.Keeps Value.LoopFree (caller f args pos)) :
    halting.Respects Any caller :=
  halting_reach.respects .any .any (fun _ _ => nofun) (fun _ _ _ _ _ => readLine_halting)
    (fun _ _ _ _ _ => trivial) fun f args pos _ => calls f args pos

theorem halting_statements : halting.RespectsStatements Any fun s => s.loops = false :=
  halting_reach.respectsStatements inheritedStatements_loopFree .any
    -- Rounds are counted in loops and nowhere else.
    (fun _ _ _ free => by rw [Statement.loops] at free; cases free)
    (fun _ _ _ _ values => values)
    fun _ _ _ free _ _ => by rw [Statement.loops] at free; exact free

-- By induction on the room for more calls: the calls in the body of a function have less of it,
-- whatever functions they are of.
theorem call_halting (rounds room : Nat) (f : Function) (args : List Value) (pos : Position)
    (function : (Value.function f).LoopFree) (values : ∀ v ∈ args, v.LoopFree) :
    halting.Keeps Value.LoopFree (call rounds room f args pos) := by
  induction room generalizing f args pos with
  | zero => exact .interrupt trivial
  | succ room ih =>
    have body : halting.Keeps Any (block rounds (call rounds room) f.body) :=
      Invariant.block_keeps (halting_respects ih) halting_statements rounds f.body
        (Statement.anyLoops_eq_false.mp function)
    refine call_single pos ?_ ?_ body fun _ => Invariant.caught_fits trivial (fun _ _ => trivial)
      fun s v (known : (Interrupt.signal s).LoopFree) => known v
    · intro s h
      have inside := arguments_holds f.params values
      exact ⟨⟨h.stored.globals, List.forall_mem_cons.mpr ⟨inside, h.stored.calls⟩⟩, h.ended⟩
    · intro s h
      exact ⟨⟨h.stored.globals, fun frame member =>
        h.stored.calls frame (List.mem_of_mem_tail member)⟩, h.ended⟩

theorem statements_halting (rounds : Nat) {items : List Statement}
    (free : Statement.anyLoops items = false) :
    halting.Keeps (∀ v ∈ ·, v.LoopFree) (statements rounds (call rounds maxCallDepth) items) :=
  Invariant.statements_keeps (halting_respects (call_halting rounds maxCallDepth))
    halting_statements rounds items (Statement.anyLoops_eq_false.mp free)

end Eval

namespace Session

variable {s : Session} {source : String}

open Eval.Invariant (keeps_single)

theorem evaluate_halting (h : s.Halting) (rounds : Nat)
    (free : ∀ items, readProgram source = .ok items → Statement.anyLoops items = false)
    (clearFirst : Bool) {last : Option Value} (supplied : ∀ v, last = some v → v.LoopFree) :
    (s.evaluate rounds source clearFirst last).1 ≠ .exhausted ∧
      (s.evaluate rounds source clearFirst last).2.Halting := by
  unfold evaluate
  split
  · exact ⟨nofun, h⟩
  · split
    · exact ⟨nofun, h⟩
    · next items read =>
      have keeps := keeps_single.mp (Eval.statements_halting rounds (free items read))
      obtain ⟨fits, after⟩ := keeps _ (h.started clearFirst supplied)
      refine ⟨?_, after⟩
      change Outcome.ofResult (Eval.statements rounds _ items (s.started clearFirst last)).1 ≠ _
      rcases result : (Eval.statements rounds _ items (s.started clearFirst last)).1 with
        (e | signal | _) | vs
      all_goals rw [result] at fits
      · exact nofun
      · exact nofun
      · exact fits.elim
      · exact nofun

/-- A program without loops ends, with values or an error, if no function that is stored, or handed
to it, has a loop. -/
theorem evaluate_terminates (stored : s.Holds Value.LoopFree) (ended : s.console.ended = true)
    (free : ∀ items, readProgram source = .ok items → Statement.anyLoops items = false)
    (clearFirst : Bool) {last : Option Value} (supplied : ∀ v, last = some v → v.LoopFree) :
    ∃ answer after, (∀ rounds, s.evaluate rounds source clearFirst last = (answer, after)) ∧
      ((∃ vs, answer = .value vs) ∨ ∃ e, answer = .error e) ∧ after.Holds Value.LoopFree := by
  obtain ⟨finished, halting⟩ := evaluate_halting ⟨stored, ended⟩ 0 free clearFirst supplied
  refine ⟨(s.evaluate 0 source clearFirst last).1, (s.evaluate 0 source clearFirst last).2, ?_, ?_,
    halting.stored⟩
  · exact fun rounds => evaluate_outlasts (Nat.zero_le rounds) source clearFirst last s finished
  · cases outcome : (s.evaluate 0 source clearFirst last).1 with
    | value vs => exact .inl ⟨vs, rfl⟩
    | error e => exact .inr ⟨e, rfl⟩
    | exhausted => exact absurd outcome finished

theorem evaluate_terminates_endless_calls :
    let source := "func $g(x) \x7b f(x) \x7d func f(x) \x7b $g = f; x(x) \x7d f($g)"
    ∃ answer after, (∀ rounds,
        (ofConsole (.ofInput [])).evaluate rounds source true none = (answer, after)) ∧
      ((∃ vs, answer = .value vs) ∨ ∃ e, answer = .error e) ∧ after.Holds Value.LoopFree := by
  intro source
  have free : (readProgram source).toOption.map Statement.anyLoops = some false := by
    decide +kernel
  refine evaluate_terminates (.clear (ofConsole (.ofInput [])) fun _ => Value.Plain.loopFree)
    rfl (fun items read => ?_) true nofun
  rw [read] at free
  exact Option.some.inj free

end Session

end CalcScript
