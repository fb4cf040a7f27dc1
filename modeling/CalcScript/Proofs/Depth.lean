import CalcScript.Proofs.Requests

set_option autoImplicit false

namespace CalcScript

def Outcome.recursion? {α : Type} : Outcome α → Option Position
  | .error (.recursion pos) => some pos
  | _ => none

theorem Outcome.recursion?_eq_some {α : Type} {o : Outcome α} {pos : Position} :
    o.recursion? = some pos ↔ o = .error (.recursion pos) := by
  constructor
  · intro found
    unfold recursion? at found
    split at found
    · cases found
      rfl
    · cases found
  · rintro rfl
    rfl

namespace Session

theorem after_outside (console : Console) (requests : List Request) :
    ((Session.ofConsole console).after requests).calls = [] := by
  have from' (s : Session) (outside : s.calls = []) : (s.after requests).calls = [] := by
    induction requests generalizing s with
    | nil => exact outside
    | cons request rest ih =>
      apply ih
      exact (perform_outside outside).1
  exact from' _ rfl

theorem expression_sameFrames (rounds room : Nat) (e : Expr) (s : Session) :
    s.SameFrames (Eval.expression (Eval.call rounds room) e s).2 := by
  have orderly := Traced.expression_orderly (Traced.call_orderly rounds room []) e
  have frames := (orderly s).frames
  rw [Traced.eval_expression, Traced.eval_call] at frames
  exact frames

theorem statement_sameFrames (rounds room : Nat) (item : Statement) (s : Session) :
    s.SameFrames (Eval.statement rounds (Eval.call rounds room) item s).2 := by
  have orderly := Traced.statement_orderly (Traced.call_orderly rounds room []) rounds item
  have frames := (orderly s).frames
  rw [Traced.eval_statement, Traced.eval_call] at frames
  exact frames

variable {request : Request} {s : Session}

theorem perform_recursion {pos : Position}
    (failed : (s.perform request).1 = .error (.recursion pos)) :
    ∃ before ev, s.events request = before ++ [ev] ∧
      ev.stop? = some (.error (.recursion pos)) := by
  rcases perform_error failed with ordinary | ⟨refusal, -⟩ | ⟨before, ev, i, passed, stop, eq⟩
  · exact ordinary.elim
  · exact refusal.elim
  · refine ⟨before, ev, passed, ?_⟩
    rcases Event.stop?_cases stop with ⟨at', rfl⟩ | ⟨at', rfl⟩
    · cases eq
      exact stop
    · cases eq

theorem perform_source {e : SyntaxError} (failed : (s.perform request).1 = .error (.source e)) :
    (s.perform request).2 = s := by
  rcases perform_error failed with ordinary | ⟨-, same⟩ | ⟨before, ev, i, -, stop, eq⟩
  · exact ordinary.elim
  · exact same
  · rcases Event.stop?_cases stop with ⟨at', rfl⟩ | ⟨at', rfl⟩ <;> cases eq

/-- Between any requests the session is outside of all calls. -/
theorem frames_and_depth (console : Console) (requests : List Request) (request : Request) :
    let s := (Session.ofConsole console).after requests
    s.calls = [] ∧
    (∀ ev ∈ s.events request, ev.session.calls.length = ev.active.length ∧
      ev.active.length + ev.room = maxCallDepth) ∧
    (∀ before ev later f args pos, s.events request = before ++ ev :: later →
      ev.act = .call (.user f) args pos →
      (later = [] ∧ (s.perform request).1 = .error (.recursion pos) ↔
        ev.active.length = maxCallDepth)) ∧
    (∀ pos, (s.perform request).1 = .error (.recursion pos) →
      ∃ before ev f args, s.events request = before ++ [ev] ∧
        ev.act = .call (.user f) args pos ∧ ev.active.length = maxCallDepth) ∧
    (∀ rounds room e (t : Session),
      t.SameFrames (Eval.expression (Eval.call rounds room) e t).2) ∧
    (∀ rounds room item (t : Session),
      t.SameFrames (Eval.statement rounds (Eval.call rounds room) item t).2) ∧
    (∀ e, (s.perform request).1 = .error (.source e) → (s.perform request).2 = s) ∧
    ∀ rounds files path fault, readSource files path = .error fault →
      (∀ clearFirst, s.perform (.evaluateFile rounds files path clearFirst) =
        (.error (.io fault), s)) ∧
      ∀ line, Command.ofLine line = .load path →
        s.perform (.command rounds files line) = (.error (.io fault), s) := by
  intro s
  have outside : s.calls = [] := after_outside console requests
  have nested : ∀ ev ∈ s.events request, ev.toNesting.Fits ev.session :=
    (perform_outside outside).2
  have full {ev : Event} (member : ev ∈ s.events request) :
      ev.room = 0 ↔ ev.active.length = maxCallDepth := by
    have depth := (nested ev member).2
    omega
  refine ⟨outside, nested, ?_, ?_, expression_sameFrames, statement_sameFrames,
    fun _ => perform_source, ?_⟩
  · intro before ev later f args pos passed act
    have member : ev ∈ s.events request := passed ▸ by simp
    constructor
    · rintro ⟨rfl, failed⟩
      obtain ⟨before', last, passed', stop⟩ := perform_recursion failed
      obtain ⟨-, rfl⟩ : before = before' ∧ ev = last := by simpa using passed.symm.trans passed'
      exact (full member).mp (Event.stop?_eq_recursion.mp stop).2
    · intro deep
      have stop := Event.stop?_eq_recursion.mpr ⟨⟨f, args, act⟩, (full member).mpr deep⟩
      have stopped := perform_stops passed stop
      exact ⟨stopped.1, stopped.2.1⟩
  · intro pos failed
    obtain ⟨before, ev, passed, stop⟩ := perform_recursion failed
    have member : ev ∈ s.events request := passed ▸ by simp
    obtain ⟨⟨f, args, act⟩, room⟩ := Event.stop?_eq_recursion.mp stop
    exact ⟨before, ev, f, args, passed, act, (full member).mp room⟩
  · intro rounds files path fault unread
    constructor
    · intro clearFirst
      simp only [perform, evaluateFile, unread]
      rfl
    · intro line load
      simp only [perform, load, command, evaluateFile, unread]
      rfl

theorem frames_and_depth_endless_calls :
    let s := Session.ofConsole (.ofInput [])
    let endless := Request.evaluate 0 "func f() \x7b f(); \x7d f();" false none
    let unfinished := Request.evaluate 0 "f(" true (some .nothing)
    (∃ before ev f args, s.events endless = before ++ [ev] ∧
      ev.act = .call (.user f) args ⟨1, 12⟩ ∧ ev.active.length = 200) ∧
    ((s.after [endless]).perform unfinished).2 = s.after [endless] := by
  intro s endless unfinished
  have deep : (s.perform endless).1 = .error (.recursion ⟨1, 12⟩) :=
    Outcome.recursion?_eq_some.mp (by decide +kernel)
  have fails : (readProgram "f(").isOk = false := by decide +kernel
  have first := frames_and_depth (.ofInput []) [] endless
  have second := frames_and_depth (.ofInput []) [endless] unfinished
  refine ⟨first.2.2.2.1 _ deep, ?_⟩
  cases parsed : readProgram "f(" with
  | ok items =>
    rw [parsed] at fails
    cases fails
  | error e =>
    have unread (t : Session) : (t.perform unfinished).1 = .error (.source e) := by
      simp only [unfinished, perform, evaluate, parsed]
      rfl
    exact second.2.2.2.2.2.2.1 e (unread _)

end Session

end CalcScript
