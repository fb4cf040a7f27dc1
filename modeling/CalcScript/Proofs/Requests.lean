import CalcScript.Proofs.Hosting
import CalcScript.Proofs.Orderly

set_option autoImplicit false

namespace CalcScript

inductive Request where
  | evaluate (rounds : Nat) (source : String) (clearFirst : Bool) (last : Option Value)
  | evaluateExpression (rounds : Nat) (source : String)
  | evaluateFile (rounds : Nat) (files : Files) (path : String) (clearFirst : Bool)
  | command (rounds : Nat) (files : Files) (line : String)
  | clear
  | feed (bytes : List UInt8)

def Request.supplied? : Request → Option Value
  | .evaluate _ _ _ last => last
  | _ => none

namespace Session

def ended {α : Type} (answer : Outcome α × Session) : Outcome Unit × Session :=
  (answer.1.map fun _ => (), answer.2)

def perform (request : Request) (s : Session) : Outcome Unit × Session :=
  match request with
  | .evaluate rounds source clearFirst last => ended (s.evaluate rounds source clearFirst last)
  | .evaluateExpression rounds source => ended (s.evaluateExpression rounds source)
  | .evaluateFile rounds files path clearFirst =>
    ended (s.evaluateFile rounds files path clearFirst)
  | .command rounds files line => s.command rounds files (.ofLine line)
  | .clear => (.value (), s.clear)
  | .feed bytes => (.value (), { s with console := s.console.feed bytes })

def after (requests : List Request) (s : Session) : Session :=
  requests.foldl (fun s request => (s.perform request).2) s

theorem ended_run {α : Type} (m : Eval α) (s : Session) :
    ended (s.run m) = s.run (m >>= fun _ => return ()) := by
  simp only [ended, run, Eval.bind_apply]
  rcases m s with ⟨(e | signal | _) | _, t⟩ <;> rfl

end Session

def Nesting.outermost : Nesting := ⟨[], maxCallDepth⟩

inductive Plan where
  | refused (e : Error)
  | evaluation (start : Session → Session) (work : Traced Unit)

namespace Plan

def program (rounds : Nat) (source : String) (clearFirst : Bool) (last : Option Value) : Plan :=
  if Text.trim source.toList = [] then .evaluation id (return ())
  else
    match readProgram source with
    | .error e => .refused (.source e)
    | .ok items => .evaluation (·.started clearFirst last) do
      let _ ← Traced.statements .outermost (Traced.call rounds maxCallDepth []) rounds items
      return ()

def file (rounds : Nat) (files : Files) (path : String) (clearFirst : Bool) : Plan :=
  match readSource files path with
  | .error fault => .refused (.io fault)
  | .ok source => program rounds source clearFirst none

def sole (rounds : Nat) (source : String) : Plan :=
  match readExpression source with
  | .error e => .refused (.source e)
  | .ok e => .evaluation id do
    let _ ← Traced.expression .outermost (Traced.call rounds maxCallDepth []) e
    return ()

def shown (text : Session → String) : Plan :=
  .evaluation id (Traced.silent fun s => Eval.write (text s) s)

def ofCommand (rounds : Nat) (files : Files) : Command → Plan
  | .vars => shown fun s => Command.listing s.globals
  | .help => shown fun _ => Command.helpText
  | .load path => file rounds files path false
  | .usage => shown fun _ => Command.usageText
  | .unknown name => .refused (.unknownCommand name)

def answer (s : Session) : Plan → Outcome Unit × Session
  | .refused e => (.error e, s)
  | .evaluation start work => (start s).run work.eval

def events (s : Session) : Plan → List Event
  | .refused _ => []
  | .evaluation start work => work.trace (start s)

variable (s : Session) (rounds : Nat)

theorem answer_program (source : String) (clearFirst : Bool) (last : Option Value) :
    (program rounds source clearFirst last).answer s =
      Session.ended (s.evaluate rounds source clearFirst last) := by
  unfold program Session.evaluate
  by_cases blank : Text.trim source.toList = []
  · rw [if_pos blank, if_pos blank]
    rfl
  · rw [if_neg blank, if_neg blank]
    cases readProgram source with
    | error e => rfl
    | ok items =>
      simp only [answer, Traced.eval_bind, Traced.eval_statements, Traced.eval_call,
        Traced.eval_pure, ← Session.ended_run]
      rfl

theorem answer_file (files : Files) (path : String) (clearFirst : Bool) :
    (file rounds files path clearFirst).answer s =
      Session.ended (s.evaluateFile rounds files path clearFirst) := by
  unfold file Session.evaluateFile
  cases readSource files path with
  | error fault => rfl
  | ok source => exact answer_program s rounds source clearFirst none

theorem answer_sole (source : String) :
    (sole rounds source).answer s = Session.ended (s.evaluateExpression rounds source) := by
  unfold sole Session.evaluateExpression
  cases readExpression source with
  | error e => rfl
  | ok e =>
    simp only [answer, Traced.eval_bind, Traced.eval_expression, Traced.eval_call,
      Traced.eval_pure, ← Session.ended_run]
    rfl

theorem answer_ofCommand (files : Files) (c : Command) :
    (ofCommand rounds files c).answer s = s.command rounds files c := by
  cases c with
  | vars | help | usage | unknown name => rfl
  | load path => exact answer_file s rounds files path false

end Plan

def Request.plan : Request → Plan
  | .evaluate rounds source clearFirst last => .program rounds source clearFirst last
  | .evaluateExpression rounds source => .sole rounds source
  | .evaluateFile rounds files path clearFirst => .file rounds files path clearFirst
  | .command rounds files line => .ofCommand rounds files (.ofLine line)
  | .clear => .evaluation (·.clear) (return ())
  | .feed bytes => .evaluation (fun s => { s with console := s.console.feed bytes }) (return ())

theorem Request.plan_cases {Q : Plan → Prop} (request : Request)
    (refused : ∀ e : Error, e.Refusal → Q (.refused e))
    (nothing : Q (.evaluation id (return ())))
    (program : ∀ rounds source items clearFirst last, readProgram source = .ok items →
      (∀ v, last = some v → request.supplied? = some v) →
      Q (.evaluation (·.started clearFirst last) do
        let _ ← Traced.statements .outermost (Traced.call rounds maxCallDepth []) rounds items
        return ()))
    (sole : ∀ rounds source e, readExpression source = .ok e → Q (.evaluation id do
      let _ ← Traced.expression .outermost (Traced.call rounds maxCallDepth []) e
      return ()))
    (shown : ∀ text, Q (.shown text)) (clear : Q (.evaluation (·.clear) (return ())))
    (feed : ∀ bytes, request = .feed bytes →
      Q (.evaluation (fun s => { s with console := s.console.feed bytes }) (return ()))) :
    Q request.plan := by
  have ofProgram (rounds : Nat) (source : String) (clearFirst : Bool) (last : Option Value)
      (given : ∀ v, last = some v → request.supplied? = some v) :
      Q (.program rounds source clearFirst last) := by
    unfold Plan.program
    split
    · exact nothing
    · split
      · exact refused _ trivial
      · next items read => exact program rounds source items clearFirst last read given
  have ofFile (rounds : Nat) (files : Files) (path : String) (clearFirst : Bool) :
      Q (.file rounds files path clearFirst) := by
    unfold Plan.file
    split
    · exact refused _ trivial
    · exact ofProgram rounds _ clearFirst none nofun
  cases request with
  | evaluate rounds source clearFirst last =>
    exact ofProgram rounds source clearFirst last fun _ => id
  | evaluateExpression rounds source =>
    simp only [plan, Plan.sole]
    split
    · exact refused _ trivial
    · next e read => exact sole rounds source e read
  | evaluateFile rounds files path clearFirst => exact ofFile rounds files path clearFirst
  | command rounds files line =>
    simp only [plan]
    cases Command.ofLine line with
    | vars | help | usage => exact shown _
    | load path => exact ofFile rounds files path false
    | unknown name => exact refused _ trivial
  | clear => exact clear
  | feed bytes => exact feed bytes rfl

namespace Session

def events (request : Request) (s : Session) : List Event := request.plan.events s

theorem perform_eq (request : Request) (s : Session) :
    s.perform request = request.plan.answer s := by
  cases request with
  | evaluate rounds source clearFirst last =>
    exact (Plan.answer_program s rounds source clearFirst last).symm
  | evaluateExpression rounds source => exact (Plan.answer_sole s rounds source).symm
  | evaluateFile rounds files path clearFirst =>
    exact (Plan.answer_file s rounds files path clearFirst).symm
  | command rounds files line => exact (Plan.answer_ofCommand s rounds files _).symm
  | clear | feed bytes => rfl

end Session

namespace Plan

def Orderly : Plan → Prop
  | .refused e => e.Refusal
  | .evaluation start work =>
    (∀ s, s.calls = [] → (start s).calls = []) ∧ Traced.Orderly .outermost Any work

end Plan

theorem Request.plan_orderly (request : Request) : request.plan.Orderly := by
  refine request.plan_cases (Q := Plan.Orderly) ?_ ?_ ?_ ?_ ?_ ?_ ?_
  · exact fun _ refusal => refusal
  · exact ⟨fun _ outside => outside, .pure trivial⟩
  · intro rounds source items clearFirst last _ _
    refine ⟨fun s outside => ?_, ?_⟩
    · have cleared : (if clearFirst then s.clear else s).calls = [] := by
        split
        · rfl
        · exact outside
      cases last <;> exact cleared
    · exact (Traced.statements_orderly (Traced.call_orderly rounds maxCallDepth []) rounds
        items).bind fun _ _ => .pure trivial
  · intro rounds source e _
    refine ⟨fun _ outside => outside, ?_⟩
    exact (Traced.expression_orderly (Traced.call_orderly rounds maxCallDepth []) e).bind
      fun _ _ => .pure trivial
  · intro text
    refine ⟨fun _ outside => outside, .silent fun s => ?_⟩
    apply Eval.Invariant.keeps_single.mpr
    intro t same
    exact Eval.Invariant.keeps_single.mp ((steady_operations s).write (text t)) t same
  · exact ⟨fun _ _ => rfl, .pure trivial⟩
  · exact fun bytes _ => ⟨fun _ outside => outside, .pure trivial⟩

namespace Session

variable {request : Request} {s : Session}

theorem perform_outside (outside : s.calls = []) :
    (s.perform request).2.calls = [] ∧
      ∀ ev ∈ s.events request, ev.toNesting.Fits ev.session := by
  have orderly := request.plan_orderly
  rw [perform_eq, events]
  cases plan : request.plan with
  | refused e => exact ⟨outside, List.forall_mem_nil _⟩
  | evaluation start work =>
    rw [plan] at orderly
    have within := orderly.1 s outside
    have course := orderly.2 (start s)
    have fits : Nesting.outermost.Fits (start s) := ⟨congrArg _ within, Nat.zero_add _⟩
    refine ⟨?_, course.nested fits⟩
    have length := course.frames.length
    rw [within] at length
    exact List.eq_nil_of_length_eq_zero length

theorem perform_stops {before later : List Event} {ev : Event} {i : Interrupt}
    (passed : s.events request = before ++ ev :: later) (stop : ev.stop? = some i) :
    later = [] ∧ (s.perform request).1 = .ofResult (.error i) ∧
      (s.perform request).2.globals = ev.session.globals ∧
      (s.perform request).2.console = ev.session.console := by
  have orderly := request.plan_orderly
  rw [events] at passed
  rw [perform_eq]
  cases plan : request.plan with
  | refused e =>
    rw [plan] at passed
    exact absurd passed.symm (by simp [Plan.events])
  | evaluation start work =>
    rw [plan] at orderly passed
    have ends := (orderly.2 (start s)).ends
    rw [show work.trace (start s) = before ++ ev :: later from passed] at ends
    obtain ⟨nothing, result, globals, console⟩ := ends.stops stop
    exact ⟨nothing, congrArg Outcome.ofResult result, globals, console⟩

theorem perform_error {e : Error} (failed : (s.perform request).1 = .error e) :
    (Interrupt.error e).Ordinary ∨ (e.Refusal ∧ (s.perform request).2 = s) ∨
      ∃ before ev i, s.events request = before ++ [ev] ∧ ev.stop? = some i ∧
        Outcome.ofResult (.error i : Except Interrupt Unit) = .error e := by
  have orderly := request.plan_orderly
  rw [perform_eq] at failed ⊢
  rw [events]
  cases plan : request.plan with
  | refused e' =>
    rw [plan] at orderly failed
    cases failed
    exact .inr (.inl ⟨orderly, rfl⟩)
  | evaluation start work =>
    rw [plan] at orderly failed
    have ends := (orderly.2 (start s)).ends
    change Outcome.ofResult (work.eval (start s)).1 = .error e at failed
    rcases result : (work.eval (start s)).1 with i | a
    · rw [result] at ends failed
      rcases ends.exists_stop with ordinary | ⟨before, ev, passed, stop⟩
      · rcases i with e' | signal | _
        · cases failed
          exact .inl ordinary
        · cases failed
          exact .inl ordinary
        · cases failed
      · exact .inr (.inr ⟨before, ev, i, passed, stop, failed⟩)
    · rw [result] at failed
      cases failed

end Session

end CalcScript
