import CalcScript.Proofs.Requests
import CalcScript.Proofs.Throughout

set_option autoImplicit false

namespace CalcScript

namespace Session

def returned (request : Request) (s : Session) : Outcome (List Value) :=
  match request with
  | .evaluate rounds source clearFirst last => (s.evaluate rounds source clearFirst last).1
  | .evaluateExpression rounds source => (s.evaluateExpression rounds source).1.map fun v => [v]
  | .evaluateFile rounds files path clearFirst => (s.evaluateFile rounds files path clearFirst).1
  | .command rounds files line => (s.command rounds files (.ofLine line)).1.map fun _ => []
  | .clear | .feed _ => .value []

end Session

mutual

/-- What a host can make of a new session, if it only hands back values that it was given. -/
inductive Session.Reached : Session → Prop
  | start (console : Console) : Session.Reached (.ofConsole console)
  | perform {s : Session} (request : Request) (reached : Session.Reached s)
      (supplied : ∀ v, request.supplied? = some v → Value.Produced v) :
      Session.Reached (s.perform request).2
  | streams {s : Session} (console : Console) (reached : Session.Reached s) :
      Session.Reached { s with console }

inductive Value.Produced : Value → Prop
  | returned {s : Session} {request : Request} {vs : List Value} {v : Value}
      (reached : Session.Reached s) (supplied : ∀ v, request.supplied? = some v → Value.Produced v)
      (outcome : s.returned request = .value vs) (member : v ∈ vs) : Value.Produced v
  | carried {s : Session} {request : Request} {signal : Signal} {v : Value}
      (reached : Session.Reached s) (supplied : ∀ v, request.supplied? = some v → Value.Produced v)
      (outcome : s.returned request = .error (.misuse signal)) (value : signal.value = some v) :
      Value.Produced v
  | bound {s : Session} {name : String} {v : Value} (reached : Session.Reached s)
      (found : s.globals.get? name = some v) : Value.Produced v

end

variable {P : Session → Prop} {value : Value → Prop} {interrupt : Interrupt → Prop}
  {ok : Expr → Prop} {okay : Statement → Prop}

structure Watched (P : Session → Prop) (value : Value → Prop) (interrupt : Interrupt → Prop)
    (ok : Expr → Prop) (okay : Statement → Prop) : Prop where
  maintains (rounds : Nat) :
    Traced.Maintains P value interrupt ok okay (Traced.call rounds maxCallDepth [])
  items {source : String} {items : List Statement} (read : readProgram source = .ok items) :
    ∀ s ∈ items, okay s
  sole {source : String} {e : Expr} (read : readExpression source = .ok e) : ok e
  clear (s : Session) : P s.clear
  last {s : Session} {v : Value} (h : P s) (known : value v) :
    P { s with globals := s.globals.set "_" v }
  streams {s : Session} (console : Console) (h : P s) : P { s with console }
  bound {s : Session} {name : String} {v : Value} (h : P s)
    (found : s.globals.get? name = some v) : value v
  refused {e : Error} (h : e.Refusal) : interrupt (.error e)
  misuse {signal : Signal} (h : interrupt (.signal signal)) : interrupt (.error (.misuse signal))
  carried {signal : Signal} {v : Value} (h : interrupt (.error (.misuse signal)))
    (given : signal.value = some v) : value v

namespace Watched

variable (watched : Watched P value interrupt ok okay)

include watched

theorem respects (rounds : Nat) :
    (Eval.Invariant.single P value interrupt).Respects ok (Eval.call rounds maxCallDepth) :=
  Traced.eval_call rounds maxCallDepth [] ▸ (watched.maintains rounds).respects

theorem hosted : Hosted P value interrupt where
  program read rounds := Eval.Invariant.statements_keeps (watched.respects rounds)
    (watched.maintains rounds).statements rounds _ (watched.items read)
  expression read rounds := Eval.Invariant.expression_keeps (watched.respects rounds)
    (watched.sole read)
  write := (watched.maintains 0).operations.write
  clear := watched.clear
  last := watched.last
  refused := watched.refused
  misuse := watched.misuse

theorem perform {s : Session} (request : Request)
    (supplied : ∀ v, request.supplied? = some v → value v) (h : P s) :
    (s.returned request).Fits interrupt (∀ v ∈ ·, value v) ∧ P (s.perform request).2 := by
  cases request with
  | evaluate rounds source clearFirst last =>
    exact watched.hosted.evaluate rounds source clearFirst supplied h
  | evaluateExpression rounds source =>
    obtain ⟨fits, after⟩ := watched.hosted.evaluateExpression rounds source h
    exact ⟨fits.map fun v known => List.forall_mem_singleton.mpr known, after⟩
  | evaluateFile rounds files path clearFirst =>
    exact watched.hosted.evaluateFile rounds files path clearFirst h
  | command rounds files line =>
    obtain ⟨fits, after⟩ := watched.hosted.command rounds files (.ofLine line) h
    exact ⟨fits.map fun _ _ => List.forall_mem_nil _, after⟩
  | clear => exact ⟨List.forall_mem_nil _, watched.clear s⟩
  | feed bytes => exact ⟨List.forall_mem_nil _, watched.streams _ h⟩

-- By recursion on how the session, or the value, came about.

mutual

theorem reached {s : Session} : s.Reached → P s
  | .start console => watched.clear (.ofConsole console)
  | .perform request before supplied =>
    (watched.perform request (fun v given => produced (supplied v given)) (reached before)).2
  | .streams console before => watched.streams console (reached before)

theorem produced {v : Value} : v.Produced → value v
  | .returned before supplied outcome member => by
    have all := (watched.perform _ (fun v given => produced (supplied v given)) (reached before)).1
    rw [outcome] at all
    exact all v member
  | .carried before supplied outcome given => by
    have all := (watched.perform _ (fun v given => produced (supplied v given)) (reached before)).1
    rw [outcome] at all
    exact watched.carried all given
  | .bound before found => watched.bound (reached before) found

end

end Watched

def Plan.Throughout (P : Session → Prop) (A : Act → Prop) : Plan → Prop
  | .refused _ => True
  | .evaluation start work => (∀ s, P s → P (start s)) ∧ Traced.Throughout P A work

namespace Watched

variable (watched : Watched P value interrupt ok okay)

include watched

theorem plan (request : Request) (supplied : ∀ v, request.supplied? = some v → value v) :
    request.plan.Throughout P (Act.Fits ok okay value) := by
  refine request.plan_cases (Q := Plan.Throughout P (Act.Fits ok okay value)) ?_ ?_ ?_ ?_ ?_ ?_ ?_
  · exact fun _ _ => trivial
  · exact ⟨fun _ h => h, .pure _⟩
  · intro rounds source items clearFirst last read given
    have calls := watched.maintains rounds
    refine ⟨fun s h => ?_, ?_⟩
    · exact watched.hosted.started clearFirst (fun v last => supplied v (given v last)) h
    · exact (calls.statements_throughout rounds items (watched.items read)).bind
        (calls.statements_kept rounds (watched.items read)) fun _ _ => .pure _
  · intro rounds source e read
    have calls := watched.maintains rounds
    refine ⟨fun _ h => h, ?_⟩
    exact (calls.expression_throughout e (watched.sole read)).bind
      (calls.expression_kept (watched.sole read)) fun _ _ => .pure _
  · exact fun text => ⟨fun _ h => h, .silent _⟩
  · exact ⟨fun s _ => watched.clear s, .pure _⟩
  · exact fun bytes _ => ⟨fun _ h => watched.streams _ h, .pure _⟩

theorem events {s : Session} (h : P s) {request : Request}
    (supplied : ∀ v, request.supplied? = some v → value v) :
    ∀ ev ∈ s.events request, P ev.session ∧ ev.act.Fits ok okay value := by
  have throughout := watched.plan request supplied
  rw [Session.events]
  cases plan : request.plan with
  | refused e => exact List.forall_mem_nil _
  | evaluation start work =>
    rw [plan] at throughout
    exact throughout.2 _ (throughout.1 s h)

end Watched

section

open Eval.Invariant (single keeps_single)

theorem Eval.keeps_any {α : Type} (m : Eval α) : (single Any Any Any).Keeps Any m :=
  keeps_single.mpr fun s _ => ⟨by cases (m s).1 <;> trivial, trivial⟩

theorem Eval.operations_any : (single Any Any Any).Operations where
  lookup i := (keeps_any (Eval.lookup i)).mono fun _ _ _ _ => trivial
  bindName _ _ := keeps_any _
  write _ := keeps_any _
  readLine := keeps_any _
  plain _ := trivial
  raised _ := trivial
  exhausted := trivial

theorem Session.watched_any : Watched Any Any Any Any Any where
  maintains rounds := Traced.call_maintains Eval.operations_any rounds
    (fun _ => Eval.operations_any.respects .any (fun _ => trivial) (fun _ _ _ _ _ => trivial)
      fun _ _ _ _ _ => Eval.keeps_any _)
    (Eval.operations_any.respectsStatements .any (fun _ _ _ _ => trivial)
      fun _ _ _ _ _ _ => trivial)
    (fun _ _ _ _ => trivial) (fun _ _ _ _ _ _ => trivial) maxCallDepth []
  items _ _ _ := trivial
  sole _ := trivial
  clear _ := trivial
  last _ _ := trivial
  streams _ _ := trivial
  bound _ _ := trivial
  refused _ := trivial
  misuse _ := trivial
  carried _ _ := trivial

theorem Session.events_accept (s : Session) (request : Request) :
    ∀ ev ∈ s.events request, ev.act.Fits Any Any Any := fun ev member =>
  (watched_any.events (s := s) trivial (fun _ _ => trivial) ev member).2

end

end CalcScript
