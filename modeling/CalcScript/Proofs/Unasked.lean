import CalcScript.Proofs.Composition
import CalcScript.Proofs.FreshStart

set_option autoImplicit false

namespace CalcScript

def Act.asks : Act → Bool
  | .call (.builtin (.input _)) _ _ => true
  | _ => false

def Unasked (events : List Event) : Prop := ∀ ev ∈ events, ev.act.asks = false

theorem Unasked.append {first later : List Event} (unasked : Unasked (first ++ later)) :
    Unasked first ∧ Unasked later :=
  List.forall_mem_append.mp unasked

namespace Eval

inductive Paired (c d : Console) : Session → Session → Prop
  | mk (globals : Frame) (calls : List Frame) (text : String) :
      Paired c d ⟨globals, calls, c.wrote text⟩ ⟨globals, calls, d.wrote text⟩

def pairing (c d : Console) : Invariant := ⟨Paired c d, Any, Any⟩

variable {c d : Console}

theorem Paired.bind {s t : Session} (paired : Paired c d s t) (i : Identifier) (v : Value) :
    Paired c d (s.bind i v) (t.bind i v) := by
  obtain ⟨globals, calls, text⟩ := paired
  cases calls with
  | nil => exact .mk _ [] text
  | cons frame rest =>
    by_cases sigil : i.isGlobal = true
    · simp only [Session.bind, if_pos sigil]
      exact .mk _ _ text
    · simp only [Session.bind, if_neg sigil]
      exact .mk _ _ text

theorem pairing_access (works : c.broken = false) (works' : d.broken = false) :
    (pairing c d).Access where
  lookup i := by
    rintro _ _ ⟨globals, calls, text⟩
    exact ⟨_, _, _, rfl, rfl, fun _ _ => trivial, globals, calls, text⟩
  bindName _ _ _ _ paired := ⟨_, _, _, rfl, rfl, trivial, paired.bind _ _⟩
  write more := by
    rintro _ _ ⟨globals, calls, text⟩
    simp only [write, Console.write?_wrote works, Console.write?_wrote works']
    exact ⟨_, _, _, rfl, rfl, trivial, .mk globals calls (text ++ more)⟩
  plain _ := trivial
  raised _ := trivial
  exhausted := trivial

end Eval

namespace Traced

open Eval (Paired pairing pairing_access)

variable {α β : Type} {c d : Console}

def Alike (c d : Console) (m : Traced α) : Prop :=
  ∀ s t, Paired c d s t → Unasked (m.trace s) →
    ∃ r s' t', m.eval s = (r, s') ∧ m.eval t = (r, t') ∧ Paired c d s' t' ∧
      (m.trace t).map (·.act) = (m.trace s).map (·.act)

namespace Alike

theorem silent {P : α → Prop} {m : Eval α} (keeps : (pairing c d).Keeps P m) :
    Alike c d (Traced.silent m) := by
  intro s t paired _
  obtain ⟨r, s', t', eq, eq', -, paired'⟩ := keeps s t paired
  exact ⟨r, s', t', eq, eq', paired', rfl⟩

theorem pure (a : α) : Alike c d (Pure.pure a) := silent (P := Any) (.pure trivial)

theorem enter {nest : Nesting} {act : Act} {m : Traced α} (inside : Alike c d m) :
    Alike c d (Traced.enter nest act m) := by
  intro s t paired unasked
  obtain ⟨r, s', t', eq, eq', paired', acts⟩ :=
    inside s t paired (List.forall_mem_cons.mp unasked).2
  exact ⟨r, s', t', eq, eq', paired', congrArg (act :: ·) acts⟩

theorem bind {m : Traced α} {f : α → Traced β} (first : Alike c d m)
    (later : ∀ a, Alike c d (f a)) : Alike c d (m >>= f) := by
  intro s t paired unasked
  obtain ⟨before, behind⟩ := unasked.append
  obtain ⟨r, s', t', eq, eq', paired', acts⟩ := first s t paired before
  have whole : m >>= f = Traced.bind m f := rfl
  simp only [whole, Traced.bind, Eval.bind_apply, eq, eq', List.map_append, acts] at behind ⊢
  cases r with
  | error i => exact ⟨_, s', t', rfl, rfl, paired', rfl⟩
  | ok a =>
    obtain ⟨r, s'', t'', eq, eq', paired'', acts⟩ := later a s' t' paired' behind
    exact ⟨r, s'', t'', eq, eq', paired'', congrArg _ acts⟩

theorem roundThen {body : Traced Unit} {later : Traced Value} (round : Alike c d body)
    (next : Alike c d later) : Alike c d (Traced.roundThen body later) := by
  intro s t paired unasked
  obtain ⟨before, behind⟩ := unasked.append
  obtain ⟨r, s', t', eq, eq', paired', acts⟩ := round s t paired before
  have onward (behind : Unasked (later.trace s')) : ∃ r s'' t'', later.eval s' = (r, s'') ∧
      later.eval t' = (r, t'') ∧ Paired c d s'' t'' ∧
      (body.trace t).map (·.act) ++ (later.trace t').map (·.act) =
        (body.trace s).map (·.act) ++ (later.trace s').map (·.act) := by
    obtain ⟨r, s'', t'', eq, eq', paired'', more⟩ := next s' t' paired' behind
    exact ⟨r, s'', t'', eq, eq', paired'', by rw [acts, more]⟩
  simp only [Traced.roundThen, Eval.Invariant.roundThen, eq, eq', List.map_append] at behind ⊢
  rcases r with (e | ⟨kind | _, value, pos⟩ | _) | _
  · exact ⟨_, s', t', rfl, rfl, paired', congrArg (· ++ []) acts⟩
  · cases kind with
    | continueLoop => exact onward behind
    | breakLoop | returnValue => exact ⟨_, s', t', rfl, rfl, paired', congrArg (· ++ []) acts⟩
  · exact ⟨_, s', t', rfl, rfl, paired', congrArg (· ++ []) acts⟩
  · exact ⟨_, s', t', rfl, rfl, paired', congrArg (· ++ []) acts⟩
  · exact onward behind

theorem inCall {frame : Frame} {body : Traced Unit} (inside : Alike c d body) :
    Alike c d (Traced.inCall frame body) := by
  rintro _ _ ⟨globals, calls, text⟩ unasked
  obtain ⟨r, _, _, eq, eq', ⟨globals', calls', text'⟩, acts⟩ :=
    inside _ _ (.mk globals (frame :: calls) text) unasked
  refine ⟨Eval.caught r, _, _, ?_, ?_, .mk globals' calls'.tail text', acts⟩
  · simp only [Traced.inCall, Eval.inFrame, eq]
  · simp only [Traced.inCall, Eval.inFrame, eq']

end Alike

theorem composed_alike (works : c.broken = false) (works' : d.broken = false) :
    Composed (Alike c d) where
  quiet h := .silent (h _ (pairing_access works works') (fun _ => trivial) fun _ => trivial)
  builtin nest b args pos := by
    by_cases asks : ∃ kind, b = .input kind
    · obtain ⟨kind, rfl⟩ := asks
      intro s t _ unasked
      cases (List.forall_mem_cons.mp unasked).1
    -- No other function looks at the input.
    · have quiet := Eval.Quiet.builtin (not_exists.mp asks) args pos
      exact .enter (.silent
        (quiet _ (pairing_access works works') (fun _ => trivial) fun _ => trivial))
  enter _ inside := .enter inside
  bind first later := .bind first later
  roundThen round next := .roundThen round next
  inCall inside := .inCall inside

end Traced

theorem Eval.Paired.started {c d : Console} {s t : Session} (paired : Eval.Paired c d s t)
    (clearFirst : Bool) (last : Option Value) :
    Eval.Paired c d (s.started clearFirst last) (t.started clearFirst last) := by
  obtain ⟨globals, calls, text⟩ := paired
  cases clearFirst <;> cases last <;> exact .mk _ _ text

namespace Session

variable (rounds : Nat) (source : String) (clearFirst : Bool) (last : Option Value)

theorem evaluate_paired {c d : Console} (works : c.broken = false) (works' : d.broken = false)
    {s t : Session} (paired : Eval.Paired c d s t)
    (unasked : Unasked (s.events (.evaluate rounds source clearFirst last))) :
    ∃ outcome s' t', s.evaluate rounds source clearFirst last = (outcome, s') ∧
      t.evaluate rounds source clearFirst last = (outcome, t') ∧ Eval.Paired c d s' t' ∧
      (t.events (.evaluate rounds source clearFirst last)).map (·.act) =
        (s.events (.evaluate rounds source clearFirst last)).map (·.act) := by
  simp only [events, Request.plan, Plan.program, evaluate] at unasked ⊢
  by_cases blank : Text.trim source.toList = []
  · simp only [if_pos blank]
    exact ⟨_, s, t, rfl, rfl, paired, rfl⟩
  · simp only [if_neg blank] at unasked ⊢
    cases read : readProgram source with
    | error e => exact ⟨_, s, t, rfl, rfl, paired, rfl⟩
    | ok items =>
      rw [read] at unasked
      have begun := paired.started clearFirst last
      have composed := Traced.composed_alike works works'
      have alike : Traced.Alike c d
          (Traced.statements .outermost (Traced.call rounds maxCallDepth []) rounds items) :=
        composed.statements (composed.call rounds maxCallDepth []) rounds items
      have onward := alike.bind fun _ => .pure ()
      obtain ⟨_, _, _, -, -, -, acts⟩ := onward _ _ begun unasked
      obtain ⟨r, s', t', eq, eq', paired', -⟩ := alike _ _ begun unasked.append.1
      rw [Traced.eval_statements, Traced.eval_call] at eq eq'
      refine ⟨.ofResult r, s', t', ?_, ?_, paired', acts⟩
      · exact congrArg (fun answer => (Outcome.ofResult answer.1, answer.2)) eq
      · exact congrArg (fun answer => (Outcome.ofResult answer.1, answer.2)) eq'

theorem evaluate_unasked {s : Session} (works : s.console.broken = false)
    (unasked : Unasked (s.events (.evaluate rounds source clearFirst last))) :
    ∃ outcome globals calls text,
      s.evaluate rounds source clearFirst last =
        (outcome, ⟨globals, calls, s.console.wrote text⟩) ∧
      ∀ d : Console, d.broken = false →
        evaluate rounds source clearFirst last ⟨s.globals, s.calls, d⟩ =
          (outcome, ⟨globals, calls, d.wrote text⟩) ∧
        (Session.events (.evaluate rounds source clearFirst last)
          ⟨s.globals, s.calls, d⟩).map (·.act) =
            (s.events (.evaluate rounds source clearFirst last)).map (·.act) := by
  have paired (d : Console) : Eval.Paired s.console d s ⟨s.globals, s.calls, d⟩ := by
    have begun := Eval.Paired.mk s.globals s.calls "" (c := s.console) (d := d)
    rw [Console.wrote_nothing, Console.wrote_nothing] at begun
    exact begun
  obtain ⟨outcome, _, _, eq, -, ⟨globals, calls, text⟩, -⟩ :=
    evaluate_paired rounds source clearFirst last works works (paired s.console) unasked
  refine ⟨outcome, globals, calls, text, eq, fun d works' => ?_⟩
  obtain ⟨_, _, _, again, eq', ⟨globals', calls', text'⟩, acts⟩ :=
    evaluate_paired rounds source clearFirst last works works' (paired d) unasked
  rw [eq] at again
  simp only [Prod.mk.injEq, Session.mk.injEq, Console.wrote, Console.mk.injEq,
    String.append_right_inj] at again
  obtain ⟨rfl, rfl, rfl, -, -, rfl, -⟩ := again
  exact ⟨eq', acts⟩

end Session

end CalcScript
