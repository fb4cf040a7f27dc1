import CalcScript.Proofs.Hosts
import CalcScript.Proofs.Safety

set_option autoImplicit false

namespace CalcScript

structure Function.Named (f : Function) : Prop where
  name : isBuiltinName f.name.name = false
  params : ∀ p ∈ f.params, isBuiltinName p.name = false ∧ p.isGlobal = false

structure Session.Unshadowed (s : Session) : Prop where
  builtins : ∀ frame ∈ s.globals :: s.calls, ∀ name v, frame.get? name = some v →
    isBuiltinName name = false
  functions : ∀ frame ∈ s.globals :: s.calls, ∀ name f, frame.get? name = some (.function f) →
    f.Named
  parent : ∀ inner frame outer, s.calls = inner ++ frame :: outer →
    { s with calls := frame :: outer }.scope = ⟨frame, [s.globals]⟩
  own : ∀ frame ∈ s.calls, ∀ name v, frame.get? name = some v → isGlobalName name = false

namespace Session.Unshadowed

variable {s : Session}

theorem lookup (h : s.Unshadowed) {i : Identifier} (reserved : isBuiltinName i.name = true) :
    s.lookup i = none := by
  have unbound : ∀ frame ∈ s.globals :: s.calls, frame.get? i.name = none := by
    intro frame member
    cases found : frame.get? i.name with
    | none => rfl
    | some v => exact Bool.noConfusion (reserved.symm.trans (h.builtins frame member _ v found))
  simp only [Session.lookup]
  split
  · exact unbound _ (.head _)
  · simp only [scope, Scope.get?]
    split
    · simp [unbound s.globals (.head _)]
    · next frame outer eq =>
      simp [unbound s.globals (.head _), unbound frame (.tail _ (eq ▸ .head outer))]

theorem call (h : s.Unshadowed) {b : Builtin} {i : Identifier}
    (name : Builtin.ofName? i.name = some b) (caller : Caller) (es : List Expr) :
    Eval.expression caller (.call i es) s =
      (if b.arity.accepts es.length then do
        let vs ← Eval.walkAll caller es
        b.call vs i.pos
      else Eval.fail (.type i.pos (.argumentCount b.name b.arity es.length)) : Eval Value) s := by
  have missing : s.lookup i = none := h.lookup (by rw [isBuiltinName, name]; rfl)
  have target : Eval.callee i es.length s =
      (if b.arity.accepts es.length then Pure.pure (.builtin b)
      else Eval.fail (.type i.pos (.argumentCount b.name b.arity es.length)) :
        Eval Eval.Callee) s := by
    simp only [Eval.callee, Eval.bind_apply, Eval.lookup, missing, name, Eval.pure_apply]
    rfl
  rw [Eval.expression_call, Eval.bind_apply, target]
  by_cases accepts : b.arity.accepts es.length = true
  · rw [if_pos accepts, if_pos accepts]
    rfl
  · rw [if_neg accepts, if_neg accepts]
    rfl

end Session.Unshadowed

def Value.Definable : Value → Prop
  | .function f => f.WellFormed ∧ f.Named
  | _ => True

theorem Value.Plain.definable {v : Value} (plain : v.Plain) : v.Definable := by
  cases v with
  | function f => exact plain.elim
  | int n | float x | string s | nothing => trivial

theorem Function.WellFormed.definable {f : Function} (code : f.WellFormed)
    (name : isBuiltinName f.name.name = false)
    (params : ∀ p ∈ f.params, isBuiltinName p.name = false) : (Value.function f).Definable :=
  ⟨code, name, fun p member => ⟨params p member, code.1 p member⟩⟩

def Signal.Definable (s : Signal) : Prop := ∀ v, s.value = some v → v.Definable

def Interrupt.Definable : Interrupt → Prop
  | .error (.misuse s) | .signal s => s.Definable
  | _ => True

theorem Error.Raised.definable {e : Error} (raised : e.Raised) : (Interrupt.error e).Definable := by
  cases e with
  | misuse signal => exact raised.elim
  | source e | name pos fault | type pos fault | math pos fault | overflow pos | recursion pos
  | internal fault | io fault | unknownCommand name => trivial

def Frame.GlobalNames (frame : Frame) : Prop :=
  frame.All fun name v => isBuiltinName name = false ∧ v.Definable

def Frame.LocalNames (frame : Frame) : Prop :=
  frame.All fun name v => (isBuiltinName name = false ∧ isGlobalName name = false) ∧ v.Definable

theorem Frame.initial_names : Frame.initial.GlobalNames := by
  apply Frame.ofList_all
  intro b member
  obtain ⟨c, constant, rfl⟩ := List.mem_map.mp member
  have free : ∀ c ∈ constants.map (·.1), isBuiltinName c = false := by decide
  exact ⟨free c.1 (List.mem_map_of_mem constant), trivial⟩

theorem Frame.arguments_names {f : Function} {args : List Value} (named : f.Named)
    (values : ∀ v ∈ args, v.Definable) : (Eval.arguments f.params args).LocalNames := by
  apply Frame.ofList_all
  intro b member
  obtain ⟨param, value⟩ := List.of_mem_zip member
  obtain ⟨p, inside, name⟩ := List.mem_map.mp param
  exact ⟨name ▸ named.params p inside, values b.2 value⟩

structure Session.Guarded (s : Session) : Prop where
  globals : s.globals.GlobalNames
  calls : ∀ frame ∈ s.calls, frame.LocalNames

namespace Session.Guarded

variable {s : Session}

theorem holds (h : s.Guarded) : s.Holds Value.Definable :=
  ⟨fun name v found => (h.globals name v found).2,
    fun frame member name v found => (h.calls frame member name v found).2⟩

theorem unshadowed (h : s.Guarded) : s.Unshadowed where
  builtins := List.forall_mem_cons.mpr ⟨fun name v found => (h.globals name v found).1,
    fun frame member name v found => (h.calls frame member name v found).1.1⟩
  functions := List.forall_mem_cons.mpr ⟨fun name _ found => (h.globals name _ found).2.2,
    fun frame member name _ found => (h.calls frame member name _ found).2.2⟩
  parent _ _ _ _ := rfl
  own frame member name v found := (h.calls frame member name v found).1.2

theorem bind (h : s.Guarded) {i : Identifier} (free : isBuiltinName i.name = false) {v : Value}
    (value : v.Definable) : (s.bind i v).Guarded := by
  simp only [Session.bind]
  split
  · next frame rest eq =>
    obtain ⟨innermost, outer⟩ := List.forall_mem_cons.mp (eq ▸ h.calls)
    split
    · exact ⟨h.globals.set ⟨free, value⟩, eq ▸ h.calls⟩
    · next own =>
      have named : isGlobalName i.name = false := Bool.eq_false_iff.mpr own
      exact ⟨h.globals, List.forall_mem_cons.mpr ⟨innermost.set ⟨⟨free, named⟩, value⟩, outer⟩⟩
  · exact ⟨h.globals.set ⟨free, value⟩, h.calls⟩

theorem clear (s : Session) : s.clear.Guarded := ⟨Frame.initial_names, List.forall_mem_nil _⟩

end Session.Guarded

namespace Eval

open Invariant (keeps_single call_single)

def guarding : Invariant := .single Session.Guarded Value.Definable Interrupt.Definable

theorem guarding_operations : guarding.Operations where
  lookup i := keeps_single.mpr fun s h => ⟨fun v found => h.holds.lookup found, h⟩
  bindName free value := keeps_single.mpr fun s h => ⟨trivial, h.bind free value⟩
  write text := keeps_single.mpr fun s h => by
    simp only [write]
    split
    · exact ⟨trivial, h.globals, h.calls⟩
    · exact ⟨trivial, h⟩
  readLine := keeps_single.mpr fun s h =>
    have io (fault : IoFault) := Error.Raised.definable (e := .io fault) trivial
    ⟨Invariant.readLine_fits io trivial s, h.globals, h.calls⟩
  plain := Value.Plain.definable
  raised := Error.Raised.definable
  exhausted := trivial

theorem guarding_statements : guarding.RespectsStatements Expr.WellFormed Statement.WellFormed :=
  guarding_operations.respectsStatements inheritedStatements_wellFormed
    (fun _ _ _ values => values)
    fun name params body => Function.WellFormed.definable (f := ⟨name, params, body⟩)

theorem guarding_respects {caller : Caller} (calls : ∀ f args pos, (Value.function f).Definable →
    (∀ v ∈ args, v.Definable) → guarding.Keeps Value.Definable (caller f args pos)) :
    guarding.Respects Expr.WellFormed caller :=
  guarding_operations.respects inherited_wellFormed (fun _ => nofun)
    (fun es ops pos h malformed => absurd malformed (by simp [h.1, h.2.1])) calls

theorem call_guarded {f : Function} {args : List Value} {s : Session}
    (function : (Value.function f).Definable) (values : ∀ v ∈ args, v.Definable) (h : s.Guarded) :
    Session.Guarded { s with calls := arguments f.params args :: s.calls } :=
  ⟨h.globals, List.forall_mem_cons.mpr ⟨Frame.arguments_names function.2 values, h.calls⟩⟩

theorem call_guarding (rounds room : Nat) (f : Function) (args : List Value) (pos : Position)
    (function : (Value.function f).Definable) (values : ∀ v ∈ args, v.Definable) :
    guarding.Keeps Value.Definable (call rounds room f args pos) := by
  induction room generalizing f args pos with
  | zero => exact .interrupt trivial
  | succ room ih =>
    have body : guarding.Keeps Any (block rounds (call rounds room) f.body) :=
      Invariant.block_keeps (guarding_respects ih) guarding_statements rounds f.body
        (Statement.allWellFormed_iff.mp function.1.2)
    apply call_single pos (fun s => call_guarded function values) _ body fun _ =>
      Invariant.caught_fits trivial (fun _ => id) fun s v (known : s.Definable) => known v
    exact fun s h =>
      ⟨h.globals, fun frame member => h.calls frame (List.mem_of_mem_tail member)⟩

end Eval

def Act.Definable : Act → Prop := Act.Fits Expr.WellFormed Statement.WellFormed Value.Definable

theorem Traced.call_guarding (rounds room : Nat) (active : List Function) :
    Traced.Maintains Session.Guarded Value.Definable Interrupt.Definable Expr.WellFormed
      Statement.WellFormed (Traced.call rounds room active) :=
  Traced.call_maintains Eval.guarding_operations rounds
    (fun room => Eval.guarding_respects (Eval.call_guarding rounds room)) Eval.guarding_statements
    (fun _ function => Statement.allWellFormed_iff.mp function.1.2)
    (fun _ _ _ => Eval.call_guarded) room active

theorem Session.watched_guarded :
    Watched Session.Guarded Value.Definable Interrupt.Definable Expr.WellFormed
      Statement.WellFormed where
  maintains rounds := Traced.call_guarding rounds maxCallDepth []
  items read := Statement.allWellFormed_iff.mp (wellFormed_of_readProgram read)
  sole := wellFormed_of_readExpression
  clear := .clear
  last h known := ⟨h.globals.set ⟨by decide, known⟩, h.calls⟩
  streams _ h := ⟨h.globals, h.calls⟩
  bound h found := (h.globals _ _ found).2
  refused {e} refusal := by cases e <;> trivial
  misuse carried := carried
  carried h := h _

theorem Session.Reached.guarded {s : Session} (reached : s.Reached) : s.Guarded :=
  watched_guarded.reached reached

theorem Value.Produced.definable {v : Value} (produced : v.Produced) : v.Definable :=
  Session.watched_guarded.produced produced

theorem Session.perform_guarded {s : Session} (request : Request)
    (supplied : ∀ v, request.supplied? = some v → v.Definable) (h : s.Guarded) :
    (s.returned request).Fits Interrupt.Definable (∀ v ∈ ·, v.Definable) ∧
      (s.perform request).2.Guarded :=
  watched_guarded.perform request supplied h

theorem Session.events_guarded {s : Session} (h : s.Guarded) {request : Request}
    (supplied : ∀ v, request.supplied? = some v → v.Definable) :
    ∀ ev ∈ s.events request, ev.session.Guarded ∧ ev.act.Definable :=
  watched_guarded.events h supplied

theorem Event.after_guarded {ev : Event} (session : ev.session.Guarded) (act : ev.act.Definable)
    (rounds : Nat) : (ev.after rounds).Guarded :=
  Traced.after_kept Eval.guarding_operations rounds
    (fun room => Eval.guarding_respects (Eval.call_guarding rounds room)) Eval.guarding_statements
    (Eval.call_guarding rounds) (fun _ => nofun) session act

/-- In no session that comes about, between requests or while one is answered, is anything bound to
the name of a built-in function. -/
theorem Session.Reached.never_shadowed {s : Session} (reached : s.Reached) :
    s.Unshadowed ∧
    ∀ request : Request, (∀ v, request.supplied? = some v → v.Produced) →
      (s.perform request).2.Unshadowed ∧
      ∀ ev ∈ s.events request,
        ev.session.Unshadowed ∧ (∀ rounds, (ev.after rounds).Unshadowed) ∧
        (∀ f args pos, ev.act = .call (.user f) args pos → f.Named) ∧
        ∀ b i es caller, Builtin.ofName? i.name = some b →
          Eval.expression caller (.call i es) ev.session =
            (if b.arity.accepts es.length then do
              let vs ← Eval.walkAll caller es
              b.call vs i.pos
            else Eval.fail (.type i.pos (.argumentCount b.name b.arity es.length)) : Eval Value)
              ev.session := by
  have guarded := reached.guarded
  refine ⟨guarded.unshadowed, fun request supplied => ?_⟩
  have definable (v : Value) (given : request.supplied? = some v) : v.Definable :=
    (supplied v given).definable
  refine ⟨(perform_guarded request definable guarded).2.unshadowed, fun ev member => ?_⟩
  obtain ⟨session, act⟩ := events_guarded guarded definable ev member
  refine ⟨session.unshadowed, fun rounds => (Event.after_guarded session act rounds).unshadowed,
    ?_, fun b i es caller name => session.unshadowed.call name caller es⟩
  intro f args pos user
  rw [user] at act
  exact act.1.2

def Event.callsAbs (ev : Event) : Bool :=
  match ev.act with
  | .expression (.call i _) => i.name == "abs" && ev.session.calls.length == 1
  | _ => false

theorem Session.Reached.never_shadowed_abs :
    let s := Session.ofConsole (.ofInput [])
    let request := Request.evaluate 9 "func f(x) \x7b return abs(x); \x7d f(_)" false
      (some (.float 3.141592653589793))
    s.Reached ∧ s.Unshadowed ∧ ∃ ev ∈ s.events request, ev.callsAbs = true ∧
      ev.session.Unshadowed ∧ ∀ e caller,
        Eval.expression caller (.call ⟨"abs", default⟩ [e]) ev.session = (do
          let vs ← Eval.walkAll caller [e]
          Builtin.abs.call vs default) ev.session := by
  intro s request
  have reached : s.Reached := .start (.ofInput [])
  have supplied : ∀ v, request.supplied? = some v → v.Produced := by
    rintro _ ⟨⟩
    have pi : s.globals.get? "pi" = some (.float 3.141592653589793) := by
      simp [s, ofConsole, Frame.initial, constants, Frame.ofList]
    exact .bound reached pi
  have called : (s.events request).any Event.callsAbs = true := by decide +kernel
  obtain ⟨ev, member, calls⟩ := List.any_eq_true.mp called
  have unshadowed := reached.never_shadowed
  obtain ⟨session, -, -, dispatch⟩ := (unshadowed.2 request supplied).2 ev member
  exact ⟨reached, unshadowed.1, ev, member, calls, session,
    fun e caller => dispatch .abs ⟨"abs", default⟩ [e] caller rfl⟩

end CalcScript
