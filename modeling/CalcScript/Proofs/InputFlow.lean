import CalcScript.Proofs.Composition
import CalcScript.Proofs.FreshStart
import CalcScript.Proofs.Hosts

set_option autoImplicit false

namespace CalcScript

def Console.source (c : Console) : List UInt8 × Bool := (c.unread, c.ended)

namespace Eval

variable {α : Type}

theorem write_source (text : String) (s : Session) :
    (write text s).2.console.source = s.console.source := by
  rcases s.console.write?_cases text with ⟨fails, -⟩ | ⟨works, -⟩
  · rw [write, fails]
  · rw [write, works]
    rfl

theorem Quiet.source {m : Eval α} (quiet : m.Quiet) (s : Session) :
    (m s).2.console.source = s.console.source := by
  let left : Invariant := .single (·.console.source = s.console.source) Any Any
  have access : left.Access :=
    { lookup := fun i => Invariant.keeps_single.mpr fun t same => ⟨fun _ _ => trivial, same⟩
      bindName := fun {i v} _ _ => Invariant.keeps_single.mpr fun t same =>
        ⟨trivial, (congrArg Console.source (t.bind_console i v)).trans same⟩
      write := fun text => Invariant.keeps_single.mpr fun t same =>
        ⟨by cases (write text t).1 <;> trivial, (write_source text t).trans same⟩
      plain := fun _ => trivial
      raised := fun _ => trivial
      exhausted := trivial }
  exact (Invariant.keeps_single.mp (quiet left access (fun _ => trivial) fun _ => trivial) s rfl).2

end Eval

-- What a built-in function leaves of the input. Whatever else is evaluated hands on what it finds
-- to what is evaluated in it.
def Event.sourceAfter (ev : Event) : List UInt8 × Bool :=
  match ev.act with
  | .call (.builtin b) args pos => (b.call args pos ev.session).2.console.source
  | _ => ev.session.console.source

theorem Event.sourceAfter_own {ev : Event} (own : ev.act.isBuiltin = false) :
    ev.sourceAfter = ev.session.console.source := by
  unfold sourceAfter
  split
  · next call =>
    rw [call] at own
    cases own
  · rfl

inductive Linked : List UInt8 × Bool → List Event → List UInt8 × Bool → Prop
  | nil (source : List UInt8 × Bool) : Linked source [] source
  | cons {source last : List UInt8 × Bool} {ev : Event} {events : List Event}
      (here : ev.session.console.source = source) (later : Linked ev.sourceAfter events last) :
      Linked source (ev :: events) last

namespace Linked

variable {source last : List UInt8 × Bool} {events more : List Event}

theorem append {middle : List UInt8 × Bool} (first : Linked source events middle)
    (later : Linked middle more last) : Linked source (events ++ more) last := by
  induction first with
  | nil source => exact later
  | cons here _ ih => exact .cons here (ih later)

theorem split (linked : Linked source (events ++ more) last) :
    ∃ middle, Linked source events middle ∧ Linked middle more last := by
  induction events generalizing source with
  | nil => exact ⟨source, .nil source, linked⟩
  | cons ev events ih =>
    cases linked with
    | cons here later =>
      obtain ⟨middle, first, rest⟩ := ih later
      exact ⟨middle, .cons here first, rest⟩

end Linked

namespace Traced

variable {α β : Type}

def Linking (m : Traced α) : Prop :=
  ∀ s, Linked s.console.source (m.trace s) (m.eval s).2.console.source

namespace Linking

theorem silent {m : Eval α} (keeps : ∀ s, (m s).2.console.source = s.console.source) :
    Linking (Traced.silent m) := by
  intro s
  change Linked s.console.source [] (m s).2.console.source
  rw [keeps s]
  exact .nil _

theorem builtin (nest : Nesting) (b : Builtin) (args : List Value) (pos : Position) :
    Linking (Traced.enter nest (.call (.builtin b) args pos) (b.call args pos)) :=
  fun _ => .cons rfl (.nil _)

theorem enter {nest : Nesting} {act : Act} {m : Traced α} (own : act.isBuiltin = false)
    (inside : Linking m) : Linking (Traced.enter nest act m) := by
  intro s
  refine .cons rfl ?_
  rw [Event.sourceAfter_own own]
  exact inside s

theorem bind {m : Traced α} {f : α → Traced β} (first : Linking m) (later : ∀ a, Linking (f a)) :
    Linking (m >>= f) := by
  intro s
  have whole : m >>= f = Traced.bind m f := rfl
  have before := first s
  simp only [whole, Traced.bind, Eval.bind_apply]
  rcases result : m.eval s with ⟨i | a, t⟩
  · rw [result] at before
    exact before.append (.nil _)
  · rw [result] at before
    exact before.append (later a t)

theorem roundThen {body : Traced Unit} {later : Traced Value} (round : Linking body)
    (next : Linking later) : Linking (Traced.roundThen body later) := by
  intro s
  have before := round s
  simp only [Traced.roundThen, Eval.Invariant.roundThen]
  rcases result : body.eval s with ⟨(e | ⟨kind | _, value, pos⟩ | _) | _, t⟩
  all_goals rw [result] at before
  · exact before.append (.nil _)
  · cases kind with
    | continueLoop => exact before.append (next t)
    | breakLoop | returnValue => exact before.append (.nil _)
  · exact before.append (.nil _)
  · exact before.append (.nil _)
  · exact before.append (next t)

theorem inCall {frame : Frame} {body : Traced Unit} (inside : Linking body) :
    Linking (Traced.inCall frame body) := fun s => inside { s with calls := frame :: s.calls }

end Linking

theorem composed_linking : Composed Linking where
  quiet h := .silent h.source
  builtin := .builtin
  enter := .enter
  bind := .bind
  roundThen := .roundThen
  inCall := .inCall

end Traced

def Plan.Linking : Plan → Prop
  | .refused _ => True
  | .evaluation start work =>
    (∀ s, (start s).console.source = s.console.source) ∧ Traced.Linking work

theorem Request.plan_linking {request : Request} (fixed : ∀ bytes, request ≠ .feed bytes) :
    request.plan.Linking := by
  have composed := Traced.composed_linking
  refine request.plan_cases (Q := Plan.Linking) ?_ ?_ ?_ ?_ ?_ ?_ ?_
  · exact fun _ _ => trivial
  · exact ⟨fun _ => rfl, composed.pure _⟩
  · intro rounds source items clearFirst last _ _
    refine ⟨fun s => by cases clearFirst <;> cases last <;> rfl, ?_⟩
    exact composed.bind (composed.statements (composed.call rounds maxCallDepth []) rounds items)
      fun _ => composed.pure _
  · intro rounds source e _
    refine ⟨fun _ => rfl, ?_⟩
    exact composed.bind (composed.expression (composed.call rounds maxCallDepth []) e)
      fun _ => composed.pure _
  · exact fun text => ⟨fun _ => rfl, .silent fun s => Eval.write_source (text s) s⟩
  · exact ⟨fun _ => rfl, composed.pure _⟩
  · exact fun bytes fed => absurd fed (fixed bytes)

theorem Session.perform_linked {request : Request} (fixed : ∀ bytes, request ≠ .feed bytes)
    (s : Session) :
    Linked s.console.source (s.events request) (s.perform request).2.console.source := by
  have linking := request.plan_linking fixed
  rw [perform_eq, events]
  cases plan : request.plan with
  | refused e => exact .nil _
  | evaluation start work =>
    rw [plan] at linking
    rw [← linking.1 s]
    exact linking.2 (start s)

end CalcScript
