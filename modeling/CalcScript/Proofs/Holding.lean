import CalcScript.Proofs.Primitives

set_option autoImplicit false

namespace CalcScript

namespace Eval.Invariant

variable {α : Type} {P : Session → Prop} {value : Value → Prop} {interrupt : Interrupt → Prop}

def single (P : Session → Prop) (value : Value → Prop) (interrupt : Interrupt → Prop) : Invariant :=
  ⟨fun s t => t = s ∧ P s, value, interrupt⟩

theorem keeps_single {Q : α → Prop} {m : Eval α} :
    (single P value interrupt).Keeps Q m ↔
      ∀ s, P s → (single P value interrupt).Fits Q (m s).1 ∧ P (m s).2 := by
  constructor
  · intro keeps s h
    obtain ⟨r, after, _, eq, -, fits, -, h'⟩ := keeps s s ⟨rfl, h⟩
    rw [eq]
    exact ⟨fits, h'⟩
  · rintro keeps s _ ⟨rfl, h⟩
    have after := keeps _ h
    exact ⟨_, _, _, rfl, rfl, after.1, rfl, after.2⟩

theorem readLine_fits {I : Invariant} (io : ∀ fault, I.interrupt (.error (.io fault)))
    (exhausted : I.interrupt .exhausted) (s : Session) : I.Fits Any (readLine s).1 := by
  simp only [readLine]
  cases s.console.readLine.1 with
  | text line => trivial
  | invalid | noMore => exact io _
  | notYet => exact exhausted

theorem call_single {rounds depth : Nat} {f : Function} {args : List Value} (pos : Position)
    (start : ∀ s, P s → P { s with calls := arguments f.params args :: s.calls })
    (finish : ∀ s, P s → P { s with calls := s.calls.tail })
    (body : (single P value interrupt).Keeps Any (block rounds (call rounds depth) f.body))
    (ends : ∀ s, (single P value interrupt).Fits Any (block rounds (call rounds depth) f.body s).1 →
      (single P value interrupt).Fits value
        (caught (block rounds (call rounds depth) f.body s).1)) :
    (single P value interrupt).Keeps value (call rounds (depth + 1) f args pos) := by
  apply call_keeps pos _ _ body ends
  · rintro s _ ⟨rfl, h⟩
    exact ⟨rfl, start _ h⟩
  · rintro s _ ⟨rfl, h⟩
    exact ⟨rfl, finish _ h⟩

end Eval.Invariant

def Console.wrote (c : Console) (text : String) : Console := { c with written := c.written ++ text }

theorem Console.wrote_nothing (c : Console) : c.wrote "" = c := by
  simp [wrote]

theorem Console.write?_wrote {c : Console} (works : c.broken = false) (text more : String) :
    (c.wrote text).write? more = some (c.wrote (text ++ more)) := by
  by_cases nothing : more = ""
  · simp [write?, nothing]
  · simp [write?, wrote, nothing, works, String.append_assoc]

theorem Console.write?_cases (c : Console) (text : String) :
    (c.write? text = none ∧ c.broken = true ∧ text ≠ "") ∨
      (c.write? text = some (c.wrote text) ∧ (c.broken = false ∨ text = "")) := by
  by_cases nothing : text = ""
  · right
    rw [write?, if_pos nothing, nothing, c.wrote_nothing]
    exact ⟨rfl, .inr rfl⟩
  · by_cases broken : c.broken = true
    · exact .inl ⟨by simp [write?, nothing, broken], broken, nothing⟩
    · exact .inr ⟨by simp [write?, nothing, broken, wrote], .inl (by simpa using broken)⟩

theorem Session.bind_console (s : Session) (i : Identifier) (v : Value) :
    (s.bind i v).console = s.console := by
  unfold Session.bind
  split
  · split <;> rfl
  · rfl

section

variable {P : Value → Prop}

namespace Frame

def All (Q : String → Value → Prop) (frame : Frame) : Prop :=
  ∀ name v, frame.get? name = some v → Q name v

section

variable {Q : String → Value → Prop}

theorem All.set {frame : Frame} (h : frame.All Q) {name : String} {v : Value} (new : Q name v) :
    (frame.set name v).All Q := by
  intro other w found
  rw [get?_set] at found
  by_cases same : other = name
  · rw [if_pos same] at found
    cases found
    exact same ▸ new
  · rw [if_neg same] at found
    exact h other w found

theorem ofList_all {bindings : List (String × Value)} (all : ∀ b ∈ bindings, Q b.1 b.2) :
    (ofList bindings).All Q := by
  have from' (frame : Frame) (h : frame.All Q) :
      (bindings.foldl (fun f b => f.set b.1 b.2) frame).All Q := by
    induction bindings generalizing frame with
    | nil => exact h
    | cons b bindings ih =>
      apply ih (fun c member => all c (.tail b member))
      exact h.set (all b (.head bindings))
  exact from' empty nofun

end

def Holds (P : Value → Prop) (frame : Frame) : Prop := ∀ name v, frame.get? name = some v → P v

theorem Holds.set {frame : Frame} (h : frame.Holds P) (name : String) {v : Value} (value : P v) :
    (frame.set name v).Holds P :=
  All.set (Q := fun _ => P) h value

theorem ofList_holds {bindings : List (String × Value)} (values : ∀ b ∈ bindings, P b.2) :
    (ofList bindings).Holds P :=
  ofList_all (Q := fun _ => P) values

theorem initial_holds (plain : ∀ v : Value, v.Plain → P v) : initial.Holds P := by
  apply ofList_holds
  intro b member
  obtain ⟨c, -, rfl⟩ := List.mem_map.mp member
  exact plain _ trivial

end Frame

structure Session.Holds (P : Value → Prop) (s : Session) : Prop where
  globals : s.globals.Holds P
  calls : ∀ frame ∈ s.calls, frame.Holds P

namespace Session.Holds

variable {s : Session}

theorem lookup (h : s.Holds P) {i : Identifier} {v : Value} (found : s.lookup i = some v) :
    P v := by
  simp only [Session.lookup] at found
  split at found
  · exact h.globals _ v found
  -- The frame that binds the name is that of the innermost call or that of the globals.
  · obtain ⟨frame, member, bound⟩ := List.exists_of_findSome?_eq_some found
    have inside : frame.Holds P := by
      simp only [scope] at member
      split at member
      · exact List.mem_singleton.mp member ▸ h.globals
      · next inner outer eq =>
        rcases List.mem_cons.mp member with rfl | member
        · exact h.calls _ (eq ▸ .head outer)
        · exact List.mem_singleton.mp member ▸ h.globals
    exact inside _ v bound

theorem bind (h : s.Holds P) (i : Identifier) {v : Value} (value : P v) :
    (s.bind i v).Holds P := by
  simp only [Session.bind]
  split
  · next frame rest eq =>
    have inside := eq ▸ h.calls
    split
    · exact ⟨h.globals.set _ value, eq ▸ inside⟩
    · refine ⟨h.globals, fun other member => ?_⟩
      rcases List.mem_cons.mp member with rfl | member
      · exact (inside frame (.head rest)).set _ value
      · exact inside other (.tail frame member)
  · exact ⟨h.globals.set _ value, h.calls⟩

theorem clear (s : Session) (plain : ∀ v : Value, v.Plain → P v) : s.clear.Holds P :=
  ⟨Frame.initial_holds plain, nofun⟩

end Session.Holds

namespace Eval

variable {interrupt : Interrupt → Prop}

def holding (P : Value → Prop) (interrupt : Interrupt → Prop) : Invariant :=
  .single (Session.Holds P) P interrupt

theorem holding_reach {place : Position → Prop} (plain : ∀ v : Value, v.Plain → P v)
    (raised : ∀ e : Error, e.Raised → (∀ pos, e.pos? = some pos → place pos) →
      interrupt (.error e)) : (holding P interrupt).Reach place where
  lookup i := Invariant.keeps_single.mpr fun s h => ⟨fun v found => h.lookup found, h⟩
  bindName {i v} _ value := Invariant.keeps_single.mpr fun s h => ⟨trivial, h.bind i value⟩
  write text := Invariant.keeps_single.mpr fun s h => by
    simp only [write]
    split
    · exact ⟨trivial, h.globals, h.calls⟩
    · exact ⟨raised _ trivial nofun, h⟩
  plain := plain _
  raised := raised _

theorem holding_readLine (io : ∀ fault, interrupt (.error (.io fault)))
    (exhausted : interrupt .exhausted) : (holding P interrupt).Keeps Any readLine :=
  Invariant.keeps_single.mpr fun s h =>
    ⟨Invariant.readLine_fits io exhausted s, h.globals, h.calls⟩

theorem holding_operations (plain : ∀ v : Value, v.Plain → P v)
    (raised : ∀ e : Error, e.Raised → interrupt (.error e)) (exhausted : interrupt .exhausted) :
    (holding P interrupt).Operations :=
  have reach : (holding P interrupt).Reach Any := holding_reach plain fun e h _ => raised e h
  { lookup := reach.lookup
    bindName := reach.bindName
    write := reach.write
    readLine := holding_readLine (fun _ => raised _ trivial) exhausted
    plain := reach.plain
    raised := raised _
    exhausted := exhausted }

theorem arguments_holds (params : List Identifier) {args : List Value} (values : ∀ v ∈ args, P v) :
    (arguments params args).Holds P := by
  apply Frame.ofList_holds
  exact fun b member => values b.2 (List.of_mem_zip member).2

theorem call_holds {rounds depth : Nat} {f : Function} {args : List Value} (pos : Position)
    (values : ∀ v ∈ args, P v)
    (body : (holding P interrupt).Keeps Any (block rounds (call rounds depth) f.body))
    (ends : ∀ s, (holding P interrupt).Fits Any (block rounds (call rounds depth) f.body s).1 →
      (holding P interrupt).Fits P (caught (block rounds (call rounds depth) f.body s).1)) :
    (holding P interrupt).Keeps P (call rounds (depth + 1) f args pos) := by
  apply Invariant.call_single pos _ _ body ends
  · intro s h
    exact ⟨h.globals, List.forall_mem_cons.mpr ⟨arguments_holds f.params values, h.calls⟩⟩
  · exact fun s h =>
      ⟨h.globals, fun frame member => h.calls frame (List.mem_of_mem_tail member)⟩

end Eval

end

end CalcScript
