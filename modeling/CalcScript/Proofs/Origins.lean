import CalcScript.Proofs.Holding
import CalcScript.Proofs.Moving

set_option autoImplicit false

namespace CalcScript

def stay (ts : List Token) (pos : Position) : Position :=
  if pos ∈ ts.map (·.pos) then pos else ⟨pos.line + 1, pos.column⟩

theorem stay_eq_self {ts : List Token} {pos : Position} :
    stay ts pos = pos ↔ pos ∈ ts.map (·.pos) := by
  unfold stay
  split
  · next among => simp [among]
  · next other =>
    refine iff_of_false (fun same => ?_) other
    have line := congrArg Position.line same
    simp at line

theorem map_stay (ts : List Token) : ts.map (.move (stay ts)) = ts := by
  have fixed : ∀ t ∈ ts, t.move (stay ts) = t := by
    intro t member
    have same : stay ts t.pos = t.pos := stay_eq_self.mpr (List.mem_map_of_mem member)
    rw [Token.move, same]
  rw [List.map_congr_left fixed, List.map_id']

theorem mem_of_map_stay {ts : List Token} {places : List Position}
    (same : places.map (stay ts) = places) {pos : Position} (member : pos ∈ places) :
    pos ∈ ts.map (·.pos) :=
  stay_eq_self.mp (List.map_inj_left.mp (same.trans (List.map_id places).symm) pos member)

section

variable {ts : List Token} {pos : Position}

theorem SyntaxError.located_of_move {fault : Fault}
    (same : (SyntaxError.located pos fault).move (stay ts) = .located pos fault) :
    pos ∈ ts.map (·.pos) := by
  rw [move, located.injEq] at same
  exact stay_eq_self.mp same.1

theorem places_of_parseProgram {items : List Statement} (parsed : parseProgram ts = .ok items)
    (member : pos ∈ Statement.allPlaces items) : pos ∈ ts.map (·.pos) := by
  have moved := parseProgram_map (stay ts) ts
  rw [map_stay, parsed] at moved
  have same : Statement.moveAll (stay ts) items = items := (Except.ok.inj moved).symm
  refine mem_of_map_stay ?_ member
  rw [← Statement.allPlaces_move, same]

theorem located_of_parseProgram {fault : Fault}
    (failed : parseProgram ts = .error (.located pos fault)) : pos ∈ ts.map (·.pos) := by
  have moved := parseProgram_map (stay ts) ts
  rw [map_stay, failed] at moved
  exact SyntaxError.located_of_move (Except.error.inj moved).symm

end

def Expr.Within (place : Position → Prop) (e : Expr) : Prop := ∀ pos ∈ e.places, place pos

def Statement.Within (place : Position → Prop) (s : Statement) : Prop := ∀ pos ∈ s.places, place pos

def Value.Within (place : Position → Prop) : Value → Prop
  | .function f => ∀ s ∈ f.body, s.Within place
  | _ => True

def Interrupt.Within (place : Position → Prop) : Interrupt → Prop
  | .error e => ∀ pos, e.pos? = some pos → place pos
  | .signal s => place s.pos ∧ ∀ v, s.value = some v → v.Within place
  | .exhausted => True

theorem Expr.mem_allPlaces {es : List Expr} {pos : Position} :
    pos ∈ Expr.allPlaces es ↔ ∃ e ∈ es, pos ∈ e.places := by
  induction es with
  | nil => simp [Expr.allPlaces]
  | cons e es ih => simp [Expr.allPlaces, ih]

theorem Statement.mem_allPlaces {items : List Statement} {pos : Position} :
    pos ∈ Statement.allPlaces items ↔ ∃ s ∈ items, pos ∈ s.places := by
  induction items with
  | nil => simp [Statement.allPlaces]
  | cons s items ih => simp [Statement.allPlaces, ih]

section

variable {place : Position → Prop}

theorem Value.Plain.within {v : Value} (plain : v.Plain) : v.Within place := by
  cases v with
  | function f => exact plain.elim
  | int n | float x | string s | nothing => trivial

namespace Eval

open Invariant

theorem inherited_within : Inherited (Expr.Within place) where
  unary h pos member := h pos (by simp [Expr.places, member])
  binary h := ⟨fun pos member => h pos (by simp [Expr.places, member]),
    fun pos member => h pos (by simp [Expr.places, member])⟩
  logical h := ⟨fun pos member => h pos (by simp [Expr.places, member]),
    fun pos member => h pos (by simp [Expr.places, member])⟩
  assignment h pos member := h pos (by simp [Expr.places, member])
  comparison h e among pos member :=
    h pos (.tail _ (Expr.mem_allPlaces.mpr ⟨e, among, member⟩))
  call h e among pos member := h pos (.tail _ (Expr.mem_allPlaces.mpr ⟨e, among, member⟩))

theorem located_within : Located place (Expr.Within place) where
  «variable» h := h _ (.head _)
  unary h := h _ (.head _)
  binary h := h _ (.head _)
  assignment h := h _ (.head _)
  comparison h := h _ (.head _)
  call h := h _ (.head _)

theorem inheritedStatements_within :
    InheritedStatements (Expr.Within place) (Statement.Within place) where
  expression h := h
  branch {c body otherwise _} h := by
    simp only [Statement.Within, Statement.places, List.forall_mem_cons,
      List.forall_mem_append] at h
    obtain ⟨-, condition, inside, other⟩ := h
    refine ⟨condition, fun s among pos member => ?_, ?_⟩
    · exact inside pos (Statement.mem_allPlaces.mpr ⟨s, among, member⟩)
    · rintro body rfl s among pos member
      exact other pos (Statement.mem_allPlaces.mpr ⟨s, among, member⟩)
  loop h := by
    simp only [Statement.Within, Statement.places, List.forall_mem_cons,
      List.forall_mem_append] at h
    obtain ⟨-, condition, inside⟩ := h
    exact ⟨condition, fun s among pos member =>
      inside pos (Statement.mem_allPlaces.mpr ⟨s, among, member⟩)⟩
  result h pos member := h pos (.tail _ member)

theorem locatedStatements_within : LocatedStatements place (Statement.Within place) where
  function h := by
    simp only [Statement.Within, Statement.places, List.forall_mem_cons, List.forall_mem_append,
      List.forall_mem_map] at h
    exact ⟨h.1, h.2.1⟩
  control {_ value _} h := by
    cases value <;> exact h _ (.head _)

def within (place : Position → Prop) : Invariant :=
  holding (Value.Within place) (Interrupt.Within place)

theorem within_reach : (within place).Reach place :=
  holding_reach (fun _ => Value.Plain.within) fun _ _ here => here

theorem within_respects {caller : Caller} (calls : ∀ f args pos, place pos →
    (Value.function f).Within place → (∀ v ∈ args, v.Within place) →
    (within place).Keeps (Value.Within place) (caller f args pos)) :
    (within place).Respects (Expr.Within place) caller :=
  within_reach.respects inherited_within located_within (fun _ here => ⟨here, nofun⟩)
    (fun _ _ _ _ _ => holding_readLine (fun _ _ => nofun) trivial) (fun _ _ _ _ _ _ => nofun) calls

theorem within_statements :
    (within place).RespectsStatements (Expr.Within place) (Statement.Within place) :=
  within_reach.respectsStatements inheritedStatements_within locatedStatements_within
    (fun _ _ _ _ => trivial) (fun _ _ _ here values => ⟨here, values⟩)
    fun name params body h _ _ s among pos member => by
      refine h pos (.tail _ (List.mem_append_right _ ?_))
      exact Statement.mem_allPlaces.mpr ⟨s, among, member⟩

theorem call_within (rounds room : Nat) (f : Function) (args : List Value) (pos : Position)
    (here : place pos) (function : (Value.function f).Within place)
    (values : ∀ v ∈ args, v.Within place) :
    (within place).Keeps (Value.Within place) (call rounds room f args pos) := by
  induction room generalizing f args pos with
  | zero => exact .interrupt fun other found => Option.some.inj found ▸ here
  | succ room ih =>
    have body : (within place).Keeps Any (block rounds (call rounds room) f.body) :=
      block_keeps (within_respects ih) within_statements rounds f.body function
    refine call_holds pos values body fun _ => caught_fits trivial ?_ ?_
    · exact fun s known other found => Option.some.inj found ▸ known.1
    · exact fun s v known => known.2 v

theorem statements_within (rounds : Nat) {items : List Statement}
    (code : ∀ s ∈ items, s.Within place) :
    (within place).Keeps (∀ v ∈ ·, v.Within place)
      (statements rounds (call rounds maxCallDepth) items) :=
  statements_keeps (within_respects (call_within rounds maxCallDepth)) within_statements rounds
    items code

end Eval

end

end CalcScript
