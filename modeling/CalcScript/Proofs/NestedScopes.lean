import CalcScript.Frame

set_option autoImplicit false

namespace CalcScript

inductive ScopeOp where
  | push
  | pop
  | set (name : String) (v : Value)
  | get (name : String)

namespace Scope

-- The outermost frame stays.
def act (s : Scope) : ScopeOp → Scope
  | .push => s.push
  | .pop => s.pop?.getD s
  | .set name v => s.set name v
  | .get _ => s

def after (s : Scope) (ops : List ScopeOp) : Scope := ops.foldl act s

def frames (s : Scope) : List Frame := s.inner :: s.outer

def enclosing? : Nat → Scope → Option Scope
  | 0, s => some s
  | n + 1, s => s.pop?.bind (enclosing? n)

theorem enclosing?_frames {n : Nat} {s a : Scope} (enclosed : s.enclosing? n = some a) :
    a.frames = s.frames.drop n := by
  induction n generalizing s with
  | zero =>
    cases enclosed
    rfl
  | succ n ih =>
    obtain ⟨inner, outer⟩ := s
    cases outer with
    | nil => cases enclosed
    | cons frame outer => exact ih (s := ⟨frame, outer⟩) enclosed

end Scope

structure Ledger.Entry where
  frame : Nat
  name : String
  value : Value

/-- All entries, the latest first. Frames have the numbers in whose order they were opened. -/
structure Ledger where
  opened : Nat
  current : Nat
  outer : List Nat
  entries : List Ledger.Entry

namespace Ledger

def initial : Ledger :=
  ⟨0, 0, [], (constants.map fun (name, x) => ⟨0, name, .float x⟩).reverse⟩

def chain (t : Ledger) : List Nat := t.current :: t.outer

def act (t : Ledger) : ScopeOp → Ledger
  | .push => { t with opened := t.opened + 1, current := t.opened + 1, outer := t.chain }
  | .pop =>
    match t.outer with
    | [] => t
    | frame :: outer => { t with current := frame, outer }
  | .set name v => { t with entries := ⟨t.current, name, v⟩ :: t.entries }
  | .get _ => t

def after (t : Ledger) (ops : List ScopeOp) : Ledger := ops.foldl act t

/-- The latest entry for the name in a frame of the chain, when no frame further in has one. -/
def Holds (t : Ledger) (chain : List Nat) (name : String) (v : Value) : Prop :=
  ∃ inside frame outside newer older,
    chain = inside ++ frame :: outside ∧ t.entries = newer ++ ⟨frame, name, v⟩ :: older ∧
    (∀ e ∈ newer, e.frame = frame → e.name ≠ name) ∧
    ∀ e ∈ t.entries, e.frame ∈ inside → e.name ≠ name

def isFor (frame : Nat) (name : String) (e : Entry) : Bool := e.frame == frame && e.name == name

theorem isFor_iff {frame : Nat} {name : String} {e : Entry} :
    isFor frame name e = true ↔ e.frame = frame ∧ e.name = name := by
  simp [isFor]

theorem not_isFor_iff {frame : Nat} {name : String} {e : Entry} :
    (!isFor frame name e) = true ↔ (e.frame = frame → e.name ≠ name) := by
  rw [Bool.not_eq_true', ← Bool.not_eq_true, isFor_iff, not_and]

def latest? (t : Ledger) (frame : Nat) (name : String) : Option Value :=
  (t.entries.find? (isFor frame name)).map Entry.value

theorem latest?_eq_none {t : Ledger} {name : String} {frame : Nat} :
    t.latest? frame name = none ↔ ∀ e ∈ t.entries, e.frame = frame → e.name ≠ name := by
  simp [latest?, isFor]

theorem latest?_eq_some {t : Ledger} {name : String} {frame : Nat} {v : Value} :
    t.latest? frame name = some v ↔ ∃ newer older,
      t.entries = newer ++ ⟨frame, name, v⟩ :: older ∧
        ∀ e ∈ newer, e.frame = frame → e.name ≠ name := by
  simp only [latest?, Option.map_eq_some_iff, List.find?_eq_some_iff_append, isFor_iff,
    not_isFor_iff]
  constructor
  · rintro ⟨_, ⟨⟨rfl, rfl⟩, newer, older, split, before⟩, rfl⟩
    exact ⟨newer, older, split, before⟩
  · rintro ⟨newer, older, split, before⟩
    exact ⟨⟨frame, name, v⟩, ⟨⟨rfl, rfl⟩, newer, older, split, before⟩, rfl⟩

def find? (t : Ledger) (chain : List Nat) (name : String) : Option Value :=
  chain.findSome? (t.latest? · name)

theorem find?_eq_some {t : Ledger} {chain : List Nat} {name : String} {v : Value} :
    t.find? chain name = some v ↔ t.Holds chain name v := by
  simp only [find?, List.findSome?_eq_some_iff, latest?_eq_some, latest?_eq_none]
  constructor
  · rintro ⟨inside, frame, outside, split, ⟨newer, older, entries, last⟩, none⟩
    exact ⟨inside, frame, outside, newer, older, split, entries, last,
      fun e entry within => none e.frame within e entry rfl⟩
  · rintro ⟨inside, frame, outside, newer, older, split, entries, last, none⟩
    exact ⟨inside, frame, outside, split, ⟨newer, older, entries, last⟩,
      fun g within e entry same => none e entry (same ▸ within)⟩

theorem find?_eq_none {t : Ledger} {chain : List Nat} {name : String} :
    t.find? chain name = none ↔ ∀ e ∈ t.entries, e.frame ∈ chain → e.name ≠ name := by
  simp only [find?, List.findSome?_eq_none_iff, latest?_eq_none]
  constructor
  · exact fun none e entry within => none e.frame within e entry rfl
  · exact fun none n within e entry same => none e entry (same ▸ within)

theorem latest?_set (t : Ledger) (name other : String) (v : Value) (frame : Nat) :
    (t.act (.set name v)).latest? frame other =
      if t.current = frame ∧ name = other then some v else t.latest? frame other := by
  simp only [latest?, act, List.find?_cons, isFor]
  by_cases here : t.current = frame ∧ name = other
  · simp [here]
  · have other : (t.current == frame && name == other) = false := by simpa using here
    rw [other, if_neg here]

end Ledger

structure Recorded (s : Scope) (t : Ledger) : Prop where
  frames : s.frames.map Frame.get? = t.chain.map t.latest?
  apart : t.chain.Nodup
  chain : ∀ n ∈ t.chain, n ≤ t.opened
  entries : ∀ e ∈ t.entries, e.frame ≤ t.opened

namespace Recorded

variable {s : Scope} {t : Ledger}

theorem push (recorded : Recorded s t) : Recorded (s.act .push) (t.act .push) where
  frames := by
    refine List.cons_eq_cons.mpr ⟨funext fun name => ?_, recorded.frames⟩
    have fresh : t.latest? (t.opened + 1) name = none :=
      Ledger.latest?_eq_none.mpr fun e entry same =>
        absurd (same ▸ recorded.entries e entry) (Nat.not_succ_le_self _)
    exact fresh.symm
  apart := List.nodup_cons.mpr
    ⟨fun within => Nat.not_succ_le_self _ (recorded.chain _ within), recorded.apart⟩
  chain := List.forall_mem_cons.mpr
    ⟨Nat.le_refl _, fun n within => Nat.le_succ_of_le (recorded.chain n within)⟩
  entries e entry := Nat.le_succ_of_le (recorded.entries e entry)

theorem pop (recorded : Recorded s t) : Recorded (s.act .pop) (t.act .pop) := by
  obtain ⟨inner, outer⟩ := s
  obtain ⟨opened, current, chain, entries⟩ := t
  have frames := (List.cons.inj recorded.frames).2
  cases outer with
  | nil =>
    cases chain with
    | nil => exact recorded
    | cons => cases frames
  | cons frame outer =>
    cases chain with
    | nil => cases frames
    | cons =>
      exact ⟨frames, (List.nodup_cons.mp recorded.apart).2,
        (List.forall_mem_cons.mp recorded.chain).2, recorded.entries⟩

theorem set (recorded : Recorded s t) (name : String) (v : Value) :
    Recorded (s.act (.set name v)) (t.act (.set name v)) where
  frames := by
    obtain ⟨inner, outer⟩ := List.cons.inj recorded.frames
    obtain ⟨elsewhere, -⟩ := List.nodup_cons.mp recorded.apart
    refine List.cons_eq_cons.mpr ⟨funext fun other => ?_, outer.trans ?_⟩
    · calc (s.inner.set name v).get? other
          = if other = name then some v else s.inner.get? other := s.inner.get?_set name other v
        _ = (t.act (.set name v)).latest? t.current other := by
          rw [Ledger.latest?_set, inner]
          simp [eq_comm]
    -- No other frame of the chain has the number of the current one.
    · refine List.map_congr_left fun n within => funext fun other => ?_
      have other : ¬ (t.current = n ∧ name = other) := fun here => elsewhere (here.1 ▸ within)
      rw [Ledger.latest?_set, if_neg other]
  apart := recorded.apart
  chain := recorded.chain
  entries := List.forall_mem_cons.mpr ⟨recorded.chain _ (.head _), recorded.entries⟩

theorem act (recorded : Recorded s t) (op : ScopeOp) : Recorded (s.act op) (t.act op) := by
  cases op with
  | push => exact recorded.push
  | pop => exact recorded.pop
  | set name v => exact recorded.set name v
  | get name => exact recorded

theorem after (recorded : Recorded s t) (ops : List ScopeOp) :
    Recorded (s.after ops) (t.after ops) := by
  induction ops generalizing s t with
  | nil => exact recorded
  | cons op ops ih => exact ih (recorded.act op)

theorem initial : Recorded .initial .initial := by
  have empty : Recorded ⟨.empty, []⟩ ⟨0, 0, [], []⟩ := ⟨rfl, by decide, by decide, by decide⟩
  exact empty.after (constants.map fun (name, x) => .set name (.float x))

theorem get?_eq (recorded : Recorded s t) {n : Nat} {a : Scope} (enclosed : s.enclosing? n = some a)
    (name : String) : a.get? name = t.find? (t.chain.drop n) name := by
  have frames : a.frames.map Frame.get? = (t.chain.drop n).map t.latest? := by
    rw [Scope.enclosing?_frames enclosed, List.map_drop, List.map_drop, recorded.frames]
  calc a.frames.findSome? (·.get? name) = (a.frames.map Frame.get?).findSome? (· name) := by
        rw [List.findSome?_map]
        rfl
    _ = (t.chain.drop n).findSome? (t.latest? · name) := by
        rw [frames, List.findSome?_map]
        rfl

end Recorded

def depthAfter : Nat → List ScopeOp → Option Nat
  | depth, [] => some depth
  | depth, .push :: ops => depthAfter (depth + 1) ops
  | 0, .pop :: _ => none
  | depth + 1, .pop :: ops => depthAfter depth ops
  | depth, .set _ _ :: ops | depth, .get _ :: ops => depthAfter depth ops

namespace Scope

theorem enclosing?_pop {n : Nat} {s a : Scope} (enclosed : s.enclosing? (n + 1) = some a) :
    (s.act .pop).enclosing? n = some a := by
  obtain ⟨inner, outer⟩ := s
  cases outer with
  | nil => cases enclosed
  | cons => exact enclosed

theorem enclosing?_after {ops : List ScopeOp} {depth depth' n : Nat} {s a : Scope}
    (inside : depthAfter depth ops = some depth')
    (enclosed : s.enclosing? (n + depth + 1) = some a) :
    (s.after ops).enclosing? (n + depth' + 1) = some a := by
  fun_induction depthAfter depth ops generalizing s with
  | case1 depth =>
    cases inside
    exact enclosed
  | case2 depth ops ih => exact ih inside enclosed
  | case3 ops => cases inside
  | case4 depth ops ih => exact ih inside (enclosing?_pop enclosed)
  | case5 depth name v ops ih => exact ih inside enclosed
  | case6 depth name ops ih => exact ih inside enclosed

theorem after_append (s : Scope) (ops more : List ScopeOp) :
    s.after (ops ++ more) = (s.after ops).after more :=
  List.foldl_append

theorem after_block {ops : List ScopeOp} (balanced : depthAfter 0 ops = some 0) (s : Scope) :
    s.after (.push :: ops ++ [.pop]) = s := by
  have kept : (s.push.after ops).enclosing? 1 = some s := enclosing?_after (n := 0) balanced rfl
  rw [List.cons_append]
  change s.push.after (ops ++ [.pop]) = s
  rw [after_append]
  change (s.push.after ops).pop?.getD _ = s
  have popped : (s.push.after ops).pop? = some s := by
    simpa [enclosing?] using kept
  rw [popped]
  rfl

end Scope

/-- After any operations every scope of the chain answers with the latest entry in the innermost
frame that has one for the name, and with nothing when no frame has. -/
theorem scopes_nest (ops : List ScopeOp) :
    let s := Scope.initial.after ops
    let t := Ledger.initial.after ops
    (∀ n a, s.enclosing? n = some a → ∀ name,
      (∀ v, a.get? name = some v ↔ t.Holds (t.chain.drop n) name v) ∧
      (a.get? name = none ↔ ∀ e ∈ t.entries, e.frame ∈ t.chain.drop n → e.name ≠ name)) ∧
    (∀ n a, s.enclosing? (n + 1) = some a →
      ∀ name v, (s.set name v).enclosing? (n + 1) = some a) ∧
    (∀ n a, s.enclosing? n = some a → ∀ inside depth, depthAfter 0 inside = some depth →
      (s.after (.push :: inside)).enclosing? (n + depth + 1) = some a) ∧
    ∀ inside, depthAfter 0 inside = some 0 → s.after (.push :: inside ++ [.pop]) = s := by
  intro s t
  have recorded : Recorded s t := Recorded.initial.after ops
  refine ⟨fun n a enclosed name => ?_, fun n a enclosed name v => enclosed,
    fun n a enclosed inside depth stays => ?_, fun inside balanced => s.after_block balanced⟩
  · rw [recorded.get?_eq enclosed name]
    exact ⟨fun v => Ledger.find?_eq_some, Ledger.find?_eq_none⟩
  · exact Scope.enclosing?_after (s := s.push) stays enclosed

theorem scopes_nest_shadowed :
    let ops : List ScopeOp := [.set "a" (.int 1), .push, .set "a" (.int 2)]
    let inside : List ScopeOp := [.set "a" (.int 3), .push, .set "a" (.int 4), .pop]
    let s := Scope.initial.after ops
    let t := Ledger.initial.after ops
    t.Holds t.chain "a" (.int 2) ∧ t.Holds (t.chain.drop 1) "a" (.int 1) ∧
      (s.set "a" (.int 5)).enclosing? 1 = s.pop? ∧
      (s.after (.push :: inside)).enclosing? 1 = some s ∧
      (s.after (.push :: inside ++ [.pop])).get? "a" = some (.int 2) := by
  intro ops inside s t
  obtain ⟨answers, set, within, block⟩ := scopes_nest ops
  obtain ⟨parent, popped⟩ : ∃ parent, s.pop? = some parent := ⟨_, rfl⟩
  refine ⟨((answers 0 s rfl "a").1 _).mp rfl, ?_, ?_, within 0 s rfl inside 0 rfl, ?_⟩
  · exact ((answers 1 _ rfl "a").1 _).mp rfl
  · rw [popped]
    exact set 0 parent (by rw [Scope.enclosing?, popped]; rfl) "a" (.int 5)
  · rw [block inside rfl]
    rfl

end CalcScript
