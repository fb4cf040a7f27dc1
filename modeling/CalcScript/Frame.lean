import CalcScript.Value

set_option autoImplicit false

namespace CalcScript

/-- Names strictly increase. -/
structure Frame where
  bindings : List (String × Value)
  sorted : bindings.Pairwise (fun a b => a.1 < b.1)

namespace Frame

def empty : Frame := ⟨[], .nil⟩

def find? (name : String) : List (String × Value) → Option Value
  | [] => none
  | (n, v) :: rest => if n = name then some v else find? name rest

def get? (f : Frame) (name : String) : Option Value := find? name f.bindings

def put (name : String) (v : Value) : List (String × Value) → List (String × Value)
  | [] => [(name, v)]
  | (n, w) :: rest =>
    if name < n then (name, v) :: (n, w) :: rest
    else if name = n then (name, v) :: rest
    else (n, w) :: put name v rest

theorem mem_put {name : String} {v : Value} {b : String × Value} {l : List (String × Value)}
    (h : b ∈ put name v l) : b = (name, v) ∨ b ∈ l := by
  induction l with
  | nil => exact .inl (List.mem_singleton.mp h)
  | cons c l ih =>
    simp only [put] at h
    split at h
    · simpa using h
    · split at h
      · exact (List.mem_cons.mp h).imp_right (.tail c)
      · rcases List.mem_cons.mp h with rfl | h
        · exact .inr (.head l)
        · exact (ih h).imp_right (.tail c)

theorem sorted_put {l : List (String × Value)} (name : String) (v : Value)
    (sorted : l.Pairwise (fun a b => a.1 < b.1)) :
    (put name v l).Pairwise (fun a b => a.1 < b.1) := by
  induction l with
  | nil => simp [put]
  | cons c l ih =>
    obtain ⟨head, tail⟩ := List.pairwise_cons.mp sorted
    simp only [put]
    split
    · next lt =>
      refine .cons (fun b h => ?_) sorted
      rcases List.mem_cons.mp h with rfl | h
      · exact lt
      · exact String.lt_trans lt (head b h)
    · split
      · next eq => exact eq ▸ .cons head tail
      · next ge ne =>
        refine .cons (fun b h => ?_) (ih tail)
        rcases mem_put h with rfl | h
        · exact String.not_le.mp fun le => ne (String.le_antisymm le (String.not_lt.mp ge))
        · exact head b h

def set (f : Frame) (name : String) (v : Value) : Frame :=
  ⟨put name v f.bindings, sorted_put name v f.sorted⟩

def ofList (bindings : List (String × Value)) : Frame :=
  bindings.foldl (fun f b => f.set b.1 b.2) empty

theorem find?_put (name other : String) (v : Value) (l : List (String × Value)) :
    find? other (put name v l) = if other = name then some v else find? other l := by
  induction l with
  | nil => simp [put, find?, eq_comm]
  | cons b l ih =>
    obtain ⟨n, w⟩ := b
    simp only [put]
    split
    · simp [find?, eq_comm]
    · split
      · next eq =>
        subst eq
        by_cases h : name = other <;> simp [find?, h, eq_comm]
      · next ne =>
        by_cases h : n = other
        · subst h
          simp [find?, Ne.symm ne]
        · simp [find?, h, ih]

@[simp] theorem get?_set (f : Frame) (name other : String) (v : Value) :
    (f.set name v).get? other = if other = name then some v else f.get? other :=
  find?_put name other v f.bindings

@[simp] theorem get?_empty (name : String) : empty.get? name = none := rfl

end Frame

def constants : List (String × Float) := [("e", 2.718281828459045), ("pi", 3.141592653589793)]

def isConstant (name : String) (v : Value) : Bool :=
  match v with
  | .float x => constants.any fun (n, y) => n == name && x == y
  | _ => false

def Frame.initial : Frame := .ofList (constants.map fun (name, x) => (name, .float x))

structure Scope where
  inner : Frame
  outer : List Frame

namespace Scope

def initial : Scope := ⟨.initial, []⟩

def push (s : Scope) : Scope := ⟨.empty, s.inner :: s.outer⟩

def pop? (s : Scope) : Option Scope :=
  match s.outer with
  | [] => none
  | frame :: outer => some ⟨frame, outer⟩

def set (s : Scope) (name : String) (v : Value) : Scope := { s with inner := s.inner.set name v }

def get? (s : Scope) (name : String) : Option Value :=
  (s.inner :: s.outer).findSome? (·.get? name)

end Scope

end CalcScript
