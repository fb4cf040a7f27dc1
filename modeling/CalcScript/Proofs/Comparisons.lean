import CalcScript.Proofs.Integers
import CalcScript.Proofs.Sameness
import Mathlib.Order.RelIso.Basic

set_option autoImplicit false

namespace CalcScript

namespace ComparisonOp

def flipped : ComparisonOp → ComparisonOp
  | .equal => .equal
  | .notEqual => .notEqual
  | .greater => .less
  | .greaterEqual => .lessEqual
  | .less => .greater
  | .lessEqual => .greaterEqual

@[simp] theorem holds_swap (op : ComparisonOp) (o : Ordering) :
    op.flipped.holds o.swap = op.holds o := by
  cases op <;> cases o <;> rfl

theorem holds_notEqual (o : Ordering) : holds .notEqual o = !holds .equal o := by
  cases o <;> rfl

theorem holds_lessEqual (o : Ordering) :
    holds .lessEqual o = (holds .less o || holds .equal o) := by
  cases o <;> rfl

theorem holds_greaterEqual (o : Ordering) :
    holds .greaterEqual o = (holds .greater o || holds .equal o) := by
  cases o <;> rfl

theorem existsUnique_holds (o : Ordering) :
    ∃! op, op ∈ [less, equal, greater] ∧ op.holds o = true := by
  cases o with
  | lt => exact ⟨.less, by decide, by simp [holds]⟩
  | eq => exact ⟨.equal, by decide, by simp [holds]⟩
  | gt => exact ⟨.greater, by decide, by simp [holds]⟩

end ComparisonOp

namespace Value

def isNumber : Value → Bool
  | .int _ | .float _ => true
  | _ => false

def isString : Value → Bool
  | .string _ => true
  | _ => false

def isFunction : Value → Bool
  | .function _ => true
  | _ => false

def isNaN : Value → Bool
  | .float x => x.isNaN
  | _ => false

end Value

namespace Comparison

def Ordered (v w : Value) : Prop :=
  (v.isNumber ∧ w.isNumber) ∨ (v.isString ∧ w.isString)

def Matched (v w : Value) : Prop :=
  (v = .nothing ∧ w = .nothing) ∨ (v.isFunction ∧ w.isFunction)

def Comparable (op : ComparisonOp) (v w : Value) : Prop :=
  Ordered v w ∨ (Matched v w ∧ (op = .equal ∨ op = .notEqual))

structure Consistent (v w : Value) (pos : Position) : Prop where
  answered : ∀ op, Comparable op v w → ∃ b, compare op v w pos = .ok b
  refused : ∀ op, ¬Comparable op v w →
    compare op v w pos = .error (.type pos (.comparison v op w))
  exchanged : ∀ op b, compare op v w pos = .ok b ↔ compare op.flipped w v pos = .ok b
  negated : ∀ b, compare .equal v w pos = .ok b ↔ compare .notEqual v w pos = .ok (!b)
  unordered : Ordered v w → v.isNaN ∨ w.isNaN → ∀ op, compare op v w pos = .ok (op == .notEqual)
  trichotomy : Ordered v w → ¬(v.isNaN ∨ w.isNaN) →
    ∃! op, op ∈ [.less, .equal, .greater] ∧ compare op v w pos = .ok true
  lessEqual : Ordered v w → ¬(v.isNaN ∨ w.isNaN) →
    (compare .lessEqual v w pos = .ok true ↔
      compare .less v w pos = .ok true ∨ compare .equal v w pos = .ok true)
  greaterEqual : Ordered v w → ¬(v.isNaN ∨ w.isNaN) →
    (compare .greaterEqual v w pos = .ok true ↔
      compare .greater v w pos = .ok true ∨ compare .equal v w pos = .ok true)

section

variable {v w : Value}

theorem order?_swap (v w : Value) : order? w v = (order? v w).map (Option.map Ordering.swap) := by
  cases v <;> cases w
  case int.int m n => exact congrArg (some ∘ some) (Int.compare_swap m.toInt n.toInt).symm
  case string.string s t => exact congrArg (some ∘ some) Std.OrientedCmp.eq_swap
  case int.float m y => exact congrArg some (Binary64.compare?_swap (Binary64.ofInt m.toInt) y)
  case float.int x n => exact congrArg some (Binary64.compare?_swap x (Binary64.ofInt n.toInt))
  case float.float x y => exact congrArg some (Binary64.compare?_swap x y)
  all_goals rfl

theorem equal?_comm (v w : Value) : equal? v w = equal? w v := by
  cases v <;> cases w
  case function.function f g => exact congrArg some (Function.same_comm f g)
  all_goals rfl

theorem order?_isSome : (order? v w).isSome = true ↔ Ordered v w := by
  cases v <;> cases w <;>
    simp [order?, Ordered, Value.isNumber, Value.isString, Value.toFloat?]

theorem order?_eq_some_none : order? v w = some none ↔ Ordered v w ∧ (v.isNaN ∨ w.isNaN) := by
  cases v <;> cases w <;>
    simp [order?, Ordered, Value.isNumber, Value.isString, Value.toFloat?, Value.isNaN,
      Binary64.compare?_eq_none, Binary64.isNaN_ofInt, -Float.isNaN_eq_decide_eq_nan]

theorem equal?_isSome : (equal? v w).isSome = true ↔ Matched v w := by
  cases v <;> cases w <;> simp [equal?, Matched, Value.isFunction]

theorem not_matched_of_ordered (kind : Ordered v w) : ¬Matched v w := by
  cases v <;> cases w <;>
    simp_all [Ordered, Matched, Value.isNumber, Value.isString, Value.isFunction]

end

section

variable {v w : Value} {pos : Position}

inductive Verdict (v w : Value) (pos : Position) : Prop
  | ordered (o : Ordering) (kind : Ordered v w) (number : ¬(v.isNaN ∨ w.isNaN))
      (all : ∀ op, compare op v w pos = .ok (op.holds o))
  | unordered (kind : Ordered v w) (odd : v.isNaN ∨ w.isNaN)
      (all : ∀ op, compare op v w pos = .ok (op == .notEqual))
  | matched (b : Bool) (kind : Matched v w) (equal : compare .equal v w pos = .ok b)
      (notEqual : compare .notEqual v w pos = .ok (!b))
      (other : ∀ op, op ≠ .equal → op ≠ .notEqual →
        compare op v w pos = .error (.type pos (.comparison v op w)))
  | apart (none : ∀ op, ¬Comparable op v w)
      (all : ∀ op, compare op v w pos = .error (.type pos (.comparison v op w)))

theorem verdict (v w : Value) (pos : Position) : Verdict v w pos := by
  cases found : order? v w with
  | some o =>
    have kind : Ordered v w := order?_isSome.mp (by rw [found]; rfl)
    cases o with
    | some o =>
      refine .ordered o kind (fun odd => ?_) fun op => by simp [compare, found]
      rw [order?_eq_some_none.mpr ⟨kind, odd⟩] at found
      cases found
    | none =>
      exact .unordered kind (order?_eq_some_none.mp found).2 fun op => by simp [compare, found]
  | none =>
    have disordered : ¬Ordered v w := fun kind => by
      rw [← order?_isSome, found] at kind
      cases kind
    cases equated : equal? v w with
    | some b =>
      refine .matched b (equal?_isSome.mp (by rw [equated]; rfl)) ?_ ?_ fun op off off' => ?_
      · simp [compare, found, equated]
      · simp [compare, found, equated]
      · cases op <;> simp_all [compare]
    | none =>
      refine .apart (fun op => ?_) fun op => ?_
      · rintro (kind | ⟨kind, -⟩)
        · exact disordered kind
        · rw [← equal?_isSome, equated] at kind
          cases kind
      · cases op <;> simp [compare, found, equated]

theorem compare_exchanged (op : ComparisonOp) (b : Bool) :
    compare op v w pos = .ok b ↔ compare op.flipped w v pos = .ok b := by
  simp only [compare, order?_swap v w, equal?_comm w v]
  rcases order? v w with _ | _ | o
  · rcases equal? v w with _ | same <;> cases op <;> simp [ComparisonOp.flipped]
  · cases op <;> exact Iff.rfl
  · simp

theorem Consistent.of_disordered (disordered : ¬Ordered v w)
    (answered : ∀ op, Comparable op v w → ∃ b, compare op v w pos = .ok b)
    (refused : ∀ op, ¬Comparable op v w →
      compare op v w pos = .error (.type pos (.comparison v op w)))
    (negated : ∀ b, compare .equal v w pos = .ok b ↔ compare .notEqual v w pos = .ok (!b)) :
    Consistent v w pos where
  answered := answered
  refused := refused
  exchanged := compare_exchanged
  negated := negated
  unordered ordered := absurd ordered disordered
  trichotomy ordered := absurd ordered disordered
  lessEqual ordered := absurd ordered disordered
  greaterEqual ordered := absurd ordered disordered

theorem consistent (v w : Value) (pos : Position) : Consistent v w pos := by
  cases verdict v w pos with
  | ordered o kind number all =>
    exact {
      answered := fun op _ => ⟨op.holds o, all op⟩
      refused := fun op apart => absurd (.inl kind) apart
      exchanged := compare_exchanged
      negated := fun b => by simp [all, ComparisonOp.holds_notEqual]
      unordered := fun _ odd => absurd odd number
      trichotomy := fun _ _ => by
        simpa only [all, Except.ok.injEq] using ComparisonOp.existsUnique_holds o
      lessEqual := fun _ _ => by simp [all, ComparisonOp.holds_lessEqual]
      greaterEqual := fun _ _ => by simp [all, ComparisonOp.holds_greaterEqual] }
  | unordered kind odd all =>
    exact {
      answered := fun op _ => ⟨op == .notEqual, all op⟩
      refused := fun op apart => absurd (.inl kind) apart
      exchanged := compare_exchanged
      negated := fun b => by cases b <;> simp [all]
      unordered := fun _ _ => all
      trichotomy := fun _ number => absurd odd number
      lessEqual := fun _ number => absurd odd number
      greaterEqual := fun _ number => absurd odd number }
  | matched b kind equal notEqual other =>
    refine .of_disordered (fun ordered => not_matched_of_ordered ordered kind) ?_ ?_ ?_
    · rintro op (ordered | ⟨-, rfl | rfl⟩)
      · exact absurd kind (not_matched_of_ordered ordered)
      · exact ⟨b, equal⟩
      · exact ⟨!b, notEqual⟩
    · exact fun op apart => other op (fun same => apart (.inr ⟨kind, .inl same⟩))
        fun same => apart (.inr ⟨kind, .inr same⟩)
    · exact fun c => by simp [equal, notEqual]
  | apart none all =>
    exact .of_disordered (fun ordered => none .equal (.inl ordered))
      (fun op comparable => absurd comparable (none op)) (fun op _ => all op)
      fun b => by simp [all]

theorem less_ints {m n : Int64} :
    compare .less (.int m) (.int n) pos = .ok true ↔ m.toInt < n.toInt := by
  simp [Integers.compare_ints, Integers.related]

theorem less_strings {s t : String} :
    compare .less (.string s) (.string t) pos = .ok true ↔ s < t := by
  have judged : compare .less (.string s) (.string t) pos = .ok (Ord.compare s t).isLT := rfl
  rw [judged, Except.ok.injEq, Ordering.isLT_iff_eq_lt, compare_lt_iff_lt]

end

end Comparison

/-- On all values the comparison operators agree with each other, and less is a strict total order
of the whole numbers and of the strings. -/
theorem comparisons_consistent (pos : Position) :
    (∀ v w, Comparison.Consistent v w pos) ∧
      IsStrictTotalOrder Int64
        (fun m n => Comparison.compare .less (.int m) (.int n) pos = .ok true) ∧
      IsStrictTotalOrder String
        (fun s t => Comparison.compare .less (.string s) (.string t) pos = .ok true) := by
  refine ⟨fun v w => Comparison.consistent v w pos, ?_, ?_⟩
  · exact RelEmbedding.isStrictTotalOrder (s := (· < ·))
      ⟨⟨Int64.toInt, fun _ _ => Int64.toInt_inj.mp⟩, Comparison.less_ints.symm⟩
  · exact RelEmbedding.isStrictTotalOrder (s := (· < ·))
      ⟨.refl String, Comparison.less_strings.symm⟩

-- A whole number that is no float is the same as the nearest one, and a NaN is not even at most a
-- number.
example : Comparison.order? (.int 9007199254740993) (.float 9007199254740992) = some (some .eq) ∧
    Comparison.order? (.float (0.0 / 0.0)) (.int 1) = some none := by
  decide +kernel

end CalcScript
