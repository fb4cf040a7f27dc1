import CalcScript.Number.Decimal
import Mathlib

set_option autoImplicit false

namespace CalcScript

namespace Binary64

open Float.Model (UnpackedFloat)

theorem unpacked_swap (a b : UnpackedFloat) :
    b.compare a = (a.compare b).map Ordering.swap := by
  have signs (s t : UnpackedFloat.Sign) : compare t s = (compare s t).swap := by
    cases s <;> cases t <;> rfl
  cases a with
  | notANumber => cases b <;> rfl
  | infinity s =>
    cases b with
    | infinity t => simp [UnpackedFloat.compare, signs s t]
    | notANumber => cases s <;> rfl
    | zero t => cases s <;> rfl
    | finite t m e positive => cases s <;> rfl
  | zero s =>
    cases b with
    | infinity t => cases t <;> rfl
    | notANumber => rfl
    | zero t => rfl
    | finite t m e positive => cases t <;> rfl
  | finite s m e positive =>
    cases b with
    | infinity t => cases t <;> rfl
    | notANumber => cases s <;> rfl
    | zero t => cases s <;> rfl
    | finite t n f positive' =>
      have sizes : (compare f e).then (compare n m) = ((compare e f).then (compare m n)).swap := by
        rw [Ordering.swap_then, Int.compare_swap, Nat.compare_swap]
      cases s <;> cases t <;> simp [UnpackedFloat.compare, sizes]

theorem unpacked_eq_none {a b : UnpackedFloat} :
    a.compare b = none ↔ a.isNaN = true ∨ b.isNaN = true := by
  cases a with
  | notANumber => simp [UnpackedFloat.compare, UnpackedFloat.isNaN]
  | infinity s =>
    cases s <;> cases b <;> simp [UnpackedFloat.compare, UnpackedFloat.isNaN]
  | zero s =>
    cases b with
    | infinity t => cases t <;> simp [UnpackedFloat.compare, UnpackedFloat.isNaN]
    | finite t m e positive => cases t <;> simp [UnpackedFloat.compare, UnpackedFloat.isNaN]
    | notANumber | zero t => simp [UnpackedFloat.compare, UnpackedFloat.isNaN]
  | finite s m e positive =>
    cases b with
    | infinity t => cases s <;> cases t <;> simp [UnpackedFloat.compare, UnpackedFloat.isNaN]
    | finite t n f positive' =>
      cases s <;> cases t <;> simp [UnpackedFloat.compare, UnpackedFloat.isNaN]
    | notANumber | zero t => cases s <;> simp [UnpackedFloat.compare, UnpackedFloat.isNaN]

theorem compare?_eq (x y : Float) : compare? x y = x.toModel.compare y.toModel := by
  have below (x y : Float) : x < y ↔ x.toModel.compare y.toModel = some .lt := by
    change decide (x.toModel < y.toModel) = true ↔ _
    rw [decide_eq_true_eq]
    change (x.toModel.compare y.toModel == some Ordering.lt) = true ↔ _
    rw [beq_iff_eq]
  have same : (x == y) = true ↔ x.toModel.compare y.toModel = some .eq := by
    change (x.toModel.compare y.toModel == some Ordering.eq) = true ↔ _
    rw [beq_iff_eq]
  have above : y < x ↔ x.toModel.compare y.toModel = some .gt := by
    rw [below]
    change y.toModel.unpack.compare x.toModel.unpack = _ ↔
      x.toModel.unpack.compare y.toModel.unpack = _
    rw [unpacked_swap]
    rcases x.toModel.unpack.compare y.toModel.unpack with _ | (_ | _ | _) <;> simp
  simp only [compare?, below x y, above, same]
  rcases x.toModel.compare y.toModel with _ | (_ | _ | _) <;> rfl

theorem compare?_swap (x y : Float) : compare? y x = (compare? x y).map Ordering.swap := by
  rw [compare?_eq, compare?_eq]
  exact unpacked_swap _ _

theorem compare?_eq_none {x y : Float} :
    compare? x y = none ↔ x.isNaN = true ∨ y.isNaN = true := by
  rw [compare?_eq]
  exact unpacked_eq_none

theorem isNaN_ofBits {bits : UInt64}
    (number : @UnpackedFloat.isNaNBits .binary64 bits.toBitVec = false) :
    (Float.ofBits bits).isNaN = false := by
  have packed := @UnpackedFloat.pack_unpack .binary64 bits.toBitVec
  rw [number] at packed
  change (UnpackedFloat.unpack .binary64 (UnpackedFloat.pack .binary64
    (UnpackedFloat.unpack .binary64 bits.toBitVec))).isNaN = false
  rw [packed, if_neg Bool.false_ne_true]
  have apart := of_decide_eq_false number
  simp only [UnpackedFloat.unpack]
  split
  · next infinite =>
    rw [if_pos (not_not.mp fun some => apart ⟨infinite, some⟩)]
    rfl
  · split
    · split <;> rfl
    · rfl

def sizeWord (negative : Bool) (bits : Nat) : UInt64 :=
  .ofNat (if negative then Nat.pow 2 63 + bits else bits)

theorem sizeWord_toNat (negative : Bool) {bits : Nat} (bounded : bits < 2 ^ 63) :
    (sizeWord negative bits).toBitVec.toNat = (if negative then 2 ^ 63 else 0) + bits := by
  have power : Nat.pow 2 63 = 2 ^ 63 := rfl
  rw [sizeWord, UInt64.toNat_toBitVec, UInt64.toNat_ofNat', power]
  cases negative
  all_goals
    simp
    omega

theorem isNaNBits_sizeWord (negative : Bool) {bits : Nat}
    (bounded : bits ≤ Magnitude.infinityBits) :
    @UnpackedFloat.isNaNBits .binary64 (sizeWord negative bits).toBitVec = false := by
  have bound : bits ≤ 2047 * 2 ^ 52 := bounded
  have small : bits < 2 ^ 63 := by omega
  have value := sizeWord_toNat negative small
  rw [UnpackedFloat.isNaNBits, UnpackedFloat.unpackExponent_def, UnpackedFloat.unpackMantissa_def,
    decide_eq_false_iff_not]
  rintro ⟨exponent, mantissa⟩
  have top := congrArg BitVec.toNat exponent
  have rest := mt BitVec.eq_of_toNat_eq mantissa
  rw [BitVec.extractLsb'_toNat, value] at top rest
  simp only [Nat.shiftRight_eq_div_pow, BitVec.toNat_neg, BitVec.toNat_ofNat] at top rest
  -- The sign is above the bits of the exponent.
  cases negative <;> simp at top rest <;> omega

theorem isNaN_ofSizeBits (negative : Bool) {bits : Nat} (bounded : bits ≤ Magnitude.infinityBits) :
    (ofSizeBits negative bits).isNaN = false :=
  isNaN_ofBits (isNaNBits_sizeWord negative bounded)

theorem nearest_le (num den : Nat) : Magnitude.nearest num den ≤ Magnitude.infinityBits := by
  unfold Magnitude.nearest
  split
  · exact Nat.zero_le _
  · exact Nat.min_le_left _ _

theorem isNaN_ofInt (n : Int) : (ofInt n).isNaN = false :=
  isNaN_ofSizeBits _ (nearest_le _ _)

theorem isNaN_decimal (d : Decimal) : (ofSizeBits false d.sizeBits).isNaN = false := by
  apply isNaN_ofSizeBits
  unfold Decimal.sizeBits
  repeat' split
  · exact Nat.zero_le _
  · exact Nat.le_refl _
  · exact Nat.zero_le _
  · exact nearest_le _ _

theorem beq_self {x : Float} (number : x.isNaN = false) : (x == x) = true := by
  rw [Float.isNaN_eq_decide_eq_nan, decide_eq_false_iff_not] at number
  exact Float.beq_self_iff.mpr number

theorem beq_symm {x y : Float} (same : (x == y) = true) : (y == x) = true := by
  grind [Float.beq_iff_ne_nan_and_eq]

theorem beq_trans {x y z : Float} (first : (x == y) = true) (second : (y == z) = true) :
    (x == z) = true := by
  grind [Float.beq_iff_ne_nan_and_eq]

end Binary64

end CalcScript
