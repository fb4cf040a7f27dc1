import CalcScript.Proofs.FloatBits
import CalcScript.Proofs.NearestFloats

set_option autoImplicit false

namespace CalcScript.Binary64

open Float.Model (UnpackedFloat Format totalExponent)
open Float.Model.UnpackedFloat (ExtendedMantissa Sign accuracyOfFraction roundWithAccuracy
  shiftToTargetExponent)

section

variable {a b : Nat}

-- The whole part of a ratio, whether half of one or more is left, and whether what is left is
-- neither nothing nor a half.
def extended (a b : Nat) : ExtendedMantissa :=
  ⟨a / b, decide (b ≤ 2 * (a % b)), decide (a % b ≠ 0 ∧ 2 * (a % b) ≠ b)⟩

theorem ofMantissaAndAccuracy_fraction (positive : 0 < b) (a : Nat) :
    .ofMantissaAndAccuracy (a / b) (accuracyOfFraction (a % b) b) = extended a b := by
  rw [accuracyOfFraction, extended]
  split
  · next none =>
    simp [ExtendedMantissa.ofMantissaAndAccuracy, none, positive.ne']
  · next some =>
    cases order : compare (2 * (a % b)) b with
    | lt =>
      have below := Nat.compare_eq_lt.mp order
      simp [ExtendedMantissa.ofMantissaAndAccuracy, some, below.ne]
      omega
    | eq =>
      have half := Nat.compare_eq_eq.mp order
      simp [ExtendedMantissa.ofMantissaAndAccuracy, half]
    | gt =>
      have above := Nat.compare_eq_gt.mp order
      simp [ExtendedMantissa.ofMantissaAndAccuracy, some, above.ne', above.le]

theorem ofMantissaAndAccuracy_exact (n : Nat) :
    .ofMantissaAndAccuracy n .exact = extended n 1 := by
  simp [ExtendedMantissa.ofMantissaAndAccuracy, extended, Nat.mod_one]

theorem extended_shift (positive : 0 < b) (a : Nat) :
    (extended a b).shiftRightOne = extended a (b * 2) := by
  have rest : a % (b * 2) = a % b + b * (a / b % 2) := Nat.mod_mul
  have below := Nat.mod_lt a positive
  have bit : a / b % 2 = 0 ∨ a / b % 2 = 1 := Nat.mod_two_eq_zero_or_one _
  have half : (a / b % 2 != 0) = decide (b * 2 ≤ 2 * (a % (b * 2))) := by
    rw [Bool.eq_iff_iff, bne_iff_ne, decide_eq_true_eq, rest]
    rcases bit with bit | bit
    all_goals
      rw [bit]
      omega
  have other : (decide (b ≤ 2 * (a % b)) || decide (a % b ≠ 0 ∧ 2 * (a % b) ≠ b)) =
      decide (a % (b * 2) ≠ 0 ∧ 2 * (a % (b * 2)) ≠ b * 2) := by
    rw [Bool.eq_iff_iff, Bool.or_eq_true, decide_eq_true_eq, decide_eq_true_eq, decide_eq_true_eq,
      rest]
    rcases bit with bit | bit
    all_goals
      rw [bit]
      omega
  rw [ExtendedMantissa.shiftRightOne, extended, extended, half, other, Nat.div_div_eq_div_mul]

theorem extended_shifts (positive : 0 < b) (a n : Nat) :
    extended a b >>> n = extended a (b * 2 ^ n) := by
  change n.repeat ExtendedMantissa.shiftRightOne (extended a b) = _
  induction n with
  | zero => simp [Nat.repeat]
  | succ n ih =>
    rw [Nat.repeat, ih, extended_shift (Nat.mul_pos positive (Nat.two_pow_pos n)), Nat.mul_assoc,
      Nat.pow_succ]

theorem roundedMantissa_extended (positive : 0 < b) (a : Nat) :
    (extended a b).roundedMantissa = halfEven a b := by
  rw [ExtendedMantissa.roundedMantissa, extended, halfEven]
  rcases Nat.lt_trichotomy (2 * (a % b)) b with less | half | more
  · by_cases none : a % b = 0
    · have two : ¬ b ≤ 2 * 0 := positive.not_ge
      have tie : ¬ (b < 2 * 0 ∨ 2 * 0 = b ∧ a / b % 2 = 1) := by omega
      simp only [none, two, tie]
      rfl
    · simp [none, less.not_ge, less.ne, less.not_gt, ExtendedMantissa.accuracy,
        UnpackedFloat.Accuracy.roundToNearestEven]
  · rcases Nat.mod_two_eq_zero_or_one (a / b) with even | odd
    · simp [half, even, ExtendedMantissa.accuracy, UnpackedFloat.Accuracy.roundToNearestEven]
    · simp [half, odd, ExtendedMantissa.accuracy, UnpackedFloat.Accuracy.roundToNearestEven]
  · have some : a % b ≠ 0 := by omega
    simp [some, more.le, more.ne', more, ExtendedMantissa.accuracy,
      UnpackedFloat.Accuracy.roundToNearestEven]

end

def signBit : Sign → Bool
  | .negative => true
  | .positive => false

section

variable {m : Nat} {e : Int} {s : Sign}

theorem packComponents_toNat (s : Sign) (e : BitVec 11) (m : BitVec 52) :
    (UnpackedFloat.packComponents .binary64 s e m).toNat =
      (if signBit s then 2 ^ 63 else 0) + e.toNat * 2 ^ 52 + m.toNat := by
  have sign : s.toBitVec.toNat = if signBit s then 1 else 0 := by cases s <;> rfl
  rw [UnpackedFloat.packComponents, BitVec.toNat_append, BitVec.toNat_append, sign,
    ← Nat.shiftLeft_add_eq_or_of_lt e.isLt, ← Nat.shiftLeft_add_eq_or_of_lt m.isLt,
    Nat.shiftLeft_eq, Nat.shiftLeft_eq]
  split <;> omega

theorem targetExponent_eq (m : Nat) (e : Int) :
    Format.binary64.targetExponent (totalExponent m e) = max (m.log2 + e - 52) (-1074) := by
  change max ((m.log2 : Int) + 1 + e - 53) (-1074) = _
  omega

theorem pack_finite (some : 0 < m) (small : m < 2 ^ 53) (least : -1074 ≤ e)
    (full : 2 ^ 52 ≤ m ∨ e = -1074) :
    UnpackedFloat.pack .binary64 (.finite s m e some) =
      (sizeWord (signBit s)
        (min Magnitude.infinityBits ((e + 1074).toNat * 2 ^ 52 + m))).toBitVec := by
  have infinity : Magnitude.infinityBits = 2047 * 2 ^ 52 := rfl
  let bits := (e + 1074).toNat * 2 ^ 52 + m
  have large (huge : 2048 ≤ (e + 1075).toNat + 1) :
      min Magnitude.infinityBits bits = 2047 * 2 ^ 52 := by omega
  have normal (under : ¬ 2048 ≤ (e + 1075).toNat + 1) (half : 2 ^ 52 ≤ m) :
      min Magnitude.infinityBits bits =
        (e + 1075).toNat % 2 ^ 11 * 2 ^ 52 + m % 2 ^ 52 := by omega
  have subnormal (half : ¬ 2 ^ 52 ≤ m) :
      min Magnitude.infinityBits bits = 0 * 2 ^ 52 + m % 2 ^ 52 := by omega
  have bounded : min Magnitude.infinityBits bits < 2 ^ 63 := by omega
  have bias : (e + Format.binary64.exponentBias +
      Format.binary64.mantissaBitsWithoutImplicit).toNat = (e + 1075).toNat := by
    have middle : Format.binary64.exponentBias = 1023 := rfl
    have fraction : Format.binary64.mantissaBitsWithoutImplicit = 52 := rfl
    omega
  apply BitVec.eq_of_toNat_eq
  rw [sizeWord_toNat _ bounded, UnpackedFloat.pack, bias]
  split
  · next huge =>
    rw [UnpackedFloat.packedInfinity, packComponents_toNat, large huge]
    rfl
  · next under =>
    split
    · next full =>
      have log : m.log2 = 52 := Nat.succ.inj full
      rw [packComponents_toNat, normal under (log ▸ Nat.log2_self_le some.ne'), Nat.add_assoc,
        BitVec.toNat_ofNat, BitVec.toNat_ofNat]
    · next other =>
      have half : ¬ 2 ^ 52 ≤ m := fun half =>
        other (congrArg Nat.succ ((Nat.log2_eq_iff some.ne').mpr ⟨half, small⟩))
      rw [packComponents_toNat, subnormal half, Nat.add_assoc, BitVec.toNat_ofNat,
        BitVec.toNat_ofNat]

theorem pack_zero (s : Sign) :
    UnpackedFloat.pack .binary64 (.zero s) = (sizeWord (signBit s) 0).toBitVec := by
  cases s <;> rfl

end

section

variable {a b : Nat} {e : Int} {s : Sign}

open Magnitude (order order_lt_iff exponentOf exponentOf_eq mantissa_bounds nearest nearest_of_pos)

theorem order_units (some : 0 < a) (positive : 0 < b) (k : Nat) (e : Int) :
    order (a * 2 ^ e.toNat) (b * 2 ^ (-e).toNat) < k + e ↔ a < 2 ^ k * b := by
  have unit : 0 < 2 ^ e.toNat * 2 ^ (-e).toNat :=
    Nat.mul_pos (Nat.two_pow_pos _) (Nat.two_pow_pos _)
  have sides : a * 2 ^ e.toNat * 2 ^ (-e).toNat < 2 ^ k * (b * 2 ^ (-e).toNat * 2 ^ e.toNat) ↔
      a * (2 ^ e.toNat * 2 ^ (-e).toNat) < 2 ^ k * b * (2 ^ e.toNat * 2 ^ (-e).toNat) := by
    ring_nf
  rw [order_lt_iff (Nat.mul_pos some (Nat.two_pow_pos _))
    (Nat.mul_pos positive (Nat.two_pow_pos _)), sides, Nat.mul_lt_mul_right unit]

-- The second shift of a rounding only undoes a carry.
theorem shift_carry (least : -1074 ≤ e) :
    shiftToTargetExponent .binary64 (2 ^ 53) e .exact = (extended (2 ^ 52) 1, e + 1) := by
  have shift : (Format.binary64.targetExponent (totalExponent (2 ^ 53) e) - e).toNat = 1 := by
    rw [targetExponent_eq, Nat.log2_two_pow]
    omega
  simp only [shiftToTargetExponent, UnpackedFloat.shiftToExponent, shift]
  rfl

theorem shift_none (small : a < 2 ^ 53) (least : -1074 ≤ e) :
    shiftToTargetExponent .binary64 a e .exact = (extended a 1, e) := by
  have log : a.log2 ≤ 52 := by
    by_cases none : a = 0
    · simp [none]
    · exact Nat.le_of_lt_succ ((Nat.log2_lt none).mpr small)
  have shift : (Format.binary64.targetExponent (totalExponent a e) - e).toNat = 0 := by
    rw [targetExponent_eq]
    omega
  simp only [shiftToTargetExponent, UnpackedFloat.shiftToExponent, shift,
    ofMantissaAndAccuracy_exact, extended_shifts Nat.one_pos]
  simp

theorem pack_rounded {em : ExtendedMantissa} {acc : UnpackedFloat.Accuracy} {m r : Nat} {d : Int}
    (first : shiftToTargetExponent .binary64 m d acc = (em, e)) (rounded : em.roundedMantissa = r)
    (small : r ≤ 2 ^ 53) (least : -1074 ≤ e) (full : 2 ^ 52 ≤ r ∨ e = -1074) :
    UnpackedFloat.pack .binary64 (roundWithAccuracy .binary64 s m d acc) =
      (sizeWord (signBit s)
        (min Magnitude.infinityBits ((e + 1074).toNat * 2 ^ 52 + r))).toBitVec := by
  simp only [roundWithAccuracy, first, rounded]
  rcases Nat.lt_or_eq_of_le small with below | rfl
  · simp only [shift_none below least, extended, Nat.div_one]
    split
    · next none =>
      have zero : min Magnitude.infinityBits ((e + 1074).toNat * 2 ^ 52 + r) = 0 := by omega
      rw [pack_zero, zero]
    · next some => exact pack_finite (Nat.pos_of_ne_zero some) below least full
  · have carried : (e + 1 + 1074).toNat * 2 ^ 52 + 2 ^ 52 = (e + 1074).toNat * 2 ^ 52 + 2 ^ 53 := by
      omega
    simp only [shift_carry least, extended, Nat.div_one]
    rw [dif_neg (Nat.two_pow_pos 52).ne', pack_finite (Nat.two_pow_pos 52) (by decide) (by omega)
      (.inl (Nat.le_refl _)), carried]

theorem targetExponent_quotient (some : 0 < a) (positive : 0 < b)
    (low : e ≤ exponentOf (a * 2 ^ e.toNat) (b * 2 ^ (-e).toNat)) :
    Format.binary64.targetExponent (totalExponent (a / b) e) =
      exponentOf (a * 2 ^ e.toNat) (b * 2 ^ (-e).toNat) := by
  have exponent := exponentOf_eq (Nat.mul_pos some (Nat.two_pow_pos e.toNat))
    (Nat.mul_pos positive (Nat.two_pow_pos (-e).toNat))
  have units (k : Nat) := order_units some positive k e
  rw [targetExponent_eq]
  by_cases none : a / b = 0
  · have less := (units 0).mpr (by simpa using (Nat.div_eq_zero_iff_lt positive).mp none)
    rw [none, Nat.log2_zero]
    omega
  · have above := (units ((a / b).log2 + 1)).mpr
      ((Nat.div_lt_iff_lt_mul positive).mp Nat.lt_log2_self)
    have below := mt (units (a / b).log2).mp (Nat.not_lt.mpr
      ((Nat.le_div_iff_mul_le positive).mp (Nat.log2_self_le none)))
    omega

theorem halfEven_units {d : Int} (low : e ≤ d) (a b : Nat) :
    halfEven (a * 2 ^ e.toNat * 2 ^ (-d).toNat) (b * 2 ^ (-e).toNat * 2 ^ d.toNat) =
      halfEven a (b * 2 ^ (d - e).toNat) := by
  have powers :
      2 ^ (-e).toNat * 2 ^ d.toNat = 2 ^ (d - e).toNat * (2 ^ e.toNat * 2 ^ (-d).toNat) := by
    rw [← Nat.pow_add, ← Nat.pow_add, ← Nat.pow_add]
    congr 1
    omega
  rw [Nat.mul_assoc, Nat.mul_assoc, powers, ← Nat.mul_assoc b,
    halfEven_scale (Nat.mul_pos (Nat.two_pow_pos _) (Nat.two_pow_pos _))]

theorem pack_roundWithAccuracy (some : 0 < a) (positive : 0 < b)
    (low : e ≤ exponentOf (a * 2 ^ e.toNat) (b * 2 ^ (-e).toNat)) :
    UnpackedFloat.pack .binary64
        (roundWithAccuracy .binary64 s (a / b) e (accuracyOfFraction (a % b) b)) =
      (sizeWord (signBit s) (nearest (a * 2 ^ e.toNat) (b * 2 ^ (-e).toNat))).toBitVec := by
  have num_pos : 0 < a * 2 ^ e.toNat := Nat.mul_pos some (Nat.two_pow_pos _)
  have den_pos : 0 < b * 2 ^ (-e).toNat := Nat.mul_pos positive (Nat.two_pow_pos _)
  have least := exponentOf_eq num_pos den_pos
  have target := targetExponent_quotient some positive low
  obtain ⟨small, full⟩ := mantissa_bounds num_pos den_pos
  rw [nearest_of_pos num_pos]
  generalize exponentOf (a * 2 ^ e.toNat) (b * 2 ^ (-e).toNat) = d at *
  rw [halfEven_units low] at small full ⊢
  have first : shiftToTargetExponent .binary64 (a / b) e (accuracyOfFraction (a % b) b) =
      (extended a (b * 2 ^ (d - e).toNat), d) := by
    simp only [shiftToTargetExponent, UnpackedFloat.shiftToExponent, target,
      ofMantissaAndAccuracy_fraction positive, extended_shifts positive]
    congr 1
    omega
  have unit_pos : 0 < b * 2 ^ (d - e).toNat := Nat.mul_pos positive (Nat.two_pow_pos _)
  exact pack_rounded first (roundedMantissa_extended unit_pos a) small (by omega) full

section

variable {m n : Magnitude}

theorem order_ge {a b k : Nat} (some : 0 < a) (positive : 0 < b) (e : Int)
    (enough : 2 ^ k * b ≤ a) : k + e ≤ order (a * 2 ^ e.toNat) (b * 2 ^ (-e).toNat) :=
  Int.not_lt.mp fun less => Nat.not_lt.mpr enough ((order_units some positive k e).mp less)

-- With the least exponent a mantissa can be short.
theorem pack_product (some : 0 < m.mantissa) (some' : 0 < n.mantissa)
    (least : -1074 ≤ m.exponent) (least' : -1074 ≤ n.exponent)
    (full : m.exponent = -1074 ∨ 2 ^ 52 ≤ m.mantissa)
    (full' : n.exponent = -1074 ∨ 2 ^ 52 ≤ n.mantissa) :
    UnpackedFloat.pack .binary64 (roundWithAccuracy .binary64 s (m.mantissa * n.mantissa)
        (m.exponent + n.exponent) .exact) =
      (sizeWord (signBit s) (nearest (m.numerator * n.numerator)
        (m.denominator * n.denominator))).toBitVec := by
  let a := m.mantissa * n.mantissa
  let e := m.exponent + n.exponent
  have positive : 0 < a := Nat.mul_pos some some'
  have low : e ≤ exponentOf (a * 2 ^ e.toNat) (1 * 2 ^ (-e).toNat) := by
    rw [exponentOf_eq (Nat.mul_pos positive (Nat.two_pow_pos _))
      (Nat.mul_pos Nat.one_pos (Nat.two_pow_pos _))]
    by_cases tiny : e ≤ -1074
    · omega
    · have enough : 2 ^ 52 * 1 ≤ a := by
        rcases full with short | full
        · exact Nat.le_trans (full'.resolve_left (by omega)) (Nat.le_mul_of_pos_left _ some)
        · exact Nat.le_trans full (Nat.le_mul_of_pos_right _ some')
      have far := order_ge positive Nat.one_pos e enough
      omega
  have same : nearest (a * 2 ^ e.toNat) (1 * 2 ^ (-e).toNat) =
      nearest (m.numerator * n.numerator) (m.denominator * n.denominator) := by
    refine Magnitude.nearest_congr (Nat.mul_pos Nat.one_pos (Nat.two_pow_pos _))
      (Nat.mul_pos (Nat.two_pow_pos _) (Nat.two_pow_pos _)) ?_
    have powers : 2 ^ e.toNat * (2 ^ (-m.exponent).toNat * 2 ^ (-n.exponent).toNat) =
        2 ^ m.exponent.toNat * 2 ^ n.exponent.toNat * 2 ^ (-e).toNat := by
      simp only [← Nat.pow_add]
      congr 1
      omega
    change m.mantissa * n.mantissa * 2 ^ e.toNat *
      (2 ^ (-m.exponent).toNat * 2 ^ (-n.exponent).toNat) =
        m.mantissa * 2 ^ m.exponent.toNat * (n.mantissa * 2 ^ n.exponent.toNat) *
          (1 * 2 ^ (-e).toNat)
    calc _ = m.mantissa * n.mantissa *
          (2 ^ e.toNat * (2 ^ (-m.exponent).toNat * 2 ^ (-n.exponent).toNat)) := by ring
      _ = _ := by
        rw [powers]
        ring
  have rounded := pack_roundWithAccuracy (s := s) positive Nat.one_pos low
  rw [Nat.div_one, Nat.mod_one, same] at rounded
  exact rounded

-- The quotient is taken with so many bits that it can be rounded.
theorem pack_quotient (some : 0 < m.mantissa) (some' : 0 < n.mantissa) :
    UnpackedFloat.pack .binary64
        (let (a, e, acc) :=
          UnpackedFloat.divCore .binary64 m.mantissa m.exponent n.mantissa n.exponent
        roundWithAccuracy .binary64 s a e acc) =
      (sizeWord (signBit s) (nearest (m.numerator * n.denominator)
        (m.denominator * n.numerator))).toBitVec := by
  let difference := totalExponent m.mantissa m.exponent - totalExponent n.mantissa n.exponent
  let e := min (m.exponent - n.exponent) (Format.binary64.targetExponent difference)
  let k := (m.exponent - n.exponent - e).toNat
  have target : Format.binary64.targetExponent difference = max (difference - 53) (-1074) := rfl
  have logs : difference = m.mantissa.log2 + 1 + m.exponent - (n.mantissa.log2 + 1 + n.exponent) :=
    rfl
  have positive : 0 < m.mantissa * 2 ^ k := Nat.mul_pos some (Nat.two_pow_pos k)
  have low : e ≤ exponentOf (m.mantissa * 2 ^ k * 2 ^ e.toNat) (n.mantissa * 2 ^ (-e).toNat) := by
    rw [exponentOf_eq (Nat.mul_pos positive (Nat.two_pow_pos _))
      (Nat.mul_pos some' (Nat.two_pow_pos _))]
    by_cases tiny : e ≤ -1074
    · omega
    · let j := m.mantissa.log2 + k - (n.mantissa.log2 + 1)
      have enough : 2 ^ j * n.mantissa ≤ m.mantissa * 2 ^ k :=
        calc 2 ^ j * n.mantissa
            ≤ 2 ^ j * 2 ^ (n.mantissa.log2 + 1) :=
              Nat.mul_le_mul_left _ (Nat.le_of_lt Nat.lt_log2_self)
          _ = 2 ^ m.mantissa.log2 * 2 ^ k := by
              rw [← Nat.pow_add, ← Nat.pow_add]
              congr 1
              omega
          _ ≤ m.mantissa * 2 ^ k := Nat.mul_le_mul_right _ (Nat.log2_self_le some.ne')
      have far := order_ge positive some' e enough
      omega
  have same : nearest (m.mantissa * 2 ^ k * 2 ^ e.toNat) (n.mantissa * 2 ^ (-e).toNat) =
      nearest (m.numerator * n.denominator) (m.denominator * n.numerator) := by
    refine Magnitude.nearest_congr (Nat.mul_pos some' (Nat.two_pow_pos _))
      (Nat.mul_pos (Nat.two_pow_pos _) (Nat.mul_pos some' (Nat.two_pow_pos _))) ?_
    have powers : 2 ^ k * 2 ^ e.toNat * (2 ^ (-m.exponent).toNat * 2 ^ n.exponent.toNat) =
        2 ^ m.exponent.toNat * 2 ^ (-n.exponent).toNat * 2 ^ (-e).toNat := by
      simp only [← Nat.pow_add]
      congr 1
      omega
    change m.mantissa * 2 ^ k * 2 ^ e.toNat *
      (2 ^ (-m.exponent).toNat * (n.mantissa * 2 ^ n.exponent.toNat)) =
        m.mantissa * 2 ^ m.exponent.toNat * 2 ^ (-n.exponent).toNat *
          (n.mantissa * 2 ^ (-e).toNat)
    calc _ = m.mantissa * n.mantissa *
          (2 ^ k * 2 ^ e.toNat * (2 ^ (-m.exponent).toNat * 2 ^ n.exponent.toNat)) := by ring
      _ = _ := by
        rw [powers]
        ring
  have rounded := pack_roundWithAccuracy (s := s) positive some' low
  rw [same] at rounded
  rw [UnpackedFloat.divCore]
  simp only [Nat.shiftLeft_eq]
  exact rounded

end

end

section

variable {x y : Float}

def sign (x : Float) : Sign := if isNegative x then .negative else .positive

theorem signBit_sign (x : Float) : signBit (sign x) = isNegative x := by
  rw [sign]
  cases isNegative x <;> rfl

theorem unpackSign_eq (x : Float) :
    Sign.ofBitVec (@UnpackedFloat.unpackSign .binary64 x.toBits.toBitVec) = sign x := by
  have whole := toNat_toBits x
  have below : sizeBits x < 2 ^ 63 := Nat.mod_lt _ (by decide)
  rw [sign]
  cases negative : isNegative x with
  | true =>
    rw [negative, if_pos rfl] at whole
    rw [unpackSign_of_le (by rw [UInt64.toNat_toBitVec, whole]; exact Nat.le_add_right _ _)]
    rfl
  | false =>
    rw [negative, if_neg Bool.false_ne_true, Nat.zero_add] at whole
    rw [unpackSign_of_lt (by rwa [UInt64.toNat_toBitVec, whole])]
    rfl

theorem unpack_finite (below : sizeBits x < Magnitude.infinityBits) (nonzero : sizeBits x ≠ 0) :
    ∃ positive, x.toModel.unpack =
      .finite (sign x) (magnitude x).mantissa (magnitude x).exponent positive := by
  have infinity : Magnitude.infinityBits = 2047 * 2 ^ 52 := rfl
  have word : x.toBits.toNat % 2 ^ 63 = sizeBits x := rfl
  have mantissa := unpackMantissa_toNat x.toBits.toBitVec
  have exponent := unpackExponent_toNat x.toBits.toBitVec
  rw [UInt64.toNat_toBitVec] at mantissa exponent
  have size :
      (magnitude x).mantissa = sizeBits x - (max 1 (sizeBits x / 2 ^ 52) - 1) * 2 ^ 52 := rfl
  have scale : (magnitude x).exponent = (max 1 (sizeBits x / 2 ^ 52) : Nat) - 1075 := rfl
  have bias : ((Format.binary64.exponentBias : Nat) : Int) = 1023 := rfl
  have fraction : ((Format.binary64.mantissaBitsWithoutImplicit : Nat) : Int) = 52 := rfl
  change ∃ positive, UnpackedFloat.unpack .binary64 x.toBits.toBitVec = _
  simp only [UnpackedFloat.unpack, unpackSign_eq, bias, fraction]
  split
  · next all =>
    rw [all] at exponent
    simp at exponent
    omega
  · split
    · next zero =>
      have least := congrArg BitVec.toNat zero
      rw [BitVec.toNat_ofNat, Nat.zero_mod] at least
      split
      · next none =>
        have nothing := congrArg BitVec.toNat none
        rw [BitVec.toNat_ofNat, Nat.zero_mod] at nothing
        omega
      · next some =>
        refine ⟨by omega, ?_⟩
        congr 1
        · omega
        · omega
    · next normal =>
      have positive := mt BitVec.eq_of_toNat_eq normal
      rw [BitVec.toNat_ofNat, Nat.zero_mod] at positive
      have lead := Nat.shiftLeft_add_eq_or_of_lt
        (@UnpackedFloat.unpackMantissa .binary64 x.toBits.toBitVec).isLt 1
      refine ⟨by omega, ?_⟩
      congr 1
      · rw [BitVec.toNat_append, BitVec.toNat_ofNat, Nat.mod_eq_of_lt (by decide), ← lead,
          Nat.shiftLeft_eq]
        change 1 * 2 ^ 52 + _ = _
        omega
      · omega

theorem unpack_zero (none : sizeBits x = 0) : x.toModel.unpack = .zero (sign x) := by
  have exponent := unpackExponent_toNat x.toBits.toBitVec
  have mantissa := unpackMantissa_toNat x.toBits.toBitVec
  have word : x.toBits.toNat % 2 ^ 63 = sizeBits x := rfl
  rw [UInt64.toNat_toBitVec] at mantissa exponent
  have least : @UnpackedFloat.unpackExponent .binary64 x.toBits.toBitVec = 0#11 := by
    apply BitVec.eq_of_toNat_eq
    rw [exponent, BitVec.toNat_ofNat, Nat.zero_mod]
    omega
  have nothing : @UnpackedFloat.unpackMantissa .binary64 x.toBits.toBitVec = 0#52 := by
    apply BitVec.eq_of_toNat_eq
    rw [mantissa, BitVec.toNat_ofNat, Nat.zero_mod]
    omega
  change UnpackedFloat.unpack .binary64 x.toBits.toBitVec = _
  simp only [UnpackedFloat.unpack, unpackSign_eq]
  rw [if_neg (by rw [least]; decide), if_pos least, dif_pos nothing]

theorem unpack_infinity (all : sizeBits x = Magnitude.infinityBits) :
    x.toModel.unpack = .infinity (sign x) := by
  have exponent := unpackExponent_toNat x.toBits.toBitVec
  have mantissa := unpackMantissa_toNat x.toBits.toBitVec
  have word : x.toBits.toNat % 2 ^ 63 = sizeBits x := rfl
  have infinity : Magnitude.infinityBits = 2047 * 2 ^ 52 := rfl
  rw [UInt64.toNat_toBitVec] at mantissa exponent
  have most : @UnpackedFloat.unpackExponent .binary64 x.toBits.toBitVec = -1#11 := by
    apply BitVec.eq_of_toNat_eq
    have ones : (-1#11).toNat = 2047 := rfl
    rw [exponent, ones]
    omega
  have nothing : @UnpackedFloat.unpackMantissa .binary64 x.toBits.toBitVec = 0#52 := by
    apply BitVec.eq_of_toNat_eq
    rw [mantissa, BitVec.toNat_ofNat, Nat.zero_mod]
    omega
  change UnpackedFloat.unpack .binary64 x.toBits.toBitVec = _
  simp only [UnpackedFloat.unpack, unpackSign_eq]
  rw [if_pos most, if_pos nothing]

theorem ofModel_pack {u : UnpackedFloat} {negative : Bool} {bits : Nat}
    (bounded : bits ≤ Magnitude.infinityBits)
    (packed : UnpackedFloat.pack .binary64 u = (sizeWord negative bits).toBitVec) :
    Float.ofModel (.pack u) = ofSizeBits negative bits := by
  change Float.ofModel (.pack u) =
    .ofModel (.pack (UnpackedFloat.unpack .binary64 (sizeWord negative bits).toBitVec))
  simp only [Float.Model.pack, packed, pack_unpack_sizeWord negative bounded]

theorem signBit_mul (s t : Sign) : signBit (s * t) = (signBit s != signBit t) := by
  cases s <;> cases t <;> rfl

theorem signBit_div (s t : Sign) : signBit (s / t) = (signBit s != signBit t) := by
  cases s <;> cases t <;> rfl

open Magnitude (exponentOf exponentOf_eq nearest nearest_congr)

theorem numerator_zero (none : sizeBits x = 0) : (magnitude x).numerator = 0 := by
  rw [magnitude, none]
  rfl

theorem numerator_pos (finite : x.isFinite = true) (nonzero : sizeBits x ≠ 0) :
    0 < (magnitude x).numerator :=
  Nat.mul_pos (Magnitude.ofBits_cases (sizeBits_lt finite) (Nat.pos_of_ne_zero nonzero)).1
    (Nat.two_pow_pos _)

theorem denominator_pos (m : Magnitude) : 0 < m.denominator := Nat.two_pow_pos _

theorem nearest_none (den : Nat) : nearest 0 den = 0 := if_pos rfl

theorem mul_eq (finite : x.isFinite = true) (finite' : y.isFinite = true) :
    x * y = ofRatio (isNegative x != isNegative y)
      ((magnitude x).numerator * (magnitude y).numerator)
      ((magnitude x).denominator * (magnitude y).denominator) := by
  change Float.ofModel (.pack (.mul .binary64 x.toModel.unpack y.toModel.unpack)) = _
  refine ofModel_pack (nearest_le _ _) ?_
  rw [← signBit_sign, ← signBit_sign, ← signBit_mul]
  by_cases none : sizeBits x = 0
  · rw [numerator_zero none, Nat.zero_mul, nearest_none, unpack_zero none]
    by_cases none' : sizeBits y = 0
    · rw [unpack_zero none']
      exact pack_zero _
    · obtain ⟨_, unpacked⟩ := unpack_finite (sizeBits_lt finite') none'
      rw [unpacked]
      exact pack_zero _
  · obtain ⟨_, unpacked⟩ := unpack_finite (sizeBits_lt finite) none
    rw [unpacked]
    by_cases none' : sizeBits y = 0
    · rw [numerator_zero none', Nat.mul_zero, nearest_none, unpack_zero none']
      exact pack_zero _
    · obtain ⟨_, unpacked'⟩ := unpack_finite (sizeBits_lt finite') none'
      obtain ⟨some, -, full, least, -⟩ :=
        Magnitude.ofBits_cases (sizeBits_lt finite) (Nat.pos_of_ne_zero none)
      obtain ⟨some', -, full', least', -⟩ :=
        Magnitude.ofBits_cases (sizeBits_lt finite') (Nat.pos_of_ne_zero none')
      rw [unpacked']
      exact pack_product some some' least least' full full'

theorem div_eq (finite : x.isFinite = true) (finite' : y.isFinite = true)
    (nonzero : sizeBits y ≠ 0) :
    x / y = ofRatio (isNegative x != isNegative y)
      ((magnitude x).numerator * (magnitude y).denominator)
      ((magnitude x).denominator * (magnitude y).numerator) := by
  change Float.ofModel (.pack (.div .binary64 x.toModel.unpack y.toModel.unpack)) = _
  refine ofModel_pack (nearest_le _ _) ?_
  obtain ⟨some', unpacked'⟩ := unpack_finite (sizeBits_lt finite') nonzero
  rw [← signBit_sign, ← signBit_sign, ← signBit_div, unpacked']
  by_cases none : sizeBits x = 0
  · rw [numerator_zero none, Nat.zero_mul, nearest_none, unpack_zero none]
    exact pack_zero _
  · obtain ⟨some, unpacked⟩ := unpack_finite (sizeBits_lt finite) none
    rw [unpacked]
    exact pack_quotient some some'

end

end CalcScript.Binary64
