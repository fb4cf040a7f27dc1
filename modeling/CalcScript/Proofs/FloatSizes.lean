import CalcScript.Proofs.FloatProducts

set_option autoImplicit false

namespace CalcScript

namespace Magnitude

variable {num den : Nat}

def value (m : Magnitude) : ℚ := m.numerator / m.denominator

def overflowThreshold : ℚ := (2 ^ 54 - 1) * 2 ^ 970

theorem overflowThreshold_bounds :
    (2 : ℚ) ^ 1023 < overflowThreshold ∧ overflowThreshold ≤ 2 ^ 1024 := by
  have below : (2 : ℚ) ^ 1023 = 2 ^ 53 * 2 ^ 970 := by rw [← pow_add]
  have above : (2 : ℚ) ^ 1024 = 2 ^ 54 * 2 ^ 970 := by rw [← pow_add]
  have unit : (0 : ℚ) < 2 ^ 970 := by positivity
  rw [overflowThreshold, below, above]
  exact ⟨mul_lt_mul_of_pos_right (by norm_num) unit,
    mul_le_mul_of_nonneg_right (by norm_num) unit.le⟩

theorem overflowThreshold_pos : 0 < overflowThreshold :=
  lt_trans (by positivity) overflowThreshold_bounds.1

theorem whole_lt_threshold {n : Nat} (small : n ≤ 2 ^ 63) :
    (n / (1 : Nat) : ℚ) < overflowThreshold := by
  rw [Nat.cast_one, div_one]
  calc (n : ℚ) ≤ 2 ^ 63 := by exact_mod_cast small
    _ ≤ 2 ^ 1023 := pow_le_pow_right₀ one_le_two (by decide)
    _ < overflowThreshold := overflowThreshold_bounds.1

theorem value_eq (m : Magnitude) : m.value = m.mantissa * (2 : ℚ) ^ m.exponent := by
  have power := Int.toNat_sub_toNat_neg m.exponent
  change ((m.mantissa * 2 ^ m.exponent.toNat : Nat) : ℚ) / (2 ^ (-m.exponent).toNat : Nat) = _
  rw [← power, zpow_sub₀ two_ne_zero, zpow_natCast, zpow_natCast, power]
  push_cast
  ring

theorem zpow_order_le (some : 0 < num) (positive : 0 < den) :
    (2 : ℚ) ^ order num den ≤ num / den := by
  have ratio : (0 : ℚ) < num / den := by positivity
  exact_mod_cast Int.zpow_log_le_self (b := 2) Nat.one_lt_two ratio

theorem lt_zpow_order (num den : Nat) : (num : ℚ) / den < 2 ^ (order num den + 1) := by
  exact_mod_cast Int.lt_zpow_succ_log_self (b := 2) Nat.one_lt_two ((num : ℚ) / den)

theorem halfEven_bounds {b : Nat} (positive : 0 < b) (a : Nat) :
    2 * (halfEven a b * b) ≤ 2 * a + b ∧ 2 * a ≤ 2 * (halfEven a b * b) + b := by
  have split := Nat.div_add_mod a b
  have below := Nat.mod_lt a positive
  simp only [halfEven]
  split
  · rw [Nat.add_mul, Nat.one_mul, Nat.mul_comm (a / b)]
    omega
  · rw [Nat.mul_comm (a / b)]
    omega

theorem halfEven_error {b : Nat} (positive : 0 < b) (a : Nat) :
    |(halfEven a b : ℚ) - a / b| ≤ 1 / 2 := by
  have whole : (0 : ℚ) < b := by exact_mod_cast positive
  obtain ⟨high, low⟩ := halfEven_bounds positive a
  have high' : 2 * ((halfEven a b : ℚ) * b) ≤ 2 * a + b := by exact_mod_cast high
  have low' : 2 * (a : ℚ) ≤ 2 * (halfEven a b * b) + b := by exact_mod_cast low
  have ratio : (a : ℚ) / b * b = a := div_mul_cancel₀ _ whole.ne'
  rw [abs_le]
  constructor
  · refine le_of_mul_le_mul_right ?_ whole
    linarith
  · refine le_of_mul_le_mul_right ?_ whole
    linarith

-- An even number is taken from half a step below.
theorem le_halfEven_of_tie {a b n : Nat} (positive : 0 < b) (even : n % 2 = 0)
    (near : 2 * n * b ≤ 2 * a + b) : n ≤ halfEven a b := by
  have split := Nat.div_add_mod a b
  have below := Nat.mod_lt a positive
  have low : n ≤ a / b + 1 := by
    by_contra far
    have steps : (a / b + 2) * b ≤ n * b := Nat.mul_le_mul_right b (by omega)
    rw [Nat.add_mul, Nat.mul_comm (a / b)] at steps
    rw [Nat.mul_assoc] at near
    omega
  simp only [halfEven]
  split
  · exact low
  · next down =>
    by_contra less
    obtain rfl : n = a / b + 1 := by omega
    rw [Nat.mul_assoc, Nat.add_mul, Nat.mul_comm (a / b)] at near
    omega

section

variable (some : 0 < num) (positive : 0 < den)

theorem units_eq (num den : Nat) (e : Int) :
    (num * 2 ^ (-e).toNat : Nat) / (den * 2 ^ e.toNat : Nat) = (num / den : ℚ) * 2 ^ (-e) := by
  have power : (2 : ℚ) ^ (-e) = 2 ^ (-e).toNat / 2 ^ e.toNat := by
    have exponents := Int.toNat_sub_toNat_neg (-e)
    rw [Int.neg_neg] at exponents
    rw [← zpow_natCast, ← zpow_natCast, ← zpow_sub₀ two_ne_zero, exponents]
  rw [power]
  push_cast
  ring

theorem ofBits_parts {e : Int} {m : Nat} (least : -1074 ≤ e) (small : m < 2 ^ 53)
    (full : 2 ^ 52 ≤ m ∨ e = -1074) :
    ofBits ((e + 1074).toNat * 2 ^ 52 + m) = ⟨m, e⟩ := by
  let bits := (e + 1074).toNat * 2 ^ 52 + m
  have mantissa : (ofBits bits).mantissa = bits - (max 1 (bits / 2 ^ 52) - 1) * 2 ^ 52 := rfl
  have exponent : (ofBits bits).exponent = (max 1 (bits / 2 ^ 52) : Nat) - 1075 := rfl
  have same : (ofBits bits).mantissa = m ∧ (ofBits bits).exponent = e := by omega
  exact congrArg₂ Magnitude.mk same.1 same.2

include some positive

theorem value_nearest (finite : nearest num den < infinityBits) :
    (ofBits (nearest num den)).value =
      halfEven (num * 2 ^ (-exponentOf num den).toNat) (den * 2 ^ (exponentOf num den).toNat) *
        2 ^ exponentOf num den := by
  obtain ⟨small, full⟩ := mantissa_bounds some positive
  have least : -1074 ≤ exponentOf num den := by
    rw [exponentOf_eq some positive]
    exact Int.le_max_right _ _
  rw [nearest_of_pos some] at finite ⊢
  generalize exponentOf num den = e at *
  generalize halfEven (num * 2 ^ (-e).toNat) (den * 2 ^ e.toNat) = m at *
  rw [Nat.min_eq_right (by omega)]
  rcases Nat.lt_or_eq_of_le small with below | rfl
  · rw [ofBits_parts least below full, value_eq]
  · have carried : (e + 1074).toNat * 2 ^ 52 + 2 ^ 53 = (e + 1 + 1074).toNat * 2 ^ 52 + 2 ^ 52 := by
      omega
    rw [carried, ofBits_parts (by omega) (by decide) (.inl (Nat.le_refl _)), value_eq]
    rw [zpow_add_one₀ two_ne_zero]
    push_cast
    ring

theorem nearest_error (finite : nearest num den < infinityBits) :
    |(ofBits (nearest num den)).value - num / den| ≤ 2 ^ (exponentOf num den - 1) := by
  let e := exponentOf num den
  have unit : 0 < den * 2 ^ e.toNat := Nat.mul_pos positive (Nat.two_pow_pos _)
  have error := halfEven_error unit (num * 2 ^ (-e).toNat)
  have power : (0 : ℚ) < 2 ^ e := by positivity
  have ratio : (num : ℚ) / den = num / den * 2 ^ (-e) * 2 ^ e := by
    rw [mul_assoc, ← zpow_add₀ two_ne_zero, Int.add_left_neg, zpow_zero, mul_one]
  rw [units_eq] at error
  rw [value_nearest some positive finite]
  change |_ * (2 : ℚ) ^ e - _| ≤ 2 ^ (e - 1)
  rw [ratio, ← sub_mul, abs_mul, abs_of_pos power, zpow_sub_one₀ two_ne_zero]
  have scaled := mul_le_mul_of_nonneg_right error power.le
  linarith

theorem value_nearest_le (finite : nearest num den < infinityBits) :
    (ofBits (nearest num den)).value ≤ num / den * (1 + 2 ^ (-53 : Int)) + 2 ^ (-1075 : Int) := by
  have error := abs_le.mp (nearest_error some positive finite)
  have lower := zpow_order_le some positive
  have ratio : (0 : ℚ) ≤ num / den := by positivity
  have tiny : (0 : ℚ) < 2 ^ (-1075 : Int) := by positivity
  have place : (0 : ℚ) < 2 ^ (-53 : Int) := by positivity
  have half : (2 : ℚ) ^ (exponentOf num den - 1) ≤
      num / den * 2 ^ (-53 : Int) + 2 ^ (-1075 : Int) := by
    rw [exponentOf_eq some positive]
    rcases Int.le_total (order num den - 52) (-1074) with small | large
    · rw [Int.max_eq_right small]
      exact le_add_of_nonneg_left (mul_nonneg ratio place.le)
    · have power : (2 : ℚ) ^ (order num den - 52 - 1) = 2 ^ order num den * 2 ^ (-53 : Int) := by
        rw [← zpow_add₀ two_ne_zero]
        congr 1
        omega
      rw [Int.max_eq_left large, power]
      exact le_add_of_le_of_nonneg (mul_le_mul_of_nonneg_right lower place.le) tiny.le
  linarith

theorem one_le_value_nearest (one : den ≤ num) (finite : nearest num den < infinityBits) :
    1 ≤ (ofBits (nearest num den)).value := by
  have upper := lt_zpow_order num den
  have ratio : (1 : ℚ) ≤ num / den := by
    rw [one_le_div₀ (by exact_mod_cast positive)]
    exact_mod_cast one
  have order_nonneg : 0 ≤ order num den := by
    by_contra negative
    have small : (2 : ℚ) ^ (order num den + 1) ≤ 1 :=
      zpow_le_one_of_nonpos₀ one_le_two (by omega)
    linarith
  have exponent := exponentOf_eq some positive
  have mantissa := (mantissa_bounds some positive).2.resolve_right (by omega)
  rw [value_nearest some positive finite]
  calc (1 : ℚ) ≤ 2 ^ order num den := one_le_zpow₀ one_le_two order_nonneg
    _ = (2 ^ 52 : Nat) * 2 ^ exponentOf num den := by
      rw [Nat.cast_pow, Nat.cast_ofNat, ← zpow_natCast, ← zpow_add₀ two_ne_zero]
      congr 1
      omega
    _ ≤ _ := mul_le_mul_of_nonneg_right (by exact_mod_cast mantissa) (by positivity)

-- With the largest exponent only a mantissa that carries leads to infinity.
theorem nearest_eq_infinity_of_order (last : order num den = 1023) :
    nearest num den = infinityBits ↔ overflowThreshold ≤ num / den := by
  have infinity : infinityBits = 2047 * 2 ^ 52 := rfl
  have exponent := exponentOf_eq some positive
  have none : (-exponentOf num den).toNat = 0 := by omega
  have scale : (exponentOf num den).toNat = 971 := by omega
  have bias : (exponentOf num den + 1074).toNat = 2045 := by omega
  have whole : (0 : ℚ) < den := by exact_mod_cast positive
  obtain ⟨b, b_eq⟩ : ∃ b, b = den * 2 ^ (exponentOf num den).toNat := ⟨_, rfl⟩
  have unit : 0 < b := b_eq ▸ Nat.mul_pos positive (Nat.two_pow_pos _)
  have carry : nearest num den = infinityBits ↔ 2 ^ 53 ≤ halfEven num b := by
    rw [nearest_of_pos some, none, bias, Nat.pow_zero, Nat.mul_one, ← b_eq]
    omega
  have tie : 2 ^ 53 ≤ halfEven num b ↔ 2 * 2 ^ 53 * b ≤ 2 * num + b := by
    constructor
    · intro carried
      obtain ⟨high, -⟩ := halfEven_bounds unit num
      rw [Nat.mul_assoc]
      exact Nat.le_trans (Nat.mul_le_mul_left 2 (Nat.mul_le_mul_right _ carried)) high
    · exact le_halfEven_of_tie unit rfl
  have units : (b : ℚ) = den * 2 ^ (970 + 1) := by
    rw [b_eq, scale, Nat.cast_mul, Nat.cast_pow, Nat.cast_ofNat]
  rw [pow_succ'] at units
  rw [carry, tie, overflowThreshold, le_div_iff₀ whole, ← Nat.cast_le (α := ℚ)]
  push_cast
  rw [units]
  generalize (2 : ℚ) ^ 970 = unit
  constructor
  · intro near
    linarith
  · intro near
    linarith

theorem nearest_eq_infinity_iff :
    nearest num den = infinityBits ↔ overflowThreshold ≤ num / den := by
  have infinity : infinityBits = 2047 * 2 ^ 52 := rfl
  rcases Int.lt_trichotomy (order num den) 1023 with small | last | large
  · obtain ⟨mantissa, -⟩ := mantissa_bounds some positive
    have exponent := exponentOf_eq some positive
    have finite : nearest num den ≠ infinityBits := by
      rw [nearest_of_pos some]
      omega
    have below : (num : ℚ) / den < 2 ^ 1023 :=
      (lt_zpow_order num den).trans_le
        (zpow_le_zpow_right₀ one_le_two (by omega : order num den + 1 ≤ (1023 : Nat)))
    exact iff_of_false finite (below.trans overflowThreshold_bounds.1).not_ge
  · exact nearest_eq_infinity_of_order some positive last
  · have far := mt (order_lt_iff some positive 1024 0).mpr (by omega)
    have huge := Nat.not_lt.mp far
    rw [Int.neg_zero, Int.toNat_zero, Nat.pow_zero, Nat.mul_one, Nat.mul_one] at huge
    have beyond : (2 : ℚ) ^ 1024 ≤ num / den := by
      rw [le_div_iff₀ (by exact_mod_cast positive)]
      exact_mod_cast huge
    exact iff_of_true (nearest_huge (Nat.le_refl _) positive huge)
      (overflowThreshold_bounds.2.trans beyond)

end

end Magnitude

namespace Binary64

open Float.Model (UnpackedFloat)

variable {x y : Float}

def size (x : Float) : ℚ := (magnitude x).value

theorem size_nonneg (x : Float) : 0 ≤ size x := by
  rw [size, Magnitude.value]
  positivity

theorem sizeBits_ofSizeBits (negative : Bool) {bits : Nat}
    (bounded : bits ≤ Magnitude.infinityBits) : sizeBits (ofSizeBits negative bits) = bits := by
  have infinity : Magnitude.infinityBits = 2047 * 2 ^ 52 := rfl
  have below : bits < 2 ^ 63 := by omega
  have word := sizeWord_toNat negative below
  change (UInt64.ofBitVec (UnpackedFloat.pack .binary64
    (UnpackedFloat.unpack .binary64 (sizeWord negative bits).toBitVec))).toNat % 2 ^ 63 = bits
  rw [pack_unpack_sizeWord negative bounded]
  change (sizeWord negative bits).toBitVec.toNat % 2 ^ 63 = bits
  rw [word]
  split <;> omega

theorem isFinite_iff : x.isFinite = true ↔ sizeBits x < Magnitude.infinityBits := by
  refine ⟨sizeBits_lt, fun below => ?_⟩
  by_cases none : sizeBits x = 0
  · change x.toModel.unpack.isFinite = true
    rw [unpack_zero none]
    rfl
  · obtain ⟨_, unpacked⟩ := unpack_finite below none
    change x.toModel.unpack.isFinite = true
    rw [unpacked]
    rfl

theorem isInf_of_sizeBits (all : sizeBits x = Magnitude.infinityBits) : x.isInf = true := by
  change x.toModel.unpack.isInf = true
  rw [unpack_infinity all]
  rfl

theorem size_ofRatio {num den : Nat} (negative : Bool)
    (finite : Magnitude.nearest num den < Magnitude.infinityBits) :
    size (ofRatio negative num den) = (Magnitude.ofBits (Magnitude.nearest num den)).value := by
  rw [size, magnitude, ofRatio, sizeBits_ofSizeBits negative finite.le]

theorem isFinite_ofRatio {num den : Nat} (negative : Bool) (positive : 0 < den)
    (bounded : (num / den : ℚ) < Magnitude.overflowThreshold) :
    Magnitude.nearest num den < Magnitude.infinityBits ∧
      (ofRatio negative num den).isFinite = true := by
  have below : Magnitude.nearest num den < Magnitude.infinityBits := by
    by_cases none : num = 0
    · rw [none, nearest_none]
      decide
    · refine lt_of_le_of_ne (nearest_le num den) fun infinite => ?_
      exact bounded.not_ge
        ((Magnitude.nearest_eq_infinity_iff (Nat.pos_of_ne_zero none) positive).mp infinite)
  refine ⟨below, isFinite_iff.mpr ?_⟩
  rwa [ofRatio, sizeBits_ofSizeBits negative below.le]

theorem isInf_ofRatio {num den : Nat} (negative : Bool) (positive : 0 < den)
    (large : Magnitude.overflowThreshold ≤ (num / den : ℚ)) :
    (ofRatio negative num den).isInf = true := by
  have some : 0 < num := by
    by_contra none
    obtain rfl : num = 0 := Nat.eq_zero_of_not_pos none
    rw [Nat.cast_zero, zero_div] at large
    exact Magnitude.overflowThreshold_pos.not_ge large
  apply isInf_of_sizeBits
  rw [ofRatio, sizeBits_ofSizeBits negative (nearest_le num den)]
  exact (Magnitude.nearest_eq_infinity_iff some positive).mpr large

theorem size_lt (finite : x.isFinite = true) : size x < Magnitude.overflowThreshold := by
  have below := sizeBits_lt finite
  by_cases none : sizeBits x = 0
  · rw [size, Magnitude.value, numerator_zero none, Nat.cast_zero, zero_div]
    exact Magnitude.overflowThreshold_pos
  · have same := Magnitude.nearest_ofBits below
    by_contra large
    have infinite := (Magnitude.nearest_eq_infinity_iff (numerator_pos finite none)
      (denominator_pos _)).mpr (not_lt.mp large)
    exact below.ne (same.symm.trans infinite)

def growth : ℚ := 1 + 2 ^ (-52 : Int)

theorem one_le_growth : 1 ≤ growth := by
  rw [growth]
  exact le_add_of_nonneg_right (by positivity)

theorem size_mul_eq (x y : Float) : size x * size y =
    ((magnitude x).numerator * (magnitude y).numerator : Nat) /
      ((magnitude x).denominator * (magnitude y).denominator : Nat) := by
  rw [size, size, Magnitude.value, Magnitude.value, div_mul_div_comm]
  push_cast
  rfl

theorem size_div_eq (x y : Float) : size x / size y =
    ((magnitude x).numerator * (magnitude y).denominator : Nat) /
      ((magnitude x).denominator * (magnitude y).numerator : Nat) := by
  rw [size, size, Magnitude.value, Magnitude.value, div_div_div_eq]
  push_cast
  rfl

theorem isFinite_mul (finite : x.isFinite = true) (finite' : y.isFinite = true)
    (bounded : size x * size y < Magnitude.overflowThreshold) : (x * y).isFinite = true := by
  rw [size_mul_eq] at bounded
  rw [mul_eq finite finite']
  exact (isFinite_ofRatio _ (Nat.mul_pos (denominator_pos _) (denominator_pos _)) bounded).2

theorem isInf_mul (finite : x.isFinite = true) (finite' : y.isFinite = true)
    (large : Magnitude.overflowThreshold ≤ size x * size y) : (x * y).isInf = true := by
  rw [size_mul_eq] at large
  rw [mul_eq finite finite']
  exact isInf_ofRatio _ (Nat.mul_pos (denominator_pos _) (denominator_pos _)) large

theorem sizeBits_ne_zero (one : 1 ≤ size y) : sizeBits y ≠ 0 := by
  intro none
  rw [size, Magnitude.value, numerator_zero none, Nat.cast_zero, zero_div] at one
  exact absurd one (by norm_num)

theorem size_div_le (x : Float) (one : 1 ≤ size y) : size x / size y ≤ size x :=
  div_le_self (size_nonneg x) one

theorem isFinite_div (finite : x.isFinite = true) (finite' : y.isFinite = true)
    (one : 1 ≤ size y) : (x / y).isFinite = true := by
  have nonzero := sizeBits_ne_zero one
  have bounded := (size_div_le x one).trans_lt (size_lt finite)
  rw [size_div_eq] at bounded
  rw [div_eq finite finite' nonzero]
  exact (isFinite_ofRatio _ (Nat.mul_pos (denominator_pos _) (numerator_pos finite' nonzero))
    bounded).2

theorem size_div_near (finite : x.isFinite = true) (finite' : y.isFinite = true)
    (one : 1 ≤ size y) :
    size (x / y) ≤ size x / size y * (1 + 2 ^ (-53 : Int)) + 2 ^ (-1075 : Int) := by
  have nonzero := sizeBits_ne_zero one
  have positive := Nat.mul_pos (denominator_pos (magnitude x)) (numerator_pos finite' nonzero)
  have bounded := (size_div_le x one).trans_lt (size_lt finite)
  rw [size_div_eq] at bounded ⊢
  obtain ⟨below, -⟩ := isFinite_ofRatio (isNegative x != isNegative y) positive bounded
  rw [div_eq finite finite' nonzero, size_ofRatio _ below]
  by_cases none : sizeBits x = 0
  · rw [numerator_zero none, Nat.zero_mul, nearest_none, Magnitude.value_eq, Nat.cast_zero,
      zero_div, zero_mul, zero_add]
    exact (zero_mul _).trans_le (by positivity)
  · exact Magnitude.value_nearest_le
      (Nat.mul_pos (numerator_pos finite none) (denominator_pos _)) positive below

theorem size_mul_bounds (finite : x.isFinite = true) (finite' : y.isFinite = true)
    (one : 1 ≤ size x) (one' : 1 ≤ size y)
    (bounded : size x * size y < Magnitude.overflowThreshold) :
    1 ≤ size (x * y) ∧ size (x * y) ≤ size x * size y * growth := by
  have product := size_mul_eq x y
  have positive := Nat.mul_pos (denominator_pos (magnitude x)) (denominator_pos (magnitude y))
  have some := Nat.mul_pos (numerator_pos finite (sizeBits_ne_zero one))
    (numerator_pos finite' (sizeBits_ne_zero one'))
  have whole : 1 ≤ size x * size y := one_le_mul_of_one_le_of_one_le one one'
  rw [product] at bounded
  obtain ⟨below, -⟩ := isFinite_ofRatio (isNegative x != isNegative y) positive bounded
  rw [mul_eq finite finite', size_ofRatio _ below, product]
  rw [product] at whole
  constructor
  · refine Magnitude.one_le_value_nearest some positive ?_ below
    rw [one_le_div₀ (by exact_mod_cast positive)] at whole
    exact_mod_cast whole
  · refine (Magnitude.value_nearest_le some positive below).trans ?_
    have place : (2 : ℚ) ^ (-52 : Int) = 2 * 2 ^ (-53 : Int) := by norm_num
    have tiny : (2 : ℚ) ^ (-1075 : Int) ≤ 2 ^ (-53 : Int) :=
      zpow_le_zpow_right₀ one_le_two (by decide)
    have unit : (0 : ℚ) < 2 ^ (-53 : Int) := by positivity
    rw [growth, place]
    generalize (2 : ℚ) ^ (-53 : Int) = u at *
    nlinarith

theorem powStep_bounds {acc base : Float} (n : Nat) (finite : acc.isFinite = true)
    (finite' : base.isFinite = true) (one : 1 ≤ size acc) (one' : 1 ≤ size base)
    (bounded : size acc * size base ^ (n % 2) < Magnitude.overflowThreshold) :
    let acc' := if n % 2 = 1 then acc * base else acc
    acc'.isFinite = true ∧ 1 ≤ size acc' ∧
      size acc' ≤ size acc * (size base * growth) ^ (n % 2) := by
  intro acc'
  rcases Nat.mod_two_eq_zero_or_one n with even | odd
  · have same : acc' = acc := if_neg (by omega)
    rw [same, even, pow_zero, mul_one]
    exact ⟨finite, one, le_refl _⟩
  · have product : acc' = acc * base := if_pos odd
    rw [odd, pow_one] at bounded
    rw [product, odd, pow_one, ← mul_assoc]
    exact ⟨isFinite_mul finite finite' bounded, size_mul_bounds finite finite' one one' bounded⟩

theorem powFrom_bounds {acc base : Float} (n : Nat) (finite : acc.isFinite = true)
    (finite' : base.isFinite = true) (one : 1 ≤ size acc) (one' : 1 ≤ size base)
    (bounded : size acc * size base ^ n * growth ^ (2 * n) < Magnitude.overflowThreshold) :
    (powFrom acc base n).isFinite = true ∧ 1 ≤ size (powFrom acc base n) ∧
      size (powFrom acc base n) ≤ size acc * size base ^ n * growth ^ (2 * n) := by
  have grows := one_le_growth
  fun_induction powFrom acc base n with
  | case1 acc base n acc' last =>
    have bit : n % 2 = n := by omega
    have power : (size base * growth) ^ n ≤ size base ^ n * growth ^ (2 * n) := by
      rw [mul_pow]
      exact mul_le_mul_of_nonneg_left (pow_le_pow_right₀ grows (by omega)) (by positivity)
    have less : size acc * size base ^ n ≤ size acc * size base ^ n * growth ^ (2 * n) :=
      le_mul_of_one_le_right (by positivity) (one_le_pow₀ grows)
    obtain ⟨stays, above, below⟩ : acc'.isFinite = true ∧ 1 ≤ size acc' ∧
        size acc' ≤ size acc * (size base * growth) ^ (n % 2) :=
      powStep_bounds n finite finite' one one' (bit.symm ▸ less.trans_lt bounded)
    rw [bit] at below
    refine ⟨stays, above, below.trans ?_⟩
    rw [mul_assoc]
    exact mul_le_mul_of_nonneg_left power (size_nonneg acc)
  | case2 acc base n acc' more ih =>
    have parts : n % 2 + 2 * (n / 2) = n := Nat.mod_add_div n 2
    have less : size base ^ n ≤ size acc * size base ^ n * growth ^ (2 * n) :=
      (le_mul_of_one_le_left (by positivity) one).trans
        (le_mul_of_one_le_right (by positivity) (one_le_pow₀ grows))
    have first : size acc * size base ^ (n % 2) < Magnitude.overflowThreshold := by
      refine lt_of_le_of_lt ?_ bounded
      rw [mul_assoc]
      refine mul_le_mul_of_nonneg_left ?_ (size_nonneg acc)
      exact (pow_le_pow_right₀ one' (Nat.mod_le n 2)).trans
        (le_mul_of_one_le_right (by positivity) (one_le_pow₀ grows))
    have square : size base * size base < Magnitude.overflowThreshold := by
      refine lt_of_le_of_lt ?_ (less.trans_lt bounded)
      rw [← pow_two]
      exact pow_le_pow_right₀ one' (by omega)
    obtain ⟨stays, above, below⟩ : acc'.isFinite = true ∧ 1 ≤ size acc' ∧
        size acc' ≤ size acc * (size base * growth) ^ (n % 2) :=
      powStep_bounds n finite finite' one one' first
    obtain ⟨above', below'⟩ := size_mul_bounds finite' finite' one' one' square
    have total : size acc' * size (base * base) ^ (n / 2) * growth ^ (2 * (n / 2)) ≤
        size acc * size base ^ n * growth ^ (2 * n) :=
      calc size acc' * size (base * base) ^ (n / 2) * growth ^ (2 * (n / 2))
          ≤ size acc * (size base * growth) ^ (n % 2) *
              (size base * size base * growth) ^ (n / 2) * growth ^ (2 * (n / 2)) := by
            have nonneg := size_nonneg (base * base)
            gcongr
        _ = size acc * size base ^ (n % 2 + 2 * (n / 2)) * growth ^ (n % 2 + 3 * (n / 2)) := by
            ring
        _ ≤ size acc * size base ^ n * growth ^ (2 * n) := by
            rw [parts]
            exact mul_le_mul_of_nonneg_left (pow_le_pow_right₀ grows (by omega)) (by positivity)
    obtain ⟨done, atLeast, atMost⟩ :=
      ih stays (isFinite_mul finite' finite' square) above above' (total.trans_lt bounded)
    exact ⟨done, atLeast, atMost.trans total⟩

theorem growth_pow_le : growth ^ 616 ≤ 3 / 2 := by
  have ratio : growth = (2 ^ 52 + 1 : Nat) / (2 ^ 52 : Nat) := by
    rw [growth]
    norm_num
  have errors : 2 * (2 ^ 52 + 1) ^ 616 ≤ 3 * (2 ^ 52) ^ 616 := by decide +kernel
  rw [ratio, div_pow, div_le_div_iff₀ (by positivity) two_pos]
  rw [mul_comm]
  exact_mod_cast errors

theorem ten_pow_lt : 3 / 2 * 10 ^ 308 < Magnitude.overflowThreshold := by
  have numbers : 3 * 10 ^ 308 + 2 * 2 ^ 970 < 2 * (2 ^ 54 * 2 ^ 970) := by decide +kernel
  have numbers' : (3 : ℚ) * 10 ^ 308 + 2 * 2 ^ 970 < 2 * (2 ^ 54 * 2 ^ 970) := by
    exact_mod_cast numbers
  rw [Magnitude.overflowThreshold]
  generalize (10 : ℚ) ^ 308 = p at *
  generalize (2 : ℚ) ^ 970 = u at *
  linarith

theorem size_one : size 1 = 1 := by
  have same : (magnitude 1).numerator = (magnitude 1).denominator := by decide +kernel
  rw [size, Magnitude.value, same]
  exact div_self (by exact_mod_cast (denominator_pos _).ne')

theorem size_ten : size 10 = 10 := by
  have same : (magnitude 10).numerator = 10 * (magnitude 10).denominator := by decide +kernel
  rw [size, Magnitude.value, same, Nat.cast_mul]
  exact mul_div_cancel_right₀ _ (by exact_mod_cast (denominator_pos _).ne')

theorem scale_bounds {n : Nat} (small : n ≤ 308) :
    (powFrom 1 10 n).isFinite = true ∧ 1 ≤ size (powFrom 1 10 n) ∧
      size (powFrom 1 10 n) ≤ 3 / 2 * 10 ^ 308 := by
  have grows := one_le_growth
  have ten : (1 : ℚ) ≤ 10 := by norm_num
  have bound : size 1 * size 10 ^ n * growth ^ (2 * n) ≤ 3 / 2 * 10 ^ 308 := by
    rw [size_one, size_ten, one_mul, mul_comm]
    exact mul_le_mul ((pow_le_pow_right₀ grows (by omega)).trans growth_pow_le)
      (pow_le_pow_right₀ ten small) (by positivity) (by norm_num)
  obtain ⟨finite, one, most⟩ := @powFrom_bounds 1 10 n (by decide +kernel)
    (by decide +kernel) size_one.ge (size_ten ▸ ten) (bound.trans_lt ten_pow_lt)
  exact ⟨finite, one, most.trans bound⟩

theorem natAbs_toInt (x : Float) : (toInt .halfEven x).natAbs =
    CalcScript.halfEven (magnitude x).numerator (magnitude x).denominator := by
  delta toInt
  dsimp only
  split
  · rw [Int.natAbs_neg, Int.natAbs_natCast]
  · rw [Int.natAbs_natCast]

theorem nearest_whole {n : Nat} (small : n < 2 ^ 53) :
    Magnitude.nearest n 1 < Magnitude.infinityBits ∧
      (Magnitude.ofBits (Magnitude.nearest n 1)).value = n := by
  rcases Nat.eq_zero_or_pos n with rfl | some
  · rw [nearest_none]
    refine ⟨by decide, ?_⟩
    rw [Magnitude.value_eq, Nat.cast_zero]
    exact zero_mul _
  have bounded := Magnitude.whole_lt_threshold (n := n) (by omega)
  have finite := (isFinite_ofRatio false Nat.one_pos bounded).1
  have exponent := Magnitude.exponentOf_eq some Nat.one_pos
  have bits := (Magnitude.order_lt_iff some Nat.one_pos 53 0).mpr (by simpa using small)
  refine ⟨finite, ?_⟩
  rw [Magnitude.value_nearest some Nat.one_pos finite]
  obtain ⟨k, places⟩ : ∃ k : Nat, Magnitude.exponentOf n 1 = -k :=
    ⟨(-Magnitude.exponentOf n 1).toNat, by omega⟩
  have exact := halfEven_mul Nat.one_pos (n * 2 ^ k)
  rw [Nat.mul_one] at exact
  rw [places, Int.toNat_neg_natCast, Int.neg_neg, Int.toNat_natCast, Nat.pow_zero, Nat.mul_one,
    exact, zpow_neg, zpow_natCast]
  push_cast
  exact mul_inv_cancel_right₀ (by positivity) _

-- Beyond 53 bits a float is whole, and its whole part is no shorter.
theorem integral_size (finite : x.isFinite = true) :
    (integral .halfEven x).isFinite = true ∧
      size (integral .halfEven x) =
        CalcScript.halfEven (magnitude x).numerator (magnitude x).denominator := by
  have below := sizeBits_lt finite
  have value := natAbs_toInt x
  obtain ⟨n, n_eq⟩ :
      ∃ n, n = CalcScript.halfEven (magnitude x).numerator (magnitude x).denominator := ⟨_, rfl⟩
  rw [← n_eq] at value ⊢
  suffices rounded : Magnitude.nearest n 1 < Magnitude.infinityBits ∧
      (Magnitude.ofBits (Magnitude.nearest n 1)).value = n by
    rw [integral, if_pos finite, value, size_ofRatio _ rounded.1]
    refine ⟨isFinite_iff.mpr ?_, rounded.2⟩
    rw [ofRatio, sizeBits_ofSizeBits _ rounded.1.le]
    exact rounded.1
  by_cases whole : 0 ≤ (magnitude x).exponent
  · have one : (magnitude x).denominator = 1 := by
      have none : (-(magnitude x).exponent).toNat = 0 := by omega
      exact congrArg (Nat.pow 2) none
    have same := Magnitude.nearest_ofBits below
    have kept := halfEven_mul Nat.one_pos (magnitude x).numerator
    rw [Nat.mul_one] at kept
    rw [one, kept] at n_eq
    change Magnitude.nearest (magnitude x).numerator (magnitude x).denominator = _ at same
    rw [one, ← n_eq] at same
    rw [same]
    refine ⟨below, ?_⟩
    change (magnitude x).value = n
    rw [Magnitude.value, one, Nat.cast_one, div_one, n_eq]
  · apply nearest_whole
    have none : (magnitude x).exponent.toNat = 0 := by omega
    have numerator : (magnitude x).numerator = (magnitude x).mantissa := by
      rw [Magnitude.numerator, none]
      exact Nat.mul_one _
    have short : (magnitude x).mantissa < 2 ^ 53 := by
      rcases Nat.eq_zero_or_pos (sizeBits x) with zero | some
      · rw [magnitude, zero]
        decide
      · exact (Magnitude.ofBits_cases below some).2.1
    have two : 2 ≤ (magnitude x).denominator := by
      have places : 1 ≤ (-(magnitude x).exponent).toNat := by omega
      exact Nat.pow_le_pow_right Nat.two_pos places
    have half : n ≤ 2 ^ 52 := by
      rw [n_eq, numerator]
      exact halfEven_le (by omega)
    omega

theorem integral_size_le (finite : x.isFinite = true) :
    size (integral .halfEven x) ≤ size x + 1 / 2 := by
  rw [(integral_size finite).2]
  have error := (abs_le.mp
    (Magnitude.halfEven_error (denominator_pos (magnitude x)) (magnitude x).numerator)).2
  rw [size, Magnitude.value]
  linarith

end Binary64

end CalcScript
