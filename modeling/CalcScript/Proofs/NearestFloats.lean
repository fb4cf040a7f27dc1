import CalcScript.Number.Decimal
import Mathlib

set_option autoImplicit false

namespace CalcScript

section

variable {num den k : Nat}

theorem halfEven_scale (positive : 0 < k) (num den : Nat) :
    halfEven (num * k) (den * k) = halfEven num den := by
  have twice : 2 * (num % den * k) = 2 * (num % den) * k := (Nat.mul_assoc _ _ _).symm
  simp only [halfEven, Nat.mul_div_mul_right num den positive, Nat.mul_mod_mul_right, twice,
    Nat.mul_lt_mul_right positive, Nat.mul_left_inj positive.ne']

theorem halfEven_mul (positive : 0 < den) (n : Nat) : halfEven (n * den) den = n := by
  have up : ¬ (den < 2 * 0 ∨ 2 * 0 = den ∧ n % 2 = 1) := by omega
  simp only [halfEven, Nat.mul_div_cancel n positive, Nat.mul_mod_left, if_neg up]

theorem div_le_halfEven (num den : Nat) : num / den ≤ halfEven num den := by
  simp only [halfEven]
  split
  · exact Nat.le_succ _
  · exact Nat.le_refl _

theorem halfEven_le {n : Nat} (below : num < n * den) : halfEven num den ≤ n := by
  have whole : num / den < n := Nat.div_lt_of_lt_mul (by rwa [Nat.mul_comm])
  simp only [halfEven]
  split <;> omega

theorem le_halfEven {n : Nat} (positive : 0 < den) (above : n * den ≤ num) : n ≤ halfEven num den :=
  Nat.le_trans ((Nat.le_div_iff_mul_le positive).mpr above) (div_le_halfEven num den)

theorem halfEven_small (small : 2 * num < den) : halfEven num den = 0 := by
  have below : num < den := by omega
  simp only [halfEven, Nat.div_eq_of_lt below, Nat.mod_eq_of_lt below]
  exact if_neg (by omega)

end

namespace Magnitude

section

variable {num den : Nat}

def order (num den : Nat) : Int := Int.log 2 ((num : ℚ) / den)

theorem order_lt_iff (some : 0 < num) (positive : 0 < den) (k : Nat) (n : Int) :
    order num den < k + n ↔ num * 2 ^ (-n).toNat < 2 ^ k * (den * 2 ^ n.toNat) := by
  have ratio : (0 : ℚ) < num / den := by positivity
  have power : (2 : ℚ) ^ (k + n) = 2 ^ k * (2 ^ n.toNat / 2 ^ (-n).toNat) := by
    rw [zpow_add₀ two_ne_zero, ← zpow_natCast, ← zpow_natCast, ← zpow_natCast,
      ← zpow_sub₀ two_ne_zero, Int.toNat_sub_toNat_neg]
  have bound := @Int.lt_zpow_iff_log_lt ℚ _ _ _ _ 2 Nat.one_lt_two (k + n) _ ratio
  rw [Nat.cast_ofNat, power] at bound
  rw [order, ← bound, ← mul_div_assoc, div_lt_div_iff₀ (by positivity) (by positivity)]
  norm_cast
  rw [Nat.mul_right_comm, Nat.mul_assoc]

theorem order_scale {k : Nat} (positive : 0 < k) (num den : Nat) :
    order (num * k) (den * k) = order num den := by
  have some : (k : ℚ) ≠ 0 := by exact_mod_cast positive.ne'
  rw [order, order, Nat.cast_mul, Nat.cast_mul, mul_div_mul_right _ _ some]

theorem exponentOf_eq (some : 0 < num) (positive : 0 < den) :
    exponentOf num den = max (order num den - 52) (-1074) := by
  let low : Int := num.log2 - den.log2 - 53
  have fits (k : Nat) := order_lt_iff some positive k low
  have exponents (k : Nat) :
      (num.log2 : Int) + (-low).toNat + k = 53 + den.log2 + k + low.toNat := by
    have split := Int.toNat_sub_toNat_neg low
    omega
  have above : order num den < (54 : Nat) + low := by
    rw [fits]
    calc num * 2 ^ (-low).toNat
        < 2 ^ (num.log2 + 1) * 2 ^ (-low).toNat :=
          Nat.mul_lt_mul_of_pos_right Nat.lt_log2_self (Nat.two_pow_pos _)
      _ = 2 ^ 54 * (2 ^ den.log2 * 2 ^ low.toNat) := by
          rw [← Nat.pow_add, ← Nat.pow_add, ← Nat.pow_add]
          congr 1
          have exponents := exponents 1
          omega
      _ ≤ 2 ^ 54 * (den * 2 ^ low.toNat) :=
          Nat.mul_le_mul_left _ (Nat.mul_le_mul_right _ (Nat.log2_self_le positive.ne'))
  have below : ¬ order num den < (52 : Nat) + low := by
    rw [fits, Nat.not_lt]
    calc 2 ^ 52 * (den * 2 ^ low.toNat)
        ≤ 2 ^ 52 * (2 ^ (den.log2 + 1) * 2 ^ low.toNat) :=
          Nat.mul_le_mul_left _ (Nat.mul_le_mul_right _ (Nat.le_of_lt Nat.lt_log2_self))
      _ = 2 ^ num.log2 * 2 ^ (-low).toNat := by
          rw [← Nat.pow_add, ← Nat.pow_add, ← Nat.pow_add]
          congr 1
          have exponents := exponents 0
          omega
      _ ≤ num * 2 ^ (-low).toNat := Nat.mul_le_mul_right _ (Nat.log2_self_le some.ne')
  have half := fits 53
  change max (if num * 2 ^ (-low).toNat < 2 ^ 53 * (den * 2 ^ low.toNat) then low else low + 1)
    (-1074) = _
  split
  · next within =>
    have under := half.mpr within
    omega
  · next beyond =>
    have least := mt half.mp beyond
    omega

-- With its exponent a ratio has at most 53 bits, and fewer only with the least one.
theorem mantissa_bounds (some : 0 < num) (positive : 0 < den) :
    halfEven (num * 2 ^ (-exponentOf num den).toNat) (den * 2 ^ (exponentOf num den).toNat) ≤
        2 ^ 53 ∧
      (2 ^ 52 ≤ halfEven (num * 2 ^ (-exponentOf num den).toNat)
          (den * 2 ^ (exponentOf num den).toNat) ∨
        exponentOf num den = -1074) := by
  have exponent := exponentOf_eq some positive
  generalize exponentOf num den = e at exponent ⊢
  have unit : 0 < den * 2 ^ e.toNat := Nat.mul_pos positive (Nat.two_pow_pos _)
  have below := (order_lt_iff some positive 53 e).mp (by omega)
  refine ⟨halfEven_le below, ?_⟩
  by_cases least : e = -1074
  · exact .inr least
  · have above := mt (order_lt_iff some positive 52 e).mpr (by omega)
    exact .inl (le_halfEven unit (Nat.not_lt.mp above))

theorem exponentOf_scale {k : Nat} (positive : 0 < k) (some : 0 < num) (whole : 0 < den) :
    exponentOf (num * k) (den * k) = exponentOf num den := by
  rw [exponentOf_eq (Nat.mul_pos some positive) (Nat.mul_pos whole positive),
    exponentOf_eq some whole, order_scale positive]

end

section

variable {num den num' den' : Nat}

theorem nearest_of_pos (some : 0 < num) (den : Nat) :
    nearest num den = min infinityBits ((exponentOf num den + 1074).toNat * 2 ^ 52 +
      halfEven (num * 2 ^ (-exponentOf num den).toNat) (den * 2 ^ (exponentOf num den).toNat)) :=
  if_neg some.ne'

theorem nearest_scale {k : Nat} (positive : 0 < k) (whole : 0 < den) (num : Nat) :
    nearest (num * k) (den * k) = nearest num den := by
  by_cases none : num = 0
  · simp [nearest, none]
  · have some := Nat.pos_of_ne_zero none
    have apart (a : Nat) : num * k * a = num * a * k := Nat.mul_right_comm _ _ _
    have apart' (a : Nat) : den * k * a = den * a * k := Nat.mul_right_comm _ _ _
    have none' : ¬ num * k = 0 := (Nat.mul_pos some positive).ne'
    simp only [nearest, if_neg none, if_neg none', exponentOf_scale positive some whole, apart,
      apart', halfEven_scale positive]

theorem nearest_congr (positive : 0 < den) (positive' : 0 < den')
    (same : num * den' = num' * den) : nearest num den = nearest num' den' := by
  rw [← nearest_scale positive' positive, same, Nat.mul_comm den den',
    nearest_scale positive positive']

theorem nearest_huge {k : Nat} (large : 1024 ≤ k) (positive : 0 < den)
    (huge : 2 ^ k * den ≤ num) : nearest num den = infinityBits := by
  have some : 0 < num := Nat.lt_of_lt_of_le (Nat.mul_pos (Nat.two_pow_pos k) positive) huge
  have far : ¬ order num den < k + 0 := by
    rw [order_lt_iff some positive]
    simpa using huge
  let e := exponentOf num den
  have exponent : e = order num den - 52 := by
    have whole := exponentOf_eq some positive
    omega
  have least : ¬ order num den < (52 : Nat) + e := by omega
  rw [order_lt_iff some positive, Nat.not_lt] at least
  have quotient := (Nat.le_div_iff_mul_le (Nat.mul_pos positive (Nat.two_pow_pos _))).mpr least
  have mantissa := Nat.le_trans quotient (div_le_halfEven _ _)
  have bits : 2047 * 2 ^ 52 ≤ (e + 1074).toNat * 2 ^ 52 +
      halfEven (num * 2 ^ (-e).toNat) (den * 2 ^ e.toNat) := by omega
  rw [nearest, if_neg some.ne']
  exact Nat.min_eq_left bits

theorem nearest_tiny {k : Nat} (large : 1074 ≤ k) (tiny : 2 * (num * 2 ^ k) < den) :
    nearest num den = 0 := by
  by_cases none : num = 0
  · simp [nearest, none]
  · have some := Nat.pos_of_ne_zero none
    have positive : 0 < den := Nat.lt_of_le_of_lt (Nat.zero_le _) tiny
    have near : order num den < (0 : Nat) + -k := by
      rw [order_lt_iff some positive]
      simp
      omega
    let e := exponentOf num den
    have exponent : e = -1074 := by
      have whole := exponentOf_eq some positive
      omega
    have power : 2 ^ (-e).toNat ≤ 2 ^ k := Nat.pow_le_pow_right Nat.two_pos (by omega)
    have none' : e.toNat = 0 := by omega
    have mantissa : halfEven (num * 2 ^ (-e).toNat) (den * 2 ^ e.toNat) = 0 := by
      refine halfEven_small ?_
      rw [none', Nat.pow_zero, Nat.mul_one]
      exact Nat.lt_of_le_of_lt (Nat.mul_le_mul_left 2 (Nat.mul_le_mul_left num power)) tiny
    have bits : (e + 1074).toNat * 2 ^ 52 +
        halfEven (num * 2 ^ (-e).toNat) (den * 2 ^ e.toNat) = 0 := by omega
    rw [nearest, if_neg none]
    exact (congrArg (min infinityBits) bits).trans (Nat.min_eq_right (Nat.zero_le _))

-- The mantissa and the exponent of a float that is not zero. Only with the least exponent the
-- mantissa has fewer bits.
theorem ofBits_cases {bits : Nat} (finite : bits < infinityBits) (nonzero : 0 < bits) :
    let m := ofBits bits
    0 < m.mantissa ∧ m.mantissa < 2 ^ 53 ∧ (m.exponent = -1074 ∨ 2 ^ 52 ≤ m.mantissa) ∧
      -1074 ≤ m.exponent ∧ (m.exponent + 1074).toNat * 2 ^ 52 + m.mantissa = bits := by
  intro m
  have bounded : bits < 2047 * 2 ^ 52 := finite
  have mantissa : m.mantissa = bits - (max 1 (bits / 2 ^ 52) - 1) * 2 ^ 52 := rfl
  have exponent : m.exponent = (max 1 (bits / 2 ^ 52) : Nat) - 1075 := rfl
  omega

theorem nearest_ofBits {bits : Nat} (finite : bits < infinityBits) :
    nearest (ofBits bits).numerator (ofBits bits).denominator = bits := by
  by_cases none : bits = 0
  · subst none
    decide
  · obtain ⟨some, small, full, least, whole⟩ := ofBits_cases finite (Nat.pos_of_ne_zero none)
    generalize ofBits bits = m at *
    have scale : m.numerator * 2 ^ (-m.exponent).toNat =
        m.mantissa * (m.denominator * 2 ^ m.exponent.toNat) := by
      rw [numerator, denominator, Nat.mul_assoc, Nat.mul_comm (Nat.pow _ _)]
      rfl
    have positive : 0 < m.denominator := Nat.two_pow_pos _
    have unit : 0 < m.denominator * 2 ^ m.exponent.toNat := Nat.mul_pos positive (Nat.two_pow_pos _)
    have some' : 0 < m.numerator := Nat.mul_pos some (Nat.two_pow_pos _)
    have order (k : Nat) : order m.numerator m.denominator < k + m.exponent ↔
        m.mantissa < 2 ^ k := by
      rw [order_lt_iff some' positive, scale, Nat.mul_lt_mul_right unit]
    have above := (order 53).mpr small
    have below := order 52
    have exponent : exponentOf m.numerator m.denominator = m.exponent := by
      rw [exponentOf_eq some' positive]
      omega
    have mantissa := halfEven_mul unit m.mantissa
    rw [← scale] at mantissa
    rw [nearest, if_neg some'.ne']
    simp only [exponent]
    change min infinityBits ((m.exponent + 1074).toNat * 2 ^ 52 + halfEven
      (m.numerator * 2 ^ (-m.exponent).toNat) (m.denominator * 2 ^ m.exponent.toNat)) = bits
    rw [mantissa, whole]
    exact Nat.min_eq_right (Nat.le_of_lt finite)

end

end Magnitude

namespace Decimal

variable {d : Decimal} {bits : Nat}

theorem denominator_pos (d : Decimal) : 0 < d.denominator := Nat.pow_pos (by decide)

theorem two_pow_le (n : Nat) : 2 ^ (3 * n) ≤ 10 ^ n := by
  rw [Nat.pow_mul]
  exact Nat.pow_le_pow_left (by decide) n

theorem nearest_large (nonzero : 0 < d.digits) (large : 400 < d.exponent) :
    Magnitude.nearest d.numerator d.denominator = Magnitude.infinityBits := by
  have none : (-d.exponent).toNat = 0 := by omega
  have whole : d.denominator = 1 := congrArg (Nat.pow 10) none
  refine Magnitude.nearest_huge (k := 3 * d.exponent.toNat) (by omega) (denominator_pos d) ?_
  rw [whole, Nat.mul_one]
  exact Nat.le_trans (two_pow_le _) (Nat.le_mul_of_pos_left _ nonzero)

theorem nearest_small (small : d.exponent < -(400 + d.digits.log2 : Int)) :
    Magnitude.nearest d.numerator d.denominator = 0 := by
  let n := (-d.exponent).toNat
  have none : d.exponent.toNat = 0 := by omega
  have whole : d.numerator = d.digits := by
    rw [numerator, none]
    exact Nat.mul_one _
  refine Magnitude.nearest_tiny (k := 3 * n - d.digits.log2 - 2) (by omega) ?_
  rw [whole]
  calc 2 * (d.digits * 2 ^ (3 * n - d.digits.log2 - 2))
      < 2 * (2 ^ (d.digits.log2 + 1) * 2 ^ (3 * n - d.digits.log2 - 2)) :=
        Nat.mul_lt_mul_of_pos_left
          (Nat.mul_lt_mul_of_pos_right Nat.lt_log2_self (Nat.two_pow_pos _)) Nat.two_pos
    _ = 2 ^ (3 * n) := by
        rw [← Nat.pow_add, ← Nat.pow_succ']
        congr 1
        omega
    _ ≤ d.denominator := two_pow_le n

theorem sizeBits_eq_nearest (d : Decimal) :
    d.sizeBits = Magnitude.nearest d.numerator d.denominator := by
  unfold sizeBits
  split
  · next none => simp [numerator, none, Magnitude.nearest]
  · next some =>
    split
    · next large => exact (nearest_large (Nat.pos_of_ne_zero some) large).symm
    · split
      · next small => exact (nearest_small small).symm
      · rfl

theorem sizeBits_shift (q : Nat) (e : Int) : sizeBits ⟨10 * q, e⟩ = sizeBits ⟨q, e + 1⟩ := by
  rw [sizeBits_eq_nearest, sizeBits_eq_nearest]
  refine Magnitude.nearest_congr (denominator_pos _) (denominator_pos _) ?_
  have powers :
      10 * 10 ^ e.toNat * 10 ^ (-(e + 1)).toNat = 10 ^ (e + 1).toNat * 10 ^ (-e).toNat := by
    rw [← Nat.pow_succ', ← Nat.pow_add, ← Nat.pow_add]
    congr 1
    omega
  calc 10 * q * 10 ^ e.toNat * 10 ^ (-(e + 1)).toNat
      = q * (10 * 10 ^ e.toNat * 10 ^ (-(e + 1)).toNat) := by ring
    _ = q * 10 ^ (e + 1).toNat * 10 ^ (-e).toNat := by rw [powers, Nat.mul_assoc]

theorem sizeBits_strip (d : Decimal) : d.strip.sizeBits = d.sizeBits := by
  fun_induction strip d with
  | case1 d ends ih =>
    rw [ih, ← sizeBits_shift, Nat.mul_div_cancel' (Nat.dvd_of_mod_eq_zero ends.2)]
  | case2 d other => rfl

theorem sizeBits_exact (finite : bits < Magnitude.infinityBits) :
    (exact (.ofBits bits)).sizeBits = bits := by
  have near := Magnitude.nearest_ofBits finite
  generalize Magnitude.ofBits bits = m at near ⊢
  have numerator : (exact m).numerator = m.numerator * 5 ^ (-m.exponent).toNat := by
    have none : (min 0 m.exponent).toNat = 0 := by omega
    simp [Decimal.numerator, exact, none]
  have denominator : (exact m).denominator = 5 ^ (-m.exponent).toNat * m.denominator := by
    have same : (-min 0 m.exponent).toNat = (-m.exponent).toNat := by omega
    simp [Decimal.denominator, exact, same, Magnitude.denominator, ← Nat.mul_pow]
  have scale : (exact m).numerator * m.denominator = m.numerator * (exact m).denominator := by
    rw [numerator, denominator, Nat.mul_assoc]
  have positive : 0 < m.denominator := Nat.two_pow_pos _
  rw [sizeBits_eq_nearest, Magnitude.nearest_congr (denominator_pos _) positive scale, near]

theorem sizeBits_onGrid {exponent : Int} (found : onGrid? bits exponent = some d) :
    d.sizeBits = bits := by
  simp only [onGrid?] at found
  split at found
  · next fits => exact Option.some.inj found ▸ fits.1
  · split at found
    · next fits => exact Option.some.inj found ▸ fits
    · nomatch found

theorem sizeBits_shortest (finite : bits < Magnitude.infinityBits) :
    (shortest bits).sizeBits = bits := by
  rw [shortest, sizeBits_strip]
  cases found : (List.range 17).findSome? fun n : Nat =>
      onGrid? bits (places (.ofBits bits) - 1 - n) with
  | none => exact sizeBits_exact finite
  | some d =>
    obtain ⟨n, -, hit⟩ := List.exists_of_findSome?_eq_some found
    exact sizeBits_onGrid hit

end Decimal

end CalcScript
