import CalcScript.Builtin
import CalcScript.Proofs.Integers

set_option autoImplicit false

namespace CalcScript

namespace Word

/-- No multiple of the scale is nearer to `n`. Halfway between two of them the quotient is even. -/
structure NearestQuotient (scale n q : Int) : Prop where
  nearest : ∀ p, (n - q * scale).natAbs ≤ (n - p * scale).natAbs
  even : 2 * (n - q * scale).natAbs = scale → Even q

namespace NearestQuotient

variable {scale n q q' : Int}

theorem mul_succ_le (positive : 0 < scale) (lt : q < q') : q * scale + scale ≤ q' * scale := by
  have le : (q + 1) * scale ≤ q' * scale :=
    Int.mul_le_mul_of_nonneg_right (by omega) (Int.le_of_lt positive)
  rwa [Int.add_mul, Int.one_mul] at le

theorem of_half (positive : 0 < scale) (half : 2 * (n - q * scale).natAbs ≤ scale)
    (even : 2 * (n - q * scale).natAbs = scale → Even q) : NearestQuotient scale n q := by
  refine ⟨fun p => ?_, even⟩
  rcases Int.lt_trichotomy p q with below | rfl | above
  · have apart := mul_succ_le positive below
    omega
  · exact Nat.le_refl _
  · have apart := mul_succ_le positive above
    omega

theorem half (positive : 0 < scale) (near : NearestQuotient scale n q) :
    2 * (n - q * scale).natAbs ≤ scale := by
  have above := near.nearest (q + 1)
  have below := near.nearest (q - 1)
  rw [Int.add_mul, Int.one_mul] at above
  rw [Int.sub_mul, Int.one_mul] at below
  omega

theorem not_lt (positive : 0 < scale) (near : NearestQuotient scale n q)
    (near' : NearestQuotient scale n q') : ¬ q < q' := by
  intro lt
  have half := near.half positive
  have half' := near'.half positive
  have apart := mul_succ_le positive lt
  -- Both are half the scale away, so they are neighbours, and one of two neighbours is odd.
  have next : q' = q + 1 := by
    by_contra other
    have further := mul_succ_le positive (show q + 1 < q' by omega)
    rw [Int.add_mul, Int.one_mul] at further
    omega
  have even := Int.even_iff.mp (near.even (by omega))
  have even' := Int.even_iff.mp (near'.even (by omega))
  omega

theorem unique (positive : 0 < scale) (near : NearestQuotient scale n q)
    (near' : NearestQuotient scale n q') : q = q' :=
  Int.le_antisymm (Int.not_lt.mp (near'.not_lt positive near))
    (Int.not_lt.mp (near.not_lt positive near'))

end NearestQuotient

def nearestQuotient (n scale : Int) : Int :=
  if scale < 2 * (n % scale) ∨ (2 * (n % scale) = scale ∧ n / scale % 2 ≠ 0) then n / scale + 1
  else n / scale

theorem nearestQuotient_nearest {scale : Int} (positive : 0 < scale) (n : Int) :
    NearestQuotient scale n (nearestQuotient n scale) := by
  have split := Int.mul_ediv_add_emod n scale
  rw [Int.mul_comm] at split
  have low := Int.emod_nonneg n positive.ne'
  have high := Int.emod_lt_of_pos n positive
  unfold nearestQuotient
  split
  · next up =>
    refine .of_half positive ?_ fun tie => Int.even_iff.mpr ?_
    · rw [Int.add_mul, Int.one_mul]
      omega
    · rw [Int.add_mul, Int.one_mul] at tie
      omega
  · next down =>
    refine .of_half positive ?_ fun tie => Int.even_iff.mpr ?_
    · omega
    · omega

theorem nearestQuotient_eq_iff {scale n q : Int} (positive : 0 < scale) :
    nearestQuotient n scale = q ↔ NearestQuotient scale n q := by
  constructor
  · rintro rfl
    exact nearestQuotient_nearest positive n
  · exact (nearestQuotient_nearest positive n).unique positive

theorem pow_ten_le {k : Nat} (le : k ≤ 18) : (10 : Int) ^ k ≤ 10 ^ 18 :=
  pow_le_pow_right₀ (by decide) le

theorem le_pow_ten {k : Nat} (le : 19 ≤ k) : (10 : Int) ^ 19 ≤ 10 ^ k :=
  pow_le_pow_right₀ (by decide) le

theorem roundTo?_small {n : Int64} {k : Nat} (small : k ≤ 18) :
    roundTo? n k = ofInt? (nearestQuotient n.toInt (10 ^ k) * 10 ^ k) := by
  have scale : ((Nat.pow 10 k : Nat) : Int) = 10 ^ k := Int.natCast_pow 10 k
  rw [roundTo?, if_neg (by omega)]
  simp only [scale, nearestQuotient]

theorem roundTo?_large {n : Int64} {k : Nat} (large : 18 < k) : roundTo? n k = some 0 := by
  rw [roundTo?, if_pos large]

/-- Whether a word is nearer to another multiple of a power of ten than to zero, though that
multiple is no word. -/
def Overlooked (n : Int64) (k : Nat) : Prop := k = 19 ∧ 5 * 10 ^ 18 < n.toInt.natAbs

-- Of the powers of ten that are no words only the least is less than twice a word.
theorem nearest_zero {n : Int64} {k : Nat} (large : 18 < k) (seen : ¬ Overlooked n k) :
    NearestQuotient (10 ^ k) n.toInt 0 := by
  have range := bounds n
  have half : 2 * n.toInt.natAbs ≤ (10 : Int) ^ k := by
    by_cases least : k = 19
    · subst least
      have near : n.toInt.natAbs ≤ 5 * 10 ^ 18 := Nat.not_lt.mp fun far => seen ⟨rfl, far⟩
      omega
    · have more : (10 : Int) ^ 20 ≤ 10 ^ k := pow_le_pow_right₀ (by decide) (by omega)
      omega
  refine .of_half (by positivity) ?_ fun _ => Even.zero
  rwa [Int.zero_mul, Int.sub_zero]

theorem nearest_of_overlooked {n : Int64} {k : Nat} (overlooked : Overlooked n k) :
    NearestQuotient (10 ^ k) n.toInt (if n.toInt < 0 then -1 else 1) := by
  obtain ⟨rfl, far⟩ := overlooked
  have range := bounds n
  split
  · refine .of_half (by decide) (by omega) fun tie => ?_
    omega
  · refine .of_half (by decide) (by omega) fun tie => ?_
    omega

-- The rounding as a sequence of operations on words. It is nothing when an operation before the
-- last is out of range, and only the last may be refused.
def roundSteps? (n : Int64) (places : Nat) : Option (Option Int64) :=
  match ofInt? (10 ^ places) with
  | none => some (some 0)
  | some scale => do
    let quotient ← ofInt? (n.toInt / scale.toInt)
    let left ← ofInt? (n.toInt % scale.toInt)
    let twice ← ofInt? (left.toInt * 2)
    let up : Prop :=
      scale.toInt < twice.toInt ∨ (twice.toInt = scale.toInt ∧ quotient.toInt.tmod 2 ≠ 0)
    let rounded ← if up then ofInt? (quotient.toInt + 1) else some quotient
    return ofInt? (rounded.toInt * scale.toInt)

theorem quotient_bounds (n : Int64) {scale : Int} (ten : 10 ≤ scale) :
    -2 ^ 60 ≤ n.toInt / scale ∧ n.toInt / scale < 2 ^ 60 := by
  have range := bounds n
  exact ⟨Int.le_ediv_of_mul_le (by omega) (by omega), Int.ediv_lt_of_lt_mul (by omega) (by omega)⟩

theorem roundSteps?_eq {n : Int64} {k : Nat} (positive : 0 < k) :
    roundSteps? n k = some (roundTo? n k) := by
  by_cases small : k ≤ 18
  · have ten : (10 : Int) ^ 1 ≤ 10 ^ k := pow_le_pow_right₀ (by decide) positive
    have most := pow_ten_le small
    obtain ⟨scale, isScale, toScale⟩ := exists_word (n := 10 ^ k) (by omega)
    rw [roundTo?_small small, roundSteps?, isScale, ← toScale]
    rw [← toScale] at ten most
    have part := quotient_bounds n (show 10 ≤ scale.toInt by omega)
    have low := Int.emod_nonneg n.toInt (show scale.toInt ≠ 0 by omega)
    have high := Int.emod_lt_of_pos n.toInt (show 0 < scale.toInt by omega)
    obtain ⟨quotient, isQuotient, toQuotient⟩ := exists_word (n := n.toInt / scale.toInt) (by omega)
    obtain ⟨left, isLeft, toLeft⟩ := exists_word (n := n.toInt % scale.toInt) (by omega)
    obtain ⟨twice, isTwice, toTwice⟩ := exists_word (n := left.toInt * 2) (by omega)
    obtain ⟨above, isAbove, toAbove⟩ := exists_word (n := quotient.toInt + 1) (by omega)
    have odd : quotient.toInt.tmod 2 ≠ 0 ↔ n.toInt / scale.toInt % 2 ≠ 0 := by
      rw [← toQuotient, ne_eq, ne_eq, ← Int.dvd_iff_tmod_eq_zero, Int.dvd_iff_emod_eq_zero]
    simp only [isQuotient, isLeft, isTwice, isAbove, odd, Option.bind_eq_bind, Option.bind_some]
    unfold nearestQuotient
    split
    · next up =>
      rw [if_pos (by omega)]
      simp only [Option.pure_def, toAbove, toQuotient]
    · next down =>
      rw [if_neg (by omega)]
      simp only [Option.pure_def, toQuotient]
  · have out : ofInt? (10 ^ k) = none := by
      have large := le_pow_ten (show 19 ≤ k by omega)
      exact ofInt?_eq_none_iff_pow.mpr (by omega)
    rw [roundTo?_large (by omega), roundSteps?, out]

end Word

theorem Builtin.roundInt_places (n : Int64) {digits : Int} {k : Nat} (pos : Position)
    (positive : 0 < k) (places : digits = -k) :
    Builtin.roundInt n digits pos =
      match Word.roundTo? n k with
      | some m => .ok m
      | none => .error (.overflow pos) := by
  obtain rfl : k = digits.natAbs := by omega
  rw [roundInt]
  exact if_neg (by omega)

open Word in
/-- A whole number rounded at places before the point is the nearest multiple, which is refused when
it is no word, and nothing before that overflows. -/
theorem roundInt_nearest_multiple (n digits : Int64) (pos : Position) :
    Builtin.numeric .round [.int n, .int digits] pos =
      (Builtin.roundInt n digits.toInt pos).map .int ∧
    (0 ≤ digits.toInt → Builtin.roundInt n digits.toInt pos = .ok n) ∧
    ∀ k : Nat, 0 < k → digits.toInt = -k →
      roundSteps? n k = some (roundTo? n k) ∧
      (∃! q, NearestQuotient (10 ^ k) n.toInt q) ∧
      ∀ q, NearestQuotient (10 ^ k) n.toInt q →
        (¬ Overlooked n k →
          (∀ m, Builtin.roundInt n digits.toInt pos = .ok m ↔ m.toInt = q * 10 ^ k) ∧
          (Builtin.roundInt n digits.toInt pos = .error (.overflow pos) ↔
            q * 10 ^ k < -2 ^ 63 ∨ 2 ^ 63 ≤ q * 10 ^ k)) ∧
        (Overlooked n k →
          Builtin.roundInt n digits.toInt pos = .ok 0 ∧
          (q * 10 ^ k < -2 ^ 63 ∨ 2 ^ 63 ≤ q * 10 ^ k)) := by
  refine ⟨?_, fun behind => ?_, fun k positive places => ⟨roundSteps?_eq positive, ?_, ?_⟩⟩
  · rw [Builtin.numeric]
    cases Builtin.roundInt n digits.toInt pos <;> rfl
  · rw [Builtin.roundInt, if_pos behind]
  · have nearest : NearestQuotient (10 ^ k) n.toInt _ :=
      nearestQuotient_nearest (by positivity) n.toInt
    exact ⟨_, nearest, fun p near => near.unique (by positivity) nearest⟩
  · intro q near
    rw [Builtin.roundInt_places n pos positive places]
    constructor
    · intro seen
      have eq : roundTo? n k = ofInt? (q * 10 ^ k) := by
        by_cases small : k ≤ 18
        · rw [roundTo?_small small, (nearestQuotient_eq_iff (by positivity)).mpr near]
        · have zero := near.unique (by positivity) (nearest_zero (by omega) seen)
          rw [roundTo?_large (by omega), zero, Int.zero_mul]
          rfl
      rw [eq, ← ofInt?_eq_none_iff_pow]
      simp only [← ofInt?_eq_some_iff (n := q * 10 ^ k)]
      cases ofInt? (q * 10 ^ k) <;> simp
    · intro overlooked
      have q_eq := near.unique (by positivity) (nearest_of_overlooked overlooked)
      obtain ⟨rfl, far⟩ := overlooked
      rw [roundTo?_large (by omega), q_eq]
      refine ⟨rfl, ?_⟩
      split <;> omega

open Word in
theorem roundInt_nearest_multiple_at_limits :
    Builtin.roundInt (-2500) (-3) .start = .ok (-2000) ∧
    Builtin.roundInt Int64.maxValue (-1) .start = .error (.overflow .start) ∧
    Builtin.roundInt Int64.minValue (-19) .start = .ok 0 := by
  have thousands := (roundInt_nearest_multiple (-2500) (-3) .start).2.2 3 (by decide) rfl
  have tens := (roundInt_nearest_multiple Int64.maxValue (-1) .start).2.2 1 (by decide) rfl
  have beyond := (roundInt_nearest_multiple Int64.minValue (-19) .start).2.2 19 (by decide) rfl
  have tie : NearestQuotient (10 ^ 3) (-2500 : Int64).toInt (-2) :=
    .of_half (by decide) (by decide) fun _ => ⟨-1, rfl⟩
  have above : NearestQuotient (10 ^ 1) Int64.maxValue.toInt 922337203685477581 :=
    .of_half (by decide) (by decide) fun half => absurd half (by decide)
  have seen {n : Int64} {k : Nat} (other : k ≠ 19) : ¬ Overlooked n k := fun h => other h.1
  have overlooked : Overlooked Int64.minValue 19 := ⟨rfl, by decide⟩
  refine ⟨?_, ?_, ?_⟩
  · exact (((thousands.2.2 _ tie).1 (seen (by decide))).1 _).mpr rfl
  · exact ((tens.2.2 _ above).1 (seen (by decide))).2.mpr (by decide)
  · exact ((beyond.2.2 _ (nearest_of_overlooked overlooked)).2 overlooked).1

open Word in
theorem roundInt_overlooks :
    NearestQuotient (10 ^ 19) (9000000000000000000 : Int64).toInt 1 ∧
    2 ^ 63 ≤ (1 : Int) * 10 ^ 19 ∧
    Builtin.roundInt 9000000000000000000 (-19) .start = .ok 0 :=
  ⟨nearest_of_overlooked ⟨rfl, by decide⟩, by decide, rfl⟩

end CalcScript
