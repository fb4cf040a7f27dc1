import CalcScript.Number.Word
import Mathlib.Algebra.Order.Ring.Int
import Mathlib.Algebra.Ring.Parity
import Mathlib.Tactic.Ring

set_option autoImplicit false

namespace CalcScript.Word

theorem bounds (w : Int64) : -2 ^ 63 ≤ w.toInt ∧ w.toInt < 2 ^ 63 :=
  ⟨w.le_toInt, w.toInt_lt⟩

theorem ofInt?_eq_none_iff_pow {n : Int} : ofInt? n = none ↔ n < -2 ^ 63 ∨ 2 ^ 63 ≤ n := by
  have low : Int64.minValue.toInt = -2 ^ 63 := rfl
  have high : Int64.maxValue.toInt = 2 ^ 63 - 1 := rfl
  rw [ofInt?_eq_none_iff, low, high]
  omega

theorem exists_word {n : Int} (fits : -2 ^ 63 ≤ n ∧ n < 2 ^ 63) :
    ∃ w, ofInt? n = some w ∧ w.toInt = n := by
  cases found : ofInt? n with
  | some w => exact ⟨w, rfl, ofInt?_eq_some_iff.mp found⟩
  | none => exact absurd (ofInt?_eq_none_iff_pow.mp found) (by omega)

theorem toInt_eq_zero {w : Int64} : w.toInt = 0 ↔ w = 0 :=
  ⟨fun h => Int64.toInt_inj.mp h, fun h => h ▸ rfl⟩

theorem bmod_of_fits {n : Int} (fits : -2 ^ 63 ≤ n ∧ n < 2 ^ 63) : n.bmod (2 ^ 64) = n :=
  Int.bmod_eq_of_le (by omega) (by omega)

theorem floor_of_rest {m n q rest : Int} (split : rest + n * q = m)
    (small : 0 ≤ rest ∧ rest < n ∨ n < rest ∧ rest ≤ 0) : m.fdiv n = q ∧ m.fmod n = rest := by
  rcases small with ⟨low, high⟩ | ⟨low, high⟩
  · exact (Int.fdiv_fmod_unique (by omega)).mpr ⟨split, low, high⟩
  · exact (Int.fdiv_fmod_unique' (by omega)).mpr ⟨split, low, high⟩

theorem strays_iff {rest r : Int64} :
    strays rest r = true ↔ rest.toInt ≠ 0 ∧ ¬(rest.toInt < 0 ↔ r.toInt < 0) := by
  simp [strays, toInt_eq_zero, Int64.lt_iff_toInt_lt, Int64.toInt_zero]

variable {l r : Int64}

theorem floor_eq (nonzero : r ≠ 0) :
    l.toInt.fdiv r.toInt =
      (if strays (l % r) r then l.toInt.tdiv r.toInt - 1 else l.toInt.tdiv r.toInt) ∧
    l.toInt.fmod r.toInt =
      if strays (l % r) r then (l % r).toInt + r.toInt else (l % r).toInt := by
  have divisor : r.toInt ≠ 0 := mt toInt_eq_zero.mp nonzero
  have split := Int.tmod_add_mul_tdiv l.toInt r.toInt
  have size : (l.toInt.tmod r.toInt).natAbs < r.toInt.natAbs := by
    rw [Int.natAbs_tmod]
    exact Nat.mod_lt _ (by omega)
  rw [← Int64.toInt_mod] at split size
  by_cases far : strays (l % r) r = true
  · have signs := strays_iff.mp far
    rw [if_pos far, if_pos far]
    refine floor_of_rest ?_ (by omega)
    rw [Int.mul_sub, Int.mul_one]
    omega
  · have signs := mt strays_iff.mpr far
    rw [if_neg far, if_neg far]
    exact floor_of_rest split (by omega)

-- A rest leaves room below the quotient, as the divisor is not 1 or -1 then.
theorem tdiv_room (rest : (l % r).toInt ≠ 0) : (l.toInt.tdiv r.toInt).natAbs ≤ 2 ^ 62 := by
  have range := bounds l
  have wide : 2 ≤ r.toInt.natAbs ∨ r.toInt.natAbs = 0 := by
    by_contra narrow
    have unit : r.toInt.natAbs = 1 := by omega
    apply rest
    rw [Int64.toInt_mod, ← Int.natAbs_eq_zero, Int.natAbs_tmod, unit, Nat.mod_one]
  rw [Int.natAbs_tdiv]
  rcases wide with wide | zero
  · calc l.toInt.natAbs / r.toInt.natAbs
      _ ≤ l.toInt.natAbs / 2 := Nat.div_le_div_left wide (by decide)
      _ ≤ 2 ^ 62 := by omega
  · rw [zero]
    exact (Nat.div_zero _).trans_le (Nat.zero_le _)

theorem divide?_eq (nonzero : r ≠ 0) : divide? l r = ofInt? (l.toInt.tdiv r.toInt) := by
  unfold divide?
  split
  · next undefined =>
    obtain zero | ⟨rfl, rfl⟩ := undefined
    · exact absurd zero nonzero
    · rfl
  · next defined =>
    refine (ofInt?_eq_some_iff.mpr ?_).symm
    by_cases least : l = Int64.minValue
    · exact Int64.toInt_div_of_ne_right l r fun negative => defined (.inr ⟨least, negative⟩)
    · exact Int64.toInt_div_of_ne_left l r least

theorem floorDivide?_eq (nonzero : r ≠ 0) :
    floorDivide? l r = ofInt? (l.toInt.fdiv r.toInt) := by
  unfold floorDivide?
  rw [divide?_eq nonzero, (floor_eq nonzero).1]
  by_cases far : strays (l % r) r = true
  · have room := tdiv_room (strays_iff.mp far).1
    obtain ⟨q, found, exact⟩ := exists_word (n := l.toInt.tdiv r.toInt) (by omega)
    have lower : (q - 1).toInt = l.toInt.tdiv r.toInt - 1 := by
      rw [Int64.toInt_sub, exact, Int64.toInt_one]
      exact bmod_of_fits (by omega)
    rw [found, if_pos far, ← lower, ofInt?_toInt]
    simp [far]
  · rw [if_neg far]
    simp [far]

theorem toInt_floorModulo (nonzero : r ≠ 0) :
    (floorModulo l r).toInt = l.toInt.fmod r.toInt := by
  unfold floorModulo
  rw [(floor_eq nonzero).2]
  by_cases far : strays (l % r) r = true
  · have signs := (strays_iff.mp far).2
    have range := bounds (l % r)
    have range' := bounds r
    simp only [far, if_true]
    rw [Int64.toInt_add]
    exact bmod_of_fits (by omega)
  · simp only [far]
    rfl

theorem ofInt?_mul_eq_none {n p : Int} (out : ofInt? n = none) (positive : 0 < p) :
    ofInt? (n * p) = none := by
  rw [ofInt?_eq_none_iff_pow] at out ⊢
  rcases out with below | above
  · have larger : n * p ≤ n * 1 := Int.mul_le_mul_of_nonpos_left (by omega) positive
    omega
  · have larger : n * 1 ≤ n * p := Int.mul_le_mul_of_nonneg_left positive (by omega)
    omega

-- `2 ^ 63` is not a square.
theorem lt_square {n : Int} (out : ofInt? (n * n) = none) : 2 ^ 63 < n * n := by
  have size : ((n.natAbs * n.natAbs : Nat) : Int) = n * n := Int.natAbs_mul_self
  have above : 2 ^ 63 ≤ n * n := by
    rcases ofInt?_eq_none_iff_pow.mp out with below | above
    · have square := Int.natCast_nonneg (n.natAbs * n.natAbs)
      omega
    · exact above
  by_contra le
  have large : 3037000500 ≤ n.natAbs := by
    by_contra small
    have bound : n.natAbs * n.natAbs ≤ 3037000499 * 3037000499 :=
      Nat.mul_le_mul (by omega) (by omega)
    omega
  have bound : 3037000500 * 3037000500 ≤ n.natAbs * n.natAbs := Nat.mul_le_mul large large
  omega

theorem mul_large_eq_none {a p : Int} (nonzero : a ≠ 0) (large : 2 ^ 63 < p) :
    ofInt? (a * p) = none := by
  rw [ofInt?_eq_none_iff_pow]
  rcases Int.lt_or_gt_of_ne nonzero with negative | positive
  · have below : a * p ≤ -1 * p := Int.mul_le_mul_of_nonneg_right (by omega) (by omega)
    omega
  · have above : 1 * p ≤ a * p := Int.mul_le_mul_of_nonneg_right (by omega) (by omega)
    omega

theorem multiply?_zero (w : Int64) : multiply? w 0 = some 0 :=
  ofInt?_eq_some_iff.mpr (Int.mul_zero _).symm

theorem powSteps?_zero (k : Nat) (positive : 0 < k) (acc : Int64) :
    powSteps? 0 acc k = some 0 := by
  induction k using Nat.strong_induction_on generalizing acc with
  | _ k ih =>
    rw [powSteps?]
    split
    · exact multiply?_zero acc
    · next more =>
      rw [multiply?_zero, multiply?_zero]
      have later := ih (k / 2) (by omega) (by omega)
      split
      · exact later 0
      · exact later acc

theorem multiplied_eq (base acc : Int64) (k : Nat) :
    (if k % 2 = 1 then multiply? acc base else some acc) =
      ofInt? (acc.toInt * base.toInt ^ (k % 2)) := by
  split
  · next odd =>
    rw [odd, Int.pow_one]
    rfl
  · next even =>
    have zero : k % 2 = 0 := by omega
    rw [zero, Int.pow_zero, Int.mul_one, ofInt?_toInt]

-- A product on the way is out of range only if the power is: what is still to be multiplied to the
-- accumulator is a square, and no multiple of a square that is out of range is in it.
theorem powSteps?_eq (k : Nat) (positive : 0 < k) {base acc : Int64} (based : base.toInt ≠ 0)
    (nonzero : acc.toInt ≠ 0) : powSteps? base acc k = ofInt? (acc.toInt * base.toInt ^ k) := by
  induction k using Nat.strong_induction_on generalizing base acc with
  | _ k ih =>
    rw [powSteps?]
    split
    · next last =>
      obtain rfl : k = 1 := by omega
      rw [Int.pow_one]
      rfl
    · next more =>
      have half : 0 < k / 2 := by omega
      have halved : acc.toInt * base.toInt ^ k =
          acc.toInt * base.toInt ^ (k % 2) * (base.toInt * base.toInt) ^ (k / 2) := by
        rw [← pow_two, ← Int.pow_mul, Int.mul_assoc, ← Int.pow_add, Nat.mod_add_div]
      have nonzero' := mul_ne_zero nonzero (pow_ne_zero (k % 2) based)
      have square' := mul_ne_zero based based
      rw [multiplied_eq, halved]
      cases taken : ofInt? (acc.toInt * base.toInt ^ (k % 2)) with
      | none =>
        refine (ofInt?_mul_eq_none taken (Int.pow_pos ?_)).symm
        exact mul_self_pos.mpr based
      | some acc' =>
        have product := ofInt?_eq_some_iff.mp taken
        rw [← product] at nonzero' ⊢
        cases square : multiply? base base with
        | none =>
          have large := lt_square square
          refine (mul_large_eq_none nonzero' (large.trans_le ?_)).symm
          exact le_self_pow₀ (by omega) half.ne'
        | some squared =>
          have value := ofInt?_eq_some_iff.mp square
          rw [← value] at square' ⊢
          exact ih (k / 2) (by omega) half square' nonzero'

theorem pow_large_eq_none {n : Int} {k : Nat} (large : 64 ≤ k) (other : 2 ≤ n.natAbs) :
    ofInt? (n ^ k) = none := by
  have size : 2 ^ 64 ≤ (n ^ k).natAbs := by
    rw [Int.natAbs_pow]
    calc 2 ^ 64 ≤ 2 ^ k := Nat.pow_le_pow_right (by omega) large
      _ ≤ n.natAbs ^ k := Nat.pow_le_pow_left other k
  exact ofInt?_eq_none_iff_pow.mpr (by omega)

theorem pow?_eq (base : Int64) (k : Nat) : pow? base k = ofInt? (base.toInt ^ k) := by
  have minus : (-1 : Int64).toInt = -1 := rfl
  unfold pow?
  split
  · split
    · next zero =>
      rw [zero, Int.pow_zero, ← Int64.toInt_one, ofInt?_toInt]
    · next positive =>
      by_cases zero : base = 0
      · rw [zero, powSteps?_zero k (by omega)]
        exact (ofInt?_eq_some_iff.mpr (zero_pow positive).symm).symm
      · have based := mt toInt_eq_zero.mp zero
        rw [powSteps?_eq k (by omega) based (by decide), Int64.toInt_one, Int.one_mul]
  · next wide =>
    have large : 2 ^ 32 ≤ k := Nat.not_lt.mp wide
    symm
    split
    · next unit =>
      rw [ofInt?_eq_some_iff]
      rcases unit with rfl | rfl
      · exact (zero_pow (by omega)).symm
      · exact (one_pow k).symm
    · next other =>
      split
      · next negative =>
        rw [ofInt?_eq_some_iff, negative, minus]
        rcases Nat.mod_two_eq_zero_or_one k with even | odd
        · rw [if_pos even, (Nat.even_iff.mpr even).neg_one_pow, Int64.toInt_one]
        · rw [if_neg (by omega), (Nat.odd_iff.mpr odd).neg_one_pow, minus]
      · next negative =>
        refine pow_large_eq_none (by omega) ?_
        rw [not_or, ← Int64.toInt_inj, ← Int64.toInt_inj, Int64.toInt_zero, Int64.toInt_one]
          at other
        rw [← Int64.toInt_inj, minus] at negative
        omega

end CalcScript.Word
