import CalcScript.Proofs.FloatSizes
import CalcScript.Proofs.Results

set_option autoImplicit false

namespace CalcScript

open Magnitude (overflowThreshold)

namespace Binary64

open Float.Model (UnpackedFloat)

variable {x : Float}

theorem isFinite_of_not (number : x.isNaN = false) (bounded : x.isInf = false) :
    x.isFinite = true := by
  change (UnpackedFloat.unpack .binary64 x.toBits.toBitVec).isNaN = false at number
  change (UnpackedFloat.unpack .binary64 x.toBits.toBitVec).isInf = false at bounded
  change (UnpackedFloat.unpack .binary64 x.toBits.toBitVec).isFinite = true
  generalize UnpackedFloat.unpack .binary64 x.toBits.toBitVec = u at number bounded ⊢
  cases u with
  | zero | finite => rfl
  | notANumber => cases number
  | infinity => cases bounded

theorem isFinite_abs (finite : x.isFinite = true) : x.abs.isFinite = true := by
  have below := sizeBits_lt finite
  rw [abs_eq, isFinite_iff, sizeBits_ofSizeBits false below.le]
  exact below

theorem isFinite_ofInt (n : Int64) : (ofInt n.toInt).isFinite = true := by
  have words : n.toInt.natAbs ≤ 2 ^ 63 := by
    have low := n.le_toInt
    have high := n.toInt_lt
    omega
  exact (isFinite_ofRatio _ Nat.one_pos (Magnitude.whole_lt_threshold words)).2

theorem isFinite_copySign_zero (x : Float) : (copySign 0 x).isFinite = true := by
  rw [copySign]
  cases isNegative x <;> decide +kernel

end Binary64

def Value.IsFiniteNumber : Value → Prop
  | .int _ => True
  | .float x => x.isFinite = true
  | _ => False

namespace Builtin

open Binary64

def RoundsBeyond (x : Float) (digits : Int) : Prop :=
  -308 ≤ digits ∧ digits < 0 ∧
    overflowThreshold ≤
      size (integral .halfEven (x / powFrom 1 10 digits.natAbs)) * size (powFrom 1 10 digits.natAbs)

section

variable {x : Float} {digits : Int} (finite : x.isFinite = true)

include finite

theorem roundFloat_isFinite (within : ¬ RoundsBeyond x digits) :
    (roundFloat x digits).isFinite = true := by
  rw [roundFloat]
  split
  · exact finite
  · next near =>
    have near : digits ≤ 308 := by
      rw [finite] at near
      simpa using near
    split
    · exact isFinite_copySign_zero x
    · next far =>
      obtain ⟨scaleFinite, one, -⟩ := scale_bounds (n := digits.natAbs) (by omega)
      dsimp only
      split
      · split
        · next scaled => exact isFinite_div (integral_size scaled).1 scaleFinite one
        · exact finite
      · next before =>
        have whole := (integral_size (isFinite_div finite scaleFinite one)).1
        refine isFinite_mul whole scaleFinite (not_le.mp fun large => within ⟨?_, ?_, large⟩)
        all_goals omega

theorem roundFloat_isInf (beyond : RoundsBeyond x digits) : (roundFloat x digits).isInf = true := by
  obtain ⟨low, high, large⟩ := beyond
  obtain ⟨scaleFinite, one, -⟩ := scale_bounds (n := digits.natAbs) (by omega)
  have whole := (integral_size (isFinite_div finite scaleFinite one)).1
  have near : ¬ (!x.isFinite || decide (308 < digits)) = true := by
    rw [finite]
    simpa using (by omega : digits ≤ 308)
  rw [roundFloat, if_neg near, if_neg (by omega)]
  dsimp only
  rw [if_neg (by omega)]
  exact isInf_mul whole scaleFinite large

-- A rounding adds half the scale, and every scale is less than what is left below infinity.
theorem RoundsBeyond.large (beyond : RoundsBeyond x digits) : 2 ^ 1023 < size x := by
  obtain ⟨low, high, large⟩ := beyond
  obtain ⟨scaleFinite, one, most⟩ := scale_bounds (n := digits.natAbs) (by omega)
  have whole := integral_size_le (isFinite_div finite scaleFinite one)
  have near := size_div_near finite scaleFinite one
  generalize powFrom 1 10 digits.natAbs = scale at *
  have positive : 0 < size scale := one_pos.trans_le one
  have ratio : 0 ≤ size x / size scale := div_nonneg (size_nonneg x) positive.le
  have place : (2 : ℚ) ^ (-53 : Int) ≤ 1 / 32 := by norm_num
  have tiny : (2 : ℚ) ^ (-1075 : Int) ≤ 1 / 32 :=
    (zpow_le_zpow_right₀ one_le_two (by decide)).trans place
  have rounded :
      size (integral .halfEven (x / scale)) ≤ size x / size scale * (33 / 32) + 17 / 32 := by
    have step := mul_le_mul_of_nonneg_left place ratio
    linarith
  have product : size (integral .halfEven (x / scale)) * size scale ≤
      size x * (33 / 32) + 17 / 32 * size scale := by
    have back : size x / size scale * size scale = size x := div_mul_cancel₀ _ positive.ne'
    calc _ ≤ (size x / size scale * (33 / 32) + 17 / 32) * size scale :=
          mul_le_mul_of_nonneg_right rounded positive.le
      _ = size x / size scale * size scale * (33 / 32) + 17 / 32 * size scale := by ring
      _ = _ := by rw [back]
  have numbers : 66 * 2 ^ 1023 + 51 * 10 ^ 308 < 64 * ((2 ^ 54 - 1) * 2 ^ 970) := by decide +kernel
  have numbers' : (66 : ℚ) * 2 ^ 1023 + 51 * 10 ^ 308 < 64 * overflowThreshold := by
    rw [overflowThreshold]
    have cast : ((2 ^ 54 - 1 : Nat) : ℚ) = 2 ^ 54 - 1 := by norm_num
    rw [← cast]
    exact_mod_cast numbers
  generalize (2 : ℚ) ^ 1023 = half at *
  generalize (10 : ℚ) ^ 308 = power at *
  linarith

end

def FiniteResult : Except Error Value → Prop
  | .ok v => v.IsFiniteNumber
  | .error _ => True

theorem FiniteResult.bind {α : Type} {r : Except Error α} {f : α → Except Error Value}
    (later : ∀ a, r = .ok a → FiniteResult (f a)) : FiniteResult (r >>= f) := by
  cases r with
  | ok a => exact later a rfl
  | error e => trivial

theorem checkResult_finite {inputs : List Float} (finite : ∀ x ∈ inputs, x.isFinite = true)
    (result : Float) (grows : Bool) (pos : Position) :
    FiniteResult (checkResult result inputs grows pos) := by
  have numbers : inputs.any Float.isNaN = false :=
    List.any_eq_false.mpr fun x given =>
      ne_true_of_eq_false (isNaN_of_isFinite (finite x given)).1
  have bounded : inputs.all Float.isFinite = true := List.all_eq_true.mpr finite
  rw [checkResult, numbers, bounded]
  cases number : result.isNaN with
  | true => trivial
  | false =>
    cases infinite : result.isInf with
    | true => trivial
    | false => exact isFinite_of_not number infinite

theorem number_finite {b : Builtin} {v : Value} {pos : Position} {x : Float}
    (finite : v.IsFiniteNumber) (found : b.number v pos = .ok x) : x.isFinite = true := by
  cases v with
  | int n =>
    cases found
    exact isFinite_ofInt n
  | float y =>
    cases found
    exact finite
  | string | function | nothing => exact finite.elim

/-- A float is rounded to a multiple of a power of ten beyond the largest float. -/
def Overshoots (b : Builtin) (args : List Value) : Prop :=
  ∃ x digits, b = .round ∧ args = [.float x, .int digits] ∧ RoundsBeyond x digits.toInt

theorem overshoots_round {x : Float} {digits : Int64} :
    Builtin.round.Overshoots [.float x, .int digits] ↔ RoundsBeyond x digits.toInt := by
  constructor
  · rintro ⟨_, _, -, same, beyond⟩
    simp only [List.cons.injEq, Value.float.injEq, Value.int.injEq] at same
    obtain ⟨rfl, rfl, -⟩ := same
    exact beyond
  · exact fun beyond => ⟨x, digits, rfl, rfl, beyond⟩

theorem numeric_finite {b : Builtin} {args : List Value} (pos : Position)
    (finite : ∀ v ∈ args, v.IsFiniteNumber) (within : ¬ b.Overshoots args) :
    FiniteResult (b.numeric args pos) := by
  unfold numeric
  split
  · refine .bind fun x found => ?_
    have given := number_finite (finite _ (.head _)) found
    exact checkResult_finite (List.forall_mem_singleton.mpr given) _ _ pos
  · refine .bind fun y found => .bind fun x found' => ?_
    have given := number_finite (finite _ (.head _)) found
    have given' := number_finite (finite _ (.tail _ (.head _))) found'
    exact checkResult_finite
      (List.forall_mem_cons.mpr ⟨given, List.forall_mem_singleton.mpr given'⟩) _ _ pos
  · split <;> trivial
  · refine .bind fun x found => ?_
    exact isFinite_abs (number_finite (finite _ (.head _)) found)
  · trivial
  · exact .bind fun x _ => .bind fun n _ => trivial
  · next v digits =>
    have given := finite v (.head _)
    cases v with
    | int n => exact .bind fun m _ => trivial
    | float x =>
      exact roundFloat_isFinite given fun beyond => within (overshoots_round.mpr beyond)
    | string | function | nothing => exact given.elim
  · trivial
  · trivial

theorem numeric_call {b : Builtin} (numeric : b.IsNumeric) (args : List Value) (pos : Position)
    (s : Session) : b.call args pos s = ((b.numeric args pos).mapError .error, s) := by
  have same : b.call args pos = Eval.ofExcept (b.numeric args pos) := by
    cases b with
    | print | abort | input => exact numeric.elim
    | real | atan2 | abs | whole | round => rfl
  rw [same]
  cases b.numeric args pos <;> rfl

/-- A function of numbers that is called with finite numbers comes to a finite number or raises an
error, and leaves the session as it is. -/
theorem call_finite_unless_overshoots {b : Builtin} {args : List Value} (numeric : b.IsNumeric)
    (finite : ∀ v ∈ args, v.IsFiniteNumber) (pos : Position) (s : Session) :
    ∃ r : Except Error Value, b.call args pos s = (r.mapError .error, s) ∧
      (¬ b.Overshoots args → FiniteResult r) ∧
      (b.Overshoots args → ∃ x digits y, args = [.float x, .int digits] ∧ 2 ^ 1023 < size x ∧
        r = .ok (.float y) ∧ y.isInf = true) := by
  refine ⟨_, numeric_call numeric args pos s, numeric_finite pos finite, ?_⟩
  rintro ⟨x, digits, rfl, rfl, beyond⟩
  have given : x.isFinite = true := finite _ (.head _)
  exact ⟨x, digits, _, rfl, beyond.large given, rfl, roundFloat_isInf given beyond⟩

theorem call_finite_unless_overshoots_at_limits :
    let s := Session.ofConsole (.ofInput [])
    let near : List Value := [.float 1.7e308, .int (-307)]
    let far : List Value := [.float 1.7e308, .int (-308)]
    (∃ r, Builtin.round.call near .start s = (r.mapError .error, s) ∧ FiniteResult r) ∧
      ∃ y, Builtin.round.call far .start s = (.ok (.float y), s) ∧ y.isInf = true := by
  intro s near far
  have big : (1.7e308 : Float).isFinite = true := by decide +kernel
  have finite (digits : Int64) : ∀ v ∈ [Value.float 1.7e308, .int digits], v.IsFiniteNumber :=
    List.forall_mem_cons.mpr ⟨big, List.forall_mem_singleton.mpr trivial⟩
  constructor
  · obtain ⟨r, call, kept, -⟩ :=
      call_finite_unless_overshoots (b := .round) trivial (finite (-307)) .start s
    refine ⟨r, call, kept fun beyond => ?_⟩
    exact absurd (roundFloat_isInf big (overshoots_round.mp beyond)) (by decide +kernel)
  · obtain ⟨r, call, -, lost⟩ :=
      call_finite_unless_overshoots (b := .round) trivial (finite (-308)) .start s
    have beyond : RoundsBeyond 1.7e308 (-308) := by
      by_contra within
      exact absurd (roundFloat_isFinite big within) (by decide +kernel)
    obtain ⟨_, _, y, -, -, rfl, infinite⟩ := lost (overshoots_round.mpr beyond)
    exact ⟨y, call, infinite⟩

theorem round_overshoots :
    let s := Session.ofConsole (.ofInput [])
    Builtin.ofName? "round" = some .round ∧ Value.IsFiniteNumber (.float 1.7e308) ∧
      ∃ y, Builtin.round.call [.float 1.7e308, .int (-308)] .start s = (.ok (.float y), s) ∧
        y.isInf = true :=
  ⟨by decide, (by decide +kernel : (1.7e308 : Float).isFinite = true), _, rfl, by decide +kernel⟩

end Builtin

end CalcScript
