set_option autoImplicit false

namespace CalcScript.Word

def ofInt? (n : Int) : Option Int64 :=
  if h : Int64.minValue.toInt ≤ n ∧ n ≤ Int64.maxValue.toInt then some (.ofIntLE n h.1 h.2)
  else none

theorem ofInt?_eq_some_iff {n : Int} {w : Int64} : ofInt? n = some w ↔ w.toInt = n := by
  constructor
  · intro h
    simp only [ofInt?] at h
    split at h
    · cases h
      exact Int64.toInt_ofIntLE
    · cases h
  · rintro rfl
    have low := w.minValue_le_toInt
    have high := w.toInt_le
    simp only [ofInt?]
    rw [dif_pos ⟨by simpa using low, high⟩]
    simp

@[simp] theorem ofInt?_toInt (w : Int64) : ofInt? w.toInt = some w :=
  ofInt?_eq_some_iff.mpr rfl

theorem ofInt?_eq_none_iff {n : Int} :
    ofInt? n = none ↔ n < Int64.minValue.toInt ∨ Int64.maxValue.toInt < n := by
  unfold ofInt?
  split
  · next within => exact iff_of_false nofun (by omega)
  · next out => exact iff_of_true rfl (by omega)

def multiply? (l r : Int64) : Option Int64 := ofInt? (l.toInt * r.toInt)

def divide? (l r : Int64) : Option Int64 :=
  if r = 0 ∨ (l = Int64.minValue ∧ r = -1) then none else some (l / r)

def strays (rest r : Int64) : Bool := rest ≠ 0 && decide (rest < 0) != decide (r < 0)

def floorDivide? (l r : Int64) : Option Int64 := do
  let quotient ← divide? l r
  return if strays (l % r) r then quotient - 1 else quotient

def floorModulo (l r : Int64) : Int64 :=
  let rest := l % r
  if strays rest r then rest + r else rest

def powSteps? (base acc : Int64) (exponent : Nat) : Option Int64 :=
  if exponent ≤ 1 then multiply? acc base
  else do
    let acc ← (if exponent % 2 = 1 then multiply? acc base else some acc)
    let square ← multiply? base base
    powSteps? square acc (exponent / 2)
termination_by exponent

-- Squaring is for exponents of 32 bits. Beyond those the bases 0, 1 and -1 alone have powers.
def pow? (base : Int64) (exponent : Nat) : Option Int64 :=
  if exponent < UInt32.size then
    if exponent = 0 then some 1 else powSteps? base 1 exponent
  else if base = 0 ∨ base = 1 then some base
  else if base = -1 then some (if exponent % 2 = 0 then 1 else -1)
  else none

-- The multiple of `10 ^ places` nearest to `n`, a tie going to the even quotient. No scale above
-- `10 ^ 18` fits a word; every word is then rounded to zero.
def roundTo? (n : Int64) (places : Nat) : Option Int64 :=
  if 18 < places then some 0
  else
    let scale : Int := Nat.pow 10 places
    let quotient := n.toInt / scale
    let twice := 2 * (n.toInt % scale)
    let up := scale < twice ∨ (twice = scale ∧ quotient % 2 ≠ 0)
    ofInt? ((if up then quotient + 1 else quotient) * scale)

end CalcScript.Word
