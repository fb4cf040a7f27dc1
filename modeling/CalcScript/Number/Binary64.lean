set_option autoImplicit false

namespace CalcScript

def halfEven (num den : Nat) : Nat :=
  let quotient := num / den
  let twice := 2 * (num % den)
  if den < twice ∨ (twice = den ∧ quotient % 2 = 1) then quotient + 1 else quotient

/-- `mantissa * 2 ^ exponent`, the size of a finite float. -/
structure Magnitude where
  mantissa : Nat
  exponent : Int
deriving DecidableEq, Repr

namespace Magnitude

-- The bits of a float without its sign bit count the magnitudes from zero upward: the numbers
-- with the least exponent first, then `2 ^ 52` mantissas for every exponent.
def ofBits (bits : Nat) : Magnitude :=
  let step := max 1 (bits / Nat.pow 2 52)
  ⟨bits - (step - 1) * Nat.pow 2 52, step - 1075⟩

def numerator (m : Magnitude) : Nat := m.mantissa * Nat.pow 2 m.exponent.toNat

def denominator (m : Magnitude) : Nat := Nat.pow 2 (-m.exponent).toNat

def infinityBits : Nat := 2047 * Nat.pow 2 52

def exponentOf (num den : Nat) : Int :=
  let low : Int := num.log2 - den.log2 - 53
  let fits := num * Nat.pow 2 (-low).toNat < Nat.pow 2 53 * (den * Nat.pow 2 low.toNat)
  max (if fits then low else low + 1) (-1074)

-- The bits of the magnitude nearest to a ratio. A mantissa rounded up to `2 ^ 53` carries into
-- the exponent by itself, because the bits count.
def nearest (num den : Nat) : Nat :=
  if num = 0 then 0
  else
    let e := exponentOf num den
    let mantissa := halfEven (num * Nat.pow 2 (-e).toNat) (den * Nat.pow 2 e.toNat)
    min infinityBits ((e + 1074).toNat * Nat.pow 2 52 + mantissa)

end Magnitude

namespace Binary64

def isNegative (x : Float) : Bool := Nat.pow 2 63 ≤ x.toBits.toNat

def sizeBits (x : Float) : Nat := x.toBits.toNat % Nat.pow 2 63

def magnitude (x : Float) : Magnitude := .ofBits (sizeBits x)

def ofSizeBits (negative : Bool) (bits : Nat) : Float :=
  .ofBits (.ofNat (if negative then Nat.pow 2 63 + bits else bits))

def ofRatio (negative : Bool) (num den : Nat) : Float :=
  ofSizeBits negative (Magnitude.nearest num den)

def ofInt (n : Int) : Float := ofRatio (n < 0) n.natAbs 1

inductive Rounding where
  | down
  | up
  | towardZero
  | halfEven
deriving DecidableEq, Repr

def toInt (r : Rounding) (x : Float) : Int :=
  let size := magnitude x
  let num : Int := if isNegative x then -size.numerator else size.numerator
  let den : Int := size.denominator
  match r with
  | .down => num.fdiv den
  | .up => -(-num).fdiv den
  | .towardZero => num.tdiv den
  | .halfEven =>
    let whole : Int := CalcScript.halfEven size.numerator size.denominator
    if isNegative x then -whole else whole

def integral (r : Rounding) (x : Float) : Float :=
  if x.isFinite then ofRatio (isNegative x) (toInt r x).natAbs 1 else x

-- What is left of `x` after taking `y` from it a whole number of times, with the sign of `x`. It
-- is computed exactly: at the lesser of the two exponents both mantissas are whole.
def remainder (x y : Float) : Float :=
  if x.isNaN || y.isNaN || x.isInf || y == 0 then 0.0 / 0.0
  else if y.isInf then x
  else
    let a := magnitude x
    let b := magnitude y
    let e := min a.exponent b.exponent
    let left := a.mantissa * Nat.pow 2 (a.exponent - e).toNat
    let right := b.mantissa * Nat.pow 2 (b.exponent - e).toNat
    ofRatio (isNegative x) (left % right * Nat.pow 2 e.toNat) (Nat.pow 2 (-e).toNat)

def copySign (size x : Float) : Float := if isNegative x then -size.abs else size.abs

def compare? (x y : Float) : Option Ordering :=
  if x < y then some .lt else if y < x then some .gt else if x == y then some .eq else none

-- `base ^ n` by squaring, multiplying `acc` by the squares that the binary digits of `n` name.
-- The order of the multiplications fixes the rounding errors.
def powFrom (acc base : Float) (n : Nat) : Float :=
  let acc := if n % 2 = 1 then acc * base else acc
  if n / 2 = 0 then acc else powFrom acc (base * base) (n / 2)
termination_by n
decreasing_by omega

end Binary64

end CalcScript
