import CalcScript.Number.Binary64

set_option autoImplicit false

namespace CalcScript

def floorSqrt (n : Nat) : Nat :=
  if n = 0 then 0
  else
    let root := 2 * floorSqrt (n / 4)
    if (root + 1) * (root + 1) ≤ n then root + 1 else root
termination_by n
decreasing_by omega

abbrev Fixed := Nat

namespace Fixed

def places : Nat := 256

def one : Fixed := Nat.pow 2 places

def mul (a b : Fixed) : Fixed := a * b / one

def div (a b : Fixed) : Fixed := a * one / b

def sqrt (a : Fixed) : Fixed := floorSqrt (a * one)

def oddSum (square : Fixed) : Nat → Nat → Fixed → Fixed
  | 0, _, _ => 0
  | terms + 1, k, power => power / k + oddSum square terms (k + 2) (mul power square)

-- The inverse hyperbolic tangent of a number up to `1 / 3`. Each term has three more places.
def artanh (z : Fixed) : Fixed := oddSum (mul z z) (places / 3) 1 z

def log (y : Fixed) : Fixed :=
  let power := y.log2 - places
  let rest := y / Nat.pow 2 power
  2 * (power * artanh (one / 3) + artanh (div (rest - one) (rest + one)))

end Fixed

namespace Binary64

def ofFixed (negative : Bool) (a : Fixed) : Float := ofRatio negative a Fixed.one

def toFixed (x : Float) : Fixed :=
  let m := magnitude x
  m.numerator * Fixed.one / m.denominator

-- Below this size the inverse hyperbolic sine and tangent of a number round to the number.
def linearBound : Float := 1e-9

def asinh (x : Float) : Float :=
  if !x.isFinite || x.abs < linearBound then x
  else
    let a := toFixed x
    ofFixed (isNegative x) (Fixed.log (a + Fixed.sqrt (Fixed.mul a a + Fixed.one)))

-- The sum under the logarithm is no float, so no finite number is too large: `acosh(1e308)` is
-- 709.889355822726.
def acosh (x : Float) : Float :=
  if x < 1 then 0.0 / 0.0
  else if !x.isFinite then x
  else
    let a := toFixed x
    ofFixed false (Fixed.log (a + Fixed.sqrt (Fixed.mul a a - Fixed.one)))

def atanh (x : Float) : Float :=
  if x.isNaN || x.abs < linearBound then x
  else if 1 < x.abs then 0.0 / 0.0
  else if x.abs == 1 then copySign (1.0 / 0.0) x
  else
    let a := toFixed x
    ofRatio (isNegative x) (Fixed.log (Fixed.div (Fixed.one + a) (Fixed.one - a))) (2 * Fixed.one)

end Binary64

end CalcScript
