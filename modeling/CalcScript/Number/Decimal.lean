import CalcScript.Number.Binary64

set_option autoImplicit false

namespace CalcScript

/-- `digits * 10 ^ exponent`. -/
structure Decimal where
  digits : Nat
  exponent : Int
deriving DecidableEq, Repr

namespace Decimal

def numerator (d : Decimal) : Nat := d.digits * Nat.pow 10 d.exponent.toNat

def denominator (d : Decimal) : Nat := Nat.pow 10 (-d.exponent).toNat

-- The bits of the nearest magnitude. Exponents that leave the range of floats whatever the digits
-- are, are told apart first, so the powers of ten stay in proportion to the digits.
def sizeBits (d : Decimal) : Nat :=
  if d.digits = 0 then 0
  else if 400 < d.exponent then Magnitude.infinityBits
  else if d.exponent < -(400 + d.digits.log2 : Int) then 0
  else Magnitude.nearest d.numerator d.denominator

def strip (d : Decimal) : Decimal :=
  if d.digits ≠ 0 ∧ d.digits % 10 = 0 then strip ⟨d.digits / 10, d.exponent + 1⟩ else d
termination_by d.digits
decreasing_by omega

def places (m : Magnitude) : Int :=
  let low := (m.mantissa.log2 + m.exponent) * 30103 / 100000 + 1
  if m.denominator * Nat.pow 10 low.toNat ≤ m.numerator * Nat.pow 10 (-low).toNat then low + 1
  else low

-- A neighbour of the magnitude among the multiples of `10 ^ exponent` that reads back as it; the
-- nearer one if both do, and the upper one on a tie.
def onGrid? (bits : Nat) (exponent : Int) : Option Decimal :=
  let m := Magnitude.ofBits bits
  let num := m.numerator * Nat.pow 10 (-exponent).toNat
  let den := m.denominator * Nat.pow 10 exponent.toNat
  let below : Decimal := ⟨num / den, exponent⟩
  let above : Decimal := ⟨num / den + 1, exponent⟩
  if below.sizeBits = bits ∧ (2 * (num % den) < den ∨ above.sizeBits ≠ bits) then some below
  else if above.sizeBits = bits then some above
  else none

def exact (m : Magnitude) : Decimal :=
  ⟨m.numerator * Nat.pow 5 (-m.exponent).toNat, min 0 m.exponent⟩

-- The fewest digits that read back as the given bits: the first hit on ever finer grids. Seventeen
-- digits are enough for every float; the exact value would do in any case.
def shortest (bits : Nat) : Decimal :=
  let m := Magnitude.ofBits bits
  let start := places m
  (((List.range 17).findSome? fun n : Nat => onGrid? bits (start - 1 - n)).getD (exact m)).strip

end Decimal

structure FloatStyle where
  plus : Bool
  width : Nat
  nan : String

namespace FloatStyle

def display : FloatStyle := ⟨true, 2, "nan"⟩

def literal : FloatStyle := ⟨false, 1, "NaN"⟩

def exponentText (s : FloatStyle) (e : Int) : List Char :=
  let digits := Nat.toDigits 10 e.natAbs
  (if e < 0 then ['-'] else if s.plus then ['+'] else []) ++
    List.replicate (s.width - digits.length) '0' ++ digits

def layout (s : FloatStyle) (d : Decimal) : List Char :=
  let digits := Nat.toDigits 10 d.digits
  let point : Int := digits.length + d.exponent
  if -3 ≤ point ∧ point ≤ 16 then
    if point ≤ 0 then '0' :: '.' :: (List.replicate (-point).toNat '0' ++ digits)
    else if digits.length ≤ point then
      digits ++ List.replicate (point - digits.length).toNat '0' ++ ['.', '0']
    else digits.take point.toNat ++ '.' :: digits.drop point.toNat
  else
    digits.take 1 ++ (if digits.length = 1 then [] else '.' :: digits.drop 1) ++
      'e' :: s.exponentText (point - 1)

def chars (s : FloatStyle) (x : Float) : List Char :=
  if x.isNaN then s.nan.toList
  else
    let size :=
      if x.isInf then ['i', 'n', 'f']
      else if Binary64.sizeBits x = 0 then ['0', '.', '0']
      else s.layout (Decimal.shortest (Binary64.sizeBits x))
    if Binary64.isNegative x then '-' :: size else size

def text (s : FloatStyle) (x : Float) : String := .ofList (s.chars x)

end FloatStyle

end CalcScript
