import CalcScript.Number.Decimal
import CalcScript.Number.Word

set_option autoImplicit false

namespace CalcScript

def digitValue? (base : Nat) (c : Char) : Option Nat :=
  let value? :=
    if '0' ≤ c ∧ c ≤ '9' then some (c.toNat - '0'.toNat)
    else if 'a' ≤ c ∧ c ≤ 'f' then some (c.toNat - 'a'.toNat + 10)
    else if 'A' ≤ c ∧ c ≤ 'F' then some (c.toNat - 'A'.toNat + 10)
    else none
  value?.filter (· < base)

def isDigit (base : Nat) (c : Char) : Bool := (digitValue? base c).isSome

def digitsValue (base : Nat) (cs : List Char) : Nat :=
  cs.foldl (fun value c => base * value + (digitValue? base c).getD 0) 0

def Decimal.ofChars? (cs : List Char) : Option Decimal :=
  let whole := cs.takeWhile (isDigit 10)
  let behind := cs.dropWhile (isDigit 10)
  let hasPoint := behind.head? = some '.'
  let fraction := if hasPoint then behind.tail.takeWhile (isDigit 10) else []
  let tail := if hasPoint then behind.tail.dropWhile (isDigit 10) else behind
  let scaled (exponent : Int) : Decimal :=
    ⟨digitsValue 10 (whole ++ fraction), exponent - fraction.length⟩
  if whole = [] ∧ fraction = [] then none
  else
    match tail with
    | [] => some (scaled 0)
    | mark :: power =>
      let digits := if power.head? = some '+' ∨ power.head? = some '-' then power.tail else power
      let size : Int := digitsValue 10 digits
      if (mark = 'e' ∨ mark = 'E') ∧ digits ≠ [] ∧ digits.all (isDigit 10) then
        some (scaled (if power.head? = some '-' then -size else size))
      else none

def signed : List Char → Bool × List Char
  | '-' :: cs => (true, cs)
  | '+' :: cs => (false, cs)
  | cs => (false, cs)

def Binary64.ofChars? (cs : List Char) : Option Float :=
  let (negative, size) := signed cs
  let name := size.map Char.toLower
  if name = ['i', 'n', 'f'] ∨ name = ['i', 'n', 'f', 'i', 'n', 'i', 't', 'y'] then
    some (ofSizeBits negative Magnitude.infinityBits)
  else if name = ['n', 'a', 'n'] then some (0.0 / 0.0)
  else (Decimal.ofChars? size).map fun d => ofSizeBits negative d.sizeBits

def Word.ofChars? (cs : List Char) : Option Int64 :=
  let (negative, digits) := signed cs
  let size : Int := digitsValue 10 digits
  if digits ≠ [] ∧ digits.all (isDigit 10) then ofInt? (if negative then -size else size) else none

end CalcScript
