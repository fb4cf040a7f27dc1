import CalcScript.Error
import CalcScript.Number.InverseHyperbolic
import CalcScript.Number.Word

set_option autoImplicit false

namespace CalcScript

inductive RealFunction where
  | sin
  | cos
  | tan
  | exp
  | log
  | log10
  | log2
  | asin
  | acos
  | atan
  | sinh
  | cosh
  | tanh
  | asinh
  | acosh
  | atanh
  | sqrt
deriving DecidableEq, Repr

namespace RealFunction

def name : RealFunction → String
  | .sin => "sin"
  | .cos => "cos"
  | .tan => "tan"
  | .exp => "exp"
  | .log => "log"
  | .log10 => "log10"
  | .log2 => "log2"
  | .asin => "asin"
  | .acos => "acos"
  | .atan => "atan"
  | .sinh => "sinh"
  | .cosh => "cosh"
  | .tanh => "tanh"
  | .asinh => "asinh"
  | .acosh => "acosh"
  | .atanh => "atanh"
  | .sqrt => "sqrt"

def eval : RealFunction → Float → Float
  | .sin => Float.sin
  | .cos => Float.cos
  | .tan => Float.tan
  | .exp => Float.exp
  | .log => Float.log
  | .log10 => Float.log10
  | .log2 => Float.log2
  | .asin => Float.asin
  | .acos => Float.acos
  | .atan => Float.atan
  | .sinh => Float.sinh
  | .cosh => Float.cosh
  | .tanh => Float.tanh
  | .asinh => Binary64.asinh
  | .acosh => Binary64.acosh
  | .atanh => Binary64.atanh
  | .sqrt => Float.sqrt

-- Whether an infinite result stands for a number that is too large, and not for a pole.
def grows : RealFunction → Bool
  | .exp | .sinh | .cosh => true
  | _ => false

end RealFunction

inductive WholeFunction where
  | ceil
  | floor
  | trunc
deriving DecidableEq, Repr

namespace WholeFunction

def name : WholeFunction → String
  | .ceil => "ceil"
  | .floor => "floor"
  | .trunc => "trunc"

def rounding : WholeFunction → Binary64.Rounding
  | .ceil => .up
  | .floor => .down
  | .trunc => .towardZero

end WholeFunction

inductive InputKind where
  | string
  | int
  | float
deriving DecidableEq, Repr

def InputKind.name : InputKind → String
  | .string => "input_str"
  | .int => "input_int"
  | .float => "input_float"

inductive Builtin where
  | real (f : RealFunction)
  | atan2
  | abs
  | whole (f : WholeFunction)
  | round
  | print
  | abort
  | input (kind : InputKind)
deriving DecidableEq, Repr

namespace Builtin

def name : Builtin → String
  | .real f => f.name
  | .atan2 => "atan2"
  | .abs => "abs"
  | .whole f => f.name
  | .round => "round"
  | .print => "print"
  | .abort => "abort"
  | .input kind => kind.name

def arity : Builtin → Arity
  | .real _ | .abs | .whole _ | .input _ => .exactly 1
  | .atan2 | .round => .exactly 2
  | .abort => .exactly 0
  | .print => .any

def all : List Builtin :=
  [.real .sin, .real .cos, .real .tan, .real .exp, .real .log, .real .log10, .real .log2,
    .real .asin, .real .acos, .real .atan, .atan2, .real .sinh, .real .cosh, .real .tanh,
    .real .asinh, .real .acosh, .real .atanh, .abs, .real .sqrt, .whole .ceil, .whole .floor,
    .whole .trunc, .round, .print, .abort, .input .string, .input .int, .input .float]

def ofName? (name : String) : Option Builtin := all.find? (·.name == name)

def text (b : Builtin) : String := "built-in func " ++ b.name

end Builtin

def isBuiltinName (name : String) : Bool := (Builtin.ofName? name).isSome

namespace Builtin

def wrongCount {α : Type} (b : Builtin) (args : List Value) : Except Error α :=
  .error (.internal (.argumentCount b.name args.length))

def number (b : Builtin) (v : Value) (pos : Position) : Except Error Float :=
  match v.toFloat? with
  | some x => .ok x
  | none => .error (.type pos (.notANumber b.name v))

def checkResult (result : Float) (inputs : List Float) (grows : Bool) (pos : Position) :
    Except Error Value :=
  if result.isNaN && !inputs.any Float.isNaN then .error (.math pos .domain)
  else if result.isInf && inputs.all Float.isFinite then
    .error (if grows then .overflow pos else .math pos .domain)
  else .ok (.float result)

def wholeNumber (r : Binary64.Rounding) (x : Float) (pos : Position) : Except Error Int64 :=
  if x.isNaN then .error (.math pos .nanToInt)
  else if x.isInf then .error (.overflow pos)
  else
    match Word.ofInt? (Binary64.toInt r x) with
    | some n => .ok n
    | none => .error (.overflow pos)

-- The multiple of `10 ^ -digits` near `x`, computed with the scaled number. Beyond 308 digits
-- nothing is left to round, and beyond -308 nothing is left.
def roundFloat (x : Float) (digits : Int) : Float :=
  if !x.isFinite || 308 < digits then x
  else if digits < -308 then Binary64.copySign 0 x
  else
    let scale := Binary64.powFrom 1 10 digits.natAbs
    if 0 ≤ digits then
      let scaled := x * scale
      if scaled.isFinite then Binary64.integral .halfEven scaled / scale else x
    else Binary64.integral .halfEven (x / scale) * scale

def roundInt (n : Int64) (digits : Int) (pos : Position) : Except Error Int64 :=
  if 0 ≤ digits then .ok n
  else
    match Word.roundTo? n digits.natAbs with
    | some m => .ok m
    | none => .error (.overflow pos)

def numeric (b : Builtin) (args : List Value) (pos : Position) : Except Error Value :=
  match b, args with
  | .real f, [v] => do
    let x ← b.number v pos
    checkResult (f.eval x) [x] f.grows pos
  | .atan2, [v, w] => do
    let y ← b.number v pos
    let x ← b.number w pos
    checkResult (Float.atan2 y x) [y, x] false pos
  | .abs, [.int n] =>
    match Word.ofInt? n.toInt.natAbs with
    | some m => .ok (.int m)
    | none => .error (.overflow pos)
  | .abs, [v] => do
    let x ← b.number v pos
    return .float x.abs
  | .whole _, [.int n] => .ok (.int n)
  | .whole f, [v] => do
    let x ← b.number v pos
    let n ← wholeNumber f.rounding x pos
    return .int n
  | .round, [v, .int digits] =>
    match v with
    | .int n => do
      let m ← roundInt n digits.toInt pos
      return .int m
    | v => do
      let x ← b.number v pos
      return .float (roundFloat x digits.toInt)
  | .round, [_, w] => .error (.type pos (.digitCount w))
  | b, args => b.wrongCount args

end Builtin

end CalcScript
