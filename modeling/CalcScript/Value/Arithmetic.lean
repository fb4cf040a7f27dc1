import CalcScript.Error
import CalcScript.Number.Word

set_option autoImplicit false

namespace CalcScript.Arithmetic

def checked (pos : Position) : Option Int64 → Except Error Value
  | some n => .ok (.int n)
  | none => .error (.overflow pos)

def negate (v : Value) (pos : Position) : Except Error Value :=
  match v with
  | .int n => checked pos (Word.ofInt? (-n.toInt))
  | .float x => .ok (.float (-x))
  | v => .error (.type pos (.negated v))

def floatPower (base exponent : Float) (pos : Position) : Except Error Value :=
  if base == 0 && exponent < 0 then .error (.math pos .zeroToNegative)
  else
    let result := base.pow exponent
    if result.isNaN && !base.isNaN && !exponent.isNaN then .error (.math pos .negativeToFraction)
    else if result.isInf && base.isFinite && exponent.isFinite then .error (.overflow pos)
    else .ok (.float result)

def floatModulo (l r : Float) : Float :=
  let rest := Binary64.remainder l r
  if rest != 0 && (decide (rest < 0) != decide (r < 0)) then rest + r else rest

def onFloats (op : BinaryOp) (l r : Float) (pos : Position) : Except Error Value :=
  match op with
  | .add => .ok (.float (l + r))
  | .subtract => .ok (.float (l - r))
  | .multiply => .ok (.float (l * r))
  | .divide => if r == 0 then .error (.math pos .divisionByZero) else .ok (.float (l / r))
  | .floorDivide =>
    if r == 0 then .error (.math pos .divisionByZero)
    else .ok (.float (Binary64.integral .down (l / r)))
  | .modulo =>
    if r == 0 then .error (.math pos .moduloByZero) else .ok (.float (floatModulo l r))
  | .power => floatPower l r pos

def onInts (op : BinaryOp) (l r : Int64) (pos : Position) : Except Error Value :=
  match op with
  | .add => checked pos (Word.ofInt? (l.toInt + r.toInt))
  | .subtract => checked pos (Word.ofInt? (l.toInt - r.toInt))
  | .multiply => checked pos (Word.multiply? l r)
  | .divide => onFloats .divide (Binary64.ofInt l.toInt) (Binary64.ofInt r.toInt) pos
  | .floorDivide =>
    if r = 0 then .error (.math pos .divisionByZero)
    else checked pos (Word.floorDivide? l r)
  | .modulo =>
    if r = 0 then .error (.math pos .moduloByZero) else .ok (.int (Word.floorModulo l r))
  | .power =>
    if r.toInt < 0 then floatPower (Binary64.ofInt l.toInt) (Binary64.ofInt r.toInt) pos
    else checked pos (Word.pow? l r.toInt.toNat)

def binary (op : BinaryOp) (lhs rhs : Value) (pos : Position) : Except Error Value :=
  match lhs, rhs with
  | .string l, .string r =>
    match op with
    | .add => .ok (.string (l ++ r))
    | op => .error (.type pos (.stringOperator op))
  | .int l, .int r => onInts op l r pos
  | lhs, rhs =>
    match lhs.toFloat?, rhs.toFloat? with
    | some l, some r => onFloats op l r pos
    | _, _ => .error (.type pos (.operands lhs op rhs))

end CalcScript.Arithmetic
