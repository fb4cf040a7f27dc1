import CalcScript.Error

set_option autoImplicit false

namespace CalcScript.Comparison

def order? : Value → Value → Option (Option Ordering)
  | .int l, .int r => some (some (compare l.toInt r.toInt))
  | .string l, .string r => some (some (compare l r))
  | l, r =>
    match l.toFloat?, r.toFloat? with
    | some x, some y => some (Binary64.compare? x y)
    | _, _ => none

def equal? : Value → Value → Option Bool
  | .nothing, .nothing => some true
  | .function f, .function g => some (f.same g)
  | _, _ => none

def compare (op : ComparisonOp) (lhs rhs : Value) (pos : Position) : Except Error Bool :=
  match order? lhs rhs with
  | some (some o) => .ok (op.holds o)
  | some none => .ok (op == .notEqual)
  | none =>
    match op, equal? lhs rhs with
    | .equal, some same => .ok same
    | .notEqual, some same => .ok (!same)
    | op, _ => .error (.type pos (.comparison lhs op rhs))

end CalcScript.Comparison
