set_option autoImplicit false

namespace CalcScript

inductive UnaryOp where
  | not
  | negate
deriving DecidableEq, Repr

inductive BinaryOp where
  | add
  | subtract
  | multiply
  | divide
  | floorDivide
  | modulo
  | power
deriving DecidableEq, Repr

def BinaryOp.symbol : BinaryOp → String
  | .add => "+"
  | .subtract => "-"
  | .multiply => "*"
  | .divide => "/"
  | .floorDivide => "//"
  | .modulo => "%"
  | .power => "^"

inductive ComparisonOp where
  | equal
  | notEqual
  | greater
  | greaterEqual
  | less
  | lessEqual
deriving DecidableEq, Repr

namespace ComparisonOp

def symbol : ComparisonOp → String
  | .equal => "=="
  | .notEqual => "!="
  | .greater => ">"
  | .greaterEqual => ">="
  | .less => "<"
  | .lessEqual => "<="

def holds : ComparisonOp → Ordering → Bool
  | .equal, o => o.isEq
  | .notEqual, o => o.isNe
  | .greater, o => o.isGT
  | .greaterEqual, o => o.isGE
  | .less, o => o.isLT
  | .lessEqual, o => o.isLE

end ComparisonOp

inductive LogicalOp where
  | and
  | or
deriving DecidableEq, Repr

def LogicalOp.decides : LogicalOp → Bool → Bool
  | .and, holds => !holds
  | .or, holds => holds

inductive ControlKind where
  | breakLoop
  | continueLoop
  | returnValue
deriving DecidableEq, Repr

end CalcScript
