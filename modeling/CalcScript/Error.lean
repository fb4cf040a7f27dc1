import CalcScript.SyntaxError
import CalcScript.Value

set_option autoImplicit false

namespace CalcScript

def maxCallDepth : Nat := 200

inductive NameFault where
  | variable (name : String)
  | function (name : String)
deriving DecidableEq, Repr

def NameFault.text : NameFault → String
  | .variable name => "unknown identifier \"" ++ name ++ "\""
  | .function name => "unknown function \"" ++ name ++ "\""

inductive TypeFault where
  | negated (v : Value)
  | stringOperator (op : BinaryOp)
  | operands (lhs : Value) (op : BinaryOp) (rhs : Value)
  | comparison (lhs : Value) (op : ComparisonOp) (rhs : Value)
  | builtinRedefined (name : String)
  | builtinParameter (name : String)
  | builtinVariable (name : String)
  | builtinTarget (name : String)
  | notAFunction (name : String) (v : Value)
  | argumentCount (function : String) (arity : Arity) (given : Nat)
  | notANumber (function : String) (v : Value)
  | digitCount (v : Value)
  | enteredInt
  | enteredFloat

def TypeFault.text : TypeFault → String
  | .negated v => "bad operand type for unary -: " ++ v.shown
  | .stringOperator op => "operator " ++ op.symbol ++ " is not defined on strings"
  | .operands l op r =>
    "unsupported operand types: " ++ l.shown ++ " " ++ op.symbol ++ " " ++ r.shown
  | .comparison l op r =>
    "comparison between incompatible types: " ++ l.shown ++ " " ++ op.symbol ++ " " ++ r.shown
  | .builtinRedefined name => "cannot redefine built-in function \"" ++ name ++ "\""
  | .builtinParameter name =>
    "cannot use built-in function name \"" ++ name ++ "\" as a parameter"
  | .builtinVariable name => "cannot use built-in function \"" ++ name ++ "\" as a variable"
  | .builtinTarget name => "cannot assign to built-in function \"" ++ name ++ "\""
  | .notAFunction name v => "\"" ++ name ++ "\" is not a function but " ++ v.shown
  | .argumentCount name arity given =>
    name ++ "() takes " ++ arity.text ++ " argument(s) but " ++ toString given ++ " were given"
  | .notANumber name v => name ++ "() expects a number, got " ++ v.shown
  | .digitCount v => "round() expects an integer number of digits, got " ++ v.shown
  | .enteredInt => "user-entered string is not a valid int"
  | .enteredFloat => "user-entered string is not a valid float"

inductive MathFault where
  | divisionByZero
  | moduloByZero
  | zeroToNegative
  | negativeToFraction
  | domain
  | nanToInt
deriving DecidableEq, Repr

def MathFault.text : MathFault → String
  | .divisionByZero => "division by zero"
  | .moduloByZero => "modulo by zero"
  | .zeroToNegative => "zero cannot be raised to a negative power"
  | .negativeToFraction => "a negative number cannot be raised to a fractional power"
  | .domain => "math domain error"
  | .nanToInt => "cannot convert NaN to an integer"

-- What never happens to a program that was read from a text.
inductive InternalFault where
  | malformedChain (pos : Position)
  | argumentCount (function : String) (given : Nat)
deriving DecidableEq, Repr

def InternalFault.text : InternalFault → String
  | .malformedChain pos => "malformed comparison chain at " ++ pos.text
  | .argumentCount name given => name ++ "() reached with " ++ toString given ++ " argument(s)"

inductive IoFault where
  | endOfInput
  | notFound
  | isDirectory
  | notDirectory
  | denied
  | invalidText
  | brokenPipe
deriving DecidableEq, Repr

def IoFault.text : IoFault → String
  | .endOfInput => "end of input"
  | .notFound => "No such file or directory (os error 2)"
  | .isDirectory => "Is a directory (os error 21)"
  | .notDirectory => "Not a directory (os error 20)"
  | .denied => "Permission denied (os error 13)"
  | .invalidText => "stream did not contain valid UTF-8"
  | .brokenPipe => "broken pipe"

inductive SignalKind where
  | control (kind : ControlKind)
  | abort
deriving DecidableEq, Repr

structure Signal where
  kind : SignalKind
  value : Option Value
  pos : Position

def Signal.text (s : Signal) : String :=
  (match s.kind with
    | .abort => "abort() called"
    | .control .breakLoop => "Error: break called outside of a loop"
    | .control .continueLoop => "Error: continue called outside of a loop"
    | .control .returnValue => "Error: return called outside of a function") ++
    " at " ++ s.pos.text

inductive Error where
  | source (e : SyntaxError)
  | name (pos : Position) (fault : NameFault)
  | type (pos : Position) (fault : TypeFault)
  | math (pos : Position) (fault : MathFault)
  | overflow (pos : Position)
  | recursion (pos : Position)
  | internal (fault : InternalFault)
  | misuse (signal : Signal)
  | io (fault : IoFault)
  | unknownCommand (name : String)

namespace Error

def message : Error → String
  | .source e => e.message
  | .name pos fault => "Name error: " ++ fault.text ++ " at " ++ pos.text
  | .type pos fault => "Type error: " ++ fault.text ++ " at " ++ pos.text
  | .math pos fault => "Math error: " ++ fault.text ++ " at " ++ pos.text
  | .overflow pos => "Overflow: result is out of range at " ++ pos.text
  | .recursion pos =>
    "Recursion error: maximum call depth of " ++ toString maxCallDepth ++ " exceeded at " ++
      pos.text
  | .internal fault => "BUG: " ++ fault.text
  | .misuse signal => signal.text
  | .io fault => "I/O error: " ++ fault.text
  | .unknownCommand word => "Name error: unknown command \"" ++ word ++ "\""

def pos? : Error → Option Position
  | .source e => e.pos?
  | .name pos _ => some pos
  | .type pos _ => some pos
  | .math pos _ => some pos
  | .overflow pos => some pos
  | .recursion pos => some pos
  | .misuse signal => some signal.pos
  | _ => none

end Error

end CalcScript
