import CalcScript.Tree

set_option autoImplicit false

namespace CalcScript

inductive Value where
  | int (n : Int64)
  | float (x : Float)
  | string (s : String)
  | function (f : Function)
  | nothing

namespace Value

def ofBool (b : Bool) : Value := .int (if b then 1 else 0)

def ofLiteral : Literal → Value
  | .int n => .int n
  | .float x => .float x
  | .string s => .string s

def text : Value → String
  | .int n => toString n.toInt
  | .float x => FloatStyle.display.text x
  | .string s => s
  | .function f => f.text
  | .nothing => "None"

def shown : Value → String
  | .string s => "\"" ++ s ++ "\""
  | v => v.text

def truthy : Value → Bool
  | .int n => n != 0
  | .float x => x != 0
  | .string s => s != ""
  | .function _ => true
  | .nothing => false

def toFloat? : Value → Option Float
  | .int n => some (Binary64.ofInt n.toInt)
  | .float x => some x
  | _ => none

end Value

inductive Arity where
  | exactly (count : Nat)
  | any
deriving DecidableEq, Repr

namespace Arity

def accepts : Arity → Nat → Bool
  | .exactly n, count => n == count
  | .any, _ => true

def text : Arity → String
  | .exactly n => toString n
  | .any => "any number of"

end Arity

end CalcScript
