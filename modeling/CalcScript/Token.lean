import CalcScript.Number.Decimal
import CalcScript.Operator
import CalcScript.Position

set_option autoImplicit false

namespace CalcScript

inductive Literal where
  | int (n : Int64)
  | float (x : Float)
  | string (s : String)
deriving DecidableEq

namespace Literal

def text : Literal → String
  | .int n => toString n.toInt
  | .float x => FloatStyle.literal.text x
  | .string s => "\"" ++ s ++ "\""

def same : Literal → Literal → Bool
  | .int m, .int n => m == n
  | .float x, .float y => x == y
  | .string s, .string t => s == t
  | _, _ => false

end Literal

inductive Keyword where
  | control (kind : ControlKind)
  | otherwise
  | function
  | branch
  | loop
deriving DecidableEq, Repr

namespace Keyword

def spelling : Keyword → String
  | .control .breakLoop => "break"
  | .control .continueLoop => "continue"
  | .control .returnValue => "return"
  | .otherwise => "else"
  | .function => "func"
  | .branch => "if"
  | .loop => "while"

def all : List Keyword :=
  [.control .breakLoop, .control .continueLoop, .control .returnValue, .otherwise, .function,
    .branch, .loop]

def ofWord? (word : String) : Option Keyword := all.find? (·.spelling == word)

@[simp] theorem ofWord?_spelling (k : Keyword) : ofWord? k.spelling = some k := by
  rcases k with ⟨_ | _ | _⟩ | _ | _ | _ | _ <;> decide

end Keyword

inductive TokenKind where
  | leftParen
  | rightParen
  | leftBrace
  | rightBrace
  | comma
  | semicolon
  | bang
  | binary (op : BinaryOp)
  | logical (op : LogicalOp)
  | comparison (op : ComparisonOp)
  | assign
  | compound (op : BinaryOp)
  | identifier
  | string
  | integer
  | float
  | keyword (word : Keyword)
  | elseIf
  | comment
  | whitespace
deriving DecidableEq, Repr

namespace TokenKind

def ofChar? : Char → Option TokenKind
  | '(' => some .leftParen
  | ')' => some .rightParen
  | '{' => some .leftBrace
  | '}' => some .rightBrace
  | ',' => some .comma
  | ';' => some .semicolon
  | ' ' | '\t' | '\r' | '\n' | '\x0b' => some .whitespace
  | _ => none

def isSignificant : TokenKind → Bool
  | .comment | .whitespace => false
  | _ => true

def unaryOp? : TokenKind → Option UnaryOp
  | .bang => some .not
  | .binary .subtract => some .negate
  | _ => none

def comparisonOp? : TokenKind → Option ComparisonOp
  | .comparison op => some op
  | _ => none

end TokenKind

structure Token where
  kind : TokenKind
  pos : Position
  lexeme : String
  -- What a number or a string stands for.
  literal : Option Literal
deriving DecidableEq

end CalcScript
