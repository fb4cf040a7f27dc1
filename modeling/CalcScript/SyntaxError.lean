import CalcScript.Position

set_option autoImplicit false

namespace CalcScript

inductive Fault where
  | unexpectedCharacter (c : Char)
  | unterminatedString
  | missingDigits (lexeme : String)
  | integerTooLarge (lexeme : String)
  | unexpectedToken (lexeme : String)
  | missing (delimiter : Char) (before : String)
  | notAnIdentifier (lexeme : String)
  | globalParameter (name : String)
  | nestedTooDeeply
deriving DecidableEq, Repr

def Fault.text : Fault → String
  | .unexpectedCharacter c => "unexpected character `" ++ c.toString ++ "`"
  | .unterminatedString => "unterminated string"
  | .missingDigits lexeme => "missing digits in number literal `" ++ lexeme ++ "`"
  | .integerTooLarge lexeme => "integer literal too large `" ++ lexeme ++ "`"
  | .unexpectedToken lexeme => "unexpected token `" ++ lexeme ++ "`"
  | .missing delimiter before => "expected '" ++ delimiter.toString ++ "' before `" ++ before ++ "`"
  | .notAnIdentifier lexeme => "expected identifier, found `" ++ lexeme ++ "`"
  | .globalParameter name => "parameters cannot be global variables: `" ++ name ++ "`"
  | .nestedTooDeeply => "expression nested too deeply"

/-- Either the text ends too early, and more of it could mend that, or a fault is at a place. -/
inductive SyntaxError where
  | incomplete
  | located (pos : Position) (fault : Fault)
deriving DecidableEq, Repr

namespace SyntaxError

def pos? : SyntaxError → Option Position
  | .incomplete => none
  | .located pos _ => some pos

def detail : SyntaxError → String
  | .incomplete => "unexpected end of input; unbalanced parenthesis or missing argument(s)?"
  | .located _ fault => fault.text

def message (e : SyntaxError) : String :=
  "Syntax error: " ++ e.detail ++
    match e.pos? with
    | some pos => " at " ++ pos.text
    | none => ""

end SyntaxError

end CalcScript
