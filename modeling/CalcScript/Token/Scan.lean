import CalcScript.Number.Numeral
import CalcScript.SyntaxError
import CalcScript.Token

set_option autoImplicit false

namespace CalcScript

namespace Scan

def isWordStart (c : Char) : Bool := c.isAlpha || c = '_'

def isWordChar (c : Char) : Bool := c.isAlphanum || c = '_'

def runLength (p : Char → Bool) (cs : List Char) : Nat := (cs.takeWhile p).length

def trailingIf? (cs : List Char) : Option Nat :=
  let gap := runLength (fun c => c = ' ' || c = '\t') cs
  match cs.drop gap with
  | 'i' :: 'f' :: rest => if gap = 0 ∨ rest.head?.any isWordChar then none else some (gap + 2)
  | _ => none

def word (c : Char) (cs : List Char) : TokenKind × Nat :=
  let n := runLength isWordChar cs
  match Keyword.ofWord? (.ofList (c :: cs.take n)) with
  | none => (.identifier, n)
  | some .otherwise =>
    match trailingIf? (cs.drop n) with
    | some more => (.elseIf, n + more)
    | none => (.keyword .otherwise, n)
  | some k => (.keyword k, n)

-- The length of a string behind its opening quote. A backslash takes the next character along.
def stringLength? : List Char → Option Nat
  | [] => none
  | '"' :: _ => some 1
  | '\\' :: _ :: cs => (stringLength? cs).map (· + 2)
  | _ :: cs => (stringLength? cs).map (· + 1)

def base? : Char → List Char → Option Nat
  | '0', 'x' :: _ => some 16
  | '0', 'o' :: _ => some 8
  | '0', 'b' :: _ => some 2
  | _, _ => none

def exponentLength : List Char → Nat
  | 'e' :: cs =>
    let sign := if cs.head? = some '+' ∨ cs.head? = some '-' then 1 else 0
    let n := runLength (isDigit 10) (cs.drop sign)
    if n = 0 then 0 else 1 + sign + n
  | _ => 0

def fractionLength : List Char → Nat
  | '.' :: cs => 1 + runLength (isDigit 10) cs
  | _ => 0

def number (c : Char) (cs : List Char) : Except Fault (TokenKind × Nat) :=
  match base? c cs with
  | some base =>
    let n := runLength (isDigit base) cs.tail
    if n = 0 then .error (.missingDigits (.ofList (c :: cs.take 1))) else .ok (.integer, 1 + n)
  | none =>
    let whole := runLength (isDigit 10) cs
    let fraction := fractionLength (cs.drop whole)
    let exponent := exponentLength (cs.drop (whole + fraction))
    .ok (if fraction = 0 ∧ exponent = 0 then .integer else .float, whole + fraction + exponent)

def withEquals (cs : List Char) (long short : TokenKind) : TokenKind × Nat :=
  if cs.head? = some '=' then (long, 1) else (short, 0)

def doubled (c : Char) (cs : List Char) (kind : TokenKind) : Except Fault (TokenKind × Nat) :=
  if cs.head? = some c then .ok (kind, 1) else .error (.unexpectedCharacter c)

def scan (c : Char) (cs : List Char) : Except Fault (TokenKind × Nat) :=
  match c with
  | '!' => .ok (withEquals cs (.comparison .notEqual) .bang)
  | '=' => .ok (withEquals cs (.comparison .equal) .assign)
  | '>' => .ok (withEquals cs (.comparison .greaterEqual) (.comparison .greater))
  | '<' => .ok (withEquals cs (.comparison .lessEqual) (.comparison .less))
  | '+' => .ok (withEquals cs (.compound .add) (.binary .add))
  | '-' => .ok (withEquals cs (.compound .subtract) (.binary .subtract))
  | '*' => .ok (withEquals cs (.compound .multiply) (.binary .multiply))
  | '%' => .ok (withEquals cs (.compound .modulo) (.binary .modulo))
  | '^' => .ok (withEquals cs (.compound .power) (.binary .power))
  | '/' =>
    if cs.head? = some '/' then
      let (kind, n) := withEquals cs.tail (.compound .floorDivide) (.binary .floorDivide)
      .ok (kind, n + 1)
    else .ok (withEquals cs (.compound .divide) (.binary .divide))
  | '&' => doubled '&' cs (.logical .and)
  | '|' => doubled '|' cs (.logical .or)
  | '#' => .ok (.comment, runLength (· ≠ '\n') cs)
  | '"' =>
    match stringLength? cs with
    | some n => .ok (.string, n)
    | none => .error .unterminatedString
  | '$' => if cs.head?.any isWordStart then .ok (word c cs) else .error (.unexpectedCharacter c)
  | _ =>
    match TokenKind.ofChar? c with
    | some kind => .ok (kind, 0)
    | none =>
      if isWordStart c then .ok (word c cs)
      else if isDigit 10 c then number c cs
      else .error (.unexpectedCharacter c)

def integerDigits : List Char → Nat × List Char
  | '0' :: 'x' :: digits => (16, digits)
  | '0' :: 'o' :: digits => (8, digits)
  | '0' :: 'b' :: digits => (2, digits)
  | digits => (10, digits)

def literal? (kind : TokenKind) (lexeme : List Char) : Except Fault (Option Literal) :=
  match kind with
  | .integer =>
    let (base, digits) := integerDigits lexeme
    match Word.ofInt? (digitsValue base digits) with
    | some n => .ok (some (.int n))
    | none => .error (.integerTooLarge (.ofList lexeme))
  | .float =>
    match Decimal.ofChars? lexeme with
    | some d => .ok (some (.float (Binary64.ofSizeBits false d.sizeBits)))
    | none => .error (.missingDigits (.ofList lexeme))
  | .string => .ok (some (.string (.ofList lexeme.tail.dropLast)))
  | _ => .ok none

def token (pos : Position) (c : Char) (cs : List Char) : Except Fault (Token × Nat) := do
  let (kind, n) ← scan c cs
  let lexeme := c :: cs.take n
  let literal ← literal? kind lexeme
  return (⟨kind, pos, .ofList lexeme, literal⟩, n)

def tokensFrom (pos : Position) : List Char → Except SyntaxError (List Token)
  | [] => .ok []
  | c :: cs =>
    match token pos c cs with
    | .error fault => .error (.located pos fault)
    | .ok (t, n) => do
      let rest ← tokensFrom (pos.after (c :: cs.take n)) (cs.drop n)
      return t :: rest
termination_by cs => cs.length
decreasing_by
  simp only [List.length_cons, List.length_drop]
  omega

end Scan

def tokens (source : String) : Except SyntaxError (List Token) :=
  Scan.tokensFrom .start source.toList

def significantTokens (source : String) : Except SyntaxError (List Token) := do
  return (← tokens source).filter (·.kind.isSignificant)

end CalcScript
