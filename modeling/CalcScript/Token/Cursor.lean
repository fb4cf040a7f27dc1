import CalcScript.Token.Scan

set_option autoImplicit false

namespace CalcScript

def byteLength : List Char → Nat
  | [] => 0
  | c :: cs => c.utf8Size + byteLength cs

-- No text starts or ends inside a character.
def dropBytes? : Nat → List Char → Option (List Char)
  | 0, cs => some cs
  | _ + 1, [] => none
  | n + 1, c :: cs => if c.utf8Size ≤ n + 1 then dropBytes? (n + 1 - c.utf8Size) cs else none

def takeBytes? : Nat → List Char → Option (List Char)
  | 0, _ => some []
  | _ + 1, [] => none
  | n + 1, c :: cs =>
    if c.utf8Size ≤ n + 1 then (takeBytes? (n + 1 - c.utf8Size) cs).map (c :: ·) else none

def slice? (first last : Nat) (cs : List Char) : Option (List Char) := do
  let behind ← dropBytes? first cs
  if last < first then none else takeBytes? (last - first) behind

structure Cursor where
  source : List Char
  stream : List Char
  place : Position
  -- Bytes of the source before the lexeme and up to the stream.
  start : Nat
  current : Nat
  startPlace : Position

inductive Cursor.Failure where
  | badSlice
  | error (e : SyntaxError)

abbrev Lexer := StateT Cursor (Except Cursor.Failure)

namespace Lexer

def advance : Lexer (Option Char) := do
  let cursor ← get
  match cursor.stream with
  | [] => return none
  | c :: rest =>
    set { cursor with
      stream := rest
      place := cursor.place.next c
      current := cursor.current + c.utf8Size }
    return some c

def advanceIf (p : Char → Bool) : Lexer Bool := do
  if (← get).stream.head?.any p then
    let _ ← advance
    return true
  else return false

-- The characters are those of the stream.
def advanceAlong (p : Char → Bool) : List Char → Lexer Nat
  | [] => return 0
  | c :: rest => do
    if p c then
      let _ ← advance
      return 1 + (← advanceAlong p rest)
    else return 0

def advanceWhile (p : Char → Bool) : Lexer Nat := do advanceAlong p (← get).stream

def advanceTimes : Nat → Lexer Unit
  | 0 => return
  | n + 1 => do
    let _ ← advance
    advanceTimes n

def ofSlice : Option (List Char) → Lexer (List Char)
  | some cs => return cs
  | none => throw .badSlice

def lexeme : Lexer (List Char) := do
  let cursor ← get
  ofSlice (slice? cursor.start cursor.current cursor.source)

def upcoming : Lexer (List Char) := do
  let cursor ← get
  ofSlice (dropBytes? cursor.current cursor.source)

def fail {α : Type} (fault : Fault) : Lexer α := do
  throw (.error (.located (← get).startPlace fault))

def make (kind : TokenKind) (literal : Option Literal) : Lexer Token := do
  return ⟨kind, (← get).startPlace, .ofList (← lexeme), literal⟩

def lookahead (c : Char) (long short : TokenKind) : Lexer Token := do
  if ← advanceIf (· = c) then make long none else make short none

def slash : Lexer Token := do
  if ← advanceIf (· = '/') then lookahead '=' (.compound .floorDivide) (.binary .floorDivide)
  else lookahead '=' (.compound .divide) (.binary .divide)

def pair (c : Char) (kind : TokenKind) : Lexer Token := do
  if ← advanceIf (· = c) then make kind none else fail (.unexpectedCharacter c)

def isGap (c : Char) : Bool := c = ' ' || c = '\t'

def startsWithIf : List Char → Bool
  | 'i' :: 'f' :: tail => !tail.head?.any Scan.isWordChar
  | _ => false

def trailingIf : Lexer Bool := do
  let rest ← upcoming
  let behind := rest.dropWhile isGap
  let gap := byteLength rest - byteLength behind
  if gap = 0 || !startsWithIf behind then return false
  else
    advanceTimes (gap + 2)
    return true

def ident : Lexer Token := do
  let _ ← advanceWhile Scan.isWordChar
  let word ← lexeme
  let joined ← (if .ofList word = Keyword.otherwise.spelling then trailingIf else return false)
  if joined then make .elseIf none
  else
    match Keyword.ofWord? (.ofList word) with
    | some k => make (.keyword k) none
    | none => make .identifier none

def makeInteger (base : Nat) (digits : List Char) : Lexer Token := do
  match Word.ofInt? (digitsValue base digits) with
  | some n => make .integer (some (.int n))
  | none => fail (.integerTooLarge (.ofList (← lexeme)))

def makeFloat : Lexer Token := do
  let text ← lexeme
  match Decimal.ofChars? text with
  | some d => make .float (some (.float (Binary64.ofSizeBits false d.sizeBits)))
  | none => fail (.missingDigits (.ofList text))

def basedNumber (base : Nat) : Lexer Token := do
  let _ ← advance
  if (← advanceWhile (isDigit base)) = 0 then fail (.missingDigits (.ofList (← lexeme)))
  else
    let cursor ← get
    makeInteger base (← ofSlice (slice? (cursor.start + 2) cursor.current cursor.source))

def isExponent : List Char → Bool
  | 'e' :: c :: rest =>
    isDigit 10 c || (c = '+' || c = '-') && rest.head?.any (isDigit 10)
  | _ => false

def fraction : Lexer Bool := do
  if ← advanceIf (· = '.') then
    let _ ← advanceWhile (isDigit 10)
    return true
  else return false

def exponent : Lexer Bool := do
  if isExponent (← upcoming) then
    let _ ← advance
    let _ ← advanceIf fun c => c = '+' || c = '-'
    let _ ← advanceWhile (isDigit 10)
    return true
  else return false

def decimalNumber : Lexer Token := do
  let _ ← advanceWhile (isDigit 10)
  let point ← fraction
  let scaled ← exponent
  if point || scaled then makeFloat else makeInteger 10 (← lexeme)

def number (c : Char) : Lexer Token := do
  match Scan.base? c (← get).stream with
  | some base => basedNumber base
  | none => decimalNumber

-- The characters are those of the stream.
def advanceString : List Char → Lexer Unit
  | [] => fail .unterminatedString
  | '"' :: _ => do
    let _ ← advance
  | '\\' :: rest => do
    let _ ← advance
    match rest with
    | [] => fail .unterminatedString
    | _ :: rest =>
      let _ ← advance
      advanceString rest
  | _ :: rest => do
    let _ ← advance
    advanceString rest

def string : Lexer Token := do
  advanceString (← get).stream
  let cursor ← get
  let contents ← ofSlice (slice? (cursor.start + 1) (cursor.current - 1) cursor.source)
  make .string (some (.string (.ofList contents)))

def tokenFrom (c : Char) : Lexer Token := do
  match c with
  | '!' => lookahead '=' (.comparison .notEqual) .bang
  | '=' => lookahead '=' (.comparison .equal) .assign
  | '>' => lookahead '=' (.comparison .greaterEqual) (.comparison .greater)
  | '<' => lookahead '=' (.comparison .lessEqual) (.comparison .less)
  | '+' => lookahead '=' (.compound .add) (.binary .add)
  | '-' => lookahead '=' (.compound .subtract) (.binary .subtract)
  | '*' => lookahead '=' (.compound .multiply) (.binary .multiply)
  | '%' => lookahead '=' (.compound .modulo) (.binary .modulo)
  | '^' => lookahead '=' (.compound .power) (.binary .power)
  | '/' => slash
  | '&' => pair '&' (.logical .and)
  | '|' => pair '|' (.logical .or)
  | '#' =>
    let _ ← advanceWhile (· ≠ '\n')
    make .comment none
  | '"' => string
  | '$' =>
    if (← get).stream.head?.any Scan.isWordStart then ident else fail (.unexpectedCharacter c)
  | _ =>
    match TokenKind.ofChar? c with
    | some kind => make kind none
    | none =>
      if Scan.isWordStart c then ident
      else if isDigit 10 c then number c
      else fail (.unexpectedCharacter c)

def tokenAhead? : Lexer (Option Token) := do
  match ← advance with
  | none => return none
  | some c => return some (← tokenFrom c)

def next? : Lexer (Option Token) := do
  modify fun cursor => { cursor with start := cursor.current, startPlace := cursor.place }
  tokenAhead?

end Lexer

namespace Cursor

def ofSource (source : List Char) : Cursor := ⟨source, source, .start, 0, 0, .start⟩

inductive Tokens : Cursor → Except Failure (List Token) → Prop
  | done {cursor cursor' : Cursor} (last : Lexer.next? cursor = .ok (none, cursor')) :
      Tokens cursor (.ok [])
  | failed {cursor : Cursor} {e : Failure} (first : Lexer.next? cursor = .error e) :
      Tokens cursor (.error e)
  | next {cursor cursor' : Cursor} {t : Token} {r : Except Failure (List Token)}
      (first : Lexer.next? cursor = .ok (some t, cursor')) (later : Tokens cursor' r) :
      Tokens cursor (r.map (t :: ·))

end Cursor

end CalcScript
