import CalcScript.Number.Numeral

set_option autoImplicit false

namespace CalcScript.Text

def named? : Char → Option Char
  | 'n' => some '\n'
  | 't' => some '\t'
  | 'r' => some '\r'
  | '0' => some '\x00'
  | '\\' => some '\\'
  | '"' => some '"'
  | '\'' => some '\''
  | 'a' => some '\x07'
  | 'b' => some '\x08'
  | 'f' => some '\x0c'
  | 'v' => some '\x0b'
  | _ => none

def codeWidth? : Char → Option Nat
  | 'x' => some 2
  | 'u' => some 4
  | _ => none

def coded? (width : Nat) (cs : List Char) : Option Char :=
  let code := cs.take width
  let value := digitsValue 16 code
  if code.length = width ∧ code.all (isDigit 16) ∧ value.isValidChar then some (.ofNat value)
  else none

def escaped? (e : Char) (cs : List Char) : Option (Char × Nat) :=
  match named? e with
  | some c => some (c, 0)
  | none =>
    match codeWidth? e with
    | some width => (coded? width cs).map fun c => (c, width)
    | none => none

def decode : List Char → List Char
  | [] => []
  | [c] => [c]
  | c :: e :: cs =>
    if c = '\\' then
      match escaped? e cs with
      | some (d, width) => d :: decode (cs.drop width)
      | none => c :: e :: decode cs
    else c :: decode (e :: cs)
termination_by cs => cs.length
decreasing_by
  all_goals
    simp only [List.length_cons, List.length_drop]
    omega

def unescape (s : String) : String := .ofList (decode s.toList)

end CalcScript.Text
