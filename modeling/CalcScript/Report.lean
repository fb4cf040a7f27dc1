import CalcScript.Error
import CalcScript.Text.Lines
import CalcScript.Tree.Outline
import CalcScript.Tree.Parse

set_option autoImplicit false

namespace CalcScript

namespace Report

def caret (line : List Char) (column : Nat) : List Char :=
  ((line.take (column - 1)).map fun c => if c = '\t' then c else ' ') ++ ['^']

def excerpt (source : String) (pos : Position) : String :=
  match (Text.lines source.toList)[pos.line - 1]? with
  | some line => .ofList (line ++ '\n' :: caret line pos.column ++ ['\n'])
  | none => ""

def error (source : String) (e : Error) : String :=
  let place :=
    match e with
    | .source (.located pos _) => excerpt source pos
    | _ => ""
  place ++ e.message ++ "\n"

def outline (source : String) : String :=
  match readProgram source with
  | .ok program => (Outline.ofProgram program).text ++ "\n"
  | .error e => e.message ++ "\n"

end Report

end CalcScript
