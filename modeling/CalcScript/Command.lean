import CalcScript.Evaluation

set_option autoImplicit false

namespace CalcScript

def version : String := "0.1.0"

inductive Command where
  | vars
  | help
  | load (path : String)
  | usage
  | unknown (name : String)
deriving DecidableEq, Repr

namespace Command

def ofWords : List String → Command
  | "vars" :: _ => .vars
  | "help" :: _ => .help
  | ["import", path] => .load path
  | "import" :: _ => .usage
  | name :: _ => .unknown name
  | [] => .unknown ""

def ofLine (line : String) : Command :=
  let body :=
    match Text.trim line.toList with
    | '.' :: cs => cs
    | cs => cs
  ofWords ((Text.words body).map .ofList)

def listed (globals : Frame) : List (String × Value) :=
  globals.bindings.filter fun (name, v) => name != "_" && !isConstant name v

def listing (globals : Frame) : String :=
  .join ((listed globals).map fun (name, v) => name ++ ":\t" ++ v.text ++ "\n")

def helpEntry (b : Builtin) : String :=
  match b.arity with
  | .exactly n => if 1 < n then b.name ++ "(" ++ toString n ++ ")" else b.name
  | .any => b.name

def helpText : String :=
  "\n".intercalate
    ["Procyon " ++ version,
      "",
      "Statements end with ';'. Blocks are wrapped in braces:",
      "    if cond \x7b ... \x7d else if cond \x7b ... \x7d else \x7b ... \x7d",
      "    while cond \x7b ... \x7d",
      "    func name(a, b) \x7b ... return a + b; \x7d",
      "Variables prefixed with '$' always live in the global scope.",
      "'_' holds the result of the previous REPL entry.",
      "",
      "Commands:",
      "    .vars           list variables set in the global scope",
      "    .import <file>  evaluate a file into the current session",
      "    .help           show this message",
      "",
      "Built-in functions: " ++ ", ".intercalate (Builtin.all.map helpEntry),
      "Built-in constants: " ++ ", ".intercalate (constants.map (·.1)),
      ""]

def usageText : String := "Usage: .import <file.pr>\n"

end Command

namespace Session

def print (text : String) (s : Session) : Outcome Unit × Session := s.run (Eval.write text)

def command (rounds : Nat) (files : Files) (c : Command) (s : Session) : Outcome Unit × Session :=
  match c with
  | .vars => s.print (Command.listing s.globals)
  | .help => s.print Command.helpText
  | .load path =>
    let (outcome, s) := s.evaluateFile rounds files path false
    (outcome.map fun _ => (), s)
  | .usage => s.print Command.usageText
  | .unknown name => (.error (.unknownCommand name), s)

end Session

end CalcScript
