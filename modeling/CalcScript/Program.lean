import CalcScript.Prompt

set_option autoImplicit false

namespace CalcScript

inductive Invocation where
  | version
  | file (path : String) (showTree : Bool)
  | prompt (showTree : Bool)
deriving DecidableEq, Repr

namespace Invocation

def ofRest? : Option String → Bool → List String → Option Invocation
  | none, showTree, [] => some (.prompt showTree)
  | some path, showTree, [] => some (.file path showTree)
  | path?, showTree, arg :: rest =>
    if arg = "--version" ∨ arg = "-V" then some .version
    else if arg = "--dump-ast" then if showTree then none else ofRest? path? true rest
    else if arg.startsWith "-" ∧ arg ≠ "-" then none
    else
      match path? with
      | none => ofRest? (some arg) showTree rest
      | some _ => none

def ofArguments? (args : List String) : Option Invocation := ofRest? none false args

end Invocation

structure Run where
  output : String
  diagnostics : String
  code : Nat
deriving DecidableEq, Repr

namespace Run

def versionText : String := "procyon " ++ version ++ "\n"

def unreadable (path : String) (fault : IoFault) : Run :=
  ⟨"", "Failed to read '" ++ path ++ "': " ++ fault.text ++ "\n", 1⟩

def ofSource (rounds : Nat) (source : String) (showTree : Bool) (console : Console) : Bool × Run :=
  let tree := if showTree then Report.outline source else ""
  let (outcome, s) := (Session.ofConsole console).evaluate rounds source false none
  let output := s.console.written
  match outcome with
  | .value _ => (true, ⟨output, tree, 0⟩)
  | .error e => (true, ⟨output, tree ++ Report.error source e, 1⟩)
  | .exhausted => (false, ⟨output, tree, 1⟩)

def ofPrompt (p : Prompt) : Run := ⟨p.session.console.written, p.diagnostics, 0⟩

-- A run with a whole input. No session takes more steps than there are bytes.
def ofInvocation (rounds : Nat) (files : Files) (input : List UInt8) : Invocation → Run
  | .version => ⟨versionText, "", 0⟩
  | .file path showTree =>
    match readSource files path with
    | .error fault => unreadable path fault
    | .ok source => (ofSource rounds source showTree (.ofInput input)).2
  | .prompt showTree =>
    ofPrompt ((Prompt.start (.ofInput input)).run rounds files showTree (input.length + 1))

end Run

end CalcScript
