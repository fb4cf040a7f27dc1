import CalcScript.Command
import CalcScript.Report

set_option autoImplicit false

namespace CalcScript

structure Prompt where
  session : Session
  pending : String
  last : Option Value
  diagnostics : String

namespace Prompt

inductive Status where
  | going
  | closed
  | exhausted
deriving DecidableEq, Repr

def greeting : String := "Procyon " ++ version ++ ". Type .help for help.\n"

-- Standard output takes what is written. Where it fails, the process ends, and nothing here is
-- about that.
def write (text : String) (p : Prompt) : Prompt := { p with session := (p.session.print text).2 }

def start (console : Console) : Prompt :=
  write greeting ⟨.ofConsole console, "", none, ""⟩

def mark (p : Prompt) : String := if p.pending = "" then "> " else ". "

def refused (source : String) (e : Error) (p : Prompt) : Prompt :=
  { p with pending := "", diagnostics := p.diagnostics ++ Report.error source e }

def shownValues (values : List Value) : List String :=
  values.filterMap fun v =>
    match v with
    | .nothing => none
    | v => some v.shown

def accepted (source : String) (values : List Value) (showTree : Bool) (p : Prompt) : Prompt :=
  let p := if showTree then { p with diagnostics := p.diagnostics ++ Report.outline source } else p
  let texts := shownValues values
  let p := if texts = [] then p else p.write (", ".intercalate texts ++ "\n")
  { p with pending := "", last := values.getLast?.or p.last }

def isCommand (line : String) : Bool := (Text.trimStart line.toList).head? = some '.'

def enter (rounds : Nat) (files : Files) (showTree : Bool) (line : String) (p : Prompt) :
    Status × Prompt :=
  if p.pending = "" ∧ isCommand line then
    match p.session.command rounds files (Command.ofLine line) with
    | (.value (), session) => (.going, { p with session })
    | (.error e, session) => (.going, refused line e { p with session })
    | (.exhausted, session) => (.exhausted, { p with session })
  else
    let source := if p.pending = "" then line else p.pending ++ "\n" ++ line
    match p.session.evaluate rounds source false p.last with
    | (.value values, session) => (.going, accepted source values showTree { p with session })
    | (.error (.source .incomplete), session) => (.going, { p with session, pending := source })
    | (.error e, session) => (.going, refused source e { p with session })
    | (.exhausted, session) => (.exhausted, { p with session })

def readLine (p : Prompt) : Line × Prompt :=
  let p := p.write p.mark
  let (line, console) := p.session.console.readLine
  let line :=
    match line with
    | .text text => .text (.ofList (Text.trimEnd text.toList))
    | line => line
  (line, { p with session := { p.session with console } })

def step (rounds : Nat) (files : Files) (showTree : Bool) (p : Prompt) : Status × Prompt :=
  match p.readLine with
  | (.text line, p) => p.enter rounds files showTree line
  | (.notYet, p) => (.exhausted, p)
  | (_, p) => (.closed, p.write "\n")

def run (rounds : Nat) (files : Files) (showTree : Bool) : Nat → Prompt → Prompt
  | 0, p => p
  | steps + 1, p =>
    match p.step rounds files showTree with
    | (.going, p) => run rounds files showTree steps p
    | (_, p) => p

def flushed (p : Prompt) : Prompt :=
  { p with
    diagnostics := ""
    session := { p.session with console := { p.session.console with written := "" } } }

def feed (bytes : List UInt8) (p : Prompt) : Prompt :=
  { p with session := { p.session with console := p.session.console.feed bytes } }

def load? (p : Prompt) : Option String :=
  match p.readLine with
  | (.text line, _) =>
    if p.pending = "" ∧ isCommand line then
      match Command.ofLine line with
      | .load path => some path
      | _ => none
    else none
  | _ => none

end Prompt

end CalcScript
