import CalcScript.Program

set_option autoImplicit false

namespace CalcScript.CommandLine

-- More rounds than a loop gets through.
def rounds : Nat := 1000000000000000000

def fault : IO.Error → IoFault
  | .inappropriateType _ 21 _ => .isDirectory
  | .inappropriateType _ _ _ => .notDirectory
  | .permissionDenied _ _ _ => .denied
  | _ => .notFound

def readFile (path : String) : IO (Except IoFault (List UInt8)) := do
  try return .ok (← IO.FS.readBinFile path).toList
  catch e => return .error (fault e)

partial def readLine (input : IO.FS.Stream) (line : ByteArray) : IO (List UInt8) := do
  let byte ← input.read 1
  let line := line ++ byte
  if byte.isEmpty || byte.toList == [10] then return line.toList
  readLine input line

def nextLine : IO (List UInt8) := do readLine (← IO.getStdin) .empty

def put (stream : IO.FS.Stream) (text : String) (skipped : Nat) : IO Unit := do
  stream.write (text.toUTF8.extract skipped text.utf8ByteSize)
  stream.flush

def emit (written now : Run) : IO Unit := do
  put (← IO.getStderr) now.diagnostics written.diagnostics.utf8ByteSize
  put (← IO.getStdout) now.output written.output.utf8ByteSize

def nothing : Run := ⟨"", "", 0⟩

partial def runSource (source : String) (showTree : Bool) (console : Console) (written : Run) :
    IO UInt32 := do
  let (ended, run) := Run.ofSource rounds source showTree console
  emit written run
  if ended then return .ofNat run.code
  runSource source showTree (console.feed (← nextLine)) run

partial def converse (showTree : Bool) (p : Prompt) (written : Run) : IO Unit := do
  let contents ←
    match p.load? with
    | some path => readFile path
    | none => pure (.error .notFound)
  let (status, q) := p.step rounds (fun _ => contents) showTree
  emit written (.ofPrompt q)
  match status with
  | .going => converse showTree q.flushed nothing
  | .exhausted => converse showTree (p.feed (← nextLine)) (.ofPrompt q)
  | .closed => return

def console : Console := ⟨[], false, "", false⟩

def run : Invocation → IO UInt32
  | .version => do
    emit nothing ⟨Run.versionText, "", 0⟩
    return 0
  | .file path showTree => do
    let contents ← readFile path
    match readSource (fun _ => contents) path with
    | .error fault =>
      emit nothing (.unreadable path fault)
      return 1
    | .ok source => runSource source showTree console nothing
  | .prompt showTree => do
    converse showTree (.start console) nothing
    return 0

end CalcScript.CommandLine

def main (args : List String) : IO UInt32 := do
  match CalcScript.Invocation.ofArguments? args with
  | some invocation => CalcScript.CommandLine.run invocation
  | none =>
    IO.eprintln "Usage: procyon [--dump-ast] [FILE]"
    return 2
