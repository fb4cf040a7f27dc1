import CalcScript.Builtin
import CalcScript.Console
import CalcScript.Frame
import CalcScript.Number.Numeral
import CalcScript.Text.Lines
import CalcScript.Text.Escape

set_option autoImplicit false

namespace CalcScript

structure Session where
  globals : Frame
  calls : List Frame
  console : Console

/-- What ends an evaluation without a value. It is exhausted when it needs more rounds of a loop, or
more input, than it was given. -/
inductive Interrupt where
  | error (e : Error)
  | signal (s : Signal)
  | exhausted

def Eval (α : Type) : Type := Session → Except Interrupt α × Session

namespace Eval

def pure {α : Type} (a : α) : Eval α := fun s => (.ok a, s)

def bind {α β : Type} (m : Eval α) (f : α → Eval β) : Eval β := fun s =>
  match m s with
  | (.ok a, s) => f a s
  | (.error i, s) => (.error i, s)

instance : Monad Eval where
  pure := pure
  bind := bind

@[simp] theorem pure_apply {α : Type} (a : α) (s : Session) :
    (Pure.pure a : Eval α) s = (.ok a, s) := rfl

theorem bind_apply {α β : Type} (m : Eval α) (f : α → Eval β) (s : Session) :
    (m >>= f) s =
      match m s with
      | (.ok a, s) => f a s
      | (.error i, s) => (.error i, s) := rfl

def interrupt {α : Type} (i : Interrupt) : Eval α := fun s => (.error i, s)

def fail {α : Type} (e : Error) : Eval α := interrupt (.error e)

def ofExcept {α : Type} : Except Error α → Eval α
  | .ok a => pure a
  | .error e => fail e

end Eval

namespace Session

def ofConsole (console : Console) : Session := ⟨.initial, [], console⟩

def scope (s : Session) : Scope :=
  match s.calls with
  | [] => ⟨s.globals, []⟩
  | frame :: _ => ⟨frame, [s.globals]⟩

def lookup (s : Session) (i : Identifier) : Option Value :=
  if i.isGlobal then s.globals.get? i.name else s.scope.get? i.name

def bind (s : Session) (i : Identifier) (v : Value) : Session :=
  match s.calls with
  | frame :: rest =>
    if i.isGlobal then { s with globals := s.globals.set i.name v }
    else { s with calls := frame.set i.name v :: rest }
  | [] => { s with globals := s.globals.set i.name v }

end Session

namespace Eval

def lookup (i : Identifier) : Eval (Option Value) := fun s => (.ok (s.lookup i), s)

def bindName (i : Identifier) (v : Value) : Eval Unit := fun s => (.ok (), s.bind i v)

def write (text : String) : Eval Unit := fun s =>
  match s.console.write? text with
  | some console => (.ok (), { s with console })
  | none => (.error (.error (.io .brokenPipe)), s)

def readLine : Eval String := fun s =>
  let (line, console) := s.console.readLine
  let result : Except Interrupt String :=
    match line with
    | .text text => .ok text
    | .invalid => .error (.error (.io .invalidText))
    | .noMore => .error (.error (.io .endOfInput))
    | .notYet => .error .exhausted
  (result, { s with console })

def inFrame {α : Type} (frame : Frame) (m : Eval α) : Eval α := fun s =>
  let (result, s) := m { s with calls := frame :: s.calls }
  (result, { s with calls := s.calls.tail })

end Eval

namespace Builtin

def ofLine (kind : InputKind) (line : String) (pos : Position) : Except Error Value :=
  match kind with
  | .string => .ok (.string line)
  | .int =>
    match Word.ofChars? (Text.trim line.toList) with
    | some n => .ok (.int n)
    | none => .error (.type pos .enteredInt)
  | .float =>
    match Binary64.ofChars? (Text.trim line.toList) with
    | some x => .ok (.float x)
    | none => .error (.type pos .enteredFloat)

-- What is printed for an argument. Only here the escapes of strings are decoded.
def printed : Value → String
  | .string s => Text.unescape s
  | v => v.text

def call (b : Builtin) (args : List Value) (pos : Position) : Eval Value :=
  match b, args with
  | .print, args => do
    Eval.write (" ".intercalate (args.map printed) ++ "\n")
    return .nothing
  | .abort, _ => Eval.interrupt (.signal ⟨.abort, none, pos⟩)
  | .input kind, [prompt] => do
    Eval.write prompt.text
    let line ← Eval.readLine
    Eval.ofExcept (ofLine kind line pos)
  | b, args => Eval.ofExcept (b.numeric args pos)

end Builtin

end CalcScript
