import CalcScript.Command

set_option autoImplicit false

namespace CalcScript

mutual

def Statement.functions : Statement → List Function
  | .expression _ | .control _ _ _ => []
  | .branch _ body otherwise _ =>
    Statement.allFunctions body ++ Statement.elseFunctions otherwise
  | .loop _ body _ => Statement.allFunctions body
  | .function name params body => ⟨name, params, body⟩ :: Statement.allFunctions body

def Statement.allFunctions : List Statement → List Function
  | [] => []
  | s :: ss => s.functions ++ Statement.allFunctions ss

def Statement.elseFunctions : Option (List Statement) → List Function
  | none => []
  | some body => Statement.allFunctions body

end

theorem Statement.mem_allFunctions {f : Function} {items : List Statement} :
    f ∈ Statement.allFunctions items ↔ ∃ s ∈ items, f ∈ s.functions := by
  induction items with
  | nil => simp [Statement.allFunctions]
  | cons s items ih => simp [Statement.allFunctions, ih]

def Value.FromParser : Value → Prop
  | .function f => ∃ ts items, parseProgram ts = .ok items ∧ f ∈ Statement.allFunctions items
  | _ => True

/-- What a host can make of a new session, also where it gives up waiting for a loop. -/
inductive Session.Reachable : Session → Prop
  | start (console : Console) : Reachable (.ofConsole console)
  | evaluate {s : Session} (rounds : Nat) (source : String) (clearFirst : Bool)
      {last : Option Value} (reachable : Reachable s)
      (read : ∀ v, last = some v → v.FromParser) :
      Reachable (s.evaluate rounds source clearFirst last).2
  | evaluateExpression {s : Session} (rounds : Nat) (source : String) (reachable : Reachable s) :
      Reachable (s.evaluateExpression rounds source).2
  | evaluateFile {s : Session} (rounds : Nat) (files : Files) (path : String) (clearFirst : Bool)
      (reachable : Reachable s) : Reachable (s.evaluateFile rounds files path clearFirst).2
  | command {s : Session} (rounds : Nat) (files : Files) (c : Command) (reachable : Reachable s) :
      Reachable (s.command rounds files c).2
  | clear {s : Session} (reachable : Reachable s) : Reachable s.clear
  | feed {s : Session} (bytes : List UInt8) (reachable : Reachable s) :
      Reachable { s with console := s.console.feed bytes }

end CalcScript
