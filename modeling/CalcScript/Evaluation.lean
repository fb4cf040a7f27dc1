import CalcScript.FileTree
import CalcScript.Session
import CalcScript.Tree.Parse
import CalcScript.Value.Arithmetic
import CalcScript.Value.Comparison

set_option autoImplicit false

namespace CalcScript

abbrev Caller := Function → List Value → Position → Eval Value

namespace Eval

inductive Pending where
  | arithmetic (op : BinaryOp) (rhs : Eval Value) (pos : Position)
  | logic (op : LogicalOp) (rhs : Eval Value)

def resume (lhs : Value) : Pending → Eval Value
  | .arithmetic op rhs pos => do
    let r ← rhs
    ofExcept (Arithmetic.binary op lhs r pos)
  | .logic op rhs =>
    if op.decides lhs.truthy then return .ofBool lhs.truthy
    else do
      let r ← rhs
      return .ofBool r.truthy

def resumeAll : Value → List Pending → Eval Value
  | v, [] => return v
  | v, p :: pending => do
    let w ← resume v p
    resumeAll w pending

def named (i : Identifier) : Eval Value := do
  if isBuiltinName i.name then fail (.type i.pos (.builtinVariable i.name))
  else
    match ← lookup i with
    | some v => return v
    | none => fail (.name i.pos (.variable i.name))

def unary (op : UnaryOp) (v : Value) (pos : Position) : Eval Value :=
  match op with
  | .not => return .ofBool !v.truthy
  | .negate => ofExcept (Arithmetic.negate v pos)

-- Neighbours are compared from the left, also behind a comparison that does not hold.
def compareAll : List ComparisonOp → List Value → Position → Except Error Bool
  | op :: ops, v :: w :: vs, pos => do
    let first ← Comparison.compare op v w pos
    let rest ← compareAll ops (w :: vs) pos
    return first && rest
  | _, _, _ => return true

inductive Callee where
  | user (f : Function)
  | builtin (b : Builtin)

def Callee.name : Callee → String
  | .user f => f.name.name
  | .builtin b => b.name

def Callee.arity : Callee → Arity
  | .user f => .exactly f.params.length
  | .builtin b => b.arity

-- Bindings come before built-in functions. The number of arguments is checked before they are
-- evaluated.
def callee (i : Identifier) (given : Nat) : Eval Callee := do
  let target ←
    match ← lookup i with
    | some (.function f) => Pure.pure (Callee.user f)
    | some v => fail (.type i.pos (.notAFunction i.name v))
    | none =>
      match Builtin.ofName? i.name with
      | some b => Pure.pure (Callee.builtin b)
      | none => fail (.name i.pos (.function i.name))
  if target.arity.accepts given then return target
  else fail (.type i.pos (.argumentCount target.name target.arity given))

def apply (caller : Caller) (target : Callee) (args : List Value) (pos : Position) : Eval Value :=
  match target with
  | .user f => caller f args pos
  | .builtin b => b.call args pos

mutual

/-- Evaluates an expression and does what is left with its value. The left operands of a run of
operators are walked down and nothing but what is left to do is remembered. -/
def walk (caller : Caller) : Expr → List Pending → Eval Value
  | .binary op lhs rhs pos, pending =>
    walk caller lhs (.arithmetic op (walk caller rhs []) pos :: pending)
  | .logical op lhs rhs _, pending => walk caller lhs (.logic op (walk caller rhs []) :: pending)
  | .literal value _, pending => resumeAll (.ofLiteral value) pending
  | .variable i, pending => do
    let v ← named i
    resumeAll v pending
  | .unary op e pos, pending => do
    let v ← walk caller e []
    let w ← unary op v pos
    resumeAll w pending
  | .assignment i e, pending => do
    if isBuiltinName i.name then fail (.type i.pos (.builtinTarget i.name))
    else
      let v ← walk caller e []
      bindName i v
      resumeAll v pending
  | .comparison es ops pos, pending => do
    if ops = [] ∨ es.length ≠ ops.length + 1 then fail (.internal (.malformedChain pos))
    else
      let vs ← walkAll caller es
      let holds ← ofExcept (compareAll ops vs pos)
      resumeAll (.ofBool holds) pending
  | .call i es, pending => do
    let target ← callee i es.length
    let vs ← walkAll caller es
    let v ← apply caller target vs i.pos
    resumeAll v pending

def walkAll (caller : Caller) : List Expr → Eval (List Value)
  | [] => return []
  | e :: es => do
    let v ← walk caller e []
    let vs ← walkAll caller es
    return v :: vs

end

def expression (caller : Caller) (e : Expr) : Eval Value := walk caller e []

def repeatWhile (condition : Eval Value) (body : Eval Unit) : Nat → Eval Value
  | 0 => interrupt .exhausted
  | rounds + 1 => do
    let v ← condition
    if v.truthy then
      fun s =>
        match body s with
        | (.ok (), s) => repeatWhile condition body rounds s
        | (.error (.signal ⟨.control .continueLoop, _, _⟩), s) =>
          repeatWhile condition body rounds s
        | (.error (.signal ⟨.control .breakLoop, _, _⟩), s) => (.ok .nothing, s)
        | (.error i, s) => (.error i, s)
    else return .nothing

def define (f : Function) : Eval Value := do
  if isBuiltinName f.name.name then fail (.type f.name.pos (.builtinRedefined f.name.name))
  else
    match f.params.find? (isBuiltinName ·.name) with
    | some param => fail (.type param.pos (.builtinParameter param.name))
    | none =>
      bindName f.name (.function f)
      return .nothing

mutual

def statement (rounds : Nat) (caller : Caller) : Statement → Eval Value
  | .expression e => expression caller e
  | .branch condition body otherwise _ => do
    let v ← expression caller condition
    if v.truthy then
      block rounds caller body
      return .nothing
    else
      match otherwise with
      | none => return .nothing
      | some body =>
        block rounds caller body
        return .nothing
  | .loop condition body _ =>
    repeatWhile (expression caller condition) (block rounds caller body) rounds
  | .function name params body => define ⟨name, params, body⟩
  | .control kind none pos => interrupt (.signal ⟨.control kind, none, pos⟩)
  | .control kind (some e) pos => do
    let v ← expression caller e
    interrupt (.signal ⟨.control kind, some v, pos⟩)

def block (rounds : Nat) (caller : Caller) : List Statement → Eval Unit
  | [] => return ()
  | s :: rest => do
    let _ ← statement rounds caller s
    block rounds caller rest

end

def caught : Except Interrupt Unit → Except Interrupt Value
  | .ok () => .ok .nothing
  | .error (.signal ⟨.control .returnValue, value, _⟩) => .ok (value.getD .nothing)
  | .error (.signal ⟨.control kind, value, pos⟩) =>
    .error (.error (.misuse ⟨.control kind, value, pos⟩))
  | .error i => .error i

def arguments (params : List Identifier) (args : List Value) : Frame :=
  .ofList ((params.map (·.name)).zip args)

def call (rounds : Nat) : Nat → Caller
  | 0, _, _, pos => fail (.recursion pos)
  | depth + 1, f, args, _ => fun s =>
    let (result, s) := inFrame (arguments f.params args) (block rounds (call rounds depth) f.body) s
    (caught result, s)

def statements (rounds : Nat) (caller : Caller) : List Statement → Eval (List Value)
  | [] => return []
  | s :: rest => do
    let v ← statement rounds caller s
    let vs ← statements rounds caller rest
    return v :: vs

end Eval

inductive Outcome (α : Type) where
  | value (a : α)
  | error (e : Error)
  | exhausted

def Outcome.map {α β : Type} (f : α → β) : Outcome α → Outcome β
  | .value a => .value (f a)
  | .error e => .error e
  | .exhausted => .exhausted

def Outcome.ofResult {α : Type} : Except Interrupt α → Outcome α
  | .ok a => .value a
  | .error (.error e) => .error e
  | .error (.signal s) => .error (.misuse s)
  | .error .exhausted => .exhausted

namespace Session

def run {α : Type} (m : Eval α) (s : Session) : Outcome α × Session :=
  let (result, s) := m s
  (.ofResult result, s)

def runStatements (rounds : Nat) (items : List Statement) (s : Session) :
    Outcome (List Value) × Session :=
  s.run (Eval.statements rounds (Eval.call rounds maxCallDepth) items)

def clear (s : Session) : Session := { s with globals := .initial, calls := [] }

def evaluate (rounds : Nat) (source : String) (clearFirst : Bool) (last : Option Value)
    (s : Session) : Outcome (List Value) × Session :=
  if Text.trim source.toList = [] then (.value [], s)
  else
    match readProgram source with
    | .error e => (.error (.source e), s)
    | .ok items =>
      let s := if clearFirst then s.clear else s
      let s := match last with
        | some v => { s with globals := s.globals.set "_" v }
        | none => s
      s.runStatements rounds items

def evaluateExpression (rounds : Nat) (source : String) (s : Session) : Outcome Value × Session :=
  match readExpression source with
  | .error e => (.error (.source e), s)
  | .ok e => s.run (Eval.expression (Eval.call rounds maxCallDepth) e)

def evaluateFile (rounds : Nat) (files : Files) (path : String) (clearFirst : Bool)
    (s : Session) : Outcome (List Value) × Session :=
  match readSource files path with
  | .error fault => (.error (.io fault), s)
  | .ok source => s.evaluate rounds source clearFirst none

end Session

end CalcScript
