import CalcScript.Proofs.Equations
import CalcScript.Proofs.Preservation

set_option autoImplicit false

namespace CalcScript

inductive Act where
  | expression (e : Expr)
  | statement (s : Statement)
  | call (target : Eval.Callee) (args : List Value) (pos : Position)

structure Nesting where
  active : List Function
  room : Nat

structure Event extends Nesting where
  act : Act
  session : Session

structure Traced (α : Type) where
  eval : Eval α
  trace : Session → List Event

namespace Traced

open Eval (Callee)

variable {α β : Type}

def silent (m : Eval α) : Traced α := ⟨m, fun _ => []⟩

def bind (m : Traced α) (f : α → Traced β) : Traced β where
  eval := m.eval >>= fun a => (f a).eval
  trace s := m.trace s ++
    match m.eval s with
    | (.ok a, s) => (f a).trace s
    | (.error _, _) => []

instance : Monad Traced where
  pure a := silent (pure a)
  bind := bind

instance : MonadLift Eval Traced := ⟨silent⟩

def enter (nest : Nesting) (act : Act) (m : Traced α) : Traced α :=
  ⟨m.eval, fun s => ⟨nest, act, s⟩ :: m.trace s⟩

@[simp] theorem eval_pure (a : α) : (pure a : Traced α).eval = pure a := rfl

@[simp] theorem eval_bind (m : Traced α) (f : α → Traced β) :
    (m >>= f).eval = m.eval >>= fun a => (f a).eval := rfl

@[simp] theorem eval_lift (m : Eval α) : (liftM m : Traced α).eval = m := rfl

@[simp] theorem eval_enter (nest : Nesting) (act : Act) (m : Traced α) :
    (enter nest act m).eval = m.eval := rfl

@[simp] theorem eval_ite (c : Prop) [Decidable c] (m n : Traced α) :
    (if c then m else n).eval = if c then m.eval else n.eval := by
  split <;> rfl

abbrev Caller := Function → List Value → Position → Traced Value

def Caller.eval (caller : Caller) : CalcScript.Caller := fun f args pos => (caller f args pos).eval

section

variable (nest : Nesting) (caller : Caller)

def apply (target : Callee) (args : List Value) (pos : Position) : Traced Value :=
  match target with
  | .user f => caller f args pos
  | .builtin b => enter nest (.call (.builtin b) args pos) (b.call args pos)

mutual

def expression : Expr → Traced Value
  | .literal value pos =>
    enter nest (.expression (.literal value pos)) (return .ofLiteral value)
  | .variable i => enter nest (.expression (.variable i)) (Eval.named i)
  | .unary op e pos => enter nest (.expression (.unary op e pos)) do
    let v ← expression e
    Eval.unary op v pos
  | .binary op l r pos => enter nest (.expression (.binary op l r pos)) do
    let v ← expression l
    let w ← expression r
    Eval.ofExcept (Arithmetic.binary op v w pos)
  | .logical op l r pos => enter nest (.expression (.logical op l r pos)) do
    let v ← expression l
    if op.decides v.truthy then return .ofBool v.truthy
    else do
      let w ← expression r
      return .ofBool w.truthy
  | .assignment i e => enter nest (.expression (.assignment i e))
    (if isBuiltinName i.name then Eval.fail (.type i.pos (.builtinTarget i.name))
    else do
      let v ← expression e
      Eval.bindName i v
      return v)
  | .comparison es ops pos => enter nest (.expression (.comparison es ops pos))
    (if ops = [] ∨ es.length ≠ ops.length + 1 then Eval.fail (.internal (.malformedChain pos))
    else do
      let vs ← expressions es
      let holds ← Eval.ofExcept (Eval.compareAll ops vs pos)
      return .ofBool holds)
  | .call i es => enter nest (.expression (.call i es)) do
    let target ← Eval.callee i es.length
    let vs ← expressions es
    apply nest caller target vs i.pos

def expressions : List Expr → Traced (List Value)
  | [] => return []
  | e :: es => do
    let v ← expression e
    let vs ← expressions es
    return v :: vs

end

def roundThen (body : Traced Unit) (later : Traced Value) : Traced Value where
  eval := Eval.Invariant.roundThen body.eval later.eval
  trace s := body.trace s ++
    match body.eval s with
    | (.ok (), s) => later.trace s
    | (.error (.signal ⟨.control .continueLoop, _, _⟩), s) => later.trace s
    | _ => []

def repeatWhile (condition : Traced Value) (body : Traced Unit) : Nat → Traced Value
  | 0 => (Eval.interrupt .exhausted : Eval Value)
  | rounds + 1 => do
    let v ← condition
    if v.truthy then roundThen body (repeatWhile condition body rounds) else return .nothing

mutual

def statement (rounds : Nat) : Statement → Traced Value
  | .expression e => enter nest (.statement (.expression e)) (expression nest caller e)
  | .branch condition body otherwise pos =>
    enter nest (.statement (.branch condition body otherwise pos)) do
      let v ← expression nest caller condition
      if v.truthy then
        block rounds body
        return .nothing
      else
        match otherwise with
        | none => return .nothing
        | some body =>
          block rounds body
          return .nothing
  | .loop condition body pos =>
    enter nest (.statement (.loop condition body pos))
      (repeatWhile (expression nest caller condition) (block rounds body) rounds)
  | .function name params body =>
    enter nest (.statement (.function name params body)) (Eval.define ⟨name, params, body⟩)
  | .control kind none pos =>
    enter nest (.statement (.control kind none pos))
      (Eval.interrupt (.signal ⟨.control kind, none, pos⟩) : Eval Value)
  | .control kind (some e) pos => enter nest (.statement (.control kind (some e) pos)) do
    let v ← expression nest caller e
    (Eval.interrupt (.signal ⟨.control kind, some v, pos⟩) : Eval Value)

def block (rounds : Nat) : List Statement → Traced Unit
  | [] => return ()
  | s :: rest => do
    let _ ← statement rounds s
    block rounds rest

end

def statements (rounds : Nat) : List Statement → Traced (List Value)
  | [] => return []
  | s :: rest => do
    let v ← statement nest caller rounds s
    let vs ← statements rounds rest
    return v :: vs

end

def inCall (frame : Frame) (body : Traced Unit) : Traced Value where
  eval s :=
    let (result, s) := Eval.inFrame frame body.eval s
    (Eval.caught result, s)
  trace s := body.trace { s with calls := frame :: s.calls }

def call (rounds : Nat) : Nat → List Function → Caller
  | 0, active, f, args, pos =>
    enter ⟨active, 0⟩ (.call (.user f) args pos) (Eval.fail (.recursion pos) : Eval Value)
  | room + 1, active, f, args, pos =>
    enter ⟨active, room + 1⟩ (.call (.user f) args pos)
      (inCall (Eval.arguments f.params args)
        (block ⟨f :: active, room⟩ (call rounds room (f :: active)) rounds f.body))

section

variable (nest : Nesting) (caller : Caller)

theorem eval_apply (target : Callee) (args : List Value) (pos : Position) :
    (apply nest caller target args pos).eval = Eval.apply caller.eval target args pos := by
  cases target <;> rfl

mutual

theorem eval_expression : ∀ e : Expr,
    (expression nest caller e).eval = Eval.expression caller.eval e
  | .literal value pos => by simp [expression, Eval.expression_literal]
  | .variable i => by simp [expression, Eval.expression_variable]
  | .unary op e pos => by simp [expression, Eval.expression_unary, eval_expression e]
  | .binary op l r pos => by
    simp [expression, Eval.expression_binary, eval_expression l, eval_expression r]
  | .logical op l r pos => by
    simp [expression, Eval.expression_logical, eval_expression l, eval_expression r]
  | .assignment i e => by simp [expression, Eval.expression_assignment, eval_expression e]
  | .comparison es ops pos => by
    simp [expression, Eval.expression_comparison, eval_expressions es]
  | .call i es => by
    simp [expression, Eval.expression_call, eval_expressions es, eval_apply]

theorem eval_expressions : ∀ es : List Expr,
    (expressions nest caller es).eval = Eval.walkAll caller.eval es
  | [] => by rw [expressions, Eval.walkAll]; rfl
  | e :: es => by
    simp [expressions, Eval.walkAll_cons, eval_expression e, eval_expressions es]

end

theorem eval_repeatWhile (condition : Traced Value) (body : Traced Unit) (rounds : Nat) :
    (repeatWhile condition body rounds).eval =
      Eval.repeatWhile condition.eval body.eval rounds := by
  induction rounds with
  | zero => rfl
  | succ rounds ih =>
    simp only [repeatWhile, Eval.Invariant.repeatWhile_succ, eval_bind, eval_ite, roundThen, ih]
    rfl

mutual

theorem eval_statement (rounds : Nat) : ∀ s : Statement,
    (statement nest caller rounds s).eval = Eval.statement rounds caller.eval s
  | .expression e => by simp [statement, Eval.statement, eval_expression]
  | .branch condition body none pos => by
    simp [statement, Eval.statement, eval_expression, eval_block rounds body]
  | .branch condition body (some other) pos => by
    simp [statement, Eval.statement, eval_expression, eval_block rounds body,
      eval_block rounds other]
  | .loop condition body pos => by
    simp [statement, Eval.statement, eval_expression, eval_repeatWhile, eval_block rounds body]
  | .function name params body => by simp [statement, Eval.statement]
  | .control kind none pos => by simp [statement, Eval.statement]
  | .control kind (some e) pos => by simp [statement, Eval.statement, eval_expression]

theorem eval_block (rounds : Nat) : ∀ body : List Statement,
    (block nest caller rounds body).eval = Eval.block rounds caller.eval body
  | [] => by rw [block, Eval.block]; rfl
  | s :: rest => by simp [block, Eval.block, eval_statement rounds s, eval_block rounds rest]

end

theorem eval_statements (rounds : Nat) (items : List Statement) :
    (statements nest caller rounds items).eval = Eval.statements rounds caller.eval items := by
  induction items with
  | nil => rfl
  | cons s rest ih => simp [statements, Eval.statements, eval_statement, ih]

end

theorem eval_call (rounds room : Nat) (active : List Function) :
    (call rounds room active).eval = Eval.call rounds room := by
  induction room generalizing active with
  | zero => rfl
  | succ room ih =>
    funext f args pos s
    simp only [Caller.eval, call, eval_enter, inCall, eval_block, ih]
    rfl

end Traced

end CalcScript
