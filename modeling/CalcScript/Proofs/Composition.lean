import CalcScript.Proofs.Primitives
import CalcScript.Proofs.Tracing

set_option autoImplicit false

namespace CalcScript

namespace Eval

open Invariant (Access)

variable {α : Type}

def Quiet (m : Eval α) : Prop :=
  ∀ I : Invariant, I.Access → (∀ v, I.value v) → (∀ i, I.interrupt i) → I.Keeps Any m

namespace Quiet

theorem pure (a : α) : Quiet (Pure.pure a) := fun _ _ _ _ => .pure trivial

theorem interrupt (i : Interrupt) : Quiet (Eval.interrupt i : Eval α) :=
  fun _ _ _ interrupts => .interrupt (interrupts i)

theorem ofExcept (r : Except Error α) : Quiet (Eval.ofExcept r) := by
  cases r with
  | ok a => exact pure a
  | error e => exact interrupt (.error e)

theorem named (i : Identifier) : Quiet (Eval.named i) :=
  fun _ access _ _ => (access.named_keeps i).mono fun _ _ => trivial

theorem unary (op : UnaryOp) (v : Value) (pos : Position) : Quiet (Eval.unary op v pos) :=
  fun _ access _ _ => (access.unary_keeps op v pos).mono fun _ _ => trivial

theorem callee (i : Identifier) (given : Nat) : Quiet (Eval.callee i given) :=
  fun _ access _ _ => (access.callee_keeps i given).mono fun _ _ => trivial

theorem bindName {i : Identifier} (free : isBuiltinName i.name = false) (v : Value) :
    Quiet (Eval.bindName i v) :=
  fun _ access values _ => access.bindName free (values v)

theorem define (f : Function) : Quiet (Eval.define f) :=
  fun _ access values _ => (access.define_keeps fun _ _ => values _).mono fun _ _ => trivial

theorem builtin {b : Builtin} (other : ∀ kind, b ≠ .input kind) (args : List Value)
    (pos : Position) : Quiet (b.call args pos) := by
  intro I access values interrupts
  cases b with
  | input kind => exact absurd rfl (other kind)
  | print => exact (access.write _).bind fun _ _ => .pure trivial
  | abort => exact .interrupt (interrupts _)
  | real f | atan2 | abs | whole f | round => exact ofExcept _ I access values interrupts

end Quiet

end Eval

def Act.isBuiltin : Act → Bool
  | .call (.builtin _) _ _ => true
  | _ => false

namespace Traced

structure Composed (T : {α : Type} → Traced α → Prop) : Prop where
  quiet {α : Type} {m : Eval α} (h : m.Quiet) : T (silent m)
  builtin (nest : Nesting) (b : Builtin) (args : List Value) (pos : Position) :
    T (enter nest (.call (.builtin b) args pos) (b.call args pos))
  enter {α : Type} {nest : Nesting} {act : Act} {m : Traced α} (own : act.isBuiltin = false)
    (inside : T m) : T (enter nest act m)
  bind {α β : Type} {m : Traced α} {f : α → Traced β} (first : T m) (later : ∀ a, T (f a)) :
    T (m >>= f)
  roundThen {body : Traced Unit} {later : Traced Value} (round : T body) (next : T later) :
    T (roundThen body later)
  inCall {frame : Frame} {body : Traced Unit} (inside : T body) : T (inCall frame body)

namespace Composed

variable {T : {α : Type} → Traced α → Prop} (composed : Composed T) {α : Type} {nest : Nesting}
  {caller : Caller}

include composed

theorem pure (a : α) : T (Pure.pure a : Traced α) := composed.quiet (.pure a)

theorem interrupt (i : Interrupt) : T (liftM (Eval.interrupt i : Eval α) : Traced α) :=
  composed.quiet (.interrupt i)

theorem ofExcept (r : Except Error α) : T (liftM (Eval.ofExcept r) : Traced α) :=
  composed.quiet (.ofExcept r)

theorem repeatWhile {condition : Traced Value} {body : Traced Unit} (test : T condition)
    (round : T body) (rounds : Nat) : T (repeatWhile condition body rounds) := by
  induction rounds with
  | zero => exact composed.interrupt .exhausted
  | succ rounds ih =>
    refine composed.bind test fun v => ?_
    split
    · exact composed.roundThen round ih
    · exact composed.pure _

mutual

theorem expression (calls : ∀ f args pos, T (caller f args pos)) : ∀ e : Expr,
    T (expression nest caller e)
  | .literal v pos => composed.enter rfl (composed.pure _)
  | .variable i => composed.enter rfl (composed.quiet (.named i))
  | .unary op e pos => composed.enter rfl (composed.bind (expression calls e) fun v =>
      composed.quiet (.unary op v pos))
  | .binary op l r pos => composed.enter rfl (composed.bind (expression calls l) fun _ =>
      composed.bind (expression calls r) fun _ => composed.ofExcept _)
  | .logical op l r pos => by
    refine composed.enter rfl (composed.bind (expression calls l) fun v => ?_)
    split
    · exact composed.pure _
    · exact composed.bind (expression calls r) fun _ => composed.pure _
  | .assignment i e => by
    refine composed.enter rfl ?_
    split
    · exact composed.interrupt _
    · next free =>
      have unreserved : isBuiltinName i.name = false := by simpa using free
      exact composed.bind (expression calls e) fun v =>
        composed.bind (composed.quiet (.bindName unreserved v)) fun _ => composed.pure v
  | .comparison es ops pos => by
    refine composed.enter rfl ?_
    split
    · exact composed.interrupt _
    · exact composed.bind (expressions calls es) fun vs =>
        composed.bind (composed.ofExcept _) fun _ => composed.pure _
  | .call i es => by
    refine composed.enter rfl (composed.bind (composed.quiet (.callee i es.length)) fun target =>
      composed.bind (expressions calls es) fun vs => ?_)
    cases target with
    | user f => exact calls f vs i.pos
    | builtin b => exact composed.builtin nest b vs i.pos

theorem expressions (calls : ∀ f args pos, T (caller f args pos)) :
    ∀ es : List Expr, T (expressions nest caller es)
  | [] => composed.pure _
  | e :: es => composed.bind (expression calls e) fun _ =>
      composed.bind (expressions calls es) fun _ => composed.pure _

end

mutual

theorem statement (calls : ∀ f args pos, T (caller f args pos)) (rounds : Nat) :
    ∀ s : Statement, T (statement nest caller rounds s)
  | .expression e => composed.enter rfl (composed.expression calls e)
  | .branch condition body none pos => by
    refine composed.enter rfl (composed.bind (composed.expression calls condition) fun v => ?_)
    split
    · exact composed.bind (block calls rounds body) fun _ => composed.pure _
    · exact composed.pure _
  | .branch condition body (some other) pos => by
    refine composed.enter rfl (composed.bind (composed.expression calls condition) fun v => ?_)
    split
    · exact composed.bind (block calls rounds body) fun _ => composed.pure _
    · exact composed.bind (block calls rounds other) fun _ => composed.pure _
  | .loop condition body pos => composed.enter rfl
      (composed.repeatWhile (composed.expression calls condition) (block calls rounds body) rounds)
  | .function name params body => composed.enter rfl (composed.quiet (.define _))
  | .control kind none pos => composed.enter rfl (composed.interrupt _)
  | .control kind (some e) pos => composed.enter rfl
      (composed.bind (composed.expression calls e) fun _ => composed.interrupt _)

theorem block (calls : ∀ f args pos, T (caller f args pos)) (rounds : Nat) :
    ∀ body : List Statement, T (block nest caller rounds body)
  | [] => composed.pure _
  | s :: rest => composed.bind (statement calls rounds s) fun _ => block calls rounds rest

end

theorem statements (calls : ∀ f args pos, T (caller f args pos))
    (rounds : Nat) (items : List Statement) : T (statements nest caller rounds items) := by
  induction items with
  | nil => exact composed.pure _
  | cons s rest ih =>
    exact composed.bind (composed.statement calls rounds s) fun _ =>
      composed.bind ih fun _ => composed.pure _

theorem call (rounds room : Nat) (active : List Function) (f : Function) (args : List Value)
    (pos : Position) : T (call rounds room active f args pos) := by
  induction room generalizing active f args pos with
  | zero => exact composed.enter rfl (composed.interrupt _)
  | succ room ih =>
    exact composed.enter rfl (composed.inCall (composed.block (ih (f :: active)) rounds f.body))

end Composed

end Traced

end CalcScript
