import CalcScript.Proofs.Holding
import CalcScript.Proofs.Tracing

set_option autoImplicit false

namespace CalcScript

def Act.Fits (ok : Expr → Prop) (okay : Statement → Prop) (value : Value → Prop) : Act → Prop
  | .expression e => ok e
  | .statement s => okay s
  | .call (.user f) args _ => value (.function f) ∧ ∀ v ∈ args, value v
  | .call (.builtin b) args _ => b.arity.accepts args.length = true ∧ ∀ v ∈ args, value v

namespace Event

def after (rounds : Nat) (ev : Event) : Session :=
  let caller := Eval.call rounds ev.room
  match ev.act with
  | .expression e => (Eval.expression caller e ev.session).2
  | .statement item => (Eval.statement rounds caller item ev.session).2
  | .call target args pos => (Eval.apply caller target args pos ev.session).2

def result (rounds : Nat) (ev : Event) : Except Interrupt Value :=
  let caller := Eval.call rounds ev.room
  match ev.act with
  | .expression e => (Eval.expression caller e ev.session).1
  | .statement item => (Eval.statement rounds caller item ev.session).1
  | .call target args pos => (Eval.apply caller target args pos ev.session).1

end Event

namespace Traced

open Eval (Callee)
open Eval.Invariant (single keeps_single)

variable {α β : Type} {P : Session → Prop} {value : Value → Prop} {interrupt : Interrupt → Prop}
  {A : Act → Prop} {nest : Nesting}

def Throughout (P : Session → Prop) (A : Act → Prop) (m : Traced α) : Prop :=
  ∀ s, P s → ∀ ev ∈ m.trace s, P ev.session ∧ A ev.act

namespace Throughout

theorem silent (m : Eval α) : Throughout P A (Traced.silent m) := fun _ _ => List.forall_mem_nil _

theorem pure (a : α) : Throughout P A (Pure.pure a) := silent (Pure.pure a)

theorem enter {act : Act} {m : Traced α} (fits : A act) (inside : Throughout P A m) :
    Throughout P A (Traced.enter nest act m) :=
  fun s h => List.forall_mem_cons.mpr ⟨⟨h, fits⟩, inside s h⟩

theorem bind {Q : α → Prop} {m : Traced α} {f : α → Traced β} (first : Throughout P A m)
    (keeps : (single P value interrupt).Keeps Q m.eval) (later : ∀ a, Q a → Throughout P A (f a)) :
    Throughout P A (m >>= f) := by
  intro s h
  have kept := keeps_single.mp keeps s h
  refine List.forall_mem_append.mpr ⟨first s h, ?_⟩
  rcases result : m.eval s with ⟨i | a, t⟩
  · exact List.forall_mem_nil _
  · rw [result] at kept
    exact later a kept.1 t kept.2

theorem lift_map (m : Eval α) (f : α → β) :
    Throughout P A ((liftM m : Traced α) >>= fun a => Pure.pure (f a)) := by
  intro s _
  refine List.forall_mem_append.mpr ⟨List.forall_mem_nil _, ?_⟩
  split <;> exact List.forall_mem_nil _

theorem roundThen {body : Traced Unit} {later : Traced Value} (round : Throughout P A body)
    (keeps : (single P value interrupt).Keeps Any body.eval) (next : Throughout P A later) :
    Throughout P A (Traced.roundThen body later) := by
  intro s h
  have kept := (keeps_single.mp keeps s h).2
  refine List.forall_mem_append.mpr ⟨round s h, ?_⟩
  split
  · next eq =>
    rw [eq] at kept
    exact next _ kept
  · next eq =>
    rw [eq] at kept
    exact next _ kept
  · exact List.forall_mem_nil _

theorem repeatWhile {condition : Traced Value} {body : Traced Unit}
    (test : Throughout P A condition)
    (tested : (single P value interrupt).Keeps value condition.eval) (round : Throughout P A body)
    (kept : (single P value interrupt).Keeps Any body.eval) (rounds : Nat) :
    Throughout P A (Traced.repeatWhile condition body rounds) := by
  induction rounds with
  | zero => exact silent _
  | succ rounds ih =>
    refine test.bind tested fun v _ => ?_
    split
    · exact round.roundThen kept ih
    · exact pure _

theorem inCall {frame : Frame} {body : Traced Unit}
    (start : ∀ s, P s → P { s with calls := frame :: s.calls }) (inside : Throughout P A body) :
    Throughout P A (Traced.inCall frame body) :=
  fun s h => inside _ (start s h)

end Throughout

variable {ok : Expr → Prop} {okay : Statement → Prop}

structure Maintains (P : Session → Prop) (value : Value → Prop) (interrupt : Interrupt → Prop)
    (ok : Expr → Prop) (okay : Statement → Prop) (caller : Caller) : Prop where
  operations : (single P value interrupt).Operations
  respects : (single P value interrupt).Respects ok caller.eval
  statements : (single P value interrupt).RespectsStatements ok okay
  calls (f : Function) (args : List Value) (pos : Position) (function : value (.function f))
    (values : ∀ v ∈ args, value v) : Throughout P (Act.Fits ok okay value) (caller f args pos)

namespace Maintains

variable {caller : Caller} (maintains : Maintains P value interrupt ok okay caller)

include maintains

theorem expression_kept {e : Expr} (h : ok e) :
    (single P value interrupt).Keeps value (expression nest caller e).eval := by
  rw [eval_expression]
  exact Eval.Invariant.expression_keeps maintains.respects h

theorem expressions_kept {es : List Expr} (h : ∀ e ∈ es, ok e) :
    (single P value interrupt).Keeps (fun vs => vs.length = es.length ∧ ∀ v ∈ vs, value v)
      (expressions nest caller es).eval := by
  rw [eval_expressions]
  exact Eval.Invariant.walkAll_keeps maintains.respects es h

theorem statement_kept (rounds : Nat) {s : Statement} (h : okay s) :
    (single P value interrupt).Keeps value (statement nest caller rounds s).eval := by
  rw [eval_statement]
  exact Eval.Invariant.statement_keeps maintains.respects maintains.statements rounds s h

theorem block_kept (rounds : Nat) {body : List Statement} (h : ∀ s ∈ body, okay s) :
    (single P value interrupt).Keeps Any (block nest caller rounds body).eval := by
  rw [eval_block]
  exact Eval.Invariant.block_keeps maintains.respects maintains.statements rounds body h

theorem statements_kept (rounds : Nat) {items : List Statement} (h : ∀ s ∈ items, okay s) :
    (single P value interrupt).Keeps (∀ v ∈ ·, value v)
      (Traced.statements nest caller rounds items).eval := by
  rw [eval_statements]
  exact Eval.Invariant.statements_keeps maintains.respects maintains.statements rounds items h

-- By recursion on the tree. What is evaluated behind something else starts where that has ended,
-- so it matters that the invariant is kept by it.

mutual

theorem expression_throughout : ∀ e : Expr, ok e →
    Throughout P (Act.Fits ok okay value) (expression nest caller e)
  | .literal v pos, h => .enter h (.pure _)
  | .variable i, h => .enter h (.silent _)
  | .unary op e pos, h => by
    have operand := (maintains.respects.unary h).1
    exact .enter h ((expression_throughout e operand).bind (maintains.expression_kept operand)
      fun _ _ => .silent _)
  | .binary op l r pos, h => by
    obtain ⟨left, right, -⟩ := maintains.respects.binary h
    refine .enter h ((expression_throughout l left).bind (maintains.expression_kept left) ?_)
    exact fun _ _ => (expression_throughout r right).bind (maintains.expression_kept right)
      fun _ _ => .silent _
  | .logical op l r pos, h => by
    obtain ⟨left, right⟩ := maintains.respects.logical h
    refine .enter h ((expression_throughout l left).bind (maintains.expression_kept left) ?_)
    intro v _
    split
    · exact .pure _
    · exact (expression_throughout r right).bind (maintains.expression_kept right)
        fun _ _ => .pure _
  | .assignment i e, h => by
    have assigned := (maintains.respects.assignment h).1
    refine .enter h ?_
    split
    · exact .silent _
    · exact (expression_throughout e assigned).bind (maintains.expression_kept assigned)
        fun v _ => .lift_map _ fun _ => v
  | .comparison es ops pos, h => by
    have operands := (maintains.respects.comparison h).1
    refine .enter h ?_
    split
    · exact .silent _
    · exact (expressions_throughout es operands).bind (maintains.expressions_kept operands)
        fun vs _ => .lift_map _ _
  | .call i es, h => by
    have args := (maintains.respects.call h).1
    refine .enter h
      ((Throughout.silent _).bind (maintains.operations.callee_keeps i es.length) ?_)
    rintro target ⟨accepts, callable⟩
    refine (expressions_throughout es args).bind (maintains.expressions_kept args) ?_
    rintro vs ⟨length, values⟩
    cases target with
    | user f => exact maintains.calls f vs i.pos callable values
    | builtin b => exact .enter ⟨length ▸ accepts, values⟩ (.silent _)

theorem expressions_throughout : ∀ es : List Expr, (∀ e ∈ es, ok e) →
    Throughout P (Act.Fits ok okay value) (expressions nest caller es)
  | [], _ => .pure _
  | e :: es, h => by
    have first := h e (.head es)
    have later : ∀ f ∈ es, ok f := fun f member => h f (.tail e member)
    refine (expression_throughout e first).bind (maintains.expression_kept first) fun _ _ => ?_
    exact (expressions_throughout es later).bind (maintains.expressions_kept later)
      fun _ _ => .pure _

end

mutual

theorem statement_throughout (rounds : Nat) : ∀ s : Statement, okay s →
    Throughout P (Act.Fits ok okay value) (statement nest caller rounds s)
  | .expression e, h =>
    .enter h (maintains.expression_throughout e (maintains.statements.expression h))
  | .branch c body none pos, h => by
    obtain ⟨condition, inside, -⟩ := maintains.statements.branch h
    refine .enter h ((maintains.expression_throughout c condition).bind
      (maintains.expression_kept condition) fun v _ => ?_)
    split
    · exact (block_throughout rounds body inside).bind (maintains.block_kept rounds inside)
        fun _ _ => .pure _
    · exact .pure _
  | .branch c body (some other) pos, h => by
    obtain ⟨condition, inside, otherwise⟩ := maintains.statements.branch h
    refine .enter h ((maintains.expression_throughout c condition).bind
      (maintains.expression_kept condition) fun v _ => ?_)
    split
    · exact (block_throughout rounds body inside).bind (maintains.block_kept rounds inside)
        fun _ _ => .pure _
    · exact (block_throughout rounds other (otherwise other rfl)).bind
        (maintains.block_kept rounds (otherwise other rfl)) fun _ _ => .pure _
  | .loop c body pos, h => by
    obtain ⟨condition, inside⟩ := maintains.statements.loop h
    exact .enter h ((maintains.expression_throughout c condition).repeatWhile
      (maintains.expression_kept condition) (block_throughout rounds body inside)
      (maintains.block_kept rounds inside) rounds)
  | .function name params body, h => .enter h (.silent _)
  | .control kind none pos, h => .enter h (.silent _)
  | .control kind (some e) pos, h => by
    have result := (maintains.statements.result h).1
    exact .enter h ((maintains.expression_throughout e result).bind
      (maintains.expression_kept result) fun _ _ => .silent _)

theorem block_throughout (rounds : Nat) : ∀ body : List Statement, (∀ s ∈ body, okay s) →
    Throughout P (Act.Fits ok okay value) (block nest caller rounds body)
  | [], _ => .pure _
  | s :: rest, h => by
    have first := h s (.head rest)
    refine (statement_throughout rounds s first).bind (maintains.statement_kept rounds first)
      fun _ _ => ?_
    exact block_throughout rounds rest fun t member => h t (.tail s member)

end

theorem statements_throughout (rounds : Nat) (items : List Statement) (h : ∀ s ∈ items, okay s) :
    Throughout P (Act.Fits ok okay value) (Traced.statements nest caller rounds items) := by
  induction items with
  | nil => exact .pure _
  | cons s rest ih =>
    have first := h s (.head rest)
    have later : ∀ t ∈ rest, okay t := fun t member => h t (.tail s member)
    refine (maintains.statement_throughout rounds s first).bind
      (maintains.statement_kept rounds first) fun _ _ => ?_
    exact (ih later).bind (maintains.statements_kept rounds later) fun _ _ => .pure _

end Maintains

section

variable (operations : (single P value interrupt).Operations) (rounds : Nat)
  (respects : ∀ room, (single P value interrupt).Respects ok (Eval.call rounds room))
  (statements : (single P value interrupt).RespectsStatements ok okay)

include operations respects statements

theorem call_maintains (code : ∀ f, value (.function f) → ∀ s ∈ f.body, okay s)
    (start : ∀ f args s, value (.function f) → (∀ v ∈ args, value v) → P s →
      P { s with calls := Eval.arguments f.params args :: s.calls })
    (room : Nat) (active : List Function) :
    Maintains P value interrupt ok okay (call rounds room active) where
  operations := operations
  respects := eval_call rounds room active ▸ respects room
  statements := statements
  calls f args pos function values := by
    induction room generalizing active f args pos with
    | zero => exact .enter ⟨function, values⟩ (.silent _)
    | succ room ih =>
      refine .enter ⟨function, values⟩ (.inCall (fun s => start f args s function values) ?_)
      -- The calls in the body have less room.
      have inside : Maintains P value interrupt ok okay (call rounds room (f :: active)) :=
        ⟨operations, eval_call rounds room _ ▸ respects room, statements, ih (f :: active)⟩
      exact inside.block_throughout rounds f.body (code f function)

theorem ended_kept (calls : ∀ room f args pos, value (.function f) → (∀ v ∈ args, value v) →
      (single P value interrupt).Keeps value (Eval.call rounds room f args pos))
    (abort : ∀ pos, interrupt (.signal ⟨.abort, none, pos⟩)) {ev : Event} (session : P ev.session)
    (act : ev.act.Fits ok okay value) :
    (single P value interrupt).Fits value (ev.result rounds) ∧ P (ev.after rounds) := by
  obtain ⟨nest, act', s⟩ := ev
  cases act' with
  | expression e =>
    exact keeps_single.mp (Eval.Invariant.expression_keeps (respects nest.room) act) s session
  | statement item =>
    exact keeps_single.mp
      (Eval.Invariant.statement_keeps (respects nest.room) statements rounds item act) s session
  | call target args pos =>
    cases target with
    | user f => exact keeps_single.mp (calls nest.room f args pos act.1 act.2) s session
    | builtin b =>
      exact keeps_single.mp (operations.builtin_keeps pos act.1 fun _ => abort pos) s session

theorem after_kept (calls : ∀ room f args pos, value (.function f) → (∀ v ∈ args, value v) →
      (single P value interrupt).Keeps value (Eval.call rounds room f args pos))
    (abort : ∀ pos, interrupt (.signal ⟨.abort, none, pos⟩)) {ev : Event} (session : P ev.session)
    (act : ev.act.Fits ok okay value) : P (ev.after rounds) :=
  (ended_kept operations rounds respects statements calls abort session act).2

end

end Traced

end CalcScript
