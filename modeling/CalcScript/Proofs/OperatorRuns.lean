import CalcScript.Proofs.Tracing

set_option autoImplicit false

namespace CalcScript

namespace Expr

-- The leftmost operand of a run of arithmetic operators, and the operators in their order, in front
-- of those that were met further up.
def arithmeticSpine : Expr → List (BinaryOp × Expr × Position) →
    Expr × List (BinaryOp × Expr × Position)
  | .binary op l r pos, above => l.arithmeticSpine ((op, r, pos) :: above)
  | e, above => (e, above)

def logicalSpine : Expr → List (LogicalOp × Expr) → Expr × List (LogicalOp × Expr)
  | .logical op l r _, above => l.logicalSpine ((op, r) :: above)
  | e, above => (e, above)

end Expr

namespace Eval

section

variable (caller : Caller)

def arithmeticStep (v : Value) (step : BinaryOp × Expr × Position) : Eval Value := do
  let w ← expression caller step.2.1
  ofExcept (Arithmetic.binary step.1 v w step.2.2)

def logicalStep (holds : Bool) (step : LogicalOp × Expr) : Eval Bool :=
  if step.1.decides holds then return holds
  else do
    let w ← expression caller step.2
    return w.truthy

def arithmeticRun (spine : Expr × List (BinaryOp × Expr × Position)) : Eval Value := do
  let v ← expression caller spine.1
  spine.2.foldlM (arithmeticStep caller) v

def logicalRun (spine : Expr × List (LogicalOp × Expr)) : Eval Bool := do
  let v ← expression caller spine.1
  spine.2.foldlM (logicalStep caller) v.truthy

mutual

def plain : Expr → Eval Value
  | .literal value _ => return .ofLiteral value
  | .variable i => named i
  | .unary op e pos => do
    let v ← plain e
    unary op v pos
  | .binary op l r pos => do
    let v ← plain l
    let w ← plain r
    ofExcept (Arithmetic.binary op v w pos)
  | .logical op l r _ => do
    let v ← plain l
    if op.decides v.truthy then return .ofBool v.truthy
    else do
      let w ← plain r
      return .ofBool w.truthy
  | .assignment i e =>
    if isBuiltinName i.name then fail (.type i.pos (.builtinTarget i.name))
    else do
      let v ← plain e
      bindName i v
      return v
  | .comparison es ops pos =>
    if ops = [] ∨ es.length ≠ ops.length + 1 then fail (.internal (.malformedChain pos))
    else do
      let vs ← plainAll es
      let holds ← ofExcept (compareAll ops vs pos)
      return .ofBool holds
  | .call i es => do
    let target ← callee i es.length
    let vs ← plainAll es
    apply caller target vs i.pos

def plainAll : List Expr → Eval (List Value)
  | [] => return []
  | e :: es => do
    let v ← plain e
    let vs ← plainAll es
    return v :: vs

end

mutual

theorem expression_eq_plain : ∀ e : Expr, expression caller e = plain caller e
  | .literal value pos => by rw [expression_literal, plain]
  | .variable i => by rw [expression_variable, plain]
  | .unary op e pos => by rw [expression_unary, plain, expression_eq_plain e]
  | .binary op l r pos => by
    rw [expression_binary, plain, expression_eq_plain l, expression_eq_plain r]
  | .logical op l r pos => by
    rw [expression_logical, plain, expression_eq_plain l, expression_eq_plain r]
  | .assignment i e => by rw [expression_assignment, plain, expression_eq_plain e]
  | .comparison es ops pos => by rw [expression_comparison, plain, walkAll_eq_plainAll es]
  | .call i es => by rw [expression_call, plain, walkAll_eq_plainAll es]

theorem walkAll_eq_plainAll : ∀ es : List Expr, walkAll caller es = plainAll caller es
  | [] => by rw [walkAll, plainAll]
  | e :: es => by
    rw [walkAll_cons, plainAll, expression_eq_plain e, walkAll_eq_plainAll es]

end

@[simp] theorem truthy_ofBool (b : Bool) : (Value.ofBool b).truthy = b := by
  cases b <;> rfl

-- What was met further up is done with the value of the expression.
theorem arithmeticRun_spine (e : Expr) (above : List (BinaryOp × Expr × Position)) :
    arithmeticRun caller (e.arithmeticSpine above) = (do
      let v ← expression caller e
      above.foldlM (arithmeticStep caller) v) := by
  fun_induction Expr.arithmeticSpine e above with
  | case1 op l r pos above ih => simp [ih, expression_binary, arithmeticStep]
  | case2 e above other => rfl

theorem logicalRun_spine (e : Expr) (above : List (LogicalOp × Expr)) :
    logicalRun caller (e.logicalSpine above) = (do
      let v ← expression caller e
      above.foldlM (logicalStep caller) v.truthy) := by
  fun_induction Expr.logicalSpine e above with
  | case1 op l r pos above ih =>
    have step (v : Value) : logicalStep caller v.truthy (op, r) =
        (if op.decides v.truthy then return v.truthy
        else do
          let w ← expression caller r
          return w.truthy) := rfl
    simp [ih, expression_logical, step, ite_bind]
  | case2 e above other => rfl

theorem expression_logicalRun (op : LogicalOp) (l r : Expr) (pos : Position) :
    expression caller (.logical op l r pos) = (do
      let holds ← logicalRun caller (Expr.logicalSpine (.logical op l r pos) [])
      return .ofBool holds) := by
  simp only [logicalRun_spine, expression_logical, List.foldlM_nil, bind_assoc, pure_bind,
    ite_bind, truthy_ofBool]

end

end Eval

inductive Joint where
  | arithmetic (op : BinaryOp)
  | logical (op : LogicalOp)

def Expr.join (l : Expr) : Joint × Expr × Position → Expr
  | (.arithmetic op, r, pos) => .binary op l r pos
  | (.logical op, r, pos) => .logical op l r pos

def Expr.run (first : Expr) (steps : List (Joint × Expr × Position)) : Expr :=
  steps.foldl Expr.join first

@[simp] theorem Expr.run_append (first : Expr) (steps more : List (Joint × Expr × Position)) :
    first.run (steps ++ more) = (first.run steps).run more := by
  simp [run]

def Act.isCall : Act → Bool
  | .call _ _ _ => true
  | _ => false

namespace Traced

variable {α β : Type}

def calls (m : Traced α) (s : Session) : List Event := (m.trace s).filter (·.act.isCall)

@[simp] theorem calls_enter {nest : Nesting} {act : Act} (other : act.isCall = false)
    (m : Traced α) (s : Session) : (enter nest act m).calls s = m.calls s := by
  simp [calls, enter, other]

theorem calls_bind (m : Traced α) (f : α → Traced β) (s : Session) :
    (m >>= f).calls s = m.calls s ++
      match m.eval s with
      | (.ok a, s) => (f a).calls s
      | (.error _, _) => [] := by
  have trace : (m >>= f).trace s = m.trace s ++
      match m.eval s with
      | (.ok a, s) => (f a).trace s
      | (.error _, _) => [] := rfl
  simp only [calls, trace, List.filter_append]
  rcases m.eval s with ⟨_ | a, t⟩ <;> rfl

structure SameAt (s : Session) (m m' : Traced α) : Prop where
  eval : m.eval s = m'.eval s
  calls : m.calls s = m'.calls s

theorem SameAt.bind {s : Session} {m m' : Traced α} (same : SameAt s m m') (f : α → Traced β) :
    SameAt s (m >>= f) (m' >>= f) := by
  constructor
  · simp only [eval_bind, Eval.bind_apply, same.eval]
  · rw [calls_bind, calls_bind, same.eval, same.calls]

theorem SameAt.enter {s : Session} {m m' : Traced α} (same : SameAt s m m') (nest : Nesting)
    {act act' : Act} (other : act.isCall = false) (other' : act'.isCall = false) :
    SameAt s (Traced.enter nest act m) (Traced.enter nest act' m') := by
  constructor
  · simpa using same.eval
  · rw [calls_enter other, calls_enter other', same.calls]

section

variable {nest : Nesting} {caller : Caller} {s : Session} {l l' : Expr}

theorem join_sameAt (same : SameAt s (expression nest caller l) (expression nest caller l'))
    (step : Joint × Expr × Position) :
    SameAt s (expression nest caller (l.join step)) (expression nest caller (l'.join step)) := by
  obtain ⟨op | op, r, pos⟩ := step
  · simp only [Expr.join, expression]
    apply SameAt.enter _ nest rfl rfl
    exact same.bind _
  · simp only [Expr.join, expression]
    apply SameAt.enter _ nest rfl rfl
    exact same.bind _

theorem run_sameAt (same : SameAt s (expression nest caller l) (expression nest caller l'))
    (steps : List (Joint × Expr × Position)) :
    SameAt s (expression nest caller (l.run steps)) (expression nest caller (l'.run steps)) := by
  induction steps generalizing l l' with
  | nil => exact same
  | cons step steps ih =>
    apply ih
    exact join_sameAt same step

theorem decided_sameAt {op : LogicalOp} {v : Value} {t : Session}
    (left : (expression nest caller l).eval s = (.ok v, t)) (decided : op.decides v.truthy = true)
    (r r' : Expr) (pos : Position) :
    SameAt s (expression nest caller (.logical op l r pos))
      (expression nest caller (.logical op l r' pos)) := by
  simp only [expression]
  apply SameAt.enter _ nest rfl rfl
  constructor
  · simp [Eval.bind_apply, left, decided]
  · simp [calls_bind, left, decided]

end

end Traced

namespace Eval

/-- An arithmetic run and a logical one, evaluated from the leftmost operand on, come to the same as
the operands and then the operator by recursion, and so does every expression. -/
theorem runs_by_recursion :
    (∀ (caller : Caller) (op : BinaryOp) (l r : Expr) (pos : Position),
      expression caller (.binary op l r pos) =
        arithmeticRun caller (Expr.arithmeticSpine (.binary op l r pos) []) ∧
      arithmeticRun caller (Expr.arithmeticSpine (.binary op l r pos) []) = (do
        let v ← expression caller l
        let w ← expression caller r
        ofExcept (Arithmetic.binary op v w pos))) ∧
    (∀ (caller : Caller) (op : LogicalOp) (l r : Expr) (pos : Position),
      expression caller (.logical op l r pos) = (do
        let holds ← logicalRun caller (Expr.logicalSpine (.logical op l r pos) [])
        return .ofBool holds) ∧
      (do
        let holds ← logicalRun caller (Expr.logicalSpine (.logical op l r pos) [])
        return Value.ofBool holds) = (do
        let v ← expression caller l
        if op.decides v.truthy then return .ofBool v.truthy
        else do
          let w ← expression caller r
          return .ofBool w.truthy)) ∧
    (∀ (caller : Caller) (e : Expr), expression caller e = plain caller e) ∧
    ∀ (nest : Nesting) (caller : Traced.Caller) (first : Expr)
      (before after : List (Joint × Expr × Position)) (op : LogicalOp) (s t : Session) (v : Value),
      expression caller.eval (first.run before) s = (.ok v, t) → op.decides v.truthy = true →
      ∀ (r r' : Expr) (pos : Position),
        expression caller.eval (first.run (before ++ (.logical op, r, pos) :: after)) s =
          expression caller.eval (first.run (before ++ (.logical op, r', pos) :: after)) s ∧
        (Traced.expression nest caller
            (first.run (before ++ (.logical op, r, pos) :: after))).calls s =
          (Traced.expression nest caller
            (first.run (before ++ (.logical op, r', pos) :: after))).calls s := by
  refine ⟨fun caller op l r pos => ?_, fun caller op l r pos => ?_, expression_eq_plain, ?_⟩
  · simp [arithmeticRun_spine, expression_binary]
  · rw [← expression_logicalRun]
    exact ⟨rfl, expression_logical caller op l r pos⟩
  · intro nest caller first before after op s t v left decided r r' pos
    rw [← Traced.eval_expression nest] at left
    have here := Traced.decided_sameAt left decided r r' pos
    have same := Traced.run_sameAt here after
    rw [Expr.run_append, Expr.run_append, ← Traced.eval_expression nest,
      ← Traced.eval_expression nest]
    exact ⟨same.eval, same.calls⟩

theorem runs_by_recursion_decided :
    let f : Function := ⟨⟨"s", default⟩, [], []⟩
    let s : Session := ⟨Frame.empty.set "s" (.function f), [], .ofInput []⟩
    let number (n : Int64) : Expr := .literal (.int n) default
    let call : Expr := .call ⟨"s", default⟩ []
    let calls (e : Expr) := (Traced.expression ⟨[], 1⟩ (Traced.call 0 1 []) e).calls s
    let plus : Joint × Expr × Position := (.arithmetic .add, number 2, default)
    let either : List (Joint × Expr × Position) :=
      [(.logical .and, number 3, default), (.logical .or, number 1, default)]
    let both : List (Joint × Expr × Position) := [(.logical .and, number 0, default)]
    (calls call).length = 1 ∧
    calls ((number 0).run (either ++ [(.logical .or, call, default), plus])) = [] ∧
    calls ((number 1).run (both ++ [(.logical .and, call, default), plus])) = [] := by
  intro f s number call calls plus either both
  have decided := runs_by_recursion.2.2.2 ⟨[], 1⟩ (Traced.call 0 1 [])
  have first := decided (number 0) either [plus] .or s s (.int 1) rfl rfl call (number 5) default
  have second := decided (number 1) both [plus] .and s s (.int 0) rfl rfl call (number 5) default
  exact ⟨rfl, first.2, second.2⟩

end Eval

end CalcScript
