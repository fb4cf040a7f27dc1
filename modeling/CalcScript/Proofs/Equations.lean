import CalcScript.Evaluation

set_option autoImplicit false

namespace CalcScript.Eval

instance : LawfulMonad Eval := LawfulMonad.mk' Eval
  (by
    intro α m
    funext s
    rcases h : m s with ⟨_ | _, _⟩ <;> simp [Functor.map, bind, h, pure])
  (fun _ _ => rfl)
  (by
    intro α β γ m f g
    funext s
    simp only [bind_apply]
    rcases m s with ⟨_ | _, _⟩ <;> rfl)

@[simp] theorem fail_bind {α β : Type} (e : Error) (f : α → Eval β) :
    (fail e >>= f) = fail e := rfl

theorem ite_bind {α β : Type} (c : Prop) [Decidable c] (m n : Eval α) (f : α → Eval β) :
    (if c then m else n) >>= f = if c then m >>= f else n >>= f := by
  split <;> rfl

variable (caller : Caller)

-- Here the walk is opened, so that it need not be wherever its equations will do.
attribute [local simp] walk walkAll resume resumeAll

-- What is pending waits for the value of the expression and for nothing else.
theorem walk_eq_bind (e : Expr) (pending : List Pending) :
    walk caller e pending = expression caller e >>= fun v => resumeAll v pending := by
  unfold expression
  match e with
  | .literal value pos | .variable i => simp
  | .unary op e pos | .comparison es ops pos | .call i es | .assignment i e =>
    simp [ite_bind]
  | .binary op l r pos =>
    rw [walk, walk, walk_eq_bind l (_ :: pending), walk_eq_bind l [_]]
    simp
  | .logical op l r pos =>
    rw [walk, walk, walk_eq_bind l (_ :: pending), walk_eq_bind l [_]]
    simp

theorem expression_literal (value : Literal) (pos : Position) :
    expression caller (.literal value pos) = (return .ofLiteral value) := by
  rw [expression, walk, resumeAll]

theorem expression_variable (i : Identifier) : expression caller (.variable i) = named i := by
  simp [expression]

theorem expression_unary (op : UnaryOp) (e : Expr) (pos : Position) :
    expression caller (.unary op e pos) = (do
      let v ← expression caller e
      unary op v pos) := by
  simp [expression]

theorem expression_binary (op : BinaryOp) (l r : Expr) (pos : Position) :
    expression caller (.binary op l r pos) = (do
      let v ← expression caller l
      let w ← expression caller r
      ofExcept (Arithmetic.binary op v w pos)) := by
  rw [expression, walk, walk_eq_bind]
  simp [expression]

theorem expression_logical (op : LogicalOp) (l r : Expr) (pos : Position) :
    expression caller (.logical op l r pos) = do
      let v ← expression caller l
      if op.decides v.truthy then return .ofBool v.truthy
      else do
        let w ← expression caller r
        return .ofBool w.truthy := by
  rw [expression, walk, walk_eq_bind]
  simp [expression]

theorem expression_assignment (i : Identifier) (e : Expr) :
    expression caller (.assignment i e) =
      if isBuiltinName i.name then fail (.type i.pos (.builtinTarget i.name))
      else do
        let v ← expression caller e
        bindName i v
        return v := by
  simp [expression]

theorem expression_comparison (es : List Expr) (ops : List ComparisonOp) (pos : Position) :
    expression caller (.comparison es ops pos) =
      if ops = [] ∨ es.length ≠ ops.length + 1 then fail (.internal (.malformedChain pos))
      else do
        let vs ← walkAll caller es
        let holds ← ofExcept (compareAll ops vs pos)
        return .ofBool holds := by
  simp [expression]

theorem expression_call (i : Identifier) (es : List Expr) :
    expression caller (.call i es) = (do
      let target ← callee i es.length
      let vs ← walkAll caller es
      apply caller target vs i.pos) := by
  simp [expression]

theorem walkAll_cons (e : Expr) (es : List Expr) :
    walkAll caller (e :: es) = do
      let v ← expression caller e
      let vs ← walkAll caller es
      return v :: vs := by
  rw [walkAll]; rfl

end CalcScript.Eval
