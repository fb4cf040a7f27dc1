import CalcScript.Proofs.Results

set_option autoImplicit false

namespace CalcScript.Eval

structure Invariant where
  rel : Session → Session → Prop
  value : Value → Prop
  interrupt : Interrupt → Prop

namespace Invariant

variable {α β : Type} {I : Invariant}

def Fits (I : Invariant) (P : α → Prop) : Except Interrupt α → Prop
  | .ok a => P a
  | .error i => I.interrupt i

def Keeps (I : Invariant) (P : α → Prop) (m : Eval α) : Prop :=
  ∀ s t, I.rel s t → ∃ r s' t', m s = (r, s') ∧ m t = (r, t') ∧ I.Fits P r ∧ I.rel s' t'

namespace Keeps

variable {P Q : α → Prop}

theorem pure {a : α} (fits : P a) : I.Keeps P (Pure.pure a) := fun s t rel =>
  ⟨.ok a, s, t, rfl, rfl, fits, rel⟩

theorem interrupt {i : Interrupt} (fits : I.interrupt i) : I.Keeps P (Eval.interrupt i) :=
  fun s t rel => ⟨.error i, s, t, rfl, rfl, fits, rel⟩

theorem mono {m : Eval α} (keeps : I.Keeps P m) (weaker : ∀ a, P a → Q a) : I.Keeps Q m := by
  intro s t rel
  obtain ⟨r, s', t', eq, eq', fits, rel'⟩ := keeps s t rel
  refine ⟨r, s', t', eq, eq', ?_, rel'⟩
  cases r with
  | ok a => exact weaker a fits
  | error i => exact fits

theorem bind {m : Eval α} {f : α → Eval β} {Q : β → Prop} (first : I.Keeps P m)
    (later : ∀ a, P a → I.Keeps Q (f a)) : I.Keeps Q (m >>= f) := by
  intro s t rel
  obtain ⟨r, s', t', eq, eq', fits, rel'⟩ := first s t rel
  simp only [bind_apply, eq, eq']
  cases r with
  | ok a => exact later a fits s' t' rel'
  | error i => exact ⟨.error i, s', t', rfl, rfl, fits, rel'⟩

end Keeps

structure Respects (I : Invariant) (ok : Expr → Prop) (caller : Caller) : Prop where
  bool (b : Bool) : I.value (.ofBool b)
  literal {v : Literal} {pos : Position} (h : ok (.literal v pos)) : I.value (.ofLiteral v)
  named {i : Identifier} (h : ok (.variable i)) : I.Keeps I.value (named i)
  unary {op : UnaryOp} {e : Expr} {pos : Position} (h : ok (.unary op e pos)) :
    ok e ∧ ∀ v, I.value v → I.Keeps I.value (Eval.unary op v pos)
  binary {op : BinaryOp} {l r : Expr} {pos : Position} (h : ok (.binary op l r pos)) :
    ok l ∧ ok r ∧ ∀ v w, I.value v → I.value w →
      I.Keeps I.value (ofExcept (Arithmetic.binary op v w pos))
  logical {op : LogicalOp} {l r : Expr} {pos : Position} (h : ok (.logical op l r pos)) :
    ok l ∧ ok r
  assignment {i : Identifier} {e : Expr} (h : ok (.assignment i e)) :
    ok e ∧ (isBuiltinName i.name = true →
      I.interrupt (.error (.type i.pos (.builtinTarget i.name)))) ∧
    (isBuiltinName i.name = false → ∀ v, I.value v → I.Keeps Any (bindName i v))
  comparison {es : List Expr} {ops : List ComparisonOp} {pos : Position}
      (h : ok (.comparison es ops pos)) :
    (∀ e ∈ es, ok e) ∧ (ops = [] ∨ es.length ≠ ops.length + 1 →
      I.interrupt (.error (.internal (.malformedChain pos)))) ∧
    ∀ vs, (∀ v ∈ vs, I.value v) → I.Keeps Any (ofExcept (compareAll ops vs pos))
  call {i : Identifier} {es : List Expr} (h : ok (.call i es)) :
    (∀ e ∈ es, ok e) ∧
    I.Keeps (fun target => ∀ vs, vs.length = es.length → (∀ v ∈ vs, I.value v) →
      I.Keeps I.value (apply caller target vs i.pos)) (callee i es.length)

def KeepsPending (I : Invariant) : Pending → Prop
  | .arithmetic op rhs pos => I.Keeps I.value rhs ∧ ∀ v w, I.value v → I.value w →
      I.Keeps I.value (ofExcept (Arithmetic.binary op v w pos))
  | .logic _ rhs => I.Keeps I.value rhs

section

variable {ok : Expr → Prop} {caller : Caller}

theorem resume_keeps (respects : I.Respects ok caller) {v : Value} {p : Pending} (left : I.value v)
    (pending : I.KeepsPending p) : I.Keeps I.value (resume v p) := by
  cases p with
  | arithmetic op rhs pos =>
    obtain ⟨right, operation⟩ := pending
    exact right.bind fun w hw => operation v w left hw
  | logic op rhs =>
    simp only [resume]
    split
    · exact .pure (respects.bool _)
    · exact Keeps.bind pending fun w _ => .pure (respects.bool _)

theorem resumeAll_keeps (respects : I.Respects ok caller) {pending : List Pending} :
    ∀ {v : Value}, I.value v → (∀ p ∈ pending, I.KeepsPending p) →
      I.Keeps I.value (resumeAll v pending) := by
  induction pending with
  | nil => exact fun left _ => .pure left
  | cons p pending ih =>
    intro v left rest
    exact (resume_keeps respects left (rest p (.head _))).bind fun w hw =>
      ih hw fun q member => rest q (.tail p member)

-- By recursion on the expression for all that may be pending: the left operand of an operator is
-- walked with one more operator pending, whose right operand is evaluated with none.

mutual

theorem walk_keeps (respects : I.Respects ok caller) : ∀ (e : Expr) (pending : List Pending),
    ok e → (∀ p ∈ pending, I.KeepsPending p) → I.Keeps I.value (walk caller e pending)
  | .binary op l r pos, pending, h, rest => by
    obtain ⟨left, right, operation⟩ := respects.binary h
    rw [walk]
    refine walk_keeps respects l _ left fun p member => ?_
    rcases List.mem_cons.mp member with rfl | member
    · exact ⟨walk_keeps respects r [] right (by simp), operation⟩
    · exact rest p member
  | .logical op l r pos, pending, h, rest => by
    obtain ⟨left, right⟩ := respects.logical h
    rw [walk]
    refine walk_keeps respects l _ left fun p member => ?_
    rcases List.mem_cons.mp member with rfl | member
    · exact walk_keeps respects r [] right (by simp)
    · exact rest p member
  | .literal v pos, pending, h, rest => by
    rw [walk]
    exact resumeAll_keeps respects (respects.literal h) rest
  | .variable i, pending, h, rest => by
    rw [walk]
    exact (respects.named h).bind fun v hv => resumeAll_keeps respects hv rest
  | .unary op e pos, pending, h, rest => by
    obtain ⟨operand, operation⟩ := respects.unary h
    rw [walk]
    exact (walk_keeps respects e [] operand (by simp)).bind fun v hv =>
      (operation v hv).bind fun w hw => resumeAll_keeps respects hw rest
  | .assignment i e, pending, h, rest => by
    obtain ⟨value, refused, bound⟩ := respects.assignment h
    rw [walk]
    split
    · next builtin => exact .interrupt (refused builtin)
    · next free =>
      exact (walk_keeps respects e [] value (by simp)).bind fun v hv =>
        (bound (by simpa using free) v hv).bind fun _ _ => resumeAll_keeps respects hv rest
  | .comparison es ops pos, pending, h, rest => by
    obtain ⟨operands, refused, compared⟩ := respects.comparison h
    rw [walk]
    split
    · next malformed => exact .interrupt (refused malformed)
    · exact (walkAll_keeps respects es operands).bind fun vs hvs =>
        (compared vs hvs.2).bind fun b _ => resumeAll_keeps respects (respects.bool b) rest
  | .call i es, pending, h, rest => by
    obtain ⟨args, target⟩ := respects.call h
    rw [walk]
    exact target.bind fun f applies => (walkAll_keeps respects es args).bind fun vs hvs =>
      (applies vs hvs.1 hvs.2).bind fun v hv => resumeAll_keeps respects hv rest

theorem walkAll_keeps (respects : I.Respects ok caller) : ∀ es : List Expr, (∀ e ∈ es, ok e) →
    I.Keeps (fun vs => vs.length = es.length ∧ ∀ v ∈ vs, I.value v) (walkAll caller es)
  | [], _ => by
    rw [walkAll]
    exact .pure ⟨rfl, by simp⟩
  | e :: es, h => by
    rw [walkAll]
    refine (walk_keeps respects e [] (h e (.head es)) (by simp)).bind fun v hv =>
      (walkAll_keeps respects es fun f member => h f (.tail e member)).bind fun vs hvs => .pure ?_
    exact ⟨congrArg (· + 1) hvs.1, List.forall_mem_cons.mpr ⟨hv, hvs.2⟩⟩

end

theorem expression_keeps (respects : I.Respects ok caller) {e : Expr} (h : ok e) :
    I.Keeps I.value (expression caller e) :=
  walk_keeps respects e [] h (by simp)

end

structure RespectsStatements (I : Invariant) (ok : Expr → Prop) (okay : Statement → Prop) :
    Prop where
  nothing : I.value .nothing
  exhausted {c : Expr} {body : List Statement} {pos : Position} (h : okay (.loop c body pos)) :
    I.interrupt .exhausted
  expression {e : Expr} (h : okay (.expression e)) : ok e
  branch {c : Expr} {body : List Statement} {otherwise : Option (List Statement)} {pos : Position}
      (h : okay (.branch c body otherwise pos)) :
    ok c ∧ (∀ s ∈ body, okay s) ∧ ∀ other, otherwise = some other → ∀ s ∈ other, okay s
  loop {c : Expr} {body : List Statement} {pos : Position} (h : okay (.loop c body pos)) :
    ok c ∧ ∀ s ∈ body, okay s
  function {name : Identifier} {params : List Identifier} {body : List Statement}
      (h : okay (.function name params body)) : I.Keeps I.value (define ⟨name, params, body⟩)
  jump {kind : ControlKind} {pos : Position} (h : okay (.control kind none pos)) :
    I.interrupt (.signal ⟨.control kind, none, pos⟩)
  result {kind : ControlKind} {e : Expr} {pos : Position} (h : okay (.control kind (some e) pos)) :
    ok e ∧ ∀ v, I.value v → I.interrupt (.signal ⟨.control kind, some v, pos⟩)

def roundThen (body : Eval Unit) (later : Eval Value) : Eval Value := fun s =>
  match body s with
  | (.ok (), s) => later s
  | (.error (.signal ⟨.control .continueLoop, _, _⟩), s) => later s
  | (.error (.signal ⟨.control .breakLoop, _, _⟩), s) => (.ok .nothing, s)
  | (.error i, s) => (.error i, s)

theorem repeatWhile_succ (condition : Eval Value) (body : Eval Unit) (rounds : Nat) :
    repeatWhile condition body (rounds + 1) = condition >>= fun v =>
      if v.truthy then roundThen body (repeatWhile condition body rounds)
      else return .nothing := rfl

theorem roundThen_keeps {body : Eval Unit} {later : Eval Value} (nothing : I.value .nothing)
    (round : I.Keeps Any body) (next : I.Keeps I.value later) :
    I.Keeps I.value (roundThen body later) := by
  intro s t rel
  obtain ⟨r, s', t', eq, eq', fits, rel'⟩ := round s t rel
  simp only [roundThen, eq, eq']
  rcases r with (e | ⟨kind | _, value, pos⟩ | _) | _
  · exact ⟨_, s', t', rfl, rfl, fits, rel'⟩
  -- Only `break` and `continue` stop here, and neither gives a value.
  · cases kind with
    | continueLoop => exact next s' t' rel'
    | breakLoop => exact ⟨.ok .nothing, s', t', rfl, rfl, nothing, rel'⟩
    | returnValue => exact ⟨_, s', t', rfl, rfl, fits, rel'⟩
  · exact ⟨_, s', t', rfl, rfl, fits, rel'⟩
  · exact ⟨_, s', t', rfl, rfl, fits, rel'⟩
  · exact next s' t' rel'

theorem repeatWhile_keeps {condition : Eval Value} {body : Eval Unit} (nothing : I.value .nothing)
    (exhausted : I.interrupt .exhausted) (test : I.Keeps I.value condition)
    (round : I.Keeps Any body) (rounds : Nat) :
    I.Keeps I.value (repeatWhile condition body rounds) := by
  induction rounds with
  | zero => exact .interrupt exhausted
  | succ rounds ih =>
    rw [repeatWhile_succ]
    refine test.bind fun v _ => ?_
    split
    · exact roundThen_keeps nothing round ih
    · exact .pure nothing

section

variable {ok : Expr → Prop} {okay : Statement → Prop} {caller : Caller}

mutual

theorem statement_keeps (respects : I.Respects ok caller)
    (statements : I.RespectsStatements ok okay) (rounds : Nat) : ∀ s : Statement, okay s →
    I.Keeps I.value (statement rounds caller s)
  | .expression e, h => by
    rw [statement]
    exact expression_keeps respects (statements.expression h)
  | .branch c body none pos, h => by
    obtain ⟨condition, inside, -⟩ := statements.branch h
    rw [statement]
    refine (expression_keeps respects condition).bind fun v _ => ?_
    split
    · exact (block_keeps respects statements rounds body inside).bind fun _ _ =>
        .pure statements.nothing
    · exact .pure statements.nothing
  | .branch c body (some other) pos, h => by
    obtain ⟨condition, inside, otherwise⟩ := statements.branch h
    rw [statement]
    refine (expression_keeps respects condition).bind fun v _ => ?_
    split
    · exact (block_keeps respects statements rounds body inside).bind fun _ _ =>
        .pure statements.nothing
    · exact (block_keeps respects statements rounds other (otherwise other rfl)).bind fun _ _ =>
        .pure statements.nothing
  | .loop c body pos, h => by
    obtain ⟨condition, inside⟩ := statements.loop h
    rw [statement]
    exact repeatWhile_keeps statements.nothing (statements.exhausted h)
      (expression_keeps respects condition)
      (block_keeps respects statements rounds body inside) rounds
  | .function name params body, h => by
    rw [statement]
    exact statements.function h
  | .control kind none pos, h => by
    rw [statement]
    exact .interrupt (statements.jump h)
  | .control kind (some e) pos, h => by
    obtain ⟨value, stops⟩ := statements.result h
    rw [statement]
    exact (expression_keeps respects value).bind fun v hv => .interrupt (stops v hv)

theorem block_keeps (respects : I.Respects ok caller)
    (statements : I.RespectsStatements ok okay) (rounds : Nat) :
    ∀ body : List Statement, (∀ s ∈ body, okay s) → I.Keeps Any (block rounds caller body)
  | [], _ => by
    rw [block]
    exact .pure trivial
  | s :: rest, h => by
    rw [block]
    exact (statement_keeps respects statements rounds s (h s (.head rest))).bind fun _ _ =>
      block_keeps respects statements rounds rest fun t member => h t (.tail s member)

end

theorem statements_keeps (respects : I.Respects ok caller)
    (statements : I.RespectsStatements ok okay) (rounds : Nat) :
    ∀ items : List Statement, (∀ s ∈ items, okay s) →
      I.Keeps (∀ v ∈ ·, I.value v) (Eval.statements rounds caller items)
  | [], _ => by
    rw [Eval.statements]
    exact .pure (by simp)
  | s :: rest, h => by
    rw [Eval.statements]
    have later := statements_keeps respects statements rounds rest fun t member =>
      h t (.tail s member)
    exact (statement_keeps respects statements rounds s (h s (.head rest))).bind fun v hv =>
      later.bind fun vs hvs => .pure (List.forall_mem_cons.mpr ⟨hv, hvs⟩)

end

end Invariant

end CalcScript.Eval
