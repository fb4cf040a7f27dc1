import CalcScript.Proofs.Preservation

set_option autoImplicit false

namespace CalcScript.Eval.Invariant

variable {α : Type} {I : Invariant}

structure Reach (I : Invariant) (place : Position → Prop) : Prop where
  lookup (i : Identifier) : I.Keeps (fun found => ∀ v, found = some v → I.value v) (Eval.lookup i)
  bindName {i : Identifier} {v : Value} (free : isBuiltinName i.name = false) (h : I.value v) :
    I.Keeps Any (Eval.bindName i v)
  write (text : String) : I.Keeps Any (Eval.write text)
  plain {v : Value} (h : v.Plain) : I.value v
  raised {e : Error} (h : e.Raised) (here : ∀ pos, e.pos? = some pos → place pos) :
    I.interrupt (.error e)

structure Access (I : Invariant) : Prop where
  lookup (i : Identifier) : I.Keeps (fun found => ∀ v, found = some v → I.value v) (Eval.lookup i)
  bindName {i : Identifier} {v : Value} (free : isBuiltinName i.name = false) (h : I.value v) :
    I.Keeps Any (Eval.bindName i v)
  write (text : String) : I.Keeps Any (Eval.write text)
  plain {v : Value} (h : v.Plain) : I.value v
  raised {e : Error} (h : e.Raised) : I.interrupt (.error e)
  exhausted : I.interrupt .exhausted

theorem Access.reach (access : I.Access) : I.Reach Any where
  lookup := access.lookup
  bindName := access.bindName
  write := access.write
  plain := access.plain
  raised h _ := access.raised h

structure Operations (I : Invariant) : Prop extends Access I where
  readLine : I.Keeps Any Eval.readLine

structure Primitives (I : Invariant) : Prop extends Operations I where
  proper {e : Error} (h : e.Proper) : I.interrupt (.error e)
  signal {s : Signal} : I.interrupt (.signal s) ↔ ∀ v, s.value = some v → I.value v

structure Inherited (ok : Expr → Prop) : Prop where
  unary {op : UnaryOp} {e : Expr} {pos : Position} : ok (.unary op e pos) → ok e
  binary {op : BinaryOp} {l r : Expr} {pos : Position} : ok (.binary op l r pos) → ok l ∧ ok r
  logical {op : LogicalOp} {l r : Expr} {pos : Position} : ok (.logical op l r pos) → ok l ∧ ok r
  assignment {i : Identifier} {e : Expr} : ok (.assignment i e) → ok e
  comparison {es : List Expr} {ops : List ComparisonOp} {pos : Position} :
    ok (.comparison es ops pos) → ∀ e ∈ es, ok e
  call {i : Identifier} {es : List Expr} : ok (.call i es) → ∀ e ∈ es, ok e

structure InheritedStatements (ok : Expr → Prop) (okay : Statement → Prop) : Prop where
  expression {e : Expr} : okay (.expression e) → ok e
  branch {c : Expr} {body : List Statement} {otherwise : Option (List Statement)} {pos : Position} :
    okay (.branch c body otherwise pos) →
      ok c ∧ (∀ s ∈ body, okay s) ∧ ∀ other, otherwise = some other → ∀ s ∈ other, okay s
  loop {c : Expr} {body : List Statement} {pos : Position} :
    okay (.loop c body pos) → ok c ∧ ∀ s ∈ body, okay s
  result {kind : ControlKind} {e : Expr} {pos : Position} :
    okay (.control kind (some e) pos) → ok e

structure Located (place : Position → Prop) (ok : Expr → Prop) : Prop where
  «variable» {i : Identifier} : ok (.variable i) → place i.pos
  unary {op : UnaryOp} {e : Expr} {pos : Position} : ok (.unary op e pos) → place pos
  binary {op : BinaryOp} {l r : Expr} {pos : Position} : ok (.binary op l r pos) → place pos
  assignment {i : Identifier} {e : Expr} : ok (.assignment i e) → place i.pos
  comparison {es : List Expr} {ops : List ComparisonOp} {pos : Position} :
    ok (.comparison es ops pos) → place pos
  call {i : Identifier} {es : List Expr} : ok (.call i es) → place i.pos

structure LocatedStatements (place : Position → Prop) (okay : Statement → Prop) : Prop where
  function {name : Identifier} {params : List Identifier} {body : List Statement} :
    okay (.function name params body) → place name.pos ∧ ∀ p ∈ params, place p.pos
  control {kind : ControlKind} {value : Option Expr} {pos : Position} :
    okay (.control kind value pos) → place pos

theorem Located.any {ok : Expr → Prop} : Located Any ok where
  «variable» _ := trivial
  unary _ := trivial
  binary _ := trivial
  assignment _ := trivial
  comparison _ := trivial
  call _ := trivial

theorem LocatedStatements.any {okay : Statement → Prop} : LocatedStatements Any okay where
  function _ := ⟨trivial, fun _ _ => trivial⟩
  control _ := trivial

theorem Inherited.any : Inherited Any where
  unary _ := trivial
  binary _ := ⟨trivial, trivial⟩
  logical _ := ⟨trivial, trivial⟩
  assignment _ := trivial
  comparison _ _ _ := trivial
  call _ _ _ := trivial

theorem InheritedStatements.any : InheritedStatements Any Any where
  expression _ := trivial
  branch _ := ⟨trivial, fun _ _ => trivial, fun _ _ _ _ => trivial⟩
  loop _ := ⟨trivial, fun _ _ => trivial⟩
  result _ := trivial

def Callable (I : Invariant) (i : Identifier) : Callee → Prop
  | .user f => I.value (.function f)
  | .builtin b => Builtin.ofName? i.name = some b

theorem caught_fits (nothing : I.value .nothing)
    (misuse : ∀ s, I.interrupt (.signal s) → I.interrupt (.error (.misuse s)))
    (returned : ∀ s v, I.interrupt (.signal s) → s.value = some v → I.value v)
    {r : Except Interrupt Unit} (fits : I.Fits Any r) : I.Fits I.value (caught r) := by
  rcases r with (e | ⟨kind | _, value, pos⟩ | _) | _
  · exact fits
  · cases kind with
    | continueLoop | breakLoop => exact misuse _ fits
    | returnValue =>
      cases value with
      | none => exact nothing
      | some v => exact returned _ v fits rfl
  · exact fits
  · exact fits
  · exact nothing

-- The body of a call starts in the frame of its arguments, which is gone after it.
theorem call_keeps {rounds depth : Nat} {f : Function} {args : List Value} (pos : Position)
    (start : ∀ s t, I.rel s t → I.rel { s with calls := arguments f.params args :: s.calls }
      { t with calls := arguments f.params args :: t.calls })
    (finish : ∀ s t, I.rel s t → I.rel { s with calls := s.calls.tail }
      { t with calls := t.calls.tail })
    (body : I.Keeps Any (block rounds (call rounds depth) f.body))
    (ends : ∀ s, I.Fits Any (block rounds (call rounds depth) f.body s).1 →
      I.Fits I.value (caught (block rounds (call rounds depth) f.body s).1)) :
    I.Keeps I.value (call rounds (depth + 1) f args pos) := by
  intro s t rel
  obtain ⟨r, s', t', eq, eq', fits, rel'⟩ := body _ _ (start s t rel)
  refine ⟨caught r, _, _, ?_, ?_, ?_, finish s' t' rel'⟩
  · simp only [call, inFrame, eq]
  · simp only [call, inFrame, eq']
  · have known := ends { s with calls := arguments f.params args :: s.calls }
    rw [eq] at known
    exact known fits

namespace Reach

section

variable {place : Position → Prop} (reach : I.Reach place) {pos : Position}

include reach

theorem ofExcept_keeps {P : α → Prop} {r : Except Error α} (here : place pos)
    (h : Proper pos P r) : I.Keeps P (ofExcept r) := by
  cases r with
  | ok a => exact .pure h
  | error e =>
    obtain ⟨raised, at'⟩ := h
    refine .interrupt (reach.raised raised fun other found => ?_)
    rw [at'] at found
    exact Option.some.inj found ▸ here

theorem fail_keeps {P : α → Prop} {e : Error} (here : place pos) (h : e.Raised)
    (at' : e.pos? = some pos) : I.Keeps P (fail e) :=
  reach.ofExcept_keeps here (.error h at')

theorem named_keeps {i : Identifier} (here : place i.pos) : I.Keeps I.value (named i) := by
  unfold named
  split
  · exact reach.fail_keeps here trivial rfl
  · refine (reach.lookup i).bind fun found values => ?_
    cases found with
    | some v => exact .pure (values v rfl)
    | none => exact reach.fail_keeps here trivial rfl

theorem unary_keeps (op : UnaryOp) (v : Value) (here : place pos) :
    I.Keeps I.value (Eval.unary op v pos) := by
  cases op with
  | not => exact .pure (reach.plain trivial)
  | negate =>
    exact (reach.ofExcept_keeps here (Arithmetic.negate_proper v pos)).mono fun _ => reach.plain

theorem callee_keeps {i : Identifier} (given : Nat) (here : place i.pos) :
    I.Keeps (fun target => target.arity.accepts given = true ∧ I.Callable i target)
      (callee i given) := by
  -- All ways to a target join in the check of how many arguments there are.
  have checked (target : Callee) (callable : I.Callable i target) :
      I.Keeps (fun target => target.arity.accepts given = true ∧ I.Callable i target)
        (if target.arity.accepts given = true then Pure.pure target
          else fail (.type i.pos (.argumentCount target.name target.arity given))) := by
    split
    · next accepts => exact .pure ⟨accepts, callable⟩
    · exact reach.fail_keeps here trivial rfl
  have missed {e : Error} (h : e.Raised) (at' : e.pos? = some i.pos) :
      I.Keeps (fun _ => False) (fail e : Eval Callee) :=
    reach.fail_keeps here h at'
  refine (reach.lookup i).bind fun found values => ?_
  split
  · next f =>
    have callable : I.Callable i (.user f) := values _ rfl
    exact Keeps.bind (.pure callable) checked
  · exact Keeps.bind (missed trivial rfl) fun _ => False.elim
  · split
    · next b name =>
      have callable : I.Callable i (.builtin b) := name
      exact Keeps.bind (.pure callable) checked
    · exact Keeps.bind (missed trivial rfl) fun _ => False.elim

theorem builtin_keeps {b : Builtin} {args : List Value} (here : place pos)
    (accepts : b.arity.accepts args.length = true)
    (abort : b = .abort → I.interrupt (.signal ⟨.abort, none, pos⟩))
    (input : ∀ kind, b = .input kind → I.Keeps Any Eval.readLine) :
    I.Keeps I.value (b.call args pos) := by
  have numeric (h : b.IsNumeric) : I.Keeps I.value (ofExcept (b.numeric args pos)) :=
    (reach.ofExcept_keeps here (Builtin.numeric_proper pos h accepts)).mono fun _ => reach.plain
  cases b with
  | print =>
    exact (reach.write _).bind fun _ _ => .pure (reach.plain trivial)
  | abort => exact .interrupt (abort rfl)
  | input kind =>
    obtain ⟨prompt, rfl⟩ := Builtin.accepts_one rfl accepts
    exact (reach.write _).bind fun _ _ => (input kind rfl).bind fun line _ =>
      (reach.ofExcept_keeps here (Builtin.ofLine_proper kind line pos)).mono fun _ =>
        reach.plain
  | real f | atan2 | abs | whole f | round => exact numeric trivial

theorem define_keeps {f : Function} (name : place f.name.pos)
    (params : ∀ p ∈ f.params, place p.pos) (value : isBuiltinName f.name.name = false →
      (∀ p ∈ f.params, isBuiltinName p.name = false) → I.value (.function f)) :
    I.Keeps I.value (define f) := by
  unfold define
  split
  · exact reach.fail_keeps name trivial rfl
  · next own =>
    have free : isBuiltinName f.name.name = false := by simpa using own
    split
    · next p found =>
      exact reach.fail_keeps (params p (List.mem_of_find?_eq_some found)) trivial rfl
    · next none =>
      have others : ∀ p ∈ f.params, isBuiltinName p.name = false := by
        simpa [List.find?_eq_none] using none
      exact (reach.bindName free (value free others)).bind fun _ _ =>
        .pure (reach.plain trivial)

theorem respects {ok : Expr → Prop} {caller : Caller} (inherited : Inherited ok)
    (located : Located place ok)
    (abort : ∀ pos, place pos → I.interrupt (.signal ⟨.abort, none, pos⟩))
    (input : ∀ i es kind, ok (.call i es) → Builtin.ofName? i.name = some (.input kind) →
      I.Keeps Any Eval.readLine)
    (chain : ∀ es ops pos, ok (.comparison es ops pos) → ops = [] ∨ es.length ≠ ops.length + 1 →
      I.interrupt (.error (.internal (.malformedChain pos))))
    (calls : ∀ f args pos, place pos → I.value (.function f) → (∀ v ∈ args, I.value v) →
      I.Keeps I.value (caller f args pos)) : I.Respects ok caller where
  bool b := reach.plain trivial
  literal {v} _ _ := reach.plain (Value.ofLiteral_plain v)
  named h := reach.named_keeps (located.variable h)
  unary h := ⟨inherited.unary h, fun v _ => reach.unary_keeps _ v (located.unary h)⟩
  binary h := by
    obtain ⟨left, right⟩ := inherited.binary h
    exact ⟨left, right, fun v w _ _ =>
      (reach.ofExcept_keeps (located.binary h) (Arithmetic.binary_proper _ v w _)).mono fun _ =>
        reach.plain⟩
  logical := inherited.logical
  assignment {i _} h := by
    refine ⟨inherited.assignment h, fun _ => ?_, fun free v hv => reach.bindName free hv⟩
    exact reach.raised trivial fun pos found => Option.some.inj found ▸ located.assignment h
  comparison h := ⟨inherited.comparison h, chain _ _ _ h,
    fun vs _ => reach.ofExcept_keeps (located.comparison h) (compareAll_proper _ vs _)⟩
  call {i es} h := by
    have here := located.call h
    refine ⟨inherited.call h, (reach.callee_keeps es.length here).mono ?_⟩
    rintro (f | b) ⟨accepts, callable⟩ vs len values
    · exact calls f vs i.pos here callable values
    · refine reach.builtin_keeps here (len ▸ accepts) (fun _ => abort i.pos here) ?_
      rintro kind rfl
      exact input i es kind h callable

theorem respectsStatements {ok : Expr → Prop} {okay : Statement → Prop}
    (inherited : InheritedStatements ok okay) (located : LocatedStatements place okay)
    (exhausted : ∀ c body pos, okay (.loop c body pos) → I.interrupt .exhausted)
    (jump : ∀ kind value pos, place pos → (∀ v, value = some v → I.value v) →
      I.interrupt (.signal ⟨.control kind, value, pos⟩))
    (function : ∀ name params body, okay (.function name params body) →
      isBuiltinName name.name = false → (∀ p ∈ params, isBuiltinName p.name = false) →
      I.value (.function ⟨name, params, body⟩)) : I.RespectsStatements ok okay where
  nothing := reach.plain trivial
  exhausted := exhausted _ _ _
  expression := inherited.expression
  branch := inherited.branch
  loop := inherited.loop
  function h := by
    obtain ⟨name, params⟩ := located.function h
    exact reach.define_keeps name params (function _ _ _ h)
  jump h := jump _ none _ (located.control h) nofun
  result h := ⟨inherited.result h, fun v hv => jump _ _ _ (located.control h) fun w eq => by
    cases eq
    exact hv⟩

end

end Reach

namespace Access

section

variable (access : I.Access)

include access

theorem ofExcept_keeps {P : α → Prop} {pos : Position} {r : Except Error α}
    (h : Proper pos P r) : I.Keeps P (ofExcept r) :=
  access.reach.ofExcept_keeps trivial h

theorem fail_keeps {P : α → Prop} {e : Error} (h : e.Raised) : I.Keeps P (fail e) :=
  .interrupt (access.raised h)

theorem named_keeps (i : Identifier) : I.Keeps I.value (named i) :=
  access.reach.named_keeps trivial

theorem unary_keeps (op : UnaryOp) (v : Value) (pos : Position) :
    I.Keeps I.value (Eval.unary op v pos) :=
  access.reach.unary_keeps op v trivial

theorem callee_keeps (i : Identifier) (given : Nat) :
    I.Keeps (fun target => target.arity.accepts given = true ∧ I.Callable i target)
      (callee i given) :=
  access.reach.callee_keeps given trivial

theorem builtin_keeps {b : Builtin} {args : List Value} (pos : Position)
    (accepts : b.arity.accepts args.length = true)
    (abort : b = .abort → I.interrupt (.signal ⟨.abort, none, pos⟩))
    (input : ∀ kind, b = .input kind → I.Keeps Any Eval.readLine) :
    I.Keeps I.value (b.call args pos) :=
  access.reach.builtin_keeps trivial accepts abort input

theorem define_keeps {f : Function} (value : isBuiltinName f.name.name = false →
    (∀ p ∈ f.params, isBuiltinName p.name = false) → I.value (.function f)) :
    I.Keeps I.value (define f) :=
  access.reach.define_keeps trivial (fun _ _ => trivial) value

theorem respects {ok : Expr → Prop} {caller : Caller} (inherited : Inherited ok)
    (abort : ∀ pos, I.interrupt (.signal ⟨.abort, none, pos⟩))
    (input : ∀ i es kind, ok (.call i es) → Builtin.ofName? i.name = some (.input kind) →
      I.Keeps Any Eval.readLine)
    (chain : ∀ es ops pos, ok (.comparison es ops pos) → ops = [] ∨ es.length ≠ ops.length + 1 →
      I.interrupt (.error (.internal (.malformedChain pos))))
    (calls : ∀ f args pos, I.value (.function f) → (∀ v ∈ args, I.value v) →
      I.Keeps I.value (caller f args pos)) : I.Respects ok caller :=
  access.reach.respects inherited .any (fun pos _ => abort pos) input chain
    fun f args pos _ => calls f args pos

theorem respectsStatements {ok : Expr → Prop} {okay : Statement → Prop}
    (inherited : InheritedStatements ok okay)
    (jump : ∀ kind value pos, (∀ v, value = some v → I.value v) →
      I.interrupt (.signal ⟨.control kind, value, pos⟩))
    (function : ∀ name params body, okay (.function name params body) →
      isBuiltinName name.name = false → (∀ p ∈ params, isBuiltinName p.name = false) →
      I.value (.function ⟨name, params, body⟩)) : I.RespectsStatements ok okay :=
  access.reach.respectsStatements inherited .any (fun _ _ _ _ => access.exhausted)
    (fun kind value pos _ => jump kind value pos) function

end

end Access

namespace Operations

section

variable (operations : I.Operations)

include operations

theorem builtin_keeps {b : Builtin} {args : List Value} (pos : Position)
    (accepts : b.arity.accepts args.length = true)
    (abort : b = .abort → I.interrupt (.signal ⟨.abort, none, pos⟩)) :
    I.Keeps I.value (b.call args pos) :=
  operations.toAccess.builtin_keeps pos accepts abort fun _ _ => operations.readLine

theorem respects {ok : Expr → Prop} {caller : Caller} (inherited : Inherited ok)
    (abort : ∀ pos, I.interrupt (.signal ⟨.abort, none, pos⟩))
    (chain : ∀ es ops pos, ok (.comparison es ops pos) → ops = [] ∨ es.length ≠ ops.length + 1 →
      I.interrupt (.error (.internal (.malformedChain pos))))
    (calls : ∀ f args pos, I.value (.function f) → (∀ v ∈ args, I.value v) →
      I.Keeps I.value (caller f args pos)) : I.Respects ok caller :=
  operations.toAccess.respects inherited abort (fun _ _ _ _ _ => operations.readLine) chain calls

end

end Operations

namespace Primitives

section

variable (primitives : I.Primitives)

include primitives

theorem builtin_keeps {b : Builtin} {args : List Value} (pos : Position)
    (accepts : b.arity.accepts args.length = true) : I.Keeps I.value (b.call args pos) :=
  primitives.toOperations.builtin_keeps pos accepts fun _ => primitives.signal.mpr nofun

theorem respects {ok : Expr → Prop} {caller : Caller} (inherited : Inherited ok)
    (chain : ∀ es ops pos, ok (.comparison es ops pos) → ops = [] ∨ es.length ≠ ops.length + 1 →
      I.interrupt (.error (.internal (.malformedChain pos))))
    (calls : ∀ f args pos, I.value (.function f) → (∀ v ∈ args, I.value v) →
      I.Keeps I.value (caller f args pos)) : I.Respects ok caller :=
  primitives.toOperations.respects inherited (fun _ => primitives.signal.mpr nofun) chain calls

theorem respectsStatements {ok : Expr → Prop} {okay : Statement → Prop}
    (inherited : InheritedStatements ok okay)
    (function : ∀ name params body, okay (.function name params body) →
      isBuiltinName name.name = false → (∀ p ∈ params, isBuiltinName p.name = false) →
      I.value (.function ⟨name, params, body⟩)) : I.RespectsStatements ok okay :=
  primitives.toOperations.respectsStatements inherited
    (fun _ _ _ values => primitives.signal.mpr values) function

theorem caught_fits {r : Except Interrupt Unit} (fits : I.Fits Any r) :
    I.Fits I.value (caught r) :=
  Invariant.caught_fits (primitives.plain trivial) (fun _ _ => primitives.proper trivial)
    (fun _ v known => primitives.signal.mp known v) fits

end

end Primitives

end CalcScript.Eval.Invariant
