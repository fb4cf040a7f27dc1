import CalcScript.Proofs.Equations
import CalcScript.Proofs.Words
import Mathlib.Data.Rat.Floor

set_option autoImplicit false

namespace CalcScript

namespace Integers

inductive Operator where
  | add
  | subtract
  | multiply
  | floorDivide
  | modulo
  | power
deriving DecidableEq, Repr

def Operator.binaryOp : Operator → BinaryOp
  | .add => .add
  | .subtract => .subtract
  | .multiply => .multiply
  | .floorDivide => .floorDivide
  | .modulo => .modulo
  | .power => .power

mutual

inductive Term where
  | literal (n : Int64) (pos : Position)
  | unary (op : UnaryOp) (t : Term) (pos : Position)
  | binary (op : Operator) (l r : Term) (pos : Position)
  | logical (op : LogicalOp) (l r : Term) (pos : Position)
  | comparison (first : Term) (chain : Chain) (pos : Position)

inductive Chain where
  | last (op : ComparisonOp) (t : Term)
  | more (op : ComparisonOp) (t : Term) (rest : Chain)

end

def Chain.ops : Chain → List ComparisonOp
  | .last op _ => [op]
  | .more op _ rest => op :: rest.ops

mutual

def Term.expr : Term → Expr
  | .literal n pos => .literal (.int n) pos
  | .unary op t pos => .unary op t.expr pos
  | .binary op l r pos => .binary op.binaryOp l.expr r.expr pos
  | .logical op l r pos => .logical op l.expr r.expr pos
  | .comparison first chain pos => .comparison (first.expr :: chain.exprs) chain.ops pos

def Chain.exprs : Chain → List Expr
  | .last _ t => [t.expr]
  | .more _ t rest => t.expr :: rest.exprs

end

/-- Why there is no integer. A negative exponent leaves the integers. -/
inductive Stop where
  | zeroDivisor (fault : MathFault) (pos : Position)
  | outOfRange (pos : Position)
  | negativeExponent (pos : Position)

def fit (pos : Position) (n : Int) : Except Stop Int :=
  if -2 ^ 63 ≤ n ∧ n < 2 ^ 63 then .ok n else .error (.outOfRange pos)

def quotient (m n : Int) : Int := ⌊(m : ℚ) / n⌋

def arithmetic (op : Operator) (m n : Int) (pos : Position) : Except Stop Int :=
  match op with
  | .add => fit pos (m + n)
  | .subtract => fit pos (m - n)
  | .multiply => fit pos (m * n)
  | .floorDivide =>
    if n = 0 then .error (.zeroDivisor .divisionByZero pos) else fit pos (quotient m n)
  | .modulo =>
    if n = 0 then .error (.zeroDivisor .moduloByZero pos) else fit pos (m - n * quotient m n)
  | .power => if n < 0 then .error (.negativeExponent pos) else fit pos (m ^ n.toNat)

def related : ComparisonOp → Int → Int → Bool
  | .equal, m, n => m = n
  | .notEqual, m, n => m ≠ n
  | .greater, m, n => m > n
  | .greaterEqual, m, n => m ≥ n
  | .less, m, n => m < n
  | .lessEqual, m, n => m ≤ n

def allRelated : Int → List (ComparisonOp × Int) → Bool
  | _, [] => true
  | m, (op, n) :: rest => related op m n && allRelated n rest

def truth (p : Bool) : Int := if p then 1 else 0

mutual

def Term.value : Term → Except Stop Int
  | .literal n _ => .ok n.toInt
  | .unary .not t _ => do
    let m ← t.value
    return truth (m = 0)
  | .unary .negate t pos => do
    let m ← t.value
    fit pos (-m)
  | .binary op l r pos => do
    let m ← l.value
    let n ← r.value
    arithmetic op m n pos
  | .logical .and l r _ => do
    let m ← l.value
    if m = 0 then return 0
    else do
      let n ← r.value
      return truth (n ≠ 0)
  | .logical .or l r _ => do
    let m ← l.value
    if m = 0 then do
      let n ← r.value
      return truth (n ≠ 0)
    else return 1
  | .comparison first chain _ => do
    let m ← first.value
    let links ← chain.values
    return truth (allRelated m links)

def Chain.values : Chain → Except Stop (List (ComparisonOp × Int))
  | .last op t => do
    let n ← t.value
    return [(op, n)]
  | .more op t rest => do
    let n ← t.value
    let links ← rest.values
    return (op, n) :: links

end

inductive Answer {α β : Type} (R : α → β → Prop) (s : Session) :
    Except Stop β → Except Interrupt α × Session → Prop
  | value {a : α} {b : β} (h : R a b) : Answer R s (.ok b) (.ok a, s)
  | zeroDivisor (fault : MathFault) (pos : Position) :
      Answer R s (.error (.zeroDivisor fault pos)) (.error (.error (.math pos fault)), s)
  | outOfRange (pos : Position) :
      Answer R s (.error (.outOfRange pos)) (.error (.error (.overflow pos)), s)
  | negativeExponent (pos : Position) (r : Except Interrupt α × Session) :
      Answer R s (.error (.negativeExponent pos)) r

def Stands (v : Value) (n : Int) : Prop := ∃ w : Int64, w.toInt = n ∧ v = .int w

theorem Answer.bind {α β α' β' : Type} {R : α → β → Prop} {R' : α' → β' → Prop} {s : Session}
    {m : Eval α} {wanted : Except Stop β} {f : α → Eval α'} {g : β → Except Stop β'}
    (first : Answer R s wanted (m s)) (later : ∀ a b, R a b → Answer R' s (g b) (f a s)) :
    Answer R' s (wanted >>= g) ((m >>= f) s) := by
  rw [Eval.bind_apply]
  generalize m s = r at first
  cases first with
  | value h => exact later _ _ h
  | zeroDivisor fault pos => exact .zeroDivisor fault pos
  | outOfRange pos => exact .outOfRange pos
  | negativeExponent pos r => exact .negativeExponent pos _

variable (s : Session)

theorem checked_answers (pos : Position) (n : Int) :
    Answer Stands s (fit pos n)
      (Eval.ofExcept (Arithmetic.checked pos (Word.ofInt? n)) s) := by
  unfold fit
  split
  · next fits =>
    obtain ⟨w, found, exact⟩ := Word.exists_word fits
    rw [found]
    exact .value ⟨w, exact, rfl⟩
  · next out =>
    rw [Word.ofInt?_eq_none_iff_pow.mpr (by omega)]
    exact .outOfRange pos

theorem quotient_eq_fdiv (m n : Int) : quotient m n = m.fdiv n := by
  have positive (m : Int) (n : Nat) : ⌊(m : ℚ) / (n : Int)⌋ = m.fdiv n := by
    rw [Int.fdiv_eq_ediv_of_nonneg _ n.cast_nonneg]
    exact Rat.floor_intCast_div_natCast m n
  obtain ⟨k, rfl | rfl⟩ := n.eq_nat_or_neg
  · exact positive m k
  · rw [quotient, Int.cast_neg, div_neg, ← neg_div, ← Int.cast_neg, positive, ← Int.neg_fdiv_neg,
      neg_neg]

theorem remainder_eq_fmod (m n : Int) : m - n * quotient m n = m.fmod n := by
  rw [quotient_eq_fdiv, Int.fmod_def]

theorem arithmetic_answers (op : Operator) (l r : Int64) (pos : Position) :
    Answer Stands s (arithmetic op l.toInt r.toInt pos)
      (Eval.ofExcept (Arithmetic.binary op.binaryOp (.int l) (.int r) pos) s) := by
  cases op with
  | add | subtract | multiply => exact checked_answers s pos _
  | floorDivide =>
    by_cases zero : r = 0
    · simp only [arithmetic, Word.toInt_eq_zero, zero, if_true]
      exact .zeroDivisor .divisionByZero pos
    · simp only [arithmetic, Word.toInt_eq_zero, zero, if_false, quotient_eq_fdiv,
        Operator.binaryOp, Arithmetic.binary, Arithmetic.onInts, Word.floorDivide?_eq zero]
      exact checked_answers s pos _
  | modulo =>
    by_cases zero : r = 0
    · simp only [arithmetic, Word.toInt_eq_zero, zero, if_true]
      exact .zeroDivisor .moduloByZero pos
    · simp only [arithmetic, Word.toInt_eq_zero, zero, if_false, remainder_eq_fmod,
        Operator.binaryOp, Arithmetic.binary, Arithmetic.onInts]
      rw [← Word.toInt_floorModulo zero, fit, if_pos (Word.bounds _)]
      exact .value ⟨_, rfl, rfl⟩
  | power =>
    by_cases negative : r.toInt < 0
    · simp only [arithmetic, negative, if_true]
      exact .negativeExponent pos _
    · simp only [arithmetic, negative, if_false, Operator.binaryOp, Arithmetic.binary,
        Arithmetic.onInts, Word.pow?_eq]
      exact checked_answers s pos _

theorem holds_compare (op : ComparisonOp) (m n : Int) :
    op.holds (compare m n) = related op m n := by
  rcases lt_trichotomy m n with lt | rfl | gt
  · rw [compare_lt_iff_lt.mpr lt]
    cases op <;> simp [ComparisonOp.holds, related] <;> omega
  · rw [compare_eq_iff_eq.mpr rfl]
    cases op <;> simp [ComparisonOp.holds, related]
  · rw [compare_gt_iff_gt.mpr gt]
    cases op <;> simp [ComparisonOp.holds, related] <;> omega

theorem compare_ints (op : ComparisonOp) (l r : Int64) (pos : Position) :
    Comparison.compare op (.int l) (.int r) pos = .ok (related op l.toInt r.toInt) := by
  rw [← holds_compare]
  rfl

def StandFor (ops : List ComparisonOp) (vs : List Value) (links : List (ComparisonOp × Int)) :
    Prop :=
  links.map (·.1) = ops ∧ List.Forall₂ Stands vs (links.map (·.2))

theorem compareAll_ints (pos : Position) (links : List (ComparisonOp × Int)) :
    ∀ {v : Value} {m : Int} {vs : List Value}, Stands v m →
      List.Forall₂ Stands vs (links.map (·.2)) →
      Eval.compareAll (links.map (·.1)) (v :: vs) pos = .ok (allRelated m links) := by
  induction links with
  | nil =>
    rintro v m _ - ⟨⟩
    rfl
  | cons link links ih =>
    rintro v m _ ⟨l, rfl, rfl⟩ (⟨⟩ | ⟨⟨r, eq, rfl⟩, rest⟩)
    have later := ih ⟨r, eq, rfl⟩ rest
    simp only [List.map_cons, Eval.compareAll, compare_ints, later, eq]
    rfl

theorem stands_truth (p : Bool) : Stands (.ofBool p) (truth p) := by
  cases p
  · exact ⟨0, rfl, rfl⟩
  · exact ⟨1, rfl, rfl⟩

theorem truthy_int (w : Int64) : (Value.int w).truthy = decide (w.toInt ≠ 0) := by
  by_cases zero : w = 0
  · simp [Value.truthy, zero]
  · simp [Value.truthy, zero, Word.toInt_eq_zero]

theorem second_answers {s : Session} {wanted : Except Stop Int} {m : Eval Value}
    (h : Answer Stands s wanted (m s)) :
    Answer Stands s (do let n ← wanted; return truth (n ≠ 0))
      ((do let v ← m; return .ofBool v.truthy : Eval Value) s) := by
  refine h.bind ?_
  rintro _ _ ⟨n, rfl, rfl⟩
  rw [truthy_int]
  exact .value (stands_truth _)

theorem Chain.length_exprs : ∀ chain : Chain, chain.exprs.length = chain.ops.length
  | .last _ _ => rfl
  | .more _ _ rest => congrArg (· + 1) rest.length_exprs

theorem not_malformed (first : Term) (chain : Chain) :
    ¬(chain.ops = [] ∨ (first.expr :: chain.exprs).length ≠ chain.ops.length + 1) := by
  rintro (none | other)
  · cases chain <;> cases none
  · exact other (congrArg (· + 1) chain.length_exprs)

variable (caller : Caller)

mutual

theorem term_answers : ∀ t : Term, Answer Stands s t.value (Eval.expression caller t.expr s)
  | .literal n pos => by
    rw [Term.value, Term.expr, Eval.expression_literal]
    exact .value ⟨n, rfl, rfl⟩
  | .unary .not t pos => by
    rw [Term.value, Term.expr, Eval.expression_unary]
    refine (term_answers t).bind ?_
    rintro _ _ ⟨w, rfl, rfl⟩
    have negated : (!(Value.int w).truthy) = decide (w.toInt = 0) := by simp [truthy_int]
    simp only [Eval.unary, negated]
    exact .value (stands_truth _)
  | .unary .negate t pos => by
    rw [Term.value, Term.expr, Eval.expression_unary]
    refine (term_answers t).bind ?_
    rintro _ _ ⟨w, rfl, rfl⟩
    exact checked_answers s pos _
  | .binary op l r pos => by
    rw [Term.value, Term.expr, Eval.expression_binary]
    refine (term_answers l).bind ?_
    rintro _ _ ⟨m, rfl, rfl⟩
    refine (term_answers r).bind ?_
    rintro _ _ ⟨n, rfl, rfl⟩
    exact arithmetic_answers s op m n pos
  | .logical .and l r pos => by
    rw [Term.value, Term.expr, Eval.expression_logical]
    refine (term_answers l).bind ?_
    rintro _ _ ⟨m, rfl, rfl⟩
    rw [truthy_int]
    by_cases zero : m.toInt = 0
    · simp only [zero, if_true]
      exact .value (stands_truth false)
    · simp only [zero, if_false, decide_true, ne_eq, not_false_eq_true]
      exact second_answers (term_answers r)
  | .logical .or l r pos => by
    rw [Term.value, Term.expr, Eval.expression_logical]
    refine (term_answers l).bind ?_
    rintro _ _ ⟨m, rfl, rfl⟩
    rw [truthy_int]
    by_cases zero : m.toInt = 0
    · simp only [zero, if_true, ne_eq, not_true_eq_false, decide_false]
      exact second_answers (term_answers r)
    · simp only [zero, if_false, decide_true, ne_eq, not_false_eq_true]
      exact .value (stands_truth true)
  | .comparison first chain pos => by
    rw [Term.value, Term.expr, Eval.expression_comparison, if_neg (not_malformed first chain),
      Eval.walkAll_cons]
    simp only [bind_assoc, pure_bind]
    refine (term_answers first).bind fun v m stands => ?_
    refine (chain_answers chain).bind ?_
    rintro vs links ⟨ops, values⟩
    rw [← ops, compareAll_ints pos links stands values]
    exact .value (stands_truth _)

theorem chain_answers : ∀ chain : Chain,
    Answer (StandFor chain.ops) s chain.values (Eval.walkAll caller chain.exprs s)
  | .last op t => by
    rw [Chain.values, Chain.exprs, Eval.walkAll_cons]
    exact (term_answers t).bind fun v n stands => .value ⟨rfl, .cons stands .nil⟩
  | .more op t rest => by
    rw [Chain.values, Chain.exprs, Eval.walkAll_cons]
    exact (term_answers t).bind fun v n stands => (chain_answers rest).bind fun vs links h =>
      .value ⟨congrArg (op :: ·) h.1, .cons stands h.2⟩

end

theorem power_exact {b k : Int64} (small : b.toInt.natAbs ≤ 1) (natural : 0 ≤ k.toInt)
    (pos : Position) :
    ∃ w : Int64, w.toInt = b.toInt ^ k.toInt.toNat ∧
      Arithmetic.binary .power (.int b) (.int k) pos = .ok (.int w) := by
  have size : (b.toInt ^ k.toInt.toNat).natAbs ≤ 1 := by
    rw [Int.natAbs_pow]
    exact pow_le_one₀ (Nat.zero_le _) small
  obtain ⟨w, found, exact⟩ := Word.exists_word (n := b.toInt ^ k.toInt.toNat) (by omega)
  refine ⟨w, exact, ?_⟩
  simp only [Arithmetic.binary, Arithmetic.onInts, if_neg natural.not_gt, Word.pow?_eq, found]
  rfl

/-- Evaluation follows the integers: it comes to the exact integer, or to the error for the first
operation that divides by zero or leaves the words. -/
theorem expression_follows_integers (caller : Caller) (s : Session) :
    (∀ t : Term, Answer Stands s t.value (Eval.expression caller t.expr s)) ∧
    (∀ pos, Arithmetic.binary .floorDivide (.int Int64.minValue) (.int (-1)) pos =
      .error (.overflow pos)) ∧
    (∀ pos, Arithmetic.binary .modulo (.int Int64.minValue) (.int (-1)) pos = .ok (.int 0)) ∧
    ∀ b k : Int64, b = 0 ∨ b = 1 ∨ b = -1 → 0 ≤ k.toInt → ∀ pos, ∃ w : Int64,
      w.toInt = b.toInt ^ k.toInt.toNat ∧
      Arithmetic.binary .power (.int b) (.int k) pos = .ok (.int w) := by
  refine ⟨term_answers s caller, fun _ => rfl, fun _ => rfl, ?_⟩
  rintro b k small natural pos
  refine power_exact ?_ natural pos
  rcases small with rfl | rfl | rfl <;> decide

theorem expression_follows_integers_at_limits :
    let word (n : Int64) : Term := .literal n default
    let t : Term := .logical .or
      (.comparison (.binary .add (word 2) (word 3) default) (.last .less (word 6)) default)
      (.binary .floorDivide (word 1) (word 0) default) default
    let s := Session.ofConsole (.ofInput [])
    t.value = .ok 1 ∧ Answer Stands s t.value (Eval.expression (Eval.call 0 0) t.expr s) ∧
      0 ≤ Int64.maxValue.toInt ∧ ∃ w : Int64,
        w.toInt = (-1 : Int64).toInt ^ Int64.maxValue.toInt.toNat ∧
        Arithmetic.binary .power (.int (-1)) (.int Int64.maxValue) default = .ok (.int w) :=
  ⟨rfl, (expression_follows_integers _ _).1 _, by decide,
    (expression_follows_integers (Eval.call 0 0) (.ofConsole (.ofInput []))).2.2.2 (-1) _
      (.inr (.inr rfl)) (by decide) default⟩

end Integers

end CalcScript
