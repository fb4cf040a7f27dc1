import CalcScript.Proofs.OperatorRuns
import CalcScript.Proofs.Turns
import Mathlib.Data.List.Forall2

set_option autoImplicit false

namespace CalcScript

namespace Comparison

structure Link where
  op : ComparisonOp
  lhs : Value
  rhs : Value

def links : List ComparisonOp → List Value → List Link
  | op :: ops, v :: w :: vs => ⟨op, v, w⟩ :: links ops (w :: vs)
  | _, _ => []

namespace Link

def compare (link : Link) (pos : Position) : Except Error Bool :=
  Comparison.compare link.op link.lhs link.rhs pos

def Comparable (link : Link) (pos : Position) : Prop := ∃ b, link.compare pos = .ok b

end Link

structure Judges (links : List Link) (pos : Position) (result : Except Interrupt Value) : Prop where
  holds : result = .ok (.int 1) ↔ ∀ link ∈ links, link.compare pos = .ok true
  fails : (∀ link ∈ links, link.Comparable pos) → (∃ link ∈ links, link.compare pos = .ok false) →
    result = .ok (.int 0)
  incomparable : ∀ before link after, links = before ++ link :: after →
    (∀ earlier ∈ before, earlier.Comparable pos) → ¬link.Comparable pos →
    result = .error (.error (.type pos (.comparison link.lhs link.op link.rhs)))

section

variable {link : Link} {ops : List ComparisonOp} {vs : List Value} {pos : Position}

theorem Link.compare_cases (link : Link) :
    (∃ b, ∀ pos, link.compare pos = .ok b) ∨
      ∀ pos, link.compare pos = .error (.type pos (.comparison link.lhs link.op link.rhs)) := by
  obtain ⟨op, v, w⟩ := link
  simp only [Link.compare, Comparison.compare]
  rcases order? v w with _ | _ | o
  · rcases equal? v w with _ | same
    · exact .inr fun pos => by cases op <;> rfl
    · cases op
      case equal => exact .inl ⟨same, fun pos => rfl⟩
      case notEqual => exact .inl ⟨!same, fun pos => rfl⟩
      all_goals exact .inr fun pos => rfl
  · exact .inl ⟨op == .notEqual, fun pos => rfl⟩
  · exact .inl ⟨op.holds o, fun pos => rfl⟩

theorem Link.compare_of_incomparable (apart : ¬link.Comparable pos) :
    link.compare pos = .error (.type pos (.comparison link.lhs link.op link.rhs)) := by
  rcases link.compare_cases with ⟨b, same⟩ | refused
  · exact absurd ⟨b, same pos⟩ apart
  · exact refused pos

theorem Link.compare_at {b : Bool} (here : link.compare pos = .ok b) (there : Position) :
    link.compare there = .ok b := by
  rcases link.compare_cases with ⟨c, same⟩ | refused
  · rw [same] at here ⊢
    exact here
  · rw [refused] at here
    cases here

theorem compareAll_cons (op : ComparisonOp) (v w : Value) :
    Eval.compareAll (op :: ops) (v :: w :: vs) pos = (do
      let first ← Link.compare ⟨op, v, w⟩ pos
      let rest ← Eval.compareAll ops (w :: vs) pos
      return first && rest) := rfl

theorem compareAll_of_comparable (comparable : ∀ link ∈ links ops vs, link.Comparable pos) :
    ∃ b, Eval.compareAll ops vs pos = .ok b ∧
      (b = true ↔ ∀ link ∈ links ops vs, link.compare pos = .ok true) := by
  fun_induction links ops vs with
  | case1 op ops v w vs ih =>
    obtain ⟨first, later⟩ := List.forall_mem_cons.mp comparable
    obtain ⟨a, here⟩ := first
    obtain ⟨b, there, all⟩ := ih later
    refine ⟨a && b, ?_, ?_⟩
    · rw [compareAll_cons, here, there]
      rfl
    · simp [here, all]
  | case2 ops vs other =>
    refine ⟨true, ?_, by simp⟩
    rw [Eval.compareAll]
    · rfl
    · exact other

theorem compareAll_of_incomparable {before after : List Link}
    (split : links ops vs = before ++ link :: after)
    (comparable : ∀ earlier ∈ before, earlier.Comparable pos) (apart : ¬link.Comparable pos) :
    Eval.compareAll ops vs pos = .error (.type pos (.comparison link.lhs link.op link.rhs)) := by
  induction before generalizing ops vs with
  | nil =>
    fun_cases links ops vs with
    | case1 op ops v w vs =>
      simp only [links, List.nil_append, List.cons.injEq] at split
      obtain ⟨rfl, -⟩ := split
      rw [compareAll_cons, Link.compare_of_incomparable apart]
      rfl
    | case2 => simp_all [links]
  | cons first before ih =>
    fun_cases links ops vs with
    | case1 op ops v w vs =>
      simp only [links, List.cons_append, List.cons.injEq] at split
      obtain ⟨rfl, later⟩ := split
      obtain ⟨⟨a, here⟩, between⟩ := List.forall_mem_cons.mp comparable
      rw [compareAll_cons, here, ih later between]
      rfl
    | case2 => simp_all [links]

theorem exists_leftmost_incomparable {ls : List Link} (some : ¬∀ link ∈ ls, link.Comparable pos) :
    ∃ before link after, ls = before ++ link :: after ∧
      (∀ earlier ∈ before, earlier.Comparable pos) ∧ ¬link.Comparable pos := by
  induction ls with
  | nil => simp at some
  | cons link ls ih =>
    by_cases here : link.Comparable pos
    · have later : ¬∀ link ∈ ls, link.Comparable pos := fun all =>
        some (List.forall_mem_cons.mpr ⟨here, all⟩)
      obtain ⟨before, apart, after, rfl, comparable, incomparable⟩ := ih later
      exact ⟨link :: before, apart, after, rfl, List.forall_mem_cons.mpr ⟨here, comparable⟩,
        incomparable⟩
    · exact ⟨[], link, ls, rfl, by simp, here⟩

end

end Comparison

/-- A comparison for each two neighbours, at a place of its own. -/
inductive Neighbours : List Expr → List ComparisonOp → List Expr → Prop
  | nil (e : Expr) : Neighbours [e] [] []
  | cons {e f : Expr} {es : List Expr} {op : ComparisonOp} {ops : List ComparisonOp}
      {pairs : List Expr} (pos : Position) (later : Neighbours (f :: es) ops pairs) :
      Neighbours (e :: f :: es) (op :: ops) (.comparison [e, f] [op] pos :: pairs)

def Eval.Settled (caller : Caller) (s : Session) (e : Expr) (v : Value) : Prop :=
  expression caller e s = (.ok v, s)

namespace Eval

open Comparison

section

variable {caller : Caller} {s t : Session} {es : List Expr} {ops : List ComparisonOp}
  {vs : List Value} {pos : Position}

theorem expression_chain (some : ops ≠ []) (fit : es.length = ops.length + 1)
    (caller : Caller) (pos : Position) :
    expression caller (.comparison es ops pos) = (do
      let vs ← walkAll caller es
      let holds ← ofExcept (compareAll ops vs pos)
      return .ofBool holds) := by
  rw [expression_comparison, if_neg]
  simp [some, fit]

theorem judged (ops : List ComparisonOp) (vs : List Value) (pos : Position) :
    ∃ result, Judges (links ops vs) pos result ∧ ∀ s : Session,
      (do
        let holds ← ofExcept (compareAll ops vs pos)
        return Value.ofBool holds : Eval Value) s = (result, s) := by
  by_cases comparable : ∀ link ∈ links ops vs, link.Comparable pos
  · obtain ⟨b, compared, all⟩ := compareAll_of_comparable comparable
    refine ⟨.ok (.ofBool b), ⟨?_, ?_, ?_⟩, fun s => by rw [compared]; rfl⟩
    · rw [← all]
      cases b <;> simp [Value.ofBool]
    · rintro - ⟨link, mem, refused⟩
      have : b ≠ true := by
        intro holds
        simp [all.mp holds link mem] at refused
      simp [Value.ofBool, this]
    · rintro before link after split - apart
      exact absurd (comparable link (by simp [split])) apart
  · obtain ⟨before, link, after, split, earlier, apart⟩ := exists_leftmost_incomparable comparable
    have compared := compareAll_of_incomparable split earlier apart
    refine ⟨.error (.error (.type pos (.comparison link.lhs link.op link.rhs))), ⟨?_, ?_, ?_⟩,
      fun s => by rw [compared]; rfl⟩
    · constructor
      · simp
      · intro holds
        exact absurd ⟨true, holds link (by simp [split])⟩ apart
    · exact fun all => absurd all comparable
    · intro before' link' after' split' earlier' apart'
      have same := (compareAll_of_incomparable split' earlier' apart').symm.trans compared
      simp_all

theorem walkAll_of_settled (settled : List.Forall₂ (Settled caller s) es vs) :
    walkAll caller es s = (.ok vs, s) := by
  induction settled with
  | nil => rw [walkAll]; rfl
  | cons first later ih => rw [walkAll_cons, bind_of_ok first, bind_of_ok ih]; rfl

theorem chain_settled {b : Bool} (some : ops ≠ []) (fit : es.length = ops.length + 1)
    (settled : List.Forall₂ (Settled caller s) es vs) (compared : compareAll ops vs pos = .ok b) :
    Settled caller s (.comparison es ops pos) (.ofBool b) := by
  rw [Settled, expression_chain some fit, bind_of_ok (walkAll_of_settled settled), compared]
  rfl

theorem pairs_settled {pairs : List Expr} (neighbours : Neighbours es ops pairs)
    (settled : List.Forall₂ (Settled caller s) es vs)
    (comparable : ∀ link ∈ links ops vs, link.Comparable pos) :
    ∃ bs : List Bool, compareAll ops vs pos = .ok (bs.all id) ∧
      List.Forall₂ (fun pair b => Settled caller s pair (.ofBool b)) pairs bs := by
  induction neighbours generalizing vs with
  | nil e =>
    refine ⟨[], ?_, .nil⟩
    rw [compareAll]
    · rfl
    · simp
  | @cons e f es op ops pairs place later ih =>
    obtain _ | ⟨left, _ | ⟨right, rest⟩⟩ := settled
    rename_i v w vs
    obtain ⟨⟨b, here⟩, between⟩ := List.forall_mem_cons.mp comparable
    obtain ⟨bs, compared, behind⟩ := ih (.cons right rest) between
    refine ⟨b :: bs, ?_, .cons ?_ behind⟩
    · rw [compareAll_cons, here, compared]
      rfl
    · have alone : compareAll [op] [v, w] place = .ok (b && true) := by
        rw [compareAll_cons, Link.compare_at here place]
        rfl
      rw [Bool.and_true] at alone
      exact chain_settled (by simp) rfl (.cons left (.cons right .nil)) alone

theorem and_settled {first e : Expr} {a b : Bool} (left : Settled caller s first (.ofBool a))
    (right : Settled caller s e (.ofBool b)) (pos : Position) :
    Settled caller s (first.join (.logical .and, e, pos)) (.ofBool (a && b)) := by
  rw [Settled, Expr.join, expression_logical, bind_of_ok left]
  cases a with
  | false => rfl
  | true =>
    simp only [truthy_ofBool, LogicalOp.decides, Bool.not_true, Bool.false_eq_true, if_false]
    rw [bind_of_ok right]
    simp

theorem conjunction_settled {first : Expr} {a : Bool} {later : List (Expr × Position)}
    {bs : List Bool} (left : Settled caller s first (.ofBool a))
    (right : List.Forall₂ (fun pair b => Settled caller s pair (.ofBool b)) (later.map (·.1)) bs) :
    Settled caller s (first.run (later.map fun (e, pos) => (.logical .and, e, pos)))
      (.ofBool (a && bs.all id)) := by
  induction later generalizing first a bs with
  | nil =>
    cases right
    simpa [Expr.run] using left
  | cons step later ih =>
    obtain _ | ⟨here, behind⟩ := right
    have joined := ih (and_settled left here step.2) behind
    simpa [Expr.run, Bool.and_assoc] using joined

end

end Eval

namespace Traced

open Comparison

section

variable {nest : Nesting} {caller : Caller} {s t : Session} {es : List Expr}
  {ops : List ComparisonOp} {pos : Position}

-- After its own event, a chain does what its operands do and then something silent.
theorem chain_of_operands (some : ops ≠ []) (fit : es.length = ops.length + 1) :
    expression nest caller (.comparison es ops pos) =
      enter nest (.expression (.comparison es ops pos)) do
        let vs ← expressions nest caller es
        let holds ← Eval.ofExcept (Eval.compareAll ops vs pos)
        return .ofBool holds := by
  rw [expression, if_neg]
  simp [some, fit]

theorem chain_of_inTurn (some : ops ≠ []) (fit : es.length = ops.length + 1) {vs : List Value}
    {events : List Event} (inTurn : InTurn (es.map (expression nest caller)) s vs events t) :
    ∃ result, Judges (links ops vs) pos result ∧
      (expression nest caller (.comparison es ops pos)).eval s = (result, t) ∧
      (expression nest caller (.comparison es ops pos)).trace s =
        ⟨nest, .expression (.comparison es ops pos), s⟩ :: events := by
  obtain ⟨values, trace⟩ := expressions_of_inTurn inTurn
  obtain ⟨result, judges, rest⟩ := Eval.judged ops vs pos
  refine ⟨result, judges, ?_⟩
  rw [chain_of_operands some fit]
  simp only [enter, (bind_of_ok values _).1, (bind_of_ok values _).2, trace, List.cons.injEq,
    true_and]
  refine ⟨rest t, ?_⟩
  rcases Eval.compareAll ops vs pos with e | b <;> exact List.append_nil _

theorem chain_of_breaksOff (some : ops ≠ []) (fit : es.length = ops.length + 1) {i : Interrupt}
    {events : List Event} (breaks : BreaksOff (es.map (expression nest caller)) s i events t) :
    (expression nest caller (.comparison es ops pos)).eval s = (.error i, t) ∧
      (expression nest caller (.comparison es ops pos)).trace s =
        ⟨nest, .expression (.comparison es ops pos), s⟩ :: events := by
  obtain ⟨failed, trace⟩ := expressions_of_breaksOff breaks
  rw [chain_of_operands some fit]
  simp only [enter, (bind_of_error failed _).1, (bind_of_error failed _).2, trace, and_self]

end

end Traced

namespace Eval

open Comparison

/-- The operands of a chain are evaluated from the left, each once, up to the first that is
interrupted. -/
theorem chain_judged_by_neighbours (nest : Nesting) (caller : Traced.Caller) (es : List Expr)
    (ops : List ComparisonOp) (pos : Position) (some : ops ≠ [])
    (fit : es.length = ops.length + 1) (s : Session) :
    let chain : Expr := .comparison es ops pos
    let operands := es.map (Traced.expression nest caller)
    ((∃ vs events t, Traced.InTurn operands s vs events t) ∨
      ∃ i events t, Traced.BreaksOff operands s i events t) ∧
    (∀ i events t, Traced.BreaksOff operands s i events t →
      expression caller.eval chain s = (.error i, t) ∧
      (Traced.expression nest caller chain).trace s = ⟨nest, .expression chain, s⟩ :: events) ∧
    (∀ vs events t, Traced.InTurn operands s vs events t →
      ∃ result, Judges (links ops vs) pos result ∧
        expression caller.eval chain s = (result, t) ∧
        (Traced.expression nest caller chain).trace s = ⟨nest, .expression chain, s⟩ :: events) ∧
    ∀ vs, List.Forall₂ (Settled caller.eval s) es vs →
      (∀ link ∈ links ops vs, link.Comparable pos) →
      ∀ (first : Expr) (later : List (Expr × Position)),
        Neighbours es ops (first :: later.map (·.1)) →
        expression caller.eval chain s = expression caller.eval
          (first.run (later.map fun (pair, pos) => (.logical .and, pair, pos))) s := by
  intro chain operands
  refine ⟨Traced.inTurn_or_breaksOff operands s, fun i events t breaks => ?_,
    fun vs events t inTurn => ?_, fun vs settled comparable first later neighbours => ?_⟩
  · rw [← Traced.eval_expression nest]
    exact Traced.chain_of_breaksOff some fit breaks
  · rw [← Traced.eval_expression nest]
    exact Traced.chain_of_inTurn some fit inTurn
  · obtain ⟨bs, compared, pairs⟩ := pairs_settled neighbours settled comparable
    obtain _ | ⟨left, right⟩ := pairs
    exact (chain_settled some fit settled compared).trans (conjunction_settled left right).symm

theorem chain_judged_by_neighbours_early_false :
    let s : Session := ⟨.empty, [], .ofInput []⟩
    let caller := Traced.call 0 1 []
    let number (n : Int64) : Expr := .literal (.int n) default
    let text : Expr := .literal (.string "a") default
    let binds : Expr := .assignment ⟨"x", default⟩ (number 3)
    let chain (e f g : Expr) : Expr := .comparison [e, f, g] [.less, .less] default
    let pair (e f : Expr) : Expr := .comparison [e, f] [.less] default
    expression caller.eval (chain (number 2) (number 1) binds) s =
      (.ok (.int 0), s.bind ⟨"x", default⟩ (.int 3)) ∧
    expression caller.eval (chain (number 2) (number 1) text) s =
      (.error (.error (.type default (.comparison (.int 1) .less (.string "a")))), s) ∧
    expression caller.eval (chain (number 2) (.variable ⟨"y", default⟩) binds) s =
      (.error (.error (.name default (.variable "y"))), s) ∧
    expression caller.eval (chain (number 1) (number 2) (number 3)) s =
      expression caller.eval
        (.logical .and (pair (number 1) (number 2)) (pair (number 2) (number 3)) default) s := by
  intro s caller number text binds chain pair
  have main (e f g : Expr) :=
    chain_judged_by_neighbours ⟨[], 1⟩ caller [e, f, g] [.less, .less] default (by simp) rfl s
  obtain ⟨-, -, values, -⟩ := main (number 2) (number 1) binds
  obtain ⟨first, judges, evaluated, -⟩ :=
    values _ _ _ (.cons rfl (.cons rfl (.cons rfl (.nil _))))
  obtain ⟨-, -, values, -⟩ := main (number 2) (number 1) text
  obtain ⟨second, judges', evaluated', -⟩ :=
    values _ _ _ (.cons rfl (.cons rfl (.cons rfl (.nil _))))
  obtain ⟨-, breaks, -, -⟩ := main (number 2) (.variable ⟨"y", default⟩) binds
  obtain ⟨-, -, -, joined⟩ := main (number 1) (number 2) (number 3)
  refine ⟨?_, ?_, ?_, ?_⟩
  · rw [evaluated, judges.fails]
    · rfl
    · rintro link (_ | ⟨_, _ | ⟨_, ⟨⟩⟩⟩)
      · exact ⟨false, rfl⟩
      · exact ⟨true, rfl⟩
    · exact ⟨_, .head _, rfl⟩
  · rw [evaluated', judges'.incomparable [⟨.less, .int 2, .int 1⟩] ⟨.less, .int 1, .string "a"⟩ []]
    · rfl
    · rintro link (_ | ⟨_, ⟨⟩⟩)
      exact ⟨false, rfl⟩
    · rintro ⟨b, ⟨⟩⟩
  · exact (breaks _ _ _ (.behind rfl (.first rfl _))).1
  · refine joined [.int 1, .int 2, .int 3] (.cons rfl (.cons rfl (.cons rfl .nil))) ?_ _
      [(pair (number 2) (number 3), default)] (.cons default (.cons default (.nil _)))
    rintro link (_ | ⟨_, _ | ⟨_, ⟨⟩⟩⟩)
    · exact ⟨true, rfl⟩
    · exact ⟨true, rfl⟩

end Eval

end CalcScript
