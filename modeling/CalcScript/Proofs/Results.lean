import CalcScript.Evaluation

set_option autoImplicit false

namespace CalcScript

def Any {α : Type} (_ : α) : Prop := True

def Value.Plain : Value → Prop
  | .function _ => False
  | _ => True

def Error.Proper : Error → Prop
  | .internal _ => False
  | _ => True

theorem Value.ofLiteral_plain (v : Literal) : (Value.ofLiteral v).Plain := by
  cases v <;> trivial

def Error.Raised : Error → Prop
  | .name _ _ | .type _ _ | .math _ _ | .overflow _ | .io _ => True
  | _ => False

theorem Error.Raised.proper {e : Error} (raised : e.Raised) : e.Proper := by
  cases e <;> trivial

def Proper {α : Type} (pos : Position) (P : α → Prop) : Except Error α → Prop
  | .ok a => P a
  | .error e => e.Raised ∧ e.pos? = some pos

namespace Proper

variable {α β : Type} {pos : Position} {P : α → Prop}

theorem error {e : Error} (raised : e.Raised) (place : e.pos? = some pos) :
    Proper pos P (.error e) := ⟨raised, place⟩

theorem bind {Q : β → Prop} {r : Except Error α} {f : α → Except Error β}
    (first : Proper pos P r) (later : ∀ a, P a → Proper pos Q (f a)) :
    Proper pos Q (r >>= f) := by
  cases r with
  | ok a => exact later a first
  | error e => exact first

theorem ite {c : Prop} [Decidable c] {r s : Except Error α} (yes : Proper pos P r)
    (no : Proper pos P s) : Proper pos P (if c then r else s) := by
  split
  · exact yes
  · exact no

end Proper

namespace Arithmetic

theorem checked_proper (pos : Position) (n : Option Int64) :
    Proper pos Value.Plain (checked pos n) := by
  cases n <;> trivial

theorem negate_proper (v : Value) (pos : Position) : Proper pos Value.Plain (negate v pos) := by
  cases v with
  | int n => exact checked_proper pos _
  | float x | string s | function f | nothing => trivial

theorem floatPower_proper (b e : Float) (pos : Position) :
    Proper pos Value.Plain (floatPower b e pos) := by
  unfold floatPower
  exact .ite (.error trivial rfl) (.ite (.error trivial rfl) (.ite (.error trivial rfl) trivial))

theorem onFloats_proper (op : BinaryOp) (l r : Float) (pos : Position) :
    Proper pos Value.Plain (onFloats op l r pos) := by
  cases op with
  | add | subtract | multiply => trivial
  | divide | floorDivide | modulo => exact .ite (.error trivial rfl) trivial
  | power => exact floatPower_proper l r pos

theorem onInts_proper (op : BinaryOp) (l r : Int64) (pos : Position) :
    Proper pos Value.Plain (onInts op l r pos) := by
  cases op with
  | add | subtract | multiply => exact checked_proper pos _
  | divide => exact onFloats_proper .divide _ _ pos
  | floorDivide => exact .ite (.error trivial rfl) (checked_proper pos _)
  | modulo => exact .ite (.error trivial rfl) trivial
  | power => exact .ite (floatPower_proper _ _ pos) (checked_proper pos _)

theorem binary_proper (op : BinaryOp) (l r : Value) (pos : Position) :
    Proper pos Value.Plain (binary op l r pos) := by
  unfold binary
  split
  · cases op <;> trivial
  · exact onInts_proper op _ _ pos
  · split
    · exact onFloats_proper op _ _ pos
    · trivial

end Arithmetic

namespace Comparison

theorem compare_proper (op : ComparisonOp) (l r : Value) (pos : Position) :
    Proper pos Any (compare op l r pos) := by
  unfold compare
  split
  · trivial
  · trivial
  · split <;> trivial

end Comparison

theorem Eval.compareAll_proper : ∀ (ops : List ComparisonOp) (vs : List Value) (pos : Position),
    Proper pos Any (Eval.compareAll ops vs pos)
  | op :: ops, v :: w :: vs, pos => by
    rw [Eval.compareAll]
    exact (Comparison.compare_proper op v w pos).bind fun _ _ =>
      (Eval.compareAll_proper ops (w :: vs) pos).bind fun _ _ => trivial
  | [], _, _ | _ :: _, [], _ | _ :: _, [_], _ => trivial

namespace Builtin

theorem number_proper (b : Builtin) (v : Value) (pos : Position) :
    Proper pos Any (b.number v pos) := by
  unfold number
  split <;> trivial

theorem checkResult_proper (x : Float) (inputs : List Float) (grows : Bool) (pos : Position) :
    Proper pos Value.Plain (checkResult x inputs grows pos) := by
  unfold checkResult
  refine .ite (.error trivial rfl) (.ite ?_ trivial)
  cases grows <;> trivial

theorem wholeNumber_proper (r : Binary64.Rounding) (x : Float) (pos : Position) :
    Proper pos Any (wholeNumber r x pos) := by
  unfold wholeNumber
  refine .ite (.error trivial rfl) (.ite (.error trivial rfl) ?_)
  split <;> trivial

theorem roundInt_proper (n : Int64) (digits : Int) (pos : Position) :
    Proper pos Any (roundInt n digits pos) := by
  unfold roundInt
  refine .ite trivial ?_
  split <;> trivial

theorem ofLine_proper (kind : InputKind) (line : String) (pos : Position) :
    Proper pos Value.Plain (ofLine kind line pos) := by
  cases kind with
  | string => trivial
  | int | float =>
    simp only [ofLine]
    split <;> trivial

theorem accepts_exactly {b : Builtin} {args : List Value} {n : Nat} (arity : b.arity = .exactly n)
    (accepts : b.arity.accepts args.length = true) : args.length = n := by
  rw [arity] at accepts
  exact (beq_iff_eq.mp accepts).symm

theorem accepts_one {b : Builtin} {args : List Value} (arity : b.arity = .exactly 1)
    (accepts : b.arity.accepts args.length = true) : ∃ v, args = [v] :=
  List.length_eq_one_iff.mp (accepts_exactly arity accepts)

theorem accepts_two {b : Builtin} {args : List Value} (arity : b.arity = .exactly 2)
    (accepts : b.arity.accepts args.length = true) : ∃ v w, args = [v, w] := by
  have two := accepts_exactly arity accepts
  obtain ⟨v, rest, rfl⟩ := List.exists_cons_of_length_eq_add_one two
  obtain ⟨w, rfl⟩ := List.length_eq_one_iff.mp (Nat.succ.inj two)
  exact ⟨v, w, rfl⟩

def IsNumeric : Builtin → Prop
  | .print | .abort | .input _ => False
  | _ => True

-- The number of arguments that the table says is the one that the function takes.
theorem numeric_proper {b : Builtin} {args : List Value} (pos : Position) (numeric : b.IsNumeric)
    (accepts : b.arity.accepts args.length = true) :
    Proper pos Value.Plain (b.numeric args pos) := by
  cases b with
  | real f =>
    obtain ⟨v, rfl⟩ := accepts_one rfl accepts
    exact (number_proper _ v pos).bind fun x _ => checkResult_proper _ _ _ pos
  | atan2 =>
    obtain ⟨v, w, rfl⟩ := accepts_two rfl accepts
    exact (number_proper _ v pos).bind fun y _ => (number_proper _ w pos).bind fun x _ =>
      checkResult_proper _ _ _ pos
  | abs =>
    obtain ⟨v, rfl⟩ := accepts_one rfl accepts
    cases v with
    | int n =>
      simp only [Builtin.numeric]
      split <;> trivial
    | float x | string s | function f | nothing =>
      exact (number_proper .abs _ pos).bind fun x _ => trivial
  | whole f =>
    obtain ⟨v, rfl⟩ := accepts_one rfl accepts
    cases v with
    | int n => trivial
    | float x | string s | function g | nothing =>
      exact (number_proper (.whole f) _ pos).bind fun x _ =>
        (wholeNumber_proper _ x pos).bind fun n _ => trivial
  | round =>
    obtain ⟨v, w, rfl⟩ := accepts_two rfl accepts
    cases w with
    | int digits =>
      cases v with
      | int n => exact (roundInt_proper n _ pos).bind fun m _ => trivial
      | float x | string s | function f | nothing =>
        exact (number_proper .round _ pos).bind fun x _ => trivial
    | float x | string s | function f | nothing => trivial
  | print | abort | input kind => exact numeric.elim

end Builtin

end CalcScript
