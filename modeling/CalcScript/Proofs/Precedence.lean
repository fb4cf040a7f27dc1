import CalcScript.Tree.Parse

set_option autoImplicit false

namespace CalcScript

inductive Level where
  | disjunction
  | conjunction
  | comparison
  | term
  | factor
  | operand
  | power
  | primary
deriving DecidableEq, Repr

namespace Level

def rank : Level → Nat
  | .disjunction => 0
  | .conjunction => 1
  | .comparison => 2
  | .term => 3
  | .factor => 4
  | .operand => 5
  | .power => 6
  | .primary => 7

def tighter : Level → Level
  | .disjunction => .conjunction
  | .conjunction => .comparison
  | .comparison => .term
  | .term => .factor
  | .factor => .operand
  | .operand => .power
  | .power | .primary => .primary

end Level

def BinaryOp.level : BinaryOp → Level
  | .add | .subtract => .term
  | .multiply | .divide | .floorDivide | .modulo => .factor
  | .power => .power

def LogicalOp.level : LogicalOp → Level
  | .or => .disjunction
  | .and => .conjunction

namespace TokenKind

def level? : TokenKind → Option Level
  | .binary op => some op.level
  | .logical op => some op.level
  | .comparison _ => some .comparison
  | _ => none

def extendsName : TokenKind → Bool
  | .leftParen | .assign | .compound _ => true
  | _ => false

def startsPhrase : TokenKind → Bool
  | .integer | .float | .string | .identifier | .leftParen | .bang | .binary .subtract => true
  | _ => false

def startsStatement : TokenKind → Bool
  | .keyword .otherwise => false
  | .keyword _ => true
  | kind => kind.startsPhrase

end TokenKind

def Level.takes (level : Level) (kind : TokenKind) : Bool :=
  match kind.level? with
  | some other => level.rank ≤ other.rank
  | none => false

open Parse

theorem factorOp?_eq_some {kind : TokenKind} {op : BinaryOp} :
    factorOp? kind = some op ↔ kind = .binary op ∧ op.level = .factor := by
  cases kind with
  | binary found => cases found <;> cases op <;> decide
  | _ => simp [factorOp?]

theorem termOp?_eq_some {kind : TokenKind} {op : BinaryOp} :
    termOp? kind = some op ↔ kind = .binary op ∧ op.level = .term := by
  cases kind with
  | binary found => cases found <;> cases op <;> decide
  | _ => simp [termOp?]

theorem andOp?_eq_some {kind : TokenKind} {op : LogicalOp} :
    andOp? kind = some op ↔ kind = .logical op ∧ op.level = .conjunction := by
  cases kind with
  | logical found => cases found <;> cases op <;> decide
  | _ => simp [andOp?]

theorem orOp?_eq_some {kind : TokenKind} {op : LogicalOp} :
    orOp? kind = some op ↔ kind = .logical op ∧ op.level = .disjunction := by
  cases kind with
  | logical found => cases found <;> cases op <;> decide
  | _ => simp [orOp?]

theorem comparisonOp?_eq_some {kind : TokenKind} {op : ComparisonOp} :
    kind.comparisonOp? = some op ↔ kind = .comparison op := by
  cases kind <;> simp [TokenKind.comparisonOp?]

theorem assignmentOp?_eq_some {kind : TokenKind} {op? : Option BinaryOp} :
    assignmentOp? kind = some op? ↔
      kind = .assign ∧ op? = none ∨ ∃ op, kind = .compound op ∧ op? = some op := by
  cases kind <;> simp [assignmentOp?, eq_comm]

theorem extendsName_eq_false {kind : TokenKind} :
    kind.extendsName = false ↔ kind ≠ .leftParen ∧ assignmentOp? kind = none := by
  cases kind <;> simp [TokenKind.extendsName, assignmentOp?]

theorem startsStatement_of_startsPhrase {kind : TokenKind} (starts : kind.startsPhrase = true) :
    kind.startsStatement = true := by
  cases kind with
  | keyword word => simp [TokenKind.startsPhrase] at starts
  | _ => exact starts

namespace Level

@[simp] theorem takes_binary (level : Level) (op : BinaryOp) :
    level.takes (.binary op) = decide (level.rank ≤ op.level.rank) := rfl

@[simp] theorem takes_logical (level : Level) (op : LogicalOp) :
    level.takes (.logical op) = decide (level.rank ≤ op.level.rank) := rfl

@[simp] theorem takes_comparison (level : Level) (op : ComparisonOp) :
    level.takes (.comparison op) = decide (level.rank ≤ Level.comparison.rank) := rfl

theorem takes_eq_false {level : Level} {kind : TokenKind} :
    level.takes kind = false ↔ ∀ other, kind.level? = some other → other.rank < level.rank := by
  unfold Level.takes
  cases kind.level? <;> simp

theorem takes_of_rank {level other : Level} (le : level.rank ≤ other.rank) {kind : TokenKind}
    (done : level.takes kind = false) : other.takes kind = false :=
  takes_eq_false.mpr fun own found =>
    Nat.lt_of_lt_of_le (takes_eq_false.mp done own found) le

theorem rank_injective {level other : Level} (same : level.rank = other.rank) :
    level = other := by
  cases level <;> cases other <;> first | rfl | cases same

theorem rank_tighter {level other : Level} (lt : level.rank < other.rank) :
    level.tighter.rank = level.rank + 1 := by
  cases level with
  | primary => cases other <;> simp [rank] at lt
  | _ => rfl

theorem takes_loosen {level : Level} {kind : TokenKind} (other : kind.level? ≠ some level)
    (tight : level.tighter.takes kind = false) : level.takes kind = false := by
  refine takes_eq_false.mpr fun own found => ?_
  have lt := takes_eq_false.mp tight own found
  have ne : own.rank ≠ level.rank := by
    intro same
    rw [rank_injective same] at found
    exact other found
  have le : level.tighter.rank ≤ level.rank + 1 := by cases level <;> decide
  omega

theorem takes_disjunction (kind : TokenKind) :
    Level.disjunction.takes kind = kind.level?.isSome := by
  unfold Level.takes
  cases kind.level? <;> simp [Level.rank]

theorem takes_primary (kind : TokenKind) : Level.primary.takes kind = false := by
  cases kind with
  | binary op | logical op => cases op <;> rfl
  | _ => rfl

theorem takes_operand (kind : TokenKind) :
    Level.operand.takes kind = Level.power.takes kind := by
  cases kind with
  | binary op | logical op => cases op <;> rfl
  | _ => rfl

end Level

def Reads {α : Type} (op? : TokenKind → Option α) (level : Level) : Prop :=
  ∀ kind, (op? kind).isSome = true ↔ kind.level? = some level

theorem factorOp?_reads : Reads factorOp? .factor := by
  intro kind
  cases kind with
  | binary op | logical op => cases op <;> decide
  | _ => simp [factorOp?, TokenKind.level?]

theorem termOp?_reads : Reads termOp? .term := by
  intro kind
  cases kind with
  | binary op | logical op => cases op <;> decide
  | _ => simp [termOp?, TokenKind.level?]

theorem comparisonOp?_reads : Reads TokenKind.comparisonOp? .comparison := by
  intro kind
  cases kind with
  | binary op | logical op => cases op <;> decide
  | _ => simp [TokenKind.comparisonOp?, TokenKind.level?]

theorem andOp?_reads : Reads andOp? .conjunction := by
  intro kind
  cases kind with
  | binary op | logical op => cases op <;> decide
  | _ => simp [andOp?, TokenKind.level?]

theorem orOp?_reads : Reads orOp? .disjunction := by
  intro kind
  cases kind with
  | binary op | logical op => cases op <;> decide
  | _ => simp [orOp?, TokenKind.level?]

theorem level?_ne_power {kind : TokenKind} (other : kind ≠ .binary .power) :
    kind.level? ≠ some .power := by
  cases kind with
  | binary op => cases op <;> simp_all [TokenKind.level?, BinaryOp.level]
  | logical op => cases op <;> simp [TokenKind.level?, LogicalOp.level]
  | _ => simp [TokenKind.level?]

namespace Reads

variable {α : Type} {op? : TokenKind → Option α} {level : Level}

theorem level?_eq (reads : Reads op? level) {kind : TokenKind} {op : α}
    (found : op? kind = some op) : kind.level? = some level :=
  (reads kind).mp (by simp [found])

theorem takes (reads : Reads op? level) {kind : TokenKind} {op : α}
    (found : op? kind = some op) : level.takes kind = true := by
  simp [Level.takes, reads.level?_eq found]

theorem misses (reads : Reads op? level) {kind : TokenKind} (missed : op? kind = none) :
    kind.level? ≠ some level := by
  intro own
  have found := (reads kind).mpr own
  simp [missed] at found

theorem stop (reads : Reads op? level) {rest : List Token}
    (done : ∀ t ∈ rest.head?, level.takes t.kind = false) :
    ∀ t ∈ rest.head?, op? t.kind = none := by
  intro t head
  cases found : op? t.kind with
  | none => rfl
  | some op =>
    have taken := reads.takes found
    simp [done t head] at taken

end Reads

end CalcScript
