import CalcScript.Proofs.NestingLimit
import CalcScript.Proofs.Printing

set_option autoImplicit false

namespace CalcScript

namespace Grammar

mutual

theorem Phrase.widen {room : Nat} {level : Level} {last : Bool} {e : Expr} {ts : List Token} :
    Phrase room level last e ts → Phrase (room + 1) level last e ts
  | .literal kind value => .literal kind value
  | .variable kind => .variable kind
  | .group left inside right => .group left inside.widen right
  | .emptyCall kind left right => .emptyCall kind left right
  | .call kind left inside right => .call kind left inside.widen right
  | .assignment kind sign value => .assignment kind sign value.widen
  | .compound kind sign value => .compound kind sign value.widen
  | .power base sign exponent => .power base.widen sign exponent.widen
  | .unary sign inside => .unary sign inside.widen
  | .binary own leans left sign right => .binary own leans left.widen sign right.widen
  | .logical own left sign right => .logical own left.widen sign right.widen
  | .comparison first chain => .comparison first.widen chain.widen
  | .lift phrase => .lift phrase.widen

theorem Chain.widen {room : Nat} {last : Bool} {chain : List (ComparisonOp × Position × Expr)}
    {ts : List Token} : Chain room last chain ts → Chain (room + 1) last chain ts
  | .last sign operand => .last sign operand.widen
  | .more sign operand rest => .more sign operand.widen rest.widen

theorem Arguments.widen {room : Nat} {es : List Expr} {ts : List Token} :
    Arguments room es ts → Arguments (room + 1) es ts
  | .last argument => .last argument.widen
  | .more argument comma rest => .more argument.widen comma rest.widen

end

theorem Simple.widen {room : Nat} {s : Statement} {ts : List Token} :
    Simple room s ts → Simple (room + 1) s ts
  | .expression phrase => .expression phrase.widen
  | .control word => .control word
  | .value word phrase => .value word phrase.widen

mutual

theorem Block.widen {room : Nat} {body : List Statement} {ts : List Token} :
    Block room body ts → Block (room + 1) body ts
  | .braces left inside right => .braces left inside.widen right

theorem Otherwise.widen {room : Nat} {otherwise : Option (List Statement)} {ts : List Token} :
    Otherwise room otherwise ts → Otherwise (room + 1) otherwise ts
  | .nothing => .nothing
  | .block word block => .block word block.widen
  | .branch word condition block rest => .branch word condition.widen block.widen rest.widen

theorem Compound.widen {room : Nat} {s : Statement} {ts : List Token} :
    Compound room s ts → Compound (room + 1) s ts
  | .branch word condition block rest => .branch word condition.widen block.widen rest.widen
  | .loop word condition block => .loop word condition.widen block.widen
  | .function word name left params right block =>
    .function word name left params right block.widen

theorem Statements.widen {room : Nat} {items : List Statement} {ts : List Token} :
    Statements room items ts → Statements (room + 1) items ts
  | .nil => .nil
  | .last statement => .last statement.widen
  | .simple statement separator more => .simple statement.widen separator more.widen
  | .compound statement more => .compound statement.widen more.widen
  | .separated statement separator more => .separated statement.widen separator more.widen

end

theorem Phrase.mono {room wider : Nat} {level : Level} {last : Bool} {e : Expr} {ts : List Token}
    (h : Phrase room level last e ts) (le : room ≤ wider) : Phrase wider level last e ts := by
  induction le with
  | refl => exact h
  | step _ ih => exact ih.widen

theorem Block.mono {room wider : Nat} {body : List Statement} {ts : List Token}
    (h : Block room body ts) (le : room ≤ wider) : Block wider body ts := by
  induction le with
  | refl => exact h
  | step _ ih => exact ih.widen

end Grammar

namespace Parse

theorem Descent.CappedTo.cases {α : Type} {limit : Nat} {d : Descent α} {r : Except SyntaxError α}
    (capped : d.CappedTo limit r) :
    r = d.result ∨ ∃ pos, r = .error (.located pos .nestedTooDeeply) := by
  by_cases within : Always (· ≤ (limit : Int)) d.steps
  · exact .inl (capped.within within)
  · obtain ⟨pos, -, refused⟩ := capped.beyond within
    exact .inr ⟨pos, refused⟩

end Parse

def ReadAs (ts : List Token) (items : List Statement) : Prop :=
  (∃ read, parseProgram ts = .ok read ∧ Statement.unplacedAll read = items) ∨
    ∃ pos, parseProgram ts = .error (.located pos .nestedTooDeeply)

open Parse in
theorem Grammar.Statements.readAs {room : Nat} {items : List Statement} {ts : List Token}
    (h : Statements room items ts) : ReadAs ts (Statement.unplacedAll items) := by
  have free : (Unlimited.program ts).result = .ok items := by
    rcases (programWithin_cappedTo room ts).cases with same | ⟨pos, refused⟩
    · exact same.symm.trans (programWithin_eq_ok.mpr h)
    · rw [programWithin_eq_ok.mpr h] at refused
      cases refused
  rcases (programWithin_cappedTo maxNesting ts).cases with same | refused
  · exact .inl ⟨items, same.trans free, rfl⟩
  · exact .inr refused

end CalcScript
