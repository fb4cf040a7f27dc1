import CalcScript.Proofs.Soundness

set_option autoImplicit false

namespace CalcScript

mutual

def Expr.WellFormed : Expr → Prop
  | .literal _ _ | .variable _ => True
  | .unary _ e _ | .assignment _ e => e.WellFormed
  | .binary _ l r _ | .logical _ l r _ => l.WellFormed ∧ r.WellFormed
  | .comparison es ops _ => ops ≠ [] ∧ es.length = ops.length + 1 ∧ Expr.AllWellFormed es
  | .call _ es => Expr.AllWellFormed es

def Expr.AllWellFormed : List Expr → Prop
  | [] => True
  | e :: es => e.WellFormed ∧ Expr.AllWellFormed es

end

mutual

def Statement.WellFormed : Statement → Prop
  | .expression e => e.WellFormed
  | .branch c body otherwise _ =>
    c.WellFormed ∧ Statement.AllWellFormed body ∧ Statement.ElseWellFormed otherwise
  | .loop c body _ => c.WellFormed ∧ Statement.AllWellFormed body
  | .function _ params body => (∀ p ∈ params, p.isGlobal = false) ∧ Statement.AllWellFormed body
  | .control _ none _ => True
  | .control kind (some e) _ => kind = .returnValue ∧ e.WellFormed

def Statement.AllWellFormed : List Statement → Prop
  | [] => True
  | s :: ss => s.WellFormed ∧ Statement.AllWellFormed ss

def Statement.ElseWellFormed : Option (List Statement) → Prop
  | none => True
  | some body => Statement.AllWellFormed body

end

namespace Grammar

mutual

theorem Phrase.wellFormed {room : Nat} {level : Level} {last : Bool} {e : Expr} {ts : List Token} :
    Phrase room level last e ts → e.WellFormed
  | .literal _ _ | .variable _ => trivial
  | .group _ inside _ => inside.wellFormed
  | .emptyCall _ _ _ => trivial
  | .call _ _ inside _ => inside.wellFormed
  | .assignment _ _ value => value.wellFormed
  | .compound _ _ value => ⟨trivial, value.wellFormed⟩
  | .power base _ exponent => ⟨base.wellFormed, exponent.wellFormed⟩
  | .unary _ inside => inside.wellFormed
  | .binary _ _ left _ right | .logical _ left _ right => ⟨left.wellFormed, right.wellFormed⟩
  | .comparison first chain => ⟨by simp, by simp, first.wellFormed, chain.wellFormed⟩
  | .lift phrase => phrase.wellFormed

theorem Chain.wellFormed {room : Nat} {last : Bool}
    {chain : List (ComparisonOp × Position × Expr)} {ts : List Token} :
    Chain room last chain ts → Expr.AllWellFormed (chain.map (·.2.2))
  | .last _ operand => ⟨operand.wellFormed, trivial⟩
  | .more _ operand rest => ⟨operand.wellFormed, rest.wellFormed⟩

theorem Arguments.wellFormed {room : Nat} {es : List Expr} {ts : List Token} :
    Arguments room es ts → Expr.AllWellFormed es
  | .last argument => ⟨argument.wellFormed, trivial⟩
  | .more argument _ rest => ⟨argument.wellFormed, rest.wellFormed⟩

end

theorem Params.own {names : List Identifier} {ts : List Token} (h : Params names ts) :
    ∀ p ∈ names, p.isGlobal = false := by
  induction h with
  | nil => simp
  | last _ own => simpa [Identifier.isGlobal] using own
  | more _ own _ _ ih =>
    intro p member
    rcases List.mem_cons.mp member with rfl | member
    · exact own
    · exact ih p member

theorem Simple.wellFormed {room : Nat} {s : Statement} {ts : List Token} (h : Simple room s ts) :
    s.WellFormed := by
  cases h with
  | expression phrase => exact phrase.wellFormed
  | control _ => trivial
  | value _ phrase => exact ⟨rfl, phrase.wellFormed⟩

mutual

theorem Block.wellFormed {room : Nat} {body : List Statement} {ts : List Token} :
    Block room body ts → Statement.AllWellFormed body
  | .braces _ inside _ => inside.wellFormed

theorem Otherwise.wellFormed {room : Nat} {otherwise : Option (List Statement)}
    {ts : List Token} : Otherwise room otherwise ts → Statement.ElseWellFormed otherwise
  | .nothing => trivial
  | .block _ block => block.wellFormed
  | .branch _ condition block rest =>
    ⟨⟨condition.wellFormed, block.wellFormed, rest.wellFormed⟩, trivial⟩

theorem Compound.wellFormed {room : Nat} {s : Statement} {ts : List Token} :
    Compound room s ts → s.WellFormed
  | .branch _ condition block rest => ⟨condition.wellFormed, block.wellFormed, rest.wellFormed⟩
  | .loop _ condition block => ⟨condition.wellFormed, block.wellFormed⟩
  | .function _ _ _ params _ block => ⟨params.own, block.wellFormed⟩

theorem Statements.wellFormed {room : Nat} {items : List Statement} {ts : List Token} :
    Statements room items ts → Statement.AllWellFormed items
  | .nil => trivial
  | .last statement => ⟨statement.wellFormed, trivial⟩
  | .simple statement _ more => ⟨statement.wellFormed, more.wellFormed⟩
  | .compound statement more | .separated statement _ more =>
    ⟨statement.wellFormed, more.wellFormed⟩

end

end Grammar

theorem wellFormed_of_parseProgram {ts : List Token} {items : List Statement}
    (h : parseProgram ts = .ok items) : Statement.AllWellFormed items :=
  (Grammar.programWithin_eq_ok.mp h).wellFormed

theorem wellFormed_of_readProgram {source : String} {items : List Statement}
    (h : readProgram source = .ok items) : Statement.AllWellFormed items := by
  obtain ⟨ts, -, parsed⟩ := Parse.bind_eq_ok.mp h
  exact wellFormed_of_parseProgram parsed

theorem wellFormed_of_parseExpression {ts : List Token} {e : Expr}
    (h : parseExpression ts = .ok e) : e.WellFormed := by
  obtain ⟨used, phrase, -⟩ := Grammar.soleExpressionWithin_eq_ok.mp h
  exact phrase.wellFormed

theorem wellFormed_of_readExpression {source : String} {e : Expr}
    (h : readExpression source = .ok e) : e.WellFormed := by
  obtain ⟨ts, -, parsed⟩ := Parse.bind_eq_ok.mp h
  exact wellFormed_of_parseExpression parsed

end CalcScript
