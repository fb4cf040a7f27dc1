import CalcScript.Proofs.Soundness

set_option autoImplicit false

namespace CalcScript

mutual

def Expr.callees : Expr → List Identifier
  | .literal _ _ | .variable _ => []
  | .unary _ e _ | .assignment _ e => e.callees
  | .binary _ l r _ | .logical _ l r _ => l.callees ++ r.callees
  | .comparison es _ _ => Expr.allCallees es
  | .call i es => i :: Expr.allCallees es

def Expr.allCallees : List Expr → List Identifier
  | [] => []
  | e :: es => e.callees ++ Expr.allCallees es

end

mutual

def Statement.callees : Statement → List Identifier
  | .expression e => e.callees
  | .branch c body otherwise _ =>
    c.callees ++ (Statement.allCallees body ++ Statement.elseCallees otherwise)
  | .loop c body _ => c.callees ++ Statement.allCallees body
  | .function _ _ body => Statement.allCallees body
  | .control _ none _ => []
  | .control _ (some e) _ => e.callees

def Statement.allCallees : List Statement → List Identifier
  | [] => []
  | s :: ss => s.callees ++ Statement.allCallees ss

def Statement.elseCallees : Option (List Statement) → List Identifier
  | none => []
  | some body => Statement.allCallees body

end

theorem Expr.mem_allCallees {es : List Expr} {i : Identifier} :
    i ∈ Expr.allCallees es ↔ ∃ e ∈ es, i ∈ e.callees := by
  induction es with
  | nil => simp [Expr.allCallees]
  | cons e es ih => simp [Expr.allCallees, ih]

theorem Statement.mem_allCallees {items : List Statement} {i : Identifier} :
    i ∈ Statement.allCallees items ↔ ∃ s ∈ items, i ∈ s.callees := by
  induction items with
  | nil => simp [Statement.allCallees]
  | cons s items ih => simp [Statement.allCallees, ih]

def Token.identifier? (t : Token) : Option Identifier :=
  if t.kind = .identifier then some ⟨t.lexeme, t.pos⟩ else none

def identifiers (ts : List Token) : List Identifier := ts.filterMap Token.identifier?

@[simp] theorem identifiers_append (ts us : List Token) :
    identifiers (ts ++ us) = identifiers ts ++ identifiers us := List.filterMap_append

theorem identifiers_cons (t : Token) (ts : List Token) :
    (identifiers ts).Sublist (identifiers (t :: ts)) := (List.sublist_cons_self t ts).filterMap _

theorem identifiers_name {t : Token} (kind : t.kind = .identifier) (ts : List Token) :
    identifiers (t :: ts) = ⟨t.lexeme, t.pos⟩ :: identifiers ts := by
  simp [identifiers, Token.identifier?, kind]

namespace Grammar

theorem named_behind {is : List Identifier} {ts : List Token} (t : Token)
    (named : is.Sublist (identifiers ts)) : is.Sublist (identifiers (t :: ts)) :=
  named.trans (identifiers_cons t ts)

theorem named_in {is : List Identifier} {ts : List Token} (named : is.Sublist (identifiers ts))
    (us : List Token) : is.Sublist (identifiers (ts ++ us)) := by
  rw [identifiers_append]
  exact named.trans (List.sublist_append_left _ _)

theorem named_append {is js : List Identifier} {ts us : List Token}
    (first : is.Sublist (identifiers ts)) (second : js.Sublist (identifiers us)) :
    (is ++ js).Sublist (identifiers (ts ++ us)) := by
  rw [identifiers_append]
  exact first.append second

mutual

theorem Phrase.named {room : Nat} {level : Level} {last : Bool} {e : Expr} {ts : List Token} :
    Phrase room level last e ts → e.callees.Sublist (identifiers ts)
  | .literal _ _ | .variable _ => List.nil_sublist _
  | .group _ inside _ => named_behind _ (named_in inside.named _)
  | .emptyCall kind _ _ => by
    rw [identifiers_name kind]
    exact (List.nil_sublist _).cons_cons _
  | .call kind _ inside _ => by
    rw [identifiers_name kind]
    exact (named_behind _ (named_in inside.named _)).cons_cons _
  | .assignment _ _ value | .compound _ _ value => named_behind _ (named_behind _ value.named)
  | .power base _ exponent => named_append base.named (named_behind _ exponent.named)
  | .unary _ inside => named_behind _ inside.named
  | .binary _ _ left _ right | .logical _ left _ right =>
    named_append left.named (named_behind _ right.named)
  | .comparison first chain => named_append first.named chain.named
  | .lift phrase => phrase.named

theorem Chain.named {room : Nat} {last : Bool} {chain : List (ComparisonOp × Position × Expr)}
    {ts : List Token} : Chain room last chain ts →
      (Expr.allCallees (chain.map (·.2.2))).Sublist (identifiers ts)
  | .last _ operand => named_behind _ (by simpa [Expr.allCallees] using operand.named)
  | .more _ operand rest => named_behind _ (named_append operand.named rest.named)

theorem Arguments.named {room : Nat} {es : List Expr} {ts : List Token} :
    Arguments room es ts → (Expr.allCallees es).Sublist (identifiers ts)
  | .last argument => by simpa [Expr.allCallees] using argument.named
  | .more argument _ rest => named_append argument.named (named_behind _ rest.named)

end

theorem Simple.named {room : Nat} {s : Statement} {ts : List Token} (h : Simple room s ts) :
    s.callees.Sublist (identifiers ts) := by
  cases h with
  | expression phrase => exact phrase.named
  | control _ => exact List.nil_sublist _
  | value _ phrase => exact named_behind _ phrase.named

mutual

theorem Block.named {room : Nat} {body : List Statement} {ts : List Token} :
    Block room body ts → (Statement.allCallees body).Sublist (identifiers ts)
  | .braces _ inside _ => named_behind _ (named_in inside.named _)

theorem Otherwise.named {room : Nat} {otherwise : Option (List Statement)} {ts : List Token} :
    Otherwise room otherwise ts → (Statement.elseCallees otherwise).Sublist (identifiers ts)
  | .nothing => List.nil_sublist _
  | .block _ block => named_behind _ block.named
  | .branch _ condition block rest => by
    have inside := named_append condition.named (named_append block.named rest.named)
    simpa [Statement.elseCallees, Statement.allCallees, Statement.callees] using
      named_behind _ inside

theorem Compound.named {room : Nat} {s : Statement} {ts : List Token} :
    Compound room s ts → s.callees.Sublist (identifiers ts)
  | .branch _ condition block rest =>
    named_behind _ (named_append condition.named (named_append block.named rest.named))
  | .loop _ condition block => named_behind _ (named_append condition.named block.named)
  | .function _ _ _ _ _ block =>
    named_behind _ (named_behind _ (named_behind _
      (named_append (List.nil_sublist _) (named_behind _ block.named))))

theorem Statements.named {room : Nat} {items : List Statement} {ts : List Token} :
    Statements room items ts → (Statement.allCallees items).Sublist (identifiers ts)
  | .nil => List.nil_sublist _
  | .last statement => by simpa [Statement.allCallees] using statement.named
  | .simple statement _ more => named_append statement.named (named_behind _ more.named)
  | .compound statement more => named_append statement.named more.named
  | .separated statement _ more => named_append statement.named (named_behind _ more.named)

end

end Grammar

theorem named_of_parseProgram {ts : List Token} {items : List Statement}
    (parsed : parseProgram ts = .ok items) :
    (Statement.allCallees items).Sublist (identifiers ts) :=
  (Grammar.programWithin_eq_ok.mp parsed).named

end CalcScript
