import CalcScript.Proofs.Extension
import CalcScript.Proofs.Places

set_option autoImplicit false

namespace CalcScript

namespace Parse

def moved {α : Type} (shift : Position → Position) (f : α → α) :
    Except SyntaxError (α × List Token) → Except SyntaxError (α × List Token)
  | .ok (a, rest) => .ok (f a, rest.map (.move shift))
  | .error e => .error (e.move shift)

def Moves {α : Type} (shift : Position → Position) (f : α → α) (p q : Parser α) : Prop :=
  ∀ ts, q (ts.map (.move shift)) = moved shift f (p ts)

namespace Moves

variable {α β : Type} {shift : Position → Position} {f : α → α} {g : β → β}

theorem of_cons {p q : Parser α} (nil : q [] = moved shift f (p []))
    (cons : ∀ t ts, q (t.move shift :: ts.map (.move shift)) = moved shift f (p (t :: ts))) :
    Moves shift f p q
  | [] => nil
  | t :: ts => cons t ts

theorem bind {p q : Parser α} {k l : α × List Token → Except SyntaxError (β × List Token)}
    {ts : List Token} (first : Moves shift f p q)
    (later : ∀ a ts, l (f a, ts.map (.move shift)) = moved shift g (k (a, ts))) :
    (q (ts.map (.move shift)) >>= l) = moved shift g (p ts >>= k) := by
  rw [first ts]
  cases p ts with
  | error e => rfl
  | ok r => exact later r.1 r.2

theorem bind_cons {p q : Parser α} {k l : α × List Token → Except SyntaxError (β × List Token)}
    {t : Token} {ts : List Token} (first : Moves shift f p q)
    (later : ∀ a ts, l (f a, ts.map (.move shift)) = moved shift g (k (a, ts))) :
    (q (t.move shift :: ts.map (.move shift)) >>= l) = moved shift g (p (t :: ts) >>= k) := by
  rw [← List.map_cons]
  exact first.bind later

theorem enter {inner inner' : Option (Parser α)} {pos : Position}
    {k l : Parser α → Except SyntaxError (β × List Token)}
    (inside : Option.Rel (Moves shift f) inner inner')
    (later : ∀ p q, Moves shift f p q → l q = moved shift g (k p)) :
    (Parse.enter inner' (shift pos) >>= l) = moved shift g (Parse.enter inner pos >>= k) := by
  cases inside with
  | none => rfl
  | some moves => exact later _ _ moves

theorem ite {c : Prop} [Decidable c] {r r' s s' : Except SyntaxError (β × List Token)}
    (yes : r' = moved shift g r) (no : s' = moved shift g s) :
    (if c then r' else s') = moved shift g (if c then r else s) := by
  subst yes no
  split <;> rfl

theorem expect (kind : TokenKind) (fault : String → Fault) :
    Moves shift (.move shift) (Parse.expect kind fault) (Parse.expect kind fault) := by
  refine of_cons rfl fun t ts => ?_
  by_cases same : t.kind = kind
  · rw [expect_cons same, expect_cons (t := t.move shift) same]
    rfl
  · have still : ¬(t.move shift).kind = kind := same
    rw [Parse.expect, Parse.expect, if_neg same, if_neg still]
    rfl

theorem peek (kind : TokenKind) {p q : Parser α} {k l : Token → Parser α}
    (without : Moves shift f p q) (behind : ∀ t, Moves shift f (k t) (l (t.move shift))) :
    Moves shift f (Parse.peek kind p k) (Parse.peek kind q l) := by
  refine of_cons (without []) fun t ts => ?_
  by_cases same : t.kind = kind
  · rw [peek_cons same, peek_cons (t := t.move shift) same]
    exact behind t ts
  · have other : (t.move shift).kind ≠ kind := same
    rw [peek_stop (by simpa using other), peek_stop (by simpa using same)]
    exact without (t :: ts)

-- A loop that is bounded by the tokens themselves.
theorem diagonal {p q : List Token → Parser α}
    (moves : ∀ bound, Moves shift f (p bound) (q (bound.map (.move shift)))) :
    Moves shift f (fun ts => p ts ts) (fun ts => q ts ts) := fun ts => moves ts ts

end Moves

section

variable {α : Type} {shift : Position → Position} {p q : Parser Expr}

def moveStep (shift : Position → Position) (step : α × Position × Expr) : α × Position × Expr :=
  (step.1, shift step.2.1, step.2.2.move shift)

theorem run_moves {op? : TokenKind → Option α} (operand : Moves shift (.move shift) p q)
    (bound : List Token) : Moves shift (List.map (moveStep shift)) (run op? p bound)
      (run op? q (bound.map (.move shift))) := by
  induction bound with
  | nil => exact fun _ => rfl
  | cons b bound ih =>
    refine .of_cons rfl fun t ts => ?_
    rw [List.map_cons, run, run]
    simp only [Token.move]
    cases op? t.kind with
    | none => rfl
    | some op =>
      exact operand.bind fun rhs ts => ih.bind fun more _ => rfl

theorem leftRun_moves {op? : TokenKind → Option α} {node : α → Expr → Expr → Position → Expr}
    (same : ∀ op l r pos, node op (l.move shift) (r.move shift) (shift pos) =
      (node op l r pos).move shift)
    (operand : Moves shift (.move shift) p q) :
    Moves shift (.move shift) (leftRun op? node p) (leftRun op? node q) := by
  intro ts
  refine operand.bind fun first ts => ?_
  refine (Moves.diagonal (run_moves operand)).bind fun more ts => ?_
  refine congrArg (fun e => Except.ok (e, ts.map (Token.move shift))) ?_
  rw [List.foldl_map]
  exact List.foldl_hom (Expr.move shift) fun lhs step => same step.1 lhs step.2.2 step.2.1

theorem factor_moves (operand : Moves shift (.move shift) p q) :
    Moves shift (.move shift) (factor p) (factor q) :=
  leftRun_moves (fun _ _ _ _ => rfl) operand

theorem term_moves (operand : Moves shift (.move shift) p q) :
    Moves shift (.move shift) (term p) (term q) :=
  leftRun_moves (fun _ _ _ _ => rfl) (factor_moves operand)

theorem chained_move (first : Expr) (more : List (ComparisonOp × Position × Expr)) :
    chained (first.move shift) (more.map (moveStep shift)) = (chained first more).move shift := by
  cases more with
  | nil => rfl
  | cons step more =>
    simp [chained, moveStep, Expr.move, Expr.moveAll, Expr.moveAll_eq_map, Function.comp_def]

theorem comparison_moves (operand : Moves shift (.move shift) p q) :
    Moves shift (.move shift) (comparison p) (comparison q) := by
  rw [comparison_eq, comparison_eq]
  intro ts
  refine (term_moves operand).bind fun first ts => ?_
  refine (Moves.diagonal (run_moves (term_moves operand))).bind fun more ts => ?_
  simp only [chained_move]
  rfl

theorem conjunction_moves (operand : Moves shift (.move shift) p q) :
    Moves shift (.move shift) (conjunction p) (conjunction q) :=
  leftRun_moves (fun _ _ _ _ => rfl) (comparison_moves operand)

theorem expression_moves (operand : Moves shift (.move shift) p q) :
    Moves shift (.move shift) (expression p) (expression q) :=
  leftRun_moves (fun _ _ _ _ => rfl) (conjunction_moves operand)

theorem arguments_eq (expr : Parser Expr) (b : Token) (bound : List Token) :
    arguments expr (b :: bound) = fun ts => expr ts >>= fun first =>
      peek .comma (fun rest => .ok ([first.1], rest)) (fun _ rest =>
        arguments expr bound rest >>= fun more => .ok (first.1 :: more.1, more.2)) first.2 := rfl

theorem arguments_moves (expr : Moves shift (.move shift) p q) (bound : List Token) :
    Moves shift (Expr.moveAll shift) (arguments p bound)
      (arguments q (bound.map (.move shift))) := by
  induction bound with
  | nil => exact fun _ => rfl
  | cons b bound ih =>
    rw [List.map_cons, arguments_eq, arguments_eq]
    intro ts
    refine expr.bind fun e ts => ?_
    exact Moves.peek .comma (fun _ => rfl) (fun _ _ => ih.bind fun _ _ => rfl) ts

variable {inner inner' : Option (Parser Expr)}

theorem group_moves (inside : Option.Rel (Moves shift (.move shift)) inner inner')
    (pos : Position) : Moves shift (.move shift) (group inner pos) (group inner' (shift pos)) :=
  fun _ => Moves.enter inside fun _ _ operand => (expression_moves operand).bind fun _ _ =>
    (Moves.expect .rightParen (.missing ')')).bind fun _ _ => rfl

theorem call_moves (inside : Option.Rel (Moves shift (.move shift)) inner inner')
    (callee : Identifier) :
    Moves shift (.move shift) (call inner callee) (call inner' (callee.move shift)) := by
  rw [call_eq, call_eq]
  refine .peek .rightParen (fun ts => Moves.enter inside fun _ _ operand => ?_) fun _ _ => rfl
  exact (Moves.diagonal (arguments_moves (expression_moves operand))).bind fun args _ =>
    (Moves.expect .rightParen (.missing ')')).bind fun _ _ => rfl

theorem assignment_moves (inside : Option.Rel (Moves shift (.move shift)) inner inner')
    (target : Identifier) (op : Option BinaryOp) (pos : Position) :
    Moves shift (.move shift) (assignment inner target op pos)
      (assignment inner' (target.move shift) op (shift pos)) := by
  rw [assignment_eq, assignment_eq]
  intro ts
  refine Moves.enter inside fun _ _ operand => (expression_moves operand).bind fun e ts => ?_
  cases op <;> rfl

theorem behindName_moves (inside : Option.Rel (Moves shift (.move shift)) inner inner')
    (name : Identifier) :
    Moves shift (.move shift) (behindName inner name) (behindName inner' (name.move shift)) := by
  refine .of_cons rfl fun t ts => ?_
  rw [behindName, behindName]
  refine Moves.ite (call_moves inside name ts) ?_
  simp only [Token.move]
  cases assignmentOp? t.kind with
  | none => rfl
  | some op => exact assignment_moves inside name op t.pos ts

theorem primary_moves (inside : Option.Rel (Moves shift (.move shift)) inner inner') :
    Moves shift (.move shift) (primary inner) (primary inner') := by
  refine .of_cons rfl fun t ts => ?_
  cases kind : t.kind
  case identifier =>
    rw [primary_eq_behindName kind, primary_eq_behindName (t := t.move shift) kind]
    exact behindName_moves inside ⟨t.lexeme, t.pos⟩ ts
  case integer | float | string =>
    simp only [primary, Token.move, kind]
    cases t.literal <;> rfl
  case leftParen =>
    simp only [primary, Token.move, kind]
    exact group_moves inside t.pos ts
  all_goals
    simp only [primary, Token.move, kind]
    rfl

theorem power_eq (inner : Option (Parser Expr)) : power inner = fun ts =>
    primary inner ts >>= fun base =>
      peek (.binary .power) (fun rest => .ok (base.1, rest)) (fun caret rest =>
        enter inner caret.pos >>= fun below => below rest >>= fun exponent =>
          .ok (.binary .power base.1 exponent.1 caret.pos, exponent.2)) base.2 := rfl

theorem power_moves (inside : Option.Rel (Moves shift (.move shift)) inner inner') :
    Moves shift (.move shift) (power inner) (power inner') := by
  rw [power_eq, power_eq]
  intro ts
  refine (primary_moves inside).bind fun b ts => ?_
  refine Moves.peek (.binary .power) (fun _ => rfl) (fun caret ts => ?_) ts
  exact Moves.enter inside fun _ _ below => below.bind fun _ _ => rfl

theorem operand_moves (inside : Option.Rel (Moves shift (.move shift)) inner inner') :
    Moves shift (.move shift) (operand inner) (operand inner') := by
  refine .of_cons rfl fun t ts => ?_
  rw [operand, operand]
  cases sign : t.kind.unaryOp? with
  | none =>
    have same : (t.move shift).kind.unaryOp? = none := sign
    rw [same]
    exact power_moves inside (t :: ts)
  | some op =>
    have same : (t.move shift).kind.unaryOp? = some op := sign
    rw [same]
    exact Moves.enter inside fun _ _ below => below.bind fun _ _ => rfl

end

section

variable {shift : Position → Position}

theorem block_moves {inner inner' : Option (Parser (List Statement))}
    (inside : Option.Rel (Moves shift (Statement.moveAll shift)) inner inner') :
    Moves shift (Statement.moveAll shift) (block inner) (block inner') := by
  intro ts
  refine (Moves.expect .leftBrace (.missing '{')).bind fun brace ts => ?_
  refine Moves.enter inside fun _ _ below => below.bind fun _ _ => ?_
  exact (Moves.expect .rightBrace (.missing '}')).bind fun _ _ => rfl

variable {expr expr' : Parser Expr} {body body' : Parser (List Statement)}

theorem lastAlternative_moves (block : Moves shift (Statement.moveAll shift) body body') :
    Moves shift (Statement.moveElse shift) (lastAlternative body) (lastAlternative body') :=
  .peek (.keyword .otherwise) (fun _ => rfl) fun _ _ => block.bind fun _ _ => rfl

theorem alternatives_moves (condition : Moves shift (.move shift) expr expr')
    (block : Moves shift (Statement.moveAll shift) body body') (bound : List Token) :
    Moves shift (Statement.moveElse shift) (alternatives expr body bound)
      (alternatives expr' body' (bound.map (.move shift))) := by
  induction bound with
  | nil => exact lastAlternative_moves block
  | cons b bound ih =>
    refine .peek .elseIf (lastAlternative_moves block) fun t ts => ?_
    exact condition.bind fun _ _ => block.bind fun _ _ => ih.bind fun _ _ => rfl

theorem branch_moves (condition : Moves shift (.move shift) expr expr')
    (block : Moves shift (Statement.moveAll shift) body body') (pos : Position) :
    Moves shift (.move shift) (branch expr body pos) (branch expr' body' (shift pos)) := by
  rw [branch_eq, branch_eq]
  intro ts
  refine condition.bind fun _ _ => block.bind fun _ _ => ?_
  exact (Moves.diagonal (alternatives_moves condition block)).bind fun _ _ => rfl

theorem loop_moves (condition : Moves shift (.move shift) expr expr')
    (block : Moves shift (Statement.moveAll shift) body body') (pos : Position) :
    Moves shift (.move shift) (loop expr body pos) (loop expr' body' (shift pos)) :=
  fun _ => condition.bind fun _ _ => block.bind fun _ _ => rfl

def behindParam (bound : List Token) (x : Identifier) : Parser (List Identifier) :=
  peek .comma (fun rest => .ok ([x], rest)) fun _ rest =>
    params bound rest >>= fun more => .ok (x :: more.1, more.2)

theorem params_cons_eq (b t : Token) (bound ts : List Token) : params (b :: bound) (t :: ts) =
    if t.kind = .rightParen then .ok ([], t :: ts)
    else if t.kind = .identifier then
      if isGlobalName t.lexeme then .error (.located t.pos (.globalParameter t.lexeme))
      else behindParam bound ⟨t.lexeme, t.pos⟩ ts
    else .error (.located t.pos (.notAnIdentifier t.lexeme)) := by
  rw [params]
  by_cases right : t.kind = .rightParen
  · rw [next?_cons right, if_pos right]
  · rw [next?_eq_none.mpr (by simpa using right), if_neg right]
    by_cases name : t.kind = .identifier
    · rw [if_pos name, expect_cons name]
      cases own : isGlobalName t.lexeme
      · simp [own]
        rfl
      · simp [own]
    · rw [if_neg name, expect, if_neg name]
      rfl

theorem params_moves (bound : List Token) :
    Moves shift (List.map (.move shift)) (params bound) (params (bound.map (.move shift))) := by
  induction bound with
  | nil => exact fun _ => rfl
  | cons b bound ih =>
    refine .of_cons rfl fun t ts => ?_
    have behind (x : Identifier) : Moves shift (List.map (.move shift)) (behindParam bound x)
        (behindParam (bound.map (.move shift)) (x.move shift)) :=
      Moves.peek .comma (fun _ => rfl) fun _ _ => ih.bind fun _ _ => rfl
    rw [List.map_cons, params_cons_eq, params_cons_eq]
    exact Moves.ite rfl (Moves.ite (Moves.ite rfl (behind ⟨t.lexeme, t.pos⟩ ts)) rfl)

theorem function_moves (block : Moves shift (Statement.moveAll shift) body body') :
    Moves shift (.move shift) (function body) (function body') := by
  intro ts
  refine (Moves.expect .identifier .notAnIdentifier).bind fun name ts => ?_
  refine (Moves.expect .leftParen (.missing '(')).bind fun _ ts => ?_
  refine (Moves.diagonal params_moves).bind fun names ts => ?_
  refine (Moves.expect .rightParen (.missing ')')).bind fun _ ts => ?_
  exact block.bind fun _ _ => rfl

theorem control_moves (value : Moves shift (.move shift) expr expr') (kind : ControlKind)
    (pos : Position) :
    Moves shift (.move shift) (control expr kind pos) (control expr' kind (shift pos)) := by
  refine .of_cons rfl fun t ts => ?_
  rw [control, control]
  exact Moves.ite rfl (value.bind_cons fun _ _ => rfl)

theorem simpleStatement_other {t : Token} (other : ∀ kind, t.kind ≠ .keyword (.control kind))
    (ts : List Token) : simpleStatement expr (t :: ts) =
      expr (t :: ts) >>= fun e => .ok (Statement.expression e.1, e.2) := by
  rw [simpleStatement]
  split
  · next kind word => exact absurd word (other kind)
  · rfl

theorem simpleStatement_moves (value : Moves shift (.move shift) expr expr') :
    Moves shift (.move shift) (simpleStatement expr) (simpleStatement expr') := by
  refine .of_cons rfl fun t ts => ?_
  by_cases control : ∃ kind, t.kind = .keyword (.control kind)
  · obtain ⟨kind, word⟩ := control
    rw [simpleStatement_control word, simpleStatement_control (t := t.move shift) word]
    exact control_moves value kind t.pos ts
  · have other := not_exists.mp control
    rw [simpleStatement_other other, simpleStatement_other (t := t.move shift) other]
    exact value.bind_cons fun _ _ => rfl

theorem blockStatement?_moves (condition : Moves shift (.move shift) expr expr')
    (block : Moves shift (Statement.moveAll shift) body body') (t : Token) :
    Option.Rel (Moves shift (.move shift)) (blockStatement? expr body t)
      (blockStatement? expr' body' (t.move shift)) := by
  cases kind : t.kind
  case keyword word =>
    cases word <;> simp only [blockStatement?, Token.move, kind]
    case branch => exact .some (branch_moves condition block t.pos)
    case loop => exact .some (loop_moves condition block t.pos)
    case function => exact .some (function_moves block)
    all_goals exact .none
  all_goals
    simp only [blockStatement?, Token.move, kind]
    exact .none

theorem skipSemicolon_map (ts : List Token) :
    skipSemicolon (ts.map (.move shift)) = (skipSemicolon ts).map (.move shift) := by
  cases ts with
  | nil => rfl
  | cons t ts =>
    by_cases sign : t.kind = .semicolon
    · rw [List.map_cons, skipSemicolon_cons sign, skipSemicolon_cons (t := t.move shift) sign]
    · have other : (t.move shift).kind ≠ .semicolon := sign
      rw [List.map_cons, skipSemicolon_of_other (by simpa using other),
        skipSemicolon_of_other (by simpa using sign), List.map_cons]

theorem behindSimple_moves {bound : List Token}
    (later : Moves shift (Statement.moveAll shift) (statements expr body bound)
      (statements expr' body' (bound.map (.move shift)))) (s : Statement) :
    Moves shift (Statement.moveAll shift) (behindSimple expr body bound s)
      (behindSimple expr' body' (bound.map (.move shift)) (s.move shift)) := by
  refine .of_cons rfl fun t ts => ?_
  rw [behindSimple, behindSimple]
  exact Moves.ite (later.bind fun _ _ => rfl) (Moves.ite rfl rfl)

theorem statements_moves (condition : Moves shift (.move shift) expr expr')
    (block : Moves shift (Statement.moveAll shift) body body') (bound : List Token) :
    Moves shift (Statement.moveAll shift) (statements expr body bound)
      (statements expr' body' (bound.map (.move shift))) := by
  induction bound with
  | nil => exact fun _ => rfl
  | cons b bound ih =>
    refine .of_cons rfl fun t ts => ?_
    by_cases brace : t.kind = .rightBrace
    · have same : (t.move shift).kind = .rightBrace := brace
      rw [statements_stop _ (by simpa using same), statements_stop _ (by simpa using brace)]
      rfl
    · have other : (t.move shift).kind ≠ .rightBrace := brace
      have found := blockStatement?_moves condition block t
      cases eq : blockStatement? expr body t with
      | none =>
        rw [eq] at found
        cases eq' : blockStatement? expr' body' (t.move shift) with
        | some q =>
          rw [eq'] at found
          cases found
        | none =>
          rw [List.map_cons, statements_of_simple _ _ brace eq, statements_of_simple _ _ other eq']
          exact (simpleStatement_moves condition).bind_cons fun s => behindSimple_moves ih s
      | some p =>
        rw [eq] at found
        cases eq' : blockStatement? expr' body' (t.move shift) with
        | none =>
          rw [eq'] at found
          cases found
        | some q =>
          rw [eq'] at found
          cases found with
          | some parser =>
            rw [List.map_cons, statements, statements, if_neg brace, if_neg other, eq, eq']
            refine parser.bind fun s rest => ?_
            change (statements expr' body' _ (skipSemicolon (rest.map (.move shift))) >>= _) =
              moved shift _ (statements expr body bound (skipSemicolon rest) >>= _)
            rw [skipSemicolon_map]
            exact ih.bind fun _ _ => rfl

end

section

variable {shift : Position → Position}

theorem operandWithin_moves (room : Nat) :
    Moves shift (.move shift) (operandWithin room) (operandWithin room) := by
  induction room with
  | zero => exact operand_moves .none
  | succ room ih => exact operand_moves (.some ih)

theorem expressionWithin_moves (room : Nat) :
    Moves shift (.move shift) (expressionWithin room) (expressionWithin room) :=
  expression_moves (operandWithin_moves room)

theorem soleWithin_moves (room : Nat) :
    Moves shift (.move shift) (soleWithin room) (soleWithin room) := by
  intro ts
  refine (expressionWithin_moves room).bind fun e ts => ?_
  rw [skipSemicolon_map]
  rfl

theorem statementsWithin_moves (room : Nat) :
    Moves shift (Statement.moveAll shift) (statementsWithin room) (statementsWithin room) := by
  induction room with
  | zero =>
    have block : Moves shift (Statement.moveAll shift) (block .none) (block .none) :=
      block_moves .none
    have list := statements_moves (expressionWithin_moves 0) block
    exact fun ts => list ts ts
  | succ room ih =>
    have list := statements_moves (expressionWithin_moves (room + 1)) (block_moves (.some ih))
    exact fun ts => list ts ts

theorem toEnd_map {α : Type} {f : α → α} {p : Parser α} (moves : Moves shift f p p)
    (ts : List Token) : toEnd p (ts.map (.move shift)) =
      ((toEnd p ts).map f).mapError (.move shift) := by
  rw [toEnd, toEnd, moves ts]
  cases p ts with
  | error e => rfl
  | ok r =>
    obtain ⟨a, rest⟩ := r
    cases rest <;> rfl

end

end Parse

theorem parseProgram_map (shift : Position → Position) (ts : List Token) :
    parseProgram (ts.map (.move shift)) =
      ((parseProgram ts).map (Statement.moveAll shift)).mapError (.move shift) := by
  simp only [parseProgram, Parse.programWithin_eq]
  exact Parse.toEnd_map (Parse.statementsWithin_moves _) ts

theorem parseExpression_map (shift : Position → Position) (ts : List Token) :
    parseExpression (ts.map (.move shift)) =
      ((parseExpression ts).map (Expr.move shift)).mapError (.move shift) := by
  simp only [parseExpression, Parse.soleExpressionWithin_eq]
  exact Parse.toEnd_map (Parse.soleWithin_moves _) ts

end CalcScript
