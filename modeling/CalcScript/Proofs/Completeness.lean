import CalcScript.Proofs.Grammar
import CalcScript.Proofs.Reading

set_option autoImplicit false

namespace CalcScript.Grammar

open Parse

def parserAt (room : Nat) : Level → Parser Expr
  | .primary => primary (inside room)
  | .power => power (inside room)
  | .operand => operandWithin room
  | .factor => factor (operandWithin room)
  | .term => term (operandWithin room)
  | .comparison => comparison (operandWithin room)
  | .conjunction => conjunction (operandWithin room)
  | .disjunction => expressionWithin room

def proceed (room : Nat) : Level → Expr → List Token → Parser Expr
  | .factor, first, bound => continueRun factorOp? .binary (parserAt room .operand) first bound
  | .term, first, bound => continueRun termOp? .binary (parserAt room .factor) first bound
  | .conjunction, first, bound =>
    continueRun andOp? .logical (parserAt room .comparison) first bound
  | .disjunction, first, bound =>
    continueRun orOp? .logical (parserAt room .conjunction) first bound
  | _, first, _ => fun rest => .ok (first, rest)

def Going (room : Nat) (level : Level) (e : Expr) (ts rest : List Token) : Prop :=
  ∃ bound, rest.length ≤ bound.length ∧
    parserAt room level (ts ++ rest) = proceed room level e bound rest

theorem proceed_done {room : Nat} {level : Level} {rest : List Token} (e : Expr)
    (bound : List Token) (done : ∀ t ∈ rest.head?, level.takes t.kind = false) :
    proceed room level e bound rest = .ok (e, rest) := by
  cases level with
  | factor => exact continueRun_stop e bound (factorOp?_reads.stop done)
  | term => exact continueRun_stop e bound (termOp?_reads.stop done)
  | conjunction => exact continueRun_stop e bound (andOp?_reads.stop done)
  | disjunction => exact continueRun_stop e bound (orOp?_reads.stop done)
  | comparison | operand | power | primary => rfl

theorem Going.read {room : Nat} {level : Level} {e : Expr} {ts rest : List Token}
    (going : Going room level e ts rest) (done : ∀ t ∈ rest.head?, level.takes t.kind = false) :
    parserAt room level (ts ++ rest) = .ok (e, rest) := by
  obtain ⟨bound, -, eq⟩ := going
  rw [eq, proceed_done e bound done]

theorem Going.plain {room : Nat} {level : Level} {e : Expr} {ts rest : List Token}
    (plain : proceed room level e rest rest = .ok (e, rest))
    (read : parserAt room level (ts ++ rest) = .ok (e, rest)) : Going room level e ts rest :=
  ⟨rest, Nat.le_refl _, read.trans plain.symm⟩

theorem Going.binary {room : Nat} {op : BinaryOp} {l r : Expr} {t : Token}
    {ts us rest : List Token} (leans : op ≠ .power)
    (left : Going room op.level l ts (t :: (us ++ rest))) (sign : t.kind = .binary op)
    (right : parserAt room op.level.tighter (us ++ rest) = .ok (r, rest)) :
    Going room op.level (.binary op l r t.pos) (ts ++ t :: us) rest := by
  obtain ⟨_ | ⟨b, bound⟩, len, eq⟩ := left
  · simp at len
  refine ⟨bound, by simp at len; omega, ?_⟩
  rw [List.append_assoc, List.cons_append, eq]
  cases op with
  | add | subtract => exact continueRun_step l (by rw [sign]; rfl) right
  | multiply | divide | floorDivide | modulo => exact continueRun_step l (by rw [sign]; rfl) right
  | power => exact absurd rfl leans

theorem Going.logical {room : Nat} {op : LogicalOp} {l r : Expr} {t : Token}
    {ts us rest : List Token}
    (left : Going room op.level l ts (t :: (us ++ rest))) (sign : t.kind = .logical op)
    (right : parserAt room op.level.tighter (us ++ rest) = .ok (r, rest)) :
    Going room op.level (.logical op l r t.pos) (ts ++ t :: us) rest := by
  obtain ⟨_ | ⟨b, bound⟩, len, eq⟩ := left
  · simp at len
  refine ⟨bound, by simp at len; omega, ?_⟩
  rw [List.append_assoc, List.cons_append, eq]
  cases op with
  | and => exact continueRun_step l (by rw [sign]; rfl) right
  | or => exact continueRun_step l (by rw [sign]; rfl) right

-- The level at which something else must follow for an expression of a level to be read.
def front : Level → Level
  | .disjunction => .conjunction
  | .conjunction => .comparison
  | .term => .factor
  | .factor => .operand
  | level => level

theorem rank_front (level : Level) : level.rank ≤ (front level).rank := by
  cases level <;> decide

theorem front_le_tighter (level : Level) : (front level).rank ≤ level.tighter.rank := by
  cases level <;> decide

theorem read_of_going {room : Nat} {level : Level} {last : Bool} {e : Expr} {ts rest : List Token}
    (going : ∀ rest, Ends (reach (front level) last) ts rest → Going room level e ts rest)
    (ends : Ends (reach level last) ts rest) :
    parserAt room level (ts ++ rest) = .ok (e, rest) :=
  (going rest (ends.weaken (rank_reach_le (rank_front level) last))).read
    (ends.weaken (rank_reach level last)).done

theorem Phrase.lifted {room : Nat} {level : Level} {last : Bool} {e : Expr} {ts rest : List Token}
    (phrase : Phrase room level.tighter last e ts)
    (done : ∀ t ∈ rest.head?, (front level).takes t.kind = false)
    (read : parserAt room level.tighter (ts ++ rest) = .ok (e, rest)) :
    Going room level e ts rest := by
  refine ⟨rest, Nat.le_refl _, ?_⟩
  cases level with
  | disjunction | conjunction | term | factor => exact leftRun_eq read
  | comparison => exact comparison_term read (comparisonOp?_reads.stop done)
  | operand =>
    obtain ⟨t, us, rfl, -, plain⟩ := phrase.head
    rw [parserAt, operandWithin_eq, List.cons_append, operand_power (plain (Nat.le_refl _))]
    exact read
  | power =>
    refine power_primary read fun t head same => ?_
    have missed := done t head
    simp [same, front, BinaryOp.level] at missed
  | primary => exact read

mutual

theorem Phrase.going {room : Nat} {level : Level} {last : Bool} {e : Expr} {ts : List Token} :
    Phrase room level last e ts → ∀ rest, Ends (reach (front level) last) ts rest →
      Going room level e ts rest
  | .literal kind value, rest, _ => .plain rfl (primary_literal kind value rest)
  | .variable kind, rest, ends => by
    refine .plain rfl (primary_variable kind fun u head => ?_)
    cases rest with
    | nil => simp at head
    | cons v rest => exact Option.mem_some_iff.mp head ▸ ends.2 (by simp [endsInName, kind])
  | .group left phrase right, rest, _ => by
    refine .plain rfl ?_
    have read := read_of_going phrase.going
      (.of_level? rest (by rw [right]; rfl) (by rw [right]; rfl))
    rw [List.cons_append, List.append_assoc]
    exact primary_group left read right
  | .emptyCall kind left right, rest, _ => .plain rfl (primary_emptyCall kind left right rest)
  | .call kind left args right, rest, _ => by
    refine .plain rfl ?_
    have read := args.read _ rest _ right (Nat.le_refl _)
    rw [List.cons_append, List.cons_append, List.append_assoc]
    refine primary_call kind left ?_ read right
    obtain ⟨t, us, rfl, starts⟩ := args.head
    intro u head same
    simp at head
    rw [head, same] at starts
    cases starts
  | .assignment kind sign value, rest, ends => by
    refine .plain rfl (primary_assignment kind sign ?_)
    exact read_of_going value.going ((ends.cons (by simp)).cons value.ne_nil)
  | .compound kind sign value, rest, ends => by
    refine .plain rfl (primary_compound kind sign ?_)
    exact read_of_going value.going ((ends.cons (by simp)).cons value.ne_nil)
  | .power base sign exponent, rest, ends => by
    refine .plain rfl ?_
    rw [List.append_assoc]
    refine power_caret (read_of_going base.going (.of_binary sign (by decide))) sign ?_
    have ends := (ends.tail (by simp)).cons exponent.ne_nil
    exact read_of_going exponent.going (ends.operand_of_power)
  | .unary sign phrase, rest, ends => by
    refine .plain rfl (operand_unary sign ?_)
    exact read_of_going phrase.going (ends.cons phrase.ne_nil)
  | @Phrase.binary _ _ _ op _ _ _ _ _ rfl leans left sign right, rest, ends => by
    have lt : op.level.rank < (front op.level).rank := by cases op <;> simp at leans <;> decide
    have same : front op.level = op.level.tighter := by cases op <;> simp at leans <;> rfl
    refine .binary leans (left.going _ (.of_binary sign lt)) sign ?_
    exact read_of_going right.going (same ▸ (ends.tail (by simp)).cons right.ne_nil)
  | @Phrase.logical _ _ _ op _ _ _ _ _ rfl left sign right, rest, ends => by
    have lt : op.level.rank < (front op.level).rank := by cases op <;> decide
    have same : front op.level = op.level.tighter := by cases op <;> rfl
    refine .logical (left.going _ (.of_logical sign lt)) sign ?_
    exact read_of_going right.going (same ▸ (ends.tail (by simp)).cons right.ne_nil)
  | .comparison first chain, rest, ends => by
    refine .plain rfl ?_
    rw [List.append_assoc]
    refine comparison_chain (read_of_going first.going ?_)
      (chain.read rest _ (ends.tail chain.ne_nil) (Nat.le_refl _))
    obtain ⟨op, _, _, _, t, us, -, rfl, sign⟩ := chain.head
    exact .of_comparison sign (by decide)
  | .lift phrase, rest, ends => by
    have read := read_of_going phrase.going
      (ends.weaken (rank_reach_le (front_le_tighter _) _))
    exact phrase.lifted (ends.weaken (rank_reach _ _)).done read

theorem Chain.read {room : Nat} {last : Bool} {chain : List (ComparisonOp × Position × Expr)}
    {ts : List Token} : Chain room last chain ts → ∀ rest bound,
      Ends (reach .comparison last) ts rest → (ts ++ rest).length ≤ bound.length →
      run TokenKind.comparisonOp? (parserAt room .term) bound (ts ++ rest) = .ok (chain, rest)
  | .last sign operand, rest, [], _, len => by simp at len
  | .last sign operand, rest, _ :: bound, ends, _ => by
    have ends := ends.cons operand.ne_nil
    have read := read_of_going operand.going (ends.weaken (rank_reach_le (by decide) _))
    have stop := comparisonOp?_reads.stop (ends.weaken (rank_reach _ _)).done
    rw [List.cons_append, run_step (comparisonOp?_eq_some.mpr sign) read, run_stop bound stop]
    rfl
  | .more sign operand chain, rest, [], _, len => by simp at len
  | @Chain.more _ _ _ _ _ _ _ us sign operand chain, rest, _ :: bound, ends, len => by
    have more := chain.read rest bound ((ends.cons (by simp [chain.ne_nil])).tail chain.ne_nil)
      (by simp at len ⊢; omega)
    have next {used : List Token} : Ends .term used (us ++ rest) := by
      obtain ⟨op, _, _, _, t, us, -, rfl, other⟩ := chain.head
      exact .of_comparison other (by decide)
    rw [List.cons_append, List.append_assoc,
      run_step (comparisonOp?_eq_some.mpr sign) (read_of_going operand.going next), more]
    rfl

theorem Arguments.read {room : Nat} {es : List Expr} {ts : List Token} :
    Arguments room es ts → ∀ r rest bound, r.kind = .rightParen →
      (ts ++ r :: rest).length ≤ bound.length →
      arguments (parserAt room .disjunction) bound (ts ++ r :: rest) = .ok (es, r :: rest)
  | .last argument, r, rest, [], _, len => by simp at len
  | .last argument, r, rest, _ :: bound, right, _ => by
    have read := read_of_going argument.going
      (.of_level? rest (by rw [right]; rfl) (by rw [right]; rfl))
    exact arguments_last read (by simp [right])
  | .more argument comma args, r, rest, [], _, len => by simp at len
  | .more argument comma args, r, rest, _ :: bound, right, len => by
    have more := args.read r rest bound right (by simp at len ⊢; omega)
    rw [List.append_assoc]
    refine arguments_more (read_of_going argument.going ?_) comma more
    exact .of_level? _ (by rw [comma]; rfl) (by rw [comma]; rfl)

end

def EndsStatements (rest : List Token) : Prop := ∀ t ∈ rest.head?, t.kind = .rightBrace

def EndsSimple (rest : List Token) : Prop :=
  ∀ t ∈ rest.head?, t.kind = .semicolon ∨ t.kind = .rightBrace

def EndsCompound (rest : List Token) : Prop :=
  ∀ t ∈ rest.head?, t.kind ≠ .elseIf ∧ t.kind ≠ .keyword .otherwise

theorem EndsSimple.of_semicolon {t : Token} (sign : t.kind = .semicolon) (rest : List Token) :
    EndsSimple (t :: rest) := by
  simp [EndsSimple, sign]

theorem EndsSimple.ends {level : Level} {used rest : List Token} (ends : EndsSimple rest) :
    Ends level used rest := by
  cases rest with
  | nil => trivial
  | cons t rest =>
    rcases ends t rfl with sign | sign
    · exact .of_level? _ (by rw [sign]; rfl) (by rw [sign]; rfl)
    · exact .of_level? _ (by rw [sign]; rfl) (by rw [sign]; rfl)

theorem EndsStatements.simple {rest : List Token} (ends : EndsStatements rest) : EndsSimple rest :=
  fun t head => .inr (ends t head)

theorem EndsStatements.compound {rest : List Token} (ends : EndsStatements rest) :
    EndsCompound rest := by
  intro t head
  simp [ends t head]

-- Statements never start with a semicolon, nor with what would go on with a branch before them.
theorem Statements.stays {room : Nat} {items : List Statement} {ts rest : List Token}
    (h : Statements room items ts) (ends : EndsStatements rest) :
    EndsCompound (ts ++ rest) ∧ ∀ t ∈ (ts ++ rest).head?, t.kind ≠ .semicolon := by
  rcases h.head with rfl | ⟨t, us, rfl, starts⟩
  · exact ⟨ends.compound, fun t head => by simp [ends t head]⟩
  · refine ⟨?_, ?_⟩
    · intro u head
      obtain rfl : t = u := by simpa using head
      constructor
      all_goals
        intro kind
        simp [kind, TokenKind.startsStatement, TokenKind.startsPhrase] at starts
    · intro u head kind
      obtain rfl : t = u := by simpa using head
      simp [kind, TokenKind.startsStatement, TokenKind.startsPhrase] at starts

theorem Phrase.read {room : Nat} {e : Expr} {ts rest : List Token}
    (phrase : Phrase room .disjunction true e ts) (ends : Ends .disjunction ts rest) :
    expressionWithin room (ts ++ rest) = .ok (e, rest) :=
  read_of_going phrase.going ends

theorem Phrase.read_block {room : Nat} {c : Expr} {body : List Statement} {ts us : List Token}
    (phrase : Phrase room .disjunction true c ts) (block : Block room body us)
    (rest : List Token) : expressionWithin room (ts ++ (us ++ rest)) = .ok (c, us ++ rest) := by
  obtain ⟨l, us, rfl, left⟩ := block.head
  exact phrase.read (.of_level? _ (by rw [left]; rfl) (by rw [left]; rfl))

theorem Params.read {names : List Identifier} {ts : List Token} (h : Params names ts)
    {r : Token} (right : r.kind = .rightParen) (rest : List Token) :
    ∀ bound : List Token, (ts ++ r :: rest).length ≤ bound.length →
      params bound (ts ++ r :: rest) = .ok (names, r :: rest) := by
  induction h with
  | nil =>
    intro bound len
    cases bound with
    | nil => simp at len
    | cons b bound => exact params_nil right
  | last kind own =>
    intro bound len
    cases bound with
    | nil => simp at len
    | cons b bound => exact params_last kind own right
  | more kind own comma _ ih =>
    intro bound len
    cases bound with
    | nil => simp at len
    | cons b bound => exact params_more kind own comma (ih bound (by simp at len ⊢; omega))

theorem Simple.read {room : Nat} {s : Statement} {ts rest : List Token} (h : Simple room s ts)
    (ends : EndsSimple rest) :
    simpleStatement (expressionWithin room) (ts ++ rest) = .ok (s, rest) := by
  cases h with
  | expression phrase =>
    have read := phrase.read ends.ends
    obtain ⟨t, us, rfl, starts, -⟩ := phrase.head
    exact simpleStatement_expression starts read
  | control word =>
    rw [List.singleton_append, simpleStatement_control word, control_none _ ends]
  | @value _ word ts kind phrase =>
    have read := phrase.read ends.ends
    obtain ⟨t, us, rfl, starts, -⟩ := phrase.head
    rw [List.cons_append, simpleStatement_control kind]
    refine control_value _ ⟨?_, ?_⟩ read
    · intro sign
      simp [sign, TokenKind.startsPhrase] at starts
    · intro sign
      simp [sign, TokenKind.startsPhrase] at starts

theorem Simple.plain {room : Nat} {s : Statement} {ts : List Token} (h : Simple room s ts)
    (expr : Parser Expr) (body : Parser (List Statement)) :
    ∃ t us, ts = t :: us ∧ t.kind ≠ .rightBrace ∧ blockStatement? expr body t = none := by
  obtain ⟨t, us, rfl, starts⟩ := h.head
  refine ⟨t, us, rfl, ?_, ?_⟩
  · rintro brace
    rcases starts with starts | ⟨kind, word⟩
    · simp [brace, TokenKind.startsPhrase] at starts
    · simp [brace] at word
  · rcases starts with starts | ⟨kind, word⟩
    · unfold blockStatement?
      split
      all_goals first | rfl | next word => simp [word, TokenKind.startsPhrase] at starts
    · simp [blockStatement?, word]

mutual

theorem Block.read {room : Nat} {body : List Statement} {ts : List Token} :
    Block room body ts → ∀ rest, block (insideBlock room) (ts ++ rest) = .ok (body, rest)
  | @Block.braces room _ _ r _ left inside right, rest => by
    have ends : EndsStatements (r :: rest) := by simp [EndsStatements, right]
    have read := inside.read (r :: rest) _ ends (Nat.le_refl _)
    rw [List.cons_append, List.append_assoc]
    exact block_braces left ((statementsWithin_eq room _).trans read) right

theorem Otherwise.read {room : Nat} {otherwise : Option (List Statement)} {ts : List Token} :
    Otherwise room otherwise ts → ∀ rest bound, EndsCompound rest →
      (ts ++ rest).length ≤ bound.length →
      alternatives (expressionWithin room) (block (insideBlock room)) bound (ts ++ rest) =
        .ok (otherwise, rest)
  | .nothing, rest, bound, ends, _ => alternatives_none bound ends
  | .block word body, rest, bound, _, _ => alternatives_block bound word (body.read rest)
  | .branch word condition body more, rest, [], _, len => by simp at len
  | .branch word condition body more, rest, _ :: bound, ends, len => by
    have later := more.read rest bound ends (by simp at len ⊢; omega)
    rw [List.cons_append, List.append_assoc, List.append_assoc]
    exact alternatives_branch word (condition.read_block body _) (body.read _) later

theorem Compound.read {room : Nat} {s : Statement} {ts : List Token} :
    Compound room s ts → ∀ rest, EndsCompound rest →
      ∃ t us parser, ts = t :: us ∧
        blockStatement? (expressionWithin room) (block (insideBlock room)) t = some parser ∧
        parser (us ++ rest) = .ok (s, rest)
  | .branch (t := t) word condition body more, rest, ends => by
    refine ⟨t, _, _, rfl, by rw [blockStatement?, word], ?_⟩
    have later := more.read rest _ ends (Nat.le_refl _)
    rw [List.append_assoc, List.append_assoc, branch_eq]
    simp only [condition.read_block body, body.read, later, ok_bind]
  | .loop (t := t) word condition body, rest, _ => by
    refine ⟨t, _, _, rfl, by rw [blockStatement?, word], ?_⟩
    rw [List.append_assoc]
    exact loop_block (condition.read_block body _) (body.read _)
  | .function (t := t) word name left params right body, rest, _ => by
    refine ⟨t, _, _, rfl, by rw [blockStatement?, word], ?_⟩
    rw [List.cons_append, List.cons_append, List.append_assoc, List.cons_append]
    exact function_block name left (params.read right _ _ (Nat.le_refl _)) right (body.read rest)

theorem Statements.read {room : Nat} {items : List Statement} {ts : List Token} :
    Statements room items ts → ∀ rest bound, EndsStatements rest →
      (ts ++ rest).length ≤ bound.length →
      statements (expressionWithin room) (block (insideBlock room)) bound (ts ++ rest) =
        .ok (items, rest)
  | .nil, rest, bound, ends, _ => statements_stop bound ends
  | .last statement, rest, [], ends, len => by
    obtain ⟨t, us, rfl, -⟩ := statement.head
    simp at len
  | .last statement, rest, _ :: bound, ends, _ => by
    have read := statement.read ends.simple
    obtain ⟨t, us, rfl, inside, plain⟩ :=
      statement.plain (expressionWithin room) (block (insideBlock room))
    exact statements_last plain inside read ends
  | .simple statement sign more, rest, [], _, len => by simp at len
  | @Statements.simple _ _ _ u _ us statement sign more, rest, _ :: bound, ends, len => by
    have later := more.read rest bound ends (by simp at len ⊢; omega)
    rw [List.append_assoc, List.cons_append]
    have read := statement.read (EndsSimple.of_semicolon sign (us ++ rest))
    obtain ⟨t, us, rfl, inside, plain⟩ :=
      statement.plain (expressionWithin room) (block (insideBlock room))
    exact (statements_simple plain inside read sign).trans (by rw [later]; rfl)
  | .compound statement more, rest, [], _, len => by
    obtain ⟨t, us, _, rfl, -⟩ := statement.head
    simp at len
  | @Statements.compound _ _ _ _ us statement more, rest, _ :: bound, ends, len => by
    have next := more.stays ends
    obtain ⟨t, ts, parser, rfl, found, read⟩ := statement.read (us ++ rest) next.1
    have later := more.read rest bound ends (by simp at len ⊢; omega)
    rw [List.append_assoc, List.cons_append, statements_block found read,
      skipSemicolon_of_other next.2, later]
    rfl
  | .separated statement sign more, rest, [], _, len => by simp at len
  | @Statements.separated _ _ _ u _ us statement sign more, rest, _ :: bound, ends, len => by
    have later := more.read rest bound ends (by simp at len ⊢; omega)
    obtain ⟨t, ts, parser, rfl, found, read⟩ :=
      statement.read (u :: (us ++ rest)) (by simp [EndsCompound, sign])
    rw [List.append_assoc, List.cons_append, List.cons_append, statements_block found read,
      skipSemicolon_cons sign, later]
    rfl

end

theorem Statements.read_program {room : Nat} {items : List Statement} {ts : List Token}
    (h : Statements room items ts) : programWithin room ts = .ok items := by
  have read := h.read [] ts (by simp [EndsStatements]) (by simp)
  rw [List.append_nil] at read
  rw [programWithin_eq, toEnd_eq_ok, statementsWithin_eq, read]

end CalcScript.Grammar
