import CalcScript.Proofs.Completeness

set_option autoImplicit false

namespace CalcScript.Grammar

open Parse

def Sound (room : Nat) (level : Level) (p : Parser Expr) : Prop :=
  ∀ ts e rest, p ts = .ok (e, rest) → ∃ used last,
    ts = used ++ rest ∧ Phrase room level last e used ∧ Ends (reach level last) used rest

section

variable {α : Type} {op? : TokenKind → Option α} {node : α → Expr → Expr → Position → Expr}
  {room : Nat} {level : Level} {p : Parser Expr}

-- The induction is on the bound; the expression read so far grows to the left of the run.
theorem run_sound (sound : Sound room level.tighter p) (reads : Reads op? level)
    (step : ∀ {last op l r t ts us}, Phrase room level false l ts → op? t.kind = some op →
      Phrase room level.tighter last r us →
      Phrase room level last (node op l r t.pos) (ts ++ t :: us))
    (bound : List Token) :
    ∀ {ts rest : List Token} {more : List (α × Position × Expr)} {e : Expr} {used : List Token}
      {last : Bool}, run op? p bound ts = .ok (more, rest) → ts.length ≤ bound.length →
      Phrase room level last e used → Ends (reach level.tighter last) used ts →
      ∃ used' last', ts = used' ++ rest ∧
        Phrase room level last' (more.foldl (fun lhs (op, pos, rhs) => node op lhs rhs pos) e)
          (used ++ used') ∧ Ends (reach level last') (used ++ used') rest := by
  induction bound with
  | nil =>
    intro ts rest more e used last runs len phrase ends
    obtain rfl := List.eq_nil_of_length_eq_zero (Nat.le_zero.mp len)
    cases runs
    exact ⟨[], last, rfl, by simpa using phrase, trivial⟩
  | cons b bound ih =>
    intro ts rest more e used last runs len phrase ends
    cases ts with
    | nil =>
      cases runs
      exact ⟨[], last, rfl, by simpa using phrase, trivial⟩
    | cons t ts =>
      rcases run_cons_eq_ok runs with
        ⟨missed, rfl, rfl⟩ | ⟨op, rhs, us, tail, sign, read, later, rfl⟩
      · refine ⟨[], last, rfl, by simpa using phrase, ?_⟩
        rw [List.append_nil]
        exact ends.loosen _ (by simpa using reads.misses missed)
      · cases last with
        | true => exact (ends.not_of_last (reads.level?_eq sign)).elim
        | false =>
          obtain ⟨vs, last', rfl, right, ends'⟩ := sound _ _ _ read
          obtain ⟨used', last'', rfl, whole, ends''⟩ := ih later (by simp at len; omega)
            (step phrase sign right) ((ends'.of_cons right.ne_nil).of_append (by simp))
          refine ⟨t :: (vs ++ used'), last'', by simp, ?_, ?_⟩
          · simpa using whole
          · simpa using ends''

theorem leftRun_sound (sound : Sound room level.tighter p) (reads : Reads op? level)
    (step : ∀ {last op l r t ts us}, Phrase room level false l ts → op? t.kind = some op →
      Phrase room level.tighter last r us →
      Phrase room level last (node op l r t.pos) (ts ++ t :: us)) :
    Sound room level (leftRun op? node p) := by
  intro ts e rest h
  obtain ⟨first, more, us, read, runs, rfl⟩ := leftRun_eq_ok h
  obtain ⟨used, last, rfl, phrase, ends⟩ := sound _ _ _ read
  obtain ⟨used', last', rfl, whole, ends'⟩ :=
    run_sound sound reads step us runs (Nat.le_refl _) (.lift phrase) ends
  exact ⟨used ++ used', last', by simp, whole, ends'⟩

end

section

variable {room : Nat} {last : Bool} {l r : Expr} {t : Token} {ts us : List Token}

theorem factor_step {op : BinaryOp} (left : Phrase room .factor false l ts)
    (found : factorOp? t.kind = some op) (right : Phrase room .operand last r us) :
    Phrase room .factor last (.binary op l r t.pos) (ts ++ t :: us) := by
  obtain ⟨sign, own⟩ := factorOp?_eq_some.mp found
  exact .binary own (by rintro rfl; cases own) left sign right

theorem term_step {op : BinaryOp} (left : Phrase room .term false l ts)
    (found : termOp? t.kind = some op) (right : Phrase room .factor last r us) :
    Phrase room .term last (.binary op l r t.pos) (ts ++ t :: us) := by
  obtain ⟨sign, own⟩ := termOp?_eq_some.mp found
  exact .binary own (by rintro rfl; cases own) left sign right

theorem conjunction_step {op : LogicalOp} (left : Phrase room .conjunction false l ts)
    (found : andOp? t.kind = some op) (right : Phrase room .comparison last r us) :
    Phrase room .conjunction last (.logical op l r t.pos) (ts ++ t :: us) := by
  obtain ⟨sign, own⟩ := andOp?_eq_some.mp found
  exact .logical own left sign right

theorem disjunction_step {op : LogicalOp} (left : Phrase room .disjunction false l ts)
    (found : orOp? t.kind = some op) (right : Phrase room .conjunction last r us) :
    Phrase room .disjunction last (.logical op l r t.pos) (ts ++ t :: us) := by
  obtain ⟨sign, own⟩ := orOp?_eq_some.mp found
  exact .logical own left sign right

end

section

variable {room : Nat} {p : Parser Expr}

theorem factor_sound (sound : Sound room .operand p) : Sound room .factor (factor p) :=
  leftRun_sound sound factorOp?_reads factor_step

theorem term_sound (sound : Sound room .operand p) : Sound room .term (term p) :=
  leftRun_sound (factor_sound sound) termOp?_reads term_step

theorem chain_sound (sound : Sound room .term p) (bound : List Token) :
    ∀ {ts rest : List Token} {more : List (ComparisonOp × Position × Expr)},
      run TokenKind.comparisonOp? p bound ts = .ok (more, rest) → ts.length ≤ bound.length →
      more = [] ∧ ts = rest ∧ (∀ t ∈ rest.head?, t.kind.comparisonOp? = none) ∨
      ∃ used last, ts = used ++ rest ∧ Chain room last more used ∧
        Ends (reach .comparison last) used rest := by
  induction bound with
  | nil =>
    intro ts rest more runs len
    obtain rfl := List.eq_nil_of_length_eq_zero (Nat.le_zero.mp len)
    cases runs
    exact .inl ⟨rfl, rfl, by simp⟩
  | cons b bound ih =>
    intro ts rest more runs len
    cases ts with
    | nil =>
      cases runs
      exact .inl ⟨rfl, rfl, by simp⟩
    | cons t ts =>
      rcases run_cons_eq_ok runs with
        ⟨missed, rfl, rfl⟩ | ⟨op, rhs, us, tail, found, read, later, rfl⟩
      · exact .inl ⟨rfl, rfl, by simpa using missed⟩
      · have sign := comparisonOp?_eq_some.mp found
        obtain ⟨vs, last, rfl, operand, ends⟩ := sound _ _ _ read
        rcases ih later (by simp at len; omega) with
          ⟨rfl, rfl, stop⟩ | ⟨used, last', rfl, chain, ends'⟩
        · have loose : Ends (reach .comparison last) vs us :=
            ends.loosen .comparison fun u head =>
              comparisonOp?_reads.misses (stop u head)
          exact .inr ⟨t :: vs, last, rfl, .last sign operand, loose.of_cons operand.ne_nil⟩
        · cases last with
          | true =>
            obtain ⟨op', _, _, _, u, us, -, rfl, sign'⟩ := chain.head
            exact (ends.not_of_last (congrArg TokenKind.level? sign')).elim
          | false =>
            exact .inr ⟨t :: (vs ++ used), last', by simp, .more sign operand chain,
              (ends'.of_append chain.ne_nil).of_cons (by simp [chain.ne_nil])⟩

theorem comparison_sound (sound : Sound room .operand p) :
    Sound room .comparison (comparison p) := by
  intro ts e rest h
  obtain ⟨first, more, us, read, runs, result⟩ := comparison_eq_ok h
  obtain ⟨used, last, rfl, phrase, ends⟩ := term_sound sound _ _ _ read
  rcases chain_sound (term_sound sound) us runs (Nat.le_refl _) with
    ⟨rfl, rfl, stop⟩ | ⟨used', last', rfl, chain, ends'⟩
  · subst result
    refine ⟨used, last, rfl, .lift phrase, ?_⟩
    exact ends.loosen .comparison fun u head =>
      comparisonOp?_reads.misses (stop u head)
  · obtain ⟨op, pos, f, tail, t, vs, rfl, rfl, sign⟩ := chain.head
    subst result
    cases last with
    | true => exact (ends.not_of_last (congrArg TokenKind.level? sign)).elim
    | false =>
      exact ⟨used ++ t :: vs, last', by simp, .comparison phrase chain,
        ends'.of_append chain.ne_nil⟩

theorem conjunction_sound (sound : Sound room .operand p) :
    Sound room .conjunction (conjunction p) :=
  leftRun_sound (comparison_sound sound) andOp?_reads conjunction_step

theorem expression_sound (sound : Sound room .operand p) :
    Sound room .disjunction (expression p) :=
  leftRun_sound (conjunction_sound sound) orOp?_reads disjunction_step

theorem arguments_sound (sound : Sound room .disjunction p) (bound : List Token) :
    ∀ {ts rest : List Token} {es : List Expr}, arguments p bound ts = .ok (es, rest) →
      ∃ used, ts = used ++ rest ∧ Arguments room es used := by
  induction bound with
  | nil =>
    intro ts rest es h
    cases h
  | cons b bound ih =>
    intro ts rest es h
    obtain ⟨e, us, read, ⟨rfl, rfl, stop⟩ | ⟨c, vs, more, rfl, comma, args, rfl⟩⟩ :=
      arguments_cons_eq_ok h
    all_goals obtain ⟨used, last, rfl, phrase, -⟩ := sound _ _ _ read
    · exact ⟨used, rfl, .last phrase.atEnd⟩
    · obtain ⟨used', rfl, rest⟩ := ih args
      exact ⟨used ++ c :: used', by simp, .more phrase.atEnd comma rest⟩

end

section

variable {room : Nat} {inner : Option (Parser Expr)}
  (below : ∀ q, inner = some q → ∃ n, room = n + 1 ∧ Sound n .operand q)

include below

theorem primary_sound : Sound room .primary (primary inner) := by
  intro ts e rest h
  have opened {q : Parser Expr} (found : inner = some q) :
      ∃ n, room = n + 1 ∧ Sound n .disjunction (expression q) := by
    obtain ⟨n, eq, sound⟩ := below q found
    exact ⟨n, eq, expression_sound sound⟩
  obtain ⟨t, us, rfl, ⟨v, kind, value, rfl, rfl⟩ | ⟨left, h⟩ | ⟨kind, h⟩⟩ :=
    primary_eq_ok h
  · refine ⟨[t], false, rfl, .literal kind value, .of_primary ?_⟩
    exact endsInName_of_last [] (by rcases kind with kind | kind | kind <;> simp [kind])
  · obtain ⟨q, r, found, read, right⟩ := group_eq_ok h
    obtain ⟨n, rfl, sound⟩ := opened found
    obtain ⟨used, last, rfl, phrase, -⟩ := sound _ _ _ read
    refine ⟨t :: (used ++ [r]), false, by simp, .group left phrase.atEnd right, .of_primary ?_⟩
    exact endsInName_of_last (t :: used) (by simp [right])
  · rcases h with ⟨rfl, rfl, plain⟩ | ⟨l, vs, rfl, left, h⟩ | ⟨eq, vs, op, rfl, found, h⟩
    · refine ⟨[t], false, rfl, .variable kind, ?_⟩
      cases rest with
      | nil => trivial
      | cons u rest => exact ⟨Level.takes_primary _, fun _ => plain u rfl⟩
    · rcases call_eq_ok h with ⟨r, rfl, right, rfl⟩ | ⟨q, es, r, found, read, right, rfl⟩
      · refine ⟨[t, l, r], false, rfl, .emptyCall kind left right, .of_primary ?_⟩
        exact endsInName_of_last [t, l] (by simp [right])
      · obtain ⟨n, rfl, sound⟩ := opened found
        obtain ⟨used, rfl, args⟩ := arguments_sound sound _ read
        refine ⟨t :: l :: (used ++ [r]), false, by simp, .call kind left args right,
          .of_primary ?_⟩
        exact endsInName_of_last (t :: l :: used) (by simp [right])
    · obtain ⟨q, value, some_room, read, rfl⟩ := assignment_eq_ok h
      obtain ⟨n, rfl, sound⟩ := opened some_room
      obtain ⟨used, last, rfl, phrase, ends⟩ := sound _ _ _ read
      have ends : Ends (reach .primary true) (t :: eq :: used) rest :=
        ((reach_disjunction last ▸ ends).of_cons phrase.ne_nil).of_cons (by simp)
      rcases assignmentOp?_eq_some.mp found with ⟨sign, rfl⟩ | ⟨op, sign, rfl⟩
      · exact ⟨_, true, by simp, .assignment kind sign phrase.atEnd, ends⟩
      · exact ⟨_, true, by simp, .compound kind sign phrase.atEnd, ends⟩

theorem power_sound : Sound room .power (power inner) := by
  intro ts e rest h
  rcases power_eq_ok h with
    ⟨read, stop⟩ | ⟨q, b, exponent, t, us, found, read, sign, exponent_read, rfl⟩
  · obtain ⟨used, last, rfl, phrase, ends⟩ := primary_sound below _ _ _ read
    refine ⟨used, last, rfl, .lift phrase, ends.loosen .power fun t head => ?_⟩
    exact level?_ne_power (stop t head)
  · obtain ⟨used, last, rfl, base, ends⟩ := primary_sound below _ _ _ read
    cases last with
    | true => exact (ends.not_of_last (congrArg TokenKind.level? sign)).elim
    | false =>
      obtain ⟨n, rfl, sound⟩ := below q found
      obtain ⟨used', last, rfl, phrase, ends'⟩ := sound _ _ _ exponent_read
      refine ⟨used ++ t :: used', last, by simp, .power base sign phrase, ?_⟩
      exact ((ends'.weaken (rank_reach_le (by decide) last)).of_cons
        phrase.ne_nil).of_append (by simp)

theorem operand_sound : Sound room .operand (operand inner) := by
  intro ts e rest h
  rcases operand_eq_ok h with read | ⟨q, op, f, t, us, found, rfl, sign, read, rfl⟩
  · obtain ⟨used, last, rfl, phrase, ends⟩ := power_sound below _ _ _ read
    exact ⟨used, last, rfl, .lift phrase, ends.operand_of_power⟩
  · obtain ⟨n, rfl, sound⟩ := below q found
    obtain ⟨used, last, rfl, phrase, ends⟩ := sound _ _ _ read
    exact ⟨t :: used, last, rfl, .unary sign phrase, ends.of_cons phrase.ne_nil⟩

end

theorem operandWithin_sound (room : Nat) : Sound room .operand (operandWithin room) := by
  induction room with
  | zero => exact operand_sound fun q found => nomatch found
  | succ room ih =>
    refine operand_sound fun q found => ?_
    cases found
    exact ⟨room, rfl, ih⟩

theorem expressionWithin_eq_ok {room : Nat} {ts rest : List Token} {e : Expr} :
    expressionWithin room ts = .ok (e, rest) ↔ ∃ used, ts = used ++ rest ∧
      Phrase room .disjunction true e used ∧ Ends .disjunction used rest := by
  constructor
  · intro h
    obtain ⟨used, last, eq, phrase, ends⟩ :=
      expression_sound (operandWithin_sound room) _ _ _ h
    exact ⟨used, eq, phrase.atEnd, reach_disjunction last ▸ ends⟩
  · rintro ⟨used, rfl, phrase, ends⟩
    exact phrase.read ends

theorem params_sound (bound : List Token) :
    ∀ {ts rest : List Token} {names : List Identifier}, params bound ts = .ok (names, rest) →
      ∃ used, ts = used ++ rest ∧ Params names used := by
  induction bound with
  | nil =>
    intro ts rest names h
    cases h
  | cons b bound ih =>
    intro ts rest names h
    rcases params_cons_eq_ok h with ⟨rfl, rfl⟩ | ⟨t, us, rfl, kind, own, h⟩
    · exact ⟨[], rfl, .nil⟩
    · rcases h with ⟨rfl, rfl⟩ | ⟨c, vs, more, rfl, comma, later, rfl⟩
      · exact ⟨[t], rfl, .last kind own⟩
      · obtain ⟨used, rfl, rest⟩ := ih later
        exact ⟨t :: c :: used, rfl, .more kind own comma rest⟩

section

variable {room : Nat} {expr : Parser Expr} {body : Parser (List Statement)}

def SoundBlock (room : Nat) (body : Parser (List Statement)) : Prop :=
  ∀ ts items rest, body ts = .ok (items, rest) → ∃ used, ts = used ++ rest ∧ Block room items used

def SoundList (room : Nat) (p : Parser (List Statement)) : Prop :=
  ∀ ts items rest, p ts = .ok (items, rest) →
    ∃ used, ts = used ++ rest ∧ Statements room items used ∧ EndsStatements rest

theorem simpleStatement_sound (value : Sound room .disjunction expr) {ts rest : List Token}
    {s : Statement} (h : simpleStatement expr ts = .ok (s, rest)) :
    ∃ used, ts = used ++ rest ∧ Simple room s used := by
  rcases simpleStatement_eq_ok h with ⟨e, read, rfl⟩ | ⟨t, us, kind, rfl, word, h⟩
  · obtain ⟨used, last, rfl, phrase, -⟩ := value _ _ _ read
    exact ⟨used, rfl, .expression phrase.atEnd⟩
  · rcases control_eq_ok h with ⟨rfl, rfl⟩ | ⟨e, rfl, read, rfl⟩
    · exact ⟨[t], rfl, .control word⟩
    · obtain ⟨used, last, rfl, phrase, -⟩ := value _ _ _ read
      exact ⟨t :: used, rfl, .value word phrase.atEnd⟩

theorem alternatives_sound (value : Sound room .disjunction expr) (blocks : SoundBlock room body)
    (bound : List Token) : ∀ {ts rest : List Token} {otherwise : Option (List Statement)},
      alternatives expr body bound ts = .ok (otherwise, rest) → ts.length ≤ bound.length →
      ∃ used, ts = used ++ rest ∧ Otherwise room otherwise used := by
  induction bound with
  | nil =>
    intro ts rest otherwise h len
    obtain rfl := List.eq_nil_of_length_eq_zero (Nat.le_zero.mp len)
    cases h
    exact ⟨[], rfl, .nothing⟩
  | cons b bound ih =>
    intro ts rest otherwise h len
    rcases alternatives_eq_ok h with ⟨rfl, rfl⟩ | ⟨t, us, items, rfl, word, read, rfl⟩ |
      ⟨_, _, t, us, c, vs, items, ws, more, ⟨⟩, rfl, word, condition, read, later, rfl⟩
    · exact ⟨[], rfl, .nothing⟩
    · obtain ⟨used, rfl, block⟩ := blocks _ _ _ read
      exact ⟨t :: used, rfl, .block word block⟩
    · obtain ⟨used, last, rfl, phrase, -⟩ := value _ _ _ condition
      obtain ⟨used', rfl, block⟩ := blocks _ _ _ read
      obtain ⟨used'', rfl, rest⟩ := ih later (by simp at len; omega)
      exact ⟨t :: (used ++ (used' ++ used'')), by simp, .branch word phrase.atEnd block rest⟩

theorem blockStatement_sound (value : Sound room .disjunction expr)
    (blocks : SoundBlock room body) {t : Token} {ts rest : List Token} {parser : Parser Statement}
    {s : Statement} (found : blockStatement? expr body t = some parser)
    (h : parser ts = .ok (s, rest)) :
    ∃ used, ts = used ++ rest ∧ Compound room s (t :: used) := by
  rcases blockStatement?_eq_some found with ⟨word, rfl⟩ | ⟨word, rfl⟩ | ⟨word, rfl⟩
  · obtain ⟨c, us, items, vs, otherwise, condition, read, more, rfl⟩ := branch_eq_ok h
    obtain ⟨used, last, rfl, phrase, -⟩ := value _ _ _ condition
    obtain ⟨used', rfl, block⟩ := blocks _ _ _ read
    obtain ⟨used'', rfl, rest⟩ := alternatives_sound value blocks _ more (Nat.le_refl _)
    exact ⟨used ++ (used' ++ used''), by simp, .branch word phrase.atEnd block rest⟩
  · obtain ⟨c, us, items, condition, read, rfl⟩ := loop_eq_ok h
    obtain ⟨used, last, rfl, phrase, -⟩ := value _ _ _ condition
    obtain ⟨used', rfl, block⟩ := blocks _ _ _ read
    exact ⟨used ++ used', by simp, .loop word phrase.atEnd block⟩
  · obtain ⟨f, l, us, names, r, vs, items, rfl, name, left, read, right, read', rfl⟩ :=
      function_eq_ok h
    obtain ⟨used, rfl, params⟩ := params_sound _ read
    obtain ⟨used', rfl, block⟩ := blocks _ _ _ read'
    exact ⟨f :: l :: (used ++ r :: used'), by simp, .function word name left params right block⟩

theorem statements_sound (value : Sound room .disjunction expr) (blocks : SoundBlock room body)
    (bound : List Token) : ∀ {ts rest : List Token} {items : List Statement},
      statements expr body bound ts = .ok (items, rest) → ts.length ≤ bound.length →
      ∃ used, ts = used ++ rest ∧ Statements room items used ∧ EndsStatements rest := by
  induction bound with
  | nil =>
    intro ts rest items h len
    obtain rfl := List.eq_nil_of_length_eq_zero (Nat.le_zero.mp len)
    cases h
    exact ⟨[], rfl, .nil, by simp [EndsStatements]⟩
  | cons b bound ih =>
    intro ts rest items h len
    cases ts with
    | nil =>
      cases h
      exact ⟨[], rfl, .nil, by simp [EndsStatements]⟩
    | cons t ts =>
      rcases statements_cons_eq_ok h with ⟨brace, rfl, rfl⟩ |
        ⟨parser, s, us, more, found, read, later, rfl⟩ | ⟨s, us, read, h⟩
      · exact ⟨[], rfl, .nil, by simp [EndsStatements, brace]⟩
      · obtain ⟨used, rfl, statement⟩ := blockStatement_sound value blocks found read
        rcases skipSemicolon_cases us with same | ⟨u, eq, sign⟩
        · rw [same] at later
          obtain ⟨used', rfl, rest, ends⟩ := ih later (by simp at len; omega)
          exact ⟨t :: (used ++ used'), by simp, .compound statement rest, ends⟩
        · have shorter := congrArg List.length eq
          obtain ⟨used', eq', rest, ends⟩ := ih later (by simp at len shorter; omega)
          refine ⟨t :: (used ++ u :: used'), ?_, .separated statement sign rest, ends⟩
          rw [eq, eq']
          simp
      · obtain ⟨used, eq, statement⟩ := simpleStatement_sound value read
        rcases h with ⟨rfl, rfl, ends⟩ | ⟨u, vs, more, rfl, sign, later, rfl⟩
        · exact ⟨used, eq, .last statement, ends⟩
        · have shorter := congrArg List.length eq
          obtain ⟨used', rfl, rest, ends⟩ := ih later (by simp at len shorter; omega)
          exact ⟨used ++ u :: used', by simp [eq], .simple statement sign rest, ends⟩

theorem block_sound {inner : Option (Parser (List Statement))}
    (below : ∀ q, inner = some q → ∃ n, room = n + 1 ∧ SoundList n q) :
    SoundBlock room (block inner) := by
  intro ts items rest h
  obtain ⟨q, l, us, r, found, rfl, left, read, right⟩ := block_eq_ok h
  obtain ⟨n, rfl, sound⟩ := below q found
  obtain ⟨used, rfl, inside, -⟩ := sound _ _ _ read
  exact ⟨l :: (used ++ [r]), by simp, .braces left inside right⟩

theorem list_sound {inner : Option (Parser (List Statement))} (value : Sound room .disjunction expr)
    (below : ∀ q, inner = some q → ∃ n, room = n + 1 ∧ SoundList n q) :
    SoundList room fun ts => statements expr (block inner) ts ts := fun ts _ _ h =>
  statements_sound value (block_sound below) ts h (Nat.le_refl _)

end

theorem statementsWithin_sound (room : Nat) : SoundList room (statementsWithin room) := by
  have value (room : Nat) : Sound room .disjunction (expressionWithin room) :=
    expression_sound (operandWithin_sound room)
  induction room with
  | zero => exact list_sound (value 0) fun q (found : none = some q) => nomatch found
  | succ room ih =>
    refine list_sound (value (room + 1)) fun q found => ?_
    cases found
    exact ⟨room, rfl, ih⟩

theorem programWithin_eq_ok {room : Nat} {ts : List Token} {items : List Statement} :
    programWithin room ts = .ok items ↔ Statements room items ts := by
  constructor
  · intro h
    rw [programWithin_eq, toEnd_eq_ok] at h
    obtain ⟨used, rfl, inside, -⟩ := statementsWithin_sound room _ _ _ h
    rwa [List.append_nil]
  · exact Statements.read_program

theorem soleExpressionWithin_eq_ok {room : Nat} {ts : List Token} {e : Expr} :
    soleExpressionWithin room ts = .ok e ↔ ∃ used, Phrase room .disjunction true e used ∧
      (ts = used ∨ ∃ t, ts = used ++ [t] ∧ t.kind = .semicolon) := by
  rw [soleExpressionWithin_eq, toEnd_eq_ok]
  constructor
  · intro h
    simp only [soleWithin, bind_eq_ok, Prod.exists, Except.ok.injEq, Prod.mk.injEq] at h
    obtain ⟨f, rest, read, rfl, done⟩ := h
    obtain ⟨used, rfl, phrase, -⟩ := expressionWithin_eq_ok.mp read
    refine ⟨used, phrase, ?_⟩
    rcases skipSemicolon_cases rest with same | ⟨t, eq, sign⟩
    · exact .inl (by rw [← same, done, List.append_nil])
    · exact .inr ⟨t, by rw [eq, done], sign⟩
  · rintro ⟨used, phrase, rfl | ⟨t, rfl, sign⟩⟩
    · have read : expressionWithin room (ts ++ []) = .ok (e, []) := phrase.read trivial
      rw [List.append_nil] at read
      rw [soleWithin, read]
      rfl
    · have read := phrase.read (.of_level? [] (by rw [sign]; rfl) (by rw [sign]; rfl))
      rw [soleWithin, read, ok_bind, skipSemicolon_cons sign]

end CalcScript.Grammar
