import CalcScript.Proofs.Extension
import CalcScript.Proofs.Soundness

set_option autoImplicit false

namespace CalcScript

namespace Parse

def full {α : Type} (p : Parser α) : Parser α := fun ts =>
  match p ts with
  | .error .incomplete => .error (.located default .nestedTooDeeply)
  | r => r

-- The parsers again, but they are out of tokens only where fewer constructs are open than may be.
-- Where there is no room left for another one, the end of the tokens is blamed on the depth.

def operandBelow : Nat → Parser Expr
  | 0 => full (operand none)
  | room + 1 => operand (some (operandBelow room))

def expressionBelow (room : Nat) : Parser Expr := expression (operandBelow room)

def statementsBelow : Nat → Parser (List Statement)
  | 0 => full fun ts => statements (expressionBelow 0) (block none) ts ts
  | room + 1 => fun ts =>
    statements (expressionBelow (room + 1)) (block (some (statementsBelow room))) ts ts

def programBelow (room : Nat) : List Token → Except SyntaxError (List Statement) :=
  toEnd (statementsBelow room)

def soleExpressionBelow (room : Nat) : List Token → Except SyntaxError Expr :=
  toEnd fun ts => expressionBelow room ts >>= fun r => .ok (r.1, skipSemicolon r.2)

theorem full_ne_incomplete {α : Type} (p : Parser α) (ts : List Token) :
    full p ts ≠ .error .incomplete := by
  unfold full
  split
  · simp
  · next other => exact other

theorem full_eq_ok {α : Type} {p : Parser α} {ts rest : List Token} {a : α} :
    full p ts = .ok (a, rest) ↔ p ts = .ok (a, rest) := by
  unfold full
  split
  · next failed => simp [failed]
  · rfl

theorem bind_eq_error {ε α β : Type} {x : Except ε α} {f : α → Except ε β} {e : ε} :
    (x >>= f) = .error e ↔ x = .error e ∨ ∃ a, x = .ok a ∧ f a = .error e := by
  cases x <;> simp

theorem full_follows {α : Type} {p q : Parser α} (follows : Follows [] p q) :
    Follows [] (full p) q := by
  have opened : Open (full p []) := by
    have ends := (follows 0).atEnd
    unfold full
    generalize p [] = r at ends
    cases ends with
    | done a => exact .done a
    | incomplete => exact .tooDeep default
    | tooDeep pos => exact .tooDeep pos
  refine fun n => ⟨fun ts le => ?_, opened⟩
  have agrees := (follows n).agrees ts le
  unfold full
  generalize p ts = r, q (ts ++ []) = s at agrees
  cases agrees with
  | ok a rest short => exact .ok a rest short
  | error e =>
    cases e with
    | incomplete => exact .tooDeep default _
    | located pos fault => exact .error _
  | tooDeep pos s => exact .tooDeep pos s
  | atEnd more opened s => exact absurd rfl more

theorem operandBelow_follows (room : Nat) :
    Follows [] (operandBelow room) (operandWithin room) := by
  induction room with
  | zero => exact full_follows (operand_follows fun p found => nomatch found)
  | succ room ih =>
    refine operand_follows fun p found => ⟨_, rfl, ?_⟩
    cases found
    exact ih

theorem expressionBelow_follows (room : Nat) :
    Follows [] (expressionBelow room) (expressionWithin room) :=
  expression_follows (operandBelow_follows room)

theorem statementsBelow_follows (room : Nat) :
    Follows [] (statementsBelow room) (statementsWithin room) := by
  induction room with
  | zero =>
    exact full_follows (list_follows (expressionBelow_follows 0) fun p found => nomatch found)
  | succ room ih =>
    refine list_follows (expressionBelow_follows (room + 1)) fun p found => ⟨_, rfl, ?_⟩
    cases found
    exact ih

theorem toEnd_agrees {α : Type} {p q : Parser α} (follows : Follows [] p q) (ts : List Token) :
    toEnd p ts = toEnd q ts ∨ ∃ pos, toEnd p ts = .error (.located pos .nestedTooDeeply) := by
  have agrees := (follows ts.length).agrees ts (Nat.le_refl _)
  rw [List.append_nil] at agrees
  unfold toEnd
  generalize p ts = r, q ts = s at agrees
  cases agrees with
  | ok a rest short => exact .inl (by rw [List.append_nil])
  | error e => exact .inl rfl
  | tooDeep pos s => exact .inr ⟨pos, rfl⟩
  | atEnd more opened s => exact absurd rfl more

theorem programBelow_agrees (room : Nat) (ts : List Token) :
    programBelow room ts = programWithin room ts ∨
      ∃ pos, programBelow room ts = .error (.located pos .nestedTooDeeply) := by
  rw [programWithin_eq]
  exact toEnd_agrees (statementsBelow_follows room) ts

theorem soleExpressionBelow_agrees (room : Nat) (ts : List Token) :
    soleExpressionBelow room ts = soleExpressionWithin room ts ∨
      ∃ pos, soleExpressionBelow room ts = .error (.located pos .nestedTooDeeply) := by
  rw [soleExpressionWithin_eq]
  exact toEnd_agrees (fun n => (expressionBelow_follows room n).bind fun e =>
    skipSemicolon_follows.map fun _ => e) ts

theorem expect_eq_incomplete {kind : TokenKind} {fault : String → Fault} {ts : List Token} :
    expect kind fault ts = .error .incomplete ↔ ts = [] := by
  cases ts with
  | nil => simp [expect]
  | cons t ts =>
    simp only [expect]
    split <;> simp

theorem enter_ne_incomplete {α : Type} {inner : Option α} {pos : Position} :
    enter inner pos ≠ .error .incomplete := by
  cases inner <;> simp [enter]

end Parse

namespace Grammar

open Parse

def Viable (room : Nat) (level : Level) (p : Parser Expr) : Prop :=
  ∀ ts, p ts = .error .incomplete → ∃ us e, Phrase room level true e (ts ++ us)

def mark (kind : TokenKind) : Token := ⟨kind, default, "", none⟩

def oneToken : Token := ⟨.integer, default, "1", some (.int 1)⟩

theorem one_phrase (room : Nat) (last : Bool) :
    Phrase room .primary last (.literal (.int 1) default) [oneToken] :=
  .literal (t := oneToken) (.inl rfl) rfl

section

variable {α : Type} {op? : TokenKind → Option α} {node : α → Expr → Expr → Position → Expr}
  {room : Nat} {level : Level} {p : Parser Expr}

theorem run_eq_incomplete {bound ts : List Token} (h : run op? p bound ts = .error .incomplete) :
    ∃ b bound' t us op, bound = b :: bound' ∧ ts = t :: us ∧ op? t.kind = some op ∧
      (p us = .error .incomplete ∨
        ∃ rhs vs, p us = .ok (rhs, vs) ∧ run op? p bound' vs = .error .incomplete) := by
  cases bound with
  | nil => cases h
  | cons b bound =>
    cases ts with
    | nil => cases h
    | cons t us =>
      simp only [run] at h
      split at h
      · cases h
      · next op sign =>
        simp only [bind_eq_error, Prod.exists, pure_eq_ok] at h
        refine ⟨b, bound, t, us, op, rfl, rfl, sign, h.imp_right ?_⟩
        rintro ⟨rhs, vs, read, later | ⟨_, _, _, ⟨⟩⟩⟩
        exact ⟨rhs, vs, read, later⟩

theorem run_viable (sound : Sound room level.tighter p) (viable : Viable room level.tighter p)
    (reads : Reads op? level)
    (step : ∀ {last op l r t ts us}, Phrase room level false l ts → op? t.kind = some op →
      Phrase room level.tighter last r us →
      Phrase room level last (node op l r t.pos) (ts ++ t :: us))
    (bound : List Token) :
    ∀ {ts : List Token} {e : Expr} {used : List Token} {last : Bool},
      run op? p bound ts = .error .incomplete → ts.length ≤ bound.length →
      Phrase room level last e used → Ends (reach level.tighter last) used ts →
      ∃ us f, Phrase room level true f (used ++ (ts ++ us)) := by
  induction bound with
  | nil =>
    intro ts e used last runs
    cases runs
  | cons b bound ih =>
    intro ts e used last runs len phrase ends
    obtain ⟨_, _, t, ts, op, ⟨⟩, rfl, sign, h⟩ := run_eq_incomplete runs
    -- A left operand that ends in a bare assignment would have taken the operator for its value.
    cases last with
    | true => exact (ends.not_of_last (reads.level?_eq sign)).elim
    | false =>
      rcases h with out | ⟨rhs, us, read, later⟩
      · obtain ⟨us, f, right⟩ := viable ts out
        exact ⟨us, _, step phrase sign right⟩
      · obtain ⟨vs, last, rfl, right, ends'⟩ := sound _ _ _ read
        obtain ⟨us, f, whole⟩ := ih later (by simp at len; omega) (step phrase sign right)
          ((ends'.of_cons right.ne_nil).of_append (by simp))
        exact ⟨us, f, by simpa using whole⟩

theorem leftRun_viable (sound : Sound room level.tighter p) (viable : Viable room level.tighter p)
    (reads : Reads op? level)
    (step : ∀ {last op l r t ts us}, Phrase room level false l ts → op? t.kind = some op →
      Phrase room level.tighter last r us →
      Phrase room level last (node op l r t.pos) (ts ++ t :: us)) :
    Viable room level (leftRun op? node p) := by
  intro ts h
  simp only [leftRun, bind_eq_error, Prod.exists, pure_eq_ok] at h
  rcases h with out | ⟨first, rest, read, runs | ⟨_, _, _, ⟨⟩⟩⟩
  · obtain ⟨us, e, phrase⟩ := viable ts out
    exact ⟨us, e, .lift phrase⟩
  · obtain ⟨used, last, rfl, phrase, ends⟩ := sound _ _ _ read
    obtain ⟨us, f, whole⟩ :=
      run_viable sound viable reads step rest runs (Nat.le_refl _) (.lift phrase) ends
    exact ⟨us, f, by simpa using whole⟩

end

section

variable {room : Nat} {p : Parser Expr}

theorem factor_viable (sound : Sound room .operand p) (viable : Viable room .operand p) :
    Viable room .factor (factor p) :=
  leftRun_viable sound viable factorOp?_reads factor_step

theorem term_viable (sound : Sound room .operand p) (viable : Viable room .operand p) :
    Viable room .term (term p) :=
  leftRun_viable (factor_sound sound) (factor_viable sound viable) termOp?_reads term_step

theorem chain_viable (sound : Sound room .term p) (viable : Viable room .term p)
    (bound : List Token) : ∀ {ts : List Token},
      run TokenKind.comparisonOp? p bound ts = .error .incomplete → ts.length ≤ bound.length →
      ∃ us more, Chain room true more (ts ++ us) := by
  induction bound with
  | nil =>
    intro ts runs
    cases runs
  | cons b bound ih =>
    intro ts runs len
    obtain ⟨_, _, t, ts, op, ⟨⟩, rfl, found, h⟩ := run_eq_incomplete runs
    have sign := comparisonOp?_eq_some.mp found
    rcases h with out | ⟨rhs, us, read, later⟩
    · obtain ⟨us, e, operand⟩ := viable ts out
      exact ⟨us, _, .last sign operand⟩
    · obtain ⟨used, last, rfl, operand, ends⟩ := sound _ _ _ read
      cases last with
      | true =>
        obtain ⟨_, _, u, us, op', -, rfl, found', -⟩ := run_eq_incomplete later
        exact (ends.not_of_last (comparisonOp?_reads.level?_eq found')).elim
      | false =>
        obtain ⟨vs, more, chain⟩ := ih later (by simp at len; omega)
        exact ⟨vs, _, by simpa using Chain.more sign operand chain⟩

theorem comparison_viable (sound : Sound room .operand p) (viable : Viable room .operand p) :
    Viable room .comparison (comparison p) := by
  intro ts h
  simp only [comparison_eq, bind_eq_error, Prod.exists] at h
  rcases h with out | ⟨first, rest, read, runs | ⟨_, _, _, ⟨⟩⟩⟩
  · obtain ⟨us, e, phrase⟩ := term_viable sound viable ts out
    exact ⟨us, e, .lift phrase⟩
  · obtain ⟨used, last, rfl, phrase, ends⟩ := term_sound sound _ _ _ read
    cases last with
    | true =>
      obtain ⟨_, _, u, us, op, -, rfl, found, -⟩ := run_eq_incomplete runs
      exact (ends.not_of_last (comparisonOp?_reads.level?_eq found)).elim
    | false =>
      obtain ⟨us, more, chain⟩ :=
        chain_viable (term_sound sound) (term_viable sound viable) rest runs (Nat.le_refl _)
      obtain ⟨op, pos, f, more, _, _, rfl, -, -⟩ := chain.head
      exact ⟨us, _, by simpa using Phrase.comparison phrase chain⟩

theorem conjunction_viable (sound : Sound room .operand p) (viable : Viable room .operand p) :
    Viable room .conjunction (conjunction p) :=
  leftRun_viable (comparison_sound sound) (comparison_viable sound viable) andOp?_reads
    conjunction_step

theorem expression_viable (sound : Sound room .operand p) (viable : Viable room .operand p) :
    Viable room .disjunction (expression p) :=
  leftRun_viable (conjunction_sound sound) (conjunction_viable sound viable) orOp?_reads
    disjunction_step

theorem arguments_viable (sound : Sound room .disjunction p) (viable : Viable room .disjunction p)
    (bound : List Token) : ∀ {ts : List Token}, arguments p bound ts = .error .incomplete →
      ts.length ≤ bound.length → ∃ us es, Arguments room es (ts ++ us) := by
  have one : Phrase room .disjunction true (.literal (.int 1) default) [oneToken] :=
    (one_phrase room true).loosen (by decide)
  induction bound with
  | nil =>
    intro ts h len
    -- Nothing is left, so one argument completes the list.
    obtain rfl := List.eq_nil_of_length_eq_zero (Nat.le_zero.mp len)
    exact ⟨_, _, .last one⟩
  | cons b bound ih =>
    intro ts h len
    simp only [arguments, bind_eq_error, Prod.exists] at h
    rcases h with out | ⟨e, rest, read, h⟩
    · obtain ⟨us, e, phrase⟩ := viable ts out
      exact ⟨us, _, .last phrase⟩
    · split at h
      · cases h
      · next c us next =>
        obtain ⟨rfl, comma⟩ := next?_eq_some.mp next
        simp only [bind_eq_error, Prod.exists, pure_eq_ok] at h
        rcases h with later | ⟨_, _, _, ⟨⟩⟩
        obtain ⟨used, last, rfl, phrase, -⟩ := sound _ _ _ read
        obtain ⟨vs, es, rest⟩ := ih later (by simp at len; omega)
        exact ⟨vs, _, by simpa using Arguments.more phrase.atEnd comma rest⟩

end

section

variable {room : Nat} {inner : Option (Parser Expr)}
  (below : ∀ q, inner = some q → ∃ n, room = n + 1 ∧ Sound n .operand q ∧ Viable n .operand q)

include below

theorem opened {pos : Position} {q : Parser Expr} (found : enter inner pos = .ok q) :
    ∃ n, room = n + 1 ∧ Sound n .disjunction (expression q) ∧
      Viable n .disjunction (expression q) := by
  obtain ⟨n, eq, sound, viable⟩ := below q (enter_eq_ok.mp found)
  exact ⟨n, eq, expression_sound sound, expression_viable sound viable⟩

theorem group_viable {l : Token} (left : l.kind = .leftParen) {pos : Position} {ts : List Token}
    (h : group inner pos ts = .error .incomplete) :
    ∃ us e, Phrase room .primary true e (l :: (ts ++ us)) := by
  simp only [group, bind_eq_error, enter_ne_incomplete, false_or, Prod.exists,
    expect_eq_incomplete] at h
  obtain ⟨q, found, h⟩ := h
  obtain ⟨n, rfl, sound, viable⟩ := opened below found
  rcases h with out | ⟨e, rest, read, rfl | ⟨_, _, _, ⟨⟩⟩⟩
  · obtain ⟨us, e, phrase⟩ := viable ts out
    exact ⟨us ++ [mark .rightParen], e,
      by simpa using Phrase.group (r := mark .rightParen) left phrase rfl⟩
  · obtain ⟨used, last, rfl, phrase, -⟩ := sound _ _ _ read
    exact ⟨[mark .rightParen], e,
      by simpa using Phrase.group (r := mark .rightParen) left phrase.atEnd rfl⟩

theorem call_viable {t l : Token} (kind : t.kind = .identifier) (left : l.kind = .leftParen)
    {callee : Identifier} {ts : List Token} (h : call inner callee ts = .error .incomplete) :
    ∃ us e, Phrase room .primary true e (t :: l :: (ts ++ us)) := by
  unfold call at h
  split at h
  · cases h
  · simp only [bind_eq_error, enter_ne_incomplete, false_or, Prod.exists,
      expect_eq_incomplete] at h
    obtain ⟨q, found, h⟩ := h
    obtain ⟨n, rfl, sound, viable⟩ := opened below found
    rcases h with out | ⟨es, rest, read, rfl | ⟨_, _, _, ⟨⟩⟩⟩
    · obtain ⟨us, es, args⟩ := arguments_viable sound viable ts out (Nat.le_refl _)
      exact ⟨us ++ [mark .rightParen], _,
        by simpa using Phrase.call (r := mark .rightParen) kind left args rfl⟩
    · obtain ⟨used, rfl, args⟩ := arguments_sound sound ts read
      exact ⟨[mark .rightParen], _,
        by simpa using Phrase.call (r := mark .rightParen) kind left args rfl⟩

theorem assignment_viable {t eq : Token} {op : Option BinaryOp} (kind : t.kind = .identifier)
    (found : assignmentOp? eq.kind = some op) {target : Identifier} {pos : Position}
    {ts : List Token} (h : assignment inner target op pos ts = .error .incomplete) :
    ∃ us e, Phrase room .primary true e (t :: eq :: (ts ++ us)) := by
  simp only [assignment, bind_eq_error, enter_ne_incomplete, false_or, Prod.exists] at h
  obtain ⟨q, some_room, out | ⟨e, rest, _, failed⟩⟩ := h
  · obtain ⟨n, rfl, -, viable⟩ := opened below some_room
    obtain ⟨us, e, phrase⟩ := viable ts out
    rcases assignmentOp?_eq_some.mp found with ⟨sign, rfl⟩ | ⟨op, sign, rfl⟩
    · exact ⟨us, _, .assignment kind sign phrase⟩
    · exact ⟨us, _, .compound kind sign phrase⟩
  · cases op <;> cases failed

theorem primary_viable : Viable room .primary (primary inner) := by
  intro ts h
  cases ts with
  | nil => exact ⟨_, _, one_phrase room true⟩
  | cons t ts =>
    cases kind : t.kind
    case identifier =>
      rw [primary_eq_behindName kind] at h
      cases ts with
      | nil => cases h
      | cons u rest =>
        simp only [behindName] at h
        split at h
        · next left => exact call_viable below kind left h
        · split at h
          · next op found => exact assignment_viable below kind found h
          · cases h
    case leftParen =>
      simp only [primary, kind] at h
      exact group_viable below kind h
    case integer | float | string =>
      simp only [primary, kind] at h
      split at h <;> cases h
    all_goals
      simp only [primary, kind] at h
      cases h

theorem power_viable : Viable room .power (power inner) := by
  have sound : Sound room .primary (primary inner) := primary_sound fun q found => by
    obtain ⟨n, eq, sound, -⟩ := below q found
    exact ⟨n, eq, sound⟩
  intro ts h
  simp only [power, bind_eq_error, Prod.exists] at h
  rcases h with out | ⟨b, rest, read, h⟩
  · obtain ⟨us, e, phrase⟩ := primary_viable below ts out
    exact ⟨us, e, .lift phrase⟩
  · split at h
    · cases h
    · next caret us next =>
      obtain ⟨rfl, sign⟩ := next?_eq_some.mp next
      simp only [bind_eq_error, enter_ne_incomplete, false_or, Prod.exists, pure_eq_ok] at h
      obtain ⟨q, found, out | ⟨_, _, _, ⟨⟩⟩⟩ := h
      obtain ⟨n, rfl, -, viable⟩ := below q (enter_eq_ok.mp found)
      obtain ⟨used, last, rfl, base, ends⟩ := sound _ _ _ read
      obtain ⟨vs, e, exponent⟩ := viable us out
      cases last with
      | true => exact (ends.not_of_last (congrArg TokenKind.level? sign)).elim
      | false => exact ⟨vs, _, by simpa using Phrase.power base sign exponent⟩

theorem operand_viable : Viable room .operand (operand inner) := by
  intro ts h
  cases ts with
  | nil => exact ⟨_, _, (one_phrase room true).loosen (by decide)⟩
  | cons t ts =>
    simp only [operand] at h
    split at h
    · obtain ⟨us, e, phrase⟩ := power_viable below _ h
      exact ⟨us, e, .lift phrase⟩
    · next op sign =>
      simp only [bind_eq_error, enter_ne_incomplete, false_or, Prod.exists, pure_eq_ok] at h
      obtain ⟨q, found, out | ⟨_, _, _, ⟨⟩⟩⟩ := h
      obtain ⟨n, rfl, -, viable⟩ := below q (enter_eq_ok.mp found)
      obtain ⟨us, e, phrase⟩ := viable ts out
      exact ⟨us, _, .unary sign phrase⟩

end

theorem operandBelow_sound (room : Nat) : Sound room .operand (operandBelow room) := by
  induction room with
  | zero =>
    intro ts e rest h
    exact operand_sound (fun q (found : none = some q) => nomatch found) ts e rest (full_eq_ok.mp h)
  | succ room ih =>
    refine operand_sound fun q found => ?_
    cases found
    exact ⟨room, rfl, ih⟩

theorem operandBelow_viable (room : Nat) : Viable room .operand (operandBelow room) := by
  induction room with
  | zero =>
    -- Without room the end of the tokens is blamed on the depth.
    intro ts h
    exact absurd h (full_ne_incomplete _ ts)
  | succ room ih =>
    refine operand_viable fun q found => ?_
    cases found
    exact ⟨room, rfl, operandBelow_sound room, ih⟩

theorem expressionBelow_sound (room : Nat) : Sound room .disjunction (expressionBelow room) :=
  expression_sound (operandBelow_sound room)

theorem expressionBelow_viable (room : Nat) : Viable room .disjunction (expressionBelow room) :=
  expression_viable (operandBelow_sound room) (operandBelow_viable room)

def ViableBlock (room : Nat) (body : Parser (List Statement)) : Prop :=
  ∀ ts, body ts = .error .incomplete → ∃ us items, Block room items (ts ++ us)

def ViableList (room : Nat) (p : Parser (List Statement)) : Prop :=
  ∀ ts, p ts = .error .incomplete → ∃ us items, Statements room items (ts ++ us)

theorem params_viable (bound : List Token) : ∀ {ts : List Token},
    params bound ts = .error .incomplete → ts.length ≤ bound.length → ∃ names, Params names ts := by
  induction bound with
  | nil =>
    intro ts _ len
    obtain rfl := List.eq_nil_of_length_eq_zero (Nat.le_zero.mp len)
    exact ⟨[], .nil⟩
  | cons b bound ih =>
    intro ts h len
    simp only [params] at h
    split at h
    · cases h
    · simp only [bind_eq_error, Prod.exists, expect_eq_incomplete, expect_eq_ok] at h
      rcases h with rfl | ⟨t, us, ⟨rfl, kind⟩, h⟩
      · exact ⟨[], .nil⟩
      · cases own : isGlobalName t.lexeme with
        | true => simp [own] at h
        | false =>
          simp only [own, Bool.false_eq_true, if_false, pure_eq_ok] at h
          split at h
          · cases h
          -- Behind a comma the list may end, so nothing has to be added.
          · next c vs next =>
            obtain ⟨rfl, comma⟩ := next?_eq_some.mp next
            simp only [bind_eq_error, Prod.exists] at h
            rcases h with later | ⟨_, _, _, ⟨⟩⟩
            obtain ⟨names, rest⟩ := ih later (by simp at len; omega)
            exact ⟨_, .more kind own comma rest⟩

section

variable {n : Nat} {expr : Parser Expr} {body : Parser (List Statement)}

theorem emptyBlock : Block (n + 1) [] [mark .leftBrace, mark .rightBrace] :=
  by simpa using Block.braces (l := mark .leftBrace) (r := mark .rightBrace) rfl .nil rfl

theorem block_viable {inner : Option (Parser (List Statement))}
    (below : ∀ q, inner = some q → SoundList n q ∧ ViableList n q) :
    ViableBlock (n + 1) (block inner) := by
  intro ts h
  simp only [block, bind_eq_error, enter_ne_incomplete, false_or, Prod.exists,
    expect_eq_incomplete, expect_eq_ok, enter_eq_ok] at h
  rcases h with rfl | ⟨l, us, ⟨rfl, left⟩, q, found, out | ⟨items, rest, read, rfl | ⟨_, _, _, ⟨⟩⟩⟩⟩
  · exact ⟨_, _, emptyBlock⟩
  · obtain ⟨vs, items, inside⟩ := (below q found).2 us out
    exact ⟨vs ++ [mark .rightBrace], items,
      by simpa using Block.braces (r := mark .rightBrace) left inside rfl⟩
  · obtain ⟨used, rfl, inside, -⟩ := (below q found).1 _ _ _ read
    exact ⟨[mark .rightBrace], items,
      by simpa using Block.braces (r := mark .rightBrace) left inside rfl⟩

variable (value : Sound (n + 1) .disjunction expr) (begun : Viable (n + 1) .disjunction expr)
  (blocks : SoundBlock (n + 1) body) (opened : ViableBlock (n + 1) body)

include begun in
theorem simpleStatement_viable {ts : List Token}
    (h : simpleStatement expr ts = .error .incomplete) :
    ∃ us s, Simple (n + 1) s (ts ++ us) := by
  cases ts with
  | nil => exact ⟨_, _, .expression ((one_phrase (n + 1) true).loosen (by decide))⟩
  | cons t ts =>
    simp only [simpleStatement] at h
    split at h
    · next kind word =>
      cases ts with
      | nil => cases h
      | cons u ts =>
        simp only [Parse.control] at h
        split at h
        · cases h
        · next goes =>
          simp only [bind_eq_error, Prod.exists, pure_eq_ok] at h
          rcases h with out | ⟨_, _, _, ⟨⟩⟩
          obtain rfl : kind = .returnValue :=
            Decidable.byContradiction fun other => goes (.inl other)
          obtain ⟨us, e, phrase⟩ := begun _ out
          exact ⟨us, _, .value word phrase⟩
    · simp only [bind_eq_error, Prod.exists, pure_eq_ok] at h
      rcases h with out | ⟨_, _, _, ⟨⟩⟩
      obtain ⟨us, e, phrase⟩ := begun _ out
      exact ⟨us, _, .expression phrase⟩

include opened in
theorem lastAlternative_viable {ts : List Token}
    (h : lastAlternative body ts = .error .incomplete) :
    ∃ us otherwise, Otherwise (n + 1) otherwise (ts ++ us) := by
  rcases peek_eq h with ⟨⟨⟩, -⟩ | ⟨t, us, rfl, word, h⟩
  simp only [bind_eq_error, Prod.exists] at h
  rcases h with out | ⟨_, _, _, ⟨⟩⟩
  obtain ⟨vs, items, block⟩ := opened us out
  exact ⟨vs, _, .block word block⟩

include value begun blocks opened

theorem alternatives_viable (bound : List Token) : ∀ {ts : List Token},
    alternatives expr body bound ts = .error .incomplete → ts.length ≤ bound.length →
    ∃ us otherwise, Otherwise (n + 1) otherwise (ts ++ us) := by
  induction bound with
  | nil => exact fun h _ => lastAlternative_viable opened h
  | cons b bound ih =>
    intro ts h len
    rcases peek_eq h with ⟨h, -⟩ | ⟨t, us, rfl, word, h⟩
    · exact lastAlternative_viable opened h
    · simp only [bind_eq_error, Prod.exists] at h
      rcases h with out | ⟨c, vs, read, out | ⟨items, ws, read', out | ⟨_, _, _, ⟨⟩⟩⟩⟩
      · obtain ⟨ws, c, phrase⟩ := begun us out
        exact ⟨_, _, by simpa using Otherwise.branch word phrase emptyBlock .nothing⟩
      · obtain ⟨used, last, rfl, phrase, -⟩ := value _ _ _ read
        obtain ⟨ws, items, block⟩ := opened vs out
        exact ⟨ws, _, by simpa using Otherwise.branch word phrase.atEnd block .nothing⟩
      · obtain ⟨used, last, rfl, phrase, -⟩ := value _ _ _ read
        obtain ⟨used', rfl, block⟩ := blocks _ _ _ read'
        obtain ⟨xs, otherwise, rest⟩ := ih out (by simp at len; omega)
        exact ⟨xs, _, by simpa using Otherwise.branch word phrase.atEnd block rest⟩

theorem branch_viable {t : Token} (word : t.kind = .keyword .branch) {pos : Position}
    {ts : List Token} (h : branch expr body pos ts = .error .incomplete) :
    ∃ us s, Compound (n + 1) s (t :: (ts ++ us)) := by
  simp only [branch_eq, bind_eq_error, Prod.exists] at h
  rcases h with out | ⟨c, vs, read, out | ⟨items, ws, read', out | ⟨_, _, _, ⟨⟩⟩⟩⟩
  · obtain ⟨us, c, phrase⟩ := begun ts out
    exact ⟨_, _, by simpa using Compound.branch word phrase emptyBlock .nothing⟩
  · obtain ⟨used, last, rfl, phrase, -⟩ := value _ _ _ read
    obtain ⟨us, items, block⟩ := opened vs out
    exact ⟨us, _, by simpa using Compound.branch word phrase.atEnd block .nothing⟩
  · obtain ⟨used, last, rfl, phrase, -⟩ := value _ _ _ read
    obtain ⟨used', rfl, block⟩ := blocks _ _ _ read'
    obtain ⟨us, otherwise, rest⟩ :=
      alternatives_viable value begun blocks opened ws out (Nat.le_refl _)
    exact ⟨us, _, by simpa using Compound.branch word phrase.atEnd block rest⟩

omit blocks in
theorem loop_viable {t : Token} (word : t.kind = .keyword .loop) {pos : Position}
    {ts : List Token} (h : loop expr body pos ts = .error .incomplete) :
    ∃ us s, Compound (n + 1) s (t :: (ts ++ us)) := by
  simp only [loop, bind_eq_error, Prod.exists, pure_eq_ok] at h
  rcases h with out | ⟨c, vs, read, out | ⟨_, _, _, ⟨⟩⟩⟩
  · obtain ⟨us, c, phrase⟩ := begun ts out
    exact ⟨_, _, by simpa using Compound.loop word phrase emptyBlock⟩
  · obtain ⟨used, last, rfl, phrase, -⟩ := value _ _ _ read
    obtain ⟨us, items, block⟩ := opened vs out
    exact ⟨us, _, by simpa using Compound.loop word phrase.atEnd block⟩

omit value begun blocks in
theorem function_viable {t : Token} (word : t.kind = .keyword .function) {ts : List Token}
    (h : function body ts = .error .incomplete) :
    ∃ us s, Compound (n + 1) s (t :: (ts ++ us)) := by
  -- Wherever the tokens end in front of the body, an empty one completes the definition.
  have whole {f l : Token} (name : f.kind = .identifier) (left : l.kind = .leftParen)
      {names : List Identifier} {used : List Token} (params : Params names used) :
      Compound (n + 1) (.function ⟨f.lexeme, f.pos⟩ names [])
        (t :: f :: l :: (used ++ [mark .rightParen, mark .leftBrace, mark .rightBrace])) :=
    .function (r := mark .rightParen) word name left params rfl emptyBlock
  simp only [function, bind_eq_error, Prod.exists, expect_eq_incomplete, expect_eq_ok, pure_eq_ok]
    at h
  rcases h with rfl | ⟨f, _, ⟨rfl, name⟩, rfl | ⟨l, us, ⟨rfl, left⟩, h⟩⟩
  · exact ⟨_, _, whole (f := mark .identifier) (l := mark .leftParen) rfl rfl .nil⟩
  · exact ⟨_, _, whole (l := mark .leftParen) name rfl .nil⟩
  · rcases h with out | ⟨names, rest, read, h⟩
    · obtain ⟨names, params⟩ := params_viable us out (Nat.le_refl _)
      exact ⟨_, _, whole name left params⟩
    · obtain ⟨used, rfl, params⟩ := params_sound us read
      rcases h with rfl | ⟨r, vs, ⟨rfl, right⟩, out | ⟨_, _, _, ⟨⟩⟩⟩
      · exact ⟨_, _, by simpa using whole name left params⟩
      · obtain ⟨ws, items, block⟩ := opened vs out
        exact ⟨ws, _, by simpa using Compound.function word name left params right block⟩

theorem blockStatement_viable {t : Token} {ts : List Token} {parser : Parser Statement}
    (found : blockStatement? expr body t = some parser) (h : parser ts = .error .incomplete) :
    ∃ us s, Compound (n + 1) s (t :: (ts ++ us)) := by
  rcases blockStatement?_eq_some found with ⟨word, rfl⟩ | ⟨word, rfl⟩ | ⟨word, rfl⟩
  · exact branch_viable value begun blocks opened word h
  · exact loop_viable value begun opened word h
  · exact function_viable opened word h

omit value begun blocks opened in
theorem statements_cons_eq_incomplete {b t : Token} {bound ts : List Token}
    (h : statements expr body (b :: bound) (t :: ts) = .error .incomplete) :
    (∃ parser, blockStatement? expr body t = some parser ∧
      (parser ts = .error .incomplete ∨ ∃ s us, parser ts = .ok (s, us) ∧
        statements expr body bound (skipSemicolon us) = .error .incomplete)) ∨
    simpleStatement expr (t :: ts) = .error .incomplete ∨
    ∃ s u us, simpleStatement expr (t :: ts) = .ok (s, u :: us) ∧ u.kind = .semicolon ∧
      statements expr body bound us = .error .incomplete := by
  by_cases brace : t.kind = .rightBrace
  · rw [statements_stop _ (by simpa using brace)] at h
    cases h
  · cases found : blockStatement? expr body t with
    | some parser =>
      refine .inl ⟨parser, rfl, ?_⟩
      simp only [statements, if_neg brace, found, bind_eq_error, Prod.exists, pure_eq_ok] at h
      rcases h with out | ⟨s, us, read, out | ⟨_, _, _, ⟨⟩⟩⟩
      · exact .inl out
      · exact .inr ⟨s, us, read, out⟩
    | none =>
      rw [statements_of_simple bound ts brace found, bind_eq_error] at h
      refine .inr (h.imp_right ?_)
      rintro ⟨⟨s, us⟩, read, h⟩
      cases us with
      | nil => cases h
      | cons u us =>
        simp only [behindSimple] at h
        split at h
        · next sign =>
          simp only [bind_eq_error] at h
          rcases h with out | ⟨_, _, ⟨⟩⟩
          exact ⟨s, u, us, read, sign, out⟩
        · split at h <;> cases h

theorem statements_viable (bound : List Token) : ∀ {ts : List Token},
    statements expr body bound ts = .error .incomplete → ts.length ≤ bound.length →
    ∃ us items, Statements (n + 1) items (ts ++ us) := by
  induction bound with
  | nil =>
    intro ts h
    cases h
  | cons b bound ih =>
    intro ts h len
    cases ts with
    | nil => cases h
    | cons t ts =>
      rcases statements_cons_eq_incomplete h with ⟨parser, found, out | ⟨s, us, read, out⟩⟩ | out |
        ⟨s, u, us, read, sign, out⟩
      · obtain ⟨us, s, statement⟩ := blockStatement_viable value begun blocks opened found out
        exact ⟨us, _, by simpa using Statements.compound statement .nil⟩
      · obtain ⟨used, rfl, statement⟩ := blockStatement_sound value blocks found read
        rcases skipSemicolon_cases us with same | ⟨u, eq, sign⟩
        · rw [same] at out
          obtain ⟨vs, items, rest⟩ := ih out (by simp at len; omega)
          exact ⟨vs, _, by simpa using Statements.compound statement rest⟩
        · have shorter := congrArg List.length eq
          obtain ⟨vs, items, rest⟩ := ih out (by simp at len shorter; omega)
          refine ⟨vs, s :: items, ?_⟩
          rw [eq]
          simpa using Statements.separated statement sign rest
      · obtain ⟨us, s, statement⟩ := simpleStatement_viable begun out
        exact ⟨us, _, .last statement⟩
      · obtain ⟨used, eq, statement⟩ := simpleStatement_sound value read
        have shorter := congrArg List.length eq
        obtain ⟨vs, items, rest⟩ := ih out (by simp at len shorter; omega)
        refine ⟨vs, s :: items, ?_⟩
        rw [eq]
        simpa using Statements.simple statement sign rest

end

theorem statementsBelow_sound (room : Nat) : SoundList room (statementsBelow room) := by
  induction room with
  | zero =>
    intro ts items rest h
    exact list_sound (expressionBelow_sound 0)
      (fun q (found : none = some q) => nomatch found)
      ts items rest (full_eq_ok.mp h)
  | succ room ih =>
    refine list_sound (expressionBelow_sound (room + 1)) fun q found => ?_
    cases found
    exact ⟨room, rfl, ih⟩

theorem statementsBelow_viable (room : Nat) : ViableList room (statementsBelow room) := by
  induction room with
  | zero =>
    intro ts h
    exact absurd h (full_ne_incomplete _ ts)
  | succ room ih =>
    intro ts h
    have below (q : Parser (List Statement)) (found : some (statementsBelow room) = some q) :
        SoundList room q ∧ ViableList room q := by
      cases found
      exact ⟨statementsBelow_sound room, ih⟩
    exact statements_viable (expressionBelow_sound _) (expressionBelow_viable _)
      (block_sound fun q found => ⟨room, rfl, (below q found).1⟩) (block_viable below) ts h
      (Nat.le_refl _)

theorem toEnd_eq_incomplete {α : Type} {p : Parser α} {ts : List Token} :
    toEnd p ts = .error .incomplete ↔ p ts = .error .incomplete := by
  cases read : p ts with
  | error e => simp [toEnd, read]
  | ok r =>
    obtain ⟨a, rest⟩ := r
    cases rest <;> simp [toEnd, read, unexpected]

theorem programBelow_viable {room : Nat} {ts : List Token}
    (h : programBelow room ts = .error .incomplete) :
    ∃ us items, programWithin room (ts ++ us) = .ok items := by
  obtain ⟨us, items, inside⟩ := statementsBelow_viable room ts (toEnd_eq_incomplete.mp h)
  exact ⟨us, items, programWithin_eq_ok.mpr inside⟩

theorem soleExpressionBelow_viable {room : Nat} {ts : List Token}
    (h : soleExpressionBelow room ts = .error .incomplete) :
    ∃ us e, soleExpressionWithin room (ts ++ us) = .ok e := by
  have out := toEnd_eq_incomplete.mp h
  simp only [bind_eq_error] at out
  rcases out with out | ⟨_, _, ⟨⟩⟩
  obtain ⟨us, e, phrase⟩ := expressionBelow_viable room ts out
  exact ⟨us, e, soleExpressionWithin_eq_ok.mpr ⟨ts ++ us, phrase, .inl rfl⟩⟩

end Grammar

open Parse in
/-- Running out of tokens means that more of them complete the input, unless it happens where as
many constructs are open as may be. -/
theorem incomplete_repairable_error_final (ts : List Token) :
    ((programBelow maxNesting ts = .error .incomplete → parseProgram ts = .error .incomplete ∧
        ∃ us items, parseProgram (ts ++ us) = .ok items) ∧
      ∀ pos fault, parseProgram ts = .error (.located pos fault) → fault ≠ .nestedTooDeeply →
        ∀ us, parseProgram (ts ++ us) = .error (.located pos fault)) ∧
    (soleExpressionBelow maxNesting ts = .error .incomplete →
        parseExpression ts = .error .incomplete ∧
        ∃ us e, parseExpression (ts ++ us) = .ok e) ∧
      ∀ pos fault, parseExpression ts = .error (.located pos fault) → fault ≠ .nestedTooDeeply →
        ∀ us, parseExpression (ts ++ us) = .error (.located pos fault) := by
  refine ⟨⟨fun below => ⟨?_, Grammar.programBelow_viable below⟩,
      fun pos fault failed other us => programWithin_fails failed other us⟩,
    fun below => ⟨?_, Grammar.soleExpressionBelow_viable below⟩,
    fun pos fault failed other us => soleExpressionWithin_fails failed other us⟩
  · rcases programBelow_agrees maxNesting ts with same | ⟨pos, deep⟩
    · exact same.symm.trans below
    · cases deep.symm.trans below
  · rcases soleExpressionBelow_agrees maxNesting ts with same | ⟨pos, deep⟩
    · exact same.symm.trans below
    · cases deep.symm.trans below

open Parse in
theorem incomplete_repairable_error_final_sample :
    let word : Token := ⟨.keyword .loop, default, "while", none⟩
    let left : Token := ⟨.leftParen, default, "(", none⟩
    let right : Token := ⟨.rightParen, ⟨1, 7⟩, ")", none⟩
    (∃ us items, parseProgram ([word, left] ++ us) = .ok items) ∧
      (∀ us, parseProgram ([word, left, right] ++ us) =
        .error (.located ⟨1, 7⟩ (.unexpectedToken ")"))) ∧
      (∃ us e, parseExpression ([left] ++ us) = .ok e) ∧
      ∀ us, parseExpression ([left, right] ++ us) =
        .error (.located ⟨1, 7⟩ (.unexpectedToken ")")) :=
  ⟨((incomplete_repairable_error_final _).1.1 rfl).2,
    (incomplete_repairable_error_final _).1.2 _ _ rfl (by simp),
    ((incomplete_repairable_error_final _).2.1 rfl).2,
    (incomplete_repairable_error_final _).2.2 _ _ rfl (by simp)⟩

end CalcScript
