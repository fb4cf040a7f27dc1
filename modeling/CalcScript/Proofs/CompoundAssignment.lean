import CalcScript.Proofs.Layout
import CalcScript.Proofs.Room
import CalcScript.Proofs.Turns

set_option autoImplicit false

namespace CalcScript

structure Expansion where
  op : BinaryOp
  target : Token
  sign : Token
  equals : Token
  source : Token
  operator : Token
  left : Token
  right : Token
  target_kind : target.kind = .identifier
  sign_kind : sign.kind = .compound op
  equals_kind : equals.kind = .assign
  source_kind : source.kind = .identifier
  operator_kind : operator.kind = .binary op
  left_kind : left.kind = .leftParen
  right_kind : right.kind = .rightParen
  source_lexeme : source.lexeme = target.lexeme

structure Expansion.Placed extends Expansion where
  source_pos : source.pos = target.pos
  operator_pos : operator.pos = sign.pos

namespace Expansion

def short (x : Expansion) (rest : List Token) : List Token := x.target :: x.sign :: rest

def long (x : Expansion) (value rest : List Token) : List Token :=
  x.target :: x.equals :: x.source :: x.operator :: x.left :: (value ++ x.right :: rest)

def place (x : Expansion) : Placed where
  toExpansion := { x with
    source := { x.source with pos := x.target.pos }
    operator := { x.operator with pos := x.sign.pos } }
  source_pos := rfl
  operator_pos := rfl

theorem unplaced_long (x : Expansion) (value rest : List Token) :
    (x.long value rest).map Token.unplaced = (x.place.long value rest).map Token.unplaced := by
  simp [long, place, Token.unplaced, Token.move]

end Expansion

namespace Grammar

def Closed (rest : List Token) : Prop :=
  ∀ t ∈ rest.head?, t.kind.level? = none ∧ t.kind.extendsName = false

theorem Closed.cons {t : Token} {kind : TokenKind} (sign : t.kind = kind)
    (done : kind.level? = none) (plain : kind.extendsName = false) (rest : List Token) :
    Closed (t :: rest) := by
  rintro u ⟨⟩
  rw [sign]
  exact ⟨done, plain⟩

theorem Closed.ends {level : Level} {used rest : List Token} (closed : Closed rest) :
    Ends level used rest := by
  cases rest with
  | nil => trivial
  | cons t rest =>
    obtain ⟨done, plain⟩ := closed t rfl
    exact .of_level? rest done plain

def NoSign (ts : List Token) : Prop := ∀ t ∈ ts.head?, ∀ op, t.kind ≠ .compound op

namespace NoSign

variable {ts us : List Token}

theorem nil : NoSign [] := nofun

theorem cons {t : Token} {kind : TokenKind} (sign : t.kind = kind)
    (other : ∀ op, kind ≠ .compound op) (rest : List Token) : NoSign (t :: rest) := by
  rintro u ⟨⟩ op
  rw [sign]
  exact other op

theorem of_starts {t : Token} (starts : t.kind.startsStatement = true) (rest : List Token) :
    NoSign (t :: rest) := by
  rintro u ⟨⟩ op kind
  rw [kind] at starts
  cases starts

theorem append (first : NoSign ts) (rest : NoSign us) : NoSign (ts ++ us) := by
  cases ts with
  | nil => exact rest
  | cons t ts => exact first

end NoSign

/-- Wherever the short form stands in the tokens, the long one may stand instead. What it takes as
its value is an expression, and nothing behind that goes on with it. -/
def Expands (x : Expansion.Placed) (last : Bool) (ts : List Token)
    (derives : List Token → Prop) : Prop :=
  ∀ before rest, ts = before ++ x.short rest →
    ∃ e value within, rest = value ++ within ∧ Phrase maxNesting .disjunction true e value ∧
      (∀ after, (last = true → Closed after) → Closed (within ++ after)) ∧
      derives (before ++ x.long value within)

namespace Expands

variable {x : Expansion.Placed} {last first : Bool} {ts us : List Token}
  {derives : List Token → Prop}

theorem plain (none : ∀ t ∈ ts, ∀ op, t.kind ≠ .compound op) : Expands x last ts derives := by
  rintro before rest rfl
  exact absurd x.sign_kind (none x.sign (by simp [Expansion.short]) x.op)

theorem single {t : Token} {kind : TokenKind} (sign : t.kind = kind)
    (other : ∀ op, kind ≠ .compound op) : Expands x last [t] derives :=
  plain (List.forall_mem_singleton.mpr (by rwa [sign]))

theorem nil : Expands x last [] derives := plain (List.forall_mem_nil _)

theorem mono {weaker : List Token → Prop} (h : Expands x last ts derives)
    (imp : ∀ us, derives us → weaker us) : Expands x last ts weaker := by
  intro before rest split
  obtain ⟨e, value, within, same, phrase, closed, derived⟩ := h before rest split
  exact ⟨e, value, within, same, phrase, closed, imp _ derived⟩

theorem split (left : Expands x first ts fun vs => derives (vs ++ us))
    (right : Expands x last us fun vs => derives (ts ++ vs)) (head : NoSign us)
    (closes : first = true → ∀ after, (last = true → Closed after) → Closed (us ++ after)) :
    Expands x last (ts ++ us) derives := by
  intro before rest split
  rcases List.append_eq_append_iff.mp split with ⟨middle, rfl, inside⟩ | ⟨middle, rfl, inside⟩
  · obtain ⟨e, value, within, rfl, phrase, closed, derived⟩ := right middle rest inside
    refine ⟨e, value, within, rfl, phrase, closed, ?_⟩
    rwa [List.append_assoc]
  · obtain _ | ⟨t, _ | ⟨u, within⟩⟩ := middle
    · obtain ⟨e, value, within, rfl, phrase, closed, derived⟩ := right [] rest inside.symm
      rw [List.append_nil] at derived
      exact ⟨e, value, within, rfl, phrase, closed, derived⟩
    · obtain ⟨rfl, rfl⟩ := List.cons.inj inside
      exact absurd x.sign_kind (head x.sign rfl x.op)
    · obtain ⟨rfl, rfl, rfl⟩ : x.target = t ∧ x.sign = u ∧ rest = within ++ us := by
        simpa [Expansion.short] using inside
      obtain ⟨e, value, behind, rfl, phrase, closed, derived⟩ := left before within rfl
      refine ⟨e, value, behind ++ us, List.append_assoc _ _ _, phrase, fun after ends => ?_, ?_⟩
      · rw [List.append_assoc]
        exact closed _ fun atEnd => closes atEnd after ends
      · simpa [Expansion.long] using derived

theorem append (left : Expands x false ts fun vs => derives (vs ++ us))
    (right : Expands x last us fun vs => derives (ts ++ vs)) (head : NoSign us) :
    Expands x last (ts ++ us) derives :=
  split left right head nofun

theorem cons {t : Token} {kind : TokenKind} (sign : t.kind = kind)
    (other : ∀ op, kind ≠ .compound op) (head : NoSign ts)
    (rest : Expands x last ts fun us => derives (t :: us)) : Expands x last (t :: ts) derives :=
  append (single sign other) rest head

theorem closed {t : Token} {kind : TokenKind} (sign : t.kind = kind) (done : kind.level? = none)
    (plain : kind.extendsName = false) (head : NoSign us)
    (left : Expands x true ts fun vs => derives (vs ++ t :: us))
    (right : Expands x last us fun vs => derives (ts ++ t :: vs)) :
    Expands x last (ts ++ t :: us) derives := by
  have other : ∀ op, kind ≠ .compound op := by
    rintro op rfl
    cases plain
  refine split left (cons sign other head right) (.cons sign other us) ?_
  exact fun _ after _ => .cons sign done plain (us ++ after)

end Expands

section

variable {x : Expansion.Placed} {room : Nat}

theorem Phrase.noSign {level : Level} {last : Bool} {e : Expr} {ts : List Token}
    (phrase : Phrase room level last e ts) : NoSign ts := by
  obtain ⟨t, us, rfl, starts, -⟩ := phrase.head
  exact .of_starts (startsStatement_of_startsPhrase starts) us

theorem Arguments.noSign {es : List Expr} {ts : List Token} (h : Arguments room es ts) :
    NoSign ts := by
  obtain ⟨t, us, rfl, starts⟩ := h.head
  exact .of_starts (startsStatement_of_startsPhrase starts) us

theorem Chain.noSign {last : Bool} {chain : List (ComparisonOp × Position × Expr)}
    {ts : List Token} (h : Chain room last chain ts) : NoSign ts := by
  obtain ⟨op, _, _, _, t, us, -, rfl, kind⟩ := h.head
  exact .cons kind nofun us

theorem Params.plain {names : List Identifier} {ts : List Token} (h : Params names ts) :
    ∀ t ∈ ts, ∀ op, t.kind ≠ .compound op := by
  induction h with
  | nil => exact List.forall_mem_nil _
  | last kind _ => exact List.forall_mem_singleton.mpr (by simp [kind])
  | more kind _ comma _ ih =>
    exact List.forall_mem_cons.mpr ⟨by simp [kind], List.forall_mem_cons.mpr ⟨by simp [comma], ih⟩⟩

theorem Params.noSign {names : List Identifier} {ts : List Token} (h : Params names ts) :
    NoSign ts := fun t head => h.plain t (List.mem_of_mem_head? head)

theorem Block.noSign {body : List Statement} {ts : List Token} (h : Block room body ts) :
    NoSign ts := by
  obtain ⟨l, us, rfl, left⟩ := h.head
  exact .cons left nofun us

theorem Block.opens {body : List Statement} {ts : List Token} (h : Block room body ts)
    (rest : List Token) : ∃ l us, ts ++ rest = l :: us ∧ l.kind = .leftBrace := by
  obtain ⟨l, us, rfl, left⟩ := h.head
  exact ⟨l, us ++ rest, rfl, left⟩

theorem Otherwise.noSign {otherwise : Option (List Statement)} {ts : List Token}
    (h : Otherwise room otherwise ts) : NoSign ts := by
  cases h with
  | nothing => exact .nil
  | block word _ => exact .cons word nofun _
  | branch word _ _ _ => exact .cons word nofun _

theorem Statements.noSign {items : List Statement} {ts : List Token}
    (h : Statements room items ts) : NoSign ts := by
  rcases h.head with rfl | ⟨t, us, rfl, starts⟩
  · exact .nil
  · exact .of_starts starts us

theorem Expands.beforeBlock {last : Bool} {ts us : List Token} {derives : List Token → Prop}
    (block : ∃ l vs, us = l :: vs ∧ l.kind = .leftBrace)
    (left : Expands x true ts fun ws => derives (ws ++ us))
    (right : Expands x last us fun ws => derives (ts ++ ws)) :
    Expands x last (ts ++ us) derives := by
  obtain ⟨l, vs, rfl, brace⟩ := block
  exact split left right (.cons brace nofun vs) fun _ after _ => .cons brace rfl rfl (vs ++ after)

-- What a compound assignment stands for is read with two more constructs inside each other.
theorem expanded {e : Expr} {ts : List Token} (value : Phrase room .disjunction true e ts) :
    Phrase (room + 3) .primary true
      (.assignment ⟨x.target.lexeme, x.target.pos⟩
        (.binary x.op (.variable ⟨x.target.lexeme, x.target.pos⟩) e x.sign.pos))
      (x.target :: x.equals :: x.source :: x.operator :: x.left :: (ts ++ [x.right])) := by
  refine .assignment x.target_kind x.equals_kind ?_
  have source {room : Nat} {level : Level} : Phrase room level false
      (.variable ⟨x.target.lexeme, x.target.pos⟩) [x.source] := by
    have phrase : Phrase room .primary false _ [x.source] := .variable x.source_kind
    rw [x.source_lexeme, x.source_pos] at phrase
    exact phrase.loosen (by cases level <;> decide)
  have group {room' : Nat} {level : Level} (le : room < room') :
      Phrase room' level true e (x.left :: (ts ++ [x.right])) := by
    have phrase : Phrase (room + 1) .primary true e _ := .group x.left_kind value x.right_kind
    exact (phrase.mono le).loosen (by cases level <;> decide)
  rw [← x.operator_pos]
  by_cases power : x.op = .power
  · have exponent : Phrase (room + 1) .operand true e _ := group (Nat.lt_succ_self _)
    have whole := Phrase.power source (power ▸ x.operator_kind) exponent
    rw [power]
    exact whole.loosen (by decide)
  · have right : Phrase (room + 2) x.op.level.tighter true e _ := group (by omega)
    have whole := Phrase.binary rfl power source x.operator_kind right
    exact whole.loosen (Nat.zero_le _)

theorem Expands.compound {op : BinaryOp} {e : Expr} {t eq : Token} {ts : List Token}
    (kind : t.kind = .identifier) (sign : eq.kind = .compound op)
    (value : Phrase room .disjunction true e ts) (le : room ≤ maxNesting)
    (inside : Expands x true ts (Phrase (room + 2) .disjunction true e)) :
    Expands x true (t :: eq :: ts) (Phrase (room + 3) .primary true
      (.assignment ⟨t.lexeme, t.pos⟩ (.binary op (.variable ⟨t.lexeme, t.pos⟩) e eq.pos))) := by
  intro before rest split
  obtain _ | ⟨b, _ | ⟨c, before⟩⟩ := before
  · obtain ⟨rfl, rfl, rfl⟩ : t = x.target ∧ eq = x.sign ∧ ts = rest := by
      simpa [Expansion.short] using split
    obtain rfl : x.op = op := by simpa [x.sign_kind] using sign
    exact ⟨e, ts, [], (List.append_nil ts).symm, value.mono le, fun after ends => ends rfl,
      expanded value⟩
  · obtain ⟨rfl, rfl, -⟩ : t = b ∧ eq = x.target ∧ ts = x.sign :: rest := by
      simpa [Expansion.short] using split
    rw [x.target_kind] at sign
    cases sign
  · obtain ⟨rfl, rfl, rfl⟩ : t = b ∧ eq = c ∧ ts = before ++ x.short rest := by
      simpa using split
    obtain ⟨f, inner, within, rfl, phrase, closed, derived⟩ := inside before rest rfl
    exact ⟨f, inner, within, rfl, phrase, closed, .compound kind sign derived⟩

end

section

variable {x : Expansion.Placed}

mutual

theorem Phrase.expands {room : Nat} {level : Level} {last : Bool} {e : Expr} {ts : List Token}
    (le : room ≤ maxNesting) :
    Phrase room level last e ts → Expands x last ts (Phrase (room + 2) level last e)
  | .literal kind _ => by
    rcases kind with kind | kind | kind
    all_goals exact .single kind nofun
  | .variable kind => .single kind nofun
  | .group left inside right => by
    have within := inside.expands (Nat.le_of_succ_le le)
    have head := inside.noSign.append (.cons right nofun [])
    refine .cons left nofun head (.closed right rfl rfl .nil ?_ .nil)
    exact within.mono fun _ h => .group left h right
  | .emptyCall kind left right =>
    .cons kind nofun (.cons left nofun _)
      (.cons left nofun (.cons right nofun _) (.single right nofun))
  | .call kind left inside right => by
    have within := inside.expands (Nat.le_of_succ_le le)
    have head := inside.noSign.append (.cons right nofun [])
    refine .cons kind nofun (.cons left nofun _)
      (.cons left nofun head (.closed right rfl rfl .nil ?_ .nil))
    exact within.mono fun _ h => .call kind left h right
  | .assignment kind sign value => by
    have within := value.expands (Nat.le_of_succ_le le)
    refine .cons kind nofun (.cons sign nofun _) (.cons sign nofun value.noSign ?_)
    exact within.mono fun _ h => .assignment kind sign h
  | .compound kind sign value =>
    .compound kind sign value (Nat.le_of_succ_le le) (value.expands (Nat.le_of_succ_le le))
  | .power base sign exponent => by
    have before := base.expands le
    have behind := exponent.expands (Nat.le_of_succ_le le)
    refine .append ?_ (.cons sign nofun exponent.noSign ?_) (.cons sign nofun _)
    · exact before.mono fun _ h => .power h sign exponent.widen.widen
    · exact behind.mono fun _ h => .power base.widen.widen sign h
  | .unary sign inside => by
    have within := inside.expands (Nat.le_of_succ_le le)
    refine .cons rfl (fun op kind => ?_) inside.noSign (within.mono fun _ h => .unary sign h)
    rw [kind] at sign
    cases sign
  | .binary own leans left sign right => by
    have before := left.expands le
    have behind := right.expands le
    refine .append ?_ (.cons sign nofun right.noSign ?_) (.cons sign nofun _)
    · exact before.mono fun _ h => .binary own leans h sign right.widen.widen
    · exact behind.mono fun _ h => .binary own leans left.widen.widen sign h
  | .logical own left sign right => by
    have before := left.expands le
    have behind := right.expands le
    refine .append ?_ (.cons sign nofun right.noSign ?_) (.cons sign nofun _)
    · exact before.mono fun _ h => .logical own h sign right.widen.widen
    · exact behind.mono fun _ h => .logical own left.widen.widen sign h
  | .comparison first chain => by
    have before := first.expands le
    have behind := chain.expands le
    refine .append ?_ ?_ chain.noSign
    · exact before.mono fun _ h => .comparison h chain.widen.widen
    · exact behind.mono fun _ h => .comparison first.widen.widen h
  | .lift phrase => (phrase.expands le).mono fun _ => .lift

theorem Chain.expands {room : Nat} {last : Bool} {chain : List (ComparisonOp × Position × Expr)}
    {ts : List Token} (le : room ≤ maxNesting) :
    Chain room last chain ts → Expands x last ts (Chain (room + 2) last chain)
  | .last sign operand =>
    .cons sign nofun operand.noSign ((operand.expands le).mono fun _ h => .last sign h)
  | .more sign operand rest => by
    have before := operand.expands le
    have behind := rest.expands le
    refine .cons sign nofun (operand.noSign.append rest.noSign) (.append ?_ ?_ rest.noSign)
    · exact before.mono fun _ h => .more sign h rest.widen.widen
    · exact behind.mono fun _ h => .more sign operand.widen.widen h

theorem Arguments.expands {room : Nat} {es : List Expr} {ts : List Token}
    (le : room ≤ maxNesting) :
    Arguments room es ts → Expands x true ts (Arguments (room + 2) es)
  | .last argument => (argument.expands le).mono fun _ => .last
  | .more argument comma rest => by
    have before := argument.expands le
    have behind := rest.expands le
    refine .closed comma rfl rfl rest.noSign ?_ ?_
    · exact before.mono fun _ h => .more h comma rest.widen.widen
    · exact behind.mono fun _ h => .more argument.widen.widen comma h

end

theorem Simple.expands {room : Nat} {s : Statement} {ts : List Token} (le : room ≤ maxNesting) :
    Simple room s ts → Expands x true ts (Simple (room + 2) s)
  | .expression phrase => (phrase.expands le).mono fun _ => .expression
  | .control word => .single word nofun
  | .value word phrase =>
    .cons word nofun phrase.noSign ((phrase.expands le).mono fun _ => .value word)

mutual

theorem Block.expands {room : Nat} {body : List Statement} {ts : List Token}
    (le : room ≤ maxNesting) : Block room body ts → Expands x false ts (Block (room + 2) body)
  | .braces left inside right => by
    have head := inside.noSign.append (.cons right nofun [])
    refine .cons left nofun head (.closed right rfl rfl .nil ?_ .nil)
    exact (inside.expands (Nat.le_of_succ_le le)).mono fun _ h => .braces left h right

theorem Otherwise.expands {room : Nat} {otherwise : Option (List Statement)} {ts : List Token}
    (le : room ≤ maxNesting) :
    Otherwise room otherwise ts → Expands x false ts (Otherwise (room + 2) otherwise)
  | .nothing => .nil
  | .block word block =>
    .cons word nofun block.noSign ((block.expands le).mono fun _ => .block word)
  | .branch word condition block rest => by
    refine .cons word nofun (condition.noSign.append (block.noSign.append rest.noSign))
      (.beforeBlock (block.opens _) ?_ (.append ?_ ?_ rest.noSign))
    · exact (condition.expands le).mono fun _ h =>
        .branch word h block.widen.widen rest.widen.widen
    · exact (block.expands le).mono fun _ h =>
        .branch word condition.widen.widen h rest.widen.widen
    · exact (rest.expands le).mono fun _ h =>
        .branch word condition.widen.widen block.widen.widen h

theorem Compound.expands {room : Nat} {s : Statement} {ts : List Token}
    (le : room ≤ maxNesting) : Compound room s ts → Expands x false ts (Compound (room + 2) s)
  | .branch word condition block rest => by
    refine .cons word nofun (condition.noSign.append (block.noSign.append rest.noSign))
      (.beforeBlock (block.opens _) ?_ (.append ?_ ?_ rest.noSign))
    · exact (condition.expands le).mono fun _ h =>
        .branch word h block.widen.widen rest.widen.widen
    · exact (block.expands le).mono fun _ h =>
        .branch word condition.widen.widen h rest.widen.widen
    · exact (rest.expands le).mono fun _ h =>
        .branch word condition.widen.widen block.widen.widen h
  | .loop word condition block => by
    refine .cons word nofun (condition.noSign.append block.noSign)
      (.beforeBlock block.head ?_ ?_)
    · exact (condition.expands le).mono fun _ h => .loop word h block.widen.widen
    · exact (block.expands le).mono fun _ h => .loop word condition.widen.widen h
  | .function word name left params right block => by
    refine .cons word nofun (.cons name nofun _) (.cons name nofun (.cons left nofun _)
      (.cons left nofun (params.noSign.append (.cons right nofun _))
        (.append (.plain params.plain) (.cons right nofun block.noSign ?_)
          (.cons right nofun _))))
    exact (block.expands le).mono fun _ h => .function word name left params right h

theorem Statements.expands {room : Nat} {items : List Statement} {ts : List Token}
    (le : room ≤ maxNesting) :
    Statements room items ts → Expands x true ts (Statements (room + 2) items)
  | .nil => .nil
  | .last statement => (statement.expands le).mono fun _ => .last
  | .simple statement separator more => by
    refine .closed separator rfl rfl more.noSign ?_ ?_
    · exact (statement.expands le).mono fun _ h => .simple h separator more.widen.widen
    · exact (more.expands le).mono fun _ h => .simple statement.widen.widen separator h
  | .compound statement more => by
    refine .append ?_ ?_ more.noSign
    · exact (statement.expands le).mono fun _ h => .compound h more.widen.widen
    · exact (more.expands le).mono fun _ h => .compound statement.widen.widen h
  | .separated statement separator more => by
    refine .append ?_ (.cons separator nofun more.noSign ?_) (.cons separator nofun _)
    · exact (statement.expands le).mono fun _ h => .separated h separator more.widen.widen
    · exact (more.expands le).mono fun _ h => .separated statement.widen.widen separator h

end

end

end Grammar

theorem ReadAs.of_unplaced {ts us : List Token} {items : List Statement} (read : ReadAs ts items)
    (same : us.map Token.unplaced = ts.map Token.unplaced) : ReadAs us items := by
  have results := parseProgram_of_unplaced same
  rcases read with ⟨found, parsed, rfl⟩ | ⟨pos, refused⟩
  · rw [parsed] at results
    cases other : parseProgram us with
    | error e =>
      rw [other] at results
      cases results
    | ok again =>
      rw [other] at results
      exact .inl ⟨again, other, Except.ok.inj results⟩
  · rw [refused] at results
    cases other : parseProgram us with
    | ok again =>
      rw [other] at results
      cases results
    | error e =>
      rw [other] at results
      cases e with
      | incomplete => cases results
      | located place fault =>
        obtain rfl : fault = .nestedTooDeeply := by
          simpa [unplacedResult, Except.map, Except.mapError, SyntaxError.unplaced,
            SyntaxError.move] using results
        exact .inr ⟨place, other⟩

theorem Expansion.read (x : Expansion) {before rest : List Token} {items : List Statement}
    (read : parseProgram (before ++ x.short rest) = .ok items) :
    ∃ e value after, rest = value ++ after ∧
      Parse.expressionWithin maxNesting rest = .ok (e, after) ∧
      ReadAs (before ++ x.long value after) (Statement.unplacedAll items) := by
  have program := Grammar.programWithin_eq_ok.mp read
  obtain ⟨e, value, after, rfl, phrase, closed, expanded⟩ :=
    program.expands (Nat.le_refl _) before rest (rfl : _ = before ++ x.place.short rest)
  have ends : Grammar.Closed (after ++ []) := closed [] fun _ => nofun
  rw [List.append_nil] at ends
  refine ⟨e, value, after, rfl, phrase.read ends.ends, expanded.readAs.of_unplaced ?_⟩
  rw [List.map_append, List.map_append, x.unplaced_long]

structure Session.Binds (s : Session) (i : Identifier) (v : Value) (t : Session) : Prop where
  reads : t.lookup i = some v
  outermost : i.isGlobal = true ∨ s.calls = [] → t = { s with globals := s.globals.set i.name v }
  innermost : ∀ frame outer, i.isGlobal = false → s.calls = frame :: outer →
    t = { s with calls := frame.set i.name v :: outer }

theorem Session.bind_binds (s : Session) (i : Identifier) (v : Value) :
    s.Binds i v (s.bind i v) := by
  obtain ⟨globals, _ | ⟨frame, outer⟩, console⟩ := s
  · refine ⟨?_, fun _ => rfl, nofun⟩
    simp [Session.bind, Session.lookup, Session.scope, Scope.get?]
  · cases sigil : i.isGlobal with
    | true =>
      refine ⟨?_, fun _ => ?_, fun _ _ other => ?_⟩
      · simp [Session.bind, Session.lookup, sigil]
      · simp [Session.bind, sigil]
      · rw [sigil] at other
        cases other
    | false =>
      refine ⟨?_, fun out => ?_, fun _ _ _ frames => ?_⟩
      · simp [Session.bind, Session.lookup, Session.scope, Scope.get?, sigil]
      · simp [sigil] at out
      · cases frames
        simp [Session.bind, sigil]

namespace Eval

variable {i j : Identifier} {v : Value} {s : Session}

theorem named_of_bound (own : isBuiltinName i.name = false) (bound : s.lookup i = some v) :
    named i s = (.ok v, s) := by
  simp [named, own, lookup, bind_apply, bound]

theorem named_of_unbound (own : isBuiltinName i.name = false) (unbound : s.lookup i = none) :
    named i s = (.error (.error (.name i.pos (.variable i.name))), s) := by
  simp [named, own, lookup, bind_apply, unbound, fail, interrupt]

end Eval

theorem Session.lookup_of_name {i j : Identifier} (same : j.name = i.name) (s : Session) :
    s.lookup j = s.lookup i := by
  rw [lookup, lookup, Identifier.isGlobal, Identifier.isGlobal, same]

namespace Traced

section

variable (nest : Nesting) (caller : Caller) (i j : Identifier) (op : BinaryOp) (e : Expr)
  (pos : Position)

def expanded : Expr := .assignment i (.binary op (.variable j) e pos)

def begins (s : Session) : List Event :=
  [expanded i j op e pos, .binary op (.variable j) e pos, .variable j].map
    fun e => ⟨nest, .expression e, s⟩

def finish (v : Value) : Traced Value := do
  Eval.bindName i v
  return v

def operate (old : Value) : Traced Value := do
  let v ← expression nest caller e
  (Eval.ofExcept (Arithmetic.binary op old v pos) : Eval Value)

end

section

variable {nest : Nesting} {caller : Caller} {i j : Identifier} {op : BinaryOp} {e : Expr}
  {pos : Position} {s t : Session} {k : Interrupt} {old v : Value}

theorem expanded_eq (own : isBuiltinName i.name = false) :
    expression nest caller (expanded i j op e pos) =
      enter nest (.expression (expanded i j op e pos))
        (enter nest (.expression (.binary op (.variable j) e pos))
            (enter nest (.expression (.variable j)) (Eval.named j : Eval Value) >>=
              operate nest caller op e pos) >>= finish i) := by
  rw [expanded, expression, if_neg (by simp [own]), expression, expression]
  rfl

theorem expanded_of_unbound (own : isBuiltinName i.name = false) (same : j.name = i.name)
    (unbound : s.lookup i = none) :
    GoesOn (expression nest caller (expanded i j op e pos)) s (begins nest i j op e pos s)
      (Eval.fail (.name j.pos (.variable i.name)) : Eval Value) s := by
  rw [← Session.lookup_of_name same] at unbound
  have missing : (enter nest (.expression (.variable j)) (Eval.named j : Eval Value)).eval s = _ :=
    Eval.named_of_unbound (same ▸ own) unbound
  rw [expanded_eq own, ← same]
  exact (((GoesOn.of_interrupt missing _).enter nest _).bind _).enter nest _

theorem expanded_of_bound (own : isBuiltinName i.name = false) (same : j.name = i.name)
    (bound : s.lookup i = some old) :
    GoesOn (expression nest caller (expanded i j op e pos)) s (begins nest i j op e pos s)
      (operate nest caller op e pos old >>= finish i) s := by
  rw [← Session.lookup_of_name same] at bound
  have found : (enter nest (.expression (.variable j)) (Eval.named j : Eval Value)).eval s = _ :=
    Eval.named_of_bound (same ▸ own) bound
  rw [expanded_eq own]
  exact (((GoesOn.of_value found _).enter nest _).bind _).enter nest _

theorem operate_of_interrupt (failed : (expression nest caller e).eval s = (.error k, t)) :
    GoesOn (operate nest caller op e pos old >>= finish i) s ((expression nest caller e).trace s)
      (Eval.interrupt k : Eval Value) t :=
  (GoesOn.of_interrupt failed _).bind (finish i)

theorem operate_of_value (value : (expression nest caller e).eval s = (.ok v, t)) :
    GoesOn (operate nest caller op e pos old >>= finish i) s ((expression nest caller e).trace s)
      ((Eval.ofExcept (Arithmetic.binary op old v pos) : Eval Value) >>= finish i) t :=
  (GoesOn.of_value value _).bind (finish i)

theorem operate_trace (i : Identifier) : (operate nest caller op e pos old >>= finish i).trace s =
    (expression nest caller e).trace s := by
  rcases here : (expression nest caller e).eval s with ⟨k | v, t⟩
  · exact (operate_of_interrupt here).trace.trans (List.append_nil _)
  · refine (operate_of_value here).trace.trans ?_
    cases Arithmetic.binary op old v pos <;> exact List.append_nil _

end

end Traced

/-- In a program, `x op= R` with all that is taken as its `R` may be written `x = x op (R)`. -/
theorem compound_assignment_expanded :
    (∀ (x : Expansion) (before rest : List Token) (items : List Statement),
      parseProgram (before ++ x.short rest) = .ok items →
      ∃ e value after, rest = value ++ after ∧
        Parse.expressionWithin maxNesting rest = .ok (e, after) ∧
        ReadAs (before ++ x.long value after) (Statement.unplacedAll items)) ∧
    ∀ (nest : Nesting) (caller : Traced.Caller) (i j : Identifier) (op : BinaryOp) (e : Expr)
      (pos : Position) (s : Session), j.name = i.name → isBuiltinName i.name = false →
      let whole : Expr := .assignment i (.binary op (.variable j) e pos)
      let trace := (Traced.expression nest caller whole).trace s
      (s.lookup i = none → trace = Traced.begins nest i j op e pos s ∧
        Eval.expression caller.eval whole s =
          (.error (.error (.name j.pos (.variable i.name))), s)) ∧
      ∀ old, s.lookup i = some old →
        trace = Traced.begins nest i j op e pos s ++ (Traced.expression nest caller e).trace s ∧
        (∀ k t, Eval.expression caller.eval e s = (.error k, t) →
          Eval.expression caller.eval whole s = (.error k, t)) ∧
        ∀ v t, Eval.expression caller.eval e s = (.ok v, t) →
          (∀ fault, Arithmetic.binary op old v pos = .error fault →
            Eval.expression caller.eval whole s = (.error (.error fault), t)) ∧
          ∀ w, Arithmetic.binary op old v pos = .ok w →
            ∃ u, Eval.expression caller.eval whole s = (.ok w, u) ∧ t.Binds i w u := by
  refine ⟨fun x before rest items read => x.read read, ?_⟩
  intro nest caller i j op e pos s same own whole trace
  simp only [← Traced.eval_expression nest]
  constructor
  · intro unbound
    have goesOn : Traced.GoesOn (Traced.expression nest caller whole) s _ _ s :=
      Traced.expanded_of_unbound own same unbound
    exact ⟨goesOn.trace.trans (List.append_nil _), goesOn.eval⟩
  · intro old bound
    have goesOn : Traced.GoesOn (Traced.expression nest caller whole) s _ _ s :=
      Traced.expanded_of_bound own same bound
    refine ⟨goesOn.trace.trans (congrArg _ (Traced.operate_trace i)),
      fun k t failed => (goesOn.trans (Traced.operate_of_interrupt failed)).eval, ?_⟩
    intro v t value
    have behind := goesOn.trans (Traced.operate_of_value value)
    refine ⟨fun fault failed => ?_, fun w done => ⟨t.bind i w, ?_, t.bind_binds i w⟩⟩
    · rw [failed] at behind
      exact behind.eval
    · rw [done] at behind
      exact behind.eval

theorem compound_assignment_expanded_or :
    let sign (kind : TokenKind) : Token := ⟨kind, default, "", none⟩
    let number (n : Int64) : Token := ⟨.integer, default, "", some (.int n)⟩
    let name : Token := ⟨.identifier, default, "x", none⟩
    let x : Identifier := ⟨"x", default⟩
    let int (n : Int64) : Expr := .literal (.int n) default
    let either : Expr := .logical .or (int 2) (int 3) default
    let set (op : BinaryOp) (e : Expr) : Expr :=
      .assignment x (.binary op (.variable x) e default)
    let s : Session := ⟨Frame.empty.set "x" (.int 3), [], .ofInput []⟩
    let run := Eval.expression (Traced.call 0 1 []).eval
    ReadAs ([number 1, sign (.binary .add)] ++ name :: sign .assign :: name ::
      sign (.binary .multiply) :: sign .leftParen ::
      ([number 2, sign (.logical .or), number 3] ++ [sign .rightParen, sign .semicolon]))
      [.expression (.binary .add (int 1) (set .multiply either) default)] ∧
    (∃ u, run (set .multiply (.assignment x (int 4))) s = (.ok (.int 12), u) ∧
      u.lookup x = some (.int 12)) ∧
    ∃ fault u, run (set .add (.assignment x (.literal (.string "a") default))) s =
      (.error (.error fault), u) ∧ u.lookup x = some (.string "a") := by
  intro sign number name x int either set s run
  let exchange : Expansion :=
    ⟨.multiply, name, sign (.compound .multiply), sign .assign, name, sign (.binary .multiply),
      sign .leftParen, sign .rightParen, rfl, rfl, rfl, rfl, rfl, rfl, rfl, rfl⟩
  let rest := [number 2, sign (.logical .or), number 3] ++ [sign .semicolon]
  obtain ⟨reads, runs⟩ := compound_assignment_expanded
  have bound : s.lookup x = some (.int 3) := by
    simp [s, x, Session.lookup, Session.scope, Scope.get?]
  refine ⟨?_, ?_, ?_⟩
  · obtain ⟨e, value, after, split, found, read⟩ :=
      reads exchange [number 1, sign (.binary .add)] rest
        [.expression (.binary .add (int 1) (set .multiply either) default)] rfl
    have known : Parse.expressionWithin maxNesting rest = .ok (either, [sign .semicolon]) := rfl
    rw [known] at found
    cases found
    obtain rfl := List.append_cancel_right split
    exact read
  · have loaded := (runs ⟨[], 1⟩ (Traced.call 0 1 []) x x .multiply (.assignment x (int 4))
      default s rfl rfl).2 _ bound
    obtain ⟨u, evaluated, binds⟩ := (loaded.2.2 (.int 4) _ rfl).2 (.int 12) rfl
    exact ⟨u, evaluated, binds.reads⟩
  · have loaded := (runs ⟨[], 1⟩ (Traced.call 0 1 []) x x .add
      (.assignment x (.literal (.string "a") default)) default s rfl rfl).2 _ bound
    exact ⟨_, _, (loaded.2.2 (.string "a") _ rfl).1 _ rfl, (s.bind_binds x _).reads⟩

end CalcScript
