import CalcScript.Proofs.Printing

set_option autoImplicit false

namespace CalcScript

namespace Printout

def Spells (p : Printout) (room : Nat) (ts : List Token) : Prop :=
  p.depth ≤ room ∧ ts.map Token.bare = p.tokens

theorem spells_append {p q : Printout} {room : Nat} {ts : List Token} :
    (p ++ q).Spells room ts ↔ ∃ us vs, ts = us ++ vs ∧ p.Spells room us ∧ q.Spells room vs := by
  constructor
  · rintro ⟨depth, eq⟩
    obtain ⟨us, vs, rfl, left, right⟩ := List.map_eq_append_iff.mp eq
    have le : max p.depth q.depth ≤ room := depth
    exact ⟨us, vs, rfl, ⟨by omega, left⟩, ⟨by omega, right⟩⟩
  · rintro ⟨us, vs, rfl, ⟨le, left⟩, ⟨le', right⟩⟩
    refine ⟨Nat.max_le.mpr ⟨le, le'⟩, ?_⟩
    rw [List.map_append, left, right]
    rfl

theorem spells_inside {p : Printout} {room : Nat} {ts : List Token} :
    p.inside.Spells room ts ↔ ∃ less, room = less + 1 ∧ p.Spells less ts := by
  constructor
  · rintro ⟨depth, eq⟩
    have le : p.depth + 1 ≤ room := depth
    exact ⟨room - 1, by omega, by omega, eq⟩
  · rintro ⟨less, rfl, le, eq⟩
    exact ⟨Nat.succ_le_succ le, eq⟩

theorem spells_nil {room : Nat} {ts : List Token} : nil.Spells room ts ↔ ts = [] := by
  simp [Spells, nil]

theorem spells_single {kind : TokenKind} {lexeme : String} {literal : Option Literal} {room : Nat}
    {ts : List Token} (h : (single kind lexeme literal).Spells room ts) :
    ∃ t, ts = [t] ∧ t.kind = kind ∧ t.literal = literal ∧
      (kind = .identifier → t.lexeme = lexeme) := by
  obtain ⟨t, rfl, eq⟩ := List.map_eq_singleton_iff.mp h.2
  refine ⟨t, rfl, congrArg Token.kind eq, congrArg Token.literal eq, fun name => ?_⟩
  have same : t.kind = .identifier := (congrArg Token.kind eq).trans name
  simpa [Token.bare, same] using congrArg Token.lexeme eq

theorem spells_sign {kind : TokenKind} {room : Nat} {ts : List Token}
    (h : (sign kind).Spells room ts) : ∃ t, ts = [t] ∧ t.kind = kind := by
  obtain ⟨t, rfl, same, -⟩ := spells_single h
  exact ⟨t, rfl, same⟩

theorem spells_name {x : Identifier} {room : Nat} {ts : List Token}
    (h : (name x).Spells room ts) : ∃ t, ts = [t] ∧ t.kind = .identifier ∧ t.lexeme = x.name := by
  obtain ⟨t, rfl, same, -, lexeme⟩ := spells_single h
  exact ⟨t, rfl, same, lexeme rfl⟩

theorem spells_sign_append {kind : TokenKind} {p : Printout} {room : Nat} {ts : List Token}
    (h : (sign kind ++ p).Spells room ts) :
    ∃ t us, ts = t :: us ∧ t.kind = kind ∧ p.Spells room us := by
  obtain ⟨_, us, rfl, first, rest⟩ := spells_append.mp h
  obtain ⟨t, rfl, same⟩ := spells_sign first
  exact ⟨t, us, rfl, same, rest⟩

theorem spells_name_append {x : Identifier} {p : Printout} {room : Nat} {ts : List Token}
    (h : (name x ++ p).Spells room ts) :
    ∃ t us, ts = t :: us ∧ t.kind = .identifier ∧ t.lexeme = x.name ∧ p.Spells room us := by
  obtain ⟨_, us, rfl, first, rest⟩ := spells_append.mp h
  obtain ⟨t, rfl, same, lexeme⟩ := spells_name first
  exact ⟨t, us, rfl, same, lexeme, rest⟩

theorem spells_between {left right : TokenKind} {p : Printout} {room : Nat} {ts : List Token}
    (h : (sign left ++ (p.inside ++ sign right)).Spells room ts) :
    ∃ less l us r, room = less + 1 ∧ ts = l :: (us ++ [r]) ∧ l.kind = left ∧ p.Spells less us ∧
      r.kind = right := by
  obtain ⟨l, us, rfl, first, h⟩ := spells_sign_append h
  obtain ⟨us, vs, rfl, opened, h⟩ := spells_append.mp h
  obtain ⟨less, rfl, inner⟩ := spells_inside.mp opened
  obtain ⟨r, rfl, last⟩ := spells_sign h
  exact ⟨less, l, us, r, rfl, rfl, first, inner, last⟩

end Printout

open Printout Grammar

theorem UnaryOp.unaryOp?_kind (op : UnaryOp) : op.kind.unaryOp? = some op := by
  cases op <;> rfl

theorem Identifier.unplaced_eq {t : Token} {x : Identifier} (lexeme : t.lexeme = x.name) :
    (⟨t.lexeme, t.pos⟩ : Identifier).unplaced = x.unplaced := by
  simp [Identifier.unplaced, lexeme]

def Expr.Readable (e : Expr) (level : Level) (last : Bool) (p : Printout) : Prop :=
  ∀ room ts, p.Spells room ts → ∃ f, Phrase room level last f ts ∧ f.unplaced = e.unplaced

namespace Expr

theorem Readable.grouped {e : Expr} {p : Printout} (h : e.Readable .disjunction true p)
    (last : Bool) (pairs : Nat) : e.Readable .primary last (p.grouped (pairs + 1)) := by
  induction pairs generalizing last with
  | zero =>
    intro room ts spells
    obtain ⟨less, l, us, r, rfl, rfl, left, inner, right⟩ := spells_between spells
    obtain ⟨f, phrase, same⟩ := h _ _ inner
    exact ⟨f, .group left phrase right, same⟩
  | succ pairs ih =>
    intro room ts spells
    obtain ⟨less, l, us, r, rfl, rfl, left, inner, right⟩ := spells_between spells
    obtain ⟨f, phrase, same⟩ := ih true _ _ inner
    exact ⟨f, .group left (phrase.loosen (by decide)) right, same⟩

theorem fits_iff {e : Expr} {level : Level} {last : Bool} :
    e.fits level last = true ↔
      level.rank ≤ e.level.rank ∧ (e.isAssignment = true → last = true) := by
  cases last <;> cases plain : e.isAssignment <;> simp [fits, plain]

theorem readable_enclose {style : Style} {e : Expr} {level : Level} {last : Bool}
    {bare : Bool → Printout}
    (h : ∀ last, (e.isAssignment = true → last = true) → e.Readable e.level last (bare last)) :
    e.Readable level last (enclose style e level last bare) := by
  intro room ts spells
  unfold enclose at spells
  cases found : style.parens [] + (if e.fits level last then 0 else 1) with
  | zero =>
    rw [found] at spells
    have fits : e.fits level last = true := by
      cases fits : e.fits level last with
      | true => rfl
      | false => simp [fits] at found
    obtain ⟨le, plain⟩ := fits_iff.mp fits
    obtain ⟨f, phrase, same⟩ := h last plain _ _ spells
    exact ⟨f, phrase.loosen le, same⟩
  | succ pairs =>
    rw [found] at spells
    have inner : e.Readable .disjunction true (bare true) := by
      intro room ts spells
      obtain ⟨f, phrase, same⟩ := h true (fun _ => rfl) _ _ spells
      exact ⟨f, phrase.loosen (Nat.zero_le _), same⟩
    obtain ⟨f, phrase, same⟩ := inner.grouped last pairs _ _ spells
    exact ⟨f, phrase.loosen (by cases level <;> decide), same⟩

theorem readable_infix {room : Nat} {level right : Level} {last : Bool} {l r : Expr}
    {p q : Printout} {kind : TokenKind} {ts : List Token} (left : l.Readable level false p)
    (behind : r.Readable right last q) (spells : (p ++ (sign kind ++ q)).Spells room ts) :
    ∃ l' r' us t vs, ts = us ++ t :: vs ∧ t.kind = kind ∧ Phrase room level false l' us ∧
      Phrase room right last r' vs ∧ l'.unplaced = l.unplaced ∧ r'.unplaced = r.unplaced := by
  obtain ⟨us, _, rfl, first, spells⟩ := spells_append.mp spells
  obtain ⟨t, vs, rfl, sign, second⟩ := spells_sign_append spells
  obtain ⟨l', phrase, same⟩ := left _ _ first
  obtain ⟨r', phrase', same'⟩ := behind _ _ second
  exact ⟨l', r', us, t, vs, rfl, sign, phrase, phrase', same, same'⟩

theorem bare_binary {style : Style} {op : BinaryOp} {l r : Expr} {pos : Position} {last : Bool}
    (leans : op ≠ .power) : bare style (.binary op l r pos) last =
      enclose (style.below 0) l op.level false (bare (style.below 0) l) ++ (sign (.binary op) ++
        enclose (style.below 1) r op.level.tighter last (bare (style.below 1) r)) := by
  cases op <;> first | rfl | exact absurd rfl leans

mutual

-- The recursion is that of the printer; what is enclosed is read back at its own level first.
theorem bare_readable (style : Style) : (e : Expr) → e.WellFormed → ∀ last : Bool,
    (e.isAssignment = true → last = true) → e.Readable e.level last (e.bare style last)
  | .literal v _, _, last, _ => by
    intro room ts spells
    obtain ⟨t, rfl, kind, value, -⟩ := spells_single spells
    refine ⟨.literal v t.pos, .literal ?_ value, rfl⟩
    rw [kind]
    cases v <;> simp [Literal.kind]
  | .variable x, _, last, _ => by
    intro room ts spells
    obtain ⟨t, rfl, kind, lexeme⟩ := spells_name spells
    exact ⟨_, .variable kind, congrArg Expr.variable (Identifier.unplaced_eq lexeme)⟩
  | .unary op e _, wf, last, _ => by
    intro room ts spells
    obtain ⟨t, us, rfl, sign, opened⟩ := spells_sign_append spells
    obtain ⟨less, rfl, inner⟩ := spells_inside.mp opened
    obtain ⟨f, phrase, same⟩ := readable_enclose (bare_readable _ e wf) _ _ inner
    exact ⟨_, .unary (by rw [sign, UnaryOp.unaryOp?_kind]) phrase, by simp [unplaced, same]⟩
  | .binary op l r pos, wf, last, _ => by
    intro room ts spells
    by_cases leans : op = .power
    · subst leans
      obtain ⟨us, _, rfl, left, spells⟩ := spells_append.mp spells
      obtain ⟨t, vs, rfl, sign, opened⟩ := spells_sign_append spells
      obtain ⟨less, rfl, right⟩ := spells_inside.mp opened
      obtain ⟨l', phrase, same⟩ := readable_enclose (bare_readable _ l wf.1) _ _ left
      obtain ⟨r', phrase', same'⟩ := readable_enclose (bare_readable _ r wf.2) _ _ right
      exact ⟨_, .power phrase sign phrase', by simp [unplaced, same, same']⟩
    · rw [bare_binary leans] at spells
      obtain ⟨l', r', us, t, vs, rfl, sign, phrase, phrase', same, same'⟩ :=
        readable_infix (readable_enclose (bare_readable _ l wf.1))
          (readable_enclose (bare_readable _ r wf.2)) spells
      exact ⟨_, .binary rfl leans phrase sign phrase', by simp [unplaced, same, same']⟩
  | .logical op l r _, wf, last, _ => by
    intro room ts spells
    obtain ⟨l', r', us, t, vs, rfl, sign, phrase, phrase', same, same'⟩ :=
      readable_infix (readable_enclose (bare_readable _ l wf.1))
        (readable_enclose (bare_readable _ r wf.2)) spells
    exact ⟨_, .logical rfl phrase sign phrase', by simp [unplaced, same, same']⟩
  | .assignment x e, wf, last, plain => by
    intro room ts spells
    obtain ⟨t, us, rfl, kind, lexeme, spells⟩ := spells_name_append spells
    obtain ⟨eq, us, rfl, sign, opened⟩ := spells_sign_append spells
    obtain ⟨less, rfl, inner⟩ := spells_inside.mp opened
    obtain ⟨f, phrase, same⟩ := readable_enclose (bare_readable _ e wf) _ _ inner
    rw [plain rfl]
    exact ⟨_, .assignment kind sign phrase,
      by simp [unplaced, same, Identifier.unplaced_eq lexeme]⟩
  | .comparison [] ops _, wf, last, _ => absurd wf.2.1 (by simp)
  | .comparison (e :: es) [] _, wf, last, _ => absurd rfl wf.1
  | .comparison (e :: es) (op :: ops) _, wf, last, _ => by
    intro room ts spells
    obtain ⟨-, len, first, rest⟩ := wf
    have len : es.length = ops.length + 1 := by simpa using len
    obtain ⟨us, vs, rfl, left, right⟩ := spells_append.mp spells
    obtain ⟨f, phrase, same⟩ := readable_enclose (bare_readable _ e first) _ _ left
    obtain ⟨_ | ⟨⟨op', pos, g⟩, more⟩, chain, ops_eq, es_eq⟩ :=
      chain_readable style es rest 1 last op ops len _ _ right
    · cases ops_eq
    · obtain ⟨rfl, rfl⟩ := List.cons.inj ops_eq
      have plain : (last && es.isEmpty) = false := by cases es <;> simp at len ⊢
      refine ⟨_, .comparison (plain ▸ phrase) chain, ?_⟩
      simp only [List.map_cons, unplacedAll] at es_eq
      simp [unplaced, unplacedAll, same, ← es_eq]
  | .call f [], _, last, _ => by
    intro room ts spells
    obtain ⟨t, us, rfl, kind, lexeme, spells⟩ := spells_name_append spells
    obtain ⟨l, us, rfl, left, spells⟩ := spells_sign_append spells
    obtain ⟨us, vs, rfl, spells, closing⟩ := spells_append.mp spells
    obtain rfl := spells_nil.mp spells
    obtain ⟨r, rfl, right⟩ := spells_sign closing
    exact ⟨_, .emptyCall kind left right, by simp [unplaced, Identifier.unplaced_eq lexeme]⟩
  | .call f (e :: es), wf, last, _ => by
    intro room ts spells
    obtain ⟨t, us, rfl, kind, lexeme, opened⟩ := spells_name_append spells
    obtain ⟨less, l, us, r, rfl, rfl, left, inner, right⟩ := spells_between opened
    obtain ⟨fs, args, same⟩ := arguments_readable style (e :: es) wf (by simp) _ _ _ inner
    exact ⟨_, .call kind left args right,
      by simp [unplaced, Identifier.unplaced_eq lexeme, same]⟩

theorem chain_readable (style : Style) : (es : List Expr) → AllWellFormed es →
    ∀ (i : Nat) (last : Bool) (op : ComparisonOp) (ops : List ComparisonOp),
      es.length = ops.length + 1 → ∀ room ts,
      (sign (.comparison op) ++ Expr.chain style i last es ops).Spells room ts →
      ∃ more, Chain room last more ts ∧ more.map (·.1) = op :: ops ∧
        unplacedAll (more.map (·.2.2)) = unplacedAll es
  | [], _, _, _, _, _, len, _, _, _ => absurd len (by simp)
  | [e], wf, i, last, op, [], _, room, ts, spells => by
    obtain ⟨t, us, rfl, sign, spells⟩ := spells_sign_append spells
    obtain ⟨us, vs, rfl, operand, ends⟩ := spells_append.mp spells
    obtain rfl := spells_nil.mp ends
    obtain ⟨f, phrase, same⟩ := readable_enclose (bare_readable _ e wf.1) _ _ operand
    refine ⟨[(op, t.pos, f)], ?_, rfl, by simp [unplacedAll, same]⟩
    simpa using Chain.last sign phrase
  | [e], _, _, _, _, _ :: _, len, _, _, _ => absurd len (by simp)
  | e :: f :: es, _, _, _, _, [], len, _, _, _ => absurd len (by simp)
  | e :: f :: es, wf, i, last, op, op' :: ops, len, room, ts, spells => by
    obtain ⟨t, us, rfl, sign, spells⟩ := spells_sign_append spells
    obtain ⟨us, vs, rfl, operand, rest⟩ := spells_append.mp spells
    obtain ⟨more, chain, ops_eq, es_eq⟩ := chain_readable style (f :: es) wf.2 (i + 1) last op' ops
      (by simpa using len) _ _ rest
    obtain ⟨g, phrase, same⟩ := readable_enclose (bare_readable _ e wf.1) _ _ operand
    refine ⟨(op, t.pos, g) :: more, .more sign ?_ chain, by simp [ops_eq], ?_⟩
    · simpa using phrase
    · rw [List.map_cons, unplacedAll, unplacedAll, same, es_eq]

theorem arguments_readable (style : Style) : (es : List Expr) → AllWellFormed es → es ≠ [] →
    ∀ (i room : Nat) (ts : List Token), (Expr.arguments style i es).Spells room ts →
      ∃ fs, Arguments room fs ts ∧ unplacedAll fs = unplacedAll es
  | [], _, ne, _, _, _, _ => absurd rfl ne
  | [e], wf, _, i, room, ts, spells => by
    obtain ⟨us, vs, rfl, argument, ends⟩ := spells_append.mp spells
    obtain rfl := spells_nil.mp ends
    obtain ⟨f, phrase, same⟩ := readable_enclose (bare_readable _ e wf.1) _ _ argument
    exact ⟨[f], by simpa using Arguments.last phrase, by simp [unplacedAll, same]⟩
  | e :: f :: es, wf, _, i, room, ts, spells => by
    obtain ⟨us, vs, rfl, argument, spells⟩ := spells_append.mp spells
    obtain ⟨c, vs, rfl, comma, rest⟩ := spells_sign_append spells
    obtain ⟨fs, args, same'⟩ := arguments_readable style (f :: es) wf.2 (by simp) (i + 1) _ _ rest
    obtain ⟨g, phrase, same⟩ := readable_enclose (bare_readable _ e wf.1) _ _ argument
    refine ⟨g :: fs, .more phrase comma args, ?_⟩
    rw [unplacedAll, unplacedAll, same, same']

end

theorem print_readable (style : Style) (e : Expr) (wf : e.WellFormed) :
    e.Readable .disjunction true (e.print style) :=
  readable_enclose (bare_readable style e wf)

end Expr

theorem params_readable {xs : List Identifier} (own : ∀ x ∈ xs, x.isGlobal = false) {room : Nat} :
    ∀ {ts : List Token}, (params xs).Spells room ts →
      ∃ ys, Params ys ts ∧ ys.map Identifier.unplaced = xs.map Identifier.unplaced := by
  induction xs with
  | nil =>
    intro ts spells
    obtain rfl := spells_nil.mp spells
    exact ⟨[], .nil, rfl⟩
  | cons x xs ih =>
    intro ts spells
    have plain {t : Token} (lexeme : t.lexeme = x.name) : isGlobalName t.lexeme = false :=
      lexeme ▸ own x (by simp)
    cases xs with
    | nil =>
      obtain ⟨t, rfl, kind, lexeme⟩ := spells_name spells
      exact ⟨_, .last kind (plain lexeme), by simp [Identifier.unplaced_eq lexeme]⟩
    | cons y xs =>
      obtain ⟨t, us, rfl, kind, lexeme, spells⟩ := spells_name_append spells
      obtain ⟨c, us, rfl, comma, spells⟩ := spells_sign_append spells
      obtain ⟨ys, rest, same⟩ := ih (fun z member => own z (List.mem_cons_of_mem _ member)) spells
      refine ⟨_, .more kind (plain lexeme) comma rest, ?_⟩
      rw [List.map_cons, List.map_cons, Identifier.unplaced_eq lexeme, same]

namespace Statement

inductive Written (room : Nat) (word : TokenKind) (s : Statement) (ts : List Token) : Prop
  | simple (own : s.endsInBlock = false) {r : Statement} (read : Simple room r ts)
      (same : r.unplaced = s.unplaced)
  | compound (own : s.endsInBlock = true) (other : s.isBranch = false) {r : Statement}
      (read : Compound room r ts) (same : r.unplaced = s.unplaced)
  | branch (own : s.endsInBlock = true) {c : Expr} {body : List Statement}
      {otherwise : Option (List Statement)} {t : Token} {us vs ws : List Token}
      (eq : ts = t :: (us ++ (vs ++ ws))) (kind : t.kind = word)
      (condition : Phrase room .disjunction true c us) (block : Block room body vs)
      (rest : Otherwise room otherwise ws)
      (same : (Statement.branch c body otherwise t.pos).unplaced = s.unplaced)

theorem mark_cases {style : Style} {s : Statement} {last : Bool} {room : Nat} {ts : List Token}
    (spells : (mark style s last).Spells room ts) :
    (∃ m, ts = [m] ∧ m.kind = .semicolon) ∨ ts = [] ∧ (s.endsInBlock || last) = true := by
  unfold mark at spells
  split at spells
  · exact .inl (spells_sign spells)
  · next needless =>
    refine .inr ⟨spells_nil.mp spells, ?_⟩
    cases ends : s.endsInBlock || last with
    | true => rfl
    | false => simp [ends] at needless

mutual

theorem print_readable (style : Style) (word : TokenKind) : (s : Statement) → s.WellFormed →
    ∀ room ts, (s.print style word).Spells room ts → s.Written room word ts
  | .expression e, wf, room, ts, spells => by
    obtain ⟨f, phrase, same⟩ := e.print_readable _ wf _ _ spells
    exact .simple rfl (.expression phrase) (congrArg Statement.expression same)
  | .control kind none _, _, room, ts, spells => by
    obtain ⟨t, rfl, word⟩ := spells_sign spells
    exact .simple rfl (.control word) rfl
  | .control kind (some e) _, wf, room, ts, spells => by
    obtain ⟨t, us, rfl, word, spells⟩ := spells_sign_append spells
    obtain ⟨f, phrase, same⟩ := e.print_readable _ wf.2 _ _ spells
    obtain rfl := wf.1
    exact .simple rfl (.value word phrase) (by simp [unplaced, same])
  | .loop c body _, wf, room, ts, spells => by
    obtain ⟨t, us, rfl, kind, spells⟩ := spells_sign_append spells
    obtain ⟨us, vs, rfl, condition, block⟩ := spells_append.mp spells
    obtain ⟨c', phrase, same⟩ := c.print_readable _ wf.1 _ _ condition
    obtain ⟨less, l, vs, r, rfl, rfl, left, inner, right⟩ := spells_between block
    obtain ⟨body', read, same'⟩ := printAll_readable _ body wf.2 _ _ _ inner
    exact .compound rfl rfl (.loop kind phrase (.braces left read right))
      (by simp [unplaced, same, same'])
  | .function f xs body, wf, room, ts, spells => by
    obtain ⟨t, us, rfl, kind, spells⟩ := spells_sign_append spells
    obtain ⟨n, us, rfl, name, lexeme, spells⟩ := spells_name_append spells
    obtain ⟨l, us, rfl, left, spells⟩ := spells_sign_append spells
    obtain ⟨us, vs, rfl, names, spells⟩ := spells_append.mp spells
    obtain ⟨r, vs, rfl, right, block⟩ := spells_sign_append spells
    obtain ⟨ys, params, same⟩ := params_readable wf.1 names
    obtain ⟨less, l', vs, r', rfl, rfl, left', inner, right'⟩ := spells_between block
    obtain ⟨body', read, same'⟩ := printAll_readable _ body wf.2 _ _ _ inner
    exact .compound rfl rfl (.function kind name left params right (.braces left' read right'))
      (by simp [unplaced, same, same', Identifier.unplaced_eq lexeme])
  | .branch c body otherwise _, wf, room, ts, spells => by
    obtain ⟨t, us, rfl, kind, spells⟩ := spells_sign_append spells
    obtain ⟨us, vs, rfl, condition, spells⟩ := spells_append.mp spells
    obtain ⟨vs, ws, rfl, block, rest⟩ := spells_append.mp spells
    obtain ⟨c', phrase, same⟩ := c.print_readable _ wf.1 _ _ condition
    obtain ⟨o', read', same''⟩ := printElse_readable _ otherwise wf.2.2 _ _ rest
    obtain ⟨less, l, vs, r, rfl, rfl, left, inner, right⟩ := spells_between block
    obtain ⟨body', read, same'⟩ := printAll_readable _ body wf.2.1 _ _ _ inner
    exact .branch rfl rfl kind phrase (.braces left read right) read'
      (by simp [unplaced, same, same', same''])

theorem printAll_readable (style : Style) : (ss : List Statement) → AllWellFormed ss →
    ∀ (i room : Nat) (ts : List Token), (printAll style i ss).Spells room ts →
      ∃ rs, Statements room rs ts ∧ unplacedAll rs = unplacedAll ss
  | [], _, i, room, ts, spells => by
    obtain rfl := spells_nil.mp spells
    exact ⟨[], .nil, rfl⟩
  | s :: ss, wf, i, room, ts, spells => by
    obtain ⟨us, vs, rfl, first, spells⟩ := spells_append.mp spells
    obtain ⟨ms, vs, rfl, mark, rest⟩ := spells_append.mp spells
    obtain ⟨rs, more, same'⟩ := printAll_readable _ ss wf.2 _ _ _ rest
    have all {r : Statement} (same : r.unplaced = s.unplaced) :
        unplacedAll (r :: rs) = unplacedAll (s :: ss) := by
      rw [unplacedAll, unplacedAll, same, same']
    rcases mark_cases mark with ⟨m, rfl, sign⟩ | ⟨rfl, ends⟩
    · cases print_readable _ _ s wf.1 _ _ first with
      | simple _ read same => exact ⟨_, .simple read sign more, all same⟩
      | compound _ _ read same => exact ⟨_, .separated read sign more, all same⟩
      | branch _ eq kind condition block otherwise same =>
        obtain rfl := eq
        exact ⟨_, .separated (.branch kind condition block otherwise) sign more, all same⟩
    · cases print_readable _ _ s wf.1 _ _ first with
      | simple own read same =>
        obtain rfl : ss = [] := by simpa [own] using ends
        obtain rfl := spells_nil.mp rest
        exact ⟨[_], by simpa using Statements.last read, congrArg (fun s => [s]) same⟩
      | compound _ _ read same => exact ⟨_, .compound read more, all same⟩
      | branch _ eq kind condition block otherwise same =>
        obtain rfl := eq
        exact ⟨_, .compound (.branch kind condition block otherwise) more, all same⟩

theorem printElse_readable (style : Style) : (otherwise : Option (List Statement)) →
    ElseWellFormed otherwise → ∀ room ts, (printElse style otherwise).Spells room ts →
      ∃ o, Otherwise room o ts ∧ unplacedElse o = unplacedElse otherwise
  | none, _, room, ts, spells => by
    obtain rfl := spells_nil.mp spells
    exact ⟨none, .nothing, rfl⟩
  | some body, wf, room, ts, spells => by
    unfold printElse at spells
    split at spells
    · next p chained =>
      obtain ⟨rs, read, same⟩ := printElseIf_readable style body wf p chained _ _ spells
      exact ⟨some rs, read, congrArg some same⟩
    · obtain ⟨t, us, rfl, word, block⟩ := spells_sign_append spells
      obtain ⟨less, l, us, r, rfl, rfl, left, inner, right⟩ := spells_between block
      obtain ⟨rs, read, same⟩ := printAll_readable style body wf _ _ _ inner
      exact ⟨some rs, .block word (.braces left read right), congrArg some same⟩

theorem printElseIf_readable (style : Style) : (body : List Statement) → AllWellFormed body →
    ∀ p, printElseIf style body = some p → ∀ room ts, p.Spells room ts →
      ∃ rs, Otherwise room (some rs) ts ∧ unplacedAll rs = unplacedAll body
  | [], _, p, eq, _, _, _ => by cases eq
  | _ :: _ :: _, _, p, eq, _, _, _ => by cases eq
  | [s], wf, p, eq, room, ts, spells => by
    unfold printElseIf at eq
    split at eq
    · next chained =>
      obtain rfl := Option.some.inj eq
      have branches : s.isBranch = true := by
        simp only [Bool.and_eq_true] at chained
        exact chained.2
      cases print_readable _ _ s wf.1 _ _ spells with
      | simple own _ _ =>
        cases s with
        | branch => cases own
        | expression | loop | function | control => cases branches
      | compound _ other _ _ => exact absurd (branches.symm.trans other) (by simp)
      | branch own eq kind condition block otherwise same =>
        obtain rfl := eq
        exact ⟨_, .branch kind condition block otherwise, congrArg (fun s => [s]) same⟩
    · cases eq

end

end Statement

/-- Whatever a well-formed program is printed as, with just the parentheses it needs or with more of
them, reads back as that program, as long as no more constructs are open at once than a program may
have. -/
theorem parseProgram_print (style : Style) (items : List Statement)
    (wellFormed : Statement.AllWellFormed items) (ts : List Token)
    (printed : ts.map Token.bare = (Statement.printAll style 0 items).tokens)
    (room : (Statement.printAll style 0 items).depth ≤ maxNesting) :
    ∃ read, parseProgram ts = .ok read ∧
      Statement.unplacedAll read = Statement.unplacedAll items := by
  obtain ⟨read, statements, same⟩ :=
    Statement.printAll_readable style items wellFormed 0 maxNesting ts ⟨room, printed⟩
  exact ⟨read, statements.read_program, same⟩

def sampleProgram : List Statement :=
  let one : Expr := .literal (.int 1) default
  let x : Identifier := ⟨"x", default⟩
  let yIsTwo : Expr := .assignment ⟨"y", default⟩ (.literal (.int 2) default)
  let minus : Expr := .unary .negate (.variable x) default
  [.function ⟨"f", default⟩ [x]
    [.branch (.comparison [.variable x, one, yIsTwo] [.less, .lessEqual] default)
      [.control .returnValue (some (.binary .power minus minus default)) default]
      (some [.branch (.variable x) [] none default]) default],
    .expression (.binary .multiply (.assignment x one)
      (.binary .add one (.call ⟨"f", default⟩ [.variable x, yIsTwo]) default) default)]

def sampleStyle : Style := ⟨fun _ => 1, fun _ => true, fun _ => true⟩

theorem parseProgram_print_sampleProgram :
    ∃ read, parseProgram (Statement.printAll sampleStyle 0 sampleProgram).tokens = .ok read ∧
      Statement.unplacedAll read = Statement.unplacedAll sampleProgram := by
  refine parseProgram_print sampleStyle sampleProgram ?_ _ (by decide) (by decide)
  simp [sampleProgram, Statement.AllWellFormed, Statement.WellFormed, Statement.ElseWellFormed,
    Expr.WellFormed, Expr.AllWellFormed, Identifier.isGlobal]
  decide

end CalcScript
