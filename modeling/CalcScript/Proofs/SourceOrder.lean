import CalcScript.Proofs.Lexemes
import CalcScript.Proofs.Printing

set_option autoImplicit false

namespace CalcScript

inductive Mark where
  | name (i : Identifier)
  | literal (v : Literal) (pos : Position)
  | sign (kind : TokenKind)
deriving DecidableEq

namespace TokenKind

def groups : TokenKind → Bool
  | .leftParen | .rightParen | .leftBrace | .rightBrace | .comma | .semicolon
  | .keyword .otherwise => true
  | _ => false

def isSign : TokenKind → Bool
  | .identifier | .integer | .float | .string | .elseIf => false
  | kind => !kind.groups

end TokenKind

-- An `else if` says the same as an `if`.
def Token.mark (t : Token) : Mark :=
  match t.kind, t.literal with
  | .identifier, _ => .name ⟨t.lexeme, t.pos⟩
  | .integer, some v | .float, some v | .string, some v => .literal v t.pos
  | .elseIf, _ => .sign (.keyword .branch)
  | kind, _ => .sign kind

def code (ts : List Token) : List Mark := (ts.filter fun t => !t.kind.groups).map Token.mark

section

variable {t : Token} (ts us : List Token)

@[simp] theorem code_nil : code [] = [] := rfl

@[simp] theorem code_append : code (ts ++ us) = code ts ++ code us := by
  simp [code]

theorem code_group {kind : TokenKind} (sign : t.kind = kind) (groups : kind.groups = true) :
    code (t :: ts) = code ts := by
  simp [code, sign, groups]

theorem code_mark (kind : t.kind.groups = false) : code (t :: ts) = t.mark :: code ts := by
  simp [code, kind]

theorem code_name (kind : t.kind = .identifier) :
    code (t :: ts) = .name ⟨t.lexeme, t.pos⟩ :: code ts := by
  rw [code_mark ts (by rw [kind]; rfl)]
  simp [Token.mark, kind]

theorem code_literal {v : Literal} (kind : t.kind = .integer ∨ t.kind = .float ∨ t.kind = .string)
    (value : t.literal = some v) : code (t :: ts) = .literal v t.pos :: code ts := by
  rcases kind with kind | kind | kind
  all_goals rw [code_mark ts (by rw [kind]; rfl)]
  all_goals simp [Token.mark, kind, value]

theorem code_elseIf (kind : t.kind = .elseIf) :
    code (t :: ts) = .sign (.keyword .branch) :: code ts := by
  rw [code_mark ts (by rw [kind]; rfl)]
  simp [Token.mark, kind]

theorem code_sign {kind : TokenKind} (sign : t.kind = kind) (plain : kind.isSign = true) :
    code (t :: ts) = .sign kind :: code ts := by
  subst sign
  have groups : t.kind.groups = false := by
    unfold TokenKind.isSign at plain
    split at plain
    all_goals simp_all
  rw [code_mark ts groups]
  unfold Token.mark
  split
  all_goals simp_all [TokenKind.isSign]

end

theorem mem_code_name {i : Identifier} {ts : List Token} (member : .name i ∈ code ts) :
    ∃ t ∈ ts, t.pos = i.pos := by
  obtain ⟨t, kept, eq⟩ := List.mem_map.mp member
  refine ⟨t, (List.mem_filter.mp kept).1, ?_⟩
  unfold Token.mark at eq
  split at eq
  all_goals cases eq
  rfl

def Apart (ts : List Token) : Prop := (ts.map (·.pos)).Nodup

namespace Apart

variable {t : Token} {ts us : List Token}

theorem of_sublist (apart : Apart us) (part : ts.Sublist us) : Apart ts :=
  List.Nodup.sublist (part.map _) apart

theorem cons_iff : Apart (t :: ts) ↔ (∀ u ∈ ts, u.pos ≠ t.pos) ∧ Apart ts := by
  simp [Apart, List.nodup_cons]

theorem tail (apart : Apart (t :: ts)) : Apart ts := (cons_iff.mp apart).2

theorem left (apart : Apart (ts ++ us)) : Apart ts :=
  apart.of_sublist (List.sublist_append_left _ _)

theorem right (apart : Apart (ts ++ us)) : Apart us :=
  apart.of_sublist (List.sublist_append_right _ _)

end Apart

theorem Position.after_advances (p : Position) (cs : List Char) :
    p.line < (p.after cs).line ∨
      ((p.after cs).line = p.line ∧ (p.after cs).column = p.column + cs.length) := by
  induction cs generalizing p with
  | nil => exact .inr ⟨rfl, rfl⟩
  | cons c cs ih =>
    rw [after_cons, List.length_cons]
    have step := ih (p.next c)
    unfold next at step ⊢
    by_cases feed : c = '\n'
    · rw [if_pos feed] at step ⊢
      left
      simp only at step
      omega
    · rw [if_neg feed] at step ⊢
      simp only at step
      omega

theorem Position.after_ne (p : Position) {cs : List Char} (nonempty : cs ≠ []) :
    p.after cs ≠ p := by
  intro same
  have length := List.length_pos_iff.mpr nonempty
  have advances := p.after_advances cs
  rw [same] at advances
  omega

theorem Scan.Lexed.apart {pos : Position} {cs rest : List Char} {ts : List Token}
    (lexed : Lexed pos cs ts rest) : Apart ts := by
  induction lexed with
  | nothing pos cs => simp [Apart]
  | token first later ih =>
    apply Apart.cons_iff.mpr
    refine ⟨fun u member same => ?_, ih⟩
    obtain ⟨before, behind, rfl⟩ := List.append_of_mem member
    rw [later.placed before u behind rfl, ← Position.after_append, (token_eq_ok first).1] at same
    exact Position.after_ne _ (by simp) same

theorem significantTokens_apart {source : String} {ts : List Token}
    (lexed : significantTokens source = .ok ts) : Apart ts := by
  obtain ⟨us, all, kept⟩ := Parse.bind_eq_ok.mp lexed
  cases kept
  exact (Scan.tokensFrom_eq_ok.mp all).apart.of_sublist List.filter_sublist

mutual

-- The value of a compound assignment starts with a copy of its target, at the place of the target.
def Expr.marks : Expr → List Mark
  | .literal v pos => [.literal v pos]
  | .variable x => [.name x]
  | .unary op e _ => .sign op.kind :: e.marks
  | .binary op l r _ => l.marks ++ .sign (.binary op) :: r.marks
  | .logical op l r _ => l.marks ++ .sign (.logical op) :: r.marks
  | .assignment x (.binary op (.variable y) r _) =>
    if y.pos = x.pos then .name x :: .sign (.compound op) :: r.marks
    else .name x :: .sign .assign :: .name y :: .sign (.binary op) :: r.marks
  | .assignment x e => .name x :: .sign .assign :: e.marks
  | .comparison es ops _ => Expr.chainMarks es ops
  | .call f es => .name f :: Expr.allMarks es

def Expr.chainMarks : List Expr → List ComparisonOp → List Mark
  | [], _ => []
  | e :: es, [] => e.marks ++ Expr.allMarks es
  | e :: es, op :: ops => e.marks ++ .sign (.comparison op) :: Expr.chainMarks es ops

def Expr.allMarks : List Expr → List Mark
  | [] => []
  | e :: es => e.marks ++ Expr.allMarks es

end

mutual

def Statement.marks : Statement → List Mark
  | .expression e => e.marks
  | .branch c body otherwise _ =>
    .sign (.keyword .branch) ::
      (c.marks ++ (Statement.allMarks body ++ Statement.elseMarks otherwise))
  | .loop c body _ => .sign (.keyword .loop) :: (c.marks ++ Statement.allMarks body)
  | .function f params body =>
    .sign (.keyword .function) :: .name f :: (params.map .name ++ Statement.allMarks body)
  | .control kind none _ => [.sign (.keyword (.control kind))]
  | .control kind (some e) _ => .sign (.keyword (.control kind)) :: e.marks

def Statement.allMarks : List Statement → List Mark
  | [] => []
  | s :: ss => s.marks ++ Statement.allMarks ss

def Statement.elseMarks : Option (List Statement) → List Mark
  | none => []
  | some body => Statement.allMarks body

end

theorem Expr.marks_assignment {x : Identifier} {e : Expr}
    (plain : ∀ op y r pos, e = .binary op (.variable y) r pos → y.pos ≠ x.pos) :
    (Expr.assignment x e).marks = .name x :: .sign .assign :: e.marks := by
  cases e with
  | binary op l r pos =>
    cases l with
    | «variable» y => simp [marks, plain op y r pos rfl]
    | _ => simp [marks]
  | _ => simp [marks]

theorem Expr.chainMarks_eq (first : Expr) (chain : List (ComparisonOp × Position × Expr)) :
    Expr.chainMarks (first :: chain.map (·.2.2)) (chain.map (·.1)) =
      first.marks ++ chain.flatMap fun link => .sign (.comparison link.1) :: link.2.2.marks := by
  induction chain generalizing first with
  | nil => simp [chainMarks, allMarks]
  | cons link chain ih => simp [chainMarks, ih]

theorem UnaryOp.kind_of_unaryOp? {kind : TokenKind} {op : UnaryOp}
    (sign : kind.unaryOp? = some op) : kind = op.kind := by
  unfold TokenKind.unaryOp? at sign
  split at sign
  all_goals cases sign
  all_goals rfl

theorem UnaryOp.isSign_kind (op : UnaryOp) : op.kind.isSign = true := by
  cases op <;> rfl

namespace Grammar

mutual

theorem Phrase.marks_eq {room : Nat} {level : Level} {last : Bool} {e : Expr} {ts : List Token} :
    Phrase room level last e ts → Apart ts → e.marks = code ts
  | .literal kind value, _ => by rw [code_literal _ kind value, Expr.marks, code_nil]
  | .variable kind, _ => by rw [code_name _ kind, Expr.marks, code_nil]
  | .group left inside right, apart => by
    rw [code_group _ left rfl, code_append, code_group _ right rfl, code_nil,
      List.append_nil, inside.marks_eq apart.tail.left]
  | .emptyCall kind left right, _ => by
    rw [code_name _ kind, code_group _ left rfl, code_group _ right rfl,
      code_nil, Expr.marks, Expr.allMarks]
  | .call kind left inside right, apart => by
    rw [code_name _ kind, code_group _ left rfl, code_append,
      code_group _ right rfl, code_nil, List.append_nil, Expr.marks,
      inside.marks_eq apart.tail.tail.left]
  | @Phrase.assignment _ e t _ ts kind sign value, apart => by
    have later := value.marks_eq apart.tail.tail
    -- A variable in the value has a token of its own, which is not at the place of the target.
    have plain : ∀ op y r pos, e = .binary op (.variable y) r pos → y.pos ≠ t.pos := by
      rintro op y r pos rfl same
      have member : .name y ∈ code ts := later ▸ by simp [Expr.marks]
      obtain ⟨u, inside, place⟩ := mem_code_name member
      exact (Apart.cons_iff.mp apart).1 u (.tail _ inside) (place.trans same)
    rw [Expr.marks_assignment plain, code_name _ kind, code_sign _ sign rfl, later]
  | .compound kind sign value, apart => by
    rw [Expr.marks, if_pos rfl, code_name _ kind, code_sign _ sign rfl,
      value.marks_eq apart.tail.tail]
  | .power base sign exponent, apart => by
    rw [Expr.marks, code_append, code_sign _ sign rfl, base.marks_eq apart.left,
      exponent.marks_eq apart.right.tail]
  | .unary sign inside, apart => by
    rw [Expr.marks, code_sign _ (UnaryOp.kind_of_unaryOp? sign) (UnaryOp.isSign_kind _),
      inside.marks_eq apart.tail]
  | .binary _ _ left sign right, apart => by
    rw [Expr.marks, code_append, code_sign _ sign rfl, left.marks_eq apart.left,
      right.marks_eq apart.right.tail]
  | .logical _ left sign right, apart => by
    rw [Expr.marks, code_append, code_sign _ sign rfl, left.marks_eq apart.left,
      right.marks_eq apart.right.tail]
  | @Phrase.comparison _ _ op pos e f more _ _ first chain, apart => by
    rw [code_append, ← first.marks_eq apart.left, ← chain.marks_eq apart.right, Expr.marks]
    exact Expr.chainMarks_eq e ((op, pos, f) :: more)
  | .lift phrase, apart => phrase.marks_eq apart

theorem Chain.marks_eq {room : Nat} {last : Bool} {chain : List (ComparisonOp × Position × Expr)}
    {ts : List Token} : Chain room last chain ts → Apart ts →
      (chain.flatMap fun link => .sign (.comparison link.1) :: link.2.2.marks) = code ts
  | .last sign operand, apart => by
    rw [code_sign _ sign rfl, ← operand.marks_eq apart.tail, List.flatMap_singleton]
  | .more sign operand rest, apart => by
    rw [code_sign _ sign rfl, code_append, ← operand.marks_eq apart.tail.left,
      ← rest.marks_eq apart.tail.right, List.flatMap_cons, List.cons_append]

theorem Arguments.marks_eq {room : Nat} {es : List Expr} {ts : List Token} :
    Arguments room es ts → Apart ts → Expr.allMarks es = code ts
  | .last argument, apart => by
    rw [Expr.allMarks, Expr.allMarks, List.append_nil, argument.marks_eq apart]
  | .more argument comma rest, apart => by
    rw [Expr.allMarks, code_append, code_group _ comma rfl, argument.marks_eq apart.left,
      rest.marks_eq apart.right.tail]

end

theorem Params.marks_eq {names : List Identifier} {ts : List Token} (h : Params names ts) :
    names.map .name = code ts := by
  induction h with
  | nil => rfl
  | last kind _ => rw [code_name _ kind, code_nil, List.map_singleton]
  | more kind _ comma _ ih =>
    rw [code_name _ kind, code_group _ comma rfl, List.map_cons, ih]

theorem Simple.marks_eq {room : Nat} {s : Statement} {ts : List Token} (h : Simple room s ts)
    (apart : Apart ts) : s.marks = code ts := by
  cases h with
  | expression phrase => rw [Statement.marks, phrase.marks_eq apart]
  | @control kind _ word =>
    have own : (TokenKind.keyword (.control kind)).isSign = true := rfl
    rw [Statement.marks, code_sign _ word own, code_nil]
  | value word phrase => rw [Statement.marks, code_sign _ word rfl, phrase.marks_eq apart.tail]

mutual

theorem Block.marks_eq {room : Nat} {body : List Statement} {ts : List Token} :
    Block room body ts → Apart ts → Statement.allMarks body = code ts
  | .braces left inside right, apart => by
    rw [code_group _ left rfl, code_append, code_group _ right rfl, code_nil,
      List.append_nil, inside.marks_eq apart.tail.left]

theorem Otherwise.marks_eq {room : Nat} {otherwise : Option (List Statement)}
    {ts : List Token} : Otherwise room otherwise ts → Apart ts →
      Statement.elseMarks otherwise = code ts
  | .nothing, _ => rfl
  | .block word block, apart => by
    rw [code_group _ word rfl, Statement.elseMarks, block.marks_eq apart.tail]
  | .branch word condition block rest, apart => by
    rw [code_elseIf _ word, code_append, code_append, ← condition.marks_eq apart.tail.left,
      ← block.marks_eq apart.tail.right.left, ← rest.marks_eq apart.tail.right.right,
      Statement.elseMarks, Statement.allMarks, Statement.allMarks, List.append_nil, Statement.marks]

theorem Compound.marks_eq {room : Nat} {s : Statement} {ts : List Token} :
    Compound room s ts → Apart ts → s.marks = code ts
  | .branch word condition block rest, apart => by
    rw [code_sign _ word rfl, code_append, code_append, Statement.marks,
      condition.marks_eq apart.tail.left, block.marks_eq apart.tail.right.left,
      rest.marks_eq apart.tail.right.right]
  | .loop word condition block, apart => by
    rw [code_sign _ word rfl, code_append, Statement.marks, condition.marks_eq apart.tail.left,
      block.marks_eq apart.tail.right]
  | .function word name left params right block, apart => by
    rw [code_sign _ word rfl, code_name _ name, code_group _ left rfl, code_append,
      code_group _ right rfl, Statement.marks, params.marks_eq,
      block.marks_eq apart.tail.tail.tail.right.tail]

theorem Statements.marks_eq {room : Nat} {items : List Statement} {ts : List Token} :
    Statements room items ts → Apart ts → Statement.allMarks items = code ts
  | .nil, _ => rfl
  | .last statement, apart => by
    rw [Statement.allMarks, Statement.allMarks, List.append_nil, statement.marks_eq apart]
  | .simple statement separator more, apart => by
    rw [Statement.allMarks, code_append, code_group _ separator rfl,
      statement.marks_eq apart.left, more.marks_eq apart.right.tail]
  | .compound statement more, apart => by
    rw [Statement.allMarks, code_append, statement.marks_eq apart.left, more.marks_eq apart.right]
  | .separated statement separator more, apart => by
    rw [Statement.allMarks, code_append, code_group _ separator rfl,
      statement.marks_eq apart.left, more.marks_eq apart.right.tail]

end

end Grammar

/-- A program read from the left to the right is what its tokens say, apart from what groups them:
nothing is lost, read twice or moved. -/
theorem marks_of_parseProgram :
    (∀ ts items, parseProgram ts = .ok items → Apart ts → Statement.allMarks items = code ts) ∧
      ∀ source ts, significantTokens source = .ok ts → Apart ts :=
  ⟨fun _ _ parsed apart => (Grammar.programWithin_eq_ok.mp parsed).marks_eq apart,
    fun _ _ lexed => significantTokens_apart lexed⟩

theorem marks_of_parseProgram_assignments :
    let source := "x += (y = x + 1); if x \x7b return \x7d else if -f(2) < 3 \x7b \x7d;"
    ∃ ts items, significantTokens source = .ok ts ∧ parseProgram ts = .ok items ∧
      Statement.allMarks items = code ts := by
  intro source
  have read : (readProgram source).isOk = true := by decide +kernel
  cases parsed : readProgram source with
  | error e =>
    rw [parsed] at read
    cases read
  | ok items =>
    obtain ⟨ts, lexed, parsed⟩ := Parse.bind_eq_ok.mp parsed
    have apart := marks_of_parseProgram.2 source ts lexed
    exact ⟨ts, items, lexed, parsed, marks_of_parseProgram.1 ts items parsed apart⟩

example : (readProgram "x += y = 1").toOption.map Statement.allMarks =
    some [.name ⟨"x", ⟨1, 1⟩⟩, .sign (.compound .add), .name ⟨"y", ⟨1, 6⟩⟩, .sign .assign,
      .literal (.int 1) ⟨1, 10⟩] := by
  decide +kernel

end CalcScript
