import CalcScript.Proofs.Layout
import CalcScript.Proofs.Soundness

set_option autoImplicit false

namespace CalcScript

inductive RunKind where
  | arithmetic
  | logic
deriving DecidableEq, Repr

mutual

-- A run of operators that leans to the left is one level. The left operand of an operator is in
-- its run if it is an operator of the same kind.
def Expr.heightIn (run : Option RunKind) : Expr → Nat
  | .literal _ _ | .variable _ => 1
  | .unary _ e _ | .assignment _ e => e.heightIn none + 1
  | .binary _ l r _ =>
    max (l.heightIn (some .arithmetic)) (r.heightIn none) +
      if run = some .arithmetic then 0 else 1
  | .logical _ l r _ =>
    max (l.heightIn (some .logic)) (r.heightIn none) + if run = some .logic then 0 else 1
  | .comparison es _ _ | .call _ es => Expr.heightAll es + 1

def Expr.heightAll : List Expr → Nat
  | [] => 0
  | e :: es => max (e.heightIn none) (Expr.heightAll es)

end

def Expr.height (e : Expr) : Nat := e.heightIn none

mutual

def Statement.height : Statement → Nat
  | .expression e => e.height + 1
  | .branch c body otherwise _ =>
    max c.height (max (Statement.heightAll body) (Statement.heightElse otherwise)) + 1
  | .loop c body _ => max c.height (Statement.heightAll body) + 1
  | .function _ _ body => Statement.heightAll body + 1
  | .control _ none _ => 1
  | .control _ (some e) _ => e.height + 1

def Statement.heightAll : List Statement → Nat
  | [] => 0
  | s :: rest => max s.height (Statement.heightAll rest)

def Statement.heightElse : Option (List Statement) → Nat
  | none => 0
  | some body => Statement.heightAll body

end

theorem Expr.heightIn_le (run : Option RunKind) (e : Expr) : e.heightIn run ≤ e.height := by
  cases e with
  | binary op l r pos | logical op l r pos =>
    simp only [height, heightIn]
    split <;> simp
  | _ => simp [height, heightIn]

def Level.run? : Level → Option RunKind
  | .disjunction | .conjunction => some .logic
  | .term | .factor => some .arithmetic
  | _ => none

theorem BinaryOp.level_run? {op : BinaryOp} (leans : op ≠ .power) :
    op.level.run? = some .arithmetic := by
  cases op <;> first | rfl | exact absurd rfl leans

theorem LogicalOp.level_run? (op : LogicalOp) : op.level.run? = some .logic := by
  cases op <;> rfl

namespace Grammar

def phraseBound (room : Nat) (level : Level) : Nat := 9 * room + 8 - level.rank

structure Low (room : Nat) (level : Level) (e : Expr) : Prop where
  alone : e.height ≤ phraseBound room level
  leading : ∀ run ∈ level.run?, e.heightIn (some run) < phraseBound room level

section

variable {room : Nat} {level : Level} {e l r : Expr} {pos : Position}

theorem Low.lift (low : Low room level.tighter e) : Low room level e := by
  have height := low.alone
  cases level with
  | primary => exact low
  | _ =>
    refine ⟨?_, fun run own => ?_⟩
    · simp only [phraseBound, Level.tighter, Level.rank] at height ⊢
      omega
    · have le := e.heightIn_le (some run)
      simp only [phraseBound, Level.tighter, Level.rank] at height ⊢
      omega

theorem Low.of_height (none : level.run? = none) (height : e.height ≤ phraseBound room level) :
    Low room level e :=
  ⟨height, by simp [none]⟩

theorem Low.of_run {kind : RunKind} (own : level.run? = some kind) (left : Low room level l)
    (right : Low room level.tighter r)
    (eq : ∀ run, e.heightIn run =
      max (l.heightIn (some kind)) r.height + if run = some kind then 0 else 1) :
    Low room level e := by
  have leading := left.leading kind own
  have height := right.alone
  have tighter : phraseBound room level.tighter < phraseBound room level := by
    cases level with
    | disjunction | conjunction | term | factor =>
      simp only [phraseBound, Level.tighter, Level.rank]
      omega
    | _ => cases own
  constructor
  · rw [Expr.height, eq]
    simp only [reduceCtorEq, if_false]
    omega
  · intro run same
    obtain rfl : kind = run := by simpa [own] using same
    rw [eq, if_pos rfl]
    omega

end

mutual

theorem Phrase.low {room : Nat} {level : Level} {last : Bool} {e : Expr} {ts : List Token} :
    Phrase room level last e ts → Low room level e
  | .literal _ _ | .variable _ | .emptyCall _ _ _ => by
    apply Low.of_height rfl
    simp [Expr.height, Expr.heightIn, Expr.heightAll, phraseBound, Level.rank]
  | .group _ inside _ => by
    have height := inside.low.alone
    apply Low.of_height rfl
    simp only [phraseBound, Level.rank] at height ⊢
    omega
  | .call _ _ inside _ => by
    have height := inside.low
    apply Low.of_height rfl
    simp only [Expr.height, Expr.heightIn, phraseBound, Level.rank] at height ⊢
    omega
  | .assignment _ _ value => by
    have height := value.low.alone
    apply Low.of_height rfl
    simp only [Expr.height, Expr.heightIn, phraseBound, Level.rank] at height ⊢
    omega
  | .compound _ _ value => by
    have height := value.low.alone
    apply Low.of_height rfl
    simp [Expr.height, Expr.heightIn, phraseBound, Level.rank] at height ⊢
    omega
  | .power base _ exponent => by
    have leading := Nat.le_trans (Expr.heightIn_le (some .arithmetic) _) base.low.alone
    have right := exponent.low.alone
    apply Low.of_height rfl
    simp [Expr.height, Expr.heightIn, phraseBound, Level.rank] at leading right ⊢
    omega
  | .unary _ inside => by
    have height := inside.low.alone
    apply Low.of_height rfl
    simp only [Expr.height, Expr.heightIn, phraseBound, Level.rank] at height ⊢
    omega
  | .binary own leans left _ right =>
    .of_run (own ▸ BinaryOp.level_run? leans) left.low right.low fun _ => rfl
  | .logical own left _ right =>
    .of_run (own ▸ LogicalOp.level_run? _) left.low right.low fun _ => rfl
  | .comparison first chain => by
    have height := first.low.alone
    have heights := chain.low
    apply Low.of_height rfl
    simp only [Expr.height, Expr.heightIn, Expr.heightAll, phraseBound, Level.rank, List.map_cons]
      at height heights ⊢
    omega
  | .lift phrase => phrase.low.lift

theorem Chain.low {room : Nat} {last : Bool} {chain : List (ComparisonOp × Position × Expr)}
    {ts : List Token} : Chain room last chain ts →
      Expr.heightAll (chain.map (·.2.2)) ≤ phraseBound room .term
  | .last _ operand => by
    have height := operand.low.alone
    simpa [Expr.heightAll, Expr.height] using height
  | .more _ operand rest => by
    have height := operand.low.alone
    have heights := rest.low
    simp only [Expr.height, Expr.heightAll, List.map_cons] at height heights ⊢
    omega

theorem Arguments.low {room : Nat} {es : List Expr} {ts : List Token} :
    Arguments room es ts → Expr.heightAll es ≤ phraseBound room .disjunction
  | .last argument => by
    have height := argument.low.alone
    simpa [Expr.heightAll, Expr.height] using height
  | .more argument _ rest => by
    have height := argument.low.alone
    have heights := rest.low
    simp only [Expr.height, Expr.heightAll] at height heights ⊢
    omega

end

def elseIfs (ts : List Token) : Nat := ts.countP (·.kind = .elseIf)

theorem elseIfs_append (ts us : List Token) : elseIfs (ts ++ us) = elseIfs ts + elseIfs us :=
  List.countP_append

theorem elseIfs_cons (t : Token) (ts : List Token) :
    elseIfs (t :: ts) = elseIfs ts + if t.kind = .elseIf then 1 else 0 := by
  simp [elseIfs, List.countP_cons]

theorem Simple.height_le {room : Nat} {s : Statement} {ts : List Token} (h : Simple room s ts) :
    s.height ≤ 9 * room + 9 := by
  cases h with
  | expression phrase | value word phrase =>
    have height := phrase.low.alone
    simp only [Statement.height, phraseBound, Level.rank] at height ⊢
    omega
  | control word => simp [Statement.height]

mutual

theorem Block.height_le {room : Nat} {body : List Statement} {ts : List Token} :
    Block room body ts → Statement.heightAll body ≤ 9 * room + elseIfs ts
  | .braces _ inside _ => by
    have height := inside.height_le
    simp only [elseIfs_cons, elseIfs_append]
    omega

-- The token of an `else if` makes up for the level that its branch is higher.
theorem Otherwise.height_le {room : Nat} {otherwise : Option (List Statement)} {ts : List Token} :
    Otherwise room otherwise ts → Statement.heightElse otherwise ≤ 9 * room + 8 + elseIfs ts
  | .nothing => by simp [Statement.heightElse]
  | .block _ block => by
    have height := block.height_le
    simp only [Statement.heightElse, elseIfs_cons]
    omega
  | .branch word condition block rest => by
    have first := condition.low.alone
    have second := block.height_le
    have third := rest.height_le
    simp only [phraseBound, Level.rank] at first
    simp only [Statement.heightElse, Statement.heightAll, Statement.height, elseIfs_cons,
      elseIfs_append, if_pos word]
    omega

theorem Compound.height_le {room : Nat} {s : Statement} {ts : List Token} :
    Compound room s ts → s.height ≤ 9 * room + 9 + elseIfs ts
  | .branch _ condition block rest => by
    have first := condition.low.alone
    have second := block.height_le
    have third := rest.height_le
    simp only [phraseBound, Level.rank] at first
    simp only [Statement.height, elseIfs_cons, elseIfs_append]
    omega
  | .loop _ condition block => by
    have first := condition.low.alone
    have second := block.height_le
    simp only [phraseBound, Level.rank] at first
    simp only [Statement.height, elseIfs_cons, elseIfs_append]
    omega
  | .function _ _ _ _ _ block => by
    have height := block.height_le
    simp only [Statement.height, elseIfs_cons, elseIfs_append]
    omega

theorem Statements.height_le {room : Nat} {items : List Statement} {ts : List Token} :
    Statements room items ts → Statement.heightAll items ≤ 9 * room + 9 + elseIfs ts
  | .nil => by simp [Statement.heightAll]
  | .last statement => by
    have height := statement.height_le
    simp only [Statement.heightAll]
    omega
  | .simple statement _ more => by
    have first := statement.height_le
    have rest := more.height_le
    simp only [Statement.heightAll, elseIfs_cons, elseIfs_append]
    omega
  | .compound statement more => by
    have first := statement.height_le
    have rest := more.height_le
    simp only [Statement.heightAll, elseIfs_append]
    omega
  | .separated statement _ more => by
    have first := statement.height_le
    have rest := more.height_le
    simp only [Statement.heightAll, elseIfs_cons, elseIfs_append]
    omega

end

def branchTokens (word : Token) : List Token :=
  [word, ⟨.integer, default, "0", some (.int 0)⟩, ⟨.leftBrace, default, "\x7b", none⟩,
    ⟨.rightBrace, default, "\x7d", none⟩]

def laterBranches : Nat → List Token
  | 0 => []
  | n + 1 => branchTokens ⟨.elseIf, default, "else if", none⟩ ++ laterBranches n

def chainTokens (n : Nat) : List Token :=
  branchTokens ⟨.keyword .branch, default, "if", none⟩ ++ laterBranches n

theorem chainTokens_unplaced (n : Nat) : (chainTokens n).map Token.unplaced = chainTokens n := by
  have later : (laterBranches n).map Token.unplaced = laterBranches n := by
    induction n with
    | zero => rfl
    | succ n ih =>
      rw [laterBranches, List.map_append, ih]
      rfl
  rw [chainTokens, List.map_append, later]
  rfl

section

variable {room n : Nat} {word : Token} {ts : List Token}

theorem branchTokens_grammar (same : ts.map Token.unplaced = branchTokens word) :
    ∃ t zero l r, ts = t :: ([zero] ++ [l, r]) ∧ t.kind = word.kind ∧
      Phrase (room + 1) .disjunction true (.literal (.int 0) zero.pos) [zero] ∧
      Block (room + 1) [] [l, r] := by
  obtain ⟨t, ts, rfl, first, same⟩ := List.map_eq_cons_iff.mp same
  obtain ⟨zero, ts, rfl, second, same⟩ := List.map_eq_cons_iff.mp same
  obtain ⟨l, ts, rfl, third, same⟩ := List.map_eq_cons_iff.mp same
  obtain ⟨r, ts, rfl, fourth, same⟩ := List.map_eq_cons_iff.mp same
  obtain rfl : ts = [] := List.map_eq_nil_iff.mp same
  have ⟨kind, _, value⟩ := Token.of_unplaced second
  have condition : Phrase (room + 1) .primary true (.literal (.int 0) zero.pos) [zero] :=
    .literal (.inl kind) value
  exact ⟨t, zero, l, r, rfl, (Token.of_unplaced first).1, condition.loosen (by decide),
    .braces (Token.of_unplaced third).1 .nil (Token.of_unplaced fourth).1⟩

theorem laterBranches_grammar (same : ts.map Token.unplaced = laterBranches n) :
    ∃ otherwise, Otherwise (room + 1) otherwise ts ∧ n ≤ Statement.heightElse otherwise := by
  induction n generalizing ts with
  | zero =>
    obtain rfl : ts = [] := List.map_eq_nil_iff.mp same
    exact ⟨none, .nothing, Nat.zero_le _⟩
  | succ n ih =>
    obtain ⟨us, vs, rfl, first, later⟩ := List.map_eq_append_iff.mp same
    obtain ⟨t, zero, l, r, rfl, kind, condition, block⟩ := branchTokens_grammar first
    obtain ⟨otherwise, rest, height⟩ := ih later
    have branch := Otherwise.branch kind condition block rest
    simp only [List.cons_append, List.append_assoc] at branch ⊢
    refine ⟨_, branch, ?_⟩
    simp only [Statement.heightElse, Statement.heightAll, Statement.height]
    omega

theorem chainTokens_grammar (same : ts.map Token.unplaced = chainTokens n) :
    ∃ items, Statements (room + 1) items ts ∧ n < Statement.heightAll items := by
  obtain ⟨us, vs, rfl, first, later⟩ := List.map_eq_append_iff.mp same
  obtain ⟨t, zero, l, r, rfl, kind, condition, block⟩ := branchTokens_grammar first
  obtain ⟨otherwise, rest, height⟩ := laterBranches_grammar later
  have branch := Statements.compound (.branch kind condition block rest) .nil
  simp only [List.cons_append, List.append_assoc, List.append_nil] at branch ⊢
  refine ⟨_, branch, ?_⟩
  simp only [Statement.heightAll, Statement.height]
  omega

end

end Grammar

namespace Scan

theorem exists_laid (ts : List Token) : ∃ text, Laid ts text := by
  induction ts with
  | nil => exact ⟨[], .nil⟩
  | cons t ts ih =>
    obtain ⟨text, laid⟩ := ih
    exact ⟨_, .cons t .nil laid⟩

theorem exists_source {ts : List Token}
    (valid : ∀ t ∈ ts, Valid t ∧ t.kind.isSignificant = true) :
    ∃ source us, significantTokens source = .ok us ∧
      us.map Token.unplaced = ts.map Token.unplaced := by
  obtain ⟨text, laid⟩ := exists_laid ts
  obtain ⟨us, lexed, same⟩ := laid_yields laid valid .start
  refine ⟨.ofList text, _, significantTokens_eq_ok.mpr ⟨us, ?_, rfl⟩, same⟩
  rw [tokens, String.toList_ofList]
  exact tokensFrom_eq_ok.mpr lexed

theorem chainTokens_valid (n : Nat) :
    ∀ t ∈ Grammar.chainTokens n, Valid t ∧ t.kind.isSignificant = true := by
  have digits : Digits 10 ['0'] := ⟨nofun, List.forall_mem_singleton.mpr rfl⟩
  have branch {word : Token} (valid : Valid word) (kept : word.kind.isSignificant = true) :
      ∀ t ∈ Grammar.branchTokens word, Valid t ∧ t.kind.isSignificant = true := by
    refine List.forall_mem_cons.mpr ⟨⟨valid, kept⟩, List.forall_mem_cons.mpr ⟨⟨⟨?_, ?_⟩, rfl⟩, ?_⟩⟩
    · exact .integer (.decimal digits)
    · rfl
    · exact List.forall_mem_cons.mpr ⟨⟨⟨.sign rfl, rfl⟩, rfl⟩,
        List.forall_mem_singleton.mpr ⟨⟨.sign rfl, rfl⟩, rfl⟩⟩
  have later : ∀ t ∈ Grammar.laterBranches n, Valid t ∧ t.kind.isSignificant = true := by
    induction n with
    | zero => exact List.forall_mem_nil _
    | succ n ih =>
      have gap : ∀ c ∈ [' '], c = ' ' ∨ c = '\t' := List.forall_mem_singleton.mpr (.inl rfl)
      have lexeme := Lexeme.elseIf (List.cons_ne_nil ' ' []) gap
      exact List.forall_mem_append.mpr ⟨branch ⟨lexeme, rfl⟩ rfl, ih⟩
  exact List.forall_mem_append.mpr ⟨branch ⟨.keyword .branch, rfl⟩ rfl, later⟩

end Scan

/-- The limit of the parser bounds how high a program is, up to the branches of an `else if`, each
of which adds one to what the others are. -/
theorem height_bounded_by_branches {source : String} {ts : List Token} {items : List Statement}
    (lexed : tokens source = .ok ts) (read : readProgram source = .ok items) :
    Statement.heightAll items ≤ 9 * maxNesting + 9 + Grammar.elseIfs ts := by
  rw [readProgram, significantTokens_eq_ok.mpr ⟨ts, lexed, rfl⟩] at read
  have height := (Grammar.programWithin_eq_ok.mp read).height_le
  have fewer : Grammar.elseIfs (ts.filter (·.kind.isSignificant)) ≤ Grammar.elseIfs ts :=
    List.filter_sublist.countP_le
  omega

theorem height_bounded_by_branches_two :
    let source := "1 + 2 * 3 - 4; if 0 \x7b\x7d else if 0 \x7b\x7d else if 0 \x7b\x7d"
    ∃ ts items, tokens source = .ok ts ∧ readProgram source = .ok items ∧
      Statement.heightAll items ≤ 9 * maxNesting + 9 + Grammar.elseIfs ts ∧
      Grammar.elseIfs ts = 2 ∧ items.map Statement.height = [4, 4] := by
  intro source
  have lexed : ((tokens source).map Grammar.elseIfs).toOption = some 2 := by decide +kernel
  have parsed : ((readProgram source).map (·.map Statement.height)).toOption = some [4, 4] := by
    decide +kernel
  cases found : tokens source with
  | error e => simp [found, Except.map, Except.toOption] at lexed
  | ok ts =>
    cases read : readProgram source with
    | error e => simp [read, Except.map, Except.toOption] at parsed
    | ok items =>
      simp only [found, read, Except.map, Except.toOption, Option.some.injEq] at lexed parsed
      exact ⟨ts, items, rfl, rfl, height_bounded_by_branches found read, lexed, parsed⟩

theorem height_unbounded :
    ¬ ∃ bound, ∀ source items, readProgram source = .ok items →
      Statement.heightAll items ≤ bound := by
  rintro ⟨bound, bounded⟩
  obtain ⟨source, us, lexed, same⟩ := Scan.exists_source (Scan.chainTokens_valid bound)
  rw [Grammar.chainTokens_unplaced] at same
  obtain ⟨items, program, height⟩ := Grammar.chainTokens_grammar same
  have read : readProgram source = .ok items := by
    rw [readProgram, lexed]
    exact Grammar.programWithin_eq_ok.mpr program
  exact absurd (bounded source items read) (Nat.not_le_of_lt height)

end CalcScript
