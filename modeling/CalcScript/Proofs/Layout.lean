import CalcScript.Proofs.LineBreaks
import CalcScript.Proofs.Moving

set_option autoImplicit false

namespace CalcScript

inductive Gap : List Char → Prop
  | nil : Gap []
  | blank {c : Char} {cs : List Char} (blank : c ∈ Scan.blanks) (more : Gap cs) : Gap (c :: cs)
  | comment {line cs : List Char} (inside : '\n' ∉ line) (more : Gap cs) :
      Gap ('#' :: (line ++ '\n' :: cs))

/-- Lexemes one after the other, each of them but the last with a gap behind it that starts on a new
line. Behind the last one there may be such a gap. -/
inductive Laid : List Token → List Char → Prop
  | nil : Laid [] []
  | last (t : Token) : Laid [t] t.lexeme.toList
  | cons (t : Token) {ts : List Token} {gap text : List Char} (apart : Gap gap)
      (more : Laid ts text) : Laid (t :: ts) (t.lexeme.toList ++ '\n' :: (gap ++ text))

def Token.unplaced : Token → Token := Token.move fun _ => default

theorem Token.of_unplaced {t u : Token} (same : t.unplaced = u) :
    t.kind = u.kind ∧ t.lexeme = u.lexeme ∧ t.literal = u.literal := by
  subst same
  exact ⟨rfl, rfl, rfl⟩

def SyntaxError.unplaced : SyntaxError → SyntaxError := SyntaxError.move fun _ => default

namespace Scan

section

variable {c : Char} {cs tail rest : List Char} {kind : TokenKind}

theorem scan_before_feed (lexeme : Lexeme kind (c :: tail)) (feed : ∀ d ∈ rest.head?, d = '\n') :
    scan c (tail ++ rest) = .ok (kind, tail.length) := by
  cases rest with
  | nil =>
    rw [List.append_nil]
    exact lexeme.scan_eq_ok
  | cons d rest =>
    obtain rfl : d = '\n' := feed d rfl
    exact scan_lengthen lexeme.scan_eq_ok rest

structure Valid (t : Token) : Prop where
  lexeme : Lexeme t.kind t.lexeme.toList
  literal : literal? t.kind t.lexeme.toList = .ok t.literal

theorem Starts.valid {pos : Position} {text : List Char} {t : Token} (starts : Starts pos text t) :
    Valid t :=
  ⟨starts.longest.lexeme, starts.literal⟩

theorem token_of_scan {t : Token} (chars : t.lexeme.toList = c :: tail)
    (scanned : scan c (tail ++ rest) = .ok (t.kind, tail.length))
    (literal : literal? t.kind (c :: tail) = .ok t.literal) (pos : Position) :
    Scan.token pos c (tail ++ rest) = .ok ({ t with pos := pos }, tail.length) := by
  have text : String.ofList (c :: tail) = t.lexeme := by rw [← chars, String.ofList_toList]
  simp only [Scan.token, scanned, List.take_left, literal, text, bind, Except.bind, pure,
    Except.pure]

theorem Valid.token {t : Token} (valid : Valid t) (chars : t.lexeme.toList = c :: tail)
    (feed : ∀ d ∈ rest.head?, d = '\n') (pos : Position) :
    Scan.token pos c (tail ++ rest) = .ok ({ t with pos := pos }, tail.length) := by
  obtain ⟨lexeme, literal⟩ := valid
  rw [chars] at lexeme literal
  exact token_of_scan chars (scan_before_feed lexeme feed) literal pos

end

section

variable {cs mid rest text gap : List Char} {ts us kept more : List Token}

theorem Lexed.append {pos : Position} (first : Lexed pos cs ts mid)
    (later : Lexed (pos.after (lexemes ts)) mid us rest) : Lexed pos cs (ts ++ us) rest := by
  induction first with
  | nothing => exact later
  | token found _ ih =>
    rw [lexemes_cons, (token_eq_ok found).2, Position.after_append] at later
    exact .token found (ih later)

def Yields (cs : List Char) (kept : List Token) (rest : List Char) : Prop :=
  ∀ pos, ∃ ts, Lexed pos cs ts rest ∧
    (ts.filter (·.kind.isSignificant)).map Token.unplaced = kept

theorem Yields.nothing (cs : List Char) : Yields cs [] cs := fun pos => ⟨[], .nothing pos cs, rfl⟩

theorem Yields.append (first : Yields cs kept mid) (later : Yields mid more rest) :
    Yields cs (kept ++ more) rest := by
  intro pos
  obtain ⟨ts, lexed, rfl⟩ := first pos
  obtain ⟨us, lexed', rfl⟩ := later (pos.after (lexemes ts))
  exact ⟨ts ++ us, lexed.append lexed', by simp⟩

theorem yields_of_found {t : Token} {c : Char} {tail : List Char}
    (chars : t.lexeme.toList = c :: tail)
    (found : ∀ pos, token pos c (tail ++ rest) = .ok ({ t with pos := pos }, tail.length)) :
    Yields (t.lexeme.toList ++ rest) (([t].filter (·.kind.isSignificant)).map Token.unplaced)
      rest := by
  intro pos
  have lexed := Lexed.token (found pos) (.nothing _ _)
  rw [List.drop_left, ← List.cons_append, ← chars] at lexed
  refine ⟨_, lexed, ?_⟩
  cases kept : t.kind.isSignificant <;> simp [kept, Token.unplaced, Token.move]

theorem Valid.yields {t : Token} (valid : Valid t) (rest : List Char)
    (feed : ∀ d ∈ rest.head?, d = '\n') :
    Yields (t.lexeme.toList ++ rest) (([t].filter (·.kind.isSignificant)).map Token.unplaced)
      rest := by
  obtain ⟨c, tail, chars⟩ := List.exists_cons_of_ne_nil valid.lexeme.ne_nil
  exact yields_of_found chars (valid.token chars feed)

theorem blank_token {c : Char} (blank : c ∈ blanks) (pos : Position) (cs : List Char) :
    token pos c cs = .ok (⟨.whitespace, pos, .ofList [c], none⟩, 0) := by
  have scanned : scan c cs = .ok (.whitespace, 0) := by
    simp only [blanks, List.mem_cons, List.not_mem_nil, or_false] at blank
    rcases blank with rfl | rfl | rfl | rfl | rfl <;> rfl
  simp only [token, scanned, literal?, bind, Except.bind, pure, Except.pure, List.take_zero]

theorem blank_yields {c : Char} (blank : c ∈ blanks) (cs : List Char) : Yields (c :: cs) [] cs :=
  fun pos => ⟨_, .token (blank_token blank pos cs) (.nothing _ _), rfl⟩

theorem comment_yields {line : List Char} (inside : '\n' ∉ line) (rest : List Char)
    (feed : ∀ d ∈ rest.head?, d = '\n') : Yields ('#' :: (line ++ rest)) [] rest := by
  have valid : Valid ⟨.comment, default, .ofList ('#' :: line), none⟩ :=
    ⟨by simpa using .comment inside, rfl⟩
  have yields := valid.yields rest feed
  rwa [String.toList_ofList] at yields

theorem gap_yields (apart : Gap gap) (rest : List Char) :
    Yields (gap ++ rest) [] rest := by
  induction apart with
  | nil => exact .nothing rest
  | blank blank _ ih => exact (blank_yields blank _).append ih
  | @comment line cs inside _ ih =>
    have first := comment_yields inside ('\n' :: (cs ++ rest)) (by simp)
    have later := (blank_yields (c := '\n') (by decide) (cs ++ rest)).append ih
    simpa using first.append later

theorem laid_yields (laid : Laid ts text)
    (valid : ∀ t ∈ ts, Valid t ∧ t.kind.isSignificant = true) :
    Yields text (ts.map Token.unplaced) [] := by
  induction laid with
  | nil => exact .nothing []
  | last t =>
    obtain ⟨found, kept⟩ := valid t (.head _)
    have yields := found.yields [] (by simp)
    simpa [kept] using yields
  | @cons t ts gap text apart more ih =>
    obtain ⟨⟨found, kept⟩, others⟩ := List.forall_mem_cons.mp valid
    have first := found.yields ('\n' :: (gap ++ text)) (by simp)
    have between := (blank_yields (c := '\n') (by decide) (gap ++ text)).append
      (gap_yields apart text)
    have yields := first.append (between.append (ih others))
    simpa [kept] using yields

theorem Lexed.valid {pos : Position} (lexed : Lexed pos cs ts rest) : ∀ t ∈ ts, Valid t := by
  intro t member
  obtain ⟨before, later, eq⟩ := List.append_of_mem member
  exact (lexed.starts before t later eq).valid

end

end Scan

theorem significantTokens_eq_ok {source : String} {ts : List Token} :
    significantTokens source = .ok ts ↔
      ∃ us, tokens source = .ok us ∧ ts = us.filter (·.kind.isSignificant) := by
  simp only [significantTokens, Parse.bind_eq_ok, Parse.pure_eq_ok, Except.ok.injEq]
  exact exists_congr fun us => and_congr_right fun _ => eq_comm

section

variable {source : String} {ts us : List Token} {front text : List Char}

theorem significantTokens_laid (lexed : significantTokens source = .ok ts) (gap : Gap front)
    (laid : Laid ts text) : ∃ us, significantTokens (.ofList (front ++ text)) = .ok us ∧
      us.map Token.unplaced = ts.map Token.unplaced := by
  obtain ⟨all, found, rfl⟩ := significantTokens_eq_ok.mp lexed
  have run := Scan.tokensFrom_eq_ok.mp found
  have valid (t : Token) (member : t ∈ all.filter (·.kind.isSignificant)) :
      Scan.Valid t ∧ t.kind.isSignificant = true := by
    obtain ⟨inside, kept⟩ := List.mem_filter.mp member
    exact ⟨run.valid t inside, kept⟩
  obtain ⟨us, lexed, kept⟩ :=
    (Scan.gap_yields gap text).append (Scan.laid_yields laid valid) .start
  refine ⟨_, significantTokens_eq_ok.mpr ⟨us, ?_, rfl⟩, kept⟩
  rw [tokens, String.toList_ofList]
  exact Scan.tokensFrom_eq_ok.mpr lexed

def unplacedResult {α : Type} (unplaced : α → α) (r : Except SyntaxError α) :
    Except SyntaxError α :=
  (r.map unplaced).mapError .unplaced

theorem parseProgram_of_unplaced (same : us.map Token.unplaced = ts.map Token.unplaced) :
    unplacedResult Statement.unplacedAll (parseProgram us) =
      unplacedResult Statement.unplacedAll (parseProgram ts) := by
  have unplaced : Statement.unplacedAll = Statement.moveAll fun _ => default :=
    funext Statement.unplacedAll_eq_moveAll
  rw [unplacedResult, unplacedResult, unplaced]
  exact (parseProgram_map _ us).symm.trans
    ((congrArg parseProgram same).trans (parseProgram_map _ ts))

theorem parseExpression_of_unplaced (same : us.map Token.unplaced = ts.map Token.unplaced) :
    unplacedResult Expr.unplaced (parseExpression us) =
      unplacedResult Expr.unplaced (parseExpression ts) := by
  have unplaced : Expr.unplaced = Expr.move fun _ => default := funext Expr.unplaced_eq_move
  rw [unplacedResult, unplacedResult, unplaced]
  exact (parseExpression_map _ us).symm.trans
    ((congrArg parseExpression same).trans (parseExpression_map _ ts))

/-- The tokens of a text, laid out in any other way on lines of their own, are the same, and so is
what is read from them or what is wrong with them, apart from the places. -/
theorem layout_irrelevant (lexed : significantTokens source = .ok ts) (gap : Gap front)
    (laid : Laid ts text) :
    (∃ us, significantTokens (.ofList (front ++ text)) = .ok us ∧
      us.map Token.unplaced = ts.map Token.unplaced) ∧
    unplacedResult Statement.unplacedAll (readProgram (.ofList (front ++ text))) =
      unplacedResult Statement.unplacedAll (readProgram source) ∧
    unplacedResult Expr.unplaced (readExpression (.ofList (front ++ text))) =
      unplacedResult Expr.unplaced (readExpression source) := by
  obtain ⟨us, found, same⟩ := significantTokens_laid lexed gap laid
  refine ⟨⟨us, found, same⟩, ?_, ?_⟩
  · simp only [readProgram, found, lexed, Parse.ok_bind]
    exact parseProgram_of_unplaced same
  · simp only [readExpression, found, lexed, Parse.ok_bind]
    exact parseExpression_of_unplaced same

end

theorem layout_irrelevant_assignment :
    let source := "x=2;"
    let laid := "\t# a\nx\n#=\n=\n\n2\n;\n\x0b"
    (∃ ts us, significantTokens source = .ok ts ∧ significantTokens laid = .ok us ∧
      us.map Token.unplaced = ts.map Token.unplaced) ∧
    unplacedResult Statement.unplacedAll (readProgram laid) =
      unplacedResult Statement.unplacedAll (readProgram source) := by
  intro source laid
  have lexed : significantTokens source = .ok [⟨.identifier, ⟨1, 1⟩, "x", none⟩,
      ⟨.assign, ⟨1, 2⟩, "=", none⟩, ⟨.integer, ⟨1, 3⟩, "2", some (.int 2)⟩,
      ⟨.semicolon, ⟨1, 4⟩, ";", none⟩] := by
    decide +kernel
  have line (cs : List Char) (inside : '\n' ∉ cs) : Gap ('#' :: (cs ++ ['\n'])) :=
    .comment inside .nil
  have front : Gap ('\t' :: '#' :: ([' ', 'a'] ++ ['\n'])) :=
    .blank (by decide) (line _ (by decide))
  have text := Laid.cons ⟨.identifier, ⟨1, 1⟩, "x", none⟩ (line ['='] (by decide))
    (.cons ⟨.assign, ⟨1, 2⟩, "=", none⟩ (.blank (c := '\n') (by decide) .nil)
      (.cons ⟨.integer, ⟨1, 3⟩, "2", some (.int 2)⟩ .nil
        (.cons ⟨.semicolon, ⟨1, 4⟩, ";", none⟩ (.blank (c := '\x0b') (by decide) .nil) .nil)))
  have ⟨⟨us, found, same⟩, program, _⟩ := layout_irrelevant lexed front text
  exact ⟨⟨_, us, lexed, found, same⟩, program⟩

end CalcScript
