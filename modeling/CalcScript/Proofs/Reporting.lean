import CalcScript.Proofs.Hosting
import CalcScript.Proofs.Layout
import CalcScript.Proofs.Origins
import CalcScript.Report

set_option autoImplicit false

namespace CalcScript

namespace Text

section

variable {c : Char} {cs ds : List Char}

theorem lines_feed (cs : List Char) : lines ('\n' :: cs) = [] :: lines cs := by
  rw [lines]
  · simp
  · simp

theorem lines_cons (plain : c ≠ '\n') (apart : c = '\r' → cs.head? ≠ some '\n') :
    lines (c :: cs) = match lines cs with
      | [] => [[c]]
      | line :: rest => (c :: line) :: rest := by
  rw [lines]
  · exact if_neg plain
  · rintro ds rfl rfl
    exact apart rfl rfl

theorem lines_append_feed (cs ds : List Char) : ∃ front, front.length = cs.count '\n' + 1 ∧
    lines (cs ++ '\n' :: ds) = front ++ lines ds := by
  have step (c : Char) (cs : List Char) (apart : ∀ us, c = '\r' → cs = '\n' :: us → False)
      (plain : c ≠ '\n') (ih : ∃ front, front.length = cs.count '\n' + 1 ∧
        lines (cs ++ '\n' :: ds) = front ++ lines ds) :
      ∃ front, front.length = (c :: cs).count '\n' + 1 ∧
        lines (c :: cs ++ '\n' :: ds) = front ++ lines ds := by
    rw [List.count_cons_of_ne plain]
    by_cases ended : c = '\r' ∧ cs = []
    · obtain ⟨rfl, rfl⟩ := ended
      exact ⟨[[]], rfl, by simp [lines]⟩
    · obtain ⟨front, length, eq⟩ := ih
      obtain ⟨line, front, rfl⟩ := List.exists_cons_of_length_eq_add_one length
      refine ⟨(c :: line) :: front, length, ?_⟩
      rw [List.cons_append, lines_cons plain, eq]
      · rfl
      · rintro rfl
        cases cs with
        | nil => exact absurd ⟨rfl, rfl⟩ ended
        | cons d cs =>
          intro feed
          cases feed
          exact apart cs rfl rfl
  fun_induction lines cs with
  | case1 => exact ⟨[[]], rfl, lines_feed ds⟩
  | case2 cs ih =>
    obtain ⟨front, length, eq⟩ := ih
    exact ⟨[] :: front, by simp [length], by simp [lines, eq]⟩
  | case3 cs _ ih =>
    obtain ⟨front, length, eq⟩ := ih
    exact ⟨[] :: front, by simp [length], by rw [List.cons_append, lines_feed, eq]; rfl⟩
  | case4 c cs apart plain _ ih => exact step c cs apart plain ih
  | case5 c cs apart plain _ _ _ ih => exact step c cs apart plain ih

theorem lines_append_char (inside : '\n' ∉ cs) (feed : c ≠ '\n') (ending : c ≠ '\r')
    (ds : List Char) :
    ∃ more later, lines (cs ++ c :: ds) = (cs ++ c :: more) :: later := by
  induction cs with
  | nil =>
    rw [List.nil_append, lines_cons feed fun same => absurd same ending]
    cases lines ds with
    | nil => exact ⟨[], [], rfl⟩
    | cons line rest => exact ⟨line, rest, rfl⟩
  | cons b cs ih =>
    obtain ⟨plain, others⟩ := not_or.mp (List.mem_cons.not.mp inside)
    obtain ⟨more, later, eq⟩ := ih others
    refine ⟨more, later, ?_⟩
    rw [List.cons_append, lines_cons (Ne.symm plain), eq]
    · rfl
    · intro _ first
      cases cs with
      | nil => exact feed (Option.some.inj first)
      | cons d cs => exact others (Option.some.inj first ▸ .head cs)

end

end Text

theorem Position.behind_split (cs : List Char) : ∃ before line, cs = before ++ line ∧
    '\n' ∉ line ∧ (before = [] ∨ ∃ us, before = us ++ ['\n']) ∧
    behind cs = ⟨1 + before.count '\n', 1 + line.length⟩ := by
  induction cs using List.reverseRecOn with
  | nil => exact ⟨[], [], rfl, by simp, .inl rfl, rfl⟩
  | append_singleton cs c ih =>
    obtain ⟨before, line, rfl, inside, ended, place⟩ := ih
    rw [behind_append_singleton, place]
    by_cases feed : c = '\n'
    · subst feed
      refine ⟨before ++ line ++ ['\n'], [], by simp, by simp, .inr ⟨_, rfl⟩, ?_⟩
      simp [next, List.count_eq_zero_of_not_mem inside, Nat.add_assoc]
    · refine ⟨before, line ++ [c], by simp, ?_, ended, ?_⟩
      · simpa [inside] using Ne.symm feed
      · simp [next, feed, Nat.add_assoc]

theorem lines_behind (before rest : List Char) {c : Char} (feed : c ≠ '\n') (ending : c ≠ '\r') :
    ∃ row, (Text.lines (before ++ c :: rest))[(Position.behind before).line - 1]? = some row ∧
      row[(Position.behind before).column - 1]? = some c := by
  obtain ⟨head, row, rfl, inside, ended, place⟩ := Position.behind_split before
  obtain ⟨more, later, lines⟩ := Text.lines_append_char inside feed ending rest
  rw [place]
  refine ⟨row ++ c :: more, ?_, by simp⟩
  rcases ended with rfl | ⟨us, rfl⟩
  · simp [lines]
  · obtain ⟨front, length, eq⟩ := Text.lines_append_feed us (row ++ c :: rest)
    simp [eq, lines, ← length]

def Begun (source : String) (pos : Position) : Prop :=
  ∃ before t later, tokens source = .ok (before ++ t :: later) ∧ t.kind.isSignificant = true ∧
    pos = .behind (lexemes before)

def Unlexed (source : String) (pos : Position) : Prop :=
  ∃ before c rest, Scan.Lexed .start source.toList before (c :: rest) ∧
    Scan.Barren (c :: rest) ∧ pos = .behind (lexemes before)

def Visible (source : String) (pos : Position) : Prop :=
  ∃ row c, (Text.lines source.toList)[pos.line - 1]? = some row ∧
    row[pos.column - 1]? = some c

section

variable {source : String} {pos : Position} {ts : List Token}

theorem Begun.of_significant (lexed : significantTokens source = .ok ts)
    (among : pos ∈ ts.map (·.pos)) : Begun source pos := by
  obtain ⟨all, found, rfl⟩ := significantTokens_eq_ok.mp lexed
  obtain ⟨t, kept, rfl⟩ := List.mem_map.mp among
  obtain ⟨member, significant⟩ := List.mem_filter.mp kept
  obtain ⟨before, later, rfl⟩ := List.append_of_mem member
  have place := (tokens_spelled found).placed before t later rfl
  exact ⟨before, t, later, found, significant, place⟩

theorem Unlexed.of_error {fault : Fault} (failed : tokens source = .error (.located pos fault)) :
    Unlexed source pos := by
  obtain ⟨before, c, rest, _, lexed, -, barren, eq⟩ := tokens_barren failed
  cases eq
  exact ⟨before, c, rest, lexed, Scan.token_eq_error_iff.mp ⟨_, barren⟩, rfl⟩

theorem Scan.blank_of_break {c : Char} (ending : c = '\n' ∨ c = '\r') (cs : List Char) :
    Scan.scan c cs = .ok (.whitespace, 0) := by
  rcases ending with rfl | rfl <;> rfl

theorem Begun.visible (begun : Begun source pos) : Visible source pos := by
  obtain ⟨before, t, later, found, significant, rfl⟩ := begun
  have lexed := Scan.tokensFrom_eq_ok.mp found
  have lexeme := (lexed.valid t (by simp)).lexeme
  obtain ⟨c, tail, chars⟩ := List.exists_cons_of_ne_nil lexeme.ne_nil
  have ending : ¬(c = '\n' ∨ c = '\r') := by
    intro ending
    rw [chars] at lexeme
    have blank := lexeme.scan_eq_ok.symm.trans (Scan.blank_of_break ending tail)
    cases kind : t.kind <;> simp [kind] at blank
    simp [kind, TokenKind.isSignificant] at significant
  have text := lexed.text
  obtain ⟨feed, carriage⟩ := not_or.mp ending
  obtain ⟨row, shown⟩ := lines_behind (lexemes before) (tail ++ lexemes later) feed carriage
  refine ⟨row, c, ?_⟩
  rw [← text]
  simpa [lexemes, chars] using shown

theorem Unlexed.visible (unlexed : Unlexed source pos) : Visible source pos := by
  obtain ⟨before, c, rest, lexed, barren, rfl⟩ := unlexed
  have ending : ¬(c = '\n' ∨ c = '\r') := by
    intro ending
    obtain ⟨fault, failed⟩ : ∃ fault, Scan.token .start c rest = .error fault :=
      Scan.token_eq_error_iff.mpr barren
    simp [Scan.token, Scan.blank_of_break ending, Scan.literal?, bind, Except.bind, pure,
      Except.pure] at failed
  obtain ⟨feed, carriage⟩ := not_or.mp ending
  obtain ⟨row, shown⟩ := lines_behind (lexemes before) rest feed carriage
  refine ⟨row, c, ?_⟩
  rwa [lexed.text] at shown

theorem located_of_readProgram {fault : Fault}
    (failed : readProgram source = .error (.located pos fault)) :
    Begun source pos ∨ tokens source = .error (.located pos fault) := by
  cases lexed : significantTokens source with
  | ok ts =>
    simp only [readProgram, lexed, Parse.ok_bind] at failed
    exact .inl (.of_significant lexed (located_of_parseProgram failed))
  | error e =>
    simp only [readProgram, lexed, Parse.error_bind, Except.error.injEq] at failed
    subst failed
    right
    cases found : tokens source with
    | error e => simpa [significantTokens, found] using lexed
    | ok ts => simp [significantTokens, found] at lexed

theorem places_of_readProgram {items : List Statement} (read : readProgram source = .ok items)
    {s : Statement} (among : s ∈ items) : s.Within (Begun source) := by
  obtain ⟨ts, lexed, parsed⟩ := Parse.bind_eq_ok.mp read
  intro pos member
  have inside := Statement.mem_allPlaces.mpr ⟨s, among, member⟩
  exact .of_significant lexed (places_of_parseProgram parsed inside)

theorem Report.error_of_visible {fault : Fault} (visible : Visible source pos) :
    ∃ row c, (Text.lines source.toList)[pos.line - 1]? = some row ∧
      row[pos.column - 1]? = some c ∧
      Report.error source (.source (.located pos fault)) =
        .ofList (row ++ '\n' :: Report.caret row pos.column ++ ['\n']) ++
          (Error.source (.located pos fault)).message ++ "\n" := by
  obtain ⟨row, c, found, char⟩ := visible
  refine ⟨row, c, found, char, ?_⟩
  simp only [Report.error, Report.excerpt, found]

end

def Outcome.pos? {α : Type} : Outcome α → Option Position
  | .error e => e.pos?
  | _ => none

theorem Outcome.pos?_eq_some {α : Type} {o : Outcome α} {pos : Position} :
    o.pos? = some pos ↔ ∃ e, o = .error e ∧ e.pos? = some pos := by
  cases o <;> simp [pos?]

namespace Session

-- Cleared first, a session knows of no other text than the one it evaluates.
theorem runStatements_within {source : String} {items : List Statement}
    (read : readProgram source = .ok items) (rounds : Nat) (s : Session) :
    (s.clear.runStatements rounds items).1.Fits (Interrupt.Within (Begun source))
      (∀ v ∈ ·, v.Within (Begun source)) := by
  have keeps := Eval.statements_within rounds fun _ among => places_of_readProgram read among
  refine (run_fits ?_ keeps (.clear s fun _ => Value.Plain.within)).1
  exact fun known pos found => Option.some.inj found ▸ known.1

theorem error_places_cases (s : Session) (rounds : Nat) (source : String) {e : Error}
    {pos : Position} (failed : (s.evaluate rounds source true none).1 = .error e)
    (found : e.pos? = some pos) :
    Begun source pos ∨ ∃ fault, e = .source (.located pos fault) ∧
      tokens source = .error (.located pos fault) := by
  unfold evaluate at failed
  split at failed
  · cases failed
  · split at failed
    · next fault read =>
      cases failed
      cases fault with
      | incomplete => cases found
      | located place fault =>
        cases found
        exact (located_of_readProgram read).imp_right fun unread => ⟨fault, rfl, unread⟩
    · next items read =>
      have fits := runStatements_within read rounds s
      have ended : (s.clear.runStatements rounds items).1 = .error e := failed
      rw [ended] at fits
      exact .inl (fits pos found)

/-- The place of any error that a program ends in, of whatever kind, is that of a token of its text,
or the text has no tokens because none starts there. -/
theorem error_places (s : Session) (rounds : Nat) (source : String) {e : Error} {pos : Position}
    (failed : (s.evaluate rounds source true none).1 = .error e) (found : e.pos? = some pos) :
    (Begun source pos ∨ ∃ fault, e = .source (.located pos fault) ∧
      tokens source = .error (.located pos fault) ∧ Unlexed source pos) ∧
    ∀ fault, e = .source (.located pos fault) → ∃ row c,
      (Text.lines source.toList)[pos.line - 1]? = some row ∧ row[pos.column - 1]? = some c ∧
      Report.error source e =
        .ofList (row ++ '\n' :: Report.caret row pos.column ++ ['\n']) ++ e.message ++ "\n" := by
  have known := error_places_cases s rounds source failed found
  refine ⟨known.imp_right ?_, ?_⟩
  · rintro ⟨fault, rfl, unread⟩
    exact ⟨fault, rfl, unread, .of_error unread⟩
  · rintro fault rfl
    refine Report.error_of_visible ?_
    rcases known with begun | ⟨_, -, unread⟩
    · exact begun.visible
    · exact (Unlexed.of_error unread).visible

theorem error_places_second_lines :
    let s := ofConsole (.ofInput [])
    (∃ e, (s.evaluate 1 "f = 1; # f\n\tf(2)" true none).1 = .error e ∧
      e.pos? = some ⟨2, 2⟩ ∧ Begun "f = 1; # f\n\tf(2)" ⟨2, 2⟩) ∧
    ∃ e, (s.evaluate 1 "x = 1;\n\tx = @" true none).1 = .error e ∧ e.pos? = some ⟨2, 6⟩ ∧
      Report.error "x = 1;\n\tx = @" e = "\tx = @\n\t    ^\n" ++ e.message ++ "\n" := by
  intro s
  constructor
  · obtain ⟨e, failed, found⟩ : ∃ e, (s.evaluate 1 "f = 1; # f\n\tf(2)" true none).1 = .error e ∧
        e.pos? = some ⟨2, 2⟩ := Outcome.pos?_eq_some.mp (by decide +kernel)
    have lexed : (tokens "f = 1; # f\n\tf(2)").toOption.isSome = true := by decide +kernel
    obtain ⟨begun | ⟨fault, -, unread, -⟩, -⟩ := error_places s 1 _ failed found
    · exact ⟨e, failed, found, begun⟩
    · rw [unread] at lexed
      cases lexed
  · obtain ⟨e, failed, found⟩ : ∃ e, (s.evaluate 1 "x = 1;\n\tx = @" true none).1 = .error e ∧
        e.pos? = some ⟨2, 6⟩ := Outcome.pos?_eq_some.mp (by decide +kernel)
    have unlexed : (tokens "x = 1;\n\tx = @").toOption.isNone = true := by decide +kernel
    obtain ⟨⟨_, _, _, lexed, -⟩ | ⟨fault, eq, -⟩, shown⟩ := error_places s 1 _ failed found
    · rw [lexed] at unlexed
      cases unlexed
    · obtain ⟨row, _, is, -, report⟩ := shown fault eq
      have second : (Text.lines "x = 1;\n\tx = @".toList)[1]? = some "\tx = @".toList := by
        decide +kernel
      obtain rfl : row = "\tx = @".toList := Option.some.inj (is.symm.trans second)
      exact ⟨e, failed, found, report⟩

end Session

end CalcScript
