import CalcScript.Proofs.Hosting
import CalcScript.Proofs.Literals

set_option autoImplicit false

namespace CalcScript

namespace Scan

section

variable {c : Char} {front rest : List Char}

theorem scan_blank (blank : Text.isBlank c = true) (other : c ∉ blanks) (cs : List Char) :
    scan c cs = .error (.unexpectedCharacter c) := by
  have letter : ¬isWordChar c = true := by
    intro inside
    rw [isBlank_of_isWordChar inside] at blank
    cases blank
  have start : ¬isWordStart c = true := mt isWordChar_of_isWordStart letter
  have digit : ¬isDigit 10 c = true := mt isWordChar_of_isDigit letter
  have plain : TokenKind.ofChar? c = none := by
    cases found : TokenKind.ofChar? c with
    | none => rfl
    | some kind =>
      have reads : Reads c [] kind 0 := ofChar?_reads found
      have lexeme := reads.begins.lexeme
      obtain ⟨rfl, -⟩ := lexeme.of_blank blank
      cases lexeme with
      | whitespace between => exact absurd between other
      | sign written => cases written
  unfold scan
  split
  case h_16 => simp only [plain, if_neg start, if_neg digit]
  all_goals exact absurd blank (by decide)

theorem tokensFrom_behind_blanks (before : ∀ d ∈ front, d ∈ blanks) {pos : Position}
    {e : SyntaxError} (failed : tokensFrom (pos.after front) rest = .error e) :
    tokensFrom pos (front ++ rest) = .error e := by
  induction front generalizing pos with
  | nil => exact failed
  | cons d front ih =>
    obtain ⟨blank, before⟩ := List.forall_mem_cons.mp before
    have later := ih before failed
    rw [List.cons_append, tokensFrom, blank_token blank]
    simp only [List.take_zero, List.drop_zero]
    change (tokensFrom (pos.next d) (front ++ rest) >>= _) = _
    rw [later]
    rfl

end

end Scan

section

variable {source : String}

theorem readProgram_of_blanks (blank : ∀ c ∈ source.toList, c ∈ Scan.blanks) :
    readProgram source = .ok [] := by
  obtain ⟨ts, lexed, kept⟩ := Scan.blanks_yield blank [] .start
  rw [List.append_nil] at lexed
  have none : ts.filter (·.kind.isSignificant) = [] := List.map_eq_nil_iff.mp kept
  have found : significantTokens source = .ok [] :=
    significantTokens_eq_ok.mpr ⟨ts, Scan.tokensFrom_eq_ok.mpr lexed, none.symm⟩
  rw [readProgram, found]
  rfl

theorem readProgram_of_blank {front rest : List Char} {c : Char}
    (text : source.toList = front ++ c :: rest) (before : ∀ d ∈ front, d ∈ Scan.blanks)
    (blank : Text.isBlank c = true) (other : c ∉ Scan.blanks) :
    readProgram source = .error (.located (.behind front) (.unexpectedCharacter c)) := by
  have failed : Scan.tokensFrom (Position.start.after front) (c :: rest) =
      .error (.located (.behind front) (.unexpectedCharacter c)) := by
    rw [Scan.tokensFrom, Scan.token, Scan.scan_blank blank other, Position.start_after]
    rfl
  have stops : tokens source = .error (.located (.behind front) (.unexpectedCharacter c)) := by
    rw [tokens, text]
    exact Scan.tokensFrom_behind_blanks before failed
  rw [readProgram, significantTokens, stops]
  rfl

theorem exists_odd_blank {cs : List Char} (odd : ¬ ∀ c ∈ cs, c ∈ Scan.blanks) :
    ∃ front c rest, cs = front ++ c :: rest ∧ (∀ d ∈ front, d ∈ Scan.blanks) ∧
      c ∉ Scan.blanks := by
  induction cs with
  | nil => exact absurd (List.forall_mem_nil _) odd
  | cons d cs ih =>
    by_cases first : d ∈ Scan.blanks
    · have later : ¬ ∀ c ∈ cs, c ∈ Scan.blanks := fun all =>
        odd (List.forall_mem_cons.mpr ⟨first, all⟩)
      obtain ⟨front, c, rest, rfl, before, other⟩ := ih later
      exact ⟨d :: front, c, rest, rfl, List.forall_mem_cons.mpr ⟨first, before⟩, other⟩
    · exact ⟨[], d, cs, rfl, List.forall_mem_nil _, first⟩

end

namespace Session

def evaluateAll (rounds : Nat) (source : String) (clearFirst : Bool) (last : Option Value)
    (s : Session) : Outcome (List Value) × Session :=
  match readProgram source with
  | .error e => (.error (.source e), s)
  | .ok items => (s.started clearFirst last).runStatements rounds items

section

variable (rounds : Nat) {source : String} (clearFirst : Bool) (last : Option Value) (s : Session)

theorem evaluateAll_blanks (blank : ∀ c ∈ source.toList, c ∈ Scan.blanks) :
    s.evaluateAll rounds source clearFirst last = (.value [], s.started clearFirst last) := by
  rw [evaluateAll, readProgram_of_blanks blank]
  rfl

theorem evaluateAll_blank {front rest : List Char} {c : Char}
    (empty : Text.trim source.toList = []) (text : source.toList = front ++ c :: rest)
    (before : ∀ d ∈ front, d ∈ Scan.blanks) (other : c ∉ Scan.blanks) :
    s.evaluateAll rounds source clearFirst last =
      (.error (.source (.located (.behind front) (.unexpectedCharacter c))), s) := by
  have blank : Text.isBlank c = true := Text.trim_eq_nil.mp empty c (by simp [text])
  rw [evaluateAll, readProgram_of_blank text before blank other]

/-- A text that is not blank is read, and what it says is evaluated in the session that was made
ready. -/
theorem evaluate_eq_evaluateAll (source : String) :
    (Text.trim source.toList ≠ [] →
      s.evaluate rounds source clearFirst last = s.evaluateAll rounds source clearFirst last) ∧
    (Text.trim source.toList = [] →
      s.evaluate rounds source clearFirst last = (.value [], s) ∧
      ((∀ c ∈ source.toList, c ∈ Scan.blanks) →
        s.evaluateAll rounds source clearFirst last = (.value [], s.started clearFirst last)) ∧
      (∀ front c rest, source.toList = front ++ c :: rest → (∀ d ∈ front, d ∈ Scan.blanks) →
        c ∉ Scan.blanks → s.evaluateAll rounds source clearFirst last =
          (.error (.source (.located (.behind front) (.unexpectedCharacter c))), s)) ∧
      (s.evaluate rounds source clearFirst last = s.evaluateAll rounds source clearFirst last ↔
        (∀ c ∈ source.toList, c ∈ Scan.blanks) ∧ s.started clearFirst last = s)) := by
  constructor
  · intro nonblank
    rw [evaluate, if_neg nonblank]
    rfl
  · intro empty
    have nothing : s.evaluate rounds source clearFirst last = (.value [], s) := by
      rw [evaluate, if_pos empty]
    refine ⟨nothing, evaluateAll_blanks rounds clearFirst last s, fun front c rest text before =>
      evaluateAll_blank rounds clearFirst last s empty text before, ?_⟩
    rw [nothing]
    constructor
    · intro same
      by_cases blank : ∀ c ∈ source.toList, c ∈ Scan.blanks
      · rw [evaluateAll_blanks rounds clearFirst last s blank] at same
        exact ⟨blank, (congrArg Prod.snd same).symm⟩
      · obtain ⟨front, c, rest, text, before, other⟩ := exists_odd_blank blank
        rw [evaluateAll_blank rounds clearFirst last s empty text before other] at same
        cases same
    · rintro ⟨blank, ready⟩
      rw [evaluateAll_blanks rounds clearFirst last s blank, ready]

end

def withBinding : Session := ⟨Frame.initial.set "x" (.int 1), [], .ofInput []⟩

theorem evaluate_eq_evaluateAll_samples :
    withBinding.evaluate 0 "x" true none = withBinding.evaluateAll 0 "x" true none ∧
    withBinding.evaluate 0 "\n\n" true (some .nothing) = (.value [], withBinding) ∧
    withBinding.evaluateAll 0 " \u00a0" false none =
      (.error (.source (.located ⟨1, 2⟩ (.unexpectedCharacter '\u00a0'))), withBinding) := by
  refine ⟨?_, ?_, ?_⟩
  · exact (evaluate_eq_evaluateAll 0 true none withBinding "x").1 (by decide)
  · exact ((evaluate_eq_evaluateAll 0 true (some .nothing) withBinding "\n\n").2 (by decide)).1
  · exact ((evaluate_eq_evaluateAll 0 false none withBinding " \u00a0").2 (by decide)).2.2.1
      [' '] '\u00a0' [] rfl (List.forall_mem_singleton.mpr (by decide)) (by decide)

theorem blank_not_evaluated :
    withBinding.evaluate 0 " " true none ≠ withBinding.evaluateAll 0 " " true none ∧
    withBinding.evaluate 0 "" false (some (.int 7)) ≠
      withBinding.evaluateAll 0 "" false (some (.int 7)) ∧
    withBinding.evaluate 0 "\u00a0" false none ≠
      withBinding.evaluateAll 0 "\u00a0" false none := by
  refine ⟨fun same => ?_, fun same => ?_, fun same => ?_⟩
  · have bound := congrArg (fun r => (r.2.globals.get? "x").isSome) same
    exact absurd bound (by decide +kernel)
  · have bound := congrArg (fun r => (r.2.globals.get? "_").isSome) same
    exact absurd bound (by decide +kernel)
  · have accepted := congrArg (fun r => r.1 matches .value _) same
    exact absurd accepted (by decide +kernel)

end Session

end CalcScript
