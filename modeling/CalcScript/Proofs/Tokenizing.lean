import CalcScript.Proofs.LongestMatch

set_option autoImplicit false

namespace CalcScript

namespace Scan

section

variable {kind : TokenKind} {cs : List Char} {value : Nat}

theorem Numeral.value_eq (numeral : Numeral cs value) :
    digitsValue (integerDigits cs).1 (integerDigits cs).2 = value := by
  cases numeral with
  | decimal digits =>
    unfold integerDigits
    split
    · exact absurd (digits.2 'x' (by simp)) (by decide)
    · exact absurd (digits.2 'o' (by simp)) (by decide)
    · exact absurd (digits.2 'b' (by simp)) (by decide)
    · rfl
  | based known digits =>
    simp only [bases, List.mem_cons, Prod.mk.injEq, List.not_mem_nil, or_false] at known
    rcases known with ⟨rfl, rfl⟩ | ⟨rfl, rfl⟩ | ⟨rfl, rfl⟩ <;> rfl

theorem Numeral.value_unique {other : Nat} (numeral : Numeral cs value) (again : Numeral cs other) :
    value = other :=
  numeral.value_eq.symm.trans again.value_eq

theorem takeWhile_exact {p : Char → Bool} {ds rest : List Char} (all : ∀ d ∈ ds, p d = true)
    (stop : ∀ d ∈ rest.head?, p d = false) :
    (ds ++ rest).takeWhile p = ds ∧ (ds ++ rest).dropWhile p = rest := by
  rw [List.takeWhile_append_of_pos all, List.dropWhile_append_of_pos all]
  cases rest with
  | nil => simp
  | cons d rest => simp [stop d rfl]

theorem Power.shape {ps : List Char} (scale : Power ps) :
    ps = [] ∨ ∃ power, ps = 'e' :: power ∧
      ∃ digits, (if power.head? = some '+' ∨ power.head? = some '-' then power.tail else power) =
        digits ∧ Digits 10 digits := by
  cases scale with
  | none => exact .inl rfl
  | @mark sign ds signed digits =>
    refine .inr ⟨_, rfl, ds, ?_, digits⟩
    rcases signed with rfl | rfl | rfl
    · have unsigned := digits.unsigned []
      rw [List.append_nil] at unsigned
      exact if_neg unsigned
    · rfl
    · rfl

def powerValue : List Char → Int
  | [] => 0
  | _ :: power =>
    let digits := if power.head? = some '+' ∨ power.head? = some '-' then power.tail else power
    let size : Int := digitsValue 10 digits
    if power.head? = some '-' then -size else size

theorem ofChars?_eq {ws fs ps : List Char} (digits : Digits 10 ws) (point : Fraction fs)
    (scale : Power ps) : Decimal.ofChars? (ws ++ fs ++ ps) =
      some ⟨digitsValue 10 (ws ++ fs.tail), powerValue ps - fs.tail.length⟩ := by
  have stop : ∀ d ∈ ps.head?, isDigit 10 d = false := by
    cases scale with
    | none => nofun
    | mark =>
      rintro d first
      cases first
      decide
  have nonempty := digits.1
  rw [List.append_assoc]
  cases point with
  | none =>
    obtain ⟨whole, behind⟩ := takeWhile_exact digits.2 stop
    have noPoint : ps.head? ≠ some '.' := by cases scale <;> simp
    simp only [Decimal.ofChars?, List.nil_append, whole, behind, noPoint, nonempty]
    rcases scale.shape with rfl | ⟨power, rfl, ds, eq, some, all⟩
    · simp [powerValue]
    · simp [powerValue, eq, some, List.all_eq_true.mpr all]
  | @point fs inside =>
    have dot : ∀ d ∈ ('.' :: (fs ++ ps)).head?, isDigit 10 d = false := by
      rintro d first
      cases first
      decide
    obtain ⟨whole, behind⟩ := takeWhile_exact digits.2 dot
    obtain ⟨fraction, tail⟩ := takeWhile_exact inside stop
    simp only [Decimal.ofChars?, whole, behind, List.cons_append, List.head?_cons, List.tail_cons,
      fraction, tail, nonempty, if_true]
    rcases scale.shape with rfl | ⟨power, rfl, ds, eq, some, all⟩
    · simp [powerValue]
    · simp [powerValue, eq, some, List.all_eq_true.mpr all]

theorem Numeral.literal?_eq_error (numeral : Numeral cs value) :
    (∃ fault, literal? .integer cs = .error fault) ↔ Int64.maxValue.toInt < value := by
  simp only [literal?, numeral.value_eq]
  cases word : Word.ofInt? value with
  | none =>
    have low : Int64.minValue.toInt ≤ 0 := by decide
    have large := (Word.ofInt?_eq_none_iff.mp word).resolve_left (by omega)
    exact ⟨fun _ => large, fun _ => ⟨_, rfl⟩⟩
  | some w =>
    have fits : ¬Int64.maxValue.toInt < value := by
      intro large
      rw [Word.ofInt?_eq_none_iff.mpr (.inr large)] at word
      cases word
    refine ⟨?_, fun large => absurd large fits⟩
    rintro ⟨fault, failed⟩
    cases failed

theorem Lexeme.literal?_eq_error (lexeme : Lexeme kind cs) :
    (∃ fault, literal? kind cs = .error fault) ↔
      kind = .integer ∧ ∃ value, Numeral cs value ∧ Int64.maxValue.toInt < value := by
  by_cases whole : kind = .integer
  · subst whole
    have ⟨value, numeral⟩ : ∃ value, Numeral cs value := by
      cases lexeme with
      | integer numeral => exact ⟨_, numeral⟩
      | sign written => cases written
    rw [numeral.literal?_eq_error]
    refine ⟨fun large => ⟨rfl, value, numeral, large⟩, ?_⟩
    rintro ⟨-, other, again, large⟩
    rwa [numeral.value_unique again]
  · refine ⟨?_, fun ⟨same, _⟩ => absurd same whole⟩
    rintro ⟨fault, failed⟩
    cases lexeme with
    | integer => exact absurd rfl whole
    | float digits point scale =>
      simp only [literal?, ofChars?_eq digits point scale] at failed
      cases failed
    | sign written => cases kind <;> first | cases failed | cases written
    | _ => cases failed

end

structure Starts (pos : Position) (text : List Char) (t : Token) : Prop where
  based : ¬BareBase text
  longest : Longest text t.kind t.lexeme.toList
  literal : literal? t.kind t.lexeme.toList = .ok t.literal
  placed : t.pos = pos

inductive Barren (text : List Char) : Prop
  | none (nothing : ∀ kind ds, ¬Begins text kind ds)
  | bare (base : BareBase text)
  | large {ds : List Char} {value : Nat} (longest : Longest text .integer ds)
      (numeral : Numeral ds value) (large : Int64.maxValue.toInt < value)

section

variable {pos : Position} {c : Char} {cs : List Char} {t : Token} {n : Nat}

theorem token_eq_ok_iff : token pos c cs = .ok (t, n) ↔
    Starts pos (c :: cs) t ∧ t.lexeme.toList = c :: cs.take n ∧ n ≤ cs.length := by
  constructor
  · intro found
    have ⟨place, chars⟩ := token_eq_ok found
    simp only [token, bind, Except.bind] at found
    split at found
    · cases found
    · next r scanned =>
      split at found
      · cases found
      · next literal stands =>
        cases found
        obtain ⟨based, le, longest⟩ := scan_eq_ok.mp scanned
        rw [← chars] at longest stands
        exact ⟨⟨based, longest, stands, place⟩, chars, le⟩
  · rintro ⟨⟨based, longest, literal, rfl⟩, chars, le⟩
    rw [chars] at longest literal
    obtain ⟨kind, place, lexeme, value⟩ := t
    have text : String.ofList (c :: cs.take n) = lexeme := by
      rw [← chars, String.ofList_toList]
    simp only [token, scan_eq_ok.mpr ⟨based, le, longest⟩, literal, text, bind, Except.bind, pure,
      Except.pure]

theorem token_eq_error_iff : (∃ fault, token pos c cs = .error fault) ↔ Barren (c :: cs) := by
  constructor
  · rintro ⟨fault, failed⟩
    cases scanned : scan c cs with
    | error fault =>
      rcases scan_eq_error.mp ⟨fault, scanned⟩ with bare | nothing
      · exact .bare bare
      · exact .none nothing
    | ok r =>
      obtain ⟨kind, n⟩ := r
      obtain ⟨-, -, longest⟩ := scan_eq_ok.mp scanned
      cases stands : literal? kind (c :: cs.take n) with
      | error fault =>
        obtain ⟨rfl, value, numeral, large⟩ := longest.lexeme.literal?_eq_error.mp ⟨fault, stands⟩
        exact .large longest numeral large
      | ok literal =>
        simp only [token, scanned, stands, bind, Except.bind, pure, Except.pure] at failed
        cases failed
  · intro barren
    cases found : token pos c cs with
    | error fault => exact ⟨fault, rfl⟩
    | ok r =>
      obtain ⟨t, n⟩ := r
      obtain ⟨⟨based, longest, literal, -⟩, -, -⟩ := token_eq_ok_iff.mp found
      cases barren with
      | none nothing => exact absurd longest.toBegins (nothing _ _)
      | bare base => exact absurd base based
      | large again numeral large =>
        obtain ⟨same, rfl⟩ := longest.eq again
        obtain ⟨fault, failed⟩ := numeral.literal?_eq_error.mpr large
        rw [← same, literal] at failed
        cases failed

theorem Lexed.starts {rest : List Char} {ts : List Token} (lexed : Lexed pos cs ts rest) :
    ∀ before t later, ts = before ++ t :: later →
      Starts (pos.after (lexemes before)) (lexemes (t :: later) ++ rest) t := by
  induction lexed with
  | nothing pos cs => simp
  | token first run ih =>
    intro before t later eq
    cases before with
    | nil =>
      cases eq
      have all := (Lexed.token first run).text
      rw [all]
      exact (token_eq_ok_iff.mp first).1
    | cons u before =>
      cases eq
      rw [lexemes_cons, (token_eq_ok first).2, Position.after_append]
      exact ih before t later rfl

end

end Scan

open Scan

/-- Tokens are the longest lexemes at their places, one behind the other, up to the end of the text
or to the first place where there can be none. -/
theorem tokens_longest :
    (∀ pos c cs t n, token pos c cs = .ok (t, n) ↔
      Starts pos (c :: cs) t ∧ t.lexeme.toList = c :: cs.take n ∧ n ≤ cs.length) ∧
    (∀ pos c cs, (∃ fault, token pos c cs = .error fault) ↔ Barren (c :: cs)) ∧
    (∀ kind other cs, Lexeme kind cs → Lexeme other cs → kind = other) ∧
    (∀ source ts rest, Lexed .start source ts rest → ∀ before t later, ts = before ++ t :: later →
      Starts (.behind (lexemes before)) (lexemes (t :: later) ++ rest) t) ∧
    ∀ source, (∃ ts, tokens source = .ok ts ∧ Lexed .start source.toList ts []) ∨
      ∃ ts c rest fault, tokens source = .error (.located (.behind (lexemes ts)) fault) ∧
        Lexed .start source.toList ts (c :: rest) ∧ Barren (c :: rest) := by
  refine ⟨fun _ _ _ _ _ => token_eq_ok_iff, fun _ _ _ => token_eq_error_iff,
    fun _ _ _ lexeme again => lexeme.kind_eq again, ?_, fun source => ?_⟩
  · intro source ts rest lexed before t later eq
    rw [← Position.start_after]
    exact lexed.starts before t later eq
  · cases found : tokens source with
    | ok ts => exact .inl ⟨ts, rfl, tokensFrom_eq_ok.mp found⟩
    | error e =>
      obtain ⟨ts, c, rest, fault, lexed, -, failed, rfl⟩ := tokens_barren found
      exact .inr ⟨ts, c, rest, fault, rfl, lexed, token_eq_error_iff.mp ⟨fault, failed⟩⟩

theorem tokens_longest_else_iffy :
    (∃ ts rest, Lexed .start "else iffy".toList ts rest ∧
      Starts .start "else iffy".toList ⟨.keyword .otherwise, .start, "else", none⟩) ∧
    Starts .start "2e+".toList ⟨.integer, .start, "2", some (.int 2)⟩ ∧
    Lexeme .comment ['#'] ∧ (∀ other, Lexeme other ['#'] → TokenKind.comment = other) ∧
    Barren "0b2".toList := by
  have comment : Lexeme .comment ['#'] := .comment (by simp)
  have word : token .start 'e' "lse iffy".toList =
      .ok (⟨.keyword .otherwise, .start, "else", none⟩, 3) := by
    decide +kernel
  have lexed := Lexed.token word (.nothing _ _)
  refine ⟨⟨_, _, lexed, ?_⟩, ?_, comment, fun other again => ?_, ?_⟩
  · exact tokens_longest.2.2.2.1 _ _ _ lexed [] _ [] rfl
  · exact ((tokens_longest.1 .start '2' ['e', '+'] _ 0).mp (by decide +kernel)).1
  · exact tokens_longest.2.2.1 _ _ _ comment again
  · exact (tokens_longest.2.1 .start '0' ['b', '2']).mp ⟨_, rfl⟩

end CalcScript
