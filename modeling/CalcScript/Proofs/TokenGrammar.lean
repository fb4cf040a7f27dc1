import CalcScript.Token.Scan

set_option autoImplicit false

namespace CalcScript

namespace TokenKind

def sign? : TokenKind → Option (List Char)
  | .leftParen => some ['(']
  | .rightParen => some [')']
  | .leftBrace => some ['{']
  | .rightBrace => some ['}']
  | .comma => some [',']
  | .semicolon => some [';']
  | .bang => some ['!']
  | .binary op => some op.symbol.toList
  | .logical .and => some ['&', '&']
  | .logical .or => some ['|', '|']
  | .comparison op => some op.symbol.toList
  | .assign => some ['=']
  | .compound op => some (op.symbol.toList ++ ['='])
  | _ => none

end TokenKind

namespace Scan

def blanks : List Char := [' ', '\t', '\r', '\n', '\x0b']

def bases : List (Char × Nat) := [('x', 16), ('o', 8), ('b', 2)]

def Digits (base : Nat) (cs : List Char) : Prop := cs ≠ [] ∧ ∀ d ∈ cs, isDigit base d = true

inductive Numeral : List Char → Nat → Prop
  | decimal {ds : List Char} (digits : Digits 10 ds) : Numeral ds (digitsValue 10 ds)
  | based {mark : Char} {base : Nat} {ds : List Char} (known : (mark, base) ∈ bases)
      (digits : Digits base ds) : Numeral ('0' :: mark :: ds) (digitsValue base ds)

inductive Fraction : List Char → Prop
  | none : Fraction []
  | point {ds : List Char} (digits : ∀ d ∈ ds, isDigit 10 d = true) : Fraction ('.' :: ds)

inductive Power : List Char → Prop
  | none : Power []
  | mark {sign ds : List Char} (signed : sign = [] ∨ sign = ['+'] ∨ sign = ['-'])
      (digits : Digits 10 ds) : Power ('e' :: (sign ++ ds))

inductive Word : List Char → Prop
  | own {c : Char} {cs : List Char} (start : isWordStart c = true)
      (inside : ∀ d ∈ cs, isWordChar d = true) : Word (c :: cs)
  | global {c : Char} {cs : List Char} (start : isWordStart c = true)
      (inside : ∀ d ∈ cs, isWordChar d = true) : Word ('$' :: c :: cs)

inductive Quotable : List Char → Prop
  | nil : Quotable []
  | plain {c : Char} {cs : List Char} (noQuote : c ≠ '"') (noEscape : c ≠ '\\')
      (more : Quotable cs) : Quotable (c :: cs)
  | escaped (c : Char) {cs : List Char} (more : Quotable cs) : Quotable ('\\' :: c :: cs)

inductive Lexeme : TokenKind → List Char → Prop
  | whitespace {c : Char} (blank : c ∈ blanks) : Lexeme .whitespace [c]
  | comment {cs : List Char} (line : '\n' ∉ cs) : Lexeme .comment ('#' :: cs)
  | sign {kind : TokenKind} {cs : List Char} (written : kind.sign? = some cs) : Lexeme kind cs
  | keyword (k : Keyword) : Lexeme (.keyword k) k.spelling.toList
  | identifier {cs : List Char} (word : Word cs) (own : ∀ k : Keyword, cs ≠ k.spelling.toList) :
      Lexeme .identifier cs
  | elseIf {gap : List Char} (apart : gap ≠ []) (blank : ∀ c ∈ gap, c = ' ' ∨ c = '\t') :
      Lexeme .elseIf (['e', 'l', 's', 'e'] ++ gap ++ ['i', 'f'])
  | integer {cs : List Char} {value : Nat} (numeral : Numeral cs value) : Lexeme .integer cs
  | float {whole fraction power : List Char} (digits : Digits 10 whole)
      (point : Fraction fraction) (scale : Power power) (some : fraction ≠ [] ∨ power ≠ []) :
      Lexeme .float (whole ++ fraction ++ power)
  | string {cs : List Char} (inside : Quotable cs) : Lexeme .string ('"' :: (cs ++ ['"']))

/-- A lexeme at the front of a text. Behind an `else if`, the word `if` has to be over. -/
structure Begins (text : List Char) (kind : TokenKind) (cs : List Char) : Prop where
  lexeme : Lexeme kind cs
  front : cs <+: text
  stops : kind = .elseIf → ∀ d ∈ (text.drop cs.length).head?, isWordChar d = false

structure Longest (text : List Char) (kind : TokenKind) (cs : List Char) : Prop extends
    Begins text kind cs where
  longest : ∀ other ds, Begins text other ds → ds.length ≤ cs.length

def BareBase (text : List Char) : Prop :=
  ∃ mark base rest, (mark, base) ∈ bases ∧ text = '0' :: mark :: rest ∧
    ∀ d ∈ rest.head?, isDigit base d = false

section

variable {p : Char → Bool} {cs ds : List Char}

theorem runLength_append (all : ∀ d ∈ ds, p d = true) (rest : List Char) :
    runLength p (ds ++ rest) = ds.length + runLength p rest := by
  simp [runLength, List.takeWhile_append_of_pos all]

theorem runLength_stop (stop : ∀ d ∈ cs.head?, p d = false) : runLength p cs = 0 := by
  cases cs with
  | nil => rfl
  | cons c cs => simp [runLength, stop c rfl]

theorem runLength_exact (all : ∀ d ∈ ds, p d = true) {rest : List Char}
    (stop : ∀ d ∈ rest.head?, p d = false) : runLength p (ds ++ rest) = ds.length := by
  rw [runLength_append all, runLength_stop stop, Nat.add_zero]

theorem runLength_split (p : Char → Bool) (cs : List Char) :
    ∃ ds rest, cs = ds ++ rest ∧ (∀ d ∈ ds, p d = true) ∧ (∀ d ∈ rest.head?, p d = false) ∧
      runLength p cs = ds.length := by
  induction cs with
  | nil => exact ⟨[], [], rfl, by simp, by simp, rfl⟩
  | cons c cs ih =>
    cases here : p c with
    | false =>
      have stop : ∀ d ∈ (c :: cs).head?, p d = false := by simpa using here
      exact ⟨[], c :: cs, rfl, by simp, stop, runLength_stop stop⟩
    | true =>
      obtain ⟨ds, rest, rfl, all, stop, length⟩ := ih
      have all' : ∀ d ∈ c :: ds, p d = true := List.forall_mem_cons.mpr ⟨here, all⟩
      exact ⟨c :: ds, rest, rfl, all', stop, runLength_exact all' stop⟩

end

theorem isWordChar_of_isWordStart {c : Char} (start : isWordStart c = true) :
    isWordChar c = true := by
  simp only [isWordStart, isWordChar, Char.isAlphanum, Bool.or_eq_true] at start ⊢
  exact start.imp_left .inl

theorem Digits.unsigned {ds : List Char} (digits : Digits 10 ds) (rest : List Char) :
    ¬((ds ++ rest).head? = some '+' ∨ (ds ++ rest).head? = some '-') := by
  obtain ⟨d, ds, rfl⟩ := List.exists_cons_of_ne_nil digits.1
  have digit := digits.2 d (.head _)
  rintro (plus | minus)
  · cases plus
    exact absurd digit (by decide)
  · cases minus
    exact absurd digit (by decide)

theorem stringLength?_eq_some {cs : List Char} {n : Nat} : stringLength? cs = some n ↔
    ∃ inside rest, Quotable inside ∧ cs = inside ++ '"' :: rest ∧ n = inside.length + 1 := by
  constructor
  · intro found
    fun_induction stringLength? cs generalizing n with
    | case1 => cases found
    | case2 rest =>
      cases found
      exact ⟨[], rest, .nil, rfl, rfl⟩
    | case3 c cs ih =>
      obtain ⟨m, later, rfl⟩ := Option.map_eq_some_iff.mp found
      obtain ⟨inside, rest, quotable, rfl, rfl⟩ := ih later
      exact ⟨'\\' :: c :: inside, rest, .escaped c quotable, rfl, rfl⟩
    | case4 c cs noQuote noEscape ih =>
      obtain ⟨m, later, rfl⟩ := Option.map_eq_some_iff.mp found
      obtain ⟨inside, rest, quotable, rfl, rfl⟩ := ih later
      refine ⟨c :: inside, rest, .plain ?_ ?_ quotable, rfl, rfl⟩
      · rintro rfl
        exact noQuote rfl
      · rintro rfl
        cases inside with
        | nil => exact noEscape '"' rest rfl rfl
        | cons d inside => exact noEscape d _ rfl rfl
  · rintro ⟨inside, rest, quotable, rfl, rfl⟩
    induction quotable with
    | nil => rfl
    | plain noQuote noEscape more ih =>
      rw [List.cons_append, stringLength?, ih]
      · rfl
      · exact noQuote
      · intro _ _ escape
        exact absurd escape noEscape
    | escaped c more ih =>
      rw [List.cons_append, List.cons_append, stringLength?, ih]
      rfl

theorem trailingIf?_eq_some {cs : List Char} {n : Nat} : trailingIf? cs = some n ↔
    ∃ gap rest, gap ≠ [] ∧ (∀ c ∈ gap, c = ' ' ∨ c = '\t') ∧ cs = gap ++ 'i' :: 'f' :: rest ∧
      (∀ d ∈ rest.head?, isWordChar d = false) ∧ n = gap.length + 2 := by
  constructor
  · intro found
    obtain ⟨gap, behind, rfl, blank, -, length⟩ :=
      runLength_split (fun c => c = ' ' || c = '\t') cs
    simp only [trailingIf?, length, List.drop_left] at found
    split at found
    · next rest =>
      split at found
      · cases found
      · next going =>
        cases found
        obtain ⟨some, stops⟩ := not_or.mp going
        refine ⟨gap, rest, ?_, by simpa using blank, rfl, ?_, rfl⟩
        · rintro rfl
          exact some rfl
        · intro d first
          simpa [Option.mem_def.mp first] using stops
    · cases found
  · rintro ⟨gap, rest, some, blank, rfl, stops, rfl⟩
    have length : runLength (fun c => c = ' ' || c = '\t') (gap ++ 'i' :: 'f' :: rest) =
        gap.length :=
      runLength_exact (by simpa using blank) (by simp)
    have going : ¬(gap.length = 0 ∨ rest.head?.any isWordChar = true) := by
      rintro (none | word)
      · exact some (List.length_eq_zero_iff.mp none)
      · obtain ⟨d, first, inside⟩ := (Option.any_eq_true _ _).mp word
        rw [stops d first] at inside
        cases inside
    simp only [trailingIf?, length, List.drop_left, if_neg going]

theorem ofWord?_eq_some {cs : List Char} {k : Keyword} :
    Keyword.ofWord? (.ofList cs) = some k ↔ cs = k.spelling.toList := by
  constructor
  · intro found
    unfold Keyword.ofWord? at found
    have same := List.find?_some found
    rw [beq_iff_eq.mp same, String.toList_ofList]
  · rintro rfl
    rw [String.ofList_toList, Keyword.ofWord?_spelling]

end Scan

end CalcScript
