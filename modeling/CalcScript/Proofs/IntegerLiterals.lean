import CalcScript.Proofs.Escapes
import CalcScript.Proofs.Layout
import Mathlib.Data.Nat.Digits.Defs

set_option autoImplicit false

namespace CalcScript.Scan

structure DigitOf (base : Nat) (c : Char) (k : Nat) : Prop where
  lt : k < base
  written : c = k.digitChar ∨ c = k.digitChar.toUpper

instance (base : Nat) (c : Char) (k : Nat) : Decidable (DigitOf base c k) :=
  decidable_of_iff (k < base ∧ (c = k.digitChar ∨ c = k.digitChar.toUpper))
    ⟨fun ⟨lt, written⟩ => ⟨lt, written⟩, fun ⟨lt, written⟩ => ⟨lt, written⟩⟩

section

variable {base k : Nat} {c : Char} {ds : List Char} {ks : List Nat}

theorem digitValue?_eq_some (small : base ≤ 16) :
    digitValue? base c = some k ↔ DigitOf base c k := by
  have filtered : digitValue? base c = some k ↔ digitValue? 16 c = some k ∧ k < base := by
    simp only [digitValue?, Option.filter_eq_some_iff, decide_eq_true_eq]
    constructor
    · rintro ⟨value, lt⟩
      exact ⟨⟨value, by omega⟩, lt⟩
    · rintro ⟨⟨value, -⟩, lt⟩
      exact ⟨value, lt⟩
  rw [filtered]
  constructor
  · rintro ⟨value, lt⟩
    obtain ⟨m, again, written⟩ := Text.exists_hexadecimal (d := c) (by rw [isDigit, value]; rfl)
    cases value.symm.trans again
    exact ⟨lt, written⟩
  · rintro ⟨lt, written⟩
    have known : ∀ m : Fin 16, digitValue? 16 m.val.digitChar = some m.val ∧
        digitValue? 16 m.val.digitChar.toUpper = some m.val := by decide
    obtain ⟨plain, capital⟩ := known ⟨k, by omega⟩
    refine ⟨?_, lt⟩
    rcases written with rfl | rfl
    · exact plain
    · exact capital

theorem isDigit_iff (small : base ≤ 16) : isDigit base c = true ↔ ∃ k, DigitOf base c k := by
  simp only [isDigit, Option.isSome_iff_exists, digitValue?_eq_some small]

theorem digits_of_forall₂ (small : base ≤ 16) (digits : List.Forall₂ (DigitOf base) ds ks) :
    ∀ d ∈ ds, isDigit base d = true := by
  induction digits with
  | nil => exact List.forall_mem_nil _
  | cons digit _ ih => exact List.forall_mem_cons.mpr ⟨(isDigit_iff small).mpr ⟨_, digit⟩, ih⟩

theorem digitsValue_eq_ofDigits (small : base ≤ 16)
    (digits : List.Forall₂ (DigitOf base) ds ks) :
    digitsValue base ds = Nat.ofDigits base ks.reverse := by
  have onward (value : Nat) :
      ds.foldl (fun value c => base * value + (digitValue? base c).getD 0) value =
        base ^ ks.length * value + Nat.ofDigits base ks.reverse := by
    induction digits generalizing value with
    | nil => simp
    | @cons d k ds ks digit _ ih =>
      rw [List.foldl_cons, (digitValue?_eq_some small).mpr digit, ih, List.reverse_cons,
        Nat.ofDigits_append, Nat.ofDigits_singleton, List.length_reverse, List.length_cons]
      simp only [Option.getD_some]
      ring
  rw [digitsValue, onward]
  simp

end

inductive Radix where
  | decimal
  | hexadecimal
  | octal
  | binary
deriving DecidableEq, Repr

namespace Radix

def base : Radix → Nat
  | .decimal => 10
  | .hexadecimal => 16
  | .octal => 8
  | .binary => 2

def mark : Radix → List Char
  | .decimal => []
  | .hexadecimal => ['0', 'x']
  | .octal => ['0', 'o']
  | .binary => ['0', 'b']

/-- A text that does not go on with the number before it. A decimal number would go on as a float
behind a point or an exponent, and a zero as a number of another base behind its mark. -/
structure Over (r : Radix) (ds rest : List Char) : Prop where
  digit : ∀ c ∈ rest.head?, ∀ k, ¬DigitOf r.base c k
  point : r = .decimal → rest.head? ≠ some '.'
  power : r = .decimal → ∀ sign c k more, sign ∈ [[], ['+'], ['-']] → DigitOf 10 c k →
    rest ≠ 'e' :: (sign ++ c :: more)
  unmarked : r = .decimal → ds = ['0'] → ∀ c ∈ rest.head?, c ∉ ['x', 'o', 'b']

theorem base_le (r : Radix) : r.base ≤ 16 := by cases r <;> decide

section

variable {r : Radix} {ds rest : List Char} {c : Char} {tail : List Char}

theorem Over.stop (ending : r.Over ds rest) : ∀ d ∈ rest.head?, isDigit r.base d = false := by
  intro d first
  rw [Bool.eq_false_iff]
  intro digit
  obtain ⟨k, digit⟩ := (isDigit_iff r.base_le).mp digit
  exact ending.digit d first k digit

theorem numeral (digits : Digits r.base ds) : Numeral (r.mark ++ ds) (digitsValue r.base ds) := by
  cases r with
  | decimal => exact .decimal digits
  | hexadecimal => exact .based (.head _) digits
  | octal => exact .based (.tail _ (.head _)) digits
  | binary => exact .based (.tail _ (.tail _ (.head _))) digits

theorem Over.fractionLength (ending : Over .decimal ds rest) : fractionLength rest = 0 := by
  unfold Scan.fractionLength
  split
  · exact absurd rfl (ending.point rfl)
  · rfl

theorem Over.exponentLength (ending : Over .decimal ds rest) : exponentLength rest = 0 := by
  obtain ⟨power, behind, rfl, scale, length⟩ := exponentLength_split rest
  cases scale with
  | none => exact length
  | @mark sign digits signed some =>
    obtain ⟨c, digits, rfl⟩ := List.exists_cons_of_ne_nil some.1
    obtain ⟨k, digit⟩ := (isDigit_iff (by decide)).mp (some.2 c (.head _))
    refine absurd ?_ (ending.power rfl sign c k (digits ++ behind) (by simpa using signed) digit)
    simp

theorem scan_decimal (digits : Digits 10 (c :: tail)) (ending : Over .decimal (c :: tail) rest) :
    scan c (tail ++ rest) = .ok (.integer, tail.length) := by
  obtain ⟨digit, inside⟩ := List.forall_mem_cons.mp digits.2
  have unbased : base? c (tail ++ rest) = none := by
    cases tail with
    | cons d tail => exact base?_eq_none (.inr (.inr (inside d (.head _))))
    | nil =>
      cases found : base? c ([] ++ rest) with
      | none => rfl
      | some base =>
        obtain ⟨rfl, mark, behind, known, rfl⟩ := base?_eq_some.mp found
        have names : ∀ p ∈ bases, p.1 ∈ ['x', 'o', 'b'] := by decide
        exact absurd (names _ known) (ending.unmarked rfl rfl mark rfl)
  have whole := runLength_exact inside ending.stop
  have fraction : Scan.fractionLength ((tail ++ rest).drop tail.length) = 0 := by
    rw [List.drop_left, ending.fractionLength]
  have power : Scan.exponentLength ((tail ++ rest).drop (tail.length + 0)) = 0 := by
    rw [Nat.add_zero, List.drop_left, ending.exponentLength]
  rw [scan_digit digit, number_eq_unbased unbased whole fraction power]
  rfl

theorem scan_based {mark : Char} {base : Nat} (known : (mark, base) ∈ bases)
    (digits : Digits base ds) (stop : ∀ d ∈ rest.head?, isDigit base d = false) :
    scan '0' (mark :: ds ++ rest) = .ok (.integer, (mark :: ds).length) := by
  have based : base? '0' (mark :: ds ++ rest) = some base :=
    base?_eq_some.mpr ⟨rfl, mark, ds ++ rest, known, rfl⟩
  have positive := List.length_pos_iff.mpr digits.1
  rw [scan_digit (by decide), number, based]
  simp only [List.cons_append, List.tail_cons, runLength_exact digits.2 stop]
  rw [if_neg (by omega), List.length_cons, Nat.add_comm]

theorem scan_eq (digits : Digits r.base ds) (ending : r.Over ds rest)
    (text : r.mark ++ ds = c :: tail) : scan c (tail ++ rest) = .ok (.integer, tail.length) := by
  cases r with
  | decimal =>
    cases text
    exact scan_decimal digits ending
  | hexadecimal =>
    cases text
    exact scan_based (.head _) digits ending.stop
  | octal =>
    cases text
    exact scan_based (.tail _ (.head _)) digits ending.stop
  | binary =>
    cases text
    exact scan_based (.tail _ (.tail _ (.head _))) digits ending.stop

end

end Radix

section

variable {pos : Position} {cs rest : List Char} {ts : List Token}

theorem Lexed.tokensFrom_eq (lexed : Lexed pos cs ts rest) :
    tokensFrom pos cs = (ts ++ ·) <$> tokensFrom (pos.after (lexemes ts)) rest := by
  induction lexed with
  | nothing pos cs =>
    change _ = _ <$> tokensFrom pos cs
    cases tokensFrom pos cs <;> rfl
  | @token pos c cs rest t ts n first later ih =>
    rw [tokensFrom, first, lexemes_cons, (token_eq_ok first).2, Position.after_append]
    simp only [ih]
    cases tokensFrom _ rest <;> rfl

theorem Numeral.literal?_eq {value : Nat} (numeral : Numeral cs value) :
    literal? .integer cs =
      match Word.ofInt? value with
      | some n => .ok (some (.int n))
      | none => .error (.integerTooLarge (.ofList cs)) := by
  rw [← numeral.value_eq]
  rfl

variable {r : Radix} {ds : List Char} {value : Nat}

theorem tokensFrom_numeral (digits : Digits r.base ds) (ending : r.Over ds rest)
    (exact : digitsValue r.base ds = value) :
    tokensFrom pos (r.mark ++ ds ++ rest) =
      match Word.ofInt? value with
      | some n => (⟨.integer, pos, .ofList (r.mark ++ ds), some (.int n)⟩ :: ·) <$>
          tokensFrom (pos.after (r.mark ++ ds)) rest
      | none => .error (.located pos (.integerTooLarge (.ofList (r.mark ++ ds)))) := by
  have literal := (exact ▸ r.numeral digits).literal?_eq
  obtain ⟨c, tail, text⟩ := List.exists_cons_of_ne_nil (Lexeme.integer (r.numeral digits)).ne_nil
  have scanned := Radix.scan_eq digits ending text
  rw [text] at literal ⊢
  rw [List.cons_append, tokensFrom]
  simp only [Scan.token, scanned, List.take_left, literal, bind, Except.bind]
  cases Word.ofInt? value with
  | none => rfl
  | some n =>
    simp only [pure, Except.pure, List.take_left, List.drop_left]
    cases tokensFrom (pos.after (c :: tail)) rest <;> rfl

/-- Wherever a whole number stands and whatever is behind it, it is one token with the value of its
digits, or it is refused as a whole where it starts. -/
theorem integer_exact_or_refused (r : Radix) {ds : List Char} {ks : List Nat}
    (digits : List.Forall₂ (DigitOf r.base) ds ks) (nonempty : ds ≠ []) {rest : List Char}
    (ending : r.Over ds rest) {source : String} {ts : List Token}
    (before : Lexed .start source.toList ts (r.mark ++ ds ++ rest)) :
    let pos := Position.behind (lexemes ts)
    let lexeme := String.ofList (r.mark ++ ds)
    let value := Nat.ofDigits r.base ks.reverse
    (value ≤ 2 ^ 63 - 1 → ∃ n : Int64, n.toInt = value ∧
      tokens source = (ts ++ ⟨.integer, pos, lexeme, some (.int n)⟩ :: ·) <$>
        tokensFrom (.behind (lexemes ts ++ (r.mark ++ ds))) rest) ∧
    (2 ^ 63 - 1 < value →
      tokens source = .error (.located pos (.integerTooLarge lexeme)) ∧
      (SyntaxError.located pos (.integerTooLarge lexeme)).detail =
        "integer literal too large `" ++ lexeme ++ "`") := by
  intro pos lexeme value
  have exact := digitsValue_eq_ofDigits r.base_le digits
  have all : Digits r.base ds := ⟨nonempty, digits_of_forall₂ r.base_le digits⟩
  have front : tokens source = (ts ++ ·) <$> tokensFrom pos (r.mark ++ ds ++ rest) := by
    rw [tokens, before.tokensFrom_eq, Position.start_after]
  rw [tokensFrom_numeral all ending exact] at front
  have greatest : Int64.maxValue.toInt = 2 ^ 63 - 1 := rfl
  have least : Int64.minValue.toInt = -2 ^ 63 := rfl
  constructor
  · intro fits
    cases word : Word.ofInt? value with
    | none =>
      have out := Word.ofInt?_eq_none_iff.mp word
      omega
    | some n =>
      refine ⟨n, Word.ofInt?_eq_some_iff.mp word, ?_⟩
      have behind : pos.after (r.mark ++ ds) = .behind (lexemes ts ++ (r.mark ++ ds)) := by
        simp only [pos, ← Position.start_after, Position.after_append]
      rw [front, word, ← behind]
      exact Functor.map_map _ _ _
  · intro large
    have word : Word.ofInt? value = none := Word.ofInt?_eq_none_iff.mpr (.inr (by omega))
    refine ⟨?_, rfl⟩
    rw [front, word]
    rfl

theorem integer_exact_or_refused_at_limit :
    (∃ ts n, n.toInt = 2 ^ 63 - 1 ∧ tokens "x=0x7FffFFFFffffFFFF.5" =
      (ts ++ ⟨.integer, ⟨1, 3⟩, "0x7FffFFFFffffFFFF", some (.int n)⟩ :: ·) <$>
        tokensFrom ⟨1, 21⟩ ['.', '5']) ∧
    tokens "009223372036854775808e+" =
      .error (.located .start (.integerTooLarge "009223372036854775808")) := by
  constructor
  · have digits : List.Forall₂ (DigitOf Radix.hexadecimal.base) "7FffFFFFffffFFFF".toList
        (7 :: List.replicate 15 15) := by decide +kernel
    have ending : Radix.hexadecimal.Over "7FffFFFFffffFFFF".toList ['.', '5'] := by
      refine ⟨?_, nofun, nofun, nofun⟩
      rintro _ ⟨⟩ k digit
      exact absurd ((isDigit_iff (by decide)).mpr ⟨k, digit⟩) (by decide)
    have name : Scan.token .start 'x' "=0x7FffFFFFffffFFFF.5".toList =
        .ok (⟨.identifier, .start, "x", none⟩, 0) := by decide +kernel
    have sign : Scan.token ⟨1, 2⟩ '=' "0x7FffFFFFffffFFFF.5".toList =
        .ok (⟨.assign, ⟨1, 2⟩, "=", none⟩, 0) := by decide +kernel
    have before : Lexed .start "x=0x7FffFFFFffffFFFF.5".toList
        [⟨.identifier, .start, "x", none⟩, ⟨.assign, ⟨1, 2⟩, "=", none⟩]
        (Radix.hexadecimal.mark ++ "7FffFFFFffffFFFF".toList ++ ['.', '5']) :=
      .token name (.token sign (.nothing _ _))
    obtain ⟨n, value, found⟩ :=
      (integer_exact_or_refused .hexadecimal digits (by decide) ending before).1 (by decide)
    exact ⟨_, n, value, found⟩
  · have digits : List.Forall₂ (DigitOf Radix.decimal.base) "009223372036854775808".toList
        [0, 0, 9, 2, 2, 3, 3, 7, 2, 0, 3, 6, 8, 5, 4, 7, 7, 5, 8, 0, 8] := by decide +kernel
    have ending : Radix.decimal.Over "009223372036854775808".toList ['e', '+'] := by
      refine ⟨?_, by decide, ?_, by decide⟩
      · rintro _ ⟨⟩ k digit
        exact absurd ((isDigit_iff (by decide)).mpr ⟨k, digit⟩) (by decide)
      · rintro - sign c k more signed digit same
        have digit := (isDigit_iff (by decide)).mpr ⟨k, digit⟩
        simp only [List.mem_cons, List.not_mem_nil, or_false] at signed
        rcases signed with rfl | rfl | rfl
        · cases same
          exact absurd digit (by decide)
        · cases same
        · cases same
    have before : Lexed .start "009223372036854775808e+".toList []
        (Radix.decimal.mark ++ "009223372036854775808".toList ++ ['e', '+']) := .nothing _ _
    exact ((integer_exact_or_refused .decimal digits (by decide) ending before).2 (by decide)).1

end

end CalcScript.Scan
