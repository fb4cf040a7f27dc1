import CalcScript.Proofs.Literals
import Mathlib.Algebra.Group.Nat.Defs

set_option autoImplicit false

namespace CalcScript.Text

/-- A backslash makes up a segment with the character behind it, and with the hexadecimal digits
behind that if the character announces a code. -/
inductive Segment where
  | plain (c : Char)
  | named (letter meaning : Char)
  | code (letter : Char) (digits : List Char)
  | other (letter : Char)
  | lone

structure LongestRun (width : Nat) (digits rest : List Char) : Prop where
  hexadecimal : ∀ d ∈ digits, isDigit 16 d = true
  bounded : digits.length ≤ width
  longest : digits.length = width ∨ ∀ d ∈ rest.head?, isDigit 16 d = false

def isSurrogate (code : Nat) : Bool := 0xD800 ≤ code && code ≤ 0xDFFF

namespace Segment

def text : Segment → List Char
  | .plain c => [c]
  | .named letter _ => ['\\', letter]
  | .code letter digits => '\\' :: letter :: digits
  | .other letter => ['\\', letter]
  | .lone => ['\\']

def Stands : Segment → List Char → Prop
  | .plain c, _ => c ≠ '\\'
  | .named letter meaning, _ => (letter, meaning) ∈ shortEscapes
  | .code letter digits, rest =>
    ∃ width, (letter, width) ∈ codeEscapes ∧ LongestRun width digits rest
  | .other letter, _ =>
    letter ∉ shortEscapes.map Prod.fst ∧ letter ∉ codeEscapes.map Prod.fst
  | .lone, rest => rest = []

def image : Segment → List Char
  | .named _ meaning => [meaning]
  | .code letter digits =>
    let code := digitsValue 16 digits
    if (letter, digits.length) ∈ codeEscapes ∧ isSurrogate code = false then [.ofNat code]
    else '\\' :: letter :: digits
  | segment => segment.text

end Segment

inductive Factors : List Segment → List Char → Prop
  | nil : Factors [] []
  | cons {segment : Segment} {segments : List Segment} {rest : List Char}
      (stands : segment.Stands rest) (later : Factors segments rest) :
      Factors (segment :: segments) (segment.text ++ rest)

section

variable {letter meaning : Char} {width : Nat}

theorem named?_eq_some : named? letter = some meaning ↔ (letter, meaning) ∈ shortEscapes := by
  constructor
  · intro named
    unfold named? at named
    split at named
    all_goals cases named
    all_goals decide
  · intro known
    have all : ∀ p ∈ shortEscapes, named? p.1 = some p.2 := by decide
    exact all _ known

theorem codeWidth?_eq_some : codeWidth? letter = some width ↔ (letter, width) ∈ codeEscapes := by
  constructor
  · intro wide
    unfold codeWidth? at wide
    split at wide
    all_goals cases wide
    all_goals decide
  · intro known
    have all : ∀ p ∈ codeEscapes, codeWidth? p.1 = some p.2 := by decide
    exact all _ known

theorem named?_eq_none : named? letter = none ↔ letter ∉ shortEscapes.map Prod.fst := by
  simp [Option.eq_none_iff_forall_ne_some, named?_eq_some]

theorem codeWidth?_eq_none : codeWidth? letter = none ↔ letter ∉ codeEscapes.map Prod.fst := by
  simp [Option.eq_none_iff_forall_ne_some, codeWidth?_eq_some]

theorem named?_of_code (known : (letter, width) ∈ codeEscapes) : named? letter = none := by
  have all : ∀ p ∈ codeEscapes, named? p.1 = none := by decide
  exact all _ known

end

section

variable {width : Nat} {digits rest : List Char}

open Scan in
theorem LongestRun.length_eq (run : LongestRun width digits rest) :
    digits.length = min width (runLength (isDigit 16) (digits ++ rest)) := by
  have bounded := run.bounded
  rcases run.longest with full | stop
  · rw [runLength_append run.hexadecimal]
    omega
  · rw [runLength_exact run.hexadecimal stop]
    omega

theorem exists_longestRun (width : Nat) (cs : List Char) :
    ∃ digits rest, cs = digits ++ rest ∧ LongestRun width digits rest := by
  obtain ⟨all, rest, rfl, hexadecimal, stop, -⟩ := Scan.runLength_split (isDigit 16) cs
  have whole : all ++ rest = all.take width ++ (all.drop width ++ rest) := by
    rw [← List.append_assoc, List.take_append_drop]
  refine ⟨_, _, whole, ?_, List.length_take_le _ _, ?_⟩
  · intro d member
    exact hexadecimal d (List.mem_of_mem_take member)
  · by_cases enough : width ≤ all.length
    · exact .inl (List.length_take_of_le enough)
    · have short : all.drop width = [] := List.drop_eq_nil_of_le (by omega)
      exact .inr (by simpa [short] using stop)

theorem LongestRun.coded?_eq (run : LongestRun width digits rest) :
    coded? width (digits ++ rest) =
      if digits.length = width ∧ (digitsValue 16 digits).isValidChar then
        some (.ofNat (digitsValue 16 digits))
      else none := by
  by_cases full : digits.length = width
  · subst full
    simp [coded?, List.all_eq_true.mpr run.hexadecimal]
  · have stop := run.longest.resolve_left full
    have bounded := run.bounded
    rw [if_neg fun enough => full enough.1, coded?, if_neg]
    rintro ⟨enough, all, -⟩
    cases rest with
    | nil => simp at enough; omega
    | cons d rest =>
      obtain ⟨more, rfl⟩ : ∃ more, width = digits.length + (more + 1) :=
        ⟨width - digits.length - 1, by omega⟩
      simp [List.take_length_add_append, stop d rfl] at all

theorem exists_hexadecimal {d : Char} (digit : isDigit 16 d = true) :
    ∃ k : Fin 16, digitValue? 16 d = some k.val ∧
      (d = k.val.digitChar ∨ d = k.val.digitChar.toUpper) := by
  have known : ∀ n : Fin 123, isDigit 16 (.ofNat n) = true →
      ∃ k : Fin 16, digitValue? 16 (.ofNat n) = some k.val ∧
        (Char.ofNat n = k.val.digitChar ∨ Char.ofNat n = k.val.digitChar.toUpper) := by
    decide +kernel
  have bound : d.toNat < 123 := by
    have := Scan.isWordChar_iff.mp (Scan.isWordChar_of_isDigit digit)
    omega
  have same : Char.ofNat d.toNat = d := Char.ofNat_toNat d
  simpa [same] using known ⟨d.toNat, bound⟩ (by simpa [same] using digit)

theorem hexadecimal_digitsValue (all : ∀ d ∈ digits, isDigit 16 d = true) :
    Hexadecimal digits (digitsValue 16 digits) := by
  induction digits using List.reverseRecOn with
  | nil => exact .nil
  | append_singleton digits d ih =>
    obtain ⟨before, last⟩ := List.forall_mem_append.mp all
    obtain ⟨k, value, written⟩ := exists_hexadecimal (last d (.head _))
    have sum : digitsValue 16 (digits ++ [d]) = 16 * digitsValue 16 digits + k := by
      simp [digitsValue, value]
    exact sum ▸ .snoc (ih before) k written

theorem Hexadecimal.lt {n : Nat} (written : Hexadecimal digits n) : n < 16 ^ digits.length := by
  induction written with
  | nil => decide
  | @snoc digits n d before k digit ih =>
    have := k.isLt
    rw [List.length_append, List.length_singleton, Nat.pow_succ]
    omega

theorem isValidChar_iff {ds : List Char} (all : ∀ d ∈ ds, isDigit 16 d = true)
    (short : ds.length ≤ 4) :
    (digitsValue 16 ds).isValidChar ↔ isSurrogate (digitsValue 16 ds) = false := by
  have lt := (hexadecimal_digitsValue all).lt
  have le : 16 ^ ds.length ≤ 16 ^ 4 := Nat.pow_le_pow_right (by decide) short
  simp only [Nat.isValidChar, isSurrogate, Bool.and_eq_false_iff, decide_eq_false_iff_not]
  omega

theorem decode_plain {c : Char} (other : c ≠ '\\') (rest : List Char) :
    decode (c :: rest) = c :: decode rest := by
  cases rest with
  | nil => simp [decode]
  | cons d rest => simp [decode, other]

theorem decode_digits (all : ∀ d ∈ digits, isDigit 16 d = true) (rest : List Char) :
    decode (digits ++ rest) = digits ++ decode rest := by
  induction digits with
  | nil => rfl
  | cons d digits ih =>
    obtain ⟨digit, others⟩ := List.forall_mem_cons.mp all
    have other : d ≠ '\\' := by
      rintro rfl
      exact absurd digit (by decide)
    rw [List.cons_append, decode_plain other, ih others, List.cons_append]

end

section

variable {segment : Segment} {segments : List Segment} {cs rest : List Char}

def Segment.first? : List Char → Option (Segment × List Char)
  | [] => none
  | c :: cs =>
    if c ≠ '\\' then some (.plain c, cs)
    else
      match cs with
      | [] => some (.lone, [])
      | letter :: cs =>
        match named? letter, codeWidth? letter with
        | some meaning, _ => some (.named letter meaning, cs)
        | none, some width =>
          let length := min width (Scan.runLength (isDigit 16) cs)
          some (.code letter (cs.take length), cs.drop length)
        | none, none => some (.other letter, cs)

theorem Segment.Stands.first?_eq (stands : segment.Stands rest) :
    first? (segment.text ++ rest) = some (segment, rest) := by
  cases segment with
  | plain c => simp [text, first?, show c ≠ '\\' from stands]
  | named letter meaning =>
    simp [text, first?, named?_eq_some.mpr stands]
  | code letter digits =>
    obtain ⟨width, known, run⟩ := stands
    simp [text, first?, named?_of_code known, codeWidth?_eq_some.mpr known, ← run.length_eq]
  | other letter =>
    simp [text, first?, named?_eq_none.mpr stands.1, codeWidth?_eq_none.mpr stands.2]
  | lone => simp [text, first?, show rest = [] from stands]

theorem Segment.text_ne_nil (segment : Segment) : segment.text ≠ [] := by
  cases segment <;> simp [text]

theorem Factors.unique {others : List Segment} (factors : Factors segments cs)
    (factors' : Factors others cs) : others = segments := by
  induction factors generalizing others with
  | nil =>
    generalize same : ([] : List Char) = cs at factors'
    cases factors' with
    | nil => rfl
    | cons _ _ => simp [Segment.text_ne_nil] at same
  | @cons segment segments rest stands _ ih =>
    generalize same : segment.text ++ rest = cs at factors'
    cases factors' with
    | nil => simp [Segment.text_ne_nil] at same
    | cons stands' later =>
      have first := stands.first?_eq
      rw [same, stands'.first?_eq] at first
      cases first
      rw [ih later]

theorem exists_segment (c : Char) (cs : List Char) :
    ∃ (segment : Segment) (rest : List Char), c :: cs = segment.text ++ rest ∧
      segment.Stands rest := by
  by_cases escape : c = '\\'
  · subst escape
    cases cs with
    | nil => exact ⟨.lone, [], rfl, rfl⟩
    | cons letter cs =>
      cases named : named? letter with
      | some meaning => exact ⟨.named letter meaning, cs, rfl, named?_eq_some.mp named⟩
      | none =>
        cases wide : codeWidth? letter with
        | some width =>
          obtain ⟨digits, rest, rfl, run⟩ := exists_longestRun width cs
          exact ⟨.code letter digits, rest, rfl, width, codeWidth?_eq_some.mp wide, run⟩
        | none =>
          have unknown := And.intro (named?_eq_none.mp named) (codeWidth?_eq_none.mp wide)
          exact ⟨.other letter, cs, rfl, unknown⟩
  · exact ⟨.plain c, cs, rfl, escape⟩

theorem exists_factors (cs : List Char) : ∃ segments, Factors segments cs := by
  induction len : cs.length using Nat.strongRecOn generalizing cs with
  | ind n ih =>
    cases cs with
    | nil => exact ⟨[], .nil⟩
    | cons c cs =>
      obtain ⟨segment, rest, split, stands⟩ := exists_segment c cs
      have nonempty := List.length_pos_iff.mpr segment.text_ne_nil
      have total := congrArg List.length split
      rw [List.length_append] at total
      obtain ⟨segments, later⟩ := ih rest.length (by omega) rest rfl
      exact ⟨segment :: segments, split ▸ .cons stands later⟩

theorem decode_segment (stands : segment.Stands rest) :
    decode (segment.text ++ rest) = segment.image ++ decode rest := by
  cases segment with
  | plain c => exact decode_plain stands rest
  | named letter meaning =>
    simp [Segment.text, Segment.image, decode, escaped?_short stands]
  | code letter digits =>
    obtain ⟨width, known, run⟩ := stands
    have full : (letter, digits.length) ∈ codeEscapes ↔ digits.length = width := by
      rw [← codeWidth?_eq_some, codeWidth?_eq_some.mpr known, Option.some.injEq, eq_comm]
    have narrow : ∀ p ∈ codeEscapes, p.2 ≤ 4 := by decide
    have valid := isValidChar_iff run.hexadecimal (Nat.le_trans run.bounded (narrow _ known))
    have found : escaped? letter (digits ++ rest) =
        (coded? width (digits ++ rest)).map fun c => (c, width) := by
      simp only [escaped?, named?_of_code known, codeWidth?_eq_some.mpr known]
    simp only [run.coded?_eq, valid] at found
    by_cases code : digits.length = width ∧ isSurrogate (digitsValue 16 digits) = false
    · rw [if_pos code, Option.map_some] at found
      simp [Segment.text, Segment.image, decode, found, known, code]
    · rw [if_neg code, Option.map_none] at found
      simp [Segment.text, Segment.image, decode, found, full, if_neg code,
        decode_digits run.hexadecimal]
  | other letter =>
    simp [Segment.text, Segment.image, decode, escaped?, named?_eq_none.mpr stands.1,
      codeWidth?_eq_none.mpr stands.2]
  | lone =>
    obtain rfl : rest = [] := stands
    simp [Segment.text, Segment.image, decode]

theorem Factors.decode_eq (factors : Factors segments cs) :
    decode cs = segments.flatMap Segment.image := by
  induction factors with
  | nil => simp [decode]
  | cons stands _ ih => rw [decode_segment stands, ih, List.flatMap_cons]

theorem image_code {letter c : Char} {digits : List Char}
    (all : ∀ d ∈ digits, isDigit 16 d = true) :
    (Segment.code letter digits).image = [c] ↔
      (letter, digits.length) ∈ codeEscapes ∧ Hexadecimal digits c.toNat := by
  have written := hexadecimal_digitsValue all
  have narrow : ∀ p ∈ codeEscapes, p.2 ≤ 4 := by decide
  rw [Segment.image]
  constructor
  · intro image
    split at image
    · next code =>
      have valid := (isValidChar_iff all (narrow _ code.1)).mpr code.2
      have value : digitsValue 16 digits = c.toNat := by
        rw [← List.singleton_inj.mp image, Char.ofNat, dif_pos valid]
        rfl
      exact ⟨code.1, value ▸ written⟩
    · simp at image
  · rintro ⟨known, code⟩
    have value := code.value.2
    have valid : (digitsValue 16 digits).isValidChar := by
      rw [value]
      exact c.valid
    rw [if_pos ⟨known, (isValidChar_iff all (narrow _ known)).mp valid⟩, value, Char.ofNat_toNat]

/-- Every text falls into segments in exactly one way, and decoding replaces each of them by its
image. -/
theorem decode_segments :
    (∀ s : String, ∃ segments, Factors segments s.toList ∧
      (∀ others, Factors others s.toList → others = segments) ∧
      (unescape s).toList = segments.flatMap Segment.image) ∧
    ∀ letter digits c, (∀ d ∈ digits, isDigit 16 d = true) →
      ((Segment.code letter digits).image = [c] ↔
        (letter, digits.length) ∈ codeEscapes ∧ Hexadecimal digits c.toNat) := by
  refine ⟨fun s => ?_, fun letter digits c => image_code⟩
  obtain ⟨segments, factors⟩ := exists_factors s.toList
  refine ⟨segments, factors, fun others factors' => factors.unique factors', ?_⟩
  rw [unescape, String.toList_ofList, factors.decode_eq]

theorem decode_segments_malformed :
    let s := "\\x4\\n\\uD800\\q\\x4Ag\\"
    let segments : List Segment := [.code 'x' ['4'], .named 'n' '\n',
      .code 'u' ['D', '8', '0', '0'], .other 'q', .code 'x' ['4', 'A'], .plain 'g', .lone]
    Factors segments s.toList ∧ unescape s = "\\x4\n\\uD800\\qJg\\" ∧
      (Segment.code 'x' ['4', 'A']).image = ['J'] := by
  intro s segments
  have chars : s.toList = segments.flatMap Segment.text := by decide +kernel
  have newline : ('n', '\n') ∈ shortEscapes := by decide
  have unknown : 'q' ∉ shortEscapes.map Prod.fst ∧ 'q' ∉ codeEscapes.map Prod.fst := by decide
  have letter : 'g' ≠ '\\' := by decide
  have four : ∀ d ∈ ['4'], isDigit 16 d = true := List.all_eq_true.mp rfl
  have surrogate : ∀ d ∈ ['D', '8', '0', '0'], isDigit 16 d = true := List.all_eq_true.mp rfl
  have capital : ∀ d ∈ ['4', 'A'], isDigit 16 d = true := List.all_eq_true.mp rfl
  have factors : Factors segments s.toList := by
    rw [chars]
    refine .cons ⟨2, by decide, four, by decide, .inr ?_⟩ (.cons newline
      (.cons ⟨4, by decide, surrogate, by decide, .inl rfl⟩ (.cons unknown
      (.cons ⟨2, by decide, capital, by decide, .inl rfl⟩ (.cons letter
      (.cons rfl .nil))))))
    rintro _ ⟨⟩
    rfl
  obtain ⟨others, _, unique, decoded⟩ := decode_segments.1 s
  obtain rfl := unique segments factors
  refine ⟨factors, ?_, ?_⟩
  · rw [← String.toList_inj, decoded]
    decide +kernel
  · exact (decode_segments.2 'x' ['4', 'A'] 'J' capital).mpr
      ⟨by decide, .snoc (.snoc .nil 4 (.inl rfl)) 10 (.inr rfl)⟩

end

end CalcScript.Text
