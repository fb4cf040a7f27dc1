import CalcScript.Proofs.Lexemes
import CalcScript.Proofs.TokenGrammar

set_option autoImplicit false

namespace CalcScript.Scan

structure Reads (c : Char) (cs : List Char) (kind : TokenKind) (n : Nat) : Prop where
  le : n ≤ cs.length
  begins : Begins (c :: cs) kind (c :: cs.take n)

section

variable {c : Char} {cs tail rest : List Char} {kind : TokenKind} {n : Nat}

theorem Reads.of_append (tail rest : List Char) (lexeme : Lexeme kind (c :: tail))
    (stops : kind = .elseIf → ∀ d ∈ rest.head?, isWordChar d = false) :
    Reads c (tail ++ rest) kind tail.length where
  le := by simp
  begins := by
    rw [List.take_left]
    exact ⟨lexeme, ⟨rest, rfl⟩, by simpa using stops⟩

theorem Reads.of_lexeme (tail rest : List Char) (lexeme : Lexeme kind (c :: tail))
    (plain : kind ≠ .elseIf) : Reads c (tail ++ rest) kind tail.length :=
  .of_append tail rest lexeme fun same => absurd same plain

theorem TokenKind.ne_elseIf_of_sign? {ds : List Char} (written : kind.sign? = some ds) :
    kind ≠ .elseIf := by
  rintro rfl
  cases written

theorem Reads.of_sign (tail rest : List Char) (written : kind.sign? = some (c :: tail)) :
    Reads c (tail ++ rest) kind tail.length :=
  .of_lexeme tail rest (.sign written) (TokenKind.ne_elseIf_of_sign? written)

theorem withEquals_reads {long short : TokenKind} (twice : long.sign? = some [c, '='])
    (once : short.sign? = some [c]) (found : withEquals cs long short = (kind, n)) :
    Reads c cs kind n := by
  unfold withEquals at found
  split at found
  · next equals =>
    cases found
    obtain ⟨rest, rfl⟩ := List.head?_eq_some_iff.mp equals
    exact .of_sign ['='] rest twice
  · cases found
    exact .of_sign [] cs once

theorem doubled_reads {twofold : TokenKind} (twice : twofold.sign? = some [c, c])
    (found : doubled c cs twofold = .ok (kind, n)) : Reads c cs kind n := by
  unfold doubled at found
  split at found
  · next again =>
    cases found
    obtain ⟨rest, rfl⟩ := List.head?_eq_some_iff.mp again
    exact .of_sign [c] rest twice
  · cases found

theorem slash_reads (found : scan '/' cs = .ok (kind, n)) : Reads '/' cs kind n := by
  simp only [scan] at found
  split at found
  · next again =>
    obtain ⟨rest, rfl⟩ := List.head?_eq_some_iff.mp again
    by_cases equals : rest.head? = some '='
    · simp [withEquals, equals] at found
      obtain ⟨rfl, rfl⟩ := found
      obtain ⟨rest, rfl⟩ := List.head?_eq_some_iff.mp equals
      exact .of_sign ['/', '='] rest rfl
    · simp [withEquals, equals] at found
      obtain ⟨rfl, rfl⟩ := found
      exact .of_sign ['/'] rest rfl
  · exact withEquals_reads rfl rfl (Except.ok.inj found)

theorem ofChar?_reads (found : TokenKind.ofChar? c = some kind) : Reads c cs kind 0 := by
  unfold TokenKind.ofChar? at found
  split at found
  all_goals cases found
  any_goals exact .of_sign [] cs rfl
  all_goals exact .of_lexeme [] cs (.whitespace (by decide)) nofun

theorem comment_reads :
    Reads '#' cs .comment (runLength (· ≠ '\n') cs) := by
  obtain ⟨line, rest, rfl, inside, -, length⟩ := runLength_split (fun c => c ≠ '\n') cs
  rw [length]
  refine .of_lexeme line rest (.comment fun feed => ?_) nofun
  simpa using inside _ feed

theorem string_reads (found : stringLength? cs = some n) : Reads '"' cs .string n := by
  obtain ⟨inside, rest, quotable, rfl, rfl⟩ := stringLength?_eq_some.mp found
  have reads := Reads.of_lexeme _ rest (.string quotable) nofun
  simpa using reads

end

def StartsWord (c : Char) (cs : List Char) : Prop :=
  isWordStart c = true ∨ c = '$' ∧ cs.head?.any isWordStart = true

theorem word_of_run {c : Char} {ds rest : List Char} (start : StartsWord c (ds ++ rest))
    (inside : ∀ d ∈ ds, isWordChar d = true) (stop : ∀ d ∈ rest.head?, isWordChar d = false) :
    Word (c :: ds) := by
  rcases start with start | ⟨rfl, start⟩
  · exact .own start inside
  · obtain ⟨d, first, letter⟩ := (Option.any_eq_true _ _).mp start
    cases ds with
    | nil =>
      have other := stop d first
      rw [isWordChar_of_isWordStart letter] at other
      cases other
    | cons e ds =>
      cases first
      exact .global letter fun d member => inside d (.tail _ member)

theorem word_reads {c : Char} {cs : List Char} (start : StartsWord c cs) :
    Reads c cs (word c cs).1 (word c cs).2 := by
  obtain ⟨ds, rest, rfl, inside, stop, length⟩ := runLength_split isWordChar cs
  have spelled := word_of_run start inside stop
  simp only [word, length, List.take_left, List.drop_left]
  split
  · next unknown =>
    refine .of_lexeme ds rest (.identifier spelled fun k same => ?_) nofun
    rw [ofWord?_eq_some.mpr same] at unknown
    cases unknown
  · next found =>
    have same : c :: ds = ['e', 'l', 's', 'e'] := ofWord?_eq_some.mp found
    split
    · next more trailing =>
      obtain ⟨gap, rest, some, blank, rfl, stops, rfl⟩ := trailingIf?_eq_some.mp trailing
      cases same
      have lexeme := Lexeme.elseIf some blank
      have reads := Reads.of_append _ rest lexeme fun _ => stops
      simpa [Nat.add_comm, Nat.add_assoc, Nat.add_left_comm] using reads
    · exact .of_lexeme ds rest (same ▸ .keyword .otherwise) nofun
  · next k _ found =>
    have same := ofWord?_eq_some.mp found
    exact .of_lexeme ds rest (same ▸ .keyword k) nofun

section

variable {c : Char} {cs ds rest : List Char} {n : Nat}

theorem base?_eq_some {base : Nat} : base? c cs = some base ↔
    c = '0' ∧ ∃ mark rest, (mark, base) ∈ bases ∧ cs = mark :: rest := by
  constructor
  · intro found
    unfold base? at found
    split at found
    all_goals cases found
    all_goals exact ⟨rfl, _, _, by decide, rfl⟩
  · rintro ⟨rfl, mark, rest, known, rfl⟩
    simp only [bases, List.mem_cons, Prod.mk.injEq, List.not_mem_nil, or_false] at known
    rcases known with ⟨rfl, rfl⟩ | ⟨rfl, rfl⟩ | ⟨rfl, rfl⟩ <;> rfl

theorem fractionLength_split (cs : List Char) :
    ∃ ds rest, cs = ds ++ rest ∧ Fraction ds ∧ fractionLength cs = ds.length := by
  unfold fractionLength
  split
  · next cs =>
    obtain ⟨ds, rest, rfl, digits, -, length⟩ := runLength_split (isDigit 10) cs
    exact ⟨'.' :: ds, rest, rfl, .point digits, by rw [length, List.length_cons, Nat.add_comm]⟩
  · exact ⟨[], cs, rfl, .none, rfl⟩

theorem exponentLength_split (cs : List Char) :
    ∃ ds rest, cs = ds ++ rest ∧ Power ds ∧ exponentLength cs = ds.length := by
  have nothing (cs : List Char) : ∃ ds rest, cs = ds ++ rest ∧ Power ds ∧ 0 = ds.length :=
    ⟨[], cs, rfl, .none, rfl⟩
  unfold exponentLength
  split
  · next cs =>
    -- The sign and what is behind it.
    have ⟨sign, tail, eq, signed, length⟩ : ∃ sign tail, cs = sign ++ tail ∧
        (sign = [] ∨ sign = ['+'] ∨ sign = ['-']) ∧
        (if cs.head? = some '+' ∨ cs.head? = some '-' then 1 else 0) = sign.length := by
      split
      · next some =>
        rcases some with plus | minus
        · obtain ⟨tail, rfl⟩ := List.head?_eq_some_iff.mp plus
          exact ⟨['+'], tail, rfl, by simp, rfl⟩
        · obtain ⟨tail, rfl⟩ := List.head?_eq_some_iff.mp minus
          exact ⟨['-'], tail, rfl, by simp, rfl⟩
      · exact ⟨[], cs, rfl, by simp, rfl⟩
    subst eq
    obtain ⟨ds, rest, rfl, digits, -, run⟩ := runLength_split (isDigit 10) tail
    simp only [length, List.drop_left, run]
    split
    · exact nothing _
    · next some =>
      have power : Power ('e' :: (sign ++ ds)) :=
        .mark signed ⟨fun none => some (List.length_eq_zero_iff.mpr none), digits⟩
      refine ⟨'e' :: (sign ++ ds), rest, by simp, power, ?_⟩
      simp
      omega
  · exact nothing cs

theorem number_reads (digit : isDigit 10 c = true) {r : TokenKind × Nat}
    (found : number c cs = .ok r) : Reads c cs r.1 r.2 := by
  unfold number at found
  split at found
  · next base based =>
    obtain ⟨rfl, mark, tail, known, rfl⟩ := base?_eq_some.mp based
    obtain ⟨ds, rest, rfl, digits, -, length⟩ := runLength_split (isDigit base) tail
    simp only [List.tail_cons, length] at found
    split at found
    · cases found
    · next some =>
      cases found
      have all : Digits base ds := ⟨fun none => some (List.length_eq_zero_iff.mpr none), digits⟩
      have reads := Reads.of_lexeme _ rest (.integer (.based known all)) nofun
      simpa [Nat.add_comm] using reads
  · obtain ⟨ws, behind, rfl, digits, -, whole⟩ := runLength_split (isDigit 10) cs
    obtain ⟨fs, behind, rfl, point, fraction⟩ := fractionLength_split behind
    obtain ⟨ps, rest, rfl, scale, power⟩ := exponentLength_split behind
    have drop : (ws ++ (fs ++ (ps ++ rest))).drop (ws.length + fs.length) = ps ++ rest := by
      rw [← List.append_assoc, ← List.length_append, List.drop_left]
    simp only [whole, List.drop_left, fraction, drop, power] at found
    cases found
    have all : Digits 10 (c :: ws) := ⟨nofun, List.forall_mem_cons.mpr ⟨digit, digits⟩⟩
    have split : ws ++ (fs ++ (ps ++ rest)) = (ws ++ fs ++ ps) ++ rest := by simp
    have length : ws.length + fs.length + ps.length = (ws ++ fs ++ ps).length := by
      simp [Nat.add_assoc]
    rw [split, length]
    refine .of_lexeme (ws ++ fs ++ ps) rest ?_ (by split <;> exact nofun)
    split
    · next none =>
      obtain ⟨noPoint, noPower⟩ := none
      rw [List.length_eq_zero_iff] at noPoint noPower
      subst noPoint noPower
      simpa using Lexeme.integer (.decimal all)
    · next some =>
      refine .float all point scale (Decidable.not_and_iff_not_or_not.mp ?_)
      simpa [List.length_eq_zero_iff] using some

end

theorem scan_reads {c : Char} {cs : List Char} {kind : TokenKind} {n : Nat}
    (found : scan c cs = .ok (kind, n)) : Reads c cs kind n := by
  unfold scan at found
  split at found
  all_goals try exact withEquals_reads rfl rfl (Except.ok.inj found)
  case h_10 => exact slash_reads found
  case h_11 | h_12 => exact doubled_reads rfl found
  case h_13 =>
    cases found
    exact comment_reads
  case h_14 =>
    split at found
    · next closed =>
      cases found
      exact string_reads closed
    · cases found
  case h_15 =>
    split at found
    · next start =>
      have reads := word_reads (.inr ⟨rfl, start⟩)
      rwa [Except.ok.inj found] at reads
    · cases found
  case h_16 =>
    split at found
    · next own =>
      cases found
      exact ofChar?_reads own
    · split at found
      · next start =>
        have reads : Reads c cs (word c cs).1 (word c cs).2 := word_reads (.inl start)
        rwa [Except.ok.inj found] at reads
      · split at found
        · next digit => exact number_reads digit found
        · cases found

theorem isDigit_ten_iff {c : Char} : isDigit 10 c = true ↔ 48 ≤ c.toNat ∧ c.toNat ≤ 57 := by
  have bounds (a b : Char) : a ≤ b ↔ a.toNat ≤ b.toNat := UInt32.le_iff_toNat_le
  have zero : '0'.toNat = 48 := rfl
  have nine : '9'.toNat = 57 := rfl
  have a : 'a'.toNat = 97 := rfl
  have f : 'f'.toNat = 102 := rfl
  have a' : 'A'.toNat = 65 := rfl
  have f' : 'F'.toNat = 70 := rfl
  simp only [isDigit, digitValue?, bounds, zero, nine, a, f, a', f', Option.isSome_filter]
  split
  · simp; omega
  · split
    · simp; omega
    · split <;> simp <;> omega

theorem isWordStart_of_isDigit {c : Char} (digit : isDigit 10 c = true) :
    isWordStart c = false := by
  have bounds := isDigit_ten_iff.mp digit
  have letter : c.isAlpha = (decide (65 ≤ c.val ∧ c.val ≤ 90) ||
      (decide (97 ≤ c.val) && decide (c.val ≤ 122))) := rfl
  have code : c.toNat = c.val.toNat := rfl
  have other : c ≠ '_' := by
    rintro rfl
    simp at bounds
  simp only [isWordStart, letter, UInt32.le_iff_toNat_le, ← code]
  simp [other]
  omega

def Reaches (c : Char) (cs : List Char) (kind : TokenKind) (n : Nat) : Prop :=
  ∃ other m, scan c cs = .ok (other, m) ∧ (n < m ∨ n = m ∧ kind = other)

section

variable {c : Char} {cs tail rest : List Char} {kind : TokenKind}

theorem Reaches.exact {n : Nat} (scanned : scan c cs = .ok (kind, n)) : Reaches c cs kind n :=
  ⟨kind, n, scanned, .inr ⟨rfl, rfl⟩⟩

theorem Reaches.of_le {n m : Nat} (scanned : scan c cs = .ok (kind, m)) (le : n ≤ m) :
    Reaches c cs kind n :=
  ⟨kind, m, scanned, (Nat.lt_or_eq_of_le le).imp_right (⟨·, rfl⟩)⟩

theorem short_reaches (long : TokenKind) (scanned : scan c cs = .ok (withEquals cs long kind)) :
    Reaches c cs kind 0 := by
  by_cases equals : cs.head? = some '='
  · exact ⟨long, 1, by rw [scanned, withEquals, if_pos equals], .inl Nat.zero_lt_one⟩
  · exact .exact (by rw [scanned, withEquals, if_neg equals])

theorem sign_reaches (written : kind.sign? = some (c :: tail)) (rest : List Char) :
    Reaches c (tail ++ rest) kind tail.length := by
  cases kind with
  | binary op =>
    cases op with
    | floorDivide =>
      change some ['/', '/'] = some (c :: tail) at written
      cases written
      by_cases equals : rest.head? = some '='
      · exact ⟨.compound .floorDivide, 2, by simp [scan, withEquals, equals], .inl (by simp)⟩
      · exact .exact (by simp [scan, withEquals, equals])
    | divide =>
      change some ['/'] = some (c :: tail) at written
      cases written
      by_cases again : rest.head? = some '/'
      · have scanned : scan '/' rest = .ok ((withEquals rest.tail (.compound .floorDivide)
            (.binary .floorDivide)).1, (withEquals rest.tail (.compound .floorDivide)
            (.binary .floorDivide)).2 + 1) := by
          simp [scan, again]
        exact ⟨_, _, scanned, .inl (Nat.succ_pos _)⟩
      · exact short_reaches (.compound .divide) (by simp [scan, again])
    | add | subtract | multiply | modulo | power =>
      cases written
      exact short_reaches _ rfl
  | comparison op =>
    cases op with
    | greater | less =>
      cases written
      exact short_reaches _ rfl
    | equal | notEqual | greaterEqual | lessEqual =>
      cases written
      exact .exact rfl
  | compound op =>
    cases op <;> cases written <;> exact .exact rfl
  | logical op =>
    cases op <;> cases written <;> exact .exact rfl
  | bang | assign =>
    cases written
    exact short_reaches _ rfl
  | leftParen | rightParen | leftBrace | rightBrace | comma | semicolon =>
    cases written
    exact .exact rfl
  | _ => cases written

theorem scan_word (start : StartsWord c cs) : scan c cs = .ok (word c cs) := by
  rcases start with start | ⟨rfl, start⟩
  · unfold scan
    split
    all_goals try exact absurd start (by decide)
    split
    · next own =>
      unfold TokenKind.ofChar? at own
      split at own
      all_goals first | exact absurd start (by decide) | cases own
    · rw [if_pos start]
  · simp only [scan, if_pos start]

theorem scan_digit (digit : isDigit 10 c = true) (cs : List Char) :
    scan c cs = number c cs := by
  unfold scan
  split
  all_goals try exact absurd digit (by decide)
  split
  · next own =>
    unfold TokenKind.ofChar? at own
    split at own
    all_goals first | exact absurd digit (by decide) | cases own
  · rw [if_neg (Bool.eq_false_iff.mp (isWordStart_of_isDigit digit)), if_pos digit]

theorem runLength_le_word : runLength isWordChar cs ≤ (word c cs).2 := by
  simp only [word]
  split
  · exact Nat.le_refl _
  · split
    · exact Nat.le_add_right _ _
    · exact Nat.le_refl _
  · exact Nat.le_refl _

theorem Word.parts (spelled : Word (c :: tail)) (rest : List Char) :
    StartsWord c (tail ++ rest) ∧ ∀ d ∈ tail, isWordChar d = true := by
  cases spelled with
  | own start inside => exact ⟨.inl start, inside⟩
  | global start inside =>
    refine ⟨.inr ⟨rfl, by simp [start]⟩, List.forall_mem_cons.mpr ⟨?_, inside⟩⟩
    exact isWordChar_of_isWordStart start

theorem word_reaches (spelled : Word (c :: tail))
    (stopped : (∀ d ∈ rest.head?, isWordChar d = false) →
      Reaches c (tail ++ rest) kind tail.length) :
    Reaches c (tail ++ rest) kind tail.length := by
  have ⟨start, inside⟩ := spelled.parts rest
  by_cases stops : ∀ d ∈ rest.head?, isWordChar d = false
  · exact stopped stops
  · refine ⟨_, _, scan_word start, .inl (Nat.lt_of_lt_of_le ?_ runLength_le_word)⟩
    obtain ⟨d, first, going⟩ : ∃ d ∈ rest.head?, isWordChar d = true := by simpa using stops
    obtain ⟨behind, rfl⟩ := List.head?_eq_some_iff.mp first
    rw [runLength_append inside]
    simp [runLength, going]

theorem keyword_word (k : Keyword) : Word k.spelling.toList := by
  rcases k with ⟨_ | _ | _⟩ | _ | _ | _ | _
  all_goals exact .own (by decide) (List.all_eq_true.mp (by decide))

theorem identifier_reaches (spelled : Word (c :: tail))
    (own : ∀ k : Keyword, c :: tail ≠ k.spelling.toList) :
    Reaches c (tail ++ rest) .identifier tail.length := by
  refine word_reaches spelled fun stop => .exact ?_
  have ⟨start, inside⟩ := spelled.parts rest
  have unknown : Keyword.ofWord? (.ofList (c :: tail)) = none := by
    cases found : Keyword.ofWord? (.ofList (c :: tail)) with
    | none => rfl
    | some k => exact absurd (ofWord?_eq_some.mp found) (own k)
  simp only [scan_word start, word, runLength_exact inside stop, List.take_left, unknown]

theorem keyword_reaches {k : Keyword} (written : k.spelling.toList = c :: tail) :
    Reaches c (tail ++ rest) (.keyword k) tail.length := by
  have spelled := written ▸ keyword_word k
  refine word_reaches spelled fun stop => ?_
  have ⟨start, inside⟩ := spelled.parts rest
  have known : Keyword.ofWord? (.ofList (c :: tail)) = some k := ofWord?_eq_some.mpr written.symm
  have scanned := scan_word start
  simp only [word, runLength_exact inside stop, List.take_left, List.drop_left, known] at scanned
  split at scanned
  · next unknown => cases unknown
  · next other =>
    cases other
    split at scanned
    · next more trailing =>
      obtain ⟨gap, -, -, -, -, -, rfl⟩ := trailingIf?_eq_some.mp trailing
      exact ⟨_, _, scanned, .inl (by omega)⟩
    · exact .exact scanned
  · next other =>
    cases other
    exact .exact scanned

theorem elseIf_reaches {gap : List Char} (apart : gap ≠ [])
    (blank : ∀ d ∈ gap, d = ' ' ∨ d = '\t') (stops : ∀ d ∈ rest.head?, isWordChar d = false) :
    Reaches 'e' (['l', 's', 'e'] ++ gap ++ ['i', 'f'] ++ rest) .elseIf (gap.length + 5) := by
  have trailing : trailingIf? (gap ++ 'i' :: 'f' :: rest) = some (gap.length + 2) :=
    trailingIf?_eq_some.mpr ⟨gap, rest, apart, blank, rfl, stops, rfl⟩
  have stop : ∀ d ∈ (gap ++ 'i' :: 'f' :: rest).head?, isWordChar d = false := by
    obtain ⟨d, gap, rfl⟩ := List.exists_cons_of_ne_nil apart
    rcases blank d (.head _) with rfl | rfl <;> simp <;> decide
  have text : ['l', 's', 'e'] ++ gap ++ ['i', 'f'] ++ rest =
      ['l', 's', 'e'] ++ (gap ++ 'i' :: 'f' :: rest) := by simp
  have known : Keyword.ofWord? (.ofList ['e', 'l', 's', 'e']) = some .otherwise := by decide
  have length : runLength isWordChar (['l', 's', 'e'] ++ (gap ++ 'i' :: 'f' :: rest)) = 3 :=
    runLength_exact (List.all_eq_true.mp (by decide)) stop
  refine .exact ?_
  rw [text, scan_word (.inl (by decide)), word, length]
  simp only [List.cons_append, List.nil_append, List.take_succ_cons, List.take_zero,
    List.drop_succ_cons, List.drop_zero, known, trailing]
  rw [Nat.add_comm 3]

theorem Power.le_exponentLength {ds : List Char} (power : Power ds) (rest : List Char) :
    ds.length ≤ exponentLength (ds ++ rest) := by
  cases power with
  | none => exact Nat.zero_le _
  | @mark sign ds signed digits =>
    have positive := List.length_pos_iff.mpr digits.1
    have prefixed : (if (sign ++ (ds ++ rest)).head? = some '+' ∨
        (sign ++ (ds ++ rest)).head? = some '-' then 1 else 0) = sign.length := by
      rcases signed with rfl | rfl | rfl
      · exact if_neg (digits.unsigned rest)
      · rfl
      · rfl
    have text : 'e' :: (sign ++ ds) ++ rest = 'e' :: (sign ++ (ds ++ rest)) := by simp
    simp only [text, exponentLength, prefixed, List.drop_left, runLength_append digits.2]
    rw [if_neg (by omega)]
    simp
    omega

theorem Fraction.le_fractionLength {ds : List Char} (point : Fraction ds) (rest : List Char) :
    ds.length ≤ fractionLength (ds ++ rest) := by
  cases point with
  | none => exact Nat.zero_le _
  | point digits =>
    rw [List.cons_append, fractionLength, runLength_append digits]
    simp
    omega

theorem Fraction.length_before_power {ds power : List Char} (point : Fraction ds)
    (scale : Power power) (nonempty : power ≠ []) (rest : List Char) :
    fractionLength (ds ++ (power ++ rest)) = ds.length := by
  cases scale with
  | none => exact absurd rfl nonempty
  | mark signed digits =>
    cases point with
    | none => rfl
    | point digits =>
      rw [List.cons_append, fractionLength, List.cons_append, runLength_exact digits]
      · simp [Nat.add_comm]
      · rintro d first
        cases first
        decide

theorem base?_eq_none {d : Char} (digit : d = '.' ∨ d = 'e' ∨ isDigit 10 d = true) :
    base? c (d :: rest) = none := by
  cases found : base? c (d :: rest) with
  | none => rfl
  | some base =>
    obtain ⟨rfl, mark, rest, known, eq⟩ := base?_eq_some.mp found
    cases eq
    simp only [bases, List.mem_cons, Prod.mk.injEq, List.not_mem_nil, or_false] at known
    rcases known with ⟨rfl, -⟩ | ⟨rfl, -⟩ | ⟨rfl, -⟩ <;> exact absurd digit (by decide)

theorem number_eq_unbased (unbased : base? c cs = none) {w f e : Nat}
    (whole : runLength (isDigit 10) cs = w) (fraction : fractionLength (cs.drop w) = f)
    (power : exponentLength (cs.drop (w + f)) = e) :
    number c cs = .ok (if f = 0 ∧ e = 0 then .integer else .float, w + f + e) := by
  subst whole fraction power
  simp only [number, unbased]

theorem decimal_reaches (digits : Digits 10 (c :: tail))
    (whole : tail = [] → ¬BareBase (c :: rest)) :
    Reaches c (tail ++ rest) .integer tail.length := by
  obtain ⟨digit, inside⟩ := List.forall_mem_cons.mp digits.2
  cases based : base? c (tail ++ rest) with
  | some base =>
    cases tail with
    | cons d tail =>
      rw [List.cons_append, base?_eq_none (.inr (.inr (inside d (.head _))))] at based
      cases based
    | nil =>
      obtain ⟨rfl, mark, behind, known, rfl⟩ := base?_eq_some.mp based
      have some : runLength (isDigit base) behind ≠ 0 := by
        obtain ⟨ds, more, rfl, -, stop, length⟩ := runLength_split (isDigit base) behind
        rintro none
        rw [length, List.length_eq_zero_iff] at none
        subst none
        exact whole rfl ⟨mark, base, more, known, rfl, stop⟩
      have positive := Nat.add_pos_left Nat.one_pos (runLength (isDigit base) behind)
      refine ⟨.integer, _, ?_, .inl positive⟩
      rw [scan_digit digit, number, based]
      simp [some]
  | none =>
    have scanned := scan_digit digit (tail ++ rest)
    rw [number_eq_unbased based (runLength_append inside rest) rfl rfl] at scanned
    split at scanned
    · exact .of_le scanned (by omega)
    · exact ⟨_, _, scanned, .inl (by omega)⟩

theorem based_reaches {mark : Char} {base : Nat} {ds : List Char} (known : (mark, base) ∈ bases)
    (digits : Digits base ds) : Reaches '0' (mark :: ds ++ rest) .integer (ds.length + 1) := by
  have based : base? '0' (mark :: ds ++ rest) = some base :=
    base?_eq_some.mpr ⟨rfl, mark, ds ++ rest, known, rfl⟩
  have positive := List.length_pos_iff.mpr digits.1
  have scanned : scan '0' (mark :: ds ++ rest) =
      .ok (.integer, 1 + (ds.length + runLength (isDigit base) rest)) := by
    rw [scan_digit (by decide), number, based]
    simp only [List.cons_append, List.tail_cons, runLength_append digits.2]
    rw [if_neg (by omega)]
  exact .of_le scanned (by omega)

theorem float_reaches {ws fs ps : List Char} (digits : Digits 10 (c :: ws)) (point : Fraction fs)
    (scale : Power ps) (nonempty : fs ≠ [] ∨ ps ≠ []) (rest : List Char) :
    Reaches c (ws ++ (fs ++ (ps ++ rest))) .float (ws.length + fs.length + ps.length) := by
  obtain ⟨digit, inside⟩ := List.forall_mem_cons.mp digits.2
  -- What is behind the digits is neither a digit nor the mark of a base.
  have ⟨d, more, behind, other⟩ : ∃ d more, fs ++ (ps ++ rest) = d :: more ∧
      (d = '.' ∨ d = 'e') := by
    cases point with
    | point => exact ⟨_, _, rfl, .inl rfl⟩
    | none =>
      cases scale with
      | mark => exact ⟨_, _, rfl, .inr rfl⟩
      | none => exact absurd nonempty (by simp)
  have unbased : base? c (ws ++ (fs ++ (ps ++ rest))) = none := by
    cases ws with
    | nil =>
      rw [List.nil_append, behind]
      exact base?_eq_none (other.imp_right .inl)
    | cons w ws => exact base?_eq_none (.inr (.inr (inside w (.head _))))
  have whole : runLength (isDigit 10) (ws ++ (fs ++ (ps ++ rest))) = ws.length := by
    refine runLength_exact inside ?_
    rw [behind]
    rintro e first
    cases first
    rcases other with rfl | rfl <;> decide
  have scanned := scan_digit digit (ws ++ (fs ++ (ps ++ rest)))
  rw [number_eq_unbased unbased whole rfl rfl] at scanned
  rw [List.drop_left] at scanned
  by_cases unscaled : ps = []
  · subst unscaled
    have le := point.le_fractionLength ([] ++ rest)
    have positive := List.length_pos_iff.mpr (nonempty.resolve_right (fun h => h rfl))
    rw [if_neg (by omega)] at scanned
    refine .of_le scanned ?_
    simp only [List.length_nil, Nat.add_zero]
    omega
  · have drop : (ws ++ (fs ++ (ps ++ rest))).drop (ws.length + fs.length) = ps ++ rest := by
      rw [← List.append_assoc, ← List.length_append, List.drop_left]
    have le := scale.le_exponentLength rest
    have positive := List.length_pos_iff.mpr unscaled
    rw [point.length_before_power scale unscaled, drop, if_neg (by omega)] at scanned
    exact .of_le scanned (by omega)

theorem comment_reaches (line : '\n' ∉ tail) :
    Reaches '#' (tail ++ rest) .comment tail.length := by
  have inside : ∀ d ∈ tail, decide (d ≠ '\n') = true := by
    rintro d member
    rw [decide_eq_true_eq]
    rintro rfl
    exact line member
  have scanned : scan '#' (tail ++ rest) =
      .ok (.comment, tail.length + runLength (· ≠ '\n') rest) := by
    rw [← runLength_append inside]
    rfl
  exact .of_le scanned (by omega)

theorem string_reaches {inside : List Char} (quotable : Quotable inside) (rest : List Char) :
    Reaches '"' (inside ++ '"' :: rest) .string (inside.length + 1) := by
  have closed := stringLength?_eq_some.mpr ⟨inside, rest, quotable, rfl, rfl⟩
  exact .exact (by simp only [scan, closed])

theorem scan_reaches (lexeme : Lexeme kind (c :: tail))
    (stops : kind = .elseIf → ∀ d ∈ rest.head?, isWordChar d = false)
    (whole : tail = [] → ¬BareBase (c :: rest)) :
    Reaches c (tail ++ rest) kind tail.length := by
  generalize text : c :: tail = cs at lexeme
  cases lexeme with
  | whitespace blank =>
    cases text
    simp only [blanks, List.mem_cons, List.not_mem_nil, or_false] at blank
    rcases blank with rfl | rfl | rfl | rfl | rfl <;> exact .exact rfl
  | comment line =>
    cases text
    exact comment_reaches line
  | sign written => exact sign_reaches (text ▸ written) rest
  | keyword k => exact keyword_reaches text.symm
  | identifier word own => exact identifier_reaches (text ▸ word) (text ▸ own)
  | elseIf apart blank =>
    cases text
    have reaches := elseIf_reaches apart blank (stops rfl)
    simpa using reaches
  | integer numeral =>
    cases numeral with
    | decimal digits => exact decimal_reaches (text ▸ digits) whole
    | based known digits =>
      cases text
      exact based_reaches known digits
  | @float ws fs ps digits point scale nonempty =>
    cases ws with
    | nil => exact absurd rfl digits.1
    | cons w ws =>
      cases text
      have reaches := float_reaches digits point scale nonempty rest
      simpa [Nat.add_assoc] using reaches
  | string inside =>
    cases text
    have reaches := string_reaches inside rest
    simpa using reaches

end

theorem Lexeme.ne_nil {kind : TokenKind} {cs : List Char} (lexeme : Lexeme kind cs) : cs ≠ [] := by
  cases lexeme with
  | sign written =>
    rintro rfl
    cases kind with
    | binary op | comparison op | compound op | logical op => cases op <;> cases written
    | _ => cases written
  | keyword k => rcases k with ⟨_ | _ | _⟩ | _ | _ | _ | _ <;> decide
  | identifier word => cases word <;> exact List.cons_ne_nil _ _
  | integer numeral =>
    cases numeral with
    | decimal digits => exact digits.1
    | based => exact List.cons_ne_nil _ _
  | float digits => simp [digits.1]
  | _ => exact List.cons_ne_nil _ _

section

variable {c : Char} {cs ds tail rest : List Char} {kind other : TokenKind} {n : Nat}

theorem BareBase.scan_eq_error (bare : BareBase (c :: cs)) : ∃ fault, scan c cs = .error fault := by
  obtain ⟨mark, base, rest, known, text, stop⟩ := bare
  cases text
  have based : base? '0' (mark :: rest) = some base :=
    base?_eq_some.mpr ⟨rfl, mark, rest, known, rfl⟩
  rw [scan_digit (by decide), number, based]
  simp only [List.tail_cons, runLength_stop stop, if_true]
  exact ⟨_, rfl⟩

theorem Begins.reaches (begins : Begins (c :: cs) kind ds) (based : ¬BareBase (c :: cs)) :
    Reaches c cs kind (ds.length - 1) := by
  obtain ⟨lexeme, ⟨rest, text⟩, stops⟩ := begins
  obtain ⟨d, tail, rfl⟩ := List.exists_cons_of_ne_nil lexeme.ne_nil
  cases text
  refine scan_reaches lexeme (by simpa using stops) ?_
  rintro rfl
  exact based

theorem scan_eq_ok : scan c cs = .ok (kind, n) ↔
    ¬BareBase (c :: cs) ∧ n ≤ cs.length ∧ Longest (c :: cs) kind (c :: cs.take n) := by
  constructor
  · intro found
    have reads := scan_reads found
    have based : ¬BareBase (c :: cs) := by
      intro bare
      obtain ⟨fault, failed⟩ := bare.scan_eq_error
      rw [failed] at found
      cases found
    refine ⟨based, reads.le, reads.begins, fun other ds begins => ?_⟩
    obtain ⟨kind, m, scanned, within⟩ := begins.reaches based
    rw [found] at scanned
    cases scanned
    rw [List.length_cons, List.length_take_of_le reads.le]
    omega
  · rintro ⟨based, le, begins, longest⟩
    obtain ⟨other, m, scanned, reached⟩ := begins.reaches based
    have reads := scan_reads scanned
    have within := longest other _ reads.begins
    simp only [List.length_cons, List.length_take_of_le le, List.length_take_of_le reads.le,
      Nat.add_sub_cancel] at within reached
    obtain ⟨rfl, rfl⟩ := reached.resolve_left (by omega)
    exact scanned

theorem scan_eq_error : (∃ fault, scan c cs = .error fault) ↔
    BareBase (c :: cs) ∨ ∀ kind ds, ¬Begins (c :: cs) kind ds := by
  constructor
  · rintro ⟨fault, failed⟩
    refine Classical.or_iff_not_imp_left.mpr fun based kind ds begins => ?_
    obtain ⟨other, m, scanned, -⟩ := begins.reaches based
    rw [failed] at scanned
    cases scanned
  · rintro (bare | none)
    · exact bare.scan_eq_error
    · cases scanned : scan c cs with
      | error fault => exact ⟨fault, rfl⟩
      | ok r => exact absurd (scan_reads scanned).begins (none _ _)

theorem Lexeme.scan_eq_ok (lexeme : Lexeme kind (c :: tail)) :
    scan c tail = .ok (kind, tail.length) := by
  have alone : ¬BareBase [c] := by
    rintro ⟨mark, base, rest, -, text, -⟩
    cases text
  have reaches : Reaches c (tail ++ []) kind tail.length :=
    scan_reaches lexeme (by simp) fun _ => alone
  rw [List.append_nil] at reaches
  obtain ⟨other, m, scanned, within⟩ := reaches
  have le := (scan_reads scanned).le
  obtain ⟨rfl, rfl⟩ := within.resolve_left (by omega)
  exact scanned

theorem Lexeme.kind_eq (lexeme : Lexeme kind ds) (again : Lexeme other ds) : kind = other := by
  obtain ⟨c, tail, rfl⟩ := List.exists_cons_of_ne_nil lexeme.ne_nil
  have same := lexeme.scan_eq_ok.symm.trans again.scan_eq_ok
  cases same
  rfl

theorem Longest.eq {text : List Char} (longest : Longest text kind cs)
    (again : Longest text other ds) : kind = other ∧ cs = ds := by
  have length := Nat.le_antisymm (again.longest _ _ longest.toBegins)
    (longest.longest _ _ again.toBegins)
  have same := List.prefix_of_prefix_length_le longest.front again.front (Nat.le_of_eq length)
  obtain rfl := same.eq_of_length length
  exact ⟨longest.lexeme.kind_eq again.lexeme, rfl⟩

end

end CalcScript.Scan
