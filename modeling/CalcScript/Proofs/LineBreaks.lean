import CalcScript.Proofs.Tokenizing
import CalcScript.Text.Lines

set_option autoImplicit false

namespace CalcScript

namespace Scan

open Text (isBlank)

section

variable {base : Nat} {c d : Char} {cs ds tail : List Char} {kind : TokenKind}

theorem isWordChar_iff : isWordChar c = true ↔ (48 ≤ c.toNat ∧ c.toNat ≤ 57) ∨
    (65 ≤ c.toNat ∧ c.toNat ≤ 90) ∨ c.toNat = 95 ∨ 97 ≤ c.toNat ∧ c.toNat ≤ 122 := by
  have code : c.toNat = c.val.toNat := rfl
  have letter : c.isAlpha = (decide (65 ≤ c.val ∧ c.val ≤ 90) ||
      (decide (97 ≤ c.val) && decide (c.val ≤ 122))) := rfl
  have number : c.isDigit = (decide (48 ≤ c.val) && decide (c.val ≤ 57)) := rfl
  have low : c = '_' ↔ c.toNat = 95 := Char.toNat_inj.symm
  simp only [isWordChar, Char.isAlphanum, letter, number, low, UInt32.le_iff_toNat_le, ← code]
  simp
  omega

theorem isWordChar_of_isDigit (digit : isDigit base c = true) : isWordChar c = true := by
  have bounds (a b : Char) : a ≤ b ↔ a.toNat ≤ b.toNat := UInt32.le_iff_toNat_le
  have zero : '0'.toNat = 48 := rfl
  have nine : '9'.toNat = 57 := rfl
  have a : 'a'.toNat = 97 := rfl
  have f : 'f'.toNat = 102 := rfl
  have a' : 'A'.toNat = 65 := rfl
  have f' : 'F'.toNat = 70 := rfl
  simp only [isDigit, digitValue?, bounds, zero, nine, a, f, a', f', Option.isSome_filter] at digit
  rw [isWordChar_iff]
  split at digit
  · omega
  · split at digit
    · omega
    · split at digit
      · omega
      · simp at digit

theorem isBlank_of_isWordChar (inside : isWordChar c = true) : isBlank c = false := by
  rw [isWordChar_iff] at inside
  simp only [isBlank]
  simp
  omega

def Visible (cs : List Char) : Prop := ∀ c ∈ cs, isBlank c = false

theorem visible_of_all (shown : cs.all (!isBlank ·) = true) : Visible cs := by
  intro c member
  simpa using List.all_eq_true.mp shown c member

theorem Digits.visible (digits : Digits base ds) : Visible ds :=
  fun d member => isBlank_of_isWordChar (isWordChar_of_isDigit (digits.2 d member))

theorem Fraction.visible (point : Fraction ds) : Visible ds := by
  cases point with
  | none => exact List.forall_mem_nil _
  | point digits =>
    refine List.forall_mem_cons.mpr ⟨by decide, fun d member => ?_⟩
    exact isBlank_of_isWordChar (isWordChar_of_isDigit (digits d member))

theorem Power.visible (scale : Power ds) : Visible ds := by
  cases scale with
  | none => exact List.forall_mem_nil _
  | mark signed digits =>
    refine List.forall_mem_cons.mpr ⟨by decide, List.forall_mem_append.mpr ⟨?_, digits.visible⟩⟩
    rcases signed with rfl | rfl | rfl <;> exact visible_of_all rfl

theorem Word.visible (word : Word ds) : Visible ds := by
  have letter {d : Char} (start : isWordStart d = true) : isBlank d = false :=
    isBlank_of_isWordChar (isWordChar_of_isWordStart start)
  cases word with
  | own start inside =>
    exact List.forall_mem_cons.mpr
      ⟨letter start, fun d member => isBlank_of_isWordChar (inside d member)⟩
  | global start inside =>
    exact List.forall_mem_cons.mpr ⟨by decide, List.forall_mem_cons.mpr
      ⟨letter start, fun d member => isBlank_of_isWordChar (inside d member)⟩⟩

theorem Numeral.visible {value : Nat} (numeral : Numeral ds value) : Visible ds := by
  cases numeral with
  | decimal digits => exact digits.visible
  | based known digits =>
    have marks : ∀ b ∈ bases, isBlank b.1 = false := by decide
    have mark := marks _ known
    exact List.forall_mem_cons.mpr ⟨by decide, List.forall_mem_cons.mpr ⟨mark, digits.visible⟩⟩

theorem TokenKind.sign?_visible (kind : TokenKind) : ∀ cs ∈ kind.sign?, Visible cs := by
  have shown : kind.sign?.all (·.all (!isBlank ·)) = true := by
    cases kind with
    | binary op | comparison op | compound op | logical op => cases op <;> rfl
    | _ => rfl
  intro cs written
  rw [Option.mem_def.mp written] at shown
  exact visible_of_all shown

inductive Spaced : TokenKind → List Char → Prop
  | whitespace (c : Char) : Spaced .whitespace [c]
  | comment {cs : List Char} (line : '\n' ∉ cs) : Spaced .comment ('#' :: cs)
  | elseIf {gap : List Char} (blank : ∀ c ∈ gap, c = ' ' ∨ c = '\t') :
      Spaced .elseIf (['e', 'l', 's', 'e'] ++ gap ++ ['i', 'f'])
  | string (cs : List Char) : Spaced .string ('"' :: (cs ++ ['"']))

theorem Lexeme.visible_or_spaced (lexeme : Lexeme kind ds) : Visible ds ∨ Spaced kind ds := by
  cases lexeme with
  | whitespace => exact .inr (.whitespace _)
  | comment line => exact .inr (.comment line)
  | elseIf apart blank => exact .inr (.elseIf blank)
  | string => exact .inr (.string _)
  | sign written => exact .inl (TokenKind.sign?_visible kind ds written)
  | keyword k =>
    left
    rcases k with ⟨_ | _ | _⟩ | _ | _ | _ | _ <;> exact visible_of_all rfl
  | identifier word => exact .inl word.visible
  | integer numeral => exact .inl numeral.visible
  | float digits point scale =>
    refine .inl (List.forall_mem_append.mpr ⟨List.forall_mem_append.mpr ⟨?_, ?_⟩, ?_⟩)
    · exact digits.visible
    · exact point.visible
    · exact scale.visible

theorem Lexeme.of_blank (lexeme : Lexeme kind (c :: tail)) (blank : isBlank c = true) :
    kind = .whitespace ∧ tail = [] := by
  generalize text : c :: tail = ds at lexeme
  rcases lexeme.visible_or_spaced with visible | spaced
  · subst text
    rw [visible c (.head _)] at blank
    cases blank
  · cases spaced with
    | whitespace =>
      cases text
      exact ⟨rfl, rfl⟩
    | comment | elseIf | string =>
      cases text
      exact absurd blank (by decide)

theorem Lexeme.of_last_blank (lexeme : Lexeme kind (c :: (ds ++ [d]))) (blank : isBlank d = true) :
    kind = .comment ∧ c = '#' := by
  generalize text : c :: (ds ++ [d]) = cs at lexeme
  have last : cs.getLast? = some d := by
    rw [← text, ← List.cons_append, List.getLast?_append]
    rfl
  rcases lexeme.visible_or_spaced with visible | spaced
  · have shown := visible d (List.mem_of_getLast? last)
    rw [shown] at blank
    cases blank
  · cases spaced with
    | whitespace => simp at text
    | comment =>
      cases text
      exact ⟨rfl, rfl⟩
    | elseIf =>
      rw [List.getLast?_append] at last
      cases last
      exact absurd blank (by decide)
    | string =>
      rw [← List.cons_append, List.getLast?_append] at last
      cases last
      exact absurd blank (by decide)

theorem Lexeme.feed (lexeme : Lexeme kind (c :: cs)) (feed : '\n' ∈ cs) : c = '"' := by
  generalize text : c :: cs = ds at lexeme
  rcases lexeme.visible_or_spaced with visible | spaced
  · subst text
    exact absurd (visible '\n' (.tail _ feed)) (by decide)
  · cases spaced with
    | whitespace =>
      cases text
      cases feed
    | comment line =>
      cases text
      exact absurd feed line
    | elseIf blank =>
      cases text
      have within := blank '\n' (by simpa using feed)
      exact absurd within (by decide)
    | string =>
      cases text
      rfl

theorem Lexeme.quoted (lexeme : Lexeme kind ('"' :: tail)) :
    kind = .string ∧ stringLength? tail = some tail.length := by
  have scanned := lexeme.scan_eq_ok
  simp only [scan] at scanned
  split at scanned
  · next n closed =>
    cases scanned
    exact ⟨rfl, closed⟩
  · cases scanned

theorem stringLength?_append {n : Nat} (closed : stringLength? cs = some n) (rest : List Char) :
    stringLength? (cs ++ rest) = some n := by
  obtain ⟨inside, behind, quotable, rfl, rfl⟩ := stringLength?_eq_some.mp closed
  exact stringLength?_eq_some.mpr ⟨inside, behind ++ rest, quotable, by simp, rfl⟩

end

section

variable {c d : Char} {cs ds rest : List Char} {kind : TokenKind} {n : Nat}

theorem mem_of_longer {more : List Char} (text : ds ++ more = cs ++ d :: rest)
    (longer : cs.length < ds.length) : d ∈ ds := by
  rcases List.append_eq_append_iff.mp text with ⟨as, rfl, -⟩ | ⟨bs, rfl, behind⟩
  · rw [List.length_append] at longer
    omega
  · cases bs with
    | nil => simp at longer
    | cons b bs =>
      cases behind
      simp

theorem Begins.shorten (begins : Begins (cs ++ d :: rest) kind ds)
    (within : ds.length ≤ cs.length) : Begins cs kind ds := by
  obtain ⟨lexeme, front, stops⟩ := begins
  refine ⟨lexeme, List.prefix_of_prefix_length_le front ⟨_, rfl⟩ within, fun same e first => ?_⟩
  apply stops same e
  rw [List.drop_append_of_le_length within, List.head?_append]
  simp [Option.mem_def.mp first]

theorem Begins.lengthen (begins : Begins cs kind ds) (stop : isWordChar d = false)
    (rest : List Char) : Begins (cs ++ d :: rest) kind ds := by
  obtain ⟨lexeme, front, stops⟩ := begins
  refine ⟨lexeme, front.trans (List.prefix_append _ _), fun same e first => ?_⟩
  rw [List.drop_append_of_le_length front.length_le, List.head?_append] at first
  cases behind : (cs.drop ds.length).head? with
  | none =>
    obtain rfl : d = e := by simpa [behind] using first
    exact stop
  | some e' =>
    obtain rfl : e' = e := by simpa [behind] using first
    exact stops same e' behind

theorem BareBase.lengthen (bare : BareBase cs) (stop : isWordChar d = false) (rest : List Char) :
    BareBase (cs ++ d :: rest) := by
  obtain ⟨mark, base, digits, known, rfl, none⟩ := bare
  refine ⟨mark, base, digits ++ d :: rest, known, rfl, ?_⟩
  cases digits with
  | nil =>
    rintro _ ⟨⟩
    by_contra digit
    rw [isWordChar_of_isDigit (by simpa using digit)] at stop
    cases stop
  | cons e digits => exact none

theorem BareBase.shorten (bare : BareBase (c :: cs ++ '\n' :: rest)) : BareBase (c :: cs) := by
  obtain ⟨mark, base, digits, known, text, none⟩ := bare
  cases cs with
  | nil =>
    cases text
    exact absurd known (by simp [bases])
  | cons e cs =>
    cases text
    refine ⟨mark, base, cs, known, rfl, fun d first => none d ?_⟩
    obtain ⟨more, rfl⟩ := List.head?_eq_some_iff.mp first
    rfl

theorem scan_shorten (scanned : scan c (cs ++ d :: rest) = .ok (kind, n)) (within : n ≤ cs.length)
    (stop : isWordChar d = false) : scan c cs = .ok (kind, n) := by
  obtain ⟨based, -, begins, longest⟩ := scan_eq_ok.mp scanned
  rw [List.take_append_of_le_length within, ← List.cons_append] at begins longest
  refine scan_eq_ok.mpr ⟨fun bare => based (bare.lengthen stop rest), within, ?_, ?_⟩
  · refine begins.shorten ?_
    rw [List.length_cons, List.length_cons, List.length_take]
    exact Nat.succ_le_succ (Nat.min_le_right n cs.length)
  · exact fun other ds again => longest other ds (again.lengthen stop rest)

theorem scan_lengthen (scanned : scan c cs = .ok (kind, n)) (rest : List Char) :
    scan c (cs ++ '\n' :: rest) = .ok (kind, n) := by
  obtain ⟨based, within, begins, longest⟩ := scan_eq_ok.mp scanned
  have more : n ≤ (cs ++ '\n' :: rest).length := by simp; omega
  refine scan_eq_ok.mpr ⟨fun bare => based bare.shorten, more, ?_⟩
  rw [List.take_append_of_le_length within, ← List.cons_append]
  refine ⟨begins.lengthen (by decide) rest, fun other ds again => ?_⟩
  by_cases short : ds.length ≤ (c :: cs).length
  · exact longest other ds (again.shorten short)
  · -- Then it is a string with the line feed in it, but the string was closed before.
    obtain ⟨more, text⟩ := again.front
    obtain ⟨e, tail, rfl⟩ := List.exists_cons_of_ne_nil again.lexeme.ne_nil
    simp only [List.cons_append, List.cons.injEq] at text
    obtain ⟨rfl, text⟩ := text
    have feed : '\n' ∈ tail := mem_of_longer text (by simpa using short)
    obtain rfl := again.lexeme.feed feed
    obtain ⟨-, length⟩ := again.lexeme.quoted
    have closed : stringLength? cs = some n := by
      simp only [scan] at scanned
      split at scanned
      · next m closed =>
        cases scanned
        exact closed
      · cases scanned
    have same := stringLength?_append closed ('\n' :: rest)
    rw [← text, stringLength?_append length more] at same
    cases same
    simp only [List.length_cons, List.length_take_of_le within, Nat.le_refl]

end

section

variable {pos : Position} {c d : Char} {cs rest : List Char} {t : Token} {ts : List Token} {n : Nat}

theorem token_scan (found : token pos c cs = .ok (t, n)) :
    scan c cs = .ok (t.kind, n) ∧ n ≤ cs.length := by
  simp only [token, bind, Except.bind] at found
  split at found
  · cases found
  · next r scanned =>
    split at found
    · cases found
    · cases found
      exact ⟨scanned, (scan_reads scanned).le⟩

theorem token_congr {cs' : List Char} {kind : TokenKind} (scanned : scan c cs = .ok (kind, n))
    (scanned' : scan c cs' = .ok (kind, n)) (same : cs.take n = cs'.take n) :
    token pos c cs = token pos c cs' := by
  simp only [token, scanned, scanned', same, bind, Except.bind]

theorem token_shorten (found : token pos c (cs ++ d :: rest) = .ok (t, n)) (within : n ≤ cs.length)
    (stop : isWordChar d = false) : token pos c cs = .ok (t, n) := by
  have scanned := (token_scan found).1
  rw [← found]
  exact token_congr (scan_shorten scanned within stop) scanned
    (List.take_append_of_le_length within).symm

theorem token_lengthen (found : token pos c cs = .ok (t, n)) (rest : List Char) :
    token pos c (cs ++ '\n' :: rest) = .ok (t, n) := by
  obtain ⟨scanned, within⟩ := token_scan found
  rw [← found]
  exact token_congr (scan_lengthen scanned rest) scanned (List.take_append_of_le_length within)

theorem Lexed.lengthen {left : List Char} (lexed : Lexed pos cs ts left) (rest : List Char) :
    Lexed pos (cs ++ '\n' :: rest) ts (left ++ '\n' :: rest) := by
  induction lexed with
  | nothing pos cs => exact .nothing pos _
  | @token pos c cs left t ts n first later ih =>
    have within := (token_scan first).2
    have behind : Lexed (pos.after (c :: (cs ++ '\n' :: rest).take n))
        ((cs ++ '\n' :: rest).drop n) ts (left ++ '\n' :: rest) := by
      rw [List.take_append_of_le_length within, List.drop_append_of_le_length within]
      exact ih
    exact .token (token_lengthen first rest) behind

def OneLine (t : Token) : Prop := t.kind = .string → '\n' ∉ t.lexeme.toList

theorem Lexed.split (lexed : Lexed pos (cs ++ '\n' :: rest) ts []) (flat : ∀ t ∈ ts, OneLine t) :
    ∃ first feed later, ts = first ++ feed :: later ∧ Lexed pos cs first [] ∧
      feed.kind = .whitespace ∧ Lexed ((pos.after cs).next '\n') rest later [] := by
  generalize whole : cs ++ '\n' :: rest = text, done : [] = none at lexed
  induction lexed generalizing cs with
  | nothing pos text =>
    subst done
    simp at whole
  | @token pos c text none t ts n found later ih =>
    subst done
    obtain ⟨single, others⟩ := List.forall_mem_cons.mp flat
    cases cs with
    | nil =>
      cases whole
      have scanned : scan '\n' rest = .ok (.whitespace, 0) := rfl
      obtain ⟨kind, rfl⟩ : TokenKind.whitespace = t.kind ∧ 0 = n := by
        simpa [scanned] using (token_scan found).1
      exact ⟨[], t, ts, rfl, .nothing pos [], kind.symm, later⟩
    | cons e cs =>
      rw [List.cons_append, List.cons.injEq] at whole
      obtain ⟨rfl, rfl⟩ := whole
      by_cases within : n ≤ cs.length
      · obtain ⟨first, feed, more, rfl, line, kind, behind⟩ :=
          ih others (List.drop_append_of_le_length within).symm rfl
        rw [List.take_append_of_le_length within, ← Position.after_append] at behind
        rw [List.take_append_of_le_length within] at line
        refine ⟨t :: first, feed, more, rfl, ?_, kind, ?_⟩
        · exact .token (token_shorten found within (by decide)) line
        · simpa using behind
      · -- Then the line feed is in the lexeme, as it can only be in a string.
        have reads := scan_reads (token_scan found).1
        have text := List.take_append_drop n (cs ++ '\n' :: rest)
        have inside : '\n' ∈ (cs ++ '\n' :: rest).take n := by
          apply mem_of_longer text
          rw [List.length_take_of_le reads.le]
          omega
        obtain rfl := reads.begins.lexeme.feed inside
        have string := reads.begins.lexeme.quoted.1
        refine absurd ?_ (single string)
        rw [(token_eq_ok found).2]
        exact .tail _ inside

theorem Lexed.blank (lexed : Lexed pos cs ts []) (blank : ∀ c ∈ cs, isBlank c = true) :
    ts.filter (·.kind.isSignificant) = [] := by
  generalize [] = none at lexed
  induction lexed with
  | nothing pos cs => rfl
  | @token pos c cs none t ts n found later ih =>
    obtain ⟨first, others⟩ := List.forall_mem_cons.mp blank
    have lexeme := (scan_reads (token_scan found).1).begins.lexeme
    have kept : t.kind.isSignificant = false := by
      rw [(lexeme.of_blank first).1]
      rfl
    rw [List.filter_cons_of_neg (by simp [kept])]
    exact ih fun d member => others d (List.mem_of_mem_drop member)

theorem comment_token (line : '\n' ∉ cs) (pos : Position) :
    token pos '#' cs = .ok (⟨.comment, pos, .ofList ('#' :: cs), none⟩, cs.length) := by
  have inside : ∀ d ∈ cs, decide (d ≠ '\n') = true := by
    intro d member
    rw [decide_eq_true_eq]
    exact fun feed => line (feed ▸ member)
  have scanned : scan '#' cs = .ok (.comment, cs.length) := by
    have length : runLength (· ≠ '\n') (cs ++ []) = cs.length := runLength_exact inside nofun
    rw [List.append_nil] at length
    rw [← length]
    rfl
  simp [token, scanned, literal?, bind, Except.bind, pure, Except.pure]

-- A lexeme that goes on into the blanks at the end of a line is a comment.
theorem token_into_gap {gap : List Char} (found : token pos c (cs ++ gap) = .ok (t, n))
    (blank : ∀ c ∈ gap, isBlank c = true) (longer : cs.length < n) : c = '#' := by
  have reads := scan_reads (token_scan found).1
  have lexeme := reads.begins.lexeme
  rw [List.take_append, List.take_of_length_le (Nat.le_of_lt longer)] at lexeme
  have some : gap.take (n - cs.length) ≠ [] := by
    have le := reads.le
    simp only [List.length_append] at le
    intro none
    have empty := congrArg List.length none
    simp only [List.length_take, List.length_nil] at empty
    omega
  obtain ⟨inner, d, last⟩ := List.eq_nil_or_concat _ |>.resolve_left some
  have member : d ∈ gap.take (n - cs.length) := by simp [last]
  rw [last, List.concat_eq_append, ← List.append_assoc] at lexeme
  exact (lexeme.of_last_blank (blank d (List.mem_of_mem_take member))).2

theorem Lexed.trim_gap {gap : List Char} (lexed : Lexed pos (cs ++ gap) ts [])
    (blank : ∀ c ∈ gap, isBlank c = true) (shown : ∀ d ∈ cs.getLast?, isBlank d = false)
    (line : '\n' ∉ cs ++ gap) : ∃ us, Lexed pos cs us [] ∧
      us.filter (·.kind.isSignificant) = ts.filter (·.kind.isSignificant) := by
  generalize whole : cs ++ gap = text, done : [] = none at lexed
  induction lexed generalizing cs with
  | nothing pos text =>
    subst done
    obtain ⟨rfl, rfl⟩ := List.append_eq_nil_iff.mp whole
    exact ⟨[], .nothing pos [], rfl⟩
  | @token pos c text none t ts n found later ih =>
    subst done
    cases cs with
    | nil =>
      subst whole
      exact ⟨[], .nothing pos [], ((Lexed.token found later).blank blank).symm⟩
    | cons e cs =>
      rw [List.cons_append, List.cons.injEq] at whole
      obtain ⟨rfl, rfl⟩ := whole
      have tail : '\n' ∉ cs ++ gap := fun feed => line (.tail _ feed)
      by_cases within : n ≤ cs.length
      · have shorter : Scan.token pos e cs = .ok (t, n) := by
          cases gap with
          | nil => simpa using found
          | cons d gap =>
            have stop : isWordChar d = false := by
              by_contra inside
              have visible := isBlank_of_isWordChar (by simpa using inside)
              rw [blank d (.head _)] at visible
              cases visible
            exact token_shorten found within stop
        have rest : (cs ++ gap).drop n = cs.drop n ++ gap := List.drop_append_of_le_length within
        have ends : ∀ d ∈ (cs.drop n).getLast?, isBlank d = false := by
          intro d last
          rw [List.getLast?_drop] at last
          split at last
          · cases last
          · exact shown d (by simp [List.getLast?_cons, Option.mem_def.mp last])
        have single : '\n' ∉ cs.drop n ++ gap :=
          fun feed => tail (List.mem_of_mem_drop (rest ▸ feed))
        obtain ⟨us, lexed, same⟩ := ih ends single rest.symm rfl
        rw [List.take_append_of_le_length within] at lexed
        refine ⟨t :: us, .token shorter lexed, ?_⟩
        rw [List.filter_cons, List.filter_cons, same]
      · obtain rfl := token_into_gap found blank (by omega)
        rw [comment_token tail] at found
        cases found
        rw [List.drop_length] at later
        cases later
        have alone := comment_token (fun feed => tail (List.mem_append_left _ feed)) pos
        have lexed := Lexed.token alone (.nothing _ _)
        rw [List.drop_length] at lexed
        exact ⟨_, lexed, rfl⟩

end

end Scan

namespace Text

theorem trimEnd_concat (cs : List Char) (c : Char) :
    trimEnd (cs ++ [c]) = if isBlank c then trimEnd cs else cs ++ [c] := by
  cases blank : isBlank c <;> simp [trimEnd, trimStart, blank]

theorem trimEnd_split (cs : List Char) : ∃ gap, cs = trimEnd cs ++ gap ∧
    (∀ c ∈ gap, isBlank c = true) ∧ ∀ d ∈ (trimEnd cs).getLast?, isBlank d = false := by
  induction cs using List.reverseRecOn with
  | nil => exact ⟨[], rfl, List.forall_mem_nil _, nofun⟩
  | append_singleton cs c ih =>
    rw [trimEnd_concat]
    split
    · next blank =>
      obtain ⟨gap, eq, all, shown⟩ := ih
      refine ⟨gap ++ [c], ?_, List.forall_mem_append.mpr ⟨all, by simpa using blank⟩, shown⟩
      rw [← List.append_assoc, ← eq]
    · next visible =>
      refine ⟨[], by simp, List.forall_mem_nil _, ?_⟩
      simpa using visible

end Text

end CalcScript
