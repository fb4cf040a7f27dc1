import CalcScript.Proofs.Extension
import CalcScript.Proofs.Layout

set_option autoImplicit false

namespace CalcScript

open Text (isBlank trimStart trimEnd)

def page (line : List Char) (more : List (List Char)) : List Char :=
  line ++ more.flatMap ('\n' :: ·)

@[simp] theorem page_nil (line : List Char) : page line [] = line := by
  simp [page]

theorem page_append (line next : List Char) (above below : List (List Char)) :
    page line (above ++ next :: below) = page line above ++ '\n' :: page next below := by
  simp [page]

theorem page_cons (line next : List Char) (more : List (List Char)) :
    page line (next :: more) = line ++ '\n' :: page next more := by
  simp [page]

theorem exists_page (cs : List Char) : ∃ line more, cs = page line more ∧
    line = cs.takeWhile (· ≠ '\n') ∧ more.length = cs.count '\n' ∧
    ∀ l ∈ line :: more, '\n' ∉ l := by
  induction cs with
  | nil => exact ⟨[], [], rfl, rfl, rfl, by simp⟩
  | cons c cs ih =>
    obtain ⟨line, more, text, first, count, single⟩ := ih
    obtain ⟨own, others⟩ := List.forall_mem_cons.mp single
    by_cases feed : c = '\n'
    · subst feed
      refine ⟨[], line :: more, by simp [page, text], rfl, by simp [count], ?_⟩
      exact List.forall_mem_cons.mpr ⟨nofun, single⟩
    · refine ⟨c :: line, more, by simp [page, text], by simp [feed, first],
        by simp [count, feed], ?_⟩
      refine List.forall_mem_cons.mpr ⟨fun member => ?_, others⟩
      rcases List.mem_cons.mp member with same | member
      · exact feed same.symm
      · exact own member

theorem length_page (line : List Char) (more : List (List Char)) :
    line.length + more.length ≤ (page line more).length := by
  induction more generalizing line with
  | nil => simp
  | cons next more ih =>
    have below := ih next
    simp only [page_cons, List.length_append, List.length_cons]
    omega

namespace Position

theorem after_line (p : Position) {cs : List Char} (single : '\n' ∉ cs) :
    (p.after cs).line = p.line := by
  induction cs generalizing p with
  | nil => rfl
  | cons c cs ih =>
    obtain ⟨own, others⟩ := not_or.mp (mt List.mem_cons.mpr single)
    rw [after_cons, ih _ others, next, if_neg (Ne.symm own)]

theorem next_line (p : Position) {cs ds : List Char} (single : '\n' ∉ cs) (single' : '\n' ∉ ds) :
    (p.after cs).next '\n' = (p.after ds).next '\n' := by
  simp only [next, if_true, after_line p single, after_line p single']

end Position

namespace Scan

variable {pos : Position} {line cs : List Char} {more : List (List Char)} {ts : List Token}

theorem Lexed.trim_line (lexed : Lexed pos line ts []) (single : '\n' ∉ line) :
    ∃ us, Lexed pos (trimEnd line) us [] ∧
      us.filter (·.kind.isSignificant) = ts.filter (·.kind.isSignificant) := by
  obtain ⟨gap, text, blank, shown⟩ := Text.trimEnd_split line
  rw [text] at lexed single
  exact lexed.trim_gap blank shown single

theorem Lexed.add_line {us : List Token} (first : Lexed pos line ts [])
    (later : Lexed ((pos.after line).next '\n') cs us []) :
    ∃ feed, Lexed pos (line ++ '\n' :: cs) (ts ++ feed :: us) [] ∧
      feed.kind.isSignificant = false := by
  have behind := first.lengthen cs
  have text : lexemes ts = line := by simpa using first.text
  refine ⟨_, behind.append (.token (blank_token (by decide) _ cs) ?_), rfl⟩
  rw [text]
  exact later

theorem Lexed.trim_page (lexed : Lexed pos (page line more) ts []) (flat : ∀ t ∈ ts, OneLine t)
    (single : ∀ l ∈ line :: more, '\n' ∉ l) :
    ∃ us, Lexed pos (page (trimEnd line) (more.map trimEnd)) us [] ∧
      us.filter (·.kind.isSignificant) = ts.filter (·.kind.isSignificant) := by
  induction more generalizing pos line ts with
  | nil =>
    rw [page_nil] at lexed
    rw [List.map_nil, page_nil]
    exact lexed.trim_line (single line (.head _))
  | cons next more ih =>
    obtain ⟨own, others⟩ := List.forall_mem_cons.mp single
    rw [page_cons] at lexed
    obtain ⟨first, feed, later, rfl, before, blank, behind⟩ := lexed.split flat
    have flat' : ∀ t ∈ later, OneLine t :=
      fun t member => flat t (List.mem_append_right _ (.tail _ member))
    obtain ⟨us, lexed', same⟩ := before.trim_line own
    obtain ⟨vs, lexed'', same'⟩ := ih behind flat' others
    have trimmed : '\n' ∉ trimEnd line := by
      obtain ⟨gap, text, -⟩ := Text.trimEnd_split line
      intro member
      exact own (text ▸ List.mem_append_left gap member)
    rw [pos.next_line own trimmed] at lexed''
    obtain ⟨feed', whole, skipped⟩ := lexed'.add_line lexed''
    rw [← page_cons, ← List.map_cons] at whole
    have feedBlank : feed.kind.isSignificant = false := by rw [blank]; rfl
    exact ⟨_, whole, by simp [same, same', skipped, feedBlank]⟩

theorem Lexed.first_line (lexed : Lexed pos (page line more) ts []) (flat : ∀ t ∈ ts, OneLine t) :
    ∃ us, Lexed pos line us [] := by
  cases more with
  | nil => exact ⟨ts, by simpa using lexed⟩
  | cons next more =>
    rw [page_cons] at lexed
    obtain ⟨first, feed, later, -, before, -⟩ := lexed.split flat
    exact ⟨first, before⟩

theorem Lexed.no_point (lexed : Lexed pos cs ts []) : (trimStart cs).head? ≠ some '.' := by
  generalize done : [] = none at lexed
  induction lexed with
  | nothing =>
    subst done
    nofun
  | @token pos c cs none t ts n found later ih =>
    cases blank : isBlank c with
    | true =>
      have reads := scan_reads (token_scan found).1
      obtain ⟨-, single⟩ := reads.begins.lexeme.of_blank blank
      have length := congrArg List.length single
      rw [List.length_take_of_le reads.le] at length
      obtain rfl : n = 0 := length
      have start : trimStart (c :: cs) = trimStart cs := by simp [trimStart, blank]
      rw [start]
      exact ih done
    | false =>
      have start : trimStart (c :: cs) = c :: cs := by simp [trimStart, blank]
      rw [start]
      rintro ⟨⟩
      have scanned := (token_scan found).1
      cases scanned

end Scan

namespace Text

theorem trim_ne_nil {cs : List Char} : trim cs ≠ [] ↔ ∃ c ∈ cs, isBlank c = false := by
  simp [trim_eq_nil]

theorem trim_trimEnd_ne_nil {cs : List Char} (shown : trim cs ≠ []) : trim (trimEnd cs) ≠ [] := by
  obtain ⟨gap, text, blank, -⟩ := trimEnd_split cs
  obtain ⟨c, member, visible⟩ := trim_ne_nil.mp shown
  rw [text] at member
  rcases List.mem_append.mp member with inside | outside
  · exact trim_ne_nil.mpr ⟨c, inside, visible⟩
  · rw [blank c outside] at visible
    cases visible

theorem trim_page_ne_nil {line : List Char} (shown : trim line ≠ []) (more : List (List Char)) :
    trim (page line more) ≠ [] := by
  obtain ⟨c, member, visible⟩ := trim_ne_nil.mp shown
  exact trim_ne_nil.mpr ⟨c, List.mem_append_left _ member, visible⟩

end Text

section

variable {source : String} {cs rest before : List Char} {ts : List Token} {items : List Statement}

theorem tokens_of_lexed (lexed : Scan.Lexed .start cs ts []) : tokens (.ofList cs) = .ok ts := by
  rw [tokens, String.toList_ofList]
  exact Scan.tokensFrom_eq_ok.mpr lexed

theorem readProgram_of_lexed (lexed : Scan.Lexed .start cs ts []) :
    readProgram (.ofList cs) = parseProgram (ts.filter (·.kind.isSignificant)) := by
  simp only [readProgram, significantTokens, tokens_of_lexed lexed]
  rfl

theorem readProgram_of_tokens {e : SyntaxError} (failed : tokens source = .error e) :
    readProgram source = .error e := by
  simp only [readProgram, significantTokens, failed]
  rfl

theorem nonblank_of_incomplete (unfinished : readProgram source = .error .incomplete) :
    Text.trim source.toList ≠ [] := by
  intro blank
  cases lexed : tokens source with
  | error e =>
    rw [readProgram_of_tokens lexed] at unfinished
    cases unfinished
    obtain ⟨before, c, more, fault, -, -, -, ⟨⟩⟩ := tokens_barren lexed
  | ok ts =>
    have run := Scan.tokensFrom_eq_ok.mp lexed
    rw [← String.ofList_toList (s := source), readProgram_of_lexed run,
      run.blank (Text.trim_eq_nil.mp blank)] at unfinished
    cases unfinished

theorem readProgram_trim_page {line : List Char} {more : List (List Char)}
    (lexed : Scan.Lexed .start (page line more) ts []) (flat : ∀ t ∈ ts, Scan.OneLine t)
    (single : ∀ l ∈ line :: more, '\n' ∉ l) :
    readProgram (.ofList (page (trimEnd line) (more.map trimEnd))) =
      readProgram (.ofList (page line more)) := by
  obtain ⟨us, lexed', same⟩ := lexed.trim_page flat single
  rw [readProgram_of_lexed lexed', readProgram_of_lexed lexed, same]

theorem readProgram_front (lexed : Scan.Lexed .start (before ++ '\n' :: rest) ts [])
    (flat : ∀ t ∈ ts, Scan.OneLine t)
    (parsed : parseProgram (ts.filter (·.kind.isSignificant)) = .ok items)
    (refused : ∀ items, readProgram (.ofList before) ≠ .ok items)
    (shallow : ∀ pos, readProgram (.ofList before) ≠ .error (.located pos .nestedTooDeeply)) :
    (∃ first, Scan.Lexed .start before first [] ∧ ∀ t ∈ first, Scan.OneLine t) ∧
      readProgram (.ofList before) = .error .incomplete ∧ rest ≠ [] := by
  obtain ⟨first, feed, later, rfl, front, blank, behind⟩ := lexed.split flat
  have skipped : feed.kind.isSignificant = false := by rw [blank]; rfl
  simp only [List.filter_append, List.filter_cons, skipped] at parsed
  refine ⟨⟨first, front, fun t member => flat t (List.mem_append_left _ member)⟩, ?_, ?_⟩
  · rw [readProgram_of_lexed front] at refused shallow ⊢
    cases read : parseProgram (first.filter (·.kind.isSignificant)) with
    | ok items => exact absurd read (refused items)
    | error e =>
      cases e with
      | incomplete => rfl
      | located pos fault =>
        have other : fault ≠ .nestedTooDeeply := by
          rintro rfl
          exact shallow pos read
        have fails := Parse.programWithin_fails read other
          (later.filter (·.kind.isSignificant))
        exact absurd (fails.symm.trans parsed) nofun
  · rintro rfl
    cases behind
    rw [readProgram_of_lexed front] at refused
    exact refused items (by simpa using parsed)

theorem readProgram_trim_front {line next : List Char} {more above below : List (List Char)}
    (lexed : Scan.Lexed .start (page line more) ts []) (flat : ∀ t ∈ ts, Scan.OneLine t)
    (single : ∀ l ∈ line :: more, '\n' ∉ l)
    (parsed : parseProgram (ts.filter (·.kind.isSignificant)) = .ok items)
    (front : more = above ++ next :: below)
    (refused : ∀ items, readProgram (.ofList (page line above)) ≠ .ok items)
    (shallow : ∀ pos,
      readProgram (.ofList (page line above)) ≠ .error (.located pos .nestedTooDeeply)) :
    readProgram (.ofList (page (trimEnd line) (above.map trimEnd))) = .error .incomplete ∧
      page next below ≠ [] := by
  subst front
  rw [page_append] at lexed
  obtain ⟨⟨first, lexed', flat'⟩, unfinished, some⟩ :=
    readProgram_front lexed flat parsed refused shallow
  refine ⟨?_, some⟩
  rw [readProgram_trim_page lexed' flat', unfinished]
  intro l member
  rcases List.mem_cons.mp member with rfl | member
  · exact single l (.head _)
  · exact single l (.tail _ (List.mem_append_left _ member))

structure Typed (source : String) (line : List Char) (more : List (List Char)) : Prop where
  text : source.toList = page line more
  feeds : more.length = source.toList.count '\n'
  single : ∀ l ∈ line :: more, '\n' ∉ l
  shown : Text.trim line ≠ []
  plain : (trimStart (trimEnd line)).head? ≠ some '.'
  whole : readProgram (.ofList (page (trimEnd line) (more.map trimEnd))) = readProgram source
  fronts {above below : List (List Char)} {next : List Char} (eq : more = above ++ next :: below) :
    readProgram (.ofList (page (trimEnd line) (above.map trimEnd))) = .error .incomplete ∧
      page next below ≠ []

theorem exists_typed (read : readProgram source = .ok items)
    (begun : Text.trim (source.toList.takeWhile (· ≠ '\n')) ≠ [])
    (unfinished : ∀ before rest, before ≠ [] → source.toList = before ++ '\n' :: rest →
      (∀ items, readProgram (.ofList before) ≠ .ok items) ∧
        ∀ pos, readProgram (.ofList before) ≠ .error (.located pos .nestedTooDeeply))
    (flat : ∀ ts, tokens source = .ok ts → ∀ t ∈ ts, Scan.OneLine t) :
    ∃ line more, Typed source line more := by
  obtain ⟨line, more, text, first, feeds, single⟩ := exists_page source.toList
  have shown : Text.trim line ≠ [] := first ▸ begun
  obtain ⟨ts, lexed, parsed⟩ := Parse.bind_eq_ok.mp read
  obtain ⟨all, found, rfl⟩ := significantTokens_eq_ok.mp lexed
  have flat := flat all found
  have run := Scan.tokensFrom_eq_ok.mp found
  rw [text] at run
  refine ⟨line, more, text, feeds, single, shown, ?_, ?_, fun {above below next} eq => ?_⟩
  · obtain ⟨us, before⟩ := run.first_line flat
    obtain ⟨vs, before', -⟩ := before.trim_line (single line (.head _))
    exact before'.no_point
  · rw [readProgram_trim_page run flat single, ← text, String.ofList_toList]
  · have some : page line above ≠ [] := by
      intro none
      exact Text.trim_page_ne_nil shown above (by rw [none]; rfl)
    have cut : source.toList = page line above ++ '\n' :: page next below := by
      rw [text, eq, page_append]
    obtain ⟨refused, shallow⟩ := unfinished _ _ some cut
    exact readProgram_trim_front run flat single parsed eq refused shallow

end

end CalcScript
