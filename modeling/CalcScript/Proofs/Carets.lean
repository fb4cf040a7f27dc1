import CalcScript.Proofs.Reporting
import CalcScript.Proofs.Visits

set_option autoImplicit false

namespace CalcScript

theorem Position.behind_pos (cs : List Char) :
    1 ≤ (behind cs).line ∧ 1 ≤ (behind cs).column := by
  obtain ⟨before, line, -, -, -, place⟩ := behind_split cs
  rw [place]
  exact ⟨Nat.le_add_right _ _, Nat.le_add_right _ _⟩

namespace Report

def indent (cs : List Char) : List Char := cs.map fun c => if c = '\t' then c else ' '

def Marked (source : String) (pos : Position) (shown : String) : Prop :=
  ∃ above left c right below,
    Text.lines source.toList = above ++ (left ++ c :: right) :: below ∧
      above.length + 1 = pos.line ∧ left.length + 1 = pos.column ∧
      shown = .ofList (left ++ c :: right ++ '\n' :: indent left ++ ['^', '\n'])

theorem exists_front {α : Type} {xs : List α} {i : Nat} {x : α} (found : xs[i]? = some x) :
    ∃ front rest, xs = front ++ x :: rest ∧ front.length = i := by
  obtain ⟨inside, rfl⟩ := List.getElem?_eq_some_iff.mp found
  refine ⟨xs.take i, xs.drop (i + 1), ?_, List.length_take_of_le (Nat.le_of_lt inside)⟩
  rw [← List.drop_eq_getElem_cons inside, List.take_append_drop]

section

variable {source : String} {pos : Position} {fault : Fault}

theorem marked_of_visible (visible : Visible source pos) (line : 1 ≤ pos.line)
    (column : 1 ≤ pos.column) : Marked source pos (excerpt source pos) := by
  obtain ⟨row, c, found, char⟩ := visible
  obtain ⟨above, below, rows, height⟩ := exists_front found
  obtain ⟨left, right, rfl, width⟩ := exists_front char
  refine ⟨above, left, c, right, below, rows, by omega, by omega, ?_⟩
  have indented : caret (left ++ c :: right) pos.column = indent left ++ ['^'] := by
    rw [caret, ← width, List.take_left]
    rfl
  simp [excerpt, found, indented]

theorem marked_of_readProgram (failed : readProgram source = .error (.located pos fault)) :
    Marked source pos (excerpt source pos) := by
  rcases located_of_readProgram failed with begun | unread
  · obtain ⟨before, -, -, -, -, place⟩ := id begun
    obtain ⟨line, column⟩ := place ▸ Position.behind_pos (lexemes before)
    exact marked_of_visible begun.visible line column
  · have unlexed := Unlexed.of_error unread
    obtain ⟨before, -, -, -, -, place⟩ := id unlexed
    obtain ⟨line, column⟩ := place ▸ Position.behind_pos (lexemes before)
    exact marked_of_visible unlexed.visible line column

end

end Report

namespace Text

theorem lines_single {cs : List Char} (single : '\n' ∉ cs) (nonempty : cs ≠ []) :
    lines cs = [cs] := by
  induction cs with
  | nil => exact absurd rfl nonempty
  | cons c cs ih =>
    obtain ⟨plain, others⟩ := not_or.mp (List.mem_cons.not.mp single)
    have apart : c = '\r' → cs.head? ≠ some '\n' :=
      fun _ first => others (List.mem_of_mem_head? first)
    rw [lines_cons (Ne.symm plain) apart]
    by_cases last : cs = []
    · subst last
      rfl
    · rw [ih others last]

theorem takeLine_takeLine (bs : List UInt8) :
    takeLine (takeLine bs).1 = ((takeLine bs).1, []) := by
  induction bs with
  | nil => rfl
  | cons b bs ih => by_cases feed : b = 10 <;> simp [takeLine, feed, ih]

theorem feed_not_mem_line {cs : List Char} (line : takeLine (bytes cs) = (bytes cs, [])) :
    '\n' ∉ trimEnd cs := by
  have inside {ds : List Char} (single : '\n' ∉ ds) : '\n' ∉ trimEnd ds := by
    intro member
    refine single (List.mem_reverse.mp ?_)
    exact (List.dropWhile_sublist _).subset (List.mem_reverse.mp member)
  by_cases feed : '\n' ∈ cs
  · obtain ⟨front, rest, rfl, single⟩ := List.eq_append_cons_of_mem feed
    have first : takeLine (bytes (front ++ '\n' :: rest)) = (bytes front ++ [10], bytes rest) := by
      rw [bytes_append]
      exact takeLine_feed (feed_not_mem_bytes single) (bytes rest)
    have nothing : bytes rest = [] := congrArg Prod.snd (first.symm.trans line)
    rw [bytes_eq_nil.mp nothing, trimEnd_concat]
    exact inside single
  · exact inside feed

end Text

inductive Notice where
  | program (source : String) (e : Error)
  | command (line : String) (e : Error)
  | outline (source : String)
  | unreadable (path : String) (fault : IoFault)

def Notice.text : Notice → String
  | .program source e => Report.error source e
  | .command line e => Report.error line e
  | .outline source => Report.outline source
  | .unreadable path fault => (Run.unreadable path fault).diagnostics

namespace Prompt

variable (rounds : Nat) (files : Files) (showTree : Bool)

def entryNotices (source : String) : Outcome (List Value) → List Notice
  | .value _ => if showTree then [.outline source] else []
  | .error (.source .incomplete) => []
  | .error e => [.program source e]
  | .exhausted => []

def notices (p : Prompt) : List Notice :=
  match p.readLine.1 with
  | .text line =>
    if p.pending = "" ∧ isCommand line then
      match (p.answer rounds files line).1 with
      | .error e => [.command line e]
      | _ => []
    else entryNotices showTree (p.entry line) (p.value rounds line)
  | _ => []

variable {rounds files showTree} {p : Prompt} {line : String}

theorem accepted_told (source : String) (values : List Value) (p : Prompt) :
    (accepted source values showTree p).diagnostics =
      p.diagnostics ++ if showTree then Report.outline source else "" := by
  simp only [accepted]
  cases showTree <;> split <;> simp [write]

theorem entered_told (source : String) (outcome : Outcome (List Value)) (session : Session) :
    (p.entered showTree source (outcome, session)).2.diagnostics =
      p.diagnostics ++ .join ((entryNotices showTree source outcome).map Notice.text) := by
  cases outcome with
  | value values =>
    rw [entered, accepted_told]
    cases showTree <;> simp [entryNotices, Notice.text, String.join_cons]
  | error e =>
    by_cases unfinished : e = .source .incomplete
    · subst unfinished
      simp [entered, entryNotices]
    · have notices : entryNotices showTree source (.error e) = [.program source e] := by
        unfold entryNotices
        split <;> simp_all
      rw [entered_error unfinished, notices]
      simp [refused, Notice.text, String.join_cons]
  | exhausted => simp [entered, entryNotices]

theorem step_told (p : Prompt) : (p.step rounds files showTree).2.diagnostics =
    p.diagnostics ++ .join ((p.notices rounds files showTree).map Notice.text) := by
  cases heard : p.readLine.1 with
  | text line =>
    simp only [step_eq_enter heard, notices, heard]
    by_cases command : p.pending = "" ∧ isCommand line = true
    · rw [if_pos command, enter_command command.1 command.2, answer,
        request_command command.1 command.2]
      rcases p.readLine.2.session.perform (.command rounds files line) with ⟨⟨⟩ | e | _, session⟩
      all_goals simp [refused, Notice.text, String.join_cons]
    · rw [if_neg command, enter_plain (plain_of_not command), value]
      rcases p.readLine.2.session.evaluate rounds (p.entry line) false p.last with
        ⟨outcome, session⟩
      exact entered_told _ _ _
  | invalid | noMore | notYet =>
    have other (line : String) : p.readLine.1 ≠ .text line := by simp [heard]
    have nothing : p.notices rounds files showTree = [] := by simp [notices, heard]
    rcases @step_other rounds files showTree p other with stops | stops
    all_goals simp [stops, nothing, readLine, write]

theorem run_told (steps : Nat) (p : Prompt) : (p.run rounds files showTree steps).diagnostics =
    p.diagnostics ++ .join (((p.visits rounds files showTree steps).flatMap
      (notices rounds files showTree)).map Notice.text) := by
  induction steps generalizing p with
  | zero => simp [run, visits]
  | succ steps ih =>
    have told := @step_told rounds files showTree p
    by_cases going : (p.step rounds files showTree).1 = .going
    · have onward : Steps rounds files showTree p .going _ _ := ⟨Prod.ext going rfl, rfl⟩
      rw [(onward.run_going steps).1, ih, told, visits_going onward.1]
      simp [String.append_assoc, String.join_append]
    · have ran : p.run rounds files showTree (steps + 1) = (p.step rounds files showTree).2 :=
        (Steps.run_stops ⟨rfl, rfl⟩ going steps).1
      rw [ran, told, visits_stop going]
      simp

theorem readLine_single (heard : p.readLine.1 = .text line) : '\n' ∉ line.toList := by
  have text {c : Console} {text : String} (found : c.readLine.1 = .text text) :
      '\n' ∉ Text.trimEnd text.toList := by
    by_cases none : c.unread = []
    · cases ended : c.ended <;> simp [Console.readLine, none, ended] at found
    · simp only [Console.readLine, if_neg none] at found
      split at found
      · cases found
      · cases decoded : Text.ofUtf8? (Text.takeLine c.unread).1 with
        | none => simp [decoded] at found
        | some whole =>
          obtain rfl : Text.dropLineEnd whole = text := by simpa [decoded] using found
          rw [Text.trimEnd_dropLineEnd]
          refine Text.feed_not_mem_line ?_
          rw [Text.ofUtf8?_eq_some.mp decoded]
          exact Text.takeLine_takeLine _
  simp only [readLine] at heard
  split at heard
  · next found =>
    cases heard
    rw [String.toList_ofList]
    exact text found
  · next other => exact absurd heard (other line)

theorem program_of_told {source : String} {e : SyntaxError}
    (told : .program source (.source e) ∈ p.notices rounds files showTree) :
    readProgram source = .error e := by
  unfold notices at told
  split at told
  · next line heard =>
    split at told
    · split at told <;> simp at told
    · unfold entryNotices at told
      split at told
      · split at told <;> simp at told
      · simp at told
      · next failed =>
        cases List.mem_singleton.mp told
        exact Session.readProgram_of_refused failed
      · simp at told
  · simp at told

end Prompt

namespace Session

variable {s : Session} {rounds : Nat} {files : Files} {e : SyntaxError}

theorem print_ne_source (text : String) : (s.print text).1 ≠ .error (.source e) := by
  simp only [print, run, Eval.write]
  rcases s.console.write?_cases text with ⟨fails, -⟩ | ⟨written, -⟩
  · rw [fails]
    simp [Outcome.ofResult]
  · rw [written]
    simp [Outcome.ofResult]

theorem loads_of_refused {c : Command}
    (failed : (s.command rounds files c).1 = .error (.source e)) :
    ∃ path source, c = .load path ∧ readSource files path = .ok source ∧
      readProgram source = .error e := by
  cases c with
  | vars | help | usage => exact absurd failed (print_ne_source _)
  | unknown name => cases failed
  | load path =>
    simp only [command, evaluateFile] at failed
    cases read : readSource files path with
    | error fault =>
      rw [read] at failed
      cases failed
    | ok source =>
      rw [read] at failed
      refine ⟨path, source, rfl, read, ?_⟩
      cases answer : (s.evaluate rounds source false none).1 with
      | error e' =>
        simp only [answer, Outcome.map] at failed
        cases failed
        exact readProgram_of_refused answer
      | value values => simp [answer, Outcome.map] at failed
      | exhausted => simp [answer, Outcome.map] at failed

end Session

theorem Report.error_of_command {source line : String} {pos : Position} {fault : Fault}
    (failed : readProgram source = .error (.located pos fault)) (single : '\n' ∉ line.toList)
    (command : Prompt.isCommand line = true) :
    Report.error line (.source (.located pos fault)) =
      (if pos.line = 1 then line ++ "\n" ++ .ofList (caret line.toList pos.column) ++ "\n"
        else "") ++ (Error.source (.located pos fault)).message ++ "\n" := by
  obtain ⟨above, -, -, -, -, -, height, -⟩ := marked_of_readProgram failed
  have nonempty : line.toList ≠ [] := by
    intro nothing
    simp [Prompt.isCommand, nothing, Text.trimStart] at command
  simp only [error, excerpt, Text.lines_single single nonempty]
  by_cases first : pos.line = 1
  · have row : [line.toList][pos.line - 1]? = some line.toList := by simp [first]
    rw [row, if_pos first]
    apply String.toList_inj.mp
    simp
  · have beyond : [line.toList][pos.line - 1]? = none := by
      rw [List.getElem?_eq_none_iff, List.length_singleton]
      omega
    rw [beyond, if_neg first]

structure Told (source : String) (e : SyntaxError) (shown : String) : Prop where
  read : readProgram source = .error e
  marked (pos : Position) (fault : Fault) (located : e = .located pos fault) :
    ∃ excerpt, Report.Marked source pos excerpt ∧
      shown = excerpt ++ (Error.source e).message ++ "\n"

structure Misplaced (files : Files) (line : String) (e : SyntaxError) (shown : String) : Prop where
  read : ∃ path source, Command.ofLine line = .load path ∧ readSource files path = .ok source ∧
    readProgram source = .error e
  marked (pos : Position) (fault : Fault) (located : e = .located pos fault) :
    shown = (if pos.line = 1 then
        line ++ "\n" ++ .ofList (Report.caret line.toList pos.column) ++ "\n" else "") ++
      (Error.source e).message ++ "\n"

theorem Told.of_read {source : String} {e : SyntaxError} (read : readProgram source = .error e) :
    Told source e (Notice.program source (.source e)).text where
  read := read
  marked pos fault located := by
    subst located
    exact ⟨_, Report.marked_of_readProgram read, rfl⟩

theorem Misplaced.of_told {rounds : Nat} {files : Files} {showTree : Bool} {p : Prompt}
    {line : String} {e : SyntaxError}
    (told : .command line (.source e) ∈ p.notices rounds files showTree) :
    Misplaced files line e (Notice.command line (.source e)).text := by
  unfold Prompt.notices at told
  split at told
  · next line' heard =>
    split at told
    · next command =>
      split at told
      · next failed =>
        cases List.mem_singleton.mp told
        rw [Prompt.answer, Prompt.request_command command.1 command.2] at failed
        obtain ⟨path, source, load, text, read⟩ := Session.loads_of_refused failed
        refine ⟨⟨path, source, load, text, read⟩, fun pos fault located => ?_⟩
        subst located
        exact Report.error_of_command read (Prompt.readLine_single heard) command.2
      · simp at told
    · unfold Prompt.entryNotices at told
      split at told
      · split at told <;> simp at told
      all_goals simp at told
  · simp at told

def Run.notices (rounds : Nat) (files : Files) (input : List UInt8) : Invocation → List Notice
  | .version => []
  | .file path showTree =>
    match readSource files path with
    | .error fault => [.unreadable path fault]
    | .ok source => (if showTree then [.outline source] else []) ++
      match ((Session.ofConsole (.ofInput input)).evaluate rounds source false none).1 with
      | .error e => [.program source e]
      | _ => []
  | .prompt showTree =>
    ((Prompt.start (.ofInput input)).visits rounds files showTree (input.length + 1)).flatMap
      (Prompt.notices rounds files showTree)

/-- What a run of the program tells, it tells of a text that was to be evaluated: the row that has
the error is shown, with a mark below the character in it. -/
theorem Run.tells_where (rounds : Nat) (files : Files) (input : List UInt8)
    (invocation : Invocation) :
    (ofInvocation rounds files input invocation).diagnostics =
        .join ((notices rounds files input invocation).map Notice.text) ∧
      (∀ source e, .program source (.source e) ∈ notices rounds files input invocation →
        Told source e (Notice.program source (.source e)).text) ∧
      ∀ line e, .command line (.source e) ∈ notices rounds files input invocation →
        Misplaced files line e (Notice.command line (.source e)).text := by
  cases invocation with
  | version => exact ⟨rfl, nofun, nofun⟩
  | file path showTree =>
    simp only [ofInvocation, notices]
    cases readSource files path with
    | error fault => simp [Notice.text, String.join_cons]
    | ok text =>
      simp only [ofSource]
      rcases answer : (Session.ofConsole (.ofInput input)).evaluate rounds text false none with
        ⟨values | e' | _, s⟩
      · cases showTree <;> simp [Notice.text, String.join_cons]
      · refine ⟨?_, fun source e told => ?_, fun line e told => ?_⟩
        · cases showTree <;> simp [Notice.text, String.join_cons]
        · have same : source = text ∧ Error.source e = e' := by cases showTree <;> simpa using told
          obtain ⟨rfl, rfl⟩ := same
          exact .of_read (Session.readProgram_of_refused (congrArg Prod.fst answer))
        · cases showTree <;> simp at told
      · cases showTree <;> simp [Notice.text, String.join_cons]
  | prompt showTree =>
    refine ⟨?_, fun source e told => ?_, fun line e told => ?_⟩
    · exact (Prompt.run_told _ _).trans String.empty_append
    · obtain ⟨p, -, own⟩ := List.mem_flatMap.mp told
      exact .of_read (Prompt.program_of_told own)
    · obtain ⟨p, -, own⟩ := List.mem_flatMap.mp told
      exact .of_told own

theorem Run.marks_command :
    let files : Files := fun path =>
      if path = "bad.pr" then .ok (Text.bytes "x = @".toList) else .error .notFound
    let e := SyntaxError.located ⟨1, 5⟩ (.unexpectedCharacter '@')
    let shown := ".import bad.pr\n    ^\n"
    (ofInvocation 1 files (Text.bytes ".import bad.pr\n".toList) (.prompt false)).diagnostics =
        shown ++ (Error.source e).message ++ "\n" ∧
      readProgram "x = @" = .error e ∧ ¬ Report.Marked "x = @" ⟨1, 5⟩ shown := by
  intro files e shown
  refine ⟨by decide +kernel, ?_, ?_⟩
  · have unread : tokens "x = @" = .error e := by decide +kernel
    rw [readProgram, significantTokens, unread]
    rfl
  · rintro ⟨above, left, c, right, below, rows, height, -, same⟩
    obtain rfl : above = [] := List.eq_nil_of_length_eq_zero (Nat.succ.inj height)
    have sole : Text.lines "x = @".toList = ["x = @".toList] := by decide
    have row : left ++ c :: right = "x = @".toList := (List.cons.inj (rows.symm.trans sole)).1
    rw [row] at same
    have first := congrArg (fun s => s.toList.head?) same
    simp [shown] at first

end CalcScript
