import CalcScript.Proofs.BlankSource
import CalcScript.Proofs.Visits

set_option autoImplicit false

namespace CalcScript

open Text (Lines)

theorem Text.Lines.length_le {lines : List (List UInt8)} (whole : Lines lines) :
    lines.length ≤ lines.flatten.length := by
  induction lines with
  | nil => exact Nat.le_refl 0
  | cons line lines ih =>
    have own := List.length_pos_iff.mpr whole.ne_nil
    have rest := ih whole.tail
    simp only [List.length_cons, List.flatten_cons, List.length_append]
    omega

theorem Linked.last_eq {source last : List UInt8 × Bool} {events : List Event}
    (linked : Linked source events last) (fits : ∀ ev ∈ events, ev.act.Fits Any Any Any)
    {lines : List (List UInt8)} (whole : Lines lines) (here : source = (lines.flatten, true)) :
    last = ((lines.drop (events.countP (·.takesLine))).flatten, true) := by
  induction linked generalizing lines with
  | nil source => exact here
  | @cons source last ev events found linked ih =>
    subst here
    obtain ⟨first, rest⟩ := List.forall_mem_cons.mp fits
    rw [ih rest (whole.drop _) (Event.source_next whole found first), List.drop_drop,
      List.countP_cons, Nat.add_comm]

inductive Exchange where
  | command (line : String) (s : Session)
  | entry (lines : List String) (last : Option Value) (s : Session)

def joined (lines : List String) : String := "\n".intercalate lines

namespace Exchange

def lines : Exchange → List String
  | .command line _ => [line]
  | .entry lines _ _ => lines

def session : Exchange → Session
  | .command _ s => s
  | .entry _ _ s => s

def request (rounds : Nat) (files : Files) : Exchange → Request
  | .command line _ => .command rounds files line
  | .entry lines last _ => .evaluate rounds (joined lines) false last

def events (rounds : Nat) (files : Files) (x : Exchange) : List Event :=
  x.session.events (x.request rounds files)

def after (rounds : Nat) (files : Files) (x : Exchange) : Session :=
  (x.session.perform (x.request rounds files)).2

def lastValue? (rounds : Nat) : Exchange → Option Value
  | .command _ _ => none
  | .entry lines last s => (s.evaluate rounds (joined lines) false last).1.lastValue?

def latest (rounds : Nat) (xs : List Exchange) : Option Value :=
  (xs.filterMap (·.lastValue? rounds)).getLast?

def afterAll (rounds : Nat) (files : Files) (s : Session) (xs : List Exchange) : Session :=
  (xs.getLast?.map (·.after rounds files)).getD s

structure Unfinished (lines : List String) : Prop where
  plain : ∀ line ∈ lines.head?, Prompt.isCommand line = false
  fronts {front rest : List String} (split : lines = front ++ rest) (nonempty : front ≠ []) :
    readProgram (joined front) = .error .incomplete

structure Complete (lines : List String) : Prop where
  nonempty : lines ≠ []
  plain : ∀ line ∈ lines.head?, Prompt.isCommand line = false
  fronts {front rest : List String} (split : lines = front ++ rest) (nonempty : front ≠ [])
      (further : rest ≠ []) : readProgram (joined front) = .error .incomplete
  whole : readProgram (joined lines) ≠ .error .incomplete

/-- Each begins where the one before it has ended. An entry has the last value of those before
it. -/
inductive Conducted (rounds : Nat) (files : Files) (s : Session) : List Exchange → Prop
  | start : Conducted rounds files s []
  | command {xs : List Exchange} {line : String} {t : Session}
      (earlier : Conducted rounds files s xs) (command : Prompt.isCommand line = true)
      (found : t.SameBindings (afterAll rounds files s xs)) :
      Conducted rounds files s (xs ++ [.command line t])
  | entry {xs : List Exchange} {lines : List String} {t : Session}
      (earlier : Conducted rounds files s xs) (complete : Complete lines)
      (found : t.SameBindings (afterAll rounds files s xs)) :
      Conducted rounds files s (xs ++ [.entry lines (latest rounds xs) t])

def Bound (rounds : Nat) : Exchange → Prop
  | .command _ _ => True
  | .entry lines last s => ∀ v items, last = some v → readProgram (joined lines) = .ok items →
    items ≠ [] → ∃ t : Session,
      s.evaluate rounds (joined lines) false last = t.runStatements rounds items ∧
        ∀ i : Identifier, i.name = "_" → t.lookup i = some v

section

variable {rounds : Nat} {files : Files} {s t : Session} {xs : List Exchange} {x : Exchange}

theorem afterAll_concat : afterAll rounds files s (xs ++ [x]) = x.after rounds files := by
  simp [afterAll]

theorem latest_concat :
    latest rounds (xs ++ [x]) = (x.lastValue? rounds).or (latest rounds xs) := by
  rw [latest, List.filterMap_append]
  cases value : x.lastValue? rounds <;> simp [latest, value]

theorem Conducted.outside (conducted : Conducted rounds files s xs) (start : s.calls = []) :
    (afterAll rounds files s xs).calls = [] ∧ ∀ x ∈ xs, x.session.calls = [] := by
  have onward {xs : List Exchange} (x : Exchange)
      (ih : (afterAll rounds files s xs).calls = [] ∧ ∀ y ∈ xs, y.session.calls = [])
      (found : x.session.SameBindings (afterAll rounds files s xs)) :
      (afterAll rounds files s (xs ++ [x])).calls = [] ∧
        ∀ y ∈ xs ++ [x], y.session.calls = [] := by
    have own : x.session.calls = [] := found.2.trans ih.1
    rw [afterAll_concat]
    exact ⟨(Session.perform_outside own).1,
      List.forall_mem_append.mpr ⟨ih.2, List.forall_mem_singleton.mpr own⟩⟩
  induction conducted with
  | start => exact ⟨start, List.forall_mem_nil _⟩
  | command _ _ found ih => exact onward (.command _ _) ih found
  | entry _ _ found ih => exact onward (.entry _ _ _) ih found

theorem nonblank_of_statements {source : String} {items : List Statement}
    (read : readProgram source = .ok items) (nonempty : items ≠ []) :
    Text.trim source.toList ≠ [] := by
  intro blank
  by_cases blanks : ∀ c ∈ source.toList, c ∈ Scan.blanks
  · rw [readProgram_of_blanks blanks] at read
    exact nonempty (Except.ok.inj read).symm
  · obtain ⟨front, c, rest, text, before, other⟩ := exists_odd_blank blanks
    have odd : Text.isBlank c = true := Text.trim_eq_nil.mp blank c (by simp [text])
    rw [readProgram_of_blank text before odd other] at read
    cases read

theorem evaluate_bound {source : String} {items : List Statement}
    (read : readProgram source = .ok items) (nonempty : items ≠ []) (outside : s.calls = [])
    (v : Value) :
    s.evaluate rounds source false (some v) =
        (s.started false (some v)).runStatements rounds items ∧
      ∀ i : Identifier, i.name = "_" → (s.started false (some v)).lookup i = some v := by
  have nonblank := nonblank_of_statements read nonempty
  constructor
  · rw [Session.evaluate, if_neg nonblank, read]
    rfl
  · intro i name
    have globals : ((s.globals.set "_" v).get? "_") = some v := by simp
    simp [Session.lookup, Session.started, Session.scope, outside, name, globals, Scope.get?]

theorem bound_of_outside (outside : x.session.calls = []) : x.Bound rounds := by
  cases x with
  | command line s => trivial
  | entry lines last s =>
    rintro v items rfl read nonempty
    exact ⟨_, evaluate_bound read nonempty outside v⟩

namespace Unfinished

variable {lines : List String} {line : String}

theorem nil : Unfinished [] where
  plain := nofun
  fronts split nonempty := absurd (List.append_eq_nil_iff.mp split.symm).1 nonempty

theorem joined_ne (unfinished : Unfinished lines) (nonempty : lines ≠ []) : joined lines ≠ "" := by
  intro nothing
  have read := unfinished.fronts (List.append_nil lines).symm nonempty
  rw [nothing] at read
  exact absurd (nonblank_of_incomplete read) (by decide)

theorem eq_nil (unfinished : Unfinished lines) (nothing : joined lines = "") : lines = [] := by
  by_contra nonempty
  exact unfinished.joined_ne nonempty nothing

theorem joined_concat (nonempty : lines ≠ []) :
    joined (lines ++ [line]) = joined lines ++ "\n" ++ line := by
  rw [joined, String.intercalate_append_of_ne_nil nonempty (List.cons_ne_nil line []),
    String.intercalate_singleton]
  rfl

theorem entry_eq (unfinished : Unfinished lines) {p : Prompt} (pending : p.pending = joined lines)
    (line : String) : p.entry line = joined (lines ++ [line]) := by
  by_cases nothing : lines = []
  · subst nothing
    exact (Prompt.entry_first pending line).trans String.intercalate_singleton.symm
  · rw [Prompt.entry, if_neg (pending ▸ unfinished.joined_ne nothing), pending,
      joined_concat nothing]

theorem head_plain (unfinished : Unfinished lines)
    (plain : lines = [] → Prompt.isCommand line = false) :
    ∀ first ∈ (lines ++ [line]).head?, Prompt.isCommand first = false := by
  cases lines with
  | nil => simpa using plain rfl
  | cons first lines => exact unfinished.plain

theorem concat (unfinished : Unfinished lines)
    (plain : lines = [] → Prompt.isCommand line = false)
    (read : readProgram (joined (lines ++ [line])) = .error .incomplete) :
    Unfinished (lines ++ [line]) where
  plain := unfinished.head_plain plain
  fronts {front rest} split nonempty := by
    rcases List.eq_nil_or_concat rest with rfl | ⟨rest, last, rfl⟩
    · rw [List.append_nil] at split
      exact split ▸ read
    · rw [List.concat_eq_append, ← List.append_assoc] at split
      exact unfinished.fronts (List.append_inj_left' split rfl) nonempty

theorem complete (unfinished : Unfinished lines)
    (plain : lines = [] → Prompt.isCommand line = false)
    (whole : readProgram (joined (lines ++ [line])) ≠ .error .incomplete) :
    Complete (lines ++ [line]) where
  nonempty := by simp
  plain := unfinished.head_plain plain
  fronts {front rest} split nonempty further := by
    rcases List.eq_nil_or_concat rest with rfl | ⟨rest, last, rfl⟩
    · exact absurd rfl further
    · rw [List.concat_eq_append, ← List.append_assoc] at split
      exact unfinished.fronts (List.append_inj_left' split rfl) nonempty
  whole := whole

end Unfinished

end

end Exchange

namespace Prompt

open Exchange (Conducted Unfinished latest afterAll)

def heard? (p : Prompt) : Option String :=
  match p.readLine.1 with
  | .text line => some line
  | _ => none

/-- All that was entered before a prompt, and the lines that are kept there. -/
structure Account (rounds : Nat) (files : Files) (s : Session) (before : List Prompt)
    (xs : List Exchange) (kept : List String) (q : Prompt) : Prop where
  lines : before.filterMap heard? = xs.flatMap (·.lines) ++ kept
  events : before.flatMap (events rounds files) = xs.flatMap (·.events rounds files)
  conducted : Conducted rounds files s xs
  unfinished : Unfinished kept
  pending : q.pending = joined kept
  last : q.last = latest rounds xs
  session : q.session.SameBindings (afterAll rounds files s xs)

variable {rounds : Nat} {files : Files} {showTree : Bool}

namespace Account

variable {s : Session} {before : List Prompt} {xs : List Exchange} {kept : List String}
  {q r : Prompt} {line : String}

theorem found (account : Account rounds files s before xs kept q) :
    q.readLine.2.session.SameBindings (afterAll rounds files s xs) :=
  q.readLine_same.trans account.session

theorem heard (account : Account rounds files s before xs kept q)
    (heard : q.readLine.1 = .text line) :
    (before ++ [q]).filterMap heard? = xs.flatMap (·.lines) ++ (kept ++ [line]) := by
  rw [List.filterMap_append, account.lines]
  simp [heard?, heard]

theorem evaluated (account : Account rounds files s before xs kept q)
    (heard : q.readLine.1 = .text line) :
    (before ++ [q]).flatMap (Prompt.events rounds files) = xs.flatMap (·.events rounds files) ++
      q.readLine.2.session.events (q.request rounds files line) := by
  rw [List.flatMap_append, account.events, ← events_text heard]
  simp

theorem command (account : Account rounds files s before xs kept q)
    (heard : q.readLine.1 = .text line) (none : q.pending = "") (command : isCommand line = true)
    (pending : r.pending = "") (last : r.last = q.last)
    (session : r.session.SameBindings (q.answer rounds files line).2) :
    Account rounds files s (before ++ [q]) (xs ++ [.command line q.readLine.2.session]) [] r := by
  obtain rfl := account.unfinished.eq_nil (account.pending ▸ none)
  have request := @request_command rounds files q line none command
  refine ⟨?_, ?_, .command account.conducted command account.found, .nil, pending, ?_, ?_⟩
  · rw [account.heard heard]
    simp [Exchange.lines]
  · rw [account.evaluated heard, request]
    simp [Exchange.events, Exchange.session, Exchange.request]
  · rw [last, account.last, Exchange.latest_concat]
    rfl
  · rw [Exchange.afterAll_concat]
    rw [answer, request] at session
    exact session

theorem keep (account : Account rounds files s before xs kept q)
    (heard : q.readLine.1 = .text line) (plain : q.pending = "" → isCommand line = false)
    (unfinished : readProgram (q.entry line) = .error .incomplete)
    (pending : r.pending = q.entry line) (last : r.last = q.last)
    (session : r.session.SameBindings (q.answer rounds files line).2) :
    Account rounds files s (before ++ [q]) xs (kept ++ [line]) r := by
  have entry := account.unfinished.entry_eq account.pending line
  have request := @request_plain rounds files q line plain
  obtain ⟨unchanged, nothing⟩ := @Session.evaluate_incomplete _ q.readLine.2.session rounds false
    q.last unfinished
  refine ⟨account.heard heard, ?_, account.conducted, ?_, pending.trans entry, ?_, ?_⟩
  · rw [account.evaluated heard, request, nothing, List.append_nil]
  · refine account.unfinished.concat (fun none => plain ?_) (entry ▸ unfinished)
    rw [account.pending, none]
    rfl
  · rw [last, account.last]
  · rw [answer, request, Session.perform, Session.ended, unchanged] at session
    exact session.trans account.found

theorem entry (account : Account rounds files s before xs kept q)
    (heard : q.readLine.1 = .text line) (plain : q.pending = "" → isCommand line = false)
    (whole : readProgram (q.entry line) ≠ .error .incomplete) (pending : r.pending = "")
    (last : r.last = (q.value rounds line).lastValue?.or q.last)
    (session : r.session.SameBindings (q.answer rounds files line).2) :
    Account rounds files s (before ++ [q])
      (xs ++ [.entry (kept ++ [line]) (latest rounds xs) q.readLine.2.session]) [] r := by
  have entry := account.unfinished.entry_eq account.pending line
  have request := @request_plain rounds files q line plain
  rw [entry] at whole
  have complete := account.unfinished.complete
    (fun none => plain (by rw [account.pending, none]; rfl)) whole
  refine ⟨?_, ?_, .entry account.conducted complete account.found, .nil, pending, ?_, ?_⟩
  · rw [account.heard heard]
    simp [Exchange.lines]
  · rw [account.evaluated heard, request, entry, account.last]
    simp [Exchange.events, Exchange.session, Exchange.request]
  · rw [last, value, entry, account.last, Exchange.latest_concat]
    rfl
  · rw [Exchange.afterAll_concat]
    rw [answer, request, entry, account.last] at session
    exact session

end Account

theorem Reached.account {p q : Prompt} {before : List Prompt}
    (reached : Reached rounds files showTree p before q) (pending : p.pending = "")
    (last : p.last = none) :
    ∃ xs kept, Account rounds files p.session before xs kept q := by
  induction reached with
  | start => exact ⟨[], [], rfl, rfl, .start, .nil, pending, last, .refl _⟩
  | @next before q r _ going ih =>
    obtain ⟨xs, kept, account⟩ := ih
    obtain ⟨line, heard, reply⟩ := step_going going
    have session := (@step_text rounds files showTree q line heard).2.1
    rw [going] at session
    cases reply with
    | command none command pending last =>
      exact ⟨_, _, account.command heard none command pending last session⟩
    | kept plain unfinished pending last =>
      exact ⟨_, _, account.keep heard plain unfinished pending last session⟩
    | evaluated plain whole pending last =>
      exact ⟨_, _, account.entry heard plain whole pending last session⟩

def lineOf : List (List UInt8) → Line
  | [] => .noMore
  | line :: _ =>
    match Text.ofUtf8? line with
    | some text => .text (.ofList (Text.trimEnd text.toList))
    | none => .invalid

-- The number of lines that these prompts have used up: one each, and those that were taken by the
-- calls in what was evaluated for it.
def taken (rounds : Nat) (files : Files) (before : List Prompt) : Nat :=
  before.length + (before.flatMap (events rounds files)).countP (·.takesLine)

structure Served (rounds : Nat) (files : Files) (showTree : Bool) (lines : List (List UInt8))
    (before : List Prompt) (q : Prompt) : Prop where
  left : q.session.console.source = ((lines.drop (taken rounds files before)).flatten, true)
  line : q.readLine.1 = lineOf (lines.drop (taken rounds files before))
  calls (text : String) (heard : q.readLine.1 = .text text) :
    Delivered (lines.drop (taken rounds files before + 1)) (q.events rounds files)
      (q.step rounds files showTree).2.session.console.unread

section

variable {p q r : Prompt} {before : List Prompt} {lines : List (List UInt8)} {text : String}

theorem taken_concat : taken rounds files (before ++ [q]) =
    taken rounds files before + 1 + (q.events rounds files).countP (·.takesLine) := by
  simp only [taken, List.length_append, List.flatMap_append, List.countP_append,
    List.length_singleton, List.flatMap_singleton]
  omega

theorem readLine_lines (whole : Lines lines)
    (here : q.session.console.source = (lines.flatten, true)) :
    q.readLine.1 = lineOf lines ∧
      q.readLine.2.session.console.source = (lines.tail.flatten, true) := by
  have marked : (q.write q.mark).session.console.source = (lines.flatten, true) :=
    (q.write_same q.mark).2.trans here
  simp only [readLine]
  cases lines with
  | nil =>
    obtain ⟨unread, ended⟩ := Prod.mk.injEq .. ▸ marked
    rw [Console.readLine_end ended unread]
    exact ⟨rfl, marked⟩
  | cons line rest =>
    rw [Console.readLine_lines whole marked]
    refine ⟨?_, congrArg (Prod.mk rest.flatten) (congrArg Prod.snd marked)⟩
    simp only [lineOf]
    cases Text.ofUtf8? line with
    | none => rfl
    | some text => simp only [Text.trimEnd_dropLineEnd]

theorem source_behind (whole : Lines lines)
    (here : q.session.console.source =
      ((lines.drop (taken rounds files before)).flatten, true)) :
    q.readLine.2.session.console.source =
      ((lines.drop (taken rounds files before + 1)).flatten, true) := by
  rw [(readLine_lines (whole.drop _) here).2, List.tail_drop]

theorem fixed_request (rounds : Nat) (files : Files) (text : String) (q : Prompt)
    (bytes : List UInt8) : q.request rounds files text ≠ .feed bytes := by
  unfold request
  split <;> nofun

theorem served_of_left (whole : Lines lines)
    (left : q.session.console.source =
      ((lines.drop (taken rounds files before)).flatten, true)) :
    Served rounds files showTree lines before q where
  left := left
  line := (readLine_lines (whole.drop _) left).1
  calls text heard := by
    have linked := Session.perform_linked (fixed_request rounds files text q)
      q.readLine.2.session
    have delivered := linked.delivered (Session.events_accept _ _) (whole.drop _)
      (source_behind whole left)
    have unread : (q.step rounds files showTree).2.session.console.unread =
        (q.answer rounds files text).2.console.unread :=
      congrArg Prod.fst (step_text heard).2.2
    rw [events_text heard, unread]
    exact delivered

theorem Reached.left (reached : Reached rounds files showTree p before q) (whole : Lines lines)
    (start : p.session.console.source = (lines.flatten, true)) :
    q.session.console.source = ((lines.drop (taken rounds files before)).flatten, true) := by
  induction reached with
  | start => exact start
  | @next before q r _ going ih =>
    obtain ⟨text, heard, -⟩ := step_going going
    have source := (@step_text rounds files showTree q text heard).2.2
    have linked := Session.perform_linked (fixed_request rounds files text q)
      q.readLine.2.session
    have last := linked.last_eq (Session.events_accept _ _) (whole.drop _)
      (source_behind whole ih)
    rw [going] at source
    rw [source, answer, last, ← events_text heard, List.drop_drop, taken_concat]

theorem lines_left (heard : lineOf (lines.drop (taken rounds files before)) = .text text) :
    taken rounds files before < lines.length := by
  by_contra beyond
  rw [List.drop_eq_nil_of_le (Nat.le_of_not_lt beyond)] at heard
  cases heard

theorem stopped (stop : (q.step rounds files showTree).1 ≠ .going)
    (heard : q.readLine.1 = lineOf lines) :
    q.readLine.1 = .noMore ∨ q.readLine.1 = .invalid ∨
      ∃ text, q.readLine.1 = .text text ∧ (q.answer rounds files text).1 = .exhausted := by
  cases line : q.readLine.1 with
  | noMore => exact .inl rfl
  | invalid => exact .inr (.inl rfl)
  | notYet =>
    rw [line] at heard
    unfold lineOf at heard
    split at heard
    · cases heard
    · split at heard <;> cases heard
  | text text =>
    refine .inr (.inr ⟨text, rfl, ?_⟩)
    rw [(step_text line).1] at stop
    cases result : (q.answer rounds files text).1 with
    | exhausted => rfl
    | value a => exact absurd (by rw [result]; rfl) stop
    | error e => exact absurd (by rw [result]; rfl) stop

end

/-- Whatever is typed, a session goes from entry to entry. -/
theorem conversation (rounds : Nat) (files : Files) (showTree : Bool) (input : List UInt8) :
    let p := start (.ofInput input)
    let visited := p.visits rounds files showTree (input.length + 1)
    ∃ lines, Lines lines ∧ lines.flatten = input ∧
      (∀ before q later, visited = before ++ q :: later →
        (q.pending = "" ∨ readProgram q.pending = .error .incomplete) ∧
        Served rounds files showTree lines before q ∧
        ∃ xs kept, Account rounds files p.session before xs kept q ∧ ∀ x ∈ xs, x.Bound rounds) ∧
      ∃ before q, visited = before ++ [q] ∧
        p.run rounds files showTree (input.length + 1) = (q.step rounds files showTree).2 ∧
        p.runEvents rounds files showTree (input.length + 1) =
          (before ++ [q]).flatMap (events rounds files) ∧
        (q.readLine.1 = .noMore ∨ q.readLine.1 = .invalid ∨
          ∃ text, q.readLine.1 = .text text ∧ (q.answer rounds files text).1 = .exhausted) := by
  intro p visited
  obtain ⟨lines, whole, rfl⟩ := Text.exists_lines input
  have source : p.session.console.source = (lines.flatten, true) := (write_same greeting _).2
  have outside : p.session.calls = [] := (write_same greeting _).1.2
  have served {before : List Prompt} {q : Prompt}
      (reached : Reached rounds files showTree p before q) :
      Served rounds files showTree lines before q :=
    served_of_left whole (reached.left whole source)
  refine ⟨lines, whole, rfl, fun before q later split => ?_, ?_⟩
  · have reached := reached_of_visits split
    obtain ⟨xs, kept, account⟩ := reached.account rfl rfl
    refine ⟨?_, served reached, xs, kept, account, fun x member => ?_⟩
    · by_cases nothing : kept = []
      · left
        rw [account.pending, nothing]
        rfl
      · right
        rw [account.pending]
        exact account.unfinished.fronts (List.append_nil kept).symm nothing
    · exact Exchange.bound_of_outside ((account.conducted.outside outside).2 x member)
  · obtain ⟨before, q, split, ran, evaluated, length⟩ :=
      @visits_last rounds files showTree lines.flatten.length p
    have reached := reached_of_visits split
    have stop : (q.step rounds files showTree).1 ≠ .going := by
      intro going
      obtain ⟨text, heard, -⟩ := step_going (Prod.ext going rfl)
      have further := lines_left ((served reached).line.symm.trans heard)
      have steps : before.length = lines.flatten.length := length going
      have own : before.length ≤ taken rounds files before := Nat.le_add_right _ _
      have fits := whole.length_le
      omega
    exact ⟨before, q, split, ran, evaluated, stopped stop (served reached).line⟩

end Prompt

end CalcScript
