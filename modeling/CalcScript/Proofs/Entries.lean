import CalcScript.Program
import CalcScript.Proofs.InputLines
import CalcScript.Proofs.Pages
import CalcScript.Proofs.Unasked

set_option autoImplicit false

namespace CalcScript

open Text (bytes trimEnd)

namespace Session

variable {source other : String} {s : Session} {rounds : Nat} {clearFirst : Bool}
  {last : Option Value}

theorem print_wrote (works : s.console.broken = false) (text : String) :
    (s.print text).2 = { s with console := s.console.wrote text } := by
  have written := Console.write?_wrote works "" text
  rw [Console.wrote_nothing, String.empty_append] at written
  simp only [print, run, Eval.write, written]

theorem evaluate_incomplete (unfinished : readProgram source = .error .incomplete) :
    s.evaluate rounds source clearFirst last = (.error (.source .incomplete), s) ∧
      s.events (.evaluate rounds source clearFirst last) = [] := by
  have nonblank := nonblank_of_incomplete unfinished
  constructor
  · simp only [evaluate, if_neg nonblank, unfinished]
  · simp only [events, Request.plan, Plan.program, if_neg nonblank, unfinished]
    rfl

theorem evaluate_congr (same : readProgram source = readProgram other)
    (nonblank : Text.trim source.toList ≠ []) (nonblank' : Text.trim other.toList ≠ []) :
    s.evaluate rounds source clearFirst last = s.evaluate rounds other clearFirst last ∧
      s.events (.evaluate rounds source clearFirst last) =
        s.events (.evaluate rounds other clearFirst last) := by
  constructor
  · simp only [evaluate, if_neg nonblank, if_neg nonblank', same]
  · simp only [events, Request.plan, Plan.program, if_neg nonblank, if_neg nonblank', same]

theorem runStatements_ne_source (rounds : Nat) (items : List Statement) (s : Session)
    (e : SyntaxError) : (s.runStatements rounds items).1 ≠ .error (.source e) := by
  intro failed
  have course := Traced.statements_orderly (Traced.call_orderly rounds maxCallDepth []) rounds
    items s
  have ends := course.ends
  rw [Traced.eval_statements, Traced.eval_call] at ends
  simp only [runStatements, run] at failed
  rcases result : (Eval.statements rounds (Eval.call rounds maxCallDepth) items s).1 with i | vs
  · rw [result] at ends failed
    rcases ends.exists_stop with ordinary | ⟨before, ev, -, stop⟩
    · rcases i with e' | signal | _
      · cases failed
        exact ordinary.elim
      · cases failed
      · cases failed
    · rcases Event.stop?_cases stop with ⟨pos, rfl⟩ | ⟨pos, rfl⟩ <;> cases failed
  · rw [result] at failed
    cases failed

theorem evaluate_ne_source {items : List Statement} (read : readProgram source = .ok items)
    (e : SyntaxError) : (s.evaluate rounds source clearFirst last).1 ≠ .error (.source e) := by
  unfold evaluate
  split
  · nofun
  · rw [read]
    exact runStatements_ne_source rounds items _ e

end Session

namespace Console

structure Whole (c : Console) (unread : List UInt8) : Prop where
  works : c.broken = false
  ended : c.ended = true
  unread : c.unread = unread

def behind (c : Console) (text : String) (rest : List UInt8) : Console :=
  { c.wrote text with unread := rest }

variable {c : Console} {bs rest : List UInt8}

theorem Whole.wrote (whole : c.Whole bs) (text : String) : (c.wrote text).Whole bs :=
  ⟨whole.works, whole.ended, whole.unread⟩

theorem Whole.behind (whole : c.Whole bs) (text : String) (rest : List UInt8) :
    (c.behind text rest).Whole rest :=
  ⟨whole.works, whole.ended, rfl⟩

end Console

namespace Prompt

def entry (p : Prompt) (line : String) : String :=
  if p.pending = "" then line else p.pending ++ "\n" ++ line

def events (rounds : Nat) (files : Files) (p : Prompt) : List Event :=
  match p.readLine with
  | (.text line, p) =>
    if p.pending = "" ∧ isCommand line then
      p.session.events (.command rounds files line)
    else p.session.events (.evaluate rounds (p.entry line) false p.last)
  | _ => []

def runEvents (rounds : Nat) (files : Files) (showTree : Bool) : Nat → Prompt → List Event
  | 0, _ => []
  | steps + 1, p => p.events rounds files ++
    match p.step rounds files showTree with
    | (.going, p) => runEvents rounds files showTree steps p
    | _ => []

section

variable {p q r : Prompt} {line : List Char} {bs rest : List UInt8}

theorem write_wrote (works : p.session.console.broken = false) (text : String) :
    p.write text =
      { p with session := { p.session with console := p.session.console.wrote text } } := by
  rw [write, Session.print_wrote works]

def behindLine (p : Prompt) (rest : List UInt8) : Prompt :=
  { p with session := { p.session with console := p.session.console.behind p.mark rest } }

theorem readLine_fed (whole : p.session.console.Whole bs) (fed : Fed bs line rest) :
    p.readLine = (.text (.ofList (trimEnd line)), p.behindLine rest) := by
  obtain rfl := whole.unread
  have ended : (p.session.console.wrote p.mark).ended = true := whole.ended
  obtain ⟨text, taken, same⟩ := Console.readLine_fed ended fed
  simp only [readLine, write_wrote whole.works, taken, same]
  rfl

theorem readLine_end (whole : p.session.console.Whole []) :
    p.readLine = (.noMore, { p with session := { p.session with
      console := p.session.console.wrote p.mark } }) := by
  have told := whole.wrote p.mark
  simp only [readLine, write_wrote whole.works, Console.readLine_end told.ended told.unread]

def entered (p : Prompt) (showTree : Bool) (source : String) :
    Outcome (List Value) × Session → Status × Prompt
  | (.value values, session) => (.going, accepted source values showTree { p with session })
  | (.error (.source .incomplete), session) => (.going, { p with session, pending := source })
  | (.error e, session) => (.going, refused source e { p with session })
  | (.exhausted, session) => (.exhausted, { p with session })

theorem entered_error {source : String} {e : Error} {session : Session}
    (other : e ≠ .source .incomplete) (showTree : Bool) :
    p.entered showTree source (.error e, session) =
      (.going, refused source e { p with session }) := by
  unfold entered
  split
  · next same => cases same
  · next same =>
    cases same
    exact absurd rfl other
  · next same =>
    cases same
    rfl
  · next same => cases same

variable (rounds : Nat) (files : Files) (showTree : Bool)

def Steps (p : Prompt) (status : Status) (evaluated : List Event) (q : Prompt) : Prop :=
  p.step rounds files showTree = (status, q) ∧ p.events rounds files = evaluated

variable {rounds files showTree}

theorem step_entry (whole : p.session.console.Whole bs) (fed : Fed bs line rest)
    (plain : p.pending = "" → isCommand (.ofList (trimEnd line)) = false) {status : Status}
    (becomes : (p.behindLine rest).entered showTree (p.entry (.ofList (trimEnd line)))
      ((p.behindLine rest).session.evaluate rounds (p.entry (.ofList (trimEnd line))) false
        p.last) = (status, q)) :
    Steps rounds files showTree p status ((p.behindLine rest).session.events
      (.evaluate rounds (p.entry (.ofList (trimEnd line))) false p.last)) q := by
  have noCommand : ¬(p.pending = "" ∧ isCommand (.ofList (trimEnd line)) = true) := by
    rintro ⟨none, command⟩
    rw [plain none] at command
    cases command
  constructor
  · rw [step, readLine_fed whole fed, ← becomes]
    exact if_neg noCommand
  · rw [events, readLine_fed whole fed]
    exact if_neg noCommand

theorem step_end (whole : p.session.console.Whole []) :
    Steps rounds files showTree p .closed [] { p with session := { p.session with
      console := p.session.console.wrote (p.mark ++ "\n") } } := by
  constructor
  · rw [step, readLine_end whole]
    simp only
    rw [write_wrote (by exact whole.works)]
    simp [Console.wrote, String.append_assoc]
  · rw [events, readLine_end whole]

theorem Steps.run_going {evaluated : List Event}
    (step : Steps rounds files showTree p .going evaluated q) (steps : Nat) :
    p.run rounds files showTree (steps + 1) = q.run rounds files showTree steps ∧
      p.runEvents rounds files showTree (steps + 1) =
        evaluated ++ q.runEvents rounds files showTree steps := by
  obtain ⟨stepped, rfl⟩ := step
  exact ⟨by rw [run, stepped], by rw [runEvents, stepped]⟩

theorem Steps.run_stops {status : Status} {evaluated : List Event}
    (step : Steps rounds files showTree p status evaluated q) (stop : status ≠ .going)
    (steps : Nat) :
    p.run rounds files showTree (steps + 1) = q ∧
      p.runEvents rounds files showTree (steps + 1) = evaluated := by
  obtain ⟨stepped, rfl⟩ := step
  cases status with
  | going => exact absurd rfl stop
  | closed | exhausted =>
    exact ⟨by rw [run, stepped], by rw [runEvents, stepped, List.append_nil]⟩

variable (rounds files showTree)

def Waits (n : Nat) (p q : Prompt) : Prop :=
  ∀ steps, p.run rounds files showTree (n + steps) = q.run rounds files showTree steps ∧
    p.runEvents rounds files showTree (n + steps) = q.runEvents rounds files showTree steps

variable {rounds files showTree}

theorem Waits.refl (p : Prompt) : Waits rounds files showTree 0 p p := by
  intro steps
  rw [Nat.zero_add]
  exact ⟨rfl, rfl⟩

theorem Waits.after {n : Nat} (step : Steps rounds files showTree p .going [] q)
    (waits : Waits rounds files showTree n q r) : Waits rounds files showTree (n + 1) p r := by
  intro steps
  obtain ⟨final, evaluated⟩ := step.run_going (n + steps)
  rw [Nat.add_right_comm, final, evaluated]
  exact waits steps

def echo (values : List Value) : String :=
  if shownValues values = [] then "" else ", ".intercalate (shownValues values) ++ "\n"

def closing : Outcome (List Value) → String
  | .value values => echo values ++ "> \n"
  | .error _ => "> \n"
  | .exhausted => ""

theorem accepted_wrote (works : p.session.console.broken = false) (source : String)
    (values : List Value) (showTree : Bool) :
    (accepted source values showTree p).session =
      { p.session with console := p.session.console.wrote (echo values) } := by
  simp only [accepted, echo]
  split <;> split <;> simp [write_wrote, works, Console.wrote_nothing]

theorem run_end (whole : p.session.console.Whole []) (pending : p.pending = "") (steps : Nat) :
    (p.run rounds files showTree (steps + 1)).session =
        { p.session with console := p.session.console.wrote "> \n" } ∧
      p.runEvents rounds files showTree (steps + 1) = [] := by
  have mark : p.mark = "> " := if_pos pending
  obtain ⟨final, evaluated⟩ := (step_end whole).run_stops (by decide) steps
  rw [mark] at final
  exact ⟨by rw [final]; rfl, evaluated⟩

theorem run_last (whole : p.session.console.Whole bs) (fed : Fed bs line [])
    (plain : p.pending = "" → isCommand (.ofList (trimEnd line)) = false) {items : List Statement}
    (read : readProgram (p.entry (.ofList (trimEnd line))) = .ok items)
    {outcome : Outcome (List Value)} {globals : Frame} {calls : List Frame} {out : String}
    (answer : (p.behindLine []).session.evaluate rounds (p.entry (.ofList (trimEnd line))) false
      p.last = (outcome, ⟨globals, calls, (p.behindLine []).session.console.wrote out⟩))
    (steps : Nat) :
    let final := p.run rounds files showTree (steps + 2)
    final.session.globals = globals ∧
      final.session.console.written =
        p.session.console.written ++ p.mark ++ out ++ closing outcome ∧
      p.runEvents rounds files showTree (steps + 2) = (p.behindLine []).session.events
        (.evaluate rounds (p.entry (.ofList (trimEnd line))) false p.last) := by
  intro final
  have told := (whole.behind p.mark []).wrote out
  -- Behind an entry that ends, the prompt is asked for a line once more.
  have onward {q : Prompt} {shown : String}
      (becomes : (p.behindLine []).entered showTree (p.entry (.ofList (trimEnd line)))
        ((p.behindLine []).session.evaluate rounds (p.entry (.ofList (trimEnd line))) false
          p.last) = (.going, q))
      (session : q.session =
        ⟨globals, calls, ((p.behindLine []).session.console.wrote out).wrote shown⟩)
      (pending : q.pending = "") (closed : closing outcome = shown ++ "> \n") :
      final.session.globals = globals ∧
        final.session.console.written =
          p.session.console.written ++ p.mark ++ out ++ closing outcome ∧
        p.runEvents rounds files showTree (steps + 2) = (p.behindLine []).session.events
          (.evaluate rounds (p.entry (.ofList (trimEnd line))) false p.last) := by
    have rest : q.session.console.Whole [] := by
      rw [session]
      exact told.wrote shown
    have step : Steps rounds files showTree p .going _ q := step_entry whole fed plain becomes
    obtain ⟨ran, evaluated⟩ := step.run_going (steps + 1)
    obtain ⟨ended, nothing⟩ := @run_end q rounds files showTree rest pending steps
    simp only [final, ran, evaluated, ended, nothing, session, closed]
    refine ⟨trivial, ?_, List.append_nil _⟩
    simp [behindLine, Console.behind, Console.wrote, String.append_assoc]
  cases outcome with
  | value values =>
    refine onward (by rw [answer]; rfl) ?_ rfl rfl
    exact accepted_wrote (by exact told.works) _ values showTree
  | error e =>
    have other : e ≠ .source .incomplete := by
      rintro rfl
      exact Session.evaluate_ne_source read .incomplete (congrArg Prod.fst answer)
    exact onward (by rw [answer, entered_error other]) (by rw [Console.wrote_nothing]; rfl) rfl rfl
  | exhausted =>
    have step : Steps rounds files showTree p .exhausted _ _ :=
      step_entry whole fed plain (by rw [answer]; rfl)
    obtain ⟨ran, evaluated⟩ := step.run_stops (by decide) (steps + 1)
    simp only [final, ran, evaluated]
    refine ⟨trivial, ?_, trivial⟩
    simp [closing, behindLine, Console.behind, Console.wrote]

theorem step_incomplete (whole : p.session.console.Whole bs) (fed : Fed bs line rest)
    (plain : p.pending = "" → isCommand (.ofList (trimEnd line)) = false)
    (unfinished : readProgram (p.entry (.ofList (trimEnd line))) = .error .incomplete) :
    Steps rounds files showTree p .going []
      { p.behindLine rest with pending := p.entry (.ofList (trimEnd line)) } := by
  obtain ⟨refused, nothing⟩ := @Session.evaluate_incomplete _ (p.behindLine rest).session rounds
    false p.last unfinished
  rw [← nothing]
  exact step_entry whole fed plain (by rw [refused]; rfl)

theorem entry_first (none : p.pending = "") (text : String) : p.entry text = text := if_pos none

theorem pending_ne {text : List Char} (pending : p.pending = .ofList text) (some : text ≠ []) :
    p.pending ≠ "" := by
  intro none
  have chars := congrArg String.toList (pending.symm.trans none)
  rw [String.toList_ofList] at chars
  exact some chars

theorem entry_later {text : List Char} (pending : p.pending = .ofList text) (some : text ≠ [])
    (line : List Char) : p.entry (.ofList line) = .ofList (page text [line]) := by
  rw [entry, if_neg (pending_ne pending some), pending]
  apply String.toList_inj.mp
  simp [page]

def prompts (n : Nat) : String := .join (List.replicate n ". ")

theorem prompts_succ (n : Nat) : prompts (n + 1) = ". " ++ prompts n := by
  apply String.toList_inj.mp
  simp [prompts, List.replicate_succ]

theorem prompts_concat (n : Nat) : prompts n ++ ". " = prompts (n + 1) := by
  apply String.toList_inj.mp
  simp [prompts, List.replicate_succ']

def feedLines (lines : List (List Char)) : List UInt8 := lines.flatMap fun l => bytes l ++ [10]

theorem waits_for_lines {text : List Char} (lines : List (List Char))
    (whole : p.session.console.Whole (feedLines lines ++ rest)) (single : ∀ l ∈ lines, '\n' ∉ l)
    (pending : p.pending = .ofList text) (some : text ≠ [])
    (unfinished : ∀ above next below, lines = above ++ next :: below →
      readProgram (.ofList (page text ((above ++ [next]).map trimEnd))) = .error .incomplete) :
    ∃ q : Prompt, Waits rounds files showTree lines.length p q ∧
      q.pending = .ofList (page text (lines.map trimEnd)) ∧ q.last = p.last ∧
      q.session = { p.session with
        console := p.session.console.behind (prompts lines.length) rest } := by
  induction lines generalizing p text with
  | nil =>
    obtain rfl : p.session.console.unread = rest := whole.unread
    refine ⟨p, .refl p, by simpa using pending, rfl, ?_⟩
    rw [Console.behind, show prompts [].length = "" from rfl, Console.wrote_nothing]
  | cons l lines ih =>
    obtain ⟨own, others⟩ := List.forall_mem_cons.mp single
    have entry := entry_later pending some (trimEnd l)
    have going := pending_ne pending some
    have fed : Fed (feedLines (l :: lines) ++ rest) l (feedLines lines ++ rest) := by
      simpa [feedLines] using Fed.line own (feedLines lines ++ rest)
    have below (more : List (List Char)) :
        page (page text [trimEnd l]) (more.map trimEnd) = page text ((l :: more).map trimEnd) := by
      simp [page]
    have first : readProgram (p.entry (.ofList (trimEnd l))) = .error .incomplete := by
      rw [entry]
      exact unfinished [] l lines rfl
    have later (above : List (List Char)) (next : List Char) (behind : List (List Char))
        (eq : lines = above ++ next :: behind) :
        readProgram (.ofList (page (page text [trimEnd l]) ((above ++ [next]).map trimEnd))) =
          .error .incomplete := by
      rw [below]
      exact unfinished (l :: above) next behind (by rw [eq]; rfl)
    obtain ⟨q, waits, pending', last, session⟩ := @ih { p.behindLine (feedLines lines ++ rest) with
      pending := p.entry (.ofList (trimEnd l)) } (page text [trimEnd l])
      (whole.behind _ _) others entry (by simp [page]) later
    have step : Steps rounds files showTree p .going [] _ :=
      step_incomplete whole fed (absurd · going) first
    have mark : p.mark = ". " := if_neg going
    refine ⟨q, .after step waits, by rw [pending', below], last, ?_⟩
    rw [session]
    simp [behindLine, Console.behind, Console.wrote, mark, prompts_succ, String.append_assoc]

theorem fed_last (own : '\n' ∉ line) (some : line ≠ []) {tail : List UInt8}
    (ending : tail = [] ∨ tail = [10]) : Fed (bytes line ++ tail) line [] := by
  rcases ending with rfl | rfl
  · rw [List.append_nil]
    exact .last own some
  · exact .line own []

theorem bytes_page (line last : List Char) (lines : List (List Char)) :
    bytes (page line (lines ++ [last])) = bytes line ++ 10 :: (feedLines lines ++ bytes last) := by
  have feed (cs : List Char) : bytes ('\n' :: cs) = 10 :: bytes cs := rfl
  induction lines generalizing line with
  | nil => simp [page, feed, feedLines]
  | cons next lines ih =>
    rw [List.cons_append, page_cons, Text.bytes_append, feed, ih]
    simp [feedLines]

variable {source : String} {more : List (List Char)} {tail : List UInt8}

theorem isCommand_of_typed (typed : Typed source line more) :
    isCommand (.ofList (trimEnd line)) = false := by
  simpa [isCommand] using typed.plain

structure Ready (p : Prompt) (line : List Char) (more : List (List Char)) (q : Prompt)
    (final : List Char) : Prop where
  whole : q.session.console.Whole q.session.console.unread
  fed : Fed q.session.console.unread final []
  globals : q.session.globals = p.session.globals
  calls : q.session.calls = p.session.calls
  last : q.last = p.last
  plain : q.pending = "" → isCommand (.ofList (trimEnd final)) = false
  entry : q.entry (.ofList (trimEnd final)) = .ofList (page (trimEnd line) (more.map trimEnd))
  written : q.session.console.written ++ q.mark =
    p.session.console.written ++ "> " ++ prompts more.length

theorem waits_for_last (typed : Typed source line more)
    (whole : p.session.console.Whole (bytes source.toList ++ tail))
    (ending : tail = [] ∨ tail = [10]) (none : p.pending = "") :
    ∃ q final, Waits rounds files showTree more.length p q ∧ Ready p line more q final := by
  obtain ⟨own, others⟩ := List.forall_mem_cons.mp typed.single
  have plain := isCommand_of_typed typed
  have mark : p.mark = "> " := if_pos none
  have entry := entry_first none (.ofList (trimEnd line))
  rw [typed.text] at whole
  rcases List.eq_nil_or_concat more with rfl | ⟨lines, final, rfl⟩
  · rw [page_nil] at whole
    have some : line ≠ [] := by
      rintro rfl
      exact typed.shown rfl
    have fed := fed_last own some ending
    have unread := whole.unread
    rw [← unread] at fed whole
    refine ⟨p, line, .refl p, whole, fed, rfl, rfl, rfl, fun _ => plain, by simpa using entry, ?_⟩
    simp [mark, prompts]
  · rw [List.concat_eq_append] at *
    have fed : Fed (bytes (page line (lines ++ [final])) ++ tail) line
        (feedLines lines ++ (bytes final ++ tail)) := by
      rw [bytes_page]
      simpa using Fed.line own (feedLines lines ++ (bytes final ++ tail))
    -- Below each of these lines there is another one.
    have front (above below : List (List Char)) (eq : lines = above ++ below) :
        readProgram (.ofList (page (trimEnd line) (above.map trimEnd))) = .error .incomplete := by
      cases below with
      | nil => exact (typed.fronts (by rw [eq, List.append_nil])).1
      | cons next below => exact (typed.fronts (by rw [eq, List.append_assoc]; rfl)).1
    have first : readProgram (p.entry (.ofList (trimEnd line))) = .error .incomplete := by
      rw [entry]
      simpa using front [] lines rfl
    have some : trimEnd line ≠ [] := by
      intro nothing
      have visible := Text.trim_trimEnd_ne_nil typed.shown
      rw [nothing] at visible
      exact visible rfl
    obtain ⟨q, waits, pending, last, session⟩ := @waits_for_lines
      { p.behindLine _ with pending := p.entry (.ofList (trimEnd line)) } _ rounds files showTree
      (trimEnd line) lines (whole.behind _ _)
      (fun l member => others l (List.mem_append_left _ member)) entry some
      fun above next below eq => front (above ++ [next]) below (by rw [eq, List.append_assoc]; rfl)
    have visible : page (trimEnd line) (lines.map trimEnd) ≠ [] := by simp [page, some]
    have going := pending_ne pending visible
    have rest : q.session.console.Whole (bytes final ++ tail) := by
      rw [session]
      exact (whole.behind _ _).behind _ _
    refine ⟨q, final, ?_, ?_, ?_, ?_, ?_, last, (absurd · going), ?_, ?_⟩
    · rw [List.length_append, List.length_singleton]
      exact .after (step_incomplete whole fed (fun _ => plain) first) waits
    · rw [rest.unread]
      exact rest
    · have some : page final [] ≠ [] := (typed.fronts rfl).2
      rw [rest.unread]
      exact fed_last (others final (by simp)) (by simpa using some) ending
    · rw [session]
      rfl
    · rw [session]
      rfl
    · rw [entry_later pending visible]
      simp [page]
    · rw [session, show q.mark = ". " from if_neg going, List.length_append, List.length_singleton,
        ← prompts_concat]
      simp [behindLine, Console.behind, Console.wrote, mark, String.append_assoc]

theorem run_typed (typed : Typed source line more)
    (whole : p.session.console.Whole (bytes source.toList ++ tail))
    (ending : tail = [] ∨ tail = [10]) (none : p.pending = "") {items : List Statement}
    (read : readProgram source = .ok items) {outcome : Outcome (List Value)} {globals : Frame}
    {calls : List Frame} {out : String}
    (answer : ∀ d : Console, d.broken = false → Session.evaluate rounds source false p.last
      ⟨p.session.globals, p.session.calls, d⟩ = (outcome, ⟨globals, calls, d.wrote out⟩))
    (steps : Nat) :
    let final := p.run rounds files showTree (more.length + (steps + 2))
    final.session.globals = globals ∧
      final.session.console.written =
        p.session.console.written ++ "> " ++ prompts more.length ++ out ++ closing outcome ∧
      ∃ d : Console, d.broken = false ∧
        p.runEvents rounds files showTree (more.length + (steps + 2)) =
          Session.events (.evaluate rounds source false p.last)
            ⟨p.session.globals, p.session.calls, d⟩ := by
  intro final
  have nonblank : Text.trim source.toList ≠ [] := by
    rw [typed.text]
    exact Text.trim_page_ne_nil typed.shown more
  have nonblank' :
      Text.trim (String.ofList (page (trimEnd line) (more.map trimEnd))).toList ≠ [] := by
    rw [String.toList_ofList]
    exact Text.trim_page_ne_nil (Text.trim_trimEnd_ne_nil typed.shown) _
  have same (d : Console) := @Session.evaluate_congr _ _ ⟨p.session.globals, p.session.calls, d⟩
    rounds false p.last typed.whole nonblank' nonblank
  obtain ⟨q, last, waits, ready⟩ := @waits_for_last p line rounds files showTree source more tail
    typed whole ending none
  obtain ⟨ran, evaluated⟩ := waits (steps + 2)
  have here : (q.behindLine []).session =
      ⟨p.session.globals, p.session.calls, q.session.console.behind q.mark []⟩ := by
    rw [← ready.globals, ← ready.calls]
    rfl
  have works : (q.session.console.behind q.mark []).broken = false := ready.whole.works
  have program : readProgram (q.entry (.ofList (trimEnd last))) = .ok items := by
    rw [ready.entry, typed.whole, read]
  have answered : (q.behindLine []).session.evaluate rounds (q.entry (.ofList (trimEnd last))) false
      q.last = (outcome, ⟨globals, calls, (q.behindLine []).session.console.wrote out⟩) := by
    rw [here, ready.entry, ready.last, (same _).1]
    exact answer _ works
  obtain ⟨bound, told, events⟩ := run_last ready.whole ready.fed ready.plain program answered steps
  rw [ready.entry, ready.last, here, (same _).2] at events
  rw [ready.written] at told
  rw [← ran] at bound told
  exact ⟨bound, told, q.session.console.behind q.mark [], works, evaluated.trans events⟩

end

-- No text has fewer bytes than lines.
theorem exists_steps {source : String} {line : List Char} {more : List (List Char)}
    (typed : Typed source line more) (tail : List UInt8) :
    ∃ steps, (bytes source.toList ++ tail).length + 1 = more.length + (steps + 2) := by
  have some : line ≠ [] := by
    rintro rfl
    exact typed.shown rfl
  have size := Text.length_le_bytes source.toList
  have lines := length_page line more
  have positive := List.length_pos_iff.mpr some
  rw [← typed.text] at lines
  simp only [List.length_append]
  exact ⟨(bytes source.toList).length + tail.length - more.length - 1, by omega⟩

theorem start_eq (input : List UInt8) : Prompt.start (.ofInput input) =
    ⟨⟨.initial, [], (Console.ofInput input).wrote greeting⟩, "", none, ""⟩ :=
  write_wrote (p := ⟨.ofConsole (.ofInput input), "", none, ""⟩) rfl greeting

/-- A program that is fed line by line, none of whose fronts that end at a line break is a program:
nothing is evaluated before its last line, and then all of it is, once, as it would be on its own.
-/
theorem program_evaluated_whole {source : String} {items : List Statement}
    (read : readProgram source = .ok items)
    (begun : Text.trim (source.toList.takeWhile (· ≠ '\n')) ≠ [])
    (unfinished : ∀ before rest, before ≠ [] → source.toList = before ++ '\n' :: rest →
      (∀ items, readProgram (.ofList before) ≠ .ok items) ∧
        ∀ pos, readProgram (.ofList before) ≠ .error (.located pos .nestedTooDeeply))
    (flat : ∀ ts, tokens source = .ok ts → ∀ t ∈ ts, Scan.OneLine t) (rounds : Nat) (files : Files)
    (showTree : Bool) {c : Console} (works : c.broken = false)
    (unasked : Unasked ((Session.ofConsole c).events (.evaluate rounds source false none)))
    {input : List UInt8} (fed : input = source.toUTF8.data.toList ∨
      input = (source ++ "\n").toUTF8.data.toList) :
    let fresh := (Session.ofConsole c).evaluate rounds source false none
    let start := Prompt.start (.ofInput input)
    let final := start.run rounds files showTree (input.length + 1)
    (start.runEvents rounds files showTree (input.length + 1)).map (·.act) =
        ((Session.ofConsole c).events (.evaluate rounds source false none)).map (·.act) ∧
      final.session.globals = fresh.2.globals ∧
      ∃ out, fresh.2.console = c.wrote out ∧
        final.session.console.written = greeting ++ "> " ++ prompts (source.toList.count '\n') ++
          out ++ closing fresh.1 := by
  intro fresh start final
  obtain ⟨line, more, typed⟩ := exists_typed read begun unfinished flat
  obtain ⟨outcome, globals, calls, out, alone, alike⟩ :=
    Session.evaluate_unasked rounds source false none works unasked
  obtain ⟨tail, ending, rfl⟩ : ∃ tail : List UInt8, (tail = [] ∨ tail = [10]) ∧
      input = bytes source.toList ++ tail := by
    rcases fed with rfl | rfl
    · exact ⟨[], .inl rfl, by rw [← Text.bytes_toList, List.append_nil]⟩
    · refine ⟨[10], .inr rfl, ?_⟩
      rw [← Text.bytes_toList, String.toList_append, Text.bytes_append]
      rfl
  obtain ⟨steps, enough⟩ := exists_steps typed tail
  have opened : start = _ := start_eq _
  have whole : start.session.console.Whole (bytes source.toList ++ tail) := by
    rw [opened]
    exact ⟨rfl, rfl, rfl⟩
  obtain ⟨bindings, written, d, works', evaluated⟩ := @run_typed start line rounds files showTree
    source more tail typed whole ending (by rw [opened]) items read outcome globals calls out
    (fun d works' => by rw [opened]; exact (alike d works').1) steps
  have answer : fresh = (outcome, ⟨globals, calls, c.wrote out⟩) := alone
  simp only [final, enough, bindings, written, evaluated, answer]
  refine ⟨?_, trivial, out, rfl, ?_⟩
  · rw [opened]
    exact (alike d works').2
  · rw [opened, ← typed.feeds]
    rfl

-- To know what holds of all fronts of a text that end at a line break, they can be tried out.
theorem forall_front {cs : List Char} {P : List Char → Prop}
    (tried : ∀ n < cs.length, (cs.drop n).head? = some '\n' → P (cs.take n)) :
    ∀ before rest, cs = before ++ '\n' :: rest → P before := by
  rintro before rest rfl
  have front := tried before.length (by simp) (by simp)
  rwa [List.take_left] at front

theorem program_evaluated_whole_block :
    let source := "if 1 \x7b \n  print(\"a\") # \t\n\n\x7d"
    let c : Console := ⟨[52, 10], false, "b\n", false⟩
    let input := (source ++ "\n").toUTF8.data.toList
    let start := Prompt.start (.ofInput input)
    let final := start.run 9 (fun _ => .error .notFound) true (input.length + 1)
    (start.runEvents 9 (fun _ => .error .notFound) true (input.length + 1)).map (·.act) =
        ((Session.ofConsole c).events (.evaluate 9 source false none)).map (·.act) ∧
      final.session.globals = ((Session.ofConsole c).evaluate 9 source false none).2.globals ∧
      final.session.console.written = greeting ++ "> . . . a\n> \n" := by
  intro source c input start final
  have accepted : (readProgram source).isOk = true := by decide +kernel
  have begun : Text.trim (source.toList.takeWhile (· ≠ '\n')) ≠ [] := by decide +kernel
  have fronts : ∀ n < source.toList.length, (source.toList.drop n).head? = some '\n' →
      (readProgram (.ofList (source.toList.take n))).map (fun _ => ()) = .error .incomplete := by
    decide +kernel
  have flat : (tokens source).toOption.all (fun ts => ts.all fun t =>
      decide (t.kind = .string → '\n' ∉ t.lexeme.toList)) = true := by
    decide +kernel
  have unasked : ((Session.ofConsole c).events (.evaluate 9 source false none)).all
      (fun ev => !ev.act.asks) = true := by
    decide +kernel
  have written : ((Session.ofConsole c).evaluate 9 source false none).2.console.written =
      "b\n" ++ "a\n" := by
    decide +kernel
  have closed : closing ((Session.ofConsole c).evaluate 9 source false none).1 = "> \n" := by
    decide +kernel
  obtain ⟨items, read⟩ : ∃ items, readProgram source = .ok items := by
    cases read : readProgram source with
    | ok items => exact ⟨items, rfl⟩
    | error e =>
      rw [read] at accepted
      cases accepted
  have unfinished (before rest : List Char) (_ : before ≠ [])
      (eq : source.toList = before ++ '\n' :: rest) :
      (∀ items, readProgram (.ofList before) ≠ .ok items) ∧
        ∀ pos, readProgram (.ofList before) ≠ .error (.located pos .nestedTooDeeply) := by
    have front : (readProgram (.ofList before)).map (fun _ => ()) = .error .incomplete :=
      forall_front (P := fun before =>
        (readProgram (.ofList before)).map (fun _ => ()) = .error .incomplete) fronts before rest eq
    constructor
    all_goals
      intro _ found
      rw [found] at front
      cases front
  have single (ts : List Token) (found : tokens source = .ok ts) (t : Token) (member : t ∈ ts) :
      Scan.OneLine t := by
    rw [found] at flat
    exact of_decide_eq_true (p := t.kind = .string → '\n' ∉ t.lexeme.toList)
      (List.all_eq_true.mp flat t member)
  obtain ⟨acts, bindings, out, console, told⟩ :=
    program_evaluated_whole read begun unfinished single
    9 (fun _ => .error .notFound) true rfl
    (fun ev member => by simpa using List.all_eq_true.mp unasked ev member) (.inr rfl)
  refine ⟨acts, bindings, ?_⟩
  rw [console] at written
  obtain rfl : out = "a\n" := String.append_right_inj _ |>.mp written
  rw [told, closed]
  decide +kernel

theorem string_over_lines_refused :
    let source := "print(\"a\nb\")"
    let s := Session.ofConsole (.ofInput [])
    let input := source.toUTF8.data.toList
    let start := Prompt.start (.ofInput input)
    let final := start.run 9 (fun _ => .error .notFound) false (input.length + 1)
    (readProgram source).isOk = true ∧
      Text.trim (source.toList.takeWhile (· ≠ '\n')) ≠ [] ∧
      Unasked (s.events (.evaluate 9 source false none)) ∧
      (∀ before rest, source.toList = before ++ '\n' :: rest →
        (readProgram (.ofList before)).isOk = false) ∧
      (s.evaluate 9 source false none).2.console.written = "a\nb\n" ∧
      final.session.console.written = greeting ++ "> > > \n" ∧
      start.runEvents 9 (fun _ => .error .notFound) false (input.length + 1) = [] := by
  intro source s input start final
  have unasked : (s.events (.evaluate 9 source false none)).all
      (fun ev => !ev.act.asks) = true := by
    decide +kernel
  have fronts : ∀ n < source.toList.length, (source.toList.drop n).head? = some '\n' →
      (readProgram (.ofList (source.toList.take n))).isOk = false := by
    decide +kernel
  have nothing : (start.runEvents 9 (fun _ => .error .notFound) false
      (input.length + 1)).isEmpty = true := by
    decide +kernel
  refine ⟨by decide +kernel, by decide +kernel, ?_, forall_front fronts, by decide +kernel,
    by decide +kernel, List.isEmpty_iff.mp nothing⟩
  exact fun ev member => by simpa using List.all_eq_true.mp unasked ev member

end Prompt

end CalcScript
