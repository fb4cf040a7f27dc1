import CalcScript.Proofs.Entries
import CalcScript.Proofs.InputOrder

set_option autoImplicit false

namespace CalcScript

def Outcome.lastValue? : Outcome (List Value) → Option Value
  | .value values => values.getLast?
  | _ => none

namespace Session

def SameBindings (s t : Session) : Prop := s.globals = t.globals ∧ s.calls = t.calls

namespace SameBindings

variable {s t u : Session}

theorem refl (s : Session) : s.SameBindings s := ⟨rfl, rfl⟩

theorem trans (first : s.SameBindings t) (later : t.SameBindings u) : s.SameBindings u :=
  ⟨first.1.trans later.1, first.2.trans later.2⟩

end SameBindings

theorem print_same (text : String) (s : Session) :
    (s.print text).2.SameBindings s ∧ (s.print text).2.console.source = s.console.source := by
  simp only [print, run, Eval.write]
  rcases s.console.write?_cases text with ⟨fails, -⟩ | ⟨written, -⟩
  · rw [fails]
    exact ⟨.refl s, rfl⟩
  · rw [written]
    exact ⟨⟨rfl, rfl⟩, rfl⟩

theorem readProgram_of_refused {s : Session} {rounds : Nat} {source : String} {clearFirst : Bool}
    {last : Option Value} {e : SyntaxError}
    (failed : (s.evaluate rounds source clearFirst last).1 = .error (.source e)) :
    readProgram source = .error e := by
  cases read : readProgram source with
  | ok items => exact absurd failed (evaluate_ne_source read e)
  | error e' =>
    unfold evaluate at failed
    split at failed
    · cases failed
    · rw [read] at failed
      cases failed
      rfl

theorem evaluate_eq_incomplete {s : Session} {rounds : Nat} {source : String} {clearFirst : Bool}
    {last : Option Value} :
    (s.evaluate rounds source clearFirst last).1 = .error (.source .incomplete) ↔
      readProgram source = .error .incomplete := by
  constructor
  · exact readProgram_of_refused
  · intro unfinished
    rw [(evaluate_incomplete unfinished).1]

end Session

namespace Prompt

variable {rounds : Nat} {files : Files} {showTree : Bool}

theorem write_same (text : String) (p : Prompt) :
    (p.write text).session.SameBindings p.session ∧
      (p.write text).session.console.source = p.session.console.source :=
  p.session.print_same text

theorem readLine_same (p : Prompt) : p.readLine.2.session.SameBindings p.session :=
  (p.write_same p.mark).1

theorem accepted_same (source : String) (values : List Value) (showTree : Bool) (p : Prompt) :
    (accepted source values showTree p).session.SameBindings p.session ∧
      (accepted source values showTree p).session.console.source = p.session.console.source := by
  simp only [accepted]
  cases showTree <;> split <;>
    first
    | exact ⟨.refl _, rfl⟩
    | exact write_same _ _

theorem accepted_last (source : String) (values : List Value) (showTree : Bool) (p : Prompt) :
    (accepted source values showTree p).last = values.getLast?.or p.last := by
  simp only [accepted]
  cases showTree <;> split <;> rfl

def request (rounds : Nat) (files : Files) (line : String) (p : Prompt) : Request :=
  if p.pending = "" ∧ isCommand line then .command rounds files line
  else .evaluate rounds (p.entry line) false p.last

def answer (rounds : Nat) (files : Files) (line : String) (p : Prompt) : Outcome Unit × Session :=
  p.readLine.2.session.perform (p.request rounds files line)

section

variable {p q : Prompt} {line : String}

theorem request_command (none : p.pending = "") (command : isCommand line = true) :
    p.request rounds files line = .command rounds files line :=
  if_pos ⟨none, command⟩

theorem request_plain (plain : p.pending = "" → isCommand line = false) :
    p.request rounds files line = .evaluate rounds (p.entry line) false p.last := by
  refine if_neg ?_
  rintro ⟨none, command⟩
  rw [plain none] at command
  cases command

theorem plain_of_not (other : ¬(p.pending = "" ∧ isCommand line = true)) :
    p.pending = "" → isCommand line = false := fun none => by
  simpa [none] using other

theorem enter_command (none : p.pending = "") (command : isCommand line = true) :
    p.readLine.2.enter rounds files showTree line =
      match p.readLine.2.session.perform (.command rounds files line) with
      | (.value (), session) => (.going, { p with session })
      | (.error e, session) => (.going, refused line e { p with session })
      | (.exhausted, session) => (.exhausted, { p with session }) :=
  if_pos ⟨none, command⟩

theorem enter_plain (plain : p.pending = "" → isCommand line = false) :
    p.readLine.2.enter rounds files showTree line =
      p.readLine.2.entered showTree (p.entry line)
        (p.readLine.2.session.evaluate rounds (p.entry line) false p.last) := by
  refine if_neg ?_
  rintro ⟨none, command⟩
  rw [plain none] at command
  cases command

def Status.ofAnswer : Outcome Unit → Status
  | .exhausted => .exhausted
  | _ => .going

theorem entered_session (source : String) (outcome : Outcome (List Value)) (session : Session) :
    (p.entered showTree source (outcome, session)).1 =
        .ofAnswer (outcome.map fun _ => ()) ∧
      (p.entered showTree source (outcome, session)).2.session.SameBindings session ∧
      (p.entered showTree source (outcome, session)).2.session.console.source =
        session.console.source := by
  cases outcome with
  | value values =>
    exact ⟨rfl, accepted_same source values showTree { p with session }⟩
  | error e =>
    by_cases unfinished : e = .source .incomplete
    · subst unfinished
      exact ⟨rfl, .refl _, rfl⟩
    · rw [entered_error unfinished]
      exact ⟨rfl, .refl _, rfl⟩
  | exhausted => exact ⟨rfl, .refl _, rfl⟩

theorem step_eq_enter (heard : p.readLine.1 = .text line) :
    p.step rounds files showTree = p.readLine.2.enter rounds files showTree line := by
  unfold step
  split <;> simp_all

theorem step_other (other : ∀ line, p.readLine.1 ≠ .text line) :
    p.step rounds files showTree = (.exhausted, p.readLine.2) ∨
      p.step rounds files showTree = (.closed, p.readLine.2.write "\n") := by
  unfold step
  split
  · next line q read => exact absurd (by rw [read]) (other line)
  · next q read => exact .inl (by rw [read])
  · next line q _ _ read => exact .inr (by rw [read])

theorem step_text (heard : p.readLine.1 = .text line) :
    (p.step rounds files showTree).1 = .ofAnswer (p.answer rounds files line).1 ∧
      (p.step rounds files showTree).2.session.SameBindings (p.answer rounds files line).2 ∧
      (p.step rounds files showTree).2.session.console.source =
        (p.answer rounds files line).2.console.source := by
  rw [step_eq_enter heard, answer]
  by_cases command : p.pending = "" ∧ isCommand line = true
  · rw [request_command command.1 command.2, enter_command command.1 command.2]
    rcases p.readLine.2.session.perform (.command rounds files line) with ⟨⟨⟩ | e | _, session⟩
    all_goals exact ⟨rfl, .refl _, rfl⟩
  · have plain := plain_of_not command
    rw [request_plain plain, enter_plain plain]
    simp only [Session.perform, Session.ended]
    rcases p.readLine.2.session.evaluate rounds (p.entry line) false p.last with ⟨outcome, session⟩
    exact entered_session _ outcome session

def value (rounds : Nat) (line : String) (p : Prompt) : Outcome (List Value) :=
  (p.readLine.2.session.evaluate rounds (p.entry line) false p.last).1

inductive Reply (rounds : Nat) (p : Prompt) (line : String) (q : Prompt) : Prop
  | command (none : p.pending = "") (command : isCommand line = true) (pending : q.pending = "")
      (last : q.last = p.last)
  | kept (plain : p.pending = "" → isCommand line = false)
      (unfinished : readProgram (p.entry line) = .error .incomplete)
      (pending : q.pending = p.entry line) (last : q.last = p.last)
  | evaluated (plain : p.pending = "" → isCommand line = false)
      (whole : readProgram (p.entry line) ≠ .error .incomplete) (pending : q.pending = "")
      (last : q.last = (p.value rounds line).lastValue?.or p.last)

theorem reply_of_command (none : p.pending = "") (command : isCommand line = true)
    (going : p.readLine.2.enter rounds files showTree line = (.going, q)) :
    Reply rounds p line q := by
  rw [enter_command none command] at going
  rcases answer : p.readLine.2.session.perform (.command rounds files line) with
    ⟨⟨⟩ | e | _, session⟩
  all_goals
    rw [answer] at going
    cases going
  · exact .command none command none rfl
  · exact .command none command rfl rfl

theorem reply_of_plain (plain : p.pending = "" → isCommand line = false)
    (going : p.readLine.2.enter rounds files showTree line = (.going, q)) :
    Reply rounds p line q := by
  rw [enter_plain plain] at going
  have unfinished := @Session.evaluate_eq_incomplete p.readLine.2.session rounds (p.entry line)
    false p.last
  have value : p.value rounds line =
    (p.readLine.2.session.evaluate rounds (p.entry line) false p.last).1 := rfl
  rcases answer : p.readLine.2.session.evaluate rounds (p.entry line) false p.last with
    ⟨values | e | _, session⟩
  all_goals
    rw [answer] at going unfinished value
  · cases going
    refine .evaluated plain (fun incomplete => nomatch unfinished.mpr incomplete) rfl ?_
    rw [accepted_last, value]
    rfl
  · by_cases incomplete : e = .source .incomplete
    · subst incomplete
      cases going
      exact .kept plain (unfinished.mp rfl) rfl rfl
    · rw [entered_error incomplete] at going
      cases going
      refine .evaluated plain ?_ rfl ?_
      · exact fun read => incomplete (by simpa using unfinished.mpr read)
      · rw [value]
        rfl
  · cases going

theorem step_going (going : p.step rounds files showTree = (.going, q)) :
    ∃ line, p.readLine.1 = .text line ∧ Reply rounds p line q := by
  cases heard : p.readLine.1 with
  | text line =>
    refine ⟨line, rfl, ?_⟩
    rw [step_eq_enter heard] at going
    by_cases command : p.pending = "" ∧ isCommand line = true
    · exact reply_of_command command.1 command.2 going
    · exact reply_of_plain (plain_of_not command) going
  | invalid | noMore | notYet =>
    have other (line : String) : p.readLine.1 ≠ .text line := by simp [heard]
    rcases @step_other rounds files showTree p other with stops | stops
    all_goals
      rw [stops] at going
      cases going

theorem events_text (heard : p.readLine.1 = .text line) :
    p.events rounds files = p.readLine.2.session.events (p.request rounds files line) := by
  have pending : p.readLine.2.pending = p.pending := rfl
  have last : p.readLine.2.last = p.last := rfl
  unfold events request
  split
  · next line' r read =>
    obtain rfl : line' = line := by simpa [read] using heard
    obtain rfl : r = p.readLine.2 := by rw [read]
    rw [pending, last]
    split <;> rfl
  · next other => exact (other line p.readLine.2 (Prod.ext heard rfl)).elim

end

variable (rounds files showTree)

def visits : Nat → Prompt → List Prompt
  | 0, _ => []
  | steps + 1, p => p ::
    match p.step rounds files showTree with
    | (.going, q) => visits steps q
    | _ => []

inductive Reached (p : Prompt) : List Prompt → Prompt → Prop
  | start : Reached p [] p
  | next {before : List Prompt} {q r : Prompt} (earlier : Reached p before q)
      (going : q.step rounds files showTree = (.going, r)) : Reached p (before ++ [q]) r

variable {rounds files showTree}

section

variable {p q r : Prompt} {before later : List Prompt}

theorem Reached.behind (going : p.step rounds files showTree = (.going, q))
    (reached : Reached rounds files showTree q before r) :
    Reached rounds files showTree p (p :: before) r := by
  induction reached with
  | start => exact .next .start going
  | next _ onward ih => exact .next ih onward

theorem visits_going (going : p.step rounds files showTree = (.going, q)) (steps : Nat) :
    p.visits rounds files showTree (steps + 1) = p :: q.visits rounds files showTree steps := by
  rw [visits, going]

theorem visits_stop (stop : (p.step rounds files showTree).1 ≠ .going) (steps : Nat) :
    p.visits rounds files showTree (steps + 1) = [p] := by
  unfold visits
  split
  · next q going => exact absurd (by rw [going]) stop
  · rfl

theorem reached_of_visits {steps : Nat}
    (split : p.visits rounds files showTree steps = before ++ q :: later) :
    Reached rounds files showTree p before q := by
  induction steps generalizing p before with
  | zero => simp [visits] at split
  | succ steps ih =>
    by_cases going : (p.step rounds files showTree).1 = .going
    · have onward : p.step rounds files showTree = (.going, _) := Prod.ext going rfl
      rw [visits_going onward] at split
      rcases before with _ | ⟨first, before⟩
      · cases split
        exact .start
      · obtain ⟨rfl, onward'⟩ := List.cons.inj split
        exact .behind onward (ih onward')
    · rw [visits_stop going] at split
      rcases before with _ | ⟨first, before⟩
      · cases split
        exact .start
      · simp at split

theorem visits_last (steps : Nat) (p : Prompt) :
    ∃ before q, p.visits rounds files showTree (steps + 1) = before ++ [q] ∧
      p.run rounds files showTree (steps + 1) = (q.step rounds files showTree).2 ∧
      p.runEvents rounds files showTree (steps + 1) =
        (before ++ [q]).flatMap (events rounds files) ∧
      ((q.step rounds files showTree).1 = .going → before.length = steps) := by
  induction steps generalizing p with
  | zero =>
    by_cases going : (p.step rounds files showTree).1 = .going
    · have onward : Steps rounds files showTree p .going _ _ := ⟨Prod.ext going rfl, rfl⟩
      obtain ⟨ran, evaluated⟩ := onward.run_going 0
      refine ⟨[], p, visits_going onward.1 0, ran, ?_, fun _ => rfl⟩
      rw [evaluated]
      rfl
    · obtain ⟨ran, evaluated⟩ := Steps.run_stops ⟨rfl, rfl⟩ going 0
      exact ⟨[], p, visits_stop going 0, ran, by simpa using evaluated, fun _ => rfl⟩
  | succ steps ih =>
    by_cases going : (p.step rounds files showTree).1 = .going
    · have onward : Steps rounds files showTree p .going _ _ := ⟨Prod.ext going rfl, rfl⟩
      obtain ⟨before, q, visited, ran, evaluated, length⟩ := ih (p.step rounds files showTree).2
      obtain ⟨first, own⟩ := onward.run_going (steps + 1)
      refine ⟨p :: before, q, ?_, first.trans ran, ?_, fun goes => ?_⟩
      · rw [visits_going onward.1, visited]
        rfl
      · rw [own, evaluated]
        rfl
      · rw [List.length_cons, length goes]
    · obtain ⟨ran, evaluated⟩ := Steps.run_stops ⟨rfl, rfl⟩ going (steps + 1)
      exact ⟨[], p, visits_stop going _, ran, by simpa using evaluated,
        fun goes => absurd goes going⟩

end

end Prompt

end CalcScript
