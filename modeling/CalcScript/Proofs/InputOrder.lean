import CalcScript.Proofs.InputFlow
import CalcScript.Proofs.InputLines
import Mathlib.Data.List.TakeWhile

set_option autoImplicit false

namespace CalcScript

namespace Text

inductive Lines : List (List UInt8) → Prop
  | nil : Lines []
  | line {line : List UInt8} {lines : List (List UInt8)} (single : 10 ∉ line)
      (later : Lines lines) : Lines ((line ++ [10]) :: lines)
  | last {line : List UInt8} (single : 10 ∉ line) (some : line ≠ []) : Lines [line]

theorem exists_lines (bs : List UInt8) : ∃ lines, Lines lines ∧ lines.flatten = bs := by
  induction size : bs.length using Nat.strongRecOn generalizing bs with
  | ind n ih =>
    by_cases feed : 10 ∈ bs
    · obtain ⟨line, rest, rfl, single⟩ := List.eq_append_cons_of_mem feed
      have shorter : rest.length < n := by
        simp only [List.length_append, List.length_cons] at size
        omega
      obtain ⟨lines, later, rfl⟩ := ih _ shorter rest rfl
      exact ⟨(line ++ [10]) :: lines, .line single later, by simp⟩
    · by_cases some : bs = []
      · exact ⟨[], .nil, some.symm⟩
      · exact ⟨[bs], .last feed some, by simp⟩

namespace Lines

variable {line : List UInt8} {lines : List (List UInt8)}

theorem tail (h : Lines (line :: lines)) : Lines lines := by
  cases h with
  | line single later => exact later
  | last single some => exact .nil

theorem drop (h : Lines lines) (n : Nat) : Lines (lines.drop n) := by
  induction n generalizing lines with
  | zero => exact h
  | succ n ih =>
    cases lines with
    | nil => exact h
    | cons line lines => exact ih h.tail

theorem ne_nil (h : Lines (line :: lines)) : line ≠ [] := by
  cases h with
  | line single later => simp
  | last single some => exact some

theorem takeLine (h : Lines (line :: lines)) :
    Text.takeLine (line :: lines).flatten = (line, lines.flatten) := by
  cases h with
  | line single later =>
    rw [List.flatten_cons, List.append_assoc]
    exact takeLine_feed single _
  | last single some =>
    rw [List.flatten_cons, List.flatten_nil, List.append_nil]
    exact takeLine_last single

end Lines

theorem ofUtf8?_eq_some {bs : List UInt8} {s : String} :
    ofUtf8? bs = some s ↔ bytes s.toList = bs := by
  constructor
  · intro found
    rw [ofUtf8?, String.fromUTF8?] at found
    split at found
    · cases found
      rw [bytes_toList]
      rfl
    · cases found
  · rintro rfl
    rw [ofUtf8?_bytes, String.ofList_toList]

theorem dropLineEnd_eq (s : String) : ∃ kept ends, s.toList = kept ++ ends ∧
    (∀ c ∈ ends, c = '\n' ∨ c = '\r') ∧ (∀ c ∈ kept.getLast?, c ≠ '\n' ∧ c ≠ '\r') ∧
      dropLineEnd s = .ofList kept := by
  let ending (c : Char) : Bool := c = '\n' || c = '\r'
  refine ⟨(s.toList.reverse.dropWhile ending).reverse, (s.toList.reverse.takeWhile ending).reverse,
    ?_, ?_, ?_, rfl⟩
  · rw [← List.reverse_append, List.takeWhile_append_dropWhile, List.reverse_reverse]
  · intro c member
    have holds := List.mem_takeWhile_imp (List.mem_reverse.mp member)
    simpa [ending] using holds
  · intro c last
    rw [List.getLast?_reverse] at last
    have fails := List.head?_dropWhile_not ending s.toList.reverse
    rw [last] at fails
    simpa [ending] using fails

end Text

open Text (Lines bytes)

inductive Understood (kind : InputKind) (pos : Position) :
    List UInt8 → Except Interrupt Value → Prop
  | text {kept ends : List Char} (ending : ∀ c ∈ ends, c = '\n' ∨ c = '\r')
      (whole : ∀ c ∈ kept.getLast?, c ≠ '\n' ∧ c ≠ '\r') :
      Understood kind pos (bytes (kept ++ ends))
        ((Builtin.ofLine kind (.ofList kept) pos).mapError .error)
  | invalid {line : List UInt8} (noText : ∀ cs, bytes cs ≠ line) :
      Understood kind pos line (.error (.error (.io .invalidText)))

/-- What a call of a function that reads comes to where these lines are left, and which of them it
leaves. -/
inductive Asked (kind : InputKind) (prompt : Value) (pos : Position) (s : Session) :
    List (List UInt8) → List (List UInt8) → Except Interrupt Value → Session → Prop
  | unwritten {lines : List (List UInt8)} (broken : s.console.broken = true)
      (some : prompt.text ≠ "") :
      Asked kind prompt pos s lines lines (.error (.error (.io .brokenPipe))) s
  | taken {line : List UInt8} {rest : List (List UInt8)} {result : Except Interrupt Value}
      (works : s.console.broken = false ∨ prompt.text = "")
      (understood : Understood kind pos line result) :
      Asked kind prompt pos s (line :: rest) rest result
        { s with console := { s.console.wrote prompt.text with unread := rest.flatten } }
  | nothing (works : s.console.broken = false ∨ prompt.text = "") :
      Asked kind prompt pos s [] [] (.error (.error (.io .endOfInput)))
        { s with console := s.console.wrote prompt.text }

section

variable {kind : InputKind} {pos : Position} {line : List UInt8}

theorem Understood.ofText {text : String} (found : Text.ofUtf8? line = some text) :
    Understood kind pos line
      ((Builtin.ofLine kind (Text.dropLineEnd text) pos).mapError .error) := by
  obtain ⟨kept, ends, whole, ending, last, dropped⟩ := Text.dropLineEnd_eq text
  rw [← Text.ofUtf8?_eq_some.mp found, whole, dropped]
  exact .text ending last

theorem Understood.ofNone (none : Text.ofUtf8? line = none) :
    Understood kind pos line (.error (.error (.io .invalidText))) := by
  refine .invalid fun cs same => ?_
  rw [← same, Text.ofUtf8?_bytes] at none
  cases none

end

theorem Console.readLine_lines {c : Console} {line : List UInt8} {rest : List (List UInt8)}
    (whole : Lines (line :: rest)) (here : c.source = ((line :: rest).flatten, true)) :
    c.readLine = ((match Text.ofUtf8? line with
      | some text => .text (Text.dropLineEnd text)
      | none => .invalid), { c with unread := rest.flatten }) := by
  obtain ⟨unread, ended⟩ := Prod.mk.injEq .. ▸ here
  have some : c.unread ≠ [] := by
    rw [unread, List.flatten_cons]
    exact List.append_ne_nil_of_left_ne_nil whole.ne_nil _
  rw [readLine, if_neg some, unread, whole.takeLine, ended]
  rfl

theorem Eval.ofExcept_apply {α : Type} (r : Except Error α) (s : Session) :
    Eval.ofExcept r s = (r.mapError .error, s) := by
  cases r <;> rfl

theorem Builtin.input_asked {s : Session} {lines : List (List UInt8)} (whole : Lines lines)
    (here : s.console.source = (lines.flatten, true)) (kind : InputKind) (prompt : Value)
    (pos : Position) : ∃ next,
      Asked kind prompt pos s lines next ((Builtin.input kind).call [prompt] pos s).1
        ((Builtin.input kind).call [prompt] pos s).2 ∧
      ((Builtin.input kind).call [prompt] pos s).2.console.source = (next.flatten, true) := by
  simp only [call, Eval.bind_apply, Eval.write]
  rcases s.console.write?_cases prompt.text with ⟨fails, broken, some⟩ | ⟨written, works⟩
  · rw [fails]
    exact ⟨lines, .unwritten broken some, here⟩
  · rw [written]
    have left : (s.console.wrote prompt.text).source = (lines.flatten, true) := here
    cases lines with
    | nil =>
      obtain ⟨unread, ended⟩ := Prod.mk.injEq .. ▸ left
      simp only [Eval.readLine, Console.readLine_end ended unread]
      exact ⟨[], .nothing works, left⟩
    | cons line rest =>
      have ended : s.console.ended = true := congrArg Prod.snd here
      simp only [Eval.readLine, Console.readLine_lines whole left]
      refine ⟨rest, ?_⟩
      cases found : Text.ofUtf8? line with
      | some text =>
        simp only [Eval.ofExcept_apply]
        exact ⟨.taken works (.ofText found), congrArg (Prod.mk rest.flatten) ended⟩
      | none => exact ⟨.taken works (.ofNone found), congrArg (Prod.mk rest.flatten) ended⟩

def Event.takesLine (ev : Event) : Bool := ev.sourceAfter.1 != ev.session.console.unread

structure Delivered (lines : List (List UInt8)) (events : List Event) (unread : List UInt8) :
    Prop where
  left : unread = (lines.drop (events.countP (·.takesLine))).flatten
  found {before later : List Event} {ev : Event} (passed : events = before ++ ev :: later) :
    ev.session.console.unread = (lines.drop (before.countP (·.takesLine))).flatten
  taken {ev : Event} (member : ev ∈ events) (takes : ev.takesLine = true) :
    ∃ kind args pos, ev.act = .call (.builtin (.input kind)) args pos
  asked {before later : List Event} {ev : Event} {kind : InputKind} {args : List Value}
      {pos : Position} (passed : events = before ++ ev :: later)
      (call : ev.act = .call (.builtin (.input kind)) args pos) :
    ∃ prompt, args = [prompt] ∧ ∀ rounds, Asked kind prompt pos ev.session
      (lines.drop (before.countP (·.takesLine)))
      (lines.drop ((before ++ [ev]).countP (·.takesLine))) (ev.result rounds) (ev.after rounds)

theorem Asked.next_eq {kind : InputKind} {prompt : Value} {pos : Position} {s t : Session}
    {lines next : List (List UInt8)} {result : Except Interrupt Value}
    (asked : Asked kind prompt pos s lines next result t) (whole : Lines lines)
    (here : s.console.unread = lines.flatten) :
    next = lines.drop (if t.console.unread != s.console.unread then 1 else 0) := by
  cases asked with
  | unwritten broken some => simp
  | taken works understood => simp [here, whole.ne_nil]
  | nothing works => simp

theorem Event.source_kept {ev : Event}
    (other : ∀ kind args pos, ev.act ≠ .call (.builtin (.input kind)) args pos) :
    ev.sourceAfter = ev.session.console.source := by
  unfold sourceAfter
  split
  · next b args pos call =>
    have reads (kind : InputKind) : b ≠ .input kind := by
      rintro rfl
      exact other kind args pos call
    exact (Eval.Quiet.builtin reads args pos).source ev.session
  · rfl

theorem Event.reads_of_takesLine {ev : Event} (takes : ev.takesLine = true) :
    ∃ kind args pos, ev.act = .call (.builtin (.input kind)) args pos := by
  by_contra other
  have kept := source_kept fun kind args pos call => other ⟨kind, args, pos, call⟩
  simp [takesLine, kept, Console.source] at takes

section

variable {lines : List (List UInt8)} {ev : Event}

theorem Event.input_asked {kind : InputKind} {args : List Value} {pos : Position}
    (whole : Lines lines) (here : ev.session.console.source = (lines.flatten, true))
    (fits : ev.act.Fits Any Any Any) (call : ev.act = .call (.builtin (.input kind)) args pos) :
    (∃ prompt, args = [prompt] ∧ ∀ rounds, Asked kind prompt pos ev.session lines
      (lines.drop (if ev.takesLine then 1 else 0)) (ev.result rounds) (ev.after rounds)) ∧
    ev.sourceAfter = ((lines.drop (if ev.takesLine then 1 else 0)).flatten, true) := by
  obtain ⟨nest, act, s⟩ := ev
  subst call
  obtain ⟨prompt, rfl⟩ := List.length_eq_one_iff.mp (beq_iff_eq.mp fits.1).symm
  obtain ⟨next, asked, after⟩ := Builtin.input_asked whole here kind prompt pos
  have same := asked.next_eq whole (congrArg Prod.fst here)
  rw [same] at asked after
  exact ⟨⟨prompt, rfl, fun _ => asked⟩, after⟩

theorem Event.source_next (whole : Lines lines)
    (here : ev.session.console.source = (lines.flatten, true)) (fits : ev.act.Fits Any Any Any) :
    ev.sourceAfter = ((lines.drop (if ev.takesLine then 1 else 0)).flatten, true) := by
  by_cases reads : ∃ kind args pos, ev.act = .call (.builtin (.input kind)) args pos
  · obtain ⟨kind, args, pos, call⟩ := reads
    exact (input_asked whole here fits call).2
  · have kept := source_kept fun kind args pos call => reads ⟨kind, args, pos, call⟩
    rw [kept, here, if_neg (mt reads_of_takesLine reads)]
    rfl

end

theorem Linked.delivered {source last : List UInt8 × Bool} {events : List Event}
    (linked : Linked source events last) (fits : ∀ ev ∈ events, ev.act.Fits Any Any Any)
    {lines : List (List UInt8)} (whole : Lines lines) (here : source = (lines.flatten, true)) :
    Delivered lines events last.1 := by
  induction linked generalizing lines with
  | nil source =>
    refine ⟨congrArg Prod.fst here, ?_, nofun, ?_⟩
    · intro before later ev passed
      simp at passed
    · intro before later ev kind args pos passed
      simp at passed
  | @cons source last ev events found linked ih =>
    subst here
    obtain ⟨first, rest⟩ := List.forall_mem_cons.mp fits
    have delivered := ih rest (whole.drop _) (Event.source_next whole found first)
    refine ⟨?_, ?_, ?_, ?_⟩
    · rw [delivered.left, List.drop_drop, List.countP_cons, Nat.add_comm]
    · intro before later ev' passed
      rcases before with _ | ⟨_, before⟩
      · cases passed
        exact congrArg Prod.fst found
      · cases passed
        rw [delivered.found rfl, List.drop_drop, List.countP_cons, Nat.add_comm]
    · exact fun _ takes => Event.reads_of_takesLine takes
    · intro before later ev' kind args pos passed call
      rcases before with _ | ⟨_, before⟩
      · cases passed
        simpa [List.countP_cons] using (Event.input_asked whole found first call).1
      · cases passed
        obtain ⟨prompt, sole, asked⟩ := delivered.asked rfl call
        refine ⟨prompt, sole, fun rounds => ?_⟩
        have asked := asked rounds
        rw [List.drop_drop, List.drop_drop] at asked
        simpa [List.countP_cons, Nat.add_comm] using asked

def Event.silenced (ev : Event) : Event :=
  { ev with session := { ev.session with console := { ev.session.console with broken := true } } }

/-- What a host comes to from a session, with all that is evaluated. Between its requests it may
bind names, and the output may begin to fail or work again. It may also fail while a request is
answered: then the next built-in function that writes ends it. -/
inductive Session.History (s : Session) : List Event → Session → Prop
  | start : Session.History s [] s
  | request {events : List Event} {t : Session} (history : Session.History s events t)
      (request : Request) (fixed : ∀ bytes, request ≠ .feed bytes) :
      Session.History s (events ++ t.events request) (t.perform request).2
  | between {events : List Event} {t : Session} (history : Session.History s events t)
      (globals : Frame) (written : String) (broken : Bool) :
      Session.History s events
        { t with globals, console := { t.console with written, broken } }
  | cut {events before later : List Event} {t : Session} {ev : Event} {b : Builtin}
      {args : List Value} {pos : Position} (history : Session.History s events t)
      (request : Request) (fixed : ∀ bytes, request ≠ .feed bytes)
      (passed : t.events request = before ++ ev :: later)
      (call : ev.act = .call (.builtin b) args pos)
      (fails : (b.call args pos ev.silenced.session).1 = .error (.error (.io .brokenPipe))) :
      Session.History s (events ++ (before ++ [ev.silenced]))
        { (b.call args pos ev.silenced.session).2 with calls := [] }

namespace Session.History

variable {s t : Session} {events : List Event}

theorem fits (history : s.History events t) : ∀ ev ∈ events, ev.act.Fits Any Any Any := by
  induction history with
  | start => exact List.forall_mem_nil _
  | @request events t history request fixed ih =>
    exact List.forall_mem_append.mpr ⟨ih, t.events_accept request⟩
  | between history globals written broken ih => exact ih
  | @cut events before later t ev b args pos history request fixed passed call fails ih =>
    have accepted := t.events_accept request
    rw [passed] at accepted
    obtain ⟨first, rest⟩ := List.forall_mem_append.mp accepted
    refine List.forall_mem_append.mpr ⟨ih, List.forall_mem_append.mpr ⟨first, ?_⟩⟩
    exact List.forall_mem_singleton.mpr (rest ev (.head later))

theorem linked (history : s.History events t) :
    Linked s.console.source events t.console.source := by
  induction history with
  | start => exact .nil _
  | request history request fixed ih => exact ih.append (perform_linked fixed _)
  | between history globals written broken ih => exact ih
  | @cut events before later t ev b args pos history request fixed passed call fails ih =>
    have whole := perform_linked fixed t
    rw [passed] at whole
    obtain ⟨middle, first, rest⟩ := whole.split
    refine ih.append (first.append ?_)
    cases rest with
    | cons here _ =>
      refine .cons here ?_
      have after : ev.silenced.sourceAfter =
          (b.call args pos ev.silenced.session).2.console.source := by
        unfold Event.sourceAfter
        rw [show ev.silenced.act = .call (.builtin b) args pos from call]
      rw [after]
      exact .nil _

end Session.History

/-- However the functions that read are called, from wherever in a session, they are given the lines
of the input in order, each of them once. -/
theorem Session.History.delivers_in_order {bytes : List UInt8} {events : List Event} {t : Session}
    (history : (Session.ofConsole (.ofInput bytes)).History events t) :
    ∃ lines, Text.Lines lines ∧ lines.flatten = bytes ∧
      Delivered lines events t.console.unread := by
  obtain ⟨lines, whole, rfl⟩ := Text.exists_lines bytes
  exact ⟨lines, whole, rfl, history.linked.delivered history.fits whole rfl⟩

theorem Session.History.delivers_three_lines :
    let bytes := Text.bytes "a\r\nx\n7".toList
    let first := Request.evaluate 1 "print(input_str(\"? \"), input_int(\"\"))" false none
    let silent := Request.evaluateExpression 1 "input_str(\"more\")"
    let last := Request.evaluateExpression 1 "input_int(\"n\")"
    let s := Session.ofConsole (.ofInput bytes)
    let t := (s.perform first).2
    let t := { t with console := { t.console with broken := true } }
    let u := (t.perform silent).2
    let u := { u with console := { u.console with broken := false } }
    (s.events first).countP (·.takesLine) = 2 ∧ (t.events silent).countP (·.takesLine) = 0 ∧
      (u.events last).countP (·.takesLine) = 1 ∧
      ∃ lines, Text.Lines lines ∧ lines.flatten = bytes ∧
        Delivered lines (s.events first ++ t.events silent ++ u.events last) [] := by
  intro bytes first silent last s t' t u' u
  have history : s.History (s.events first ++ t.events silent ++ u.events last)
      (u.perform last).2 :=
    .request (.between (.request (.between (.request .start first nofun) t'.globals
      t'.console.written true) silent nofun) u'.globals u'.console.written false) last nofun
  have nothing : (u.perform last).2.console.unread = [] := by decide +kernel
  refine ⟨by decide +kernel, by decide +kernel, by decide +kernel, ?_⟩
  obtain ⟨lines, whole, same, delivered⟩ := history.delivers_in_order
  exact ⟨lines, whole, same, nothing ▸ delivered⟩

end CalcScript
