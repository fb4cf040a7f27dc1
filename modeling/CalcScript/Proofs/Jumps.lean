import CalcScript.Proofs.Reachable
import CalcScript.Proofs.Requests

set_option autoImplicit false

namespace CalcScript

mutual

def Statement.jumps (kind : ControlKind) : Statement → Bool
  | .expression _ | .function _ _ _ => false
  | .branch _ body otherwise _ =>
    Statement.anyJumps kind body || Statement.elseJumps kind otherwise
  | .loop _ body _ => kind == .returnValue && Statement.anyJumps kind body
  | .control other _ _ => other == kind

def Statement.anyJumps (kind : ControlKind) : List Statement → Bool
  | [] => false
  | s :: rest => s.jumps kind || Statement.anyJumps kind rest

def Statement.elseJumps (kind : ControlKind) : Option (List Statement) → Bool
  | none => false
  | some body => Statement.anyJumps kind body

end

namespace Eval

variable {α β : Type} {allowed : ControlKind → Prop}

def Jumping (allowed : ControlKind → Prop) (m : Eval α) : Prop :=
  ∀ s kind value pos, (m s).1 = .error (.signal ⟨.control kind, value, pos⟩) → allowed kind

namespace Jumping

theorem pure (a : α) : Jumping allowed (Pure.pure a : Eval α) := by
  intro s kind value pos jump
  cases jump

theorem mono {fewer : ControlKind → Prop} {m : Eval α} (jumping : Jumping fewer m)
    (more : ∀ kind, fewer kind → allowed kind) : Jumping allowed m :=
  fun s kind value pos jump => more kind (jumping s kind value pos jump)

theorem bind {m : Eval α} {f : α → Eval β} (first : Jumping allowed m)
    (later : ∀ a, Jumping allowed (f a)) : Jumping allowed (m >>= f) := by
  intro s kind value pos jump
  rw [bind_apply] at jump
  cases result : m s with
  | mk r t =>
    rw [result] at jump
    cases r with
    | ok a => exact later a t kind value pos jump
    | error i =>
      apply first s kind value pos
      rw [result]
      exact congrArg Except.error (Except.error.inj jump)

theorem roundThen {body : Eval Unit} {later : Eval Value} (round : Jumping allowed body)
    (next : Jumping (fun kind => kind = .returnValue ∧ allowed kind) later) :
    Jumping (fun kind => kind = .returnValue ∧ allowed kind)
      (Invariant.roundThen body later) := by
  intro s kind value pos jump
  simp only [Invariant.roundThen] at jump
  have inside := round s
  rcases result : body s with ⟨(e | ⟨at' | _, value', pos'⟩ | _) | _, t⟩
  all_goals rw [result] at jump inside
  · cases jump
  · cases at' with
    | continueLoop => exact next t kind value pos jump
    | breakLoop => cases jump
    | returnValue =>
      cases jump
      exact ⟨rfl, inside _ _ _ rfl⟩
  · cases jump
  · cases jump
  · exact next t kind value pos jump

theorem repeatWhile {condition : Eval Value} {body : Eval Unit}
    (test : Jumping (fun _ => False) condition) (round : Jumping allowed body) (rounds : Nat) :
    Jumping (fun kind => kind = .returnValue ∧ allowed kind)
      (Eval.repeatWhile condition body rounds) := by
  induction rounds with
  | zero =>
    intro s kind value pos jump
    cases jump
  | succ rounds ih =>
    rw [Invariant.repeatWhile_succ]
    refine Jumping.bind (test.mono fun _ => False.elim) fun v => ?_
    split
    · exact round.roundThen ih
    · exact pure _

end Jumping

def level : Invariant :=
  .single (fun _ => True) Any fun i =>
    ∀ kind value pos, i ≠ .signal ⟨.control kind, value, pos⟩

theorem level_error (e : Error) : level.interrupt (.error e) := fun _ _ _ => nofun

open Invariant in
theorem level_operations : level.Operations where
  lookup i := keeps_single.mpr fun s _ => ⟨fun _ _ => trivial, trivial⟩
  bindName _ _ := keeps_single.mpr fun s _ => ⟨trivial, trivial⟩
  write text := keeps_single.mpr fun s _ => by
    simp only [write]
    split
    · exact ⟨trivial, trivial⟩
    · exact ⟨level_error _, trivial⟩
  readLine := keeps_single.mpr fun s _ =>
    ⟨readLine_fits (fun _ => level_error _) (fun _ _ _ => nofun) s, trivial⟩
  plain _ := trivial
  raised _ := level_error _
  exhausted := fun _ _ _ => nofun

theorem Jumping.of_keeps {P : α → Prop} {m : Eval α} (keeps : level.Keeps P m) :
    Jumping allowed m := by
  intro s kind value pos jump
  have fits := (Invariant.keeps_single.mp keeps s trivial).1
  rw [jump] at fits
  exact absurd rfl (fits kind value pos)

theorem caught_fits_level (r : Except Interrupt Unit) : level.Fits Any (caught r) := by
  rcases r with (e | ⟨kind | _, value, pos⟩ | _) | _
  · exact nofun
  · cases kind with
    | continueLoop | breakLoop => exact nofun
    | returnValue => trivial
  · exact nofun
  · exact nofun
  · trivial

theorem call_level (rounds room : Nat) (f : Function) (args : List Value) (pos : Position) :
    level.Keeps Any (call rounds room f args pos) := by
  apply Invariant.keeps_single.mpr
  intro s _
  cases room with
  | zero => exact ⟨level_error _, trivial⟩
  | succ room => exact ⟨caught_fits_level _, trivial⟩

theorem expression_jumping (rounds room : Nat) (e : Expr) :
    Jumping (fun _ => False) (expression (call rounds room) e) := by
  have respects : level.Respects Any (call rounds room) :=
    level_operations.respects .any (fun _ => nofun) (fun _ _ _ _ _ => nofun)
      fun f args pos _ _ => call_level rounds room f args pos
  exact .of_keeps (Invariant.expression_keeps respects trivial)

section

variable {caller : Caller}

-- By recursion on the statement. The jumps of a body leave the statement too, except for those that
-- a loop around it ends.

mutual

theorem statement_jumping (expressions : ∀ e, Jumping (fun _ => False) (expression caller e))
    (rounds : Nat) : ∀ s : Statement,
      Jumping (fun kind => s.jumps kind = true) (statement rounds caller s)
  | .expression e => by
    rw [statement]
    exact (expressions e).mono fun _ => False.elim
  | .branch c body none pos => by
    rw [statement]
    refine Jumping.bind ((expressions c).mono fun _ => False.elim) fun v => ?_
    split
    · have inside := block_jumping expressions rounds body
      refine Jumping.bind (inside.mono fun kind jumps => ?_) fun _ => .pure _
      simp [Statement.jumps, jumps]
    · exact .pure _
  | .branch c body (some other) pos => by
    rw [statement]
    refine Jumping.bind ((expressions c).mono fun _ => False.elim) fun v => ?_
    split
    · have inside := block_jumping expressions rounds body
      refine Jumping.bind (inside.mono fun kind jumps => ?_) fun _ => .pure _
      simp [Statement.jumps, jumps]
    · have inside := block_jumping expressions rounds other
      refine Jumping.bind (inside.mono fun kind jumps => ?_) fun _ => .pure _
      simp [Statement.jumps, Statement.elseJumps, jumps]
  | .loop c body pos => by
    rw [statement]
    have inside := (expressions c).repeatWhile (block_jumping expressions rounds body) rounds
    refine inside.mono fun kind jumps => ?_
    obtain ⟨rfl, jumps⟩ := jumps
    simp [Statement.jumps, jumps]
  | .function name params body => by
    rw [statement]
    exact .of_keeps (level_operations.define_keeps fun _ _ => trivial)
  | .control kind none pos => by
    rw [statement]
    intro s kind value pos jump
    cases jump
    simp [Statement.jumps]
  | .control kind (some e) pos => by
    rw [statement]
    refine Jumping.bind ((expressions e).mono fun _ => False.elim) fun v => ?_
    intro s kind value pos jump
    cases jump
    simp [Statement.jumps]

theorem block_jumping (expressions : ∀ e, Jumping (fun _ => False) (expression caller e))
    (rounds : Nat) : ∀ body : List Statement,
      Jumping (fun kind => Statement.anyJumps kind body = true) (block rounds caller body)
  | [] => by
    rw [block]
    exact .pure _
  | s :: rest => by
    rw [block]
    have first := statement_jumping expressions rounds s
    have later := block_jumping expressions rounds rest
    refine Jumping.bind (first.mono fun kind jumps => ?_) fun _ =>
      later.mono fun kind jumps => ?_
    · simp [Statement.anyJumps, jumps]
    · simp [Statement.anyJumps, jumps]

end

theorem statements_jumping (expressions : ∀ e, Jumping (fun _ => False) (expression caller e))
    (rounds : Nat) (items : List Statement) :
    Jumping (fun kind => Statement.anyJumps kind items = true)
      (statements rounds caller items) := by
  induction items with
  | nil => exact .pure _
  | cons s rest ih =>
    rw [statements]
    have first := statement_jumping expressions rounds s
    refine Jumping.bind (first.mono fun kind jumps => ?_) fun v =>
      (ih.mono fun kind jumps => ?_).bind fun vs => .pure _
    · simp [Statement.anyJumps, jumps]
    · simp [Statement.anyJumps, jumps]

end

end Eval

def Statement.Looped (items : List Statement) : Prop :=
  Statement.anyJumps .breakLoop items = false ∧ Statement.anyJumps .continueLoop items = false

def Statement.Tame (s : Statement) : Prop := ∀ f ∈ s.functions, Statement.Looped f.body

def Function.Tame (f : Function) : Prop := (Statement.function f.name f.params f.body).Tame

def Value.Tame : Value → Prop
  | .function f => f.Tame
  | _ => True

theorem Value.Plain.tame {v : Value} (plain : v.Plain) : v.Tame := by
  cases v with
  | function f => exact plain.elim
  | int n | float x | string s | nothing => trivial

theorem Statement.tame_of_allFunctions {items : List Statement}
    (functions : ∀ f ∈ Statement.allFunctions items, Statement.Looped f.body) :
    ∀ s ∈ items, s.Tame :=
  fun s member f defined => functions f (Statement.mem_allFunctions.mpr ⟨s, member, defined⟩)

theorem Function.Tame.body {f : Function} (tame : f.Tame) :
    Statement.Looped f.body ∧ ∀ s ∈ f.body, s.Tame := by
  rw [Function.Tame, Statement.Tame, Statement.functions] at tame
  obtain ⟨own, inner⟩ := List.forall_mem_cons.mp tame
  exact ⟨own, Statement.tame_of_allFunctions inner⟩

def Interrupt.Tame : Interrupt → Prop
  | .error (.misuse s) => s.kind = .abort
  | .signal s => ∀ v, s.value = some v → v.Tame
  | _ => True

theorem Error.Raised.tame {e : Error} (raised : e.Raised) : (Interrupt.error e).Tame := by
  cases e <;> trivial

namespace Eval

def tameness : Invariant := holding Value.Tame Interrupt.Tame

theorem tameness_operations : tameness.Operations :=
  holding_operations (fun _ => Value.Plain.tame) (fun _ => Error.Raised.tame) trivial

theorem inheritedStatements_tame : Invariant.InheritedStatements Any Statement.Tame where
  expression _ := trivial
  branch := by
    intro c body otherwise pos tame
    rw [Statement.Tame, Statement.functions] at tame
    obtain ⟨inside, outside⟩ := List.forall_mem_append.mp tame
    refine ⟨trivial, Statement.tame_of_allFunctions inside, ?_⟩
    rintro other rfl
    exact Statement.tame_of_allFunctions outside
  loop := by
    intro c body pos tame
    rw [Statement.Tame, Statement.functions] at tame
    exact ⟨trivial, Statement.tame_of_allFunctions tame⟩
  result _ := trivial

theorem respects_tame {caller : Caller} (calls : ∀ (f : Function) args pos, f.Tame →
    (∀ v ∈ args, v.Tame) → tameness.Keeps Value.Tame (caller f args pos)) :
    tameness.Respects Any caller :=
  tameness_operations.respects .any (fun _ => nofun) (fun _ _ _ _ _ => trivial) calls

theorem respectsStatements_tame : tameness.RespectsStatements Any Statement.Tame :=
  tameness_operations.respectsStatements inheritedStatements_tame (fun _ _ _ values => values)
    fun _ _ _ tame _ _ => tame

theorem caught_fits_tame {r : Except Interrupt Unit} (fits : tameness.Fits Any r)
    (jumps : ∀ kind value pos, r = .error (.signal ⟨.control kind, value, pos⟩) →
      kind = .returnValue) : tameness.Fits Value.Tame (caught r) := by
  rcases r with (e | ⟨kind | _, value, pos⟩ | _) | _
  · exact fits
  · cases jumps kind value pos rfl
    cases value with
    | none => trivial
    | some v => exact fits v rfl
  · exact fits
  · trivial
  · trivial

theorem call_tame (rounds depth : Nat) : ∀ (f : Function) (args : List Value) (pos : Position),
    f.Tame → (∀ v ∈ args, v.Tame) →
    tameness.Keeps Value.Tame (call rounds depth f args pos) := by
  induction depth with
  | zero => exact fun f args pos _ _ => .interrupt trivial
  | succ depth ih =>
    intro f args pos tame values
    obtain ⟨looped, inside⟩ := tame.body
    apply call_holds pos values
    · exact Invariant.block_keeps (respects_tame ih) respectsStatements_tame rounds f.body inside
    · intro s fits
      apply caught_fits_tame fits
      intro kind value at' jump
      have jumps := block_jumping (expression_jumping rounds depth) rounds f.body s kind value at'
        jump
      cases kind with
      | breakLoop => exact Bool.noConfusion (looped.1.symm.trans jumps)
      | continueLoop => exact Bool.noConfusion (looped.2.symm.trans jumps)
      | returnValue => rfl

end Eval

def Outcome.abort? {α : Type} : Outcome α → Option Position
  | .error (.misuse ⟨.abort, none, pos⟩) => some pos
  | _ => none

theorem Outcome.abort?_eq_some {α : Type} {o : Outcome α} {pos : Position} :
    o.abort? = some pos ↔ o = .error (.misuse ⟨.abort, none, pos⟩) := by
  constructor
  · intro found
    unfold abort? at found
    split at found
    · cases found
      rfl
    · cases found
  · rintro rfl
    rfl

namespace Session

theorem run_no_misuse {α : Type} {P : α → Prop} {m : Eval α} {s : Session}
    (keeps : Eval.tameness.Keeps P m) (jumping : Eval.Jumping (fun _ => False) m)
    (tame : s.Holds Value.Tame) (kind : ControlKind) (value : Option Value) (pos : Position) :
    (s.run m).1 ≠ .error (.misuse ⟨.control kind, value, pos⟩) := by
  intro failed
  have fits := (Eval.Invariant.keeps_single.mp keeps s tame).1
  have jumps := jumping s kind value pos
  simp only [run] at failed
  rcases result : (m s).1 with (e | signal | _) | a
  all_goals rw [result] at failed fits jumps
  · cases failed
    exact SignalKind.noConfusion fits
  · cases failed
    exact jumps rfl
  · cases failed
  · cases failed

theorem evaluate_no_misuse {s : Session} (rounds : Nat) {source : String} {clearFirst : Bool}
    {last : Option Value} {items : List Statement} (parsed : readProgram source = .ok items)
    (own : ∀ kind, Statement.anyJumps kind items = false)
    (functions : ∀ f ∈ Statement.allFunctions items, Statement.Looped f.body)
    (tame : (s.started clearFirst last).Holds Value.Tame) (kind : ControlKind)
    (value : Option Value) (pos : Position) :
    (s.evaluate rounds source clearFirst last).1 ≠
      .error (.misuse ⟨.control kind, value, pos⟩) := by
  unfold evaluate
  split
  · exact nofun
  · rw [parsed]
    have keeps := Eval.Invariant.statements_keeps
      (Eval.respects_tame (Eval.call_tame rounds maxCallDepth)) Eval.respectsStatements_tame
      rounds items (Statement.tame_of_allFunctions functions)
    have jumping := Eval.statements_jumping (Eval.expression_jumping rounds maxCallDepth) rounds
      items
    refine run_no_misuse keeps (jumping.mono fun kind jumps => ?_) tame kind value pos
    exact Bool.noConfusion ((own kind).symm.trans jumps)

theorem perform_abort {request : Request} {s : Session} {value : Option Value} {pos : Position}
    (failed : (s.perform request).1 = .error (.misuse ⟨.abort, value, pos⟩)) :
    ∃ before ev args, s.events request = before ++ [ev] ∧
      ev.act = .call (.builtin .abort) args pos := by
  rcases perform_error failed with ordinary | ⟨refusal, -⟩ | ⟨before, ev, i, passed, stop, eq⟩
  · exact absurd rfl ordinary
  · exact refusal.elim
  · rcases Event.stop?_cases stop with ⟨at', rfl⟩ | ⟨at', rfl⟩
    · cases eq
    · cases eq
      obtain ⟨args, act⟩ := Event.stop?_eq_abort.mp stop
      exact ⟨before, ev, args, passed, act⟩

/-- No expression ends in a jump, no loop in another jump than a `return`, and a list of statements
only in one that it has outside of the loops and functions in it. -/
theorem signals_contained (rounds : Nat) :
    (∀ room e (s : Session) kind value pos,
      (Eval.expression (Eval.call rounds room) e s).1 ≠
        .error (.signal ⟨.control kind, value, pos⟩)) ∧
    (∀ room condition body place (s : Session) kind value pos,
      (Eval.statement rounds (Eval.call rounds room) (.loop condition body place) s).1 =
        .error (.signal ⟨.control kind, value, pos⟩) → kind = .returnValue) ∧
    (∀ room items (s : Session) kind value pos,
      (Eval.block rounds (Eval.call rounds room) items s).1 =
          .error (.signal ⟨.control kind, value, pos⟩) ∨
        (Eval.statements rounds (Eval.call rounds room) items s).1 =
          .error (.signal ⟨.control kind, value, pos⟩) →
      Statement.anyJumps kind items = true) ∧
    (∀ (s : Session) source clearFirst last items, readProgram source = .ok items →
      (∀ kind, Statement.anyJumps kind items = false) →
      (∀ f ∈ Statement.allFunctions items, Statement.Looped f.body) →
      (s.started clearFirst last).Holds Value.Tame →
      ∀ kind value pos, (s.evaluate rounds source clearFirst last).1 ≠
        .error (.misuse ⟨.control kind, value, pos⟩)) ∧
    (∀ (s : Session) request before ev later args pos,
      s.events request = before ++ ev :: later → ev.act = .call (.builtin .abort) args pos →
      later = [] ∧ (s.perform request).1 = .error (.misuse ⟨.abort, none, pos⟩) ∧
        (s.perform request).2.globals = ev.session.globals ∧
        (s.perform request).2.console = ev.session.console) ∧
    ∀ (s : Session) request value pos,
      (s.perform request).1 = .error (.misuse ⟨.abort, value, pos⟩) →
      ∃ before ev args, s.events request = before ++ [ev] ∧
        ev.act = .call (.builtin .abort) args pos := by
  have expressions (room : Nat) := Eval.expression_jumping rounds room
  refine ⟨?_, ?_, ?_, ?_, ?_, fun _ _ _ _ => perform_abort⟩
  · exact fun room e s kind value pos => expressions room e s kind value pos
  · intro room condition body place s kind value pos jump
    have jumps := Eval.statement_jumping (expressions room) rounds _ s kind value pos jump
    simp only [Statement.jumps, Bool.and_eq_true, beq_iff_eq] at jumps
    exact jumps.1
  · rintro room items s kind value pos (jump | jump)
    · exact Eval.block_jumping (expressions room) rounds items s kind value pos jump
    · exact Eval.statements_jumping (expressions room) rounds items s kind value pos jump
  · intro s source clearFirst last items parsed own functions tame
    exact evaluate_no_misuse rounds parsed own functions tame
  · intro s request before ev later args pos passed act
    exact perform_stops passed (Event.stop?_eq_abort.mpr ⟨args, act⟩)

theorem signals_contained_loops :
    let s := Session.ofConsole (.ofInput [])
    let endless := Request.evaluate 9 "while abort() \x7b \x7d" false none
    (∀ kind value pos, (s.evaluate 9 "while 1 \x7b break; \x7d" false none).1 ≠
      .error (.misuse ⟨.control kind, value, pos⟩)) ∧
    ∃ before ev args, s.events endless = before ++ [ev] ∧
      ev.act = .call (.builtin .abort) args ⟨1, 7⟩ ∧
      (s.perform endless).2.console = ev.session.console := by
  intro s endless
  have contained := signals_contained 9
  have failed : (s.perform endless).1 = .error (.misuse ⟨.abort, none, ⟨1, 7⟩⟩) :=
    Outcome.abort?_eq_some.mp (by decide +kernel)
  constructor
  · have own (kind : ControlKind) : (readProgram "while 1 \x7b break; \x7d").toOption.map
        (Statement.anyJumps kind) = some false := by
      cases kind <;> decide +kernel
    have functions : (readProgram "while 1 \x7b break; \x7d").toOption.map
        (Statement.allFunctions · |>.isEmpty) = some true := by
      decide +kernel
    cases parsed : readProgram "while 1 \x7b break; \x7d" with
    | error e =>
      rw [parsed] at functions
      cases functions
    | ok items =>
      rw [parsed] at functions
      have free : Statement.allFunctions items = [] :=
        List.isEmpty_iff.mp (Option.some.inj functions)
      apply contained.2.2.2.1 s _ false none items parsed
      · intro kind
        have settled := own kind
        rw [parsed] at settled
        exact Option.some.inj settled
      · rw [free]
        exact List.forall_mem_nil _
      · exact .clear s fun _ => Value.Plain.tame
  · obtain ⟨before, ev, args, passed, act⟩ := contained.2.2.2.2.2 s endless none _ failed
    have last := contained.2.2.2.2.1 s endless before ev [] args _ passed act
    exact ⟨before, ev, args, passed, act, last.2.2.2⟩

end Session

end CalcScript
