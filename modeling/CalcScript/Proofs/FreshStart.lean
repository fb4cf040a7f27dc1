import CalcScript.Proofs.Callees
import CalcScript.Proofs.Requests

set_option autoImplicit false

namespace CalcScript

def Identifier.AsksNothing (i : Identifier) : Prop := ∀ kind : InputKind, i.name ≠ kind.name

def Expr.AsksNothing (e : Expr) : Prop := ∀ i ∈ e.callees, i.AsksNothing

def Statement.AsksNothing (s : Statement) : Prop := ∀ i ∈ s.callees, i.AsksNothing

def Value.AsksNothing : Value → Prop
  | .function f => ∀ s ∈ f.body, s.AsksNothing
  | _ => True

def Signal.AsksNothing (s : Signal) : Prop := ∀ v, s.value = some v → v.AsksNothing

def Interrupt.AsksNothing : Interrupt → Prop
  | .signal s => s.AsksNothing
  | _ => True

theorem Expr.allCallees_asksNothing {es : List Expr}
    (h : ∀ i ∈ Expr.allCallees es, i.AsksNothing) : ∀ e ∈ es, e.AsksNothing :=
  fun e member i called => h i (Expr.mem_allCallees.mpr ⟨e, member, called⟩)

theorem Statement.allCallees_asksNothing {items : List Statement}
    (h : ∀ i ∈ Statement.allCallees items, i.AsksNothing) : ∀ s ∈ items, s.AsksNothing :=
  fun s member i called => h i (Statement.mem_allCallees.mpr ⟨s, member, called⟩)

theorem Builtin.name_of_ofName? {name : String} {b : Builtin} (found : ofName? name = some b) :
    name = b.name := by
  have same := List.find?_some found
  exact (eq_of_beq same).symm

theorem Identifier.AsksNothing.ne_input {i : Identifier} (h : i.AsksNothing) (kind : InputKind) :
    Builtin.ofName? i.name ≠ some (.input kind) :=
  fun found => h kind (Builtin.name_of_ofName? found)

theorem Value.Plain.asksNothing {v : Value} (plain : v.Plain) : v.AsksNothing := by
  cases v with
  | function f => exact plain.elim
  | int n | float x | string s | nothing => trivial

theorem inherited_asksNothing : Eval.Invariant.Inherited Expr.AsksNothing where
  unary h := h
  binary h := List.forall_mem_append.mp h
  logical h := List.forall_mem_append.mp h
  assignment h := h
  comparison h := Expr.allCallees_asksNothing h
  call h := Expr.allCallees_asksNothing (List.forall_mem_cons.mp h).2

theorem inheritedStatements_asksNothing :
    Eval.Invariant.InheritedStatements Expr.AsksNothing Statement.AsksNothing where
  expression h := h
  branch := by
    intro c body otherwise pos h
    obtain ⟨condition, rest⟩ := List.forall_mem_append.mp h
    obtain ⟨inside, other⟩ := List.forall_mem_append.mp rest
    refine ⟨condition, Statement.allCallees_asksNothing inside, ?_⟩
    rintro items rfl
    exact Statement.allCallees_asksNothing other
  loop h := by
    obtain ⟨condition, inside⟩ := List.forall_mem_append.mp h
    exact ⟨condition, Statement.allCallees_asksNothing inside⟩
  result h := h

namespace Eval

inductive Beside (c d : Console) : Session → Session → Prop
  | mk (globals : Frame) (calls : List Frame) (text : String)
      (known : Session.Holds Value.AsksNothing ⟨globals, calls, c⟩) :
      Beside c d ⟨globals, calls, c.wrote text⟩ ⟨globals, calls, d.wrote text⟩

def separation (c d : Console) : Invariant :=
  ⟨Beside c d, Value.AsksNothing, Interrupt.AsksNothing⟩

section

variable {c d : Console}

theorem Beside.bind {s t : Session} (beside : Beside c d s t) (i : Identifier) {v : Value}
    (value : v.AsksNothing) : Beside c d (s.bind i v) (t.bind i v) := by
  obtain ⟨globals, calls, text, known⟩ := beside
  have bound := known.bind i value
  cases calls with
  | nil => exact .mk _ [] text bound
  | cons frame rest =>
    by_cases sigil : i.isGlobal = true
    · simp only [Session.bind, if_pos sigil] at bound ⊢
      exact .mk _ _ text bound
    · simp only [Session.bind, if_neg sigil] at bound ⊢
      exact .mk _ _ text bound

theorem separation_access (works : c.broken = false) (works' : d.broken = false) :
    (separation c d).Access where
  lookup i := by
    rintro _ _ ⟨globals, calls, text, known⟩
    exact ⟨_, _, _, rfl, rfl, fun v found => known.lookup found, globals, calls, text, known⟩
  bindName _ value _ _ beside := ⟨_, _, _, rfl, rfl, trivial, beside.bind _ value⟩
  write more := by
    rintro _ _ ⟨globals, calls, text, known⟩
    simp only [write, Console.write?_wrote works, Console.write?_wrote works']
    exact ⟨_, _, _, rfl, rfl, trivial, .mk globals calls (text ++ more) known⟩
  plain := Value.Plain.asksNothing
  raised _ := trivial
  exhausted := trivial

variable (works : c.broken = false) (works' : d.broken = false)

include works works'

theorem separation_respects {caller : Caller} (calls : ∀ f args pos,
    (Value.function f).AsksNothing → (∀ v ∈ args, v.AsksNothing) →
    (separation c d).Keeps Value.AsksNothing (caller f args pos)) :
    (separation c d).Respects Expr.AsksNothing caller := by
  apply (separation_access works works').respects inherited_asksNothing (fun _ => nofun) _
    (fun _ _ _ _ _ => trivial) calls
  -- No input is read, as nobody calls for it.
  intro i es kind h found
  exact absurd found ((h i (.head _)).ne_input kind)

theorem separation_statements :
    (separation c d).RespectsStatements Expr.AsksNothing Statement.AsksNothing :=
  (separation_access works works').respectsStatements inheritedStatements_asksNothing
    (fun _ _ _ values => values) fun _ _ _ code _ _ => Statement.allCallees_asksNothing code

theorem call_beside (rounds depth : Nat) : ∀ (f : Function) (args : List Value) (pos : Position),
    (Value.function f).AsksNothing → (∀ v ∈ args, v.AsksNothing) →
    (separation c d).Keeps Value.AsksNothing (call rounds depth f args pos) := by
  induction depth with
  | zero => exact fun f args pos _ _ => .interrupt trivial
  | succ depth ih =>
    intro f args pos code values
    have body : (separation c d).Keeps Any (block rounds (call rounds depth) f.body) :=
      Invariant.block_keeps (separation_respects works works' ih)
        (separation_statements works works') rounds f.body code
    apply Invariant.call_keeps pos _ _ body fun _ =>
      Invariant.caught_fits trivial (fun _ _ => trivial) fun s v (known : s.AsksNothing) => known v
    · rintro _ _ ⟨globals, calls, text, known⟩
      refine .mk globals (arguments f.params args :: calls) text ⟨known.globals, ?_⟩
      exact List.forall_mem_cons.mpr ⟨arguments_holds f.params values, known.calls⟩
    · rintro _ _ ⟨globals, calls, text, known⟩
      exact .mk globals calls.tail text
        ⟨known.globals, fun frame member => known.calls frame (List.mem_of_mem_tail member)⟩

theorem statements_beside (rounds : Nat) {items : List Statement}
    (code : ∀ s ∈ items, s.AsksNothing) :
    (separation c d).Keeps (∀ v ∈ ·, v.AsksNothing)
      (statements rounds (call rounds maxCallDepth) items) :=
  Invariant.statements_keeps
    (separation_respects works works' (call_beside works works' rounds maxCallDepth))
    (separation_statements works works') rounds items code

end

end Eval

def AsksNothing (ts : List Token) : Prop :=
  ∀ t ∈ ts, t.kind = .identifier → ∀ kind : InputKind, t.lexeme ≠ kind.name

theorem AsksNothing.of_parseProgram {ts : List Token} {items : List Statement}
    (silent : AsksNothing ts) (parsed : parseProgram ts = .ok items) :
    ∀ s ∈ items, s.AsksNothing := by
  apply Statement.allCallees_asksNothing
  intro i called
  obtain ⟨t, member, named⟩ :=
    List.mem_filterMap.mp ((named_of_parseProgram parsed).subset called)
  simp only [Token.identifier?] at named
  split at named
  · next identifier =>
    cases named
    exact silent t member identifier
  · cases named

namespace Session

variable {source : String} {ts : List Token} {items : List Statement}

theorem evaluate_cleared (nonblank : Text.trim source.toList ≠ [])
    (read : readProgram source = .ok items) (rounds : Nat) (s : Session) :
    s.evaluate rounds source true none = s.clear.runStatements rounds items := by
  simp only [evaluate, if_neg nonblank, read, if_true]

theorem evaluate_cleared_calls (nonblank : Text.trim source.toList ≠ [])
    (read : readProgram source = .ok items) (rounds : Nat) (s : Session) :
    (s.evaluate rounds source true none).2.calls = [] := by
  have outside : (s.clear.evaluate rounds source true none).2.calls = [] :=
    (@perform_outside (.evaluate rounds source true none) s.clear rfl).1
  rw [evaluate_cleared nonblank read] at outside ⊢
  exact outside

theorem evaluate_beside (nonblank : Text.trim source.toList ≠ [])
    (read : readProgram source = .ok items) (code : ∀ s ∈ items, s.AsksNothing) (rounds : Nat)
    {s t : Session} (works : s.console.broken = false) (works' : t.console.broken = false) :
    ∃ outcome globals text,
      s.evaluate rounds source true none = (outcome, ⟨globals, [], s.console.wrote text⟩) ∧
      t.evaluate rounds source true none = (outcome, ⟨globals, [], t.console.wrote text⟩) := by
  have start : Eval.Beside s.console t.console s.clear t.clear := by
    have begun : Eval.Beside s.console t.console _ _ :=
      .mk .initial [] "" (.clear s fun _ => Value.Plain.asksNothing)
    rw [Console.wrote_nothing, Console.wrote_nothing] at begun
    exact begun
  obtain ⟨r, _, _, eq, eq', -, globals, calls, text, -⟩ :=
    Eval.statements_beside works works' rounds code _ _ start
  have outside := evaluate_cleared_calls nonblank read rounds s
  simp only [evaluate_cleared nonblank read, runStatements, run, eq, eq'] at outside ⊢
  subst outside
  exact ⟨_, globals, text, rfl, rfl⟩

/-- A program that does not name a built-in function that reads a line, evaluated in two cleared
sessions that can write: it comes to the same in both, binds and writes the same, and leaves the
input alone. -/
theorem evaluate_afresh (nonblank : Text.trim source.toList ≠ [])
    (lexed : significantTokens source = .ok ts) (parsed : parseProgram ts = .ok items)
    (silent : AsksNothing ts) {s t : Session} (works : s.console.broken = false)
    (works' : t.console.broken = false) :
    (∀ rounds, ∃ outcome globals text,
      s.evaluate rounds source true none =
        (outcome, ⟨globals, [], { s.console with written := s.console.written ++ text }⟩) ∧
      t.evaluate rounds source true none =
        (outcome, ⟨globals, [], { t.console with written := t.console.written ++ text }⟩)) ∧
    ((∀ rounds, (s.evaluate rounds source true none).1 = .exhausted) ↔
      ∀ rounds, (t.evaluate rounds source true none).1 = .exhausted) ∧
    ∀ rounds, ∃ outcome globals text,
      s.evaluate rounds source true none =
        (outcome, ⟨globals, [], { s.console with written := s.console.written ++ text }⟩) ∧
      (s.evaluate rounds source true none).2.evaluate rounds source true none =
        (outcome, ⟨globals, [],
          { s.console with written := s.console.written ++ text ++ text }⟩) := by
  have read : readProgram source = .ok items := Parse.bind_eq_ok.mpr ⟨ts, lexed, parsed⟩
  have code := silent.of_parseProgram parsed
  have alike (rounds : Nat) {t : Session} (works' : t.console.broken = false) :=
    evaluate_beside nonblank read code rounds works works'
  refine ⟨fun rounds => alike rounds works', ?_, fun rounds => ?_⟩
  · have same (rounds : Nat) : (s.evaluate rounds source true none).1 =
        (t.evaluate rounds source true none).1 := by
      obtain ⟨outcome, globals, text, eq, eq'⟩ := alike rounds works'
      rw [eq, eq']
    simp only [same]
  · have after : (s.evaluate rounds source true none).2.console.broken = false := by
      obtain ⟨outcome, globals, text, eq, -⟩ := alike rounds works
      rw [eq]
      exact works
    obtain ⟨outcome, globals, text, eq, twice⟩ := alike rounds after
    have console : (s.evaluate rounds source true none).2.console = s.console.wrote text := by
      rw [eq]
    rw [console] at twice
    exact ⟨outcome, globals, text, eq, twice⟩

theorem evaluate_afresh_countdown :
    let source := "func f(n) \x7b if n \x7b print(n); f(n - 1) \x7d \x7d f(2)"
    let s : Session := ⟨Frame.empty.set "n" (.int 7), [], ⟨[52, 10], true, "n = ", false⟩⟩
    let t : Session := .ofConsole (.ofInput [])
    ∃ outcome globals text,
      s.evaluate 9 source true none =
        (outcome, ⟨globals, [], ⟨[52, 10], true, "n = " ++ text, false⟩⟩) ∧
      t.evaluate 9 source true none = (outcome, ⟨globals, [], ⟨[], true, "" ++ text, false⟩⟩) := by
  intro source s t
  have nonblank : Text.trim source.toList ≠ [] := by decide +kernel
  have read : (readProgram source).isOk = true := by decide +kernel
  have names : (significantTokens source).toOption.map (fun ts => ts.all fun t =>
      InputKind.name .string != t.lexeme && InputKind.name .int != t.lexeme &&
        InputKind.name .float != t.lexeme) = some true := by
    decide +kernel
  cases lexed : significantTokens source with
  | error e =>
    rw [lexed] at names
    cases names
  | ok ts =>
    rw [lexed] at names
    have silent : AsksNothing ts := by
      intro t member _ kind
      have other := List.all_eq_true.mp (Option.some.inj names) t member
      simp only [Bool.and_eq_true, bne_iff_ne] at other
      cases kind with
      | string => exact other.1.1.symm
      | int => exact other.1.2.symm
      | float => exact other.2.symm
    cases parsed : parseProgram ts with
    | error e =>
      have fails : readProgram source = .error e := by rw [readProgram, lexed]; exact parsed
      rw [fails] at read
      cases read
    | ok items => exact (evaluate_afresh nonblank lexed parsed silent rfl rfl).1 9

end Session

end CalcScript
