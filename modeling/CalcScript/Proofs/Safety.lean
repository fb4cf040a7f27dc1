import CalcScript.Proofs.Hosting
import CalcScript.Proofs.Reachable
import CalcScript.Proofs.WellFormed

set_option autoImplicit false

namespace CalcScript

theorem Expr.allWellFormed_iff {es : List Expr} :
    Expr.AllWellFormed es ↔ ∀ e ∈ es, e.WellFormed := by
  induction es with
  | nil => simp [Expr.AllWellFormed]
  | cons e es ih => simp [Expr.AllWellFormed, ih]

theorem Statement.allWellFormed_iff {items : List Statement} :
    Statement.AllWellFormed items ↔ ∀ s ∈ items, s.WellFormed := by
  induction items with
  | nil => simp [Statement.AllWellFormed]
  | cons s items ih => simp [Statement.AllWellFormed, ih]

def Function.WellFormed (f : Function) : Prop :=
  (Statement.function f.name f.params f.body).WellFormed

mutual

theorem Statement.functions_wellFormed : ∀ s : Statement, s.WellFormed →
    ∀ f ∈ s.functions, f.WellFormed
  | .expression _, _ => by simp [Statement.functions]
  | .control _ _ _, _ => by simp [Statement.functions]
  | .branch _ body otherwise _, h => by
    rw [Statement.functions]
    intro f member
    rcases List.mem_append.mp member with member | member
    · exact Statement.allFunctions_wellFormed body h.2.1 f member
    · exact Statement.elseFunctions_wellFormed otherwise h.2.2 f member
  | .loop _ body _, h => by
    rw [Statement.functions]
    exact Statement.allFunctions_wellFormed body h.2
  | .function name params body, h => by
    rw [Statement.functions]
    intro f member
    rcases List.mem_cons.mp member with rfl | member
    · exact h
    · exact Statement.allFunctions_wellFormed body h.2 f member

theorem Statement.allFunctions_wellFormed : ∀ items : List Statement,
    Statement.AllWellFormed items → ∀ f ∈ Statement.allFunctions items, f.WellFormed
  | [], _ => by simp [Statement.allFunctions]
  | s :: items, h => by
    rw [Statement.allFunctions]
    intro f member
    rcases List.mem_append.mp member with member | member
    · exact Statement.functions_wellFormed s h.1 f member
    · exact Statement.allFunctions_wellFormed items h.2 f member

theorem Statement.elseFunctions_wellFormed : ∀ otherwise : Option (List Statement),
    Statement.ElseWellFormed otherwise → ∀ f ∈ Statement.elseFunctions otherwise, f.WellFormed
  | none, _ => by simp [Statement.elseFunctions]
  | some body, h => Statement.allFunctions_wellFormed body h

end

def Value.WellFormed : Value → Prop
  | .function f => f.WellFormed
  | _ => True

theorem Value.Plain.wellFormed {v : Value} (plain : v.Plain) : v.WellFormed := by
  cases v with
  | function f => exact plain.elim
  | int n | float x | string s | nothing => trivial

theorem Value.FromParser.wellFormed {v : Value} (read : v.FromParser) : v.WellFormed := by
  cases v with
  | function f =>
    obtain ⟨ts, items, parsed, member⟩ := read
    exact Statement.allFunctions_wellFormed items (wellFormed_of_parseProgram parsed) f member
  | int n | float x | string s | nothing => trivial

namespace Frame

def WellFormed (frame : Frame) : Prop := ∀ name v, frame.get? name = some v → v.WellFormed

end Frame

structure Session.WellFormed (s : Session) : Prop where
  globals : s.globals.WellFormed
  calls : ∀ frame ∈ s.calls, frame.WellFormed

theorem Session.wellFormed_iff {s : Session} : s.WellFormed ↔ s.Holds Value.WellFormed :=
  ⟨fun h => ⟨h.globals, h.calls⟩, fun h => ⟨h.globals, h.calls⟩⟩

def Interrupt.WellFormed : Interrupt → Prop
  | .error e => e.Proper
  | .signal s => ∀ v, s.value = some v → v.WellFormed
  | .exhausted => True

namespace Eval

def soundness : Invariant :=
  ⟨fun s t => t = s ∧ s.WellFormed, Value.WellFormed, Interrupt.WellFormed⟩

theorem soundness_eq : soundness = holding Value.WellFormed Interrupt.WellFormed := by
  simp only [soundness, holding, Invariant.single, Session.wellFormed_iff]

theorem soundness_primitives : soundness.Primitives where
  toOperations := soundness_eq ▸
    holding_operations (fun _ => Value.Plain.wellFormed) (fun _ => Error.Raised.proper) trivial
  proper proper := proper
  signal := Iff.rfl

theorem inherited_wellFormed : Invariant.Inherited Expr.WellFormed where
  unary h := h
  binary h := h
  logical h := h
  assignment h := h
  comparison h := Expr.allWellFormed_iff.mp h.2.2
  call h := Expr.allWellFormed_iff.mp h

theorem inheritedStatements_wellFormed :
    Invariant.InheritedStatements Expr.WellFormed Statement.WellFormed where
  expression h := h
  branch := by
    rintro c body otherwise pos ⟨condition, inside, other⟩
    refine ⟨condition, Statement.allWellFormed_iff.mp inside, ?_⟩
    rintro items rfl
    exact Statement.allWellFormed_iff.mp other
  loop h := ⟨h.1, Statement.allWellFormed_iff.mp h.2⟩
  result h := h.2

section

variable {caller : Caller} (calls : ∀ (f : Function) args pos, f.WellFormed →
  (∀ v ∈ args, v.WellFormed) → soundness.Keeps Value.WellFormed (caller f args pos))

include calls

theorem respects_soundness : soundness.Respects Expr.WellFormed caller :=
  soundness_primitives.respects inherited_wellFormed
    -- This is where an ill-formed chain would fail for an internal reason.
    (fun es ops pos h malformed => absurd malformed (by simp [h.1, h.2.1]))
    fun f args pos value values => calls f args pos value values

omit calls in
theorem respectsStatements_soundness :
    soundness.RespectsStatements Expr.WellFormed Statement.WellFormed :=
  soundness_primitives.respectsStatements inheritedStatements_wellFormed
    fun _ _ _ h _ _ => h

end

theorem call_soundness (rounds depth : Nat) : ∀ (f : Function) (args : List Value) (pos : Position),
    f.WellFormed → (∀ v ∈ args, v.WellFormed) →
    soundness.Keeps Value.WellFormed (call rounds depth f args pos) := by
  induction depth with
  | zero => exact fun f args pos _ _ => .interrupt (soundness_primitives.proper trivial)
  | succ depth ih =>
    intro f args pos code values
    -- The calls in the body have less depth.
    have body := Invariant.block_keeps (respects_soundness ih) respectsStatements_soundness rounds
      f.body (Statement.allWellFormed_iff.mp code.2)
    rw [soundness_eq] at body ⊢
    exact call_holds pos values body fun _ => soundness_primitives.caught_fits

end Eval

def Outcome.Proper {α : Type} : Outcome α → Prop
  | .error e => e.Proper
  | _ => True

theorem Outcome.Proper.ne_internal {α : Type} {o : Outcome α} (proper : o.Proper)
    (fault : InternalFault) : o ≠ .error (.internal fault) := by
  rintro rfl
  exact proper

theorem Outcome.Fits.proper {α : Type} {Q : α → Prop} {o : Outcome α}
    (fits : o.Fits Interrupt.WellFormed Q) : o.Proper := by
  cases o with
  | value a => trivial
  | error e => exact fits
  | exhausted => trivial

namespace Session

variable {s : Session}

theorem clear_wellFormed (s : Session) : s.clear.WellFormed :=
  wellFormed_iff.mpr (.clear s fun _ => Value.Plain.wellFormed)

theorem hosted_wellFormed : Hosted Session.WellFormed Value.WellFormed Interrupt.WellFormed where
  program read rounds := Eval.Invariant.statements_keeps
    (Eval.respects_soundness (Eval.call_soundness rounds maxCallDepth))
    Eval.respectsStatements_soundness rounds _
    (Statement.allWellFormed_iff.mp (wellFormed_of_readProgram read))
  expression read rounds := Eval.Invariant.expression_keeps
    (Eval.respects_soundness (Eval.call_soundness rounds maxCallDepth))
    (wellFormed_of_readExpression read)
  write := Eval.soundness_primitives.write
  clear := clear_wellFormed
  last h known := ⟨Frame.Holds.set h.globals "_" known, h.calls⟩
  refused {e} refusal := by cases e <;> trivial
  misuse _ := trivial

theorem evaluate_proper (rounds : Nat) (source : String) (clearFirst : Bool) {last : Option Value}
    (read : ∀ v, last = some v → v.WellFormed) (wf : s.WellFormed) :
    (s.evaluate rounds source clearFirst last).1.Proper ∧
      (s.evaluate rounds source clearFirst last).2.WellFormed :=
  (hosted_wellFormed.evaluate rounds source clearFirst read wf).imp_left Outcome.Fits.proper

theorem evaluateExpression_proper (rounds : Nat) (source : String) (wf : s.WellFormed) :
    (s.evaluateExpression rounds source).1.Proper ∧
      (s.evaluateExpression rounds source).2.WellFormed :=
  (hosted_wellFormed.evaluateExpression rounds source wf).imp_left Outcome.Fits.proper

theorem evaluateFile_proper (rounds : Nat) (files : Files) (path : String) (clearFirst : Bool)
    (wf : s.WellFormed) :
    (s.evaluateFile rounds files path clearFirst).1.Proper ∧
      (s.evaluateFile rounds files path clearFirst).2.WellFormed :=
  (hosted_wellFormed.evaluateFile rounds files path clearFirst wf).imp_left Outcome.Fits.proper

theorem command_proper (rounds : Nat) (files : Files) (c : Command) (wf : s.WellFormed) :
    (s.command rounds files c).1.Proper ∧ (s.command rounds files c).2.WellFormed :=
  (hosted_wellFormed.command rounds files c wf).imp_left Outcome.Fits.proper

theorem Reachable.wellFormed (reachable : s.Reachable) : s.WellFormed := by
  induction reachable with
  | start console => exact clear_wellFormed (.ofConsole console)
  | evaluate rounds source clearFirst _ read ih =>
    exact (evaluate_proper rounds source clearFirst (fun v last => (read v last).wellFormed) ih).2
  | evaluateExpression rounds source _ ih => exact (evaluateExpression_proper rounds source ih).2
  | evaluateFile rounds files path clearFirst _ ih =>
    exact (evaluateFile_proper rounds files path clearFirst ih).2
  | command rounds files c _ ih => exact (command_proper rounds files c ih).2
  | clear _ _ => exact clear_wellFormed _
  | feed bytes _ ih => exact ⟨ih.globals, ih.calls⟩

/-- No session that can come about, and nothing that a host tells it, ends in an internal error: all
chains of comparisons in it are well formed, and every built-in function takes the arguments with
which it is entered. -/
theorem Reachable.never_internal (reachable : s.Reachable) (rounds : Nat) (files : Files) :
    s.WellFormed ∧
    (∀ source items, readProgram source = .ok items → Statement.AllWellFormed items) ∧
    (∀ (b : Builtin) args pos, b.arity.accepts args.length = true →
      ∀ fault, (b.call args pos s).1 ≠ .error (.error (.internal fault))) ∧
    (∀ source clearFirst last, (∀ v, last = some v → v.FromParser) →
      ∀ fault, (s.evaluate rounds source clearFirst last).1 ≠ .error (.internal fault)) ∧
    (∀ source fault, (s.evaluateExpression rounds source).1 ≠ .error (.internal fault)) ∧
    (∀ path clearFirst fault,
      (s.evaluateFile rounds files path clearFirst).1 ≠ .error (.internal fault)) ∧
    ∀ c fault, (s.command rounds files c).1 ≠ .error (.internal fault) := by
  have wf := reachable.wellFormed
  refine ⟨wf, fun _ _ => wellFormed_of_readProgram, ?_, ?_, ?_, ?_, ?_⟩
  · intro b args pos accepts fault failed
    obtain ⟨r, s', _, eq, -, fits, -⟩ :=
      Eval.soundness_primitives.builtin_keeps pos accepts s s ⟨rfl, wf⟩
    rw [eq] at failed
    subst failed
    exact fits
  · intro source clearFirst last read
    exact (evaluate_proper rounds source clearFirst
      (fun v given => (read v given).wellFormed) wf).1.ne_internal
  · exact fun source => (evaluateExpression_proper rounds source wf).1.ne_internal
  · exact fun path clearFirst => (evaluateFile_proper rounds files path clearFirst wf).1.ne_internal
  · exact fun c => (command_proper rounds files c wf).1.ne_internal

theorem Reachable.never_internal_second_program :
    let f : Function := ⟨⟨"f", default⟩, [], []⟩
    let s := (ofConsole (.ofInput [])).evaluate 9 "x = 1 < 2 <= 2;" false none
    (Builtin.call .abs [.int 1] default s.2).1 ≠
        .error (.error (.internal (.argumentCount "abs" 1))) ∧
      (s.2.evaluate 9 "_(abs(x) < 3)" true (some (.function f))).1 ≠
        .error (.internal (.malformedChain default)) := by
  have unset : ∀ v, (none : Option Value) = some v → v.FromParser := nofun
  have reachable := Reachable.evaluate 9 "x = 1 < 2 <= 2;" false (.start (.ofInput [])) unset
  refine ⟨(reachable.never_internal 9 fun _ => .error .notFound).2.2.1 .abs [.int 1] default rfl _,
    (reachable.never_internal 9 fun _ => .error .notFound).2.2.2.1 _ true _ ?_ _⟩
  rintro _ ⟨⟩
  exact ⟨[⟨.keyword .function, default, "func", none⟩, ⟨.identifier, default, "f", none⟩,
    ⟨.leftParen, default, "(", none⟩, ⟨.rightParen, default, ")", none⟩,
    ⟨.leftBrace, default, "\x7b", none⟩, ⟨.rightBrace, default, "\x7d", none⟩], _, rfl,
    .head []⟩

end Session

end CalcScript
