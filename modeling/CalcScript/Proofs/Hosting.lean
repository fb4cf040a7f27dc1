import CalcScript.Command
import CalcScript.Proofs.Holding

set_option autoImplicit false

namespace CalcScript

def Error.Refusal : Error → Prop
  | .source _ | .io _ | .unknownCommand _ => True
  | _ => False

def Session.started (clearFirst : Bool) (last : Option Value) (s : Session) : Session :=
  let s := if clearFirst then s.clear else s
  match last with
  | some v => { s with globals := s.globals.set "_" v }
  | none => s

def Outcome.Fits {α : Type} (interrupt : Interrupt → Prop) (Q : α → Prop) : Outcome α → Prop
  | .value a => Q a
  | .error e => interrupt (.error e)
  | .exhausted => True

theorem Outcome.Fits.map {α β : Type} {interrupt : Interrupt → Prop} {Q : α → Prop} {R : β → Prop}
    {o : Outcome α} (fits : o.Fits interrupt Q) {f : α → β} (stays : ∀ a, Q a → R (f a)) :
    (o.map f).Fits interrupt R := by
  cases o with
  | value a => exact stays a fits
  | error e => exact fits
  | exhausted => trivial

open Eval.Invariant (single keeps_single)

theorem Session.run_fits {P : Session → Prop} {value : Value → Prop} {interrupt : Interrupt → Prop}
    (misuse : ∀ {s : Signal}, interrupt (.signal s) → interrupt (.error (.misuse s))) {α : Type}
    {Q : α → Prop} {m : Eval α} {s : Session} (keeps : (single P value interrupt).Keeps Q m)
    (h : P s) : (s.run m).1.Fits interrupt Q ∧ P (s.run m).2 := by
  obtain ⟨fits, after⟩ := keeps_single.mp keeps s h
  refine ⟨?_, after⟩
  change (Outcome.ofResult (m s).1).Fits interrupt Q
  rcases result : (m s).1 with (e | signal | _) | a
  all_goals rw [result] at fits
  · exact fits
  · exact misuse fits
  · trivial
  · exact fits

structure Hosted (P : Session → Prop) (value : Value → Prop) (interrupt : Interrupt → Prop) :
    Prop where
  program {source : String} {items : List Statement} (read : readProgram source = .ok items)
    (rounds : Nat) : (single P value interrupt).Keeps (∀ v ∈ ·, value v)
      (Eval.statements rounds (Eval.call rounds maxCallDepth) items)
  expression {source : String} {e : Expr} (read : readExpression source = .ok e) (rounds : Nat) :
    (single P value interrupt).Keeps value (Eval.expression (Eval.call rounds maxCallDepth) e)
  write (text : String) : (single P value interrupt).Keeps Any (Eval.write text)
  clear (s : Session) : P s.clear
  last {s : Session} {v : Value} (h : P s) (known : value v) :
    P { s with globals := s.globals.set "_" v }
  refused {e : Error} (h : e.Refusal) : interrupt (.error e)
  misuse {s : Signal} (h : interrupt (.signal s)) : interrupt (.error (.misuse s))

namespace Hosted

variable {P : Session → Prop} {value : Value → Prop} {interrupt : Interrupt → Prop} {s : Session}
  (hosted : Hosted P value interrupt)

include hosted

theorem run {α : Type} {Q : α → Prop} {m : Eval α} (keeps : (single P value interrupt).Keeps Q m)
    (h : P s) : (s.run m).1.Fits interrupt Q ∧ P (s.run m).2 :=
  Session.run_fits hosted.misuse keeps h

theorem started (clearFirst : Bool) {last : Option Value} (supplied : ∀ v, last = some v → value v)
    (h : P s) : P (s.started clearFirst last) := by
  have start : P (if clearFirst then s.clear else s) := by
    split
    · exact hosted.clear s
    · exact h
  cases last with
  | none => exact start
  | some v => exact hosted.last start (supplied v rfl)

theorem evaluate (rounds : Nat) (source : String) (clearFirst : Bool) {last : Option Value}
    (supplied : ∀ v, last = some v → value v) (h : P s) :
    (s.evaluate rounds source clearFirst last).1.Fits interrupt (∀ v ∈ ·, value v) ∧
      P (s.evaluate rounds source clearFirst last).2 := by
  unfold Session.evaluate
  split
  · exact ⟨List.forall_mem_nil _, h⟩
  · split
    · exact ⟨hosted.refused trivial, h⟩
    · next items read =>
      exact hosted.run (hosted.program read rounds) (hosted.started clearFirst supplied h)

theorem evaluateExpression (rounds : Nat) (source : String) (h : P s) :
    (s.evaluateExpression rounds source).1.Fits interrupt value ∧
      P (s.evaluateExpression rounds source).2 := by
  unfold Session.evaluateExpression
  split
  · exact ⟨hosted.refused trivial, h⟩
  · next e read => exact hosted.run (hosted.expression read rounds) h

theorem evaluateFile (rounds : Nat) (files : Files) (path : String) (clearFirst : Bool) (h : P s) :
    (s.evaluateFile rounds files path clearFirst).1.Fits interrupt (∀ v ∈ ·, value v) ∧
      P (s.evaluateFile rounds files path clearFirst).2 := by
  unfold Session.evaluateFile
  split
  · exact ⟨hosted.refused trivial, h⟩
  · exact hosted.evaluate rounds _ clearFirst nofun h

theorem command (rounds : Nat) (files : Files) (c : Command) (h : P s) :
    (s.command rounds files c).1.Fits interrupt Any ∧ P (s.command rounds files c).2 := by
  cases c with
  | vars | help | usage => exact hosted.run (hosted.write _) h
  | load path =>
    obtain ⟨fits, after⟩ := hosted.evaluateFile rounds files path false h
    exact ⟨fits.map fun _ _ => trivial, after⟩
  | unknown name => exact ⟨hosted.refused trivial, h⟩

end Hosted

end CalcScript
