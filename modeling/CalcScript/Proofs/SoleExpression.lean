import CalcScript.Evaluation
import CalcScript.Proofs.Layout
import CalcScript.Proofs.Soundness

set_option autoImplicit false

namespace CalcScript

namespace Grammar

variable {room : Nat} {ts : List Token} {e : Expr}

theorem statements_single_iff : Statements room [.expression e] ts ↔
    ∃ used, Phrase room .disjunction true e used ∧
      (ts = used ∨ ∃ t, ts = used ++ [t] ∧ t.kind = .semicolon) := by
  constructor
  · intro h
    cases h with
    | last statement =>
      cases statement with
      | expression phrase => exact ⟨ts, phrase, .inl rfl⟩
    | simple statement separator more =>
      cases statement with
      | expression phrase =>
        cases more with
        | nil => exact ⟨_, phrase, .inr ⟨_, rfl, separator⟩⟩
    | compound statement more => cases statement
    | separated statement separator more => cases statement
  · rintro ⟨used, phrase, rfl | ⟨t, rfl, separator⟩⟩
    · exact .last (.expression phrase)
    · exact .simple (.expression phrase) separator .nil

theorem soleExpressionWithin_iff :
    Parse.soleExpressionWithin room ts = .ok e ↔
      Parse.programWithin room ts = .ok [.expression e] := by
  rw [soleExpressionWithin_eq_ok, programWithin_eq_ok, statements_single_iff]

end Grammar

section

variable {source : String} {ts : List Token} {e : Expr}

theorem significantTokens_of_blank (blank : Text.trim source.toList = [])
    (lexed : significantTokens source = .ok ts) : ts = [] := by
  obtain ⟨all, found, rfl⟩ := significantTokens_eq_ok.mp lexed
  exact (Scan.tokensFrom_eq_ok.mp found).blank (Text.trim_eq_nil.mp blank)

theorem readExpression_eq_ok :
    readExpression source = .ok e ↔ readProgram source = .ok [.expression e] := by
  unfold readExpression readProgram
  cases significantTokens source with
  | error fault => exact iff_of_false nofun nofun
  | ok ts => exact Grammar.soleExpressionWithin_iff

theorem nonblank_of_readExpression (read : readExpression source = .ok e) :
    Text.trim source.toList ≠ [] := by
  intro blank
  obtain ⟨ts, lexed, parsed⟩ := Parse.bind_eq_ok.mp read
  rw [significantTokens_of_blank blank lexed] at parsed
  cases parsed

end

theorem Session.runStatements_single (rounds : Nat) (e : Expr) (s : Session) :
    s.runStatements rounds [.expression e] =
      let answer := s.run (Eval.expression (Eval.call rounds maxCallDepth) e)
      (answer.1.map fun v => [v], answer.2) := by
  simp only [runStatements, run, Eval.statements, Eval.statement, Eval.bind_apply]
  rcases Eval.expression (Eval.call rounds maxCallDepth) e s with ⟨(i | signal | _) | v, t⟩ <;> rfl

/-- Tokens are an expression exactly when they are a program of that expression. -/
theorem expression_eq_program :
    (∀ ts e, parseExpression ts = .ok e ↔ parseProgram ts = .ok [.expression e]) ∧
    ∀ source e, readExpression source = .ok e → ∀ (rounds : Nat) (s : Session),
      let answer := s.evaluateExpression rounds source
      s.evaluate rounds source false none = (answer.1.map fun v => [v], answer.2) := by
  refine ⟨fun ts e => Grammar.soleExpressionWithin_iff, fun source e read rounds s => ?_⟩
  have program := readExpression_eq_ok.mp read
  have nonblank := nonblank_of_readExpression read
  simp only [Session.evaluate, if_neg nonblank, program, Session.evaluateExpression, read]
  exact Session.runStatements_single rounds e s

theorem expression_eq_program_division :
    let source := "(y = 2) / 0;"
    let s := Session.ofConsole (.ofInput [])
    let answer := s.evaluateExpression 0 source
    (∃ e, readExpression source = .ok e ∧ parseProgram [] ≠ .ok [.expression e]) ∧
      s.evaluate 0 source false none = (answer.1.map fun v => [v], answer.2) ∧
      answer.2.globals.get? "y" ≠ none := by
  intro source s answer
  have accepted : (readExpression source).isOk = true := by decide +kernel
  have bound : (answer.2.globals.get? "y").isSome = true := by decide +kernel
  cases read : readExpression source with
  | error fault =>
    rw [read] at accepted
    cases accepted
  | ok e =>
    refine ⟨⟨e, rfl, fun parsed => ?_⟩, expression_eq_program.2 source e read 0 s, ?_⟩
    · cases (expression_eq_program.1 [] e).mpr parsed
    · exact Option.isSome_iff_ne_none.mp bound

end CalcScript
