import CalcScript.Proofs.Comparisons
import CalcScript.Proofs.Hosts
import CalcScript.Proofs.Layout
import CalcScript.Proofs.Reachable

set_option autoImplicit false

namespace CalcScript

theorem Scan.same_of_literal? {kind : TokenKind} {cs : List Char} {v : Literal}
    (read : literal? kind cs = .ok (some v)) : v.same v = true := by
  unfold literal? at read
  split at read
  · dsimp only at read
    split at read
    · cases read
      exact Literal.same_int.mpr rfl
    · cases read
  · split at read
    · next d _ =>
      cases read
      exact Literal.same_float.mpr ⟨_, rfl, Binary64.beq_self (Binary64.isNaN_decimal d)⟩
    · cases read
  · cases read
    exact Literal.same_string.mpr rfl
  · cases read

theorem Token.mark_proper {t : Token} (valid : Scan.Valid t) : t.mark.Proper := by
  have read := valid.literal
  unfold mark
  split
  case h_2 value | h_3 value | h_4 value =>
    rw [value] at read
    exact Scan.same_of_literal? read
  all_goals trivial

theorem significantTokens_proper {source : String} {ts : List Token}
    (lexed : significantTokens source = .ok ts) : ∀ m ∈ code ts, m.Proper := by
  obtain ⟨us, found, rfl⟩ := significantTokens_eq_ok.mp lexed
  rintro m member
  obtain ⟨t, inside, rfl⟩ := List.mem_map.mp member
  have inside := List.mem_of_mem_filter (List.mem_of_mem_filter inside)
  exact Token.mark_proper ((Scan.tokensFrom_eq_ok.mp found).valid t inside)

def Mark.place? : Mark → Option Position
  | .name i => some i.pos
  | _ => none

theorem Token.place?_mark (t : Token) : t.mark.place? = none ∨ t.mark.place? = some t.pos := by
  unfold mark
  split
  case h_1 => exact .inr rfl
  all_goals exact .inl rfl

theorem places_sublist (ts : List Token) :
    ((code ts).filterMap Mark.place?).Sublist (ts.map (·.pos)) := by
  induction ts with
  | nil => exact List.Sublist.refl []
  | cons t ts ih =>
    rw [List.map_cons]
    by_cases groups : t.kind.groups = true
    · rw [code_group ts rfl groups]
      exact ih.cons t.pos
    · rw [code_mark ts (Bool.eq_false_iff.mpr groups)]
      rcases t.place?_mark with nowhere | here
      · rw [List.filterMap_cons_none nowhere]
        exact ih.cons t.pos
      · rw [List.filterMap_cons_some here]
        exact ih.cons_cons t.pos

mutual

theorem Statement.functions_sublist : ∀ s : Statement,
    (s.functions.map (Mark.name ·.name)).Sublist s.marks
  | .expression e => List.nil_sublist _
  | .control kind none pos | .control kind (some e) pos => List.nil_sublist _
  | .branch c body otherwise pos => by
    rw [functions, marks, List.map_append]
    exact (((allFunctions_sublist body).append (elseFunctions_sublist otherwise)).trans
      (List.sublist_append_right _ _)).cons _
  | .loop c body pos => by
    rw [functions, marks]
    exact ((allFunctions_sublist body).trans (List.sublist_append_right _ _)).cons _
  | .function name params body => by
    rw [functions, marks, List.map_cons]
    exact (((allFunctions_sublist body).trans (List.sublist_append_right _ _)).cons_cons _).cons _

theorem Statement.allFunctions_sublist : ∀ items : List Statement,
    ((Statement.allFunctions items).map (Mark.name ·.name)).Sublist (Statement.allMarks items)
  | [] => List.Sublist.refl []
  | s :: items => by
    rw [allFunctions, allMarks, List.map_append]
    exact (functions_sublist s).append (allFunctions_sublist items)

theorem Statement.elseFunctions_sublist : ∀ otherwise : Option (List Statement),
    ((Statement.elseFunctions otherwise).map (Mark.name ·.name)).Sublist
      (Statement.elseMarks otherwise)
  | none => List.Sublist.refl []
  | some body => allFunctions_sublist body

end

theorem functions_apart {source : String} {items : List Statement}
    (read : readProgram source = .ok items) :
    (Statement.allFunctions items).Pairwise fun f g => f.name.pos ≠ g.name.pos := by
  obtain ⟨ts, lexed, parsed⟩ := Parse.bind_eq_ok.mp read
  have apart := significantTokens_apart lexed
  have named : (Statement.allFunctions items).map (·.name.pos) =
      ((Statement.allFunctions items).map (Mark.name ·.name)).filterMap Mark.place? := by
    rw [List.filterMap_map]
    exact (congrFun List.filterMap_eq_map' _).symm
  have inside := (Statement.allFunctions_sublist items).filterMap Mark.place?
  rw [(Grammar.programWithin_eq_ok.mp parsed).marks_eq apart, ← named] at inside
  exact List.pairwise_map.mp (apart.sublist (inside.trans (places_sublist ts)))

structure Statement.Inward (okay : Statement → Prop) : Prop where
  branch {c : Expr} {body : List Statement} {otherwise : Option (List Statement)} {pos : Position}
    (h : okay (.branch c body otherwise pos)) :
    (∀ s ∈ body, okay s) ∧ ∀ other, otherwise = some other → ∀ s ∈ other, okay s
  loop {c : Expr} {body : List Statement} {pos : Position} (h : okay (.loop c body pos)) :
    ∀ s ∈ body, okay s
  function {name : Identifier} {params : List Identifier} {body : List Statement}
    (h : okay (.function name params body)) : ∀ s ∈ body, okay s

mutual

theorem Statement.Inward.functions {okay : Statement → Prop} (inward : Inward okay) :
    ∀ s : Statement, okay s → ∀ f ∈ s.functions, ∀ t ∈ f.body, okay t
  | .expression e, _ => List.forall_mem_nil _
  | .control kind value pos, _ => List.forall_mem_nil _
  | .branch c body none pos, h => by
    rw [Statement.functions, elseFunctions, List.append_nil]
    exact inward.allFunctions body (inward.branch h).1
  | .branch c body (some other) pos, h => by
    rw [Statement.functions, elseFunctions]
    exact List.forall_mem_append.mpr ⟨inward.allFunctions body (inward.branch h).1,
      inward.allFunctions other ((inward.branch h).2 other rfl)⟩
  | .loop c body pos, h => by
    rw [Statement.functions]
    exact inward.allFunctions body (inward.loop h)
  | .function name params body, h => by
    rw [Statement.functions]
    exact List.forall_mem_cons.mpr
      ⟨inward.function h, inward.allFunctions body (inward.function h)⟩

theorem Statement.Inward.allFunctions {okay : Statement → Prop} (inward : Inward okay) :
    ∀ items : List Statement, (∀ s ∈ items, okay s) →
      ∀ f ∈ Statement.allFunctions items, ∀ t ∈ f.body, okay t
  | [], _ => List.forall_mem_nil _
  | s :: items, h => by
    rw [Statement.allFunctions]
    exact List.forall_mem_append.mpr ⟨inward.functions s (h s (.head items)),
      inward.allFunctions items fun t member => h t (.tail s member)⟩

end

theorem Statement.forall_allMarks {P : Mark → Prop} {items : List Statement} :
    (∀ m ∈ Statement.allMarks items, P m) ↔ ∀ s ∈ items, ∀ m ∈ s.marks, P m := by
  induction items with
  | nil => simp [allMarks]
  | cons s items ih => simp only [allMarks, List.forall_mem_append, List.forall_mem_cons, ih]

theorem Statement.inward_proper : Inward fun s => ∀ m ∈ s.marks, m.Proper where
  branch {c body otherwise pos} h := by
    rw [marks, List.forall_mem_cons, List.forall_mem_append, List.forall_mem_append] at h
    refine ⟨forall_allMarks.mp h.2.2.1, ?_⟩
    rintro other rfl
    exact forall_allMarks.mp h.2.2.2
  loop h := by
    rw [marks, List.forall_mem_cons, List.forall_mem_append] at h
    exact forall_allMarks.mp h.2.2
  function h := by
    rw [marks, List.forall_mem_cons, List.forall_mem_cons, List.forall_mem_append] at h
    exact forall_allMarks.mp h.2.2.2

theorem Statement.forall_allFunctions {P : Function → Prop} {items : List Statement} :
    (∀ f ∈ Statement.allFunctions items, P f) ↔ ∀ s ∈ items, ∀ f ∈ s.functions, P f := by
  simp only [mem_allFunctions]
  grind

theorem Statement.inward_functions (P : Function → Prop) :
    Inward fun s => ∀ f ∈ s.functions, P f where
  branch {c body otherwise pos} h := by
    rw [functions, List.forall_mem_append] at h
    refine ⟨forall_allFunctions.mp h.1, ?_⟩
    rintro other rfl
    exact forall_allFunctions.mp h.2
  loop h := by
    rw [functions] at h
    exact forall_allFunctions.mp h
  function h := by
    rw [functions, List.forall_mem_cons] at h
    exact forall_allFunctions.mp h.2

def Function.Authored (f : Function) : Prop :=
  ∃ source items, readProgram source = .ok items ∧ f ∈ Statement.allFunctions items

def Statement.Authored (s : Statement) : Prop := ∀ f ∈ s.functions, f.Authored

def Value.Authored : Value → Prop
  | .function f => f.Authored
  | _ => True

theorem Statement.authored_of_read {source : String} {items : List Statement}
    (read : readProgram source = .ok items) : ∀ s ∈ items, s.Authored :=
  Statement.forall_allFunctions.mp fun _ member => ⟨source, items, read, member⟩

theorem Function.Authored.body {f : Function} (authored : f.Authored) :
    ∀ s ∈ f.body, s.Authored := by
  obtain ⟨source, items, read, member⟩ := authored
  exact (Statement.inward_functions Function.Authored).allFunctions items
    (Statement.authored_of_read read) f member

theorem Function.Authored.same {f : Function} (authored : f.Authored) : f.same f = true := by
  obtain ⟨source, items, read, member⟩ := authored
  obtain ⟨ts, lexed, parsed⟩ := Parse.bind_eq_ok.mp read
  have marks := (Grammar.programWithin_eq_ok.mp parsed).marks_eq (significantTokens_apart lexed)
  have proper := marks ▸ significantTokens_proper lexed
  have inside := Statement.inward_proper.allFunctions items
    (Statement.forall_allMarks.mp proper) f member
  have body := Statement.sameAll_self f.body (Statement.forall_allMarks.mpr inside)
  exact same_iff.mpr ⟨rfl, rfl, body⟩

theorem Value.Plain.authored {v : Value} (plain : v.Plain) : v.Authored := by
  cases v with
  | function f => exact plain.elim
  | int n | float x | string s | nothing => trivial

def Interrupt.Authored : Interrupt → Prop
  | .error (.misuse s) | .signal s => ∀ v, s.value = some v → v.Authored
  | _ => True

theorem Error.Raised.authored {e : Error} (raised : e.Raised) : (Interrupt.error e).Authored := by
  cases e with
  | misuse signal => exact raised.elim
  | source e | name pos fault | type pos fault | math pos fault | overflow pos | recursion pos
  | internal fault | io fault | unknownCommand name => trivial

namespace Eval

def authored : Invariant := holding Value.Authored Interrupt.Authored

theorem authored_operations : authored.Operations :=
  holding_operations (fun _ => Value.Plain.authored) (fun _ => Error.Raised.authored) trivial

theorem inheritedStatements_authored : Invariant.InheritedStatements Any Statement.Authored where
  expression _ := trivial
  branch h := ⟨trivial, (Statement.inward_functions Function.Authored).branch h⟩
  loop h := ⟨trivial, (Statement.inward_functions Function.Authored).loop h⟩
  result _ := trivial

theorem authored_respects {caller : Caller} (calls : ∀ (f : Function) args pos, f.Authored →
    (∀ v ∈ args, v.Authored) → authored.Keeps Value.Authored (caller f args pos)) :
    authored.Respects Any caller :=
  authored_operations.respects .any (fun _ => nofun) (fun _ _ _ _ _ => trivial) calls

theorem authored_statements : authored.RespectsStatements Any Statement.Authored :=
  authored_operations.respectsStatements inheritedStatements_authored
    (fun _ _ _ values => values) fun _ _ _ h _ _ => h _ (.head _)

theorem call_authored (rounds room : Nat) (f : Function) (args : List Value) (pos : Position)
    (function : f.Authored) (values : ∀ v ∈ args, v.Authored) :
    authored.Keeps Value.Authored (call rounds room f args pos) := by
  induction room generalizing f args pos with
  | zero => exact .interrupt trivial
  | succ room ih =>
    have body := Invariant.block_keeps (authored_respects ih) authored_statements rounds f.body
      function.body
    exact call_holds pos values body fun _ =>
      Invariant.caught_fits trivial (fun _ => id) fun s v (known : (Interrupt.signal s).Authored) =>
        known v

end Eval

theorem Session.watched_authored :
    Watched (Session.Holds Value.Authored) Value.Authored Interrupt.Authored Any
      Statement.Authored where
  maintains rounds := Traced.call_maintains Eval.authored_operations rounds
    (fun room => Eval.authored_respects (Eval.call_authored rounds room))
    Eval.authored_statements (fun _ => Function.Authored.body)
    (fun f _ _ _ values h => ⟨h.globals,
      List.forall_mem_cons.mpr ⟨Eval.arguments_holds f.params values, h.calls⟩⟩) maxCallDepth []
  items := Statement.authored_of_read
  sole _ := trivial
  clear s := .clear s fun _ => Value.Plain.authored
  last h known := ⟨h.globals.set "_" known, h.calls⟩
  streams _ h := ⟨h.globals, h.calls⟩
  bound h found := h.globals _ _ found
  refused {e} refusal := by cases e <;> trivial
  misuse carried := carried
  carried h := h _

theorem Event.result_authored {ev : Event} (session : ev.session.Holds Value.Authored)
    (act : ev.act.Fits Any Statement.Authored Value.Authored) (rounds : Nat) {v : Value}
    (value : ev.result rounds = .ok v) : v.Authored := by
  have ended := (Traced.ended_kept Eval.authored_operations rounds
    (fun room => Eval.authored_respects (Eval.call_authored rounds room))
    Eval.authored_statements (Eval.call_authored rounds) (fun _ => nofun) session act).1
  rw [value] at ended
  exact ended

theorem Comparison.equal_functions (f g : Function) (pos : Position) :
    Comparison.compare .equal (.function f) (.function g) pos = .ok (f.same g) := rfl

/-- Equality is an equivalence of the functions that some text defines, and `!=` its negation. -/
theorem function_equality (pos : Position) :
    (Equivalence fun f g : { f : Function // f.Authored } =>
      Comparison.compare .equal (.function f) (.function g) pos = .ok true) ∧
    (∀ f g : Function, ∃ b, Comparison.compare .equal (.function f) (.function g) pos = .ok b ∧
      Comparison.compare .notEqual (.function f) (.function g) pos = .ok !b) ∧
    (∀ source items, readProgram source = .ok items →
      (Statement.allFunctions items).Pairwise fun f g =>
        Comparison.compare .equal (.function f) (.function g) pos = .ok false) ∧
    (∀ v : Value, v.Produced → v.Authored) ∧
    ∀ s : Session, s.Reached →
      ∀ request : Request, (∀ v, request.supplied? = some v → v.Produced) →
        ∀ ev ∈ s.events request, ev.session.Holds Value.Authored ∧
          (∀ target args place, ev.act = .call target args place → ∀ v ∈ args, v.Authored) ∧
          ∀ rounds v, ev.result rounds = .ok v → v.Authored := by
  refine ⟨⟨?_, ?_, ?_⟩, ?_, ?_, fun v => Session.watched_authored.produced, ?_⟩
  · exact fun f => congrArg Except.ok f.2.same
  · intro f g alike
    exact congrArg Except.ok (Function.same_symm (Except.ok.inj alike))
  · intro f g h first second
    exact congrArg Except.ok (Function.same_trans (Except.ok.inj first) (Except.ok.inj second))
  · exact fun f g => ⟨f.same g, rfl, rfl⟩
  · intro source items read
    refine (functions_apart read).imp fun {f g} apart => ?_
    rw [Comparison.equal_functions, Except.ok.injEq, ← Bool.not_eq_true]
    exact fun alike => apart (congrArg (·.pos) (Function.same_iff.mp alike).1)
  · intro s reached request supplied ev member
    obtain ⟨session, act⟩ := Session.watched_authored.events
      (Session.watched_authored.reached reached)
      (fun v given => Session.watched_authored.produced (supplied v given)) ev member
    refine ⟨session, ?_, fun rounds v value => ev.result_authored session act rounds value⟩
    intro target args place call
    rw [call] at act
    cases target with
    | user f => exact act.2
    | builtin b => exact act.2

def Event.passesFunction (ev : Event) : Bool :=
  match ev.act with
  | .call (.user _) [.function _] _ => true
  | _ => false

theorem function_equality_twice :
    let source := "func f(x) \x7b return 0.5; \x7d g = f; func f(x) \x7b return 0.5; \x7d f(g)"
    let s := Session.ofConsole (.ofInput [])
    let request := Request.evaluate 9 source false none
    (∃ items, readProgram source = .ok items ∧ (Statement.allFunctions items).length = 2 ∧
      (∀ f ∈ Statement.allFunctions items,
        Comparison.compare .equal (.function f) (.function f) default = .ok true) ∧
      (Statement.allFunctions items).Pairwise fun f g =>
        Comparison.compare .equal (.function f) (.function g) default = .ok false) ∧
    ∃ ev ∈ s.events request, ev.passesFunction = true ∧
      ev.session.Holds Value.Authored ∧
      ∀ target args place, ev.act = .call target args place → ∀ v ∈ args, v.Authored := by
  intro source s request
  obtain ⟨equivalence, -, apart, -, onTheWay⟩ := function_equality default
  constructor
  · have two : (readProgram source).toOption.map (Statement.allFunctions · |>.length) = some 2 := by
      decide +kernel
    cases read : readProgram source with
    | error e =>
      rw [read] at two
      cases two
    | ok items =>
      rw [read] at two
      exact ⟨items, rfl, Option.some.inj two,
        fun f member => equivalence.refl ⟨f, source, items, read, member⟩, apart source items read⟩
  · have passed : (s.events request).any Event.passesFunction = true := by
      decide +kernel
    obtain ⟨ev, member, passes⟩ := List.any_eq_true.mp passed
    have supplied : ∀ v, request.supplied? = some v → v.Produced := by
      rintro v ⟨⟩
    obtain ⟨session, args, -⟩ := onTheWay s (.start (.ofInput [])) request supplied ev member
    exact ⟨ev, member, passes, session, args⟩

end CalcScript
