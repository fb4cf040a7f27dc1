import CalcScript.Proofs.FloatOrder
import CalcScript.Proofs.SourceOrder

set_option autoImplicit false

namespace CalcScript

namespace Literal

theorem same_int {m : Int64} {v : Literal} : (Literal.int m).same v = true ↔ v = .int m := by
  cases v <;> simp [same]
  exact eq_comm

theorem same_float {x : Float} {v : Literal} :
    (Literal.float x).same v = true ↔ ∃ y, v = .float y ∧ (x == y) = true := by
  cases v <;> simp [same]

theorem same_string {s : String} {v : Literal} :
    (Literal.string s).same v = true ↔ v = .string s := by
  cases v <;> simp [same]
  exact eq_comm

theorem same_symm {v w : Literal} (alike : v.same w = true) : w.same v = true := by
  cases v with
  | int m => exact same_int.mp alike ▸ same_int.mpr rfl
  | float x =>
    obtain ⟨y, rfl, equal⟩ := same_float.mp alike
    exact same_float.mpr ⟨x, rfl, Binary64.beq_symm equal⟩
  | string s => exact same_string.mp alike ▸ same_string.mpr rfl

theorem same_trans {u v w : Literal} (first : u.same v = true) (second : v.same w = true) :
    u.same w = true := by
  cases u with
  | int m => exact same_int.mp first ▸ second
  | float x =>
    obtain ⟨y, rfl, left⟩ := same_float.mp first
    obtain ⟨z, rfl, right⟩ := same_float.mp second
    exact same_float.mpr ⟨z, rfl, Binary64.beq_trans left right⟩
  | string s => exact same_string.mp first ▸ second

end Literal

namespace Expr

attribute [local simp] same sameAll

variable {e f : Expr} {es fs : List Expr} {pos : Position}

theorem same_literal {v : Literal} :
    (Expr.literal v pos).same f = true ↔ ∃ w, f = .literal w pos ∧ v.same w = true := by
  cases f <;> simp; grind

theorem same_variable {x : Identifier} :
    (Expr.variable x).same f = true ↔ f = .variable x := by
  cases f <;> simp
  exact eq_comm

theorem same_unary {op : UnaryOp} :
    (Expr.unary op e pos).same f = true ↔ ∃ e', f = .unary op e' pos ∧ e.same e' = true := by
  cases f <;> simp; grind

theorem same_binary {op : BinaryOp} {l r : Expr} :
    (Expr.binary op l r pos).same f = true ↔
      ∃ l' r', f = .binary op l' r' pos ∧ l.same l' = true ∧ r.same r' = true := by
  cases f <;> simp; grind

theorem same_logical {op : LogicalOp} {l r : Expr} :
    (Expr.logical op l r pos).same f = true ↔
      ∃ l' r', f = .logical op l' r' pos ∧ l.same l' = true ∧ r.same r' = true := by
  cases f <;> simp; grind

theorem same_assignment {x : Identifier} :
    (Expr.assignment x e).same f = true ↔ ∃ e', f = .assignment x e' ∧ e.same e' = true := by
  cases f <;> simp; grind

theorem same_comparison {ops : List ComparisonOp} :
    (Expr.comparison es ops pos).same f = true ↔
      ∃ es', f = .comparison es' ops pos ∧ Expr.sameAll es es' = true := by
  cases f <;> simp; grind

theorem same_call {callee : Identifier} :
    (Expr.call callee es).same f = true ↔
      ∃ es', f = .call callee es' ∧ Expr.sameAll es es' = true := by
  cases f <;> simp; grind

theorem sameAll_nil : Expr.sameAll [] fs = true ↔ fs = [] := by
  cases fs <;> simp

theorem sameAll_cons : Expr.sameAll (e :: es) fs = true ↔
    ∃ f gs, fs = f :: gs ∧ e.same f = true ∧ Expr.sameAll es gs = true := by
  cases fs <;> simp

end Expr

namespace Statement

attribute [local simp] same sameAll

variable {s t : Statement} {c : Expr} {ss ts body : List Statement} {pos : Position}

theorem same_expression : (Statement.expression c).same t = true ↔
    ∃ c', t = .expression c' ∧ c.same c' = true := by
  cases t <;> simp

theorem same_branch {otherwise : Option (List Statement)} :
    (Statement.branch c body otherwise pos).same t = true ↔
      ∃ c' body' otherwise', t = .branch c' body' otherwise' pos ∧ c.same c' = true ∧
        Statement.sameAll body body' = true ∧
          Option.Rel (fun o o' => Statement.sameAll o o' = true) otherwise otherwise' := by
  cases otherwise <;> cases t with
  | branch c' body' otherwise' pos' =>
    cases otherwise' <;> simp
    all_goals grind
  | _ => simp

theorem same_loop : (Statement.loop c body pos).same t = true ↔
    ∃ c' body', t = .loop c' body' pos ∧ c.same c' = true ∧
      Statement.sameAll body body' = true := by
  cases t <;> simp; grind

theorem same_function {name : Identifier} {params : List Identifier} :
    (Statement.function name params body).same t = true ↔
      ∃ body', t = .function name params body' ∧ Statement.sameAll body body' = true := by
  cases t <;> simp; grind

theorem same_control {kind : ControlKind} {value : Option Expr} :
    (Statement.control kind value pos).same t = true ↔
      ∃ value', t = .control kind value' pos ∧
        Option.Rel (fun e e' => Expr.same e e' = true) value value' := by
  cases value <;> cases t with
  | control kind' value' pos' =>
    cases value' <;> simp
    all_goals grind
  | _ => simp

theorem sameAll_nil : Statement.sameAll [] ts = true ↔ ts = [] := by
  cases ts <;> simp

theorem sameAll_cons : Statement.sameAll (s :: ss) ts = true ↔
    ∃ t us, ts = t :: us ∧ s.same t = true ∧ Statement.sameAll ss us = true := by
  cases ts <;> simp

end Statement

mutual

theorem Expr.same_symm : ∀ {e f : Expr}, e.same f = true → f.same e = true
  | .literal v pos, f, alike => by
    obtain ⟨w, rfl, values⟩ := same_literal.mp alike
    exact same_literal.mpr ⟨v, rfl, Literal.same_symm values⟩
  | .variable x, f, alike => by
    rw [same_variable.mp alike, same_variable]
  | .unary op e pos, f, alike => by
    obtain ⟨e', rfl, operands⟩ := same_unary.mp alike
    exact same_unary.mpr ⟨e, rfl, same_symm operands⟩
  | .binary op l r pos, f, alike => by
    obtain ⟨l', r', rfl, left, right⟩ := same_binary.mp alike
    exact same_binary.mpr ⟨l, r, rfl, same_symm left, same_symm right⟩
  | .logical op l r pos, f, alike => by
    obtain ⟨l', r', rfl, left, right⟩ := same_logical.mp alike
    exact same_logical.mpr ⟨l, r, rfl, same_symm left, same_symm right⟩
  | .assignment x e, f, alike => by
    obtain ⟨e', rfl, values⟩ := same_assignment.mp alike
    exact same_assignment.mpr ⟨e, rfl, same_symm values⟩
  | .comparison es ops pos, f, alike => by
    obtain ⟨es', rfl, operands⟩ := same_comparison.mp alike
    exact same_comparison.mpr ⟨es, rfl, sameAll_symm operands⟩
  | .call callee es, f, alike => by
    obtain ⟨es', rfl, arguments⟩ := same_call.mp alike
    exact same_call.mpr ⟨es, rfl, sameAll_symm arguments⟩

theorem Expr.sameAll_symm : ∀ {es fs : List Expr},
    Expr.sameAll es fs = true → Expr.sameAll fs es = true
  | [], fs, alike => by rw [sameAll_nil.mp alike, sameAll_nil]
  | e :: es, fs, alike => by
    obtain ⟨f, gs, rfl, first, later⟩ := sameAll_cons.mp alike
    exact sameAll_cons.mpr ⟨e, es, rfl, same_symm first, sameAll_symm later⟩

end

mutual

theorem Expr.same_trans : ∀ {e f g : Expr}, e.same f = true → f.same g = true → e.same g = true
  | .literal v pos, f, g, first, second => by
    obtain ⟨w, rfl, left⟩ := same_literal.mp first
    obtain ⟨u, rfl, right⟩ := same_literal.mp second
    exact same_literal.mpr ⟨u, rfl, Literal.same_trans left right⟩
  | .variable x, f, g, first, second => same_variable.mp first ▸ second
  | .unary op e pos, f, g, first, second => by
    obtain ⟨f, rfl, left⟩ := same_unary.mp first
    obtain ⟨g, rfl, right⟩ := same_unary.mp second
    exact same_unary.mpr ⟨g, rfl, same_trans left right⟩
  | .binary op l r pos, f, g, first, second => by
    obtain ⟨l', r', rfl, left, right⟩ := same_binary.mp first
    obtain ⟨l'', r'', rfl, left', right'⟩ := same_binary.mp second
    exact same_binary.mpr ⟨l'', r'', rfl, same_trans left left', same_trans right right'⟩
  | .logical op l r pos, f, g, first, second => by
    obtain ⟨l', r', rfl, left, right⟩ := same_logical.mp first
    obtain ⟨l'', r'', rfl, left', right'⟩ := same_logical.mp second
    exact same_logical.mpr ⟨l'', r'', rfl, same_trans left left', same_trans right right'⟩
  | .assignment x e, f, g, first, second => by
    obtain ⟨f, rfl, left⟩ := same_assignment.mp first
    obtain ⟨g, rfl, right⟩ := same_assignment.mp second
    exact same_assignment.mpr ⟨g, rfl, same_trans left right⟩
  | .comparison es ops pos, f, g, first, second => by
    obtain ⟨fs, rfl, left⟩ := same_comparison.mp first
    obtain ⟨gs, rfl, right⟩ := same_comparison.mp second
    exact same_comparison.mpr ⟨gs, rfl, sameAll_trans left right⟩
  | .call callee es, f, g, first, second => by
    obtain ⟨fs, rfl, left⟩ := same_call.mp first
    obtain ⟨gs, rfl, right⟩ := same_call.mp second
    exact same_call.mpr ⟨gs, rfl, sameAll_trans left right⟩

theorem Expr.sameAll_trans : ∀ {es fs gs : List Expr},
    Expr.sameAll es fs = true → Expr.sameAll fs gs = true → Expr.sameAll es gs = true
  | [], fs, gs, first, second => sameAll_nil.mp first ▸ second
  | e :: es, fs, gs, first, second => by
    obtain ⟨f, fs, rfl, left, lefts⟩ := sameAll_cons.mp first
    obtain ⟨g, gs, rfl, right, rights⟩ := sameAll_cons.mp second
    exact sameAll_cons.mpr ⟨g, gs, rfl, same_trans left right, sameAll_trans lefts rights⟩

end

mutual

theorem Statement.same_symm : ∀ {s t : Statement}, s.same t = true → t.same s = true
  | .expression e, t, alike => by
    obtain ⟨e', rfl, values⟩ := same_expression.mp alike
    exact same_expression.mpr ⟨e, rfl, Expr.same_symm values⟩
  | .branch c body none pos, t, alike => by
    obtain ⟨c', body', _, rfl, conditions, bodies, ⟨⟩⟩ := same_branch.mp alike
    exact same_branch.mpr
      ⟨c, body, none, rfl, Expr.same_symm conditions, sameAll_symm bodies, .none⟩
  | .branch c body (some otherwise) pos, t, alike => by
    obtain ⟨c', body', _, rfl, conditions, bodies, ⟨others⟩⟩ := same_branch.mp alike
    exact same_branch.mpr ⟨c, body, some otherwise, rfl, Expr.same_symm conditions,
      sameAll_symm bodies, .some (sameAll_symm others)⟩
  | .loop c body pos, t, alike => by
    obtain ⟨c', body', rfl, conditions, bodies⟩ := same_loop.mp alike
    exact same_loop.mpr ⟨c, body, rfl, Expr.same_symm conditions, sameAll_symm bodies⟩
  | .function name params body, t, alike => by
    obtain ⟨body', rfl, bodies⟩ := same_function.mp alike
    exact same_function.mpr ⟨body, rfl, sameAll_symm bodies⟩
  | .control kind value pos, t, alike => by
    obtain ⟨value', rfl, values⟩ := same_control.mp alike
    refine same_control.mpr ⟨value, rfl, ?_⟩
    cases values with
    | none => exact .none
    | some values => exact .some (Expr.same_symm values)

theorem Statement.sameAll_symm : ∀ {ss ts : List Statement},
    Statement.sameAll ss ts = true → Statement.sameAll ts ss = true
  | [], ts, alike => by rw [sameAll_nil.mp alike, sameAll_nil]
  | s :: ss, ts, alike => by
    obtain ⟨t, ts, rfl, first, later⟩ := sameAll_cons.mp alike
    exact sameAll_cons.mpr ⟨s, ss, rfl, same_symm first, sameAll_symm later⟩

end

mutual

theorem Statement.same_trans : ∀ {s t u : Statement},
    s.same t = true → t.same u = true → s.same u = true
  | .expression e, t, u, first, second => by
    obtain ⟨f, rfl, left⟩ := same_expression.mp first
    obtain ⟨g, rfl, right⟩ := same_expression.mp second
    exact same_expression.mpr ⟨g, rfl, Expr.same_trans left right⟩
  | .branch c body none pos, t, u, first, second => by
    obtain ⟨c', body', _, rfl, left, lefts, ⟨⟩⟩ := same_branch.mp first
    obtain ⟨c'', body'', _, rfl, right, rights, ⟨⟩⟩ := same_branch.mp second
    exact same_branch.mpr
      ⟨c'', body'', none, rfl, Expr.same_trans left right, sameAll_trans lefts rights, .none⟩
  | .branch c body (some otherwise) pos, t, u, first, second => by
    obtain ⟨c', body', _, rfl, left, lefts, ⟨others⟩⟩ := same_branch.mp first
    obtain ⟨c'', body'', _, rfl, right, rights, ⟨others'⟩⟩ := same_branch.mp second
    exact same_branch.mpr ⟨c'', body'', some _, rfl, Expr.same_trans left right,
      sameAll_trans lefts rights, .some (sameAll_trans others others')⟩
  | .loop c body pos, t, u, first, second => by
    obtain ⟨c', body', rfl, left, lefts⟩ := same_loop.mp first
    obtain ⟨c'', body'', rfl, right, rights⟩ := same_loop.mp second
    exact same_loop.mpr ⟨c'', body'', rfl, Expr.same_trans left right, sameAll_trans lefts rights⟩
  | .function name params body, t, u, first, second => by
    obtain ⟨body', rfl, lefts⟩ := same_function.mp first
    obtain ⟨body'', rfl, rights⟩ := same_function.mp second
    exact same_function.mpr ⟨body'', rfl, sameAll_trans lefts rights⟩
  | .control kind value pos, t, u, first, second => by
    obtain ⟨_, rfl, left⟩ := same_control.mp first
    obtain ⟨_, rfl, right⟩ := same_control.mp second
    cases left with
    | none => exact same_control.mpr ⟨_, rfl, right⟩
    | some left =>
      cases right with
      | some right => exact same_control.mpr ⟨_, rfl, .some (Expr.same_trans left right)⟩

theorem Statement.sameAll_trans : ∀ {ss ts us : List Statement},
    Statement.sameAll ss ts = true → Statement.sameAll ts us = true →
      Statement.sameAll ss us = true
  | [], ts, us, first, second => sameAll_nil.mp first ▸ second
  | s :: ss, ts, us, first, second => by
    obtain ⟨t, ts, rfl, left, lefts⟩ := sameAll_cons.mp first
    obtain ⟨u, us, rfl, right, rights⟩ := sameAll_cons.mp second
    exact sameAll_cons.mpr ⟨u, us, rfl, same_trans left right, sameAll_trans lefts rights⟩

end

def Mark.Proper : Mark → Prop
  | .literal v _ => v.same v = true
  | _ => True

theorem Expr.proper_of_assignment {x : Identifier} {e : Expr}
    (proper : ∀ m ∈ (Expr.assignment x e).marks, m.Proper) : ∀ m ∈ e.marks, m.Proper := by
  by_cases copies : ∃ op y r pos, e = .binary op (.variable y) r pos ∧ y.pos = x.pos
  · obtain ⟨op, y, r, pos, rfl, place⟩ := copies
    rw [Expr.marks, if_pos place] at proper
    simp only [List.forall_mem_cons] at proper
    simp only [Expr.marks, List.forall_mem_append, List.forall_mem_cons]
    exact ⟨⟨trivial, nofun⟩, trivial, proper.2.2⟩
  · have plain : ∀ op y r pos, e = .binary op (.variable y) r pos → y.pos ≠ x.pos :=
      fun op y r pos value place => copies ⟨op, y, r, pos, value, place⟩
    rw [Expr.marks_assignment plain] at proper
    simp only [List.forall_mem_cons] at proper
    exact proper.2.2

theorem Expr.proper_of_chain {es : List Expr} {ops : List ComparisonOp}
    (proper : ∀ m ∈ Expr.chainMarks es ops, m.Proper) : ∀ m ∈ Expr.allMarks es, m.Proper := by
  induction es generalizing ops with
  | nil => nofun
  | cons e es ih =>
    cases ops with
    | nil => exact proper
    | cons op ops =>
      rw [Expr.chainMarks, List.forall_mem_append, List.forall_mem_cons] at proper
      rw [Expr.allMarks, List.forall_mem_append]
      exact ⟨proper.1, ih proper.2.2⟩

mutual

theorem Expr.same_self : (e : Expr) → (∀ m ∈ e.marks, m.Proper) → e.same e = true
  | .literal v pos, proper => by
    rw [marks, List.forall_mem_singleton] at proper
    exact same_literal.mpr ⟨v, rfl, proper⟩
  | .variable x, _ => same_variable.mpr rfl
  | .unary op e pos, proper => by
    rw [marks, List.forall_mem_cons] at proper
    exact same_unary.mpr ⟨e, rfl, same_self e proper.2⟩
  | .binary op l r pos, proper => by
    rw [marks, List.forall_mem_append, List.forall_mem_cons] at proper
    exact same_binary.mpr ⟨l, r, rfl, same_self l proper.1, same_self r proper.2.2⟩
  | .logical op l r pos, proper => by
    rw [marks, List.forall_mem_append, List.forall_mem_cons] at proper
    exact same_logical.mpr ⟨l, r, rfl, same_self l proper.1, same_self r proper.2.2⟩
  | .assignment x e, proper =>
    same_assignment.mpr ⟨e, rfl, same_self e (proper_of_assignment proper)⟩
  | .comparison es ops pos, proper => by
    rw [marks] at proper
    exact same_comparison.mpr ⟨es, rfl, sameAll_self es (proper_of_chain proper)⟩
  | .call callee es, proper => by
    rw [marks, List.forall_mem_cons] at proper
    exact same_call.mpr ⟨es, rfl, sameAll_self es proper.2⟩

theorem Expr.sameAll_self : (es : List Expr) → (∀ m ∈ Expr.allMarks es, m.Proper) →
    Expr.sameAll es es = true
  | [], _ => rfl
  | e :: es, proper => by
    rw [allMarks, List.forall_mem_append] at proper
    exact sameAll_cons.mpr ⟨e, es, rfl, same_self e proper.1, sameAll_self es proper.2⟩

end

mutual

theorem Statement.same_self : (s : Statement) → (∀ m ∈ s.marks, m.Proper) → s.same s = true
  | .expression e, proper => same_expression.mpr ⟨e, rfl, e.same_self proper⟩
  | .branch c body none pos, proper => by
    rw [marks, List.forall_mem_cons, List.forall_mem_append, List.forall_mem_append] at proper
    exact same_branch.mpr
      ⟨c, body, none, rfl, c.same_self proper.2.1, sameAll_self body proper.2.2.1, .none⟩
  | .branch c body (some otherwise) pos, proper => by
    rw [marks, List.forall_mem_cons, List.forall_mem_append, List.forall_mem_append] at proper
    exact same_branch.mpr ⟨c, body, some otherwise, rfl, c.same_self proper.2.1,
      sameAll_self body proper.2.2.1, .some (sameAll_self otherwise proper.2.2.2)⟩
  | .loop c body pos, proper => by
    rw [marks, List.forall_mem_cons, List.forall_mem_append] at proper
    exact same_loop.mpr ⟨c, body, rfl, c.same_self proper.2.1, sameAll_self body proper.2.2⟩
  | .function name params body, proper => by
    rw [marks, List.forall_mem_cons, List.forall_mem_cons, List.forall_mem_append] at proper
    exact same_function.mpr ⟨body, rfl, sameAll_self body proper.2.2.2⟩
  | .control kind none pos, _ => same_control.mpr ⟨none, rfl, .none⟩
  | .control kind (some e) pos, proper => by
    rw [marks, List.forall_mem_cons] at proper
    exact same_control.mpr ⟨some e, rfl, .some (e.same_self proper.2)⟩

theorem Statement.sameAll_self : (ss : List Statement) →
    (∀ m ∈ Statement.allMarks ss, m.Proper) → Statement.sameAll ss ss = true
  | [], _ => rfl
  | s :: ss, proper => by
    rw [allMarks, List.forall_mem_append] at proper
    exact sameAll_cons.mpr ⟨s, ss, rfl, same_self s proper.1, sameAll_self ss proper.2⟩

end

namespace Function

theorem same_iff {f g : Function} : f.same g = true ↔
    f.name = g.name ∧ f.params = g.params ∧ Statement.sameAll f.body g.body = true := by
  simp [same, and_assoc]

theorem same_symm {f g : Function} (alike : f.same g = true) : g.same f = true := by
  obtain ⟨names, params, bodies⟩ := same_iff.mp alike
  exact same_iff.mpr ⟨names.symm, params.symm, Statement.sameAll_symm bodies⟩

theorem same_trans {f g h : Function} (first : f.same g = true) (second : g.same h = true) :
    f.same h = true := by
  obtain ⟨names, params, bodies⟩ := same_iff.mp first
  obtain ⟨names', params', bodies'⟩ := same_iff.mp second
  exact same_iff.mpr
    ⟨names.trans names', params.trans params', Statement.sameAll_trans bodies bodies'⟩

theorem same_comm (f g : Function) : f.same g = g.same f :=
  Bool.eq_iff_iff.mpr ⟨same_symm, same_symm⟩

end Function

end CalcScript
