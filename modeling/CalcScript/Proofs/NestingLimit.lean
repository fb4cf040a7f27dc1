import CalcScript.Proofs.Moving
import CalcScript.Proofs.Soundness
import CalcScript.Proofs.Unlimited

set_option autoImplicit false

namespace CalcScript

namespace Parse

namespace Descent

variable {α β : Type} {d : Descent α} {f g : α → Descent β}

theorem capped_eq_ok {room : Nat} {a : α} (read : d.capped room = .ok a) : d.result = .ok a := by
  unfold capped at read
  split at read
  · exact read
  · cases read

theorem bind_result {b : β} (read : (d >>= f).result = .ok b) :
    ∃ a, d.result = .ok a ∧ (f a).result = .ok b := by
  cases first : d.result with
  | error e =>
    rw [bind_of_error first] at read
    cases read
  | ok a =>
    rw [bind_of_ok first] at read
    exact ⟨a, rfl, read⟩

theorem nested_result {pos : Position} {b : β}
    (read : (opens pos >>= fun _ => d >>= fun a => closes >>= fun _ => f a).result = .ok b) :
    ∃ a, d.result = .ok a ∧ (f a).result = .ok b := by
  obtain ⟨-, -, read⟩ := bind_result read
  obtain ⟨a, first, read⟩ := bind_result read
  obtain ⟨-, -, read⟩ := bind_result read
  exact ⟨a, first, read⟩

theorem bind_congr (same : ∀ a, d.result = .ok a → f a = g a) : d >>= f = d >>= g := by
  cases read : d.result with
  | error e => rw [bind_of_error read, bind_of_error read]
  | ok a => rw [bind_of_ok read, bind_of_ok read, same a read]

end Descent

/-- A result with a level of room for each construct that may be open, the run without a limit that
it comes from, and the same run again. Less than `n` tokens are left. -/
structure Limited {α : Type} (room n : Nat) (r : Except SyntaxError (α × List Token))
    (d d' : Descent (α × List Token)) : Prop where
  capped : r = d.capped room
  restores : d.Restores
  short : ∀ a rest, d.result = .ok (a, rest) → rest.length < n
  same : d' = d

def Limits {α : Type} (room n : Nat) (p : Parser α) (q q' : Tracked α) : Prop :=
  ∀ ts, ts.length < n → Limited room n (p ts) (q ts) (q' ts)

inductive Beneath {α : Type} (n : Nat) (q q' : Tracked α) : Nat → Option (Parser α) → Prop
  | full {room : Nat} {p : Parser α} (limits : Limits room n p q q') : Beneath n q q' 0 none
  | below {room : Nat} {p : Parser α} (limits : Limits room n p q q') :
      Beneath n q q' (room + 1) (some p)

inductive SameCase {α : Type} (room n : Nat) :
    Option (Parser α) → Option (Tracked α) → Option (Tracked α) → Prop
  | none : SameCase room n none none none
  | some {p : Parser α} {q q' : Tracked α} (limits : Limits room n p q q') :
      SameCase room n (some p) (some q) (some q')

namespace Limited

open Descent (flat opens closes)

variable {α β γ : Type} {room n m : Nat}

theorem flat {r : Except SyntaxError (α × List Token)}
    (short : ∀ a rest, r = .ok (a, rest) → rest.length < n) :
    Limited room n r (flat r) (flat r) :=
  ⟨rfl, Descent.flat_restores r, short, rfl⟩

theorem ok (a : α) {ts : List Token} (lt : ts.length < n) :
    Limited room n (.ok (a, ts)) (pure (a, ts)) (pure (a, ts)) :=
  flat fun _ _ same => by
    cases same
    exact lt

theorem error (e : SyntaxError) :
    Limited (α := α) room n (.error e) (Descent.flat (.error e)) (Descent.flat (.error e)) :=
  flat nofun

theorem mono {r : Except SyntaxError (α × List Token)} {d d' : Descent (α × List Token)}
    (limited : Limited room n r d d') (le : n ≤ m) : Limited room m r d d' where
  capped := limited.capped
  restores := limited.restores
  short a rest read := Nat.lt_of_lt_of_le (limited.short a rest read) le
  same := limited.same

theorem bind {r : Except SyntaxError (α × List Token)} {d d' : Descent (α × List Token)}
    {k : α × List Token → Except SyntaxError (β × List Token)}
    {l l' : α × List Token → Descent (β × List Token)} (first : Limited room n r d d')
    (later : ∀ a ts, ts.length < n → Limited room n (k (a, ts)) (l (a, ts)) (l' (a, ts))) :
    Limited room n (r >>= k) (d >>= l) (d' >>= l') := by
  have behind {x : α × List Token} (read : d.result = .ok x) :
      Limited room n (k x) (l x) (l' x) := later x.1 x.2 (first.short x.1 x.2 read)
  constructor
  · rw [first.capped, Descent.capped_bind room first.restores]
    cases read : d.capped room with
    | error e => rfl
    | ok x => exact (behind (Descent.capped_eq_ok read)).capped
  · exact first.restores.bind fun x read => (behind read).restores
  · intro b rest done
    obtain ⟨x, read, done⟩ := Descent.bind_result done
    exact (behind read).short b rest done
  · rw [first.same]
    exact Descent.bind_congr fun x read => (behind read).same

theorem nested {inner : Option (Parser α)} {q q' : Tracked α}
    {p : Parser α → Except SyntaxError (β × List Token)} {d d' : Descent (β × List Token)}
    {k : β × List Token → Except SyntaxError (γ × List Token)}
    {l l' : β × List Token → Descent (γ × List Token)} (inside : Beneath n q q' room inner)
    (pos : Position) (reads : ∀ {r i}, Limits r n i q q' → Limited r n (p i) d d')
    (later : ∀ a ts, ts.length < n → Limited room m (k (a, ts)) (l (a, ts)) (l' (a, ts))) :
    Limited room m (enter inner pos >>= fun i => p i >>= k)
      (opens pos >>= fun _ => d >>= fun x => closes >>= fun _ => l x)
      (opens pos >>= fun _ => d' >>= fun x => closes >>= fun _ => l' x) := by
  have behind {r i} (limits : Limits r n i q q') {x : β × List Token} (read : d.result = .ok x) :
      Limited room m (k x) (l x) (l' x) := later x.1 x.2 ((reads limits).short x.1 x.2 read)
  obtain ⟨r, i, limits⟩ : ∃ r i, Limits r n i q q' := by
    cases inside with
    | full limits => exact ⟨_, _, limits⟩
    | below limits => exact ⟨_, _, limits⟩
  constructor
  · -- Without room the construct is refused, whatever the run reads inside of it.
    cases inside with
    | full =>
      rw [Descent.capped_nested_zero]
      rfl
    | below limits =>
      have within := reads limits
      rw [Descent.capped_nested_succ _ pos within.restores, enter, ok_bind, within.capped]
      cases read : d.capped _ with
      | error e => rfl
      | ok x => exact (behind limits (Descent.capped_eq_ok read)).capped
  · exact (reads limits).restores.nested pos fun x read => (behind limits read).restores
  · intro b rest done
    obtain ⟨x, read, done⟩ := Descent.nested_result done
    exact (behind limits read).short b rest done
  · rw [(reads limits).same]
    refine Descent.bind_congr fun _ _ => Descent.bind_congr fun x read => ?_
    exact Descent.bind_congr fun _ _ => (behind limits read).same

theorem ite {c : Prop} [Decidable c] {r s : Except SyntaxError (α × List Token)}
    {d d' e e' : Descent (α × List Token)} (yes : Limited room n r d d')
    (no : Limited room n s e e') :
    Limited room n (if c then r else s) (if c then d else e) (if c then d' else e') := by
  split
  · exact yes
  · exact no

theorem expect {kind : TokenKind} {fault : String → Fault} {ts : List Token}
    {k : Token × List Token → Except SyntaxError (β × List Token)}
    {l l' : Token × List Token → Descent (β × List Token)} (lt : ts.length < n + 1)
    (later : ∀ t ts, ts.length < n → Limited room m (k (t, ts)) (l (t, ts)) (l' (t, ts))) :
    Limited room m (Parse.expect kind fault ts >>= k) (Unlimited.expect kind fault ts >>= l)
      (Unlimited.expect kind fault ts >>= l') := by
  cases ts with
  | nil => exact .error .incomplete
  | cons t ts =>
    by_cases same : t.kind = kind
    · have read : (Unlimited.expect kind fault (t :: ts)).result = .ok (t, ts) := expect_cons same
      rw [expect_cons same, Descent.bind_of_ok read, Descent.bind_of_ok read]
      exact later t ts (Nat.lt_of_succ_lt_succ lt)
    · rw [Unlimited.expect, Parse.expect, if_neg same]
      exact .error _

end Limited

namespace Limits

variable {α β : Type} {room n : Nat} {p : Parser α} {q q' : Tracked α}

-- It is enough to look at the first token, when nothing is left to do without one.
theorem of_cons (nil : Limited room n (p []) (q []) (q' []))
    (cons : ∀ t ts, ts.length + 1 < n →
      Limited room n (p (t :: ts)) (q (t :: ts)) (q' (t :: ts))) : Limits room n p q q'
  | [], _ => nil
  | t :: ts, lt => cons t ts lt

theorem peek (kind : TokenKind) {k : Token → Parser α} {l l' : Token → Tracked α}
    (without : Limits room n p q q') (behind : ∀ t ts, ts.length + 1 < n →
      Limited room n (k t ts) (l t ts) (l' t ts)) :
    Limits room n (Parse.peek kind p k) (Unlimited.peek kind q l) (Unlimited.peek kind q' l') := by
  intro ts lt
  rw [Parse.peek, Unlimited.peek, Unlimited.peek]
  cases found : next? kind ts with
  | none => exact without ts lt
  | some read =>
    obtain ⟨t, rest⟩ := read
    obtain ⟨rfl, -⟩ := next?_eq_some.mp found
    exact behind t rest lt

end Limits

section

variable {α : Type} {room n : Nat} {p : Parser Expr} {q q' : Tracked Expr}

theorem run_limits {op? : TokenKind → Option α} (operand : Limits room n p q q')
    (bound : List Token) :
    Limits room n (run op? p bound) (Unlimited.run op? q bound) (Unlimited.run op? q' bound) := by
  induction bound with
  | nil => exact fun _ lt => .ok [] lt
  | cons b bound ih =>
    intro ts lt
    cases ts with
    | nil => exact .ok [] lt
    | cons t ts =>
      rw [run, Unlimited.run, Unlimited.run]
      cases op? t.kind with
      | none => exact .ok [] lt
      | some op =>
        have le : ts.length < n := Nat.lt_of_succ_lt lt
        exact (operand ts le).bind fun rhs ts lt => (ih ts lt).bind fun more ts lt => .ok _ lt

theorem leftRun_limits {op? : TokenKind → Option α} {node : α → Expr → Expr → Position → Expr}
    (operand : Limits room n p q q') :
    Limits room n (leftRun op? node p) (Unlimited.leftRun op? node q)
      (Unlimited.leftRun op? node q') := fun ts lt =>
  (operand ts lt).bind fun _ ts lt => (run_limits operand ts ts lt).bind fun _ _ lt => .ok _ lt

theorem factor_limits (operand : Limits room n p q q') :
    Limits room n (factor p) (Unlimited.factor q) (Unlimited.factor q') :=
  leftRun_limits operand

theorem term_limits (operand : Limits room n p q q') :
    Limits room n (term p) (Unlimited.term q) (Unlimited.term q') :=
  leftRun_limits (factor_limits operand)

theorem comparison_limits (operand : Limits room n p q q') :
    Limits room n (comparison p) (Unlimited.comparison q) (Unlimited.comparison q') := by
  rw [comparison_eq]
  exact fun ts lt => (term_limits operand ts lt).bind fun _ ts lt =>
    (run_limits (term_limits operand) ts ts lt).bind fun _ _ lt => .ok _ lt

theorem conjunction_limits (operand : Limits room n p q q') :
    Limits room n (conjunction p) (Unlimited.conjunction q) (Unlimited.conjunction q') :=
  leftRun_limits (comparison_limits operand)

theorem expression_limits (operand : Limits room n p q q') :
    Limits room n (expression p) (Unlimited.expression q) (Unlimited.expression q') :=
  leftRun_limits (conjunction_limits operand)

theorem arguments_limits (expr : Limits room n p q q') (bound : List Token) :
    Limits room n (arguments p bound) (Unlimited.arguments q bound)
      (Unlimited.arguments q' bound) := by
  induction bound with
  | nil => exact fun _ _ => .error .incomplete
  | cons b bound ih =>
    rw [arguments_eq]
    intro ts lt
    refine (expr ts lt).bind fun e ts lt => ?_
    refine Limits.peek .comma (fun _ lt => .ok _ lt) (fun _ ts lt => ?_) ts lt
    exact (ih ts (Nat.lt_of_succ_lt lt)).bind fun _ _ lt => .ok _ lt

end

section

variable {room n : Nat} {inner : Option (Parser Expr)} {q q' : Tracked Expr}

theorem group_limits (inside : Beneath n q q' room inner) (pos : Position) :
    Limits room n (group inner pos) (Unlimited.group q pos) (Unlimited.group q' pos) := by
  intro ts lt
  refine .nested inside pos (fun below => expression_limits below ts lt) fun e ts lt => ?_
  exact .expect (Nat.lt_succ_of_lt lt) fun _ _ lt => .ok _ lt

theorem call_limits (inside : Beneath n q q' room inner) (callee : Identifier) :
    Limits room n (call inner callee) (Unlimited.call q callee) (Unlimited.call q' callee) := by
  rw [call_eq]
  refine .peek .rightParen (fun ts lt => ?_) fun _ _ lt => .ok _ (Nat.lt_of_succ_lt lt)
  refine .nested inside callee.pos
    (fun below => arguments_limits (expression_limits below) ts ts lt) fun args ts lt => ?_
  exact .expect (Nat.lt_succ_of_lt lt) fun _ _ lt => .ok _ lt

theorem assignment_limits (inside : Beneath n q q' room inner) (target : Identifier)
    (op : Option BinaryOp) (pos : Position) :
    Limits room n (assignment inner target op pos) (Unlimited.assignment q target op pos)
      (Unlimited.assignment q' target op pos) := by
  rw [assignment_eq]
  intro ts lt
  exact .nested inside pos (fun below => expression_limits below ts lt) fun _ _ lt => .ok _ lt

theorem behindName_limits (inside : Beneath n q q' room inner) (name : Identifier) :
    Limits room n (behindName inner name) (Unlimited.behindName q name)
      (Unlimited.behindName q' name) := by
  intro ts lt
  cases ts with
  | nil => exact .ok _ lt
  | cons t ts =>
    have le : ts.length < n := Nat.lt_of_succ_lt lt
    rw [behindName, Unlimited.behindName, Unlimited.behindName]
    refine .ite (call_limits inside name ts le) ?_
    cases assignmentOp? t.kind with
    | none => exact .ok _ lt
    | some op => exact assignment_limits inside name op t.pos ts le

-- What is inside of a construct has fewer tokens than the parser that opens it.
theorem primary_limits (inside : Beneath n q q' room inner) :
    Limits room (n + 1) (primary inner) (Unlimited.primary q) (Unlimited.primary q') := by
  refine .of_cons (.error .incomplete) fun t ts lt => ?_
  have le : ts.length < n := Nat.lt_of_succ_lt_succ lt
  cases kind : t.kind
  case identifier =>
    rw [primary_eq_behindName kind]
    simp only [Unlimited.primary, kind]
    exact (behindName_limits inside ⟨t.lexeme, t.pos⟩ ts le).mono (Nat.le_succ n)
  case integer | float | string =>
    simp only [primary, Unlimited.primary, kind]
    cases t.literal with
    | some v => exact .ok _ (Nat.lt_succ_of_lt le)
    | none => exact .error _
  case leftParen =>
    simp only [primary, Unlimited.primary, kind]
    exact (group_limits inside t.pos ts le).mono (Nat.le_succ n)
  all_goals
    simp only [primary, Unlimited.primary, kind]
    exact .error _

theorem power_limits (inside : Beneath n q q' room inner) :
    Limits room (n + 1) (power inner) (Unlimited.power q) (Unlimited.power q') := by
  rw [power_eq]
  intro ts lt
  refine (primary_limits inside ts lt).bind fun base ts lt => ?_
  refine Limits.peek (.binary .power) (fun _ lt => .ok _ lt) (fun caret ts lt => ?_) ts lt
  exact .nested inside caret.pos (fun below => below ts (Nat.lt_of_succ_lt_succ lt))
    fun _ _ lt => .ok _ (Nat.lt_succ_of_lt lt)

theorem operand_limits (inside : Beneath n q q' room inner) :
    Limits room (n + 1) (operand inner) (Unlimited.operand q) (Unlimited.operand q') := by
  refine .of_cons (.error .incomplete) fun t ts lt => ?_
  rw [operand, Unlimited.operand, Unlimited.operand]
  cases t.kind.unaryOp? with
  | none => exact power_limits inside (t :: ts) lt
  | some op =>
    exact .nested inside t.pos (fun below => below ts (Nat.lt_of_succ_lt_succ lt))
      fun _ _ lt => .ok _ (Nat.lt_succ_of_lt lt)

end

section

variable {room n : Nat}

theorem block_limits {inner : Option (Parser (List Statement))}
    {q q' : Tracked (List Statement)} (inside : Beneath n q q' room inner) :
    Limits room (n + 1) (block inner) (Unlimited.block q) (Unlimited.block q') := by
  intro ts lt
  refine .expect lt fun brace ts lt => ?_
  refine .nested inside brace.pos (fun below => below ts lt) fun body ts lt => ?_
  exact .expect (Nat.lt_succ_of_lt lt) fun _ _ lt => .ok _ (Nat.lt_succ_of_lt lt)

variable {expr : Parser Expr} {q q' : Tracked Expr} {body : Parser (List Statement)}
  {b b' : Tracked (List Statement)}

theorem lastAlternative_limits (block : Limits room n body b b') :
    Limits room n (lastAlternative body) (Unlimited.lastAlternative b)
      (Unlimited.lastAlternative b') :=
  .peek (.keyword .otherwise) (fun _ lt => .ok _ lt) fun _ ts lt =>
    (block ts (Nat.lt_of_succ_lt lt)).bind fun _ _ lt => .ok _ lt

theorem alternatives_limits (condition : Limits room n expr q q') (block : Limits room n body b b')
    (bound : List Token) :
    Limits room n (alternatives expr body bound) (Unlimited.alternatives q b bound)
      (Unlimited.alternatives q' b' bound) := by
  induction bound with
  | nil => exact lastAlternative_limits block
  | cons _ bound ih =>
    refine .peek .elseIf (lastAlternative_limits block) fun t ts lt => ?_
    exact (condition ts (Nat.lt_of_succ_lt lt)).bind fun _ ts lt =>
      (block ts lt).bind fun _ ts lt => (ih ts lt).bind fun _ _ lt => .ok _ lt

theorem branch_limits (condition : Limits room n expr q q') (block : Limits room n body b b')
    (pos : Position) :
    Limits room n (branch expr body pos) (Unlimited.branch q b pos)
      (Unlimited.branch q' b' pos) := by
  rw [branch_eq]
  exact fun ts lt => (condition ts lt).bind fun _ ts lt => (block ts lt).bind fun _ ts lt =>
    (alternatives_limits condition block ts ts lt).bind fun _ _ lt => .ok _ lt

theorem loop_limits (condition : Limits room n expr q q') (block : Limits room n body b b')
    (pos : Position) :
    Limits room n (loop expr body pos) (Unlimited.loop q b pos) (Unlimited.loop q' b' pos) :=
  fun ts lt => (condition ts lt).bind fun _ ts lt => (block ts lt).bind fun _ _ lt => .ok _ lt

theorem params_limits {q : Tracked (List Identifier)} (bound : List Token)
    (flat : ∀ ts, q ts = .flat (params bound ts)) : Limits room n (params bound) q q := by
  intro ts lt
  rw [flat]
  refine .flat fun names rest read => ?_
  obtain ⟨used, rfl, -⟩ := Grammar.params_sound bound read
  rw [List.length_append] at lt
  omega

theorem function_limits (block : Limits room n body b b') :
    Limits room n (function body) (Unlimited.function b) (Unlimited.function b') := by
  intro ts lt
  refine .expect (Nat.lt_succ_of_lt lt) fun name ts lt => ?_
  refine .expect (Nat.lt_succ_of_lt lt) fun _ ts lt => ?_
  refine (params_limits ts (fun _ => rfl) ts lt).bind fun names ts lt => ?_
  refine .expect (Nat.lt_succ_of_lt lt) fun _ ts lt => ?_
  exact (block ts lt).bind fun _ _ lt => .ok _ lt

theorem blockStatement?_limits (condition : Limits room n expr q q')
    (block : Limits room n body b b') (t : Token) :
    SameCase room n (blockStatement? expr body t) (Unlimited.blockStatement? q b t)
      (Unlimited.blockStatement? q' b' t) := by
  rw [blockStatement?, Unlimited.blockStatement?, Unlimited.blockStatement?]
  cases t.kind with
  | keyword word =>
    cases word with
    | branch => exact .some (branch_limits condition block t.pos)
    | loop => exact .some (loop_limits condition block t.pos)
    | function => exact .some (function_limits block)
    | _ => exact .none
  | _ => exact .none

theorem control_limits (value : Limits room n expr q q') (kind : ControlKind) (pos : Position) :
    Limits room n (control expr kind pos) (Unlimited.control q kind pos)
      (Unlimited.control q' kind pos) := by
  intro ts lt
  cases ts with
  | nil => exact .ok _ lt
  | cons t ts =>
    rw [control, Unlimited.control, Unlimited.control]
    exact .ite (.ok _ lt) ((value (t :: ts) lt).bind fun _ _ lt => .ok _ lt)

theorem simpleStatement_limits (value : Limits room n expr q q') :
    Limits room n (simpleStatement expr) (Unlimited.simpleStatement q)
      (Unlimited.simpleStatement q') := by
  refine .of_cons (.error .incomplete) fun t ts lt => ?_
  rw [simpleStatement, Unlimited.simpleStatement, Unlimited.simpleStatement]
  cases t.kind with
  | keyword word =>
    cases word with
    | control kind => exact control_limits value kind t.pos ts (Nat.lt_of_succ_lt lt)
    | _ => exact (value (t :: ts) lt).bind fun _ _ lt => .ok _ lt
  | _ => exact (value (t :: ts) lt).bind fun _ _ lt => .ok _ lt

theorem skipSemicolon_length (ts : List Token) : (skipSemicolon ts).length ≤ ts.length := by
  rcases skipSemicolon_cases ts with same | ⟨t, eq, -⟩
  · exact Nat.le_of_eq (congrArg _ same)
  · rw [congrArg List.length eq]
    exact Nat.le_succ _

theorem statements_limits (condition : Limits room n expr q q') (block : Limits room n body b b')
    (bound : List Token) :
    Limits room n (statements expr body bound) (Unlimited.statements q b bound)
      (Unlimited.statements q' b' bound) := by
  induction bound with
  | nil => exact fun _ lt => .ok [] lt
  | cons _ bound ih =>
    intro ts lt
    cases ts with
    | nil => exact .ok [] lt
    | cons t ts =>
      rw [statements, Unlimited.statements, Unlimited.statements]
      refine .ite (.ok [] lt) ?_
      have found := blockStatement?_limits condition block t
      revert found
      generalize blockStatement? expr body t = case,
        Unlimited.blockStatement? q b t = free, Unlimited.blockStatement? q' b' t = free'
      rintro (_ | parser)
      · refine (simpleStatement_limits condition (t :: ts) lt).bind fun s ts lt => ?_
        cases ts with
        | nil => exact .ok _ lt
        | cons u ts =>
          have le : ts.length < n := Nat.lt_of_succ_lt lt
          exact .ite ((ih ts le).bind fun _ _ lt => .ok _ lt) (.ite (.ok _ lt) (.error _))
      · refine (parser ts (Nat.lt_of_succ_lt lt)).bind fun s ts lt => ?_
        exact (ih _ (Nat.lt_of_le_of_lt (skipSemicolon_length ts) lt)).bind fun _ _ lt => .ok _ lt

end

section

open Unlimited (fuelled fix freeOperand freeExpression freeStatements)

variable {α : Type}

def Nests (within : Nat → Parser α) (step : Tracked α → Tracked α) : Prop :=
  ∀ n q q', (∀ room, Limits room n (within room) q q') →
    ∀ room, Limits room (n + 1) (within room) (step q) (step q')

namespace Nests

variable {within : Nat → Parser α} {step : Tracked α → Tracked α}

theorem fuelled_limits (nests : Nests within step) (n : Nat) :
    ∀ room, Limits room n (within room) (fuelled step n) (fuelled step (n + 1)) := by
  induction n with
  | zero => exact fun room ts lt => absurd lt (Nat.not_lt_zero _)
  | succ n ih => exact nests n _ _ ih

theorem fuelled_eq_fix (nests : Nests within step) {n : Nat} {ts : List Token}
    (lt : ts.length < n) : fuelled step n ts = fix step ts := by
  induction n with
  | zero => exact absurd lt (Nat.not_lt_zero _)
  | succ n ih =>
    rcases Nat.lt_succ_iff_lt_or_eq.mp lt with less | rfl
    · exact (nests.fuelled_limits n 0 ts less).same.trans (ih less)
    · rfl

theorem fix_limits (nests : Nests within step) (room n : Nat) :
    Limits room n (within room) (fix step) (fix step) := by
  intro ts lt
  have limited := nests.fuelled_limits n room ts lt
  rw [nests.fuelled_eq_fix lt] at limited
  exact ⟨limited.capped, limited.restores, limited.short, rfl⟩

theorem fix_eq (nests : Nests within step) : fix step = step (fix step) := by
  funext ts
  -- A step only asks its inner runs on fewer tokens, where the fuel does not matter any more.
  have agrees (room : Nat) :
      Limits room ts.length (within room) (fuelled step ts.length) (fix step) := fun us lt =>
    { nests.fuelled_limits ts.length room us lt with same := (nests.fuelled_eq_fix lt).symm }
  exact (nests ts.length _ _ agrees 0 ts (Nat.lt_succ_self _)).same.symm

end Nests

theorem operand_nests : Nests operandWithin Unlimited.operand := by
  intro n q q' below room
  cases room with
  | zero => exact operand_limits (.full (below 0))
  | succ room => exact operand_limits (.below (below room))

theorem freeExpression_limits (room n : Nat) :
    Limits room n (expressionWithin room) freeExpression freeExpression :=
  expression_limits (operand_nests.fix_limits room n)

theorem list_nests : Nests statementsWithin Unlimited.list := by
  intro n q q' below room ts lt
  have beneath : Beneath n q q' room (insideBlock room) := by
    cases room with
    | zero => exact .full (below 0)
    | succ room => exact .below (below room)
  rw [statementsWithin_eq]
  exact statements_limits (freeExpression_limits room (n + 1)) (block_limits beneath) ts ts lt

theorem freeStatements_limits (room n : Nat) :
    Limits room n (statementsWithin room) freeStatements freeStatements :=
  list_nests.fix_limits room n

theorem freeBlock_limits (room n : Nat) :
    Limits (room + 1) (n + 1) (block (some (statementsWithin room))) Unlimited.freeBlock
      Unlimited.freeBlock :=
  block_limits (.below (freeStatements_limits room n))

theorem sole_limits (room n : Nat) :
    Limits room n (soleWithin room) Unlimited.sole Unlimited.sole := fun ts lt =>
  (freeExpression_limits room n ts lt).bind fun _ ts lt =>
    .ok _ (Nat.lt_of_le_of_lt (skipSemicolon_length ts) lt)

variable {room : Nat} {p : Parser α} {q q' : Tracked α}

theorem toEnd_restores (limits : ∀ n, Limits room n p q q') (ts : List Token) :
    (Unlimited.toEnd q ts).Restores := by
  have limited := limits (ts.length + 1) ts (Nat.lt_succ_self _)
  refine limited.restores.bind fun r _ => ?_
  obtain ⟨a, rest⟩ := r
  cases rest <;> exact Descent.flat_restores _

theorem toEnd_capped (limits : ∀ n, Limits room n p q q') (ts : List Token) :
    toEnd p ts = (Unlimited.toEnd q ts).capped room := by
  have limited := limits (ts.length + 1) ts (Nat.lt_succ_self _)
  rw [toEnd, Unlimited.toEnd, Descent.capped_bind room limited.restores, limited.capped]
  refine congrArg _ (funext fun r => ?_)
  obtain ⟨a, rest⟩ := r
  cases rest <;> rfl

theorem programWithin_cappedTo (limit : Nat) (ts : List Token) :
    (Unlimited.program ts).CappedTo limit (programWithin limit ts) := by
  rw [programWithin_eq, toEnd_capped (freeStatements_limits limit)]
  exact Descent.capped_cappedTo limit _

theorem soleExpressionWithin_cappedTo (limit : Nat) (ts : List Token) :
    (Unlimited.soleExpression ts).CappedTo limit (soleExpressionWithin limit ts) := by
  rw [soleExpressionWithin_eq, toEnd_capped (sole_limits limit)]
  exact Descent.capped_cappedTo limit _

/-- A parser closes what it opens, and nothing else. So what is read behind it counts for itself:
nothing of the two together is too deep unless something of one of them is. -/
structure Balanced (q : Tracked α) : Prop where
  restores (ts : List Token) : (q ts).Restores
  frees {β : Type} (later : α × List Token → Descent β) (limit : Int) (ts : List Token) :
    Always (· ≤ limit) (q ts >>= later).steps ↔ Always (· ≤ limit) (q ts).steps ∧
      ∀ r, (q ts).result = .ok r → Always (· ≤ limit) (later r).steps

theorem Balanced.of_limits (limits : ∀ n, Limits room (n + 1) p q q') : Balanced q := by
  have restores (ts : List Token) : (q ts).Restores :=
    (limits ts.length ts (Nat.lt_succ_self _)).restores
  exact ⟨restores, fun later limit ts => (restores ts).always_bind limit⟩

end

namespace Unlimited

structure AllBalanced : Prop where
  run {α : Type} (op? : TokenKind → Option α) (bound : List Token) :
    Balanced (run op? freeOperand bound)
  factor : Balanced (factor freeOperand)
  term : Balanced (term freeOperand)
  comparison : Balanced (comparison freeOperand)
  conjunction : Balanced (conjunction freeOperand)
  expression : Balanced freeExpression
  arguments (bound : List Token) : Balanced (arguments freeExpression bound)
  call (callee : Identifier) : Balanced (call freeOperand callee)
  assignment (target : Identifier) (op : Option BinaryOp) (pos : Position) :
    Balanced (assignment freeOperand target op pos)
  group (pos : Position) : Balanced (group freeOperand pos)
  primary : Balanced (primary freeOperand)
  power : Balanced (power freeOperand)
  operand : Balanced freeOperand
  block : Balanced freeBlock
  alternatives (bound : List Token) : Balanced (alternatives freeExpression freeBlock bound)
  branch (pos : Position) : Balanced (branch freeExpression freeBlock pos)
  loop (pos : Position) : Balanced (loop freeExpression freeBlock pos)
  function : Balanced (function freeBlock)
  control (kind : ControlKind) (pos : Position) : Balanced (control freeExpression kind pos)
  simpleStatement : Balanced (simpleStatement freeExpression)
  statements (bound : List Token) : Balanced (statements freeExpression freeBlock bound)
  list : Balanced freeStatements
  program (ts : List Token) : (program ts).Restores
  soleExpression (ts : List Token) : (soleExpression ts).Restores

theorem allBalanced : AllBalanced := by
  have below (n : Nat) : Limits 1 (n + 1) (operandWithin 1) freeOperand freeOperand :=
    operand_nests.fix_limits 1 (n + 1)
  have inside (n : Nat) : Beneath n freeOperand freeOperand 1 (some (operandWithin 0)) :=
    .below (operand_nests.fix_limits 0 n)
  have value (n : Nat) : Limits 1 (n + 1) (expressionWithin 1) freeExpression freeExpression :=
    freeExpression_limits 1 (n + 1)
  have body := freeBlock_limits 0
  exact {
    run _ bound := .of_limits fun n => run_limits (below n) bound
    factor := .of_limits fun n => factor_limits (below n)
    term := .of_limits fun n => term_limits (below n)
    comparison := .of_limits fun n => comparison_limits (below n)
    conjunction := .of_limits fun n => conjunction_limits (below n)
    expression := .of_limits value
    arguments bound := .of_limits fun n => arguments_limits (value n) bound
    call callee := .of_limits fun n => call_limits (inside (n + 1)) callee
    assignment target op pos :=
      .of_limits fun n => assignment_limits (inside (n + 1)) target op pos
    group pos := .of_limits fun n => group_limits (inside (n + 1)) pos
    primary := .of_limits fun n => primary_limits (inside n)
    power := .of_limits fun n => power_limits (inside n)
    operand := .of_limits below
    block := .of_limits body
    alternatives bound := .of_limits fun n => alternatives_limits (value n) (body n) bound
    branch pos := .of_limits fun n => branch_limits (value n) (body n) pos
    loop pos := .of_limits fun n => loop_limits (value n) (body n) pos
    function := .of_limits fun n => function_limits (body n)
    control kind pos := .of_limits fun n => control_limits (value n) kind pos
    simpleStatement := .of_limits fun n => simpleStatement_limits (value n)
    statements bound := .of_limits fun n => statements_limits (value n) (body n) bound
    list := .of_limits fun n => freeStatements_limits 1 (n + 1)
    program := toEnd_restores (freeStatements_limits 1)
    soleExpression := toEnd_restores (sole_limits 1) }

end Unlimited

end Parse

open Parse in
/-- A program and a single expression are read as without a limit while no more than `maxNesting`
constructs are inside each other, and else the first one is refused for which there is no room. -/
theorem nesting_limit_exact :
    (∀ ts, (Unlimited.program ts).CappedTo maxNesting (parseProgram ts)) ∧
    (∀ ts, (Unlimited.soleExpression ts).CappedTo maxNesting (parseExpression ts)) ∧
    Unlimited.AllBalanced ∧
    Unlimited.freeOperand = Unlimited.operand Unlimited.freeOperand ∧
    Unlimited.freeStatements = Unlimited.list Unlimited.freeStatements :=
  ⟨programWithin_cappedTo maxNesting, soleExpressionWithin_cappedTo maxNesting,
    Unlimited.allBalanced, operand_nests.fix_eq, list_nests.fix_eq⟩

def negated (n : Nat) : List Token :=
  (List.range n).map (fun i => ⟨.binary .subtract, ⟨1, i + 1⟩, "-", none⟩) ++
    [⟨.integer, ⟨1, n + 1⟩, "1", some (.int 1)⟩]

open Parse in
theorem nesting_limit_exact_signs :
    parseProgram (negated 100) = (Unlimited.program (negated 100)).result ∧
    (Unlimited.program (negated 100)).result.isOk = true ∧
    (Unlimited.program (negated 101)).result.isOk = true ∧
    parseProgram (negated 101) = .error (.located ⟨1, 101⟩ .nestedTooDeeply) := by
  have fits : tooDeep? maxNesting (Unlimited.program (negated 100)).steps = none := by
    decide +kernel
  have deep : tooDeep? maxNesting (Unlimited.program (negated 101)).steps = some ⟨1, 101⟩ := by
    decide +kernel
  have start : (0 : Int) ≤ maxNesting := by decide
  refine ⟨(nesting_limit_exact.1 (negated 100)).within ((tooDeep?_eq_none start).mp fits),
    by decide +kernel, by decide +kernel, ?_⟩
  have beyond : ¬Always (· ≤ (maxNesting : Int)) (Unlimited.program (negated 101)).steps := by
    rw [← tooDeep?_eq_none start, deep]
    exact nofun
  obtain ⟨pos, exceeds, failed⟩ := (nesting_limit_exact.1 (negated 101)).beyond beyond
  obtain rfl : ⟨1, 101⟩ = pos :=
    Option.some.inj (deep.symm.trans ((tooDeep?_eq_some start).mpr exceeds))
  exact failed

-- An operand and arguments are open at once, and no more when the next statement starts.
example : (significantTokens "-f(1); g(2)").toOption.map
    (fun ts => (Parse.Unlimited.program ts).steps) =
    some [.opens ⟨1, 1⟩, .opens ⟨1, 2⟩, .closes, .closes, .opens ⟨1, 8⟩, .closes] := by
  decide +kernel

end CalcScript
