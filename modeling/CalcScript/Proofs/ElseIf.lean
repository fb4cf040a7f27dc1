import CalcScript.Proofs.Room
import CalcScript.Proofs.Turns

set_option autoImplicit false

namespace CalcScript

structure Arm where
  condition : Expr
  body : List Statement
  pos : Position

namespace Arm

def otherwise (last : Option (List Statement)) : List Arm → Option (List Statement)
  | [] => last
  | arm :: arms => some [.branch arm.condition arm.body (otherwise last arms) arm.pos]

def chain (last : Option (List Statement)) (arm : Arm) (arms : List Arm) : Statement :=
  .branch arm.condition arm.body (otherwise last arms) arm.pos

end Arm

-- Each tree is one without places, so that it does not matter where the tokens are.

inductive Braced : List Statement → List Token → Prop
  | braces {body : List Statement} {l r : Token} {ts : List Token} (left : l.kind = .leftBrace)
      (inside : parseProgram ts = .ok body) (right : r.kind = .rightBrace) :
      Braced (Statement.unplacedAll body) (l :: (ts ++ [r]))

inductive Armed : Arm → List Token → List Token → Prop
  | arm {c : Expr} {body : List Statement} {ts us : List Token}
      (condition : Parse.expressionWithin maxNesting ts = .ok (c, [])) (block : Braced body us) :
      Armed ⟨c.unplaced, body, default⟩ ts us

/-- The rest of `if c₀ {…} else if c₁ {…} … else {…}` behind its first block. -/
inductive Flat : List Arm → Option (List Statement) → List Token → Prop
  | nothing : Flat [] none []
  | block {body : List Statement} {t : Token} {ts : List Token}
      (word : t.kind = .keyword .otherwise) (block : Braced body ts) : Flat [] (some body) (t :: ts)
  | branch {arm : Arm} {arms : List Arm} {last : Option (List Statement)} {t : Token}
      {ts us vs : List Token} (word : t.kind = .elseIf) (first : Armed arm ts us)
      (rest : Flat arms last vs) : Flat (arm :: arms) last (t :: (ts ++ (us ++ vs)))

/-- The rest of `if c₀ {…} else { if c₁ {…} else { … } }` behind its first block. -/
inductive Nested : List Arm → Option (List Statement) → List Token → Prop
  | nothing : Nested [] none []
  | block {body : List Statement} {t : Token} {ts : List Token}
      (word : t.kind = .keyword .otherwise) (block : Braced body ts) :
      Nested [] (some body) (t :: ts)
  | branch {arm : Arm} {arms : List Arm} {last : Option (List Statement)} {t l i r : Token}
      {ts us vs : List Token} (word : t.kind = .keyword .otherwise) (left : l.kind = .leftBrace)
      (inner : i.kind = .keyword .branch) (first : Armed arm ts us) (rest : Nested arms last vs)
      (right : r.kind = .rightBrace) :
      Nested (arm :: arms) last (t :: l :: (i :: (ts ++ (us ++ vs)) ++ [r]))

namespace Grammar

section

variable {arm : Arm} {arms : List Arm} {last : Option (List Statement)} {room : Nat}
  {ts us vs : List Token}

theorem block_of_braced {body : List Statement} (braced : Braced body ts)
    (le : maxNesting < room) :
    ∃ items, Block room items ts ∧ Statement.unplacedAll items = body := by
  obtain ⟨left, inside, right⟩ := braced
  exact ⟨_, (Block.braces left (programWithin_eq_ok.mp inside) right).mono le, rfl⟩

theorem phrase_of_armed (armed : Armed arm ts us) (le : maxNesting < room) :
    ∃ c items, Phrase room .disjunction true c ts ∧ Block room items us ∧
      arm = ⟨c.unplaced, Statement.unplacedAll items, default⟩ := by
  obtain ⟨condition, braced⟩ := armed
  obtain ⟨items, block, rfl⟩ := block_of_braced braced le
  obtain ⟨used, same, phrase, -⟩ := expressionWithin_eq_ok.mp condition
  rw [List.append_nil] at same
  subst same
  exact ⟨_, items, phrase.mono (Nat.le_of_lt le), block, rfl⟩

theorem unplaced_chain {c : Expr} {items : List Statement} {otherwise : Option (List Statement)}
    (pos : Position) (same : Statement.unplacedElse otherwise = Arm.otherwise last arms) :
    Statement.unplaced (.branch c items otherwise pos) =
      Arm.chain last ⟨c.unplaced, Statement.unplacedAll items, default⟩ arms := by
  rw [Statement.unplaced, same, Arm.chain]

theorem otherwise_of_flat (flat : Flat arms last vs) (le : maxNesting < room) :
    ∃ otherwise, Otherwise room otherwise vs ∧
      Statement.unplacedElse otherwise = Arm.otherwise last arms := by
  induction flat with
  | nothing => exact ⟨none, .nothing, rfl⟩
  | block word braced =>
    obtain ⟨items, block, rfl⟩ := block_of_braced braced le
    exact ⟨some items, .block word block, rfl⟩
  | branch word first rest ih =>
    obtain ⟨c, items, condition, block, rfl⟩ := phrase_of_armed first le
    obtain ⟨otherwise, behind, same⟩ := ih
    refine ⟨_, .branch word condition block behind, ?_⟩
    rw [Statement.unplacedElse, Statement.unplacedAll, Statement.unplacedAll,
      unplaced_chain _ same]
    rfl

-- Each `else` around another one takes a level of room.
theorem otherwise_of_nested (nested : Nested arms last vs) (le : maxNesting < room) :
    ∃ otherwise, Otherwise (room + arms.length) otherwise vs ∧
      Statement.unplacedElse otherwise = Arm.otherwise last arms := by
  induction nested with
  | nothing => exact ⟨none, .nothing, rfl⟩
  | block word braced =>
    obtain ⟨items, block, rfl⟩ := block_of_braced braced le
    exact ⟨some items, .block word block, rfl⟩
  | branch word left inner first rest right ih =>
    obtain ⟨c, items, condition, block, rfl⟩ := phrase_of_armed first (Nat.lt_add_right _ le)
    obtain ⟨otherwise, behind, same⟩ := ih
    have inside := Statements.compound (.branch inner condition block behind) .nil
    rw [List.append_nil] at inside
    refine ⟨_, .block word (.braces left inside right), ?_⟩
    rw [Statement.unplacedElse, Statement.unplacedAll, Statement.unplacedAll,
      unplaced_chain _ same]
    rfl

theorem readAs_of_otherwise {otherwise : Option (List Statement)} {word : Token}
    (kind : word.kind = .keyword .branch) (first : Armed arm ts us) (le : maxNesting < room)
    (behind : Otherwise room otherwise vs)
    (same : Statement.unplacedElse otherwise = Arm.otherwise last arms) :
    ReadAs (word :: (ts ++ (us ++ vs))) [Arm.chain last arm arms] := by
  obtain ⟨c, items, condition, block, rfl⟩ := phrase_of_armed first le
  have program := Statements.compound (.branch kind condition block behind) .nil
  rw [List.append_nil] at program
  have read := program.readAs
  rwa [Statement.unplacedAll, Statement.unplacedAll, unplaced_chain _ same] at read

end

end Grammar

namespace Traced

section

variable (nest : Nesting) (caller : Caller) (last : Option (List Statement))

/-- The conditions are evaluated in turn, each at the branch that it belongs to, up to the first one
that is true or interrupted. What is left to run is the block of the true one, or the last `else`
where all are false. -/
inductive Picks : List Arm → Session → Except Interrupt (Option (List Statement)) → List Event →
    Session → Prop
  | none (s : Session) : Picks [] s (.ok last) [] s
  | holds {arm : Arm} {s t : Session} {v : Value} (arms : List Arm)
      (value : (expression nest caller arm.condition).eval s = (.ok v, t))
      (true : v.truthy = true) :
      Picks (arm :: arms) s (.ok (some arm.body))
        (⟨nest, .statement (arm.chain last arms), s⟩ ::
          (expression nest caller arm.condition).trace s) t
  | fails {arm : Arm} {arms : List Arm} {s t u : Session} {v : Value}
      {left : Except Interrupt (Option (List Statement))} {events : List Event}
      (value : (expression nest caller arm.condition).eval s = (.ok v, t))
      (false : v.truthy = false) (later : Picks arms t left events u) :
      Picks (arm :: arms) s left
        (⟨nest, .statement (arm.chain last arms), s⟩ ::
          ((expression nest caller arm.condition).trace s ++ events)) u
  | interrupted {arm : Arm} {s t : Session} {i : Interrupt} (arms : List Arm)
      (failed : (expression nest caller arm.condition).eval s = (.error i, t)) :
      Picks (arm :: arms) s (.error i)
        (⟨nest, .statement (arm.chain last arms), s⟩ ::
          (expression nest caller arm.condition).trace s) t

theorem exists_picks (arms : List Arm) (s : Session) :
    ∃ left events t, Picks nest caller last arms s left events t := by
  induction arms generalizing s with
  | nil => exact ⟨_, _, _, .none s⟩
  | cons arm arms ih =>
    rcases here : (expression nest caller arm.condition).eval s with ⟨i | v, t⟩
    · exact ⟨_, _, _, .interrupted arms here⟩
    · cases truth : v.truthy with
      | true => exact ⟨_, _, _, .holds arms here truth⟩
      | false =>
        obtain ⟨left, events, u, later⟩ := ih t
        exact ⟨_, _, _, .fails here truth later⟩

def carryOut (rounds : Nat) : Except Interrupt (Option (List Statement)) → Traced Unit
  | .error i => (Eval.interrupt i : Eval Unit)
  | .ok none => return ()
  | .ok (some body) => block nest caller rounds body

end

def quietly (m : Traced Unit) : Traced Value := m >>= fun _ => (return .nothing : Traced Value)

theorem GoesOn.forget (m : Traced Unit) (s : Session) :
    GoesOn (quietly m >>= fun _ => (return () : Traced Unit)) s [] m s := by
  rcases here : m.eval s with ⟨i | _, t⟩
  · have failed := bind_of_error here fun _ => (return .nothing : Traced Value)
    have again := bind_of_error failed.1 fun _ => (return () : Traced Unit)
    exact ⟨again.1.trans here.symm, again.2.trans failed.2⟩
  · have value := bind_of_ok here fun _ => (return .nothing : Traced Value)
    have again := bind_of_ok value.1 fun _ => (return () : Traced Unit)
    exact ⟨again.1.trans here.symm, again.2.trans ((List.append_nil _).trans
      (value.2.trans (List.append_nil _)))⟩

section

variable {nest : Nesting} {caller : Caller} {last : Option (List Statement)} {rounds : Nat}
  {arm : Arm} {arms : List Arm} {s t : Session}
  {left : Except Interrupt (Option (List Statement))} {events : List Event}

theorem statement_chain : statement nest caller rounds (arm.chain last arms) =
    enter nest (.statement (arm.chain last arms))
      (expression nest caller arm.condition >>= fun v =>
        if v.truthy then quietly (carryOut nest caller rounds (.ok (some arm.body)))
        else quietly (carryOut nest caller rounds (.ok (Arm.otherwise last arms)))) := by
  unfold Arm.chain
  cases Arm.otherwise last arms with
  | none => rw [statement]; rfl
  | some body => rw [statement]; rfl

theorem statement_of_value {v : Value}
    (value : (expression nest caller arm.condition).eval s = (.ok v, t)) :
    GoesOn (statement nest caller rounds (arm.chain last arms)) s
      (⟨nest, .statement (arm.chain last arms), s⟩ ::
        (expression nest caller arm.condition).trace s)
      (if v.truthy then quietly (carryOut nest caller rounds (.ok (some arm.body)))
        else quietly (carryOut nest caller rounds (.ok (Arm.otherwise last arms)))) t := by
  rw [statement_chain]
  exact (GoesOn.of_value value _).enter nest _

theorem statement_of_picks
    (later : ∀ {s t : Session} {events : List Event}, Picks nest caller last arms s left events t →
      GoesOn (carryOut nest caller rounds (.ok (Arm.otherwise last arms))) s events
        (carryOut nest caller rounds left) t)
    (picks : Picks nest caller last (arm :: arms) s left events t) :
    GoesOn (statement nest caller rounds (arm.chain last arms)) s events
      (quietly (carryOut nest caller rounds left)) t := by
  cases picks with
  | holds _ value true =>
    have first : GoesOn (statement nest caller rounds (arm.chain last arms)) s _ _ _ :=
      statement_of_value value
    rwa [true, if_pos rfl] at first
  | fails value false rest =>
    have first : GoesOn (statement nest caller rounds (arm.chain last arms)) s _ _ _ :=
      statement_of_value value
    rw [false, if_neg Bool.false_ne_true] at first
    exact first.trans ((later rest).bind _)
  | interrupted _ failed =>
    rw [statement_chain]
    exact (GoesOn.of_interrupt failed _).enter nest _

theorem carryOut_of_picks (picks : Picks nest caller last arms s left events t) :
    GoesOn (carryOut nest caller rounds (.ok (Arm.otherwise last arms))) s events
      (carryOut nest caller rounds left) t := by
  induction arms generalizing s left events t with
  | nil =>
    cases picks
    exact .refl _ s
  | cons arm arms ih =>
    have inside : GoesOn (statement nest caller rounds (arm.chain last arms)) s events _ t :=
      statement_of_picks ih picks
    have alone := (inside.bind fun _ => (return () : Traced Unit)).trans (.forget _ t)
    rwa [List.append_nil] at alone

end

end Traced

open Traced in
/-- An `if` with `else if`s behind it stands for the same tree as with an `else` around each later
`if`. -/
theorem else_if_chain :
    (∀ (first : Arm) (later : List Arm) (last : Option (List Statement)) (word : Token)
      (cs bs : List Token), word.kind = .keyword .branch → Armed first cs bs →
      (∀ rest, Flat later last rest →
        ReadAs (word :: (cs ++ (bs ++ rest))) [first.chain last later]) ∧
      ∀ rest, Nested later last rest →
        ReadAs (word :: (cs ++ (bs ++ rest))) [first.chain last later]) ∧
    ∀ (nest : Nesting) (caller : Traced.Caller) (rounds : Nat) (first : Arm) (later : List Arm)
      (last : Option (List Statement)) (s : Session),
      let chain := first.chain last later
      (∃ left events t, Picks nest caller last (first :: later) s left events t) ∧
      ∀ left events t, Picks nest caller last (first :: later) s left events t →
        (∀ i, left = .error i → Eval.statement rounds caller.eval chain s = (.error i, t) ∧
          (statement nest caller rounds chain).trace s = events) ∧
        (left = .ok none → Eval.statement rounds caller.eval chain s = (.ok .nothing, t) ∧
          (statement nest caller rounds chain).trace s = events) ∧
        ∀ body, left = .ok (some body) →
          (∀ u, Eval.block rounds caller.eval body t = (.ok (), u) →
            Eval.statement rounds caller.eval chain s = (.ok .nothing, u)) ∧
          (∀ i u, Eval.block rounds caller.eval body t = (.error i, u) →
            Eval.statement rounds caller.eval chain s = (.error i, u)) ∧
          (statement nest caller rounds chain).trace s =
            events ++ (block nest caller rounds body).trace t := by
  constructor
  · intro first later last word cs bs kind armed
    constructor
    · intro rest flat
      obtain ⟨otherwise, behind, same⟩ := Grammar.otherwise_of_flat flat (Nat.lt_succ_self _)
      exact Grammar.readAs_of_otherwise kind armed (Nat.lt_succ_self _) behind same
    · intro rest nested
      obtain ⟨otherwise, behind, same⟩ := Grammar.otherwise_of_nested nested (Nat.lt_succ_self _)
      exact Grammar.readAs_of_otherwise kind armed (Nat.lt_add_right _ (Nat.lt_succ_self _)) behind
        same
  · intro nest caller rounds first later last s chain
    refine ⟨exists_picks nest caller last (first :: later) s, fun left events t picks => ?_⟩
    have goesOn : GoesOn (statement nest caller rounds chain) s events _ t :=
      statement_of_picks carryOut_of_picks picks
    rw [← eval_statement nest]
    refine ⟨?_, ?_, ?_⟩
    · rintro i rfl
      exact ⟨goesOn.eval, goesOn.trace.trans (List.append_nil _)⟩
    · rintro rfl
      exact ⟨goesOn.eval, goesOn.trace.trans (List.append_nil _)⟩
    · rintro body rfl
      rw [← eval_block nest]
      refine ⟨fun u done => ?_, fun i u failed => ?_, ?_⟩
      · exact goesOn.eval.trans (bind_of_ok done _).1
      · exact goesOn.eval.trans (bind_of_error failed _).1
      · refine goesOn.trace.trans (congrArg _ ?_)
        rcases here : (block nest caller rounds body).eval t with ⟨i | _, u⟩
        · exact (bind_of_error here _).2
        · exact (bind_of_ok here _).2.trans (List.append_nil _)

theorem else_if_chain_break :
    let sign (kind : TokenKind) : Token := ⟨kind, default, "", none⟩
    let number (n : Int64) : Token := ⟨.integer, default, "", some (.int n)⟩
    let x : Token := ⟨.identifier, default, "x", none⟩
    let empty := [sign .leftBrace, sign .rightBrace]
    let breaks := [sign .leftBrace, sign (.keyword (.control .breakLoop)), sign .rightBrace]
    let start := [sign (.keyword .branch), number 0] ++ empty
    let last := sign (.keyword .otherwise) :: empty
    let second := [x, sign .assign, number 5] ++ (breaks ++ last)
    let first : Arm := ⟨.literal (.int 0) default, [], default⟩
    let later : List Arm := [⟨.assignment ⟨"x", default⟩ (.literal (.int 5) default),
      [.control .breakLoop none default], default⟩]
    let chain := first.chain (some []) later
    let s : Session := ⟨.empty, [], .ofInput []⟩
    ReadAs (start ++ sign .elseIf :: second) [chain] ∧
    ReadAs (start ++ [sign (.keyword .otherwise), sign .leftBrace, sign (.keyword .branch)] ++
      second ++ [sign .rightBrace]) [chain] ∧
    Eval.statement 1 (Traced.call 1 1 []).eval chain s =
      (.error (.signal ⟨.control .breakLoop, none, default⟩), s.bind ⟨"x", default⟩ (.int 5)) := by
  intro sign number x empty breaks start last second first later chain s
  have nothing : Braced [] empty :=
    .braces (l := sign .leftBrace) rfl (rfl : parseProgram [] = _) rfl
  have block : Braced [.control .breakLoop none default] breaks :=
    .braces (l := sign .leftBrace) (r := sign .rightBrace) rfl
      (rfl : parseProgram [sign (.keyword (.control .breakLoop))] = _) rfl
  have armed : Armed first [number 0] empty :=
    .arm (rfl : Parse.expressionWithin maxNesting [number 0] = _) nothing
  have arm : Armed later[0] [x, sign .assign, number 5] breaks :=
    .arm (rfl : Parse.expressionWithin maxNesting [x, sign .assign, number 5] = _) block
  obtain ⟨reads, runs⟩ := else_if_chain
  obtain ⟨flat, nested⟩ :=
    reads first later (some []) (sign (.keyword .branch)) [number 0] empty rfl armed
  have picks : Traced.Picks ⟨[], 1⟩ (Traced.call 1 1 []) (some []) (first :: later) s _ _ _ :=
    .fails rfl rfl (.holds [] rfl rfl)
  obtain ⟨-, -, body⟩ := (runs ⟨[], 1⟩ (Traced.call 1 1 []) 1 first later (some []) s).2 _ _ _ picks
  have inside : Nested later (some []) (sign (.keyword .otherwise) :: sign .leftBrace ::
      (sign (.keyword .branch) :: second ++ [sign .rightBrace])) :=
    .branch rfl rfl rfl arm (.block rfl nothing) rfl
  exact ⟨flat _ (.branch rfl arm (.block rfl nothing)), nested _ inside, (body _ rfl).2.1 _ _ rfl⟩

end CalcScript
