import CalcScript.Proofs.Primitives

set_option autoImplicit false

namespace CalcScript.Eval

inductive Alike (globals : Frame) (outer outer' : List Frame) : Session → Session → Prop
  | mk (g frame : Frame) (console : Console)
      (kept : ∀ name, isGlobalName name = false → g.get? name = globals.get? name) :
      Alike globals outer outer' ⟨g, frame :: outer, console⟩ ⟨g, frame :: outer', console⟩

def isolation (globals : Frame) (outer outer' : List Frame) : Invariant :=
  ⟨Alike globals outer outer', Any, Any⟩

section

variable {globals : Frame} {outer outer' : List Frame}

theorem fits_any {α : Type} (r : Except Interrupt α) :
    (isolation globals outer outer').Fits Any r := by
  cases r <;> trivial

theorem lookup_isolated (i : Identifier) :
    (isolation globals outer outer').Keeps (fun found => ∀ v, found = some v → Any v)
      (lookup i) := by
  rintro _ _ ⟨g, frame, console, kept⟩
  exact ⟨_, _, _, rfl, rfl, fun _ _ => trivial, g, frame, console, kept⟩

theorem bindName_isolated (i : Identifier) (v : Value) :
    (isolation globals outer outer').Keeps Any (bindName i v) := by
  rintro _ _ ⟨g, frame, console, kept⟩
  simp only [bindName, Session.bind]
  split
  · next sigil =>
    refine ⟨_, _, _, rfl, rfl, trivial, g.set i.name v, frame, console, fun name own => ?_⟩
    have other : name ≠ i.name := by
      rintro rfl
      exact Bool.noConfusion (own.symm.trans sigil)
    rw [Frame.get?_set, if_neg other]
    exact kept name own
  · exact ⟨_, _, _, rfl, rfl, trivial, g, frame.set i.name v, console, kept⟩

theorem write_isolated (text : String) :
    (isolation globals outer outer').Keeps Any (write text) := by
  rintro _ _ ⟨g, frame, console, kept⟩
  simp only [write]
  cases console.write? text with
  | none => exact ⟨_, _, _, rfl, rfl, trivial, g, frame, console, kept⟩
  | some after => exact ⟨_, _, _, rfl, rfl, trivial, g, frame, after, kept⟩

theorem readLine_isolated : (isolation globals outer outer').Keeps Any readLine := by
  rintro _ _ ⟨g, frame, console, kept⟩
  exact ⟨_, _, _, rfl, rfl, fits_any _, g, frame, _, kept⟩

theorem isolation_primitives : (isolation globals outer outer').Primitives where
  lookup := lookup_isolated
  bindName _ _ := bindName_isolated _ _
  write := write_isolated
  readLine := readLine_isolated
  plain _ := trivial
  raised _ := trivial
  proper _ := trivial
  signal := ⟨fun _ _ _ => trivial, fun _ => trivial⟩
  exhausted := trivial

theorem block_isolated {caller : Caller}
    (calls : ∀ f args pos, (isolation globals outer outer').Keeps Any (caller f args pos))
    (rounds : Nat) (body : List Statement) :
    (isolation globals outer outer').Keeps Any (block rounds caller body) :=
  Invariant.block_keeps
    (isolation_primitives.respects .any (fun _ _ _ _ _ => trivial)
      fun f args pos _ _ => calls f args pos)
    (isolation_primitives.respectsStatements .any fun _ _ _ _ _ _ => trivial)
    rounds body fun _ _ => trivial

end

theorem call_alike (rounds depth : Nat) :
    ∀ (f : Function) (args : List Value) (pos : Position) (g : Frame) (calls calls' : List Frame)
      (console : Console), ∃ r g' console',
        call rounds depth f args pos ⟨g, calls, console⟩ = (r, ⟨g', calls, console'⟩) ∧
        call rounds depth f args pos ⟨g, calls', console⟩ = (r, ⟨g', calls', console'⟩) ∧
        ∀ name, isGlobalName name = false → g'.get? name = g.get? name := by
  induction depth with
  | zero => exact fun f args pos g calls calls' console => ⟨_, g, console, rfl, rfl, fun _ _ => rfl⟩
  | succ depth ih =>
    intro f args pos g calls calls' console
    -- The calls in the body are made from a frame that both sessions have.
    have inside (f : Function) (args : List Value) (pos : Position) :
        (isolation g calls calls').Keeps Any (call rounds depth f args pos) := by
      rintro _ _ ⟨g', frame, console', kept⟩
      obtain ⟨r, g'', console'', eq, eq', kept'⟩ :=
        ih f args pos g' (frame :: calls) (frame :: calls') console'
      exact ⟨r, _, _, eq, eq', fits_any r, g'', frame, console'', fun name own =>
        (kept' name own).trans (kept name own)⟩
    obtain ⟨r, _, _, eq, eq', -, g', frame, console', kept⟩ :=
      block_isolated inside rounds f.body _ _
        (.mk g (arguments f.params args) console fun _ _ => rfl)
    refine ⟨caught r, g', console', ?_, ?_, kept⟩
    · simp only [call, inFrame, eq, List.tail_cons]
    · simp only [call, inFrame, eq', List.tail_cons]

/-- A call changes no frame that there is already, but for global names, and what it does does not
depend on the frames of its callers. -/
theorem call_isolated (rounds depth : Nat) (f : Function) (args : List Value) (pos : Position)
    (s : Session) :
    ((call rounds depth f args pos s).2.calls = s.calls ∧
      ∀ name, isGlobalName name = false →
        (call rounds depth f args pos s).2.globals.get? name = s.globals.get? name) ∧
    ∀ t : Session, t.globals = s.globals → t.console = s.console →
      (call rounds depth f args pos t).1 = (call rounds depth f args pos s).1 ∧
      (call rounds depth f args pos t).2.globals = (call rounds depth f args pos s).2.globals ∧
      (call rounds depth f args pos t).2.console = (call rounds depth f args pos s).2.console := by
  obtain ⟨g, calls, console⟩ := s
  constructor
  · obtain ⟨r, g', console', eq, -, kept⟩ :=
      call_alike rounds depth f args pos g calls calls console
    rw [eq]
    exact ⟨rfl, kept⟩
  · rintro ⟨_, calls', _⟩ rfl rfl
    obtain ⟨r, g', console', eq, eq', -⟩ :=
      call_alike rounds depth f args pos _ calls calls' _
    rw [eq, eq']
    exact ⟨rfl, rfl, rfl⟩

theorem call_isolated_beside_local :
    let f : Function := ⟨⟨"f", default⟩, [⟨"x", default⟩],
      [.expression (.assignment ⟨"y", default⟩ (.variable ⟨"x", default⟩)),
        .expression (.assignment ⟨"$n", default⟩ (.variable ⟨"y", default⟩))]⟩
    let s : Session := ⟨.empty, [Frame.empty.set "y" (.int 2)], .ofInput []⟩
    (call 0 1 f [.int 1] default s).2.calls = s.calls ∧
      (call 0 1 f [.int 1] default s).2.globals.get? "y" = s.globals.get? "y" ∧
      (call 0 1 f [.int 1] default { s with calls := [] }).2.globals =
        (call 0 1 f [.int 1] default s).2.globals :=
  ⟨(call_isolated 0 1 _ _ _ _).1.1, (call_isolated 0 1 _ _ _ _).1.2 "y" (by decide),
    ((call_isolated 0 1 _ _ _ _).2 _ rfl rfl).2.1⟩

end CalcScript.Eval
