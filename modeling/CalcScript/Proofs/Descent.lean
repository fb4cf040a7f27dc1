import CalcScript.Proofs.Reading

set_option autoImplicit false

namespace CalcScript.Parse

inductive Step where
  | opens (pos : Position)
  | closes
deriving DecidableEq, Repr

def Step.change : Step → Int
  | .opens _ => 1
  | .closes => -1

def depth : List Step → Int
  | [] => 0
  | step :: steps => step.change + depth steps

@[simp] theorem depth_nil : depth [] = 0 := rfl

@[simp] theorem depth_cons (step : Step) (steps : List Step) :
    depth (step :: steps) = step.change + depth steps := rfl

@[simp] theorem depth_append (steps more : List Step) :
    depth (steps ++ more) = depth steps + depth more := by
  induction steps with
  | nil => simp
  | cons step steps ih => rw [List.cons_append, depth_cons, depth_cons, ih, Int.add_assoc]

def Always (allowed : Int → Prop) (steps : List Step) : Prop :=
  ∀ before, before <+: steps → allowed (depth before)

/-- The first construct that is opened while `limit` of them are open. -/
def Exceeds (limit : Int) (pos : Position) (steps : List Step) : Prop :=
  ∃ before, before ++ [.opens pos] <+: steps ∧ depth before = limit ∧ Always (· ≤ limit) before

section

variable {allowed wider : Int → Prop} {step : Step} {steps more : List Step}

theorem Always.mono (always : Always allowed steps) (le : ∀ n, allowed n → wider n) :
    Always wider steps :=
  fun before front => le _ (always before front)

theorem Always.start (always : Always allowed steps) : allowed 0 := always [] List.nil_prefix

theorem always_nil : Always allowed [] ↔ allowed 0 := by
  simp [Always]

theorem always_cons : Always allowed (step :: steps) ↔
    allowed 0 ∧ Always (fun n => allowed (step.change + n)) steps := by
  constructor
  · intro always
    refine ⟨always.start, fun before front => ?_⟩
    simpa using always (step :: before) (List.cons_prefix_cons.mpr ⟨rfl, front⟩)
  · rintro ⟨first, later⟩ before front
    rcases List.prefix_cons_iff.mp front with rfl | ⟨before, rfl, behind⟩
    · exact first
    · simpa using later before behind

theorem always_append : Always allowed (steps ++ more) ↔
    Always allowed steps ∧ Always (fun n => allowed (depth steps + n)) more := by
  induction steps generalizing allowed with
  | nil =>
    simp only [List.nil_append, always_nil, depth_nil, Int.zero_add]
    exact ⟨fun always => ⟨always.start, always⟩, And.right⟩
  | cons step steps ih =>
    simp only [List.cons_append, always_cons, ih, depth_cons, Int.add_assoc, and_assoc]

theorem exceeds_cons {limit : Int} {pos : Position} : Exceeds limit pos (step :: steps) ↔
    (limit = 0 ∧ step = .opens pos) ∨ (0 ≤ limit ∧ Exceeds (limit - step.change) pos steps) := by
  have shift : (fun n => step.change + n ≤ limit) = (· ≤ limit - step.change) := by
    funext n
    exact propext ⟨fun le => by omega, fun le => by omega⟩
  constructor
  · rintro ⟨before, front, deep, always⟩
    cases before with
    | nil =>
      obtain ⟨rfl, -⟩ := List.cons_prefix_cons.mp front
      exact .inl ⟨deep.symm, rfl⟩
    | cons first before =>
      obtain ⟨rfl, behind⟩ := List.cons_prefix_cons.mp front
      obtain ⟨start, later⟩ := always_cons.mp always
      rw [depth_cons] at deep
      exact .inr ⟨start, before, behind, by omega, shift ▸ later⟩
  · rintro (⟨rfl, rfl⟩ | ⟨start, before, behind, deep, later⟩)
    · exact ⟨[], List.cons_prefix_cons.mpr ⟨rfl, List.nil_prefix⟩, rfl,
        always_nil.mpr (Int.le_refl 0)⟩
    · refine ⟨step :: before, List.cons_prefix_cons.mpr ⟨rfl, behind⟩, ?_,
        always_cons.mpr ⟨start, shift ▸ later⟩⟩
      rw [depth_cons]
      omega

end

def tooDeep? : Int → List Step → Option Position
  | _, [] => none
  | room, .opens pos :: steps => if room ≤ 0 then some pos else tooDeep? (room - 1) steps
  | room, .closes :: steps => tooDeep? (room + 1) steps

section

variable {room : Int} {steps : List Step}

theorem tooDeep?_append (room : Int) (steps more : List Step) :
    tooDeep? room (steps ++ more) =
      (tooDeep? room steps).or (tooDeep? (room - depth steps) more) := by
  induction steps generalizing room with
  | nil => simp [tooDeep?]
  | cons step steps ih =>
    cases step with
    | opens pos =>
      simp only [List.cons_append, tooDeep?, depth_cons, Step.change]
      split
      · rfl
      · rw [ih, show room - 1 - depth steps = room - (1 + depth steps) by omega]
    | closes =>
      simp only [List.cons_append, tooDeep?, depth_cons, Step.change, ih]
      rw [show room + 1 - depth steps = room - (-1 + depth steps) by omega]

theorem tooDeep?_eq_none (start : 0 ≤ room) :
    tooDeep? room steps = none ↔ Always (· ≤ room) steps := by
  have shift (change room : Int) :
      (fun n => change + n ≤ room) = (· ≤ room - change) := by
    funext n
    exact propext ⟨fun le => by omega, fun le => by omega⟩
  induction steps generalizing room with
  | nil => exact iff_of_true rfl (always_nil.mpr start)
  | cons step steps ih =>
    rw [always_cons, shift]
    cases step with
    | opens pos =>
      rw [tooDeep?, Step.change]
      split
      · next full =>
        refine iff_of_false nofun fun ⟨_, later⟩ => ?_
        have := later.start
        omega
      · exact (ih (by omega)).trans (and_iff_right start).symm
    | closes =>
      rw [tooDeep?, Step.change, and_iff_right start, Int.sub_neg]
      exact ih (by omega)

theorem tooDeep?_eq_some {pos : Position} (start : 0 ≤ room) :
    tooDeep? room steps = some pos ↔ Exceeds room pos steps := by
  induction steps generalizing room with
  | nil => exact iff_of_false nofun fun ⟨_, front, _⟩ => by simp at front
  | cons step steps ih =>
    rw [exceeds_cons]
    cases step with
    | opens first =>
      rw [tooDeep?, Step.change]
      split
      · next full =>
        have none : ¬Exceeds (room - 1) pos steps := fun ⟨_, _, _, always⟩ => by
          have := always.start
          omega
        simp only [none, and_false, or_false, Option.some.injEq, Step.opens.injEq]
        exact ⟨fun same => ⟨by omega, same⟩, And.right⟩
      · rw [ih (by omega), or_iff_right (fun ⟨zero, _⟩ => by omega), and_iff_right start]
    | closes =>
      rw [tooDeep?, Step.change, ih (by omega), or_iff_right (fun ⟨_, same⟩ => nomatch same),
        and_iff_right start, Int.sub_neg]

end

structure Descent (α : Type) where
  result : Except SyntaxError α
  steps : List Step

namespace Descent

variable {α β : Type}

def flat (result : Except SyntaxError α) : Descent α := ⟨result, []⟩

def opens (pos : Position) : Descent Unit := ⟨.ok (), [.opens pos]⟩

def closes : Descent Unit := ⟨.ok (), [.closes]⟩

-- An error abandons the run, with all that is open then.
def andThen (d : Descent α) (f : α → Descent β) : Descent β :=
  match d.result with
  | .ok a => ⟨(f a).result, d.steps ++ (f a).steps⟩
  | .error e => ⟨.error e, d.steps⟩

instance : Monad Descent where
  pure a := flat (.ok a)
  bind := andThen

structure Restores (d : Descent α) : Prop where
  noUnderflow : Always (0 ≤ ·) d.steps
  balanced : ∀ a, d.result = .ok a → depth d.steps = 0

def capped (room : Nat) (d : Descent α) : Except SyntaxError α :=
  match tooDeep? room d.steps with
  | none => d.result
  | some pos => .error (.located pos .nestedTooDeeply)

structure CappedTo (limit : Nat) (d : Descent α) (r : Except SyntaxError α) : Prop where
  within : Always (· ≤ limit) d.steps → r = d.result
  beyond : ¬Always (· ≤ limit) d.steps →
    ∃ pos, Exceeds limit pos d.steps ∧ r = .error (.located pos .nestedTooDeeply)

theorem capped_cappedTo (limit : Nat) (d : Descent α) : d.CappedTo limit (d.capped limit) := by
  have start : (0 : Int) ≤ limit := Int.natCast_nonneg limit
  constructor
  · intro within
    rw [capped, (tooDeep?_eq_none start).mpr within]
  · intro beyond
    rw [← tooDeep?_eq_none start, ← ne_eq, Option.ne_none_iff_exists'] at beyond
    obtain ⟨pos, deep⟩ := beyond
    exact ⟨pos, (tooDeep?_eq_some start).mp deep, by rw [capped, deep]⟩

theorem flat_restores (result : Except SyntaxError α) : (flat result).Restores :=
  ⟨always_nil.mpr (Int.le_refl 0), fun _ _ => rfl⟩

variable {d : Descent α} {f : α → Descent β}

theorem bind_of_ok {a : α} (read : d.result = .ok a) :
    d >>= f = ⟨(f a).result, d.steps ++ (f a).steps⟩ := by
  change d.andThen f = _
  rw [andThen, read]

theorem bind_of_error {e : SyntaxError} (failed : d.result = .error e) :
    d >>= f = ⟨.error e, d.steps⟩ := by
  change d.andThen f = _
  rw [andThen, failed]

theorem nested_of_ok (pos : Position) {a : α} (read : d.result = .ok a) :
    (opens pos >>= fun _ => d >>= fun a => closes >>= fun _ => f a) =
      ⟨(f a).result, .opens pos :: (d.steps ++ .closes :: (f a).steps)⟩ := by
  rw [bind_of_ok (d := opens pos) rfl, bind_of_ok read, bind_of_ok (d := closes) rfl]
  rfl

theorem nested_of_error (pos : Position) {e : SyntaxError} (failed : d.result = .error e) :
    (opens pos >>= fun _ => d >>= fun a => closes >>= fun _ => f a) =
      ⟨.error e, .opens pos :: d.steps⟩ := by
  rw [bind_of_ok (d := opens pos) rfl, bind_of_error failed]
  rfl

namespace Restores

theorem bind (first : d.Restores) (later : ∀ a, d.result = .ok a → (f a).Restores) :
    (d >>= f).Restores := by
  cases read : d.result with
  | error e =>
    rw [bind_of_error read]
    exact ⟨first.noUnderflow, nofun⟩
  | ok a =>
    have level := first.balanced a read
    rw [bind_of_ok read]
    constructor
    · rw [always_append, level]
      exact ⟨first.noUnderflow, by simpa using (later a read).noUnderflow⟩
    · intro b done
      rw [depth_append, level, (later a read).balanced b done]
      rfl

theorem always_bind (restores : d.Restores) (limit : Int) :
    Always (· ≤ limit) (d >>= f).steps ↔ Always (· ≤ limit) d.steps ∧
      ∀ a, d.result = .ok a → Always (· ≤ limit) (f a).steps := by
  cases read : d.result with
  | error e =>
    rw [bind_of_error read]
    exact (and_iff_left nofun).symm
  | ok a =>
    rw [bind_of_ok read, always_append, restores.balanced a read]
    simp

theorem nested (pos : Position) (inside : d.Restores)
    (later : ∀ a, d.result = .ok a → (f a).Restores) :
    (opens pos >>= fun _ => d >>= fun a => closes >>= fun _ => f a).Restores := by
  have within : Always (fun n => 0 ≤ 1 + n) d.steps :=
    inside.noUnderflow.mono fun n le => by omega
  cases read : d.result with
  | error e =>
    rw [nested_of_error pos read]
    exact ⟨always_cons.mpr ⟨Int.le_refl 0, within⟩, nofun⟩
  | ok a =>
    have level := inside.balanced a read
    rw [nested_of_ok pos read]
    constructor
    · refine always_cons.mpr ⟨Int.le_refl 0, always_append.mpr ⟨within, ?_⟩⟩
      rw [level]
      refine always_cons.mpr ⟨by simp [Step.change], (later a read).noUnderflow.mono fun n le => ?_⟩
      change 0 ≤ 1 + (0 + (-1 + n))
      omega
    · intro b done
      simp [level, (later a read).balanced b done, Step.change]

end Restores

theorem capped_bind (room : Nat) (restores : d.Restores) :
    (d >>= f).capped room = d.capped room >>= fun a => (f a).capped room := by
  cases read : d.result with
  | error e =>
    rw [bind_of_error read]
    simp only [capped, read]
    cases tooDeep? room d.steps <;> rfl
  | ok a =>
    rw [bind_of_ok read]
    simp only [capped, tooDeep?_append, restores.balanced a read, Int.sub_zero]
    cases tooDeep? room d.steps with
    | some pos => rfl
    | none => simp only [Option.none_or, read, ok_bind]

theorem capped_nested_zero (pos : Position) (f : Unit → Descent α) :
    (opens pos >>= f).capped 0 = .error (.located pos .nestedTooDeeply) := by
  rw [bind_of_ok (d := opens pos) rfl]
  rfl

theorem capped_nested_succ (room : Nat) (pos : Position) (inside : d.Restores) :
    (opens pos >>= fun _ => d >>= fun a => closes >>= fun _ => f a).capped (room + 1) =
      d.capped room >>= fun a => (f a).capped (room + 1) := by
  have below : ((room + 1 : Nat) : Int) - 1 = room := by omega
  have space : ¬((room + 1 : Nat) : Int) ≤ 0 := by omega
  cases read : d.result with
  | error e =>
    rw [nested_of_error pos read]
    simp only [capped, tooDeep?, if_neg space, below, read]
    cases tooDeep? room d.steps <;> rfl
  | ok a =>
    rw [nested_of_ok pos read]
    simp only [capped, tooDeep?, if_neg space, below, tooDeep?_append, inside.balanced a read,
      Int.sub_zero]
    cases tooDeep? room d.steps with
    | some pos => rfl
    | none => simp only [Option.none_or, read, ok_bind, Int.natCast_add, Int.natCast_one]

end Descent

end CalcScript.Parse
