import CalcScript.Proofs.Cursors
import Mathlib.Data.List.Induction

set_option autoImplicit false

namespace CalcScript

namespace Position

def behind (cs : List Char) : Position :=
  ⟨1 + cs.count '\n', 1 + (cs.reverse.takeWhile (· ≠ '\n')).length⟩

theorem behind_append_singleton (cs : List Char) (c : Char) :
    behind (cs ++ [c]) = (behind cs).next c := by
  by_cases feed : c = '\n'
  · simp [behind, next, feed, Nat.add_assoc]
  · simp [behind, next, feed, Nat.add_comm]

theorem start_after (cs : List Char) : start.after cs = behind cs := by
  induction cs using List.reverseRecOn with
  | nil => rfl
  | append_singleton cs c ih => rw [behind_append_singleton, after_append, ih]; rfl

end Position

def lexemes (ts : List Token) : List Char := ts.flatMap (·.lexeme.toList)

@[simp] theorem lexemes_cons (t : Token) (ts : List Token) :
    lexemes (t :: ts) = t.lexeme.toList ++ lexemes ts := rfl

namespace Scan

theorem token_eq_ok {pos : Position} {c : Char} {cs : List Char} {t : Token} {n : Nat}
    (h : token pos c cs = .ok (t, n)) : t.pos = pos ∧ t.lexeme.toList = c :: cs.take n := by
  simp only [token, bind, Except.bind] at h
  split at h
  · cases h
  · split at h
    · cases h
    · cases h
      exact ⟨rfl, String.toList_ofList⟩

inductive Lexed : Position → List Char → List Token → List Char → Prop
  | nothing (pos : Position) (cs : List Char) : Lexed pos cs [] cs
  | token {pos : Position} {c : Char} {cs rest : List Char} {t : Token} {ts : List Token} {n : Nat}
      (first : Scan.token pos c cs = .ok (t, n))
      (later : Lexed (pos.after (c :: cs.take n)) (cs.drop n) ts rest) :
      Lexed pos (c :: cs) (t :: ts) rest

namespace Lexed

variable {pos : Position} {cs rest : List Char} {ts : List Token}

theorem nonempty (lexed : Lexed pos cs ts rest) : ∀ t ∈ ts, t.lexeme ≠ "" := by
  induction lexed with
  | nothing pos cs => simp
  | token first later ih =>
    refine List.forall_mem_cons.mpr ⟨?_, ih⟩
    rintro empty
    have chars := (token_eq_ok first).2
    simp [empty] at chars

theorem text (lexed : Lexed pos cs ts rest) : lexemes ts ++ rest = cs := by
  induction lexed with
  | nothing pos cs => rfl
  | token first later ih => simp [(token_eq_ok first).2, ih]

theorem placed (lexed : Lexed pos cs ts rest) : ∀ before t behind, ts = before ++ t :: behind →
    t.pos = pos.after (lexemes before) := by
  induction lexed with
  | nothing pos cs => simp
  | token first later ih =>
    obtain ⟨place, chars⟩ := token_eq_ok first
    intro before t behind eq
    cases before with
    | nil =>
      cases eq
      exact place
    | cons u before =>
      cases eq
      rw [ih before t behind rfl, lexemes_cons, Position.after_append, chars]

end Lexed

theorem tokensFrom_eq_ok {pos : Position} {cs : List Char} {ts : List Token} :
    tokensFrom pos cs = .ok ts ↔ Lexed pos cs ts [] := by
  constructor
  · intro h
    fun_induction tokensFrom pos cs generalizing ts with
    | case1 pos => cases h; exact .nothing pos []
    | case2 pos c cs fault failed => cases h
    | case3 pos c cs t n first ih =>
      cases later : tokensFrom (pos.after (c :: cs.take n)) (cs.drop n) with
      | error e => simp only [later, bind, Except.bind] at h; cases h
      | ok us =>
        simp only [later, bind, Except.bind, pure, Except.pure] at h
        cases h
        exact .token first (ih later)
  · intro lexed
    generalize done : [] = rest at lexed
    induction lexed with
    | nothing pos cs => subst done; rw [tokensFrom]
    | token first later ih =>
      rw [tokensFrom, first]
      simp only [ih done]
      rfl

theorem tokensFrom_eq_error {pos : Position} {cs : List Char} {e : SyntaxError}
    (h : tokensFrom pos cs = .error e) : ∃ lexed c rest fault, Lexed pos cs lexed (c :: rest) ∧
      token (pos.after (lexemes lexed)) c rest = .error fault ∧
      e = .located (pos.after (lexemes lexed)) fault := by
  fun_induction tokensFrom pos cs with
  | case1 pos => cases h
  | case2 pos c cs fault failed => cases h; exact ⟨[], c, cs, fault, .nothing pos _, failed, rfl⟩
  | case3 pos c cs t n first ih =>
    cases later : tokensFrom (pos.after (c :: cs.take n)) (cs.drop n) with
    | ok us => simp only [later, bind, Except.bind] at h; cases h
    | error e' =>
      simp only [later, bind, Except.bind] at h
      cases h
      obtain ⟨lexed, c', rest, fault, run, failed, eq⟩ := ih later
      refine ⟨t :: lexed, c', rest, fault, .token first run, ?_⟩
      rw [lexemes_cons, Position.after_append, (token_eq_ok first).2]
      exact ⟨failed, eq⟩

end Scan

/-- Tokens that are the front of a text, each one where its lexeme starts. -/
structure Spelled (source : List Char) (ts : List Token) (rest : List Char) : Prop where
  nonempty : ∀ t ∈ ts, t.lexeme ≠ ""
  text : lexemes ts ++ rest = source
  placed : ∀ before t later, ts = before ++ t :: later → t.pos = .behind (lexemes before)

theorem Scan.Lexed.spelled {cs rest : List Char} {ts : List Token}
    (lexed : Lexed .start cs ts rest) : Spelled cs ts rest :=
  ⟨lexed.nonempty, lexed.text, fun before t later eq => by
    rw [lexed.placed before t later eq, Position.start_after]⟩

theorem tokens_spelled {source : String} {ts : List Token} (h : tokens source = .ok ts) :
    Spelled source.toList ts [] :=
  (Scan.tokensFrom_eq_ok.mp h).spelled

theorem tokens_barren {source : String} {e : SyntaxError} (h : tokens source = .error e) :
    ∃ lexed c rest fault, Scan.Lexed .start source.toList lexed (c :: rest) ∧
      Spelled source.toList lexed (c :: rest) ∧
      Scan.token (.behind (lexemes lexed)) c rest = .error fault ∧
      e = .located (.behind (lexemes lexed)) fault := by
  obtain ⟨lexed, c, rest, fault, run, failed, eq⟩ := Scan.tokensFrom_eq_error h
  rw [Position.start_after] at failed eq
  exact ⟨lexed, c, rest, fault, run, run.spelled, failed, eq⟩

/-- The tokens of a text are all of the text. -/
theorem tokens_lossless (source : String) :
    (∀ ts, tokens source = .ok ts → Spelled source.toList ts []) ∧
    (∀ e, tokens source = .error e → ∃ lexed c rest fault,
      Scan.Lexed .start source.toList lexed (c :: rest) ∧
      Spelled source.toList lexed (c :: rest) ∧
      Scan.token (.behind (lexemes lexed)) c rest = .error fault ∧
      e = .located (.behind (lexemes lexed)) fault) ∧
    ∀ r, Cursor.Tokens (.ofSource source.toList) r ↔ r = (tokens source).mapError .error :=
  ⟨fun _ h => tokens_spelled h, fun _ h => tokens_barren h, fun _ => Cursor.tokens_iff source⟩

theorem tokens_lossless_two_lines :
    (∃ ts, tokens "\"é\n\" else if" = .ok ts ∧ Spelled "\"é\n\" else if".toList ts []) ∧
    ∃ lexed c rest fault, Spelled "x # é\n @".toList lexed (c :: rest) ∧
      tokens "x # é\n @" = .error (.located (.behind (lexemes lexed)) fault) := by
  have first : (tokens "\"é\n\" else if").isOk = true := by decide +kernel
  have second : (tokens "x # é\n @").isOk = false := by decide +kernel
  constructor
  · cases lexed : tokens "\"é\n\" else if" with
    | ok ts => exact ⟨ts, rfl, (tokens_lossless _).1 ts lexed⟩
    | error e =>
      rw [lexed] at first
      cases first
  · cases failed : tokens "x # é\n @" with
    | ok ts =>
      rw [failed] at second
      cases second
    | error e =>
      obtain ⟨lexed, c, rest, fault, -, spelled, -, rfl⟩ := (tokens_lossless _).2.1 e failed
      exact ⟨lexed, c, rest, fault, spelled, rfl⟩

example : (tokens "\"é\n\" else if").toOption.map (·.map (·.pos)) =
    some [⟨1, 1⟩, ⟨2, 2⟩, ⟨2, 3⟩] := by
  decide +kernel

end CalcScript
