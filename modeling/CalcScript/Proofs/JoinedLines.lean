import CalcScript.Proofs.IntegerLiterals
import CalcScript.Proofs.LineBreaks
import CalcScript.Proofs.Places

set_option autoImplicit false

namespace CalcScript

namespace Position

def down (n : Nat) (p : Position) : Position := ⟨p.line + n, p.column⟩

theorem down_next (n : Nat) (p : Position) (c : Char) :
    (p.down n).next c = (p.next c).down n := by
  by_cases feed : c = '\n' <;> simp [down, next, feed, Nat.add_right_comm]

theorem down_after (n : Nat) (p : Position) (cs : List Char) :
    (p.down n).after cs = (p.after cs).down n := by
  induction cs generalizing p with
  | nil => rfl
  | cons c cs ih => rw [after_cons, after_cons, down_next, ih]

theorem behind_next (cs : List Char) :
    (behind cs).next '\n' = start.down (1 + cs.count '\n') := by
  simp [behind, next, down, start, Nat.add_comm]

end Position

namespace Scan

variable {pos : Position} {c : Char} {cs : List Char} {fault : Fault}

theorem token_down (n : Nat) (pos : Position) (c : Char) (cs : List Char) :
    token (pos.down n) c cs =
      (token pos c cs).map fun found => (found.1.move (.down n), found.2) := by
  simp only [token, bind, Except.bind]
  cases scan c cs with
  | error fault => rfl
  | ok found =>
    dsimp only
    cases literal? found.1 (c :: cs.take found.2) <;> rfl

theorem tokensFrom_down (n : Nat) (pos : Position) (cs : List Char) :
    tokensFrom (pos.down n) cs =
      ((tokensFrom pos cs).map (List.map (.move (.down n)))).mapError (.move (.down n)) := by
  fun_induction tokensFrom pos cs with
  | case1 pos =>
    rw [tokensFrom]
    rfl
  | case2 pos c cs fault failed =>
    rw [tokensFrom, token_down, failed]
    rfl
  | case3 pos c cs t k found ih =>
    rw [tokensFrom, token_down, found]
    simp only [Except.map, Position.down_after, ih]
    cases tokensFrom (pos.after (c :: cs.take k)) (cs.drop k) <;> rfl

theorem head?_append_feed {d : Char} (plain : d ≠ '\n') (cs rest : List Char) :
    (cs ++ '\n' :: rest).head? = some d ↔ cs.head? = some d := by
  cases cs with
  | nil => simp [Ne.symm plain]
  | cons e cs => rfl

theorem doubled_error_lengthen {kind : TokenKind} (plain : c ≠ '\n')
    (failed : doubled c cs kind = .error fault) (rest : List Char) :
    doubled c (cs ++ '\n' :: rest) kind = .error fault := by
  simp only [doubled, head?_append_feed plain]
  exact failed

theorem runLength_append_feed {p : Char → Bool} (stop : p '\n' = false) (cs rest : List Char) :
    runLength p (cs ++ '\n' :: rest) = runLength p cs := by
  induction cs with
  | nil => exact runLength_stop (by simpa using stop)
  | cons d cs ih => cases here : p d <;> simp_all [runLength]

theorem number_error_lengthen (failed : number c cs = .error fault) (rest : List Char) :
    number c (cs ++ '\n' :: rest) = .error fault := by
  cases based : base? c cs with
  | none => simp [number, based] at failed
  | some base =>
    obtain ⟨rfl, mark, ds, known, rfl⟩ := base?_eq_some.mp based
    have longer : base? '0' (mark :: (ds ++ '\n' :: rest)) = some base :=
      base?_eq_some.mpr ⟨rfl, mark, _, known, rfl⟩
    have run : runLength (isDigit base) (ds ++ '\n' :: rest) = runLength (isDigit base) ds :=
      runLength_append_feed rfl ds rest
    simp only [number, based, List.tail_cons] at failed
    simp only [number, List.cons_append, longer, List.tail_cons, run]
    exact failed

/-- What is wrong at a place stays wrong if the text goes on with another line, and in the same way.
Only a string that is left open may be closed there. -/
theorem scan_error_lengthen (failed : scan c cs = .error fault)
    (closed : fault ≠ .unterminatedString) (rest : List Char) :
    scan c (cs ++ '\n' :: rest) = .error fault := by
  unfold scan at failed ⊢
  split at failed
  case h_10 =>
    split at failed
    all_goals cases failed
  case h_11 | h_12 => exact doubled_error_lengthen (by decide) failed rest
  case h_14 =>
    split at failed
    · cases failed
    · cases failed
      exact absurd rfl closed
  case h_15 =>
    split at failed
    · cases failed
    · next start =>
      cases cs with
      | nil => exact failed
      | cons d cs => rwa [if_neg (by simpa using start)]
  case h_16 =>
    split at failed
    · cases failed
    · split at failed
      · cases failed
      · next other =>
        rw [if_neg other]
        split at failed
        · next digit =>
          rw [if_pos digit]
          exact number_error_lengthen failed rest
        · next none =>
          rw [if_neg none]
          exact failed
  all_goals cases failed

theorem token_error_lengthen (failed : token pos c cs = .error fault)
    (closed : fault ≠ .unterminatedString) (rest : List Char) :
    token pos c (cs ++ '\n' :: rest) = .error fault := by
  simp only [token, bind, Except.bind] at failed ⊢
  cases scanned : scan c cs with
  | error fault' =>
    rw [scanned] at failed
    cases failed
    rw [scan_error_lengthen scanned closed rest]
  | ok found =>
    obtain ⟨kind, n⟩ := found
    have same : (cs ++ '\n' :: rest).take n = cs.take n :=
      List.take_append_of_le_length (scan_reads scanned).le
    rw [scanned] at failed
    rw [scan_lengthen scanned rest]
    dsimp only at failed ⊢
    rw [same]
    exact failed

def feedBehind (cs : List Char) : Token := ⟨.whitespace, .behind cs, "\n", none⟩

theorem Lexed.feed {ts : List Token} (lexed : Lexed .start cs ts []) (below : List Char) :
    Lexed .start (cs ++ '\n' :: below) (ts ++ [feedBehind cs]) below := by
  have text : lexemes ts = cs := by simpa using lexed.text
  have found : Scan.token (Position.behind cs) '\n' below = .ok (feedBehind cs, 0) := rfl
  have first : Lexed .start (cs ++ '\n' :: below) ts ('\n' :: below) := lexed.lengthen below
  apply first.append
  rw [text, Position.start_after]
  exact .token found (.nothing _ below)

theorem tokensFrom_joined {ts : List Token} (lexed : Lexed .start cs ts []) (below : List Char) :
    tokensFrom .start (cs ++ '\n' :: below) =
      (fun us => ts ++ feedBehind cs :: us) <$>
        tokensFrom (Position.start.down (1 + cs.count '\n')) below := by
  have text : lexemes (ts ++ [feedBehind cs]) = cs ++ ['\n'] := by
    have whole := (lexed.feed []).text
    simpa using whole
  rw [(lexed.feed below).tokensFrom_eq, text, Position.start_after,
    Position.behind_append_singleton, Position.behind_next]
  simp only [List.append_assoc, List.singleton_append]

end Scan

open Scan

/-- A text above a line feed has its tokens, and the text below has its own, so many lines further
down, or is refused as it would be on its own. -/
theorem tokens_joined (a b : String) :
    (∀ ts, tokens a = .ok ts → tokens (a ++ "\n" ++ b) =
      match tokens b with
      | .ok us => .ok (ts ++ ⟨.whitespace, .behind a.toList, "\n", none⟩ ::
          us.map (.move (.down (1 + a.toList.count '\n'))))
      | .error e => .error (e.move (.down (1 + a.toList.count '\n')))) ∧
    ∀ e, tokens a = .error e → (∀ pos, e ≠ .located pos .unterminatedString) →
      tokens (a ++ "\n" ++ b) = .error e := by
  have chars : (a ++ "\n" ++ b).toList = a.toList ++ '\n' :: b.toList := by simp
  simp only [tokens, chars]
  constructor
  · intro ts above
    rw [tokensFrom_joined (tokensFrom_eq_ok.mp above), tokensFrom_down]
    cases tokensFrom .start b.toList <;> rfl
  · intro e refused closed
    obtain ⟨ts, c, cs, fault, lexed, failed, rfl⟩ := tokensFrom_eq_error refused
    have stays : token (Position.start.after (lexemes ts)) c (cs ++ '\n' :: b.toList) =
        .error fault := by
      refine token_error_lengthen failed (fun left => ?_) b.toList
      subst left
      exact closed _ rfl
    rw [(lexed.lengthen b.toList).tokensFrom_eq, List.cons_append, tokensFrom, stays]
    rfl

theorem tokens_joined_else_if :
    let above := "\"é\n\" else"
    (∃ ts us, tokens above = .ok ts ∧ tokens "if x" = .ok us ∧
      tokens (above ++ "\n" ++ "if x") =
        .ok (ts ++ ⟨.whitespace, ⟨2, 7⟩, "\n", none⟩ :: us.map (.move (.down 2)))) ∧
    tokens (above ++ "\n" ++ "  @") = .error (.located ⟨3, 3⟩ (.unexpectedCharacter '@')) ∧
    tokens ("1 &" ++ "\n" ++ "& 2") = .error (.located ⟨1, 3⟩ (.unexpectedCharacter '&')) := by
  intro above
  have lexes : (tokens above).isOk = true := by decide +kernel
  have lexes' : (tokens "if x").isOk = true := by decide +kernel
  have place : Position.behind above.toList = ⟨2, 7⟩ := by decide +kernel
  have lines : 1 + above.toList.count '\n' = 2 := by decide +kernel
  have below : tokens "  @" = .error (.located ⟨1, 3⟩ (.unexpectedCharacter '@')) := by
    decide +kernel
  have lone : tokens "1 &" = .error (.located ⟨1, 3⟩ (.unexpectedCharacter '&')) := by
    decide +kernel
  obtain ⟨ts, found⟩ : ∃ ts, tokens above = .ok ts := by
    cases found : tokens above with
    | ok ts => exact ⟨ts, rfl⟩
    | error e => simp [found, Except.isOk, Except.toBool] at lexes
  obtain ⟨us, found'⟩ : ∃ us, tokens "if x" = .ok us := by
    cases found' : tokens "if x" with
    | ok us => exact ⟨us, rfl⟩
    | error e => simp [found', Except.isOk, Except.toBool] at lexes'
  have joined := (tokens_joined above "if x").1 ts found
  have refused := (tokens_joined above "  @").1 ts found
  rw [found', place, lines] at joined
  rw [below, lines] at refused
  exact ⟨⟨ts, us, found, found', joined⟩, refused, (tokens_joined "1 &" "& 2").2 _ lone nofun⟩

end CalcScript
