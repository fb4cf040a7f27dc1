import CalcScript.Proofs.Equations
import CalcScript.Proofs.FloatBits
import CalcScript.Proofs.NearestFloats
import CalcScript.Proofs.Pages
import CalcScript.Proofs.SoleExpression

set_option autoImplicit false

namespace CalcScript

open Scan

section

variable (cs ds : List Char) (n : Nat)

theorem digitsValue_append :
    digitsValue 10 (cs ++ ds) = 10 ^ ds.length * digitsValue 10 cs + digitsValue 10 ds := by
  have onward (value : Nat) :
      ds.foldl (fun value c => 10 * value + (digitValue? 10 c).getD 0) value =
        10 ^ ds.length * value + digitsValue 10 ds := by
    induction ds generalizing value with
    | nil => simp [digitsValue]
    | cons d ds ih =>
      rw [digitsValue, List.foldl_cons, List.foldl_cons, ih, ih (10 * 0 + _), List.length_cons]
      ring
  rw [digitsValue, List.foldl_append, onward]
  rfl

theorem digitsValue_zeros : digitsValue 10 (List.replicate n '0') = 0 := by
  induction n with
  | zero => rfl
  | succ n ih => rw [List.replicate_succ', digitsValue_append, ih]; rfl

theorem digitsValue_zeros_append :
    digitsValue 10 (List.replicate n '0' ++ ds) = digitsValue 10 ds := by
  rw [digitsValue_append, digitsValue_zeros, Nat.mul_zero, Nat.zero_add]

theorem digits_zeros : ∀ d ∈ List.replicate n '0', isDigit 10 d = true := by
  intro d zero
  rw [List.eq_of_mem_replicate zero]
  decide

theorem digits_zero : Digits 10 ['0'] := ⟨List.cons_ne_nil _ _, digits_zeros 1⟩

theorem digits_toDigits : Digits 10 (Nat.toDigits 10 n) := by
  refine ⟨Nat.toDigits_ne_nil, fun d member => ?_⟩
  have digit := Nat.isDigit_of_mem_toDigits (by decide) (by decide) member
  rw [Char.isDigit, Bool.and_eq_true, decide_eq_true_eq, decide_eq_true_eq] at digit
  exact isDigit_ten_iff.mpr digit

theorem digitsValue_toDigits : digitsValue 10 (Nat.toDigits 10 n) = n := by
  have single : ∀ d < 10, digitsValue 10 [d.digitChar] = d := by decide
  induction n using Nat.strongRecOn with
  | ind n ih =>
    rw [Nat.toDigits_eq_if (by decide)]
    split
    · next small => exact single n small
    · next large =>
      rw [digitsValue_append, ih (n / 10) (by omega), single (n % 10) (by omega)]
      exact Nat.div_add_mod n 10

end

theorem Decimal.sizeBits_shifts (n q : Nat) (e : Int) :
    sizeBits ⟨10 ^ n * q, e⟩ = sizeBits ⟨q, e + n⟩ := by
  induction n generalizing e with
  | zero => simp
  | succ n ih =>
    have step : 10 ^ (n + 1) * q = 10 * (10 ^ n * q) := by ring
    have place : e + 1 + (n : Int) = e + (n + 1 : Nat) := by omega
    rw [step, sizeBits_shift, ih, place]

structure FloatText (cs : List Char) (bits : Nat) : Prop where
  lexeme : Lexeme .float cs
  read : ∃ d, Decimal.ofChars? cs = some d ∧ d.sizeBits = bits

theorem FloatText.of_parts {ws fs ps : List Char} (digits : Digits 10 ws) (point : Fraction fs)
    (scale : Power ps) (some : fs ≠ [] ∨ ps ≠ []) : FloatText (ws ++ fs ++ ps)
      (Decimal.sizeBits ⟨digitsValue 10 (ws ++ fs.tail), powerValue ps - fs.tail.length⟩) :=
  ⟨.float digits point scale some, _, ofChars?_eq digits point scale, rfl⟩

theorem FloatText.of_point {ws fs : List Char} (digits : Digits 10 ws)
    (inside : ∀ d ∈ fs, isDigit 10 d = true) : FloatText (ws ++ '.' :: fs)
      (Decimal.sizeBits ⟨digitsValue 10 (ws ++ fs), -fs.length⟩) := by
  have text := FloatText.of_parts digits (.point inside) .none (.inl (List.cons_ne_nil _ _))
  rw [List.append_nil] at text
  simpa [powerValue] using text

namespace FloatStyle

section

variable (s : FloatStyle) (e : Int)

theorem exponentText_split : ∃ sign ds, s.exponentText e = sign ++ ds ∧ Digits 10 ds ∧
    digitsValue 10 ds = e.natAbs ∧
    (e < 0 ∧ sign = ['-'] ∨ 0 ≤ e ∧ (sign = [] ∨ sign = ['+'])) := by
  have digits := digits_toDigits e.natAbs
  refine ⟨_, _, List.append_assoc _ _ _, ⟨?_, ?_⟩, ?_, ?_⟩
  · simp [digits.1]
  · exact List.forall_mem_append.mpr ⟨digits_zeros _, digits.2⟩
  · rw [digitsValue_zeros_append, digitsValue_toDigits]
  · by_cases negative : e < 0
    · exact .inl ⟨negative, if_pos negative⟩
    · refine .inr ⟨by omega, ?_⟩
      rw [if_neg negative]
      cases s.plus <;> simp

theorem power_exponentText :
    Power ('e' :: s.exponentText e) ∧ powerValue ('e' :: s.exponentText e) = e := by
  obtain ⟨sign, ds, text, digits, size, right⟩ := s.exponentText_split e
  have unsigned := digits.unsigned []
  rw [List.append_nil] at unsigned
  rw [text]
  rcases right with ⟨negative, rfl⟩ | ⟨positive, rfl | rfl⟩
  · refine ⟨.mark (.inr (.inr rfl)) digits, ?_⟩
    have whole : -(e.natAbs : Int) = e := by omega
    simpa [powerValue, size] using whole
  · refine ⟨.mark (.inl rfl) digits, ?_⟩
    have whole : (e.natAbs : Int) = e := by omega
    simpa [powerValue, not_or.mp unsigned, size] using whole
  · refine ⟨.mark (.inr (.inl rfl)) digits, ?_⟩
    have whole : (e.natAbs : Int) = e := by omega
    simpa [powerValue, size] using whole

end

section

variable {ds : List Char} (digits : Digits 10 ds)

include digits

theorem floatText_below (n : Nat) : FloatText ('0' :: '.' :: (List.replicate n '0' ++ ds))
    (Decimal.sizeBits ⟨digitsValue 10 ds, -(n + ds.length : Int)⟩) := by
  have inside : ∀ d ∈ List.replicate n '0' ++ ds, isDigit 10 d = true :=
    List.forall_mem_append.mpr ⟨digits_zeros n, digits.2⟩
  have value : digitsValue 10 ('0' :: (List.replicate n '0' ++ ds)) = digitsValue 10 ds := by
    rw [← List.cons_append, ← List.replicate_succ, digitsValue_zeros_append]
  have text := FloatText.of_point digits_zero inside
  simpa [value] using text

theorem floatText_whole (n : Nat) : FloatText (ds ++ List.replicate n '0' ++ ['.', '0'])
    (Decimal.sizeBits ⟨digitsValue 10 ds, n⟩) := by
  have all : Digits 10 (ds ++ List.replicate n '0') :=
    ⟨by simp [digits.1], List.forall_mem_append.mpr ⟨digits.2, digits_zeros n⟩⟩
  have value : digitsValue 10 (ds ++ List.replicate n '0' ++ ['0']) =
      10 ^ (n + 1) * digitsValue 10 ds := by
    rw [List.append_assoc, ← List.replicate_succ', digitsValue_append, digitsValue_zeros,
      List.length_replicate, Nat.add_zero]
  have text := FloatText.of_point all (digits_zeros 1)
  rw [List.replicate_one, value, Decimal.sizeBits_shifts] at text
  have place : -(1 : Int) + (n + 1 : Nat) = n := by omega
  simpa [place] using text

theorem floatText_inside {n : Nat} (some : 0 < n) (inside : n < ds.length) :
    FloatText (ds.take n ++ '.' :: ds.drop n)
      (Decimal.sizeBits ⟨digitsValue 10 ds, n - ds.length⟩) := by
  have front : Digits 10 (ds.take n) := by
    refine ⟨?_, fun d member => digits.2 d (List.mem_of_mem_take member)⟩
    exact List.ne_nil_of_length_pos (by rw [List.length_take]; omega)
  have behind : ∀ d ∈ ds.drop n, isDigit 10 d = true :=
    fun d member => digits.2 d (List.mem_of_mem_drop member)
  have text := FloatText.of_point front behind
  have place : -((ds.drop n).length : Int) = n - ds.length := by rw [List.length_drop]; omega
  rwa [List.take_append_drop, place] at text

theorem floatText_scaled (s : FloatStyle) (e : Int) :
    FloatText (ds.take 1 ++ (if ds.length = 1 then [] else '.' :: ds.drop 1) ++
        'e' :: s.exponentText e)
      (Decimal.sizeBits ⟨digitsValue 10 ds, e - (ds.length - 1)⟩) := by
  obtain ⟨scale, power⟩ := s.power_exponentText e
  obtain ⟨d, ds, rfl⟩ := List.exists_cons_of_ne_nil digits.1
  obtain ⟨first, more⟩ := List.forall_mem_cons.mp digits.2
  have front : Digits 10 [d] := ⟨List.cons_ne_nil _ _, List.forall_mem_singleton.mpr first⟩
  cases ds with
  | nil =>
    have text := FloatText.of_parts front .none scale (.inr (List.cons_ne_nil _ _))
    simpa [power] using text
  | cons c ds =>
    have text := FloatText.of_parts front (.point more) scale (.inl (List.cons_ne_nil _ _))
    simpa [power] using text

end

theorem floatText_layout (s : FloatStyle) (d : Decimal) : FloatText (s.layout d) d.sizeBits := by
  unfold layout
  extract_lets ds point
  have digits : Digits 10 ds := digits_toDigits d.digits
  have stands {e : Int} (same : e = d.exponent) :
      Decimal.sizeBits ⟨digitsValue 10 ds, e⟩ = d.sizeBits := by
    simp only [ds, digitsValue_toDigits, same]
  have place : point = ds.length + d.exponent := rfl
  clear_value ds point
  split
  · split
    · have exponent : -((-point).toNat + ds.length : Int) = d.exponent := by omega
      exact stands exponent ▸ floatText_below digits _
    · split
      · have exponent : ((point - ds.length).toNat : Int) = d.exponent := by omega
        exact stands exponent ▸ floatText_whole digits _
      · have exponent : (point.toNat - ds.length : Int) = d.exponent := by omega
        exact stands exponent ▸ floatText_inside digits (by omega) (by omega)
  · have exponent : point - 1 - (ds.length - 1) = d.exponent := by omega
    exact stands exponent ▸ floatText_scaled digits s _

end FloatStyle

section

variable {x : Float}

theorem floatText_zero : FloatText ['0', '.', '0'] 0 := by
  have value : Decimal.sizeBits ⟨digitsValue 10 ['0', '0'], -1⟩ = 0 := if_pos (digitsValue_zeros 2)
  exact value ▸ FloatText.of_point digits_zero (digits_zeros 1)

theorem FloatStyle.chars_of_isFinite (s : FloatStyle) (finite : x.isFinite = true) :
    ∃ size, FloatText size (Binary64.sizeBits x) ∧
      s.chars x = if Binary64.isNegative x then '-' :: size else size := by
  obtain ⟨number, bounded⟩ := Binary64.isNaN_of_isFinite finite
  let size := if Binary64.sizeBits x = 0 then ['0', '.', '0'] else
    s.layout (.shortest (Binary64.sizeBits x))
  refine ⟨size, ?_, ?_⟩
  · simp only [size]
    split
    · next none => exact none ▸ floatText_zero
    · have shown := s.floatText_layout (.shortest (Binary64.sizeBits x))
      rwa [Decimal.sizeBits_shortest (Binary64.sizeBits_lt finite)] at shown
  · simp only [chars, number, bounded, Bool.false_eq_true, if_false, size]

end

section

variable {cs : List Char} {bits : Nat} (written : FloatText cs bits)

include written

theorem FloatText.lexed (pos : Position) : Lexed pos cs
    [⟨.float, pos, .ofList cs, some (.float (Binary64.ofSizeBits false bits))⟩] [] := by
  obtain ⟨lexeme, d, decimal, rfl⟩ := written
  obtain ⟨c, tail, rfl⟩ := List.exists_cons_of_ne_nil lexeme.ne_nil
  let t : Token :=
    ⟨.float, pos, .ofList (c :: tail), some (.float (Binary64.ofSizeBits false d.sizeBits))⟩
  have chars : t.lexeme.toList = c :: tail := String.toList_ofList
  have valid : Valid t := by
    refine ⟨chars ▸ lexeme, ?_⟩
    rw [chars]
    simp only [literal?, decimal, t]
  have found : Scan.token pos c (tail ++ []) = .ok (t, tail.length) :=
    valid.token chars (by simp) pos
  rw [List.append_nil] at found
  have lexed := Lexed.token found (.nothing _ _)
  rwa [List.drop_length] at lexed

theorem FloatText.head : cs.head? ≠ some '=' := by
  obtain ⟨lexeme, -⟩ := written
  cases lexeme with
  | float digits =>
    obtain ⟨d, ds, rfl⟩ := List.exists_cons_of_ne_nil digits.1
    intro equals
    cases equals
    exact absurd (digits.2 '=' (.head _)) (by decide)
  | sign sign => cases sign

theorem FloatText.lexed_minus (pos : Position) : Lexed pos ('-' :: cs)
    [⟨.binary .subtract, pos, "-", none⟩, ⟨.float, pos.next '-', .ofList cs,
      some (.float (Binary64.ofSizeBits false bits))⟩] [] := by
  have scanned : scan '-' cs = .ok (.binary .subtract, 0) := by
    simp [scan, withEquals, written.head]
  have minus : Scan.token pos '-' cs = .ok (⟨.binary .subtract, pos, "-", none⟩, 0) := by
    simp only [Scan.token, scanned, literal?, bind, Except.bind, pure, Except.pure]
    rfl
  exact .token minus (written.lexed _)

end

theorem readExpression_of_lexed {cs : List Char} {ts : List Token} {e : Expr}
    (lexed : Lexed .start cs ts []) (kept : ts.filter (·.kind.isSignificant) = ts)
    (phrase : Grammar.Phrase maxNesting .disjunction true e ts) :
    readExpression (.ofList cs) = .ok e := by
  rw [readExpression_eq_ok, readProgram_of_lexed lexed, kept]
  exact Grammar.programWithin_eq_ok.mpr (.last (.expression phrase))

theorem FloatText.expression {cs : List Char} {bits : Nat} (written : FloatText cs bits)
    (negative : Bool) : ∃ e,
      readExpression (.ofList (if negative then '-' :: cs else cs)) = .ok e ∧
      ∀ caller s, Eval.expression caller e s = (.ok (.float (if negative
        then -Binary64.ofSizeBits false bits else Binary64.ofSizeBits false bits)), s) := by
  have plain := written.lexed .start
  have signed := written.lexed_minus .start
  generalize Binary64.ofSizeBits false bits = y at plain signed ⊢
  let t (pos : Position) : Token := ⟨.float, pos, .ofList cs, some (.float y)⟩
  have literal (room : Nat) {level : Level} (pos : Position)
      (loose : level.rank ≤ Level.primary.rank) :
      Grammar.Phrase room level true (.literal (.float y) pos) [t pos] :=
    (Grammar.Phrase.literal (t := t pos) (.inr (.inl rfl)) rfl).loosen loose
  cases negative with
  | false =>
    have read := readExpression_of_lexed plain rfl (literal _ .start (by decide))
    refine ⟨_, read, fun caller s => ?_⟩
    simp [Eval.expression_literal, Value.ofLiteral]
  | true =>
    let minus : Token := ⟨.binary .subtract, .start, "-", none⟩
    have sign : minus.kind.unaryOp? = some .negate := rfl
    have phrase := Grammar.Phrase.unary sign (literal 99 (Position.start.next '-') (by decide))
    have read := readExpression_of_lexed signed rfl (phrase.loosen (by decide))
    refine ⟨_, read, fun caller s => ?_⟩
    simp [Eval.expression_unary, Eval.expression_literal, Value.ofLiteral, Eval.bind_apply,
      Eval.unary, Arithmetic.negate, Eval.ofExcept, Eval.pure]

/-- The text of a finite float is a single token for its size, behind a minus sign where the sign of
the float is set. -/
theorem displayed_float (x : Float) (finite : x.isFinite = true) : ∃ size : String,
    (Value.float x).text = (if Binary64.isNegative x then "-" else "") ++ size ∧
    tokens size = .ok [⟨.float, .start, size, some (.float x.abs)⟩] ∧
    ∀ (rounds : Nat) (s : Session),
      s.evaluateExpression rounds (Value.float x).text = (.value (.float x), s) ∧
      ∀ clearFirst last,
        (s.evaluate rounds (Value.float x).text clearFirst last).1 = .value [.float x] := by
  obtain ⟨cs, written, chars⟩ := FloatStyle.display.chars_of_isFinite finite
  have text : (Value.float x).text =
      .ofList (if Binary64.isNegative x then '-' :: cs else cs) := congrArg String.ofList chars
  obtain ⟨e, read, evaluates⟩ := written.expression (Binary64.isNegative x)
  rw [← text] at read
  rw [← Binary64.abs_eq, Binary64.signed_abs finite] at evaluates
  refine ⟨.ofList cs, ?_, ?_, fun rounds s => ⟨?_, fun clearFirst last => ?_⟩⟩
  · apply String.toList_injective
    rw [text]
    split <;> simp
  · rw [Binary64.abs_eq]
    exact tokens_of_lexed (written.lexed .start)
  · simp only [Session.evaluateExpression, read, Session.run, evaluates, Outcome.ofResult]
  · have program := readExpression_eq_ok.mp read
    have nonblank := nonblank_of_readExpression read
    simp only [Session.evaluate, if_neg nonblank, program, Session.runStatements_single,
      Session.run, evaluates, Outcome.ofResult, Outcome.map]

theorem displayed_float_least :
    let x : Float := .ofBits 0x8000000000000001
    let s := Session.ofConsole (.ofInput [])
    x.isFinite = true ∧
    (∃ size, "-5e-324" = "-" ++ size ∧
      tokens size = .ok [⟨.float, .start, size, some (.float x.abs)⟩]) ∧
    s.evaluateExpression 0 "-5e-324" = (.value (.float x), s) ∧
    (s.evaluate 0 "-5e-324" false none).1 = .value [.float x] := by
  intro x s
  have finite : x.isFinite = true := by decide +kernel
  have shown : (Value.float x).text = "-5e-324" := by decide +kernel
  have negative : Binary64.isNegative x = true := by decide +kernel
  obtain ⟨size, text, token, values⟩ := displayed_float x finite
  rw [shown] at text values
  rw [negative] at text
  exact ⟨finite, ⟨size, text, token⟩, (values 0 s).1, (values 0 s).2 false none⟩

end CalcScript
