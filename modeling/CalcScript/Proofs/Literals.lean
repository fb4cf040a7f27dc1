import CalcScript.Proofs.Layout
import CalcScript.Proofs.Names

set_option autoImplicit false

namespace CalcScript

namespace Text

def shortEscapes : List (Char × Char) :=
  [('n', '\n'), ('t', '\t'), ('r', '\r'), ('0', '\x00'), ('\\', '\\'), ('"', '"'), ('\'', '\''),
    ('a', '\x07'), ('b', '\x08'), ('f', '\x0c'), ('v', '\x0b')]

def codeEscapes : List (Char × Nat) := [('x', 2), ('u', 4)]

inductive Hexadecimal : List Char → Nat → Prop
  | nil : Hexadecimal [] 0
  | snoc {ds : List Char} {n : Nat} {d : Char} (before : Hexadecimal ds n) (k : Fin 16)
      (digit : d = k.val.digitChar ∨ d = k.val.digitChar.toUpper) :
      Hexadecimal (ds ++ [d]) (16 * n + k)

inductive Writes (c : Char) : List Char → Prop
  | plain (noQuote : c ≠ '"') (noEscape : c ≠ '\\') : Writes c [c]
  | short {letter : Char} (known : (letter, c) ∈ shortEscapes) : Writes c ['\\', letter]
  | code {letter : Char} {ds : List Char} (known : (letter, ds.length) ∈ codeEscapes)
      (digits : Hexadecimal ds c.toNat) : Writes c ('\\' :: letter :: ds)

inductive Encodes : List Char → List Char → Prop
  | nil : Encodes [] []
  | cons {c : Char} {text written encoding : List Char} (first : Writes c written)
      (later : Encodes text encoding) : Encodes (c :: text) (written ++ encoding)

section

variable {c letter : Char} {ds text more written encoding : List Char} {n : Nat}

theorem Hexadecimal.value (digits : Hexadecimal ds n) :
    (∀ d ∈ ds, isDigit 16 d = true) ∧ digitsValue 16 ds = n := by
  induction digits with
  | nil => exact ⟨List.forall_mem_nil _, rfl⟩
  | @snoc ds n d before k digit ih =>
    have known : ∀ k : Fin 16, digitValue? 16 k.val.digitChar = some k.val ∧
        digitValue? 16 k.val.digitChar.toUpper = some k.val := by decide
    have value : digitValue? 16 d = some k.val := by
      rcases digit with rfl | rfl
      · exact (known k).1
      · exact (known k).2
    obtain ⟨all, sum⟩ := ih
    constructor
    · simpa [isDigit, value, or_imp, forall_and] using all
    · simp only [digitsValue] at sum
      simp [digitsValue, sum, value]

theorem escaped?_short (known : (letter, c) ∈ shortEscapes) (more : List Char) :
    escaped? letter more = some (c, 0) := by
  have named : ∀ p ∈ shortEscapes, named? p.1 = some p.2 := by decide
  simp only [escaped?, named _ known]

theorem escaped?_code (known : (letter, ds.length) ∈ codeEscapes)
    (digits : Hexadecimal ds c.toNat) (more : List Char) :
    escaped? letter (ds ++ more) = some (c, ds.length) := by
  have letters : ∀ p ∈ codeEscapes, named? p.1 = none ∧ codeWidth? p.1 = some p.2 := by decide
  obtain ⟨unnamed, width⟩ := letters _ known
  obtain ⟨all, value⟩ := digits.value
  have valid : c.toNat.isValidChar := c.valid
  simp [escaped?, unnamed, width, coded?, List.all_eq_true.mpr all, value, valid]

theorem decode_writes (writes : Writes c written) (more : List Char) :
    decode (written ++ more) = c :: decode more := by
  cases writes with
  | plain noQuote noEscape =>
    cases more with
    | nil => simp [decode]
    | cons d more => simp [decode, noEscape]
  | short known => simp [decode, escaped?_short known]
  | code known digits => simp [decode, escaped?_code known digits]

theorem Encodes.decode_eq (encodes : Encodes text encoding) : decode encoding = text := by
  induction encodes with
  | nil => simp [decode]
  | cons first later ih => rw [decode_writes first, ih]

theorem Encodes.append {text' encoding' : List Char} (first : Encodes text encoding)
    (later : Encodes text' encoding') : Encodes (text ++ text') (encoding ++ encoding') := by
  induction first with
  | nil => exact later
  | cons writes _ ih =>
    rw [List.cons_append, List.append_assoc]
    exact .cons writes ih

theorem exists_encodes (text : List Char) : ∃ encoding, Encodes text encoding := by
  induction text with
  | nil => exact ⟨[], .nil⟩
  | cons c text ih =>
    obtain ⟨encoding, encodes⟩ := ih
    by_cases special : c = '"' ∨ c = '\\'
    · have known : (c, c) ∈ shortEscapes := by
        rcases special with rfl | rfl <;> decide
      exact ⟨_, .cons (.short known) encodes⟩
    · obtain ⟨noQuote, noEscape⟩ := not_or.mp special
      exact ⟨_, .cons (.plain noQuote noEscape) encodes⟩

theorem Hexadecimal.quotable (digits : Hexadecimal ds n) (more : Scan.Quotable encoding) :
    Scan.Quotable (ds ++ encoding) := by
  have all := digits.value.1
  clear digits
  induction ds with
  | nil => exact more
  | cons d ds ih =>
    obtain ⟨digit, others⟩ := List.forall_mem_cons.mp all
    refine .plain ?_ ?_ (ih others)
    · rintro rfl
      exact absurd digit (by decide)
    · rintro rfl
      exact absurd digit (by decide)

theorem Encodes.quotable (encodes : Encodes text encoding) : Scan.Quotable encoding := by
  induction encodes with
  | nil => exact .nil
  | cons first _ ih =>
    cases first with
    | plain noQuote noEscape => exact .plain noQuote noEscape ih
    | short known => exact .escaped _ ih
    | code known digits => exact .escaped _ (digits.quotable ih)

end

end Text

namespace Scan

def literalText (inside : List Char) : List Char := '"' :: (inside ++ ['"'])

/-- A text in one literal or in several with plus signs between them, what is between the quotes of
the first literal and of the others, and the source they make up. -/
inductive Divided : List Char → List Char → List (List Char) → List Char → Prop
  | one {text inside : List Char} (encodes : Text.Encodes text inside) :
      Divided text inside [] (literalText inside)
  | plus {text text' inside first gap gap' source : List Char} {others : List (List Char)}
      (encodes : Text.Encodes text inside) (before : ∀ c ∈ gap, c ∈ blanks)
      (behind : ∀ c ∈ gap', c ∈ blanks) (more : Divided text' first others source) :
      Divided (text ++ text') inside (first :: others)
        (literalText inside ++ (gap ++ '+' :: (gap' ++ source)))

def printText (argument : List Char) : String :=
  .ofList (['p', 'r', 'i', 'n', 't', '('] ++ (argument ++ [')']))

def stringToken (inside : List Char) : Token :=
  ⟨.string, default, .ofList (literalText inside), some (.string (.ofList inside))⟩

def plusToken : Token := ⟨.binary .add, default, "+", none⟩

def laterTokens (others : List (List Char)) : List Token :=
  others.flatMap fun inside => [plusToken, stringToken inside]

def nameToken : Token := ⟨.identifier, default, "print", none⟩

def leftToken : Token := ⟨.leftParen, default, "(", none⟩

def rightToken : Token := ⟨.rightParen, default, ")", none⟩

def printTokens (first : List Char) (others : List (List Char)) : List Token :=
  nameToken :: leftToken :: ((stringToken first :: laterTokens others) ++ [rightToken])

section

variable {text first source gap : List Char} {others : List (List Char)}

theorem Divided.encodes (divided : Divided text first others source) :
    Text.Encodes text (first ++ others.flatten) := by
  induction divided with
  | one encodes => simpa using encodes
  | plus encodes before behind more ih => simpa using encodes.append ih

theorem blanks_yield (all : ∀ c ∈ gap, c ∈ blanks) (rest : List Char) :
    Yields (gap ++ rest) [] rest := by
  induction gap with
  | nil => exact .nothing rest
  | cons c gap ih =>
    obtain ⟨blank, others⟩ := List.forall_mem_cons.mp all
    exact (blank_yields blank _).append (ih others)

theorem single_yields {t : Token} {c : Char} {tail rest : List Char}
    (chars : t.lexeme.toList = c :: tail)
    (scanned : scan c (tail ++ rest) = .ok (t.kind, tail.length))
    (literal : literal? t.kind (c :: tail) = .ok t.literal) (kept : t.kind.isSignificant = true) :
    Yields (c :: (tail ++ rest)) [t.unplaced] rest := by
  have yields := yields_of_found chars (token_of_scan chars scanned literal)
  simpa [chars, kept] using yields

theorem string_yields {inside : List Char} (quotable : Quotable inside) (rest : List Char) :
    Yields (literalText inside ++ rest) [stringToken inside] rest := by
  have closed : stringLength? (inside ++ '"' :: rest) = some (inside.length + 1) :=
    stringLength?_eq_some.mpr ⟨inside, rest, quotable, rfl, rfl⟩
  have scanned : scan '"' ((inside ++ ['"']) ++ rest) =
      .ok (.string, (inside ++ ['"']).length) := by
    simp [scan, closed]
  exact single_yields (t := stringToken inside) (by simp [stringToken, literalText]) scanned
    (by simp [stringToken, literal?]) rfl

theorem plus_yields {rest : List Char} (other : rest.head? ≠ some '=') :
    Yields ('+' :: rest) [plusToken] rest := by
  have scanned : scan '+' ([] ++ rest) = .ok (.binary .add, 0) := by
    simp [scan, withEquals, other]
  exact single_yields (t := plusToken) rfl scanned rfl rfl

theorem Divided.head (divided : Divided text first others source) (rest : List Char) :
    (source ++ rest).head? = some '"' := by
  cases divided <;> rfl

theorem Divided.yields (divided : Divided text first others source) (rest : List Char) :
    Yields (source ++ rest) (stringToken first :: laterTokens others) rest := by
  induction divided with
  | one encodes => exact string_yields encodes.quotable rest
  | @plus text text' inside first gap gap' source others encodes before behind more ih =>
    have sign : (gap' ++ (source ++ rest)).head? ≠ some '=' := by
      cases gap' with
      | nil => simp [more.head rest]
      | cons c gap' =>
        rintro equals
        cases equals
        exact absurd (behind '=' (.head _)) (by decide)
    have literal := string_yields encodes.quotable (gap ++ '+' :: (gap' ++ (source ++ rest)))
    have plus := (blanks_yield before _).append (plus_yields sign)
    have all := literal.append (plus.append ((blanks_yield behind _).append ih))
    simpa [laterTokens] using all

theorem printText_yields (divided : Divided text first others source) :
    Yields (printText source).toList (printTokens first others) [] := by
  have inside : ∀ d ∈ ['r', 'i', 'n', 't'], isWordChar d = true := List.all_eq_true.mp rfl
  have scanned (rest : List Char) :
      scan 'p' (['r', 'i', 'n', 't'] ++ '(' :: rest) = .ok (.identifier, 4) := by
    have length : runLength isWordChar (['r', 'i', 'n', 't'] ++ '(' :: rest) = 4 :=
      runLength_exact inside (by simp; decide)
    have unknown : Keyword.ofWord? (.ofList ['p', 'r', 'i', 'n', 't']) = none := by decide
    rw [scan_word (.inl (by decide))]
    simp only [word, length]
    exact congrArg _ (by simp [unknown])
  have name (rest : List Char) :
      Yields ('p' :: (['r', 'i', 'n', 't'] ++ '(' :: rest)) [nameToken] ('(' :: rest) :=
    single_yields (t := nameToken) rfl (scanned rest) rfl rfl
  have left (rest : List Char) : Yields ('(' :: ([] ++ rest)) [leftToken] rest :=
    single_yields (t := leftToken) rfl rfl rfl rfl
  have right : Yields (')' :: ([] ++ [])) [rightToken] [] :=
    single_yields (t := rightToken) rfl rfl rfl rfl
  have all := (name _).append ((left _).append ((divided.yields [')']).append right))
  simpa [printText, printTokens] using all

end

end Scan

open Scan Grammar

section

variable {text first source : List Char} {others : List (List Char)} {ts : List Token}

theorem sum_phrase {room : Nat} {ts us : List Token} {e : Expr}
    (start : ∀ last, Phrase room .term last e us)
    (same : ts.map Token.unplaced = laterTokens others) :
    ∃ sum, (∀ last, Phrase room .term last sum (us ++ ts)) ∧
      ∀ caller s l, Eval.expression caller e s = (.ok (.string (.ofList l)), s) →
        Eval.expression caller sum s = (.ok (.string (.ofList (l ++ others.flatten))), s) := by
  induction others generalizing ts us e with
  | nil =>
    obtain rfl : ts = [] := by simpa [laterTokens] using same
    refine ⟨e, by simpa using start, fun caller s l value => ?_⟩
    simpa using value
  | cons inside others ih =>
    obtain ⟨plus, more, rfl, sign, same⟩ := List.map_eq_cons_iff.mp same
    obtain ⟨t, rest, rfl, literal, same⟩ := List.map_eq_cons_iff.mp same
    have ⟨kind, _, value⟩ := Token.of_unplaced literal
    have right (last : Bool) : Phrase room .factor last (.literal (.string (.ofList inside)) t.pos)
        [t] :=
      (Phrase.literal (.inr (.inr kind)) value).loosen (by decide)
    have longer (last : Bool) : Phrase room .term last
        (.binary .add e (.literal (.string (.ofList inside)) t.pos) plus.pos) (us ++ [plus, t]) :=
      .binary rfl nofun (start false) (Token.of_unplaced sign).1 (right last)
    obtain ⟨sum, phrase, evaluates⟩ := ih longer same
    refine ⟨sum, by simpa using phrase, fun caller s l known => ?_⟩
    have joined := evaluates caller s (l ++ inside) (by
      simp [Eval.expression_binary, Eval.expression_literal, Eval.bind_apply, known,
        Value.ofLiteral, Arithmetic.binary, Eval.ofExcept, Eval.pure])
    simpa using joined

theorem printTokens_phrase (same : ts.map Token.unplaced = printTokens first others) :
    ∃ pos sum, Phrase maxNesting .disjunction true (.call ⟨"print", pos⟩ [sum]) ts ∧
      ∀ caller s, Eval.expression caller sum s =
        (.ok (.string (.ofList (first ++ others.flatten))), s) := by
  obtain ⟨name, ts, rfl, named, behind⟩ := List.map_eq_cons_iff.mp same
  obtain ⟨left, ts, rfl, opened, behind⟩ := List.map_eq_cons_iff.mp behind
  obtain ⟨argument, done, rfl, literals, last⟩ := List.map_eq_append_iff.mp behind
  obtain ⟨t, later, rfl, literal, more⟩ := List.map_eq_cons_iff.mp literals
  obtain ⟨right, ts, rfl, closed, nothing⟩ := List.map_eq_cons_iff.mp last
  obtain rfl : ts = [] := List.map_eq_nil_iff.mp nothing
  have ⟨nameKind, lexeme, _⟩ := Token.of_unplaced named
  have ⟨kind, _, value⟩ := Token.of_unplaced literal
  have start (last : Bool) : Phrase 99 .term last (.literal (.string (.ofList first)) t.pos) [t] :=
    (Phrase.literal (.inr (.inr kind)) value).loosen (by decide)
  obtain ⟨sum, phrase, evaluates⟩ := sum_phrase start more
  have argument := Arguments.last ((phrase true).loosen (by decide))
  have call : Phrase maxNesting .primary true (.call ⟨name.lexeme, name.pos⟩ [sum])
      (name :: left :: (([t] ++ later) ++ [right])) :=
    .call nameKind (Token.of_unplaced opened).1 argument (Token.of_unplaced closed).1
  refine ⟨name.pos, sum, ?_, fun caller s => evaluates caller s first ?_⟩
  · rw [lexeme] at call
    exact call.loosen (by decide)
  · simp [Eval.expression_literal, Value.ofLiteral]

theorem payloads_printTokens (same : ts.map Token.unplaced = printTokens first others) :
    (ts.filter (·.kind = .string)).map (·.literal) =
      (first :: others).map fun inside => some (.string (.ofList inside)) := by
  have moved (ts : List Token) : (ts.filter (·.kind = .string)).map (·.literal) =
      ((ts.map Token.unplaced).filter (·.kind = .string)).map (·.literal) := by
    rw [List.filter_map, List.map_map]
    rfl
  have later (others : List (List Char)) :
      ((laterTokens others).filter (·.kind = .string)).map (·.literal) =
        others.map fun inside => some (.string (.ofList inside)) := by
    induction others with
    | nil => rfl
    | cons inside others ih =>
      rw [laterTokens] at ih
      rw [laterTokens, List.flatMap_cons, List.filter_append, List.map_append, ih]
      rfl
  rw [moved, same]
  simp [printTokens, nameToken, leftToken, rightToken, stringToken, later]

theorem print_apply {s : Session} (guarded : s.Guarded) (works : s.console.broken = false)
    {caller : Caller} {e : Expr} {encoding : List Char} (encodes : Text.Encodes text encoding)
    (value : Eval.expression caller e s = (.ok (.string (.ofList encoding)), s)) (pos : Position) :
    Eval.expression caller (.call ⟨"print", pos⟩ [e]) s = (.ok .nothing,
      { s with console :=
        { s.console with written := s.console.written ++ (.ofList text ++ "\n") } }) := by
  have name : Builtin.ofName? "print" = some .print := by decide
  have shown : Builtin.printed (.string (.ofList encoding)) = .ofList text := by
    rw [Builtin.printed, Text.unescape, String.toList_ofList, encodes.decode_eq]
  have some : ¬String.ofList text ++ "\n" = "" := by simp
  have args : Eval.walkAll caller [e] s = (.ok [.string (.ofList encoding)], s) := by
    rw [Eval.walkAll_cons, Eval.bind_apply, value]
    rfl
  rw [guarded.unshadowed.call name]
  simp [Builtin.arity, Arity.accepts, Eval.bind_apply, args, Builtin.call, Eval.write,
    Console.write?, shown, works, some, -bind_pure_comp]

/-- Every text can be written as a string literal. -/
theorem print_divided :
    (∀ text, ∃ encoding, Text.Encodes text encoding) ∧
    ∀ text first others source, Divided text first others source →
      (∃ ts, tokens (printText source) = .ok ts ∧
        (ts.filter (·.kind = .string)).map (·.literal) =
          (first :: others).map fun inside => some (.string (.ofList inside))) ∧
      (∃ items, readProgram (printText source) = .ok items) ∧
      ∀ s : Session, s.Reached → s.console.broken = false → ∀ rounds,
        s.evaluate rounds (printText source) false none = (.value [.nothing],
          { s with console :=
            { s.console with written := s.console.written ++ (.ofList text ++ "\n") } }) := by
  refine ⟨Text.exists_encodes, fun text first others source divided => ?_⟩
  obtain ⟨us, lexed, same⟩ := printText_yields divided .start
  have found : tokens (printText source) = .ok us := tokensFrom_eq_ok.mpr lexed
  obtain ⟨pos, sum, phrase, evaluates⟩ := printTokens_phrase same
  have read : readProgram (printText source) = .ok [.expression (.call ⟨"print", pos⟩ [sum])] := by
    rw [readProgram, significantTokens_eq_ok.mpr ⟨us, found, rfl⟩]
    exact programWithin_eq_ok.mpr (.last (.expression phrase))
  refine ⟨⟨us, found, ?_⟩, ⟨_, read⟩, fun s reached works rounds => ?_⟩
  · rw [← payloads_printTokens same, List.filter_filter]
    congr 2
    funext t
    cases t.kind <;> rfl
  · have nonblank : Text.trim (printText source).toList ≠ [] := by
      rw [Ne, Text.trim_eq_nil, printText, String.toList_ofList]
      exact fun blank => absurd (blank 'p' (.head _)) (by decide)
    have printed := print_apply reached.guarded works divided.encodes
      (evaluates (Eval.call rounds maxCallDepth) s) pos
    simp [Session.evaluate, nonblank, read, Session.runStatements, Session.run, Eval.statements,
      Eval.statement, Eval.bind_apply, printed, Outcome.ofResult, -bind_pure_comp]

theorem print_divided_codes :
    let source := printText (literalText ['\\', 'u', '0', '0', '2', '2', '\\', 'x', '4', 'A'] ++
      ([' '] ++ '+' :: ([] ++ literalText ['\\', 'n'])))
    let s := Session.ofConsole (.ofInput [])
    (∃ items, readProgram source = .ok items) ∧
    s.evaluate 0 source false none = (.value [.nothing],
      { s with console := { s.console with written := "\"J\n\n" } }) := by
  intro source s
  have quote : Text.Hexadecimal ([] ++ ['0'] ++ ['0'] ++ ['2'] ++ ['2']) '"'.toNat :=
    .snoc (.snoc (.snoc (.snoc .nil 0 (.inl rfl)) 0 (.inl rfl)) 2 (.inl rfl)) 2 (.inl rfl)
  have letter : Text.Hexadecimal ([] ++ ['4'] ++ ['A']) 'J'.toNat :=
    .snoc (.snoc .nil 4 (.inl rfl)) 10 (.inr rfl)
  have first : Text.Encodes ['"', 'J'] _ :=
    .cons (.code (.tail _ (.head _)) quote) (.cons (.code (.head _) letter) .nil)
  have second : Text.Encodes ['\n'] _ := .cons (.short (.head _)) .nil
  have before : ∀ c ∈ [' '], c ∈ blanks := List.forall_mem_singleton.mpr (by decide)
  have divided := Divided.plus first before (List.forall_mem_nil _) (.one second)
  obtain ⟨-, read, prints⟩ := print_divided.2 _ _ _ _ divided
  exact ⟨read, prints s (.start _) rfl 0⟩

end

end CalcScript
