import CalcScript.Proofs.TokenGrammar
import CalcScript.Token.Cursor

set_option autoImplicit false

namespace CalcScript

theorem byteLength_cons (c : Char) (cs : List Char) :
    byteLength (c :: cs) = c.utf8Size + byteLength cs := rfl

theorem byteLength_append (cs ds : List Char) :
    byteLength (cs ++ ds) = byteLength cs + byteLength ds := by
  induction cs with
  | nil => exact (Nat.zero_add _).symm
  | cons c cs ih => rw [List.cons_append, byteLength_cons, ih, byteLength_cons, Nat.add_assoc]

theorem utf8Size_eq_add_one (c : Char) : ∃ n, c.utf8Size = n + 1 :=
  Nat.exists_eq_add_one.mpr c.utf8Size_pos

theorem dropBytes?_append (cs ds : List Char) :
    dropBytes? (byteLength cs) (cs ++ ds) = some ds := by
  induction cs with
  | nil => cases ds <;> rfl
  | cons c cs ih =>
    obtain ⟨n, size⟩ := utf8Size_eq_add_one c
    have total : byteLength (c :: cs) = n + byteLength cs + 1 := by
      rw [byteLength_cons, size]
      omega
    have left : n + byteLength cs + 1 - c.utf8Size = byteLength cs := by omega
    rw [List.cons_append, total, dropBytes?, if_pos (by omega), left, ih]

theorem takeBytes?_append (cs ds : List Char) :
    takeBytes? (byteLength cs) (cs ++ ds) = some cs := by
  induction cs with
  | nil => cases ds <;> rfl
  | cons c cs ih =>
    obtain ⟨n, size⟩ := utf8Size_eq_add_one c
    have total : byteLength (c :: cs) = n + byteLength cs + 1 := by
      rw [byteLength_cons, size]
      omega
    have left : n + byteLength cs + 1 - c.utf8Size = byteLength cs := by omega
    rw [List.cons_append, total, takeBytes?, if_pos (by omega), left, ih]
    rfl

theorem slice?_append {first last : Nat} (before cs behind : List Char)
    (starts : first = byteLength before) (ends : last = byteLength (before ++ cs)) :
    slice? first last (before ++ cs ++ behind) = some cs := by
  rw [byteLength_append] at ends
  have length : last - first = byteLength cs := by omega
  rw [slice?, List.append_assoc, starts, dropBytes?_append]
  simp only [← starts, length, takeBytes?_append, Option.bind_eq_bind, Option.bind_some]
  exact if_neg (by omega)

-- The cursors in step: between the lexeme so far and what is still to be read.
def Cursor.reading (before lexed stream : List Char) : Cursor where
  source := before ++ lexed ++ stream
  stream := stream
  place := Position.start.after (before ++ lexed)
  start := byteLength before
  current := byteLength (before ++ lexed)
  startPlace := Position.start.after before

@[simp] theorem Cursor.reading_stream (before lexed stream : List Char) :
    (reading before lexed stream).stream = stream := rfl

namespace Lexer

variable {α β : Type} {before lexed stream lexed' stream' lexed₂ stream₂ : List Char}

def Moves (m : Lexer α) (before lexed stream : List Char) (a : α) (lexed' stream' : List Char) :
    Prop :=
  m (.reading before lexed stream) = .ok (a, .reading before lexed' stream')

def Fails (m : Lexer α) (before lexed stream : List Char) (fault : Fault) : Prop :=
  m (.reading before lexed stream) =
    .error (.error (.located (Position.start.after before) fault))

section

variable {m : Lexer α} {f : α → Lexer β} {a : α} {b : β} {fault : Fault}

theorem Moves.bind (first : Moves m before lexed stream a lexed' stream')
    (later : Moves (f a) before lexed' stream' b lexed₂ stream₂) :
    Moves (m >>= f) before lexed stream b lexed₂ stream₂ := by
  unfold Moves at first later ⊢
  simp only [Bind.bind, StateT.bind, first, Except.bind, later]

theorem Moves.fails (first : Moves m before lexed stream a lexed' stream')
    (later : Fails (f a) before lexed' stream' fault) :
    Fails (m >>= f) before lexed stream fault := by
  unfold Moves at first
  unfold Fails at later ⊢
  simp only [Bind.bind, StateT.bind, first, Except.bind, later]

theorem Fails.bind (first : Fails m before lexed stream fault) :
    Fails (m >>= f) before lexed stream fault := by
  unfold Fails at first ⊢
  simp only [Bind.bind, StateT.bind, first, Except.bind]

theorem Moves.pure (a : α) : Moves (pure a) before lexed stream a lexed stream := rfl

theorem Moves.get :
    Moves get before lexed stream (.reading before lexed stream) lexed stream := rfl

theorem fail_fails (fault : Fault) : Fails (fail fault : Lexer α) before lexed stream fault := rfl

end

theorem ofSlice_moves {found : Option (List Char)} {cs : List Char} (eq : found = some cs) :
    Moves (ofSlice found) before lexed stream cs lexed stream := by
  rw [eq]
  exact .pure cs

theorem lexeme_moves : Moves lexeme before lexed stream lexed lexed stream :=
  Moves.get.bind (ofSlice_moves (slice?_append before lexed stream rfl rfl))

theorem upcoming_moves : Moves upcoming before lexed stream stream lexed stream :=
  Moves.get.bind (ofSlice_moves (dropBytes?_append (before ++ lexed) stream))

theorem make_moves (kind : TokenKind) (literal : Option Literal) :
    Moves (make kind literal) before lexed stream
      ⟨kind, Position.start.after before, .ofList lexed, literal⟩ lexed stream :=
  Moves.get.bind (lexeme_moves.bind (.pure _))

theorem advance_moves (c : Char) :
    Moves advance before lexed (c :: stream) (some c) (lexed ++ [c]) stream := by
  have step : Cursor.reading before (lexed ++ [c]) stream =
      { Cursor.reading before lexed (c :: stream) with
        stream := stream
        place := (Position.start.after (before ++ lexed)).next c
        current := byteLength (before ++ lexed) + c.utf8Size } := by
    simp [Cursor.reading, byteLength_append, byteLength, Nat.add_assoc]
  rw [Moves, step]
  rfl

theorem any_head?_eq_false {p : Char → Bool} (stop : ∀ d ∈ stream.head?, p d = false) :
    stream.head?.any p = false := by
  cases stream with
  | nil => rfl
  | cons c rest => exact stop c rfl

theorem advanceIf_moves {p : Char → Bool} {c : Char} (here : p c = true) :
    Moves (advanceIf p) before lexed (c :: stream) true (lexed ++ [c]) stream := by
  refine Moves.get.bind ?_
  rw [Cursor.reading_stream, List.head?_cons, Option.any_some, if_pos here]
  exact (advance_moves c).bind (.pure true)

theorem advanceIf_stays {p : Char → Bool} (stop : ∀ d ∈ stream.head?, p d = false) :
    Moves (advanceIf p) before lexed stream false lexed stream := by
  refine Moves.get.bind ?_
  rw [Cursor.reading_stream, any_head?_eq_false stop]
  exact .pure false

theorem advanceIf_other {c : Char} (other : ¬stream.head? = some c) :
    Moves (advanceIf (· = c)) before lexed stream false lexed stream := by
  refine advanceIf_stays fun d first => ?_
  rw [Option.mem_def.mp first] at other
  simpa using other

variable {p : Char → Bool} {ds rest : List Char}

theorem advanceAlong_moves (all : ∀ d ∈ ds, p d = true) (stop : ∀ d ∈ rest.head?, p d = false) :
    Moves (advanceAlong p (ds ++ rest)) before lexed (ds ++ rest) ds.length (lexed ++ ds) rest := by
  induction ds generalizing lexed with
  | nil =>
    rw [List.nil_append, List.append_nil]
    cases rest with
    | nil => exact .pure 0
    | cons d rest =>
      rw [advanceAlong, stop d rfl]
      exact .pure 0
  | cons d ds ih =>
    obtain ⟨here, all⟩ := List.forall_mem_cons.mp all
    have text : lexed ++ d :: ds = lexed ++ [d] ++ ds := by simp
    rw [List.cons_append, advanceAlong, if_pos here, List.length_cons, Nat.add_comm, text]
    exact (advance_moves d).bind ((ih all).bind (.pure _))

theorem advanceWhile_moves (all : ∀ d ∈ ds, p d = true) (stop : ∀ d ∈ rest.head?, p d = false) :
    Moves (advanceWhile p) before lexed (ds ++ rest) ds.length (lexed ++ ds) rest :=
  Moves.get.bind (advanceAlong_moves all stop)

theorem advanceTimes_moves : ∀ (ds : List Char) {lexed : List Char},
    Moves (advanceTimes ds.length) before lexed (ds ++ rest) () (lexed ++ ds) rest
  | [], lexed => by
    rw [List.append_nil]
    exact .pure ()
  | d :: ds, lexed => by
    have text : lexed ++ d :: ds = lexed ++ [d] ++ ds := by simp
    rw [text]
    exact (advance_moves d).bind (advanceTimes_moves ds)

def Ends (m : Lexer Token) (before lexed stream : List Char) (kind : TokenKind)
    (lexed' stream' : List Char) : Prop :=
  match Scan.literal? kind lexed' with
  | .ok literal => Moves m before lexed stream
      ⟨kind, Position.start.after before, .ofList lexed', literal⟩ lexed' stream'
  | .error fault => Fails m before lexed stream fault

theorem Moves.ends {m : Lexer α} {f : α → Lexer Token} {a : α} {kind : TokenKind}
    (first : Moves m before lexed stream a lexed' stream')
    (later : Ends (f a) before lexed' stream' kind lexed₂ stream₂) :
    Ends (m >>= f) before lexed stream kind lexed₂ stream₂ := by
  unfold Ends at later ⊢
  split at later
  · exact first.bind later
  · exact first.fails later

theorem make_ends {kind : TokenKind} {literal : Option Literal}
    (eq : Scan.literal? kind lexed = .ok literal) :
    Ends (make kind literal) before lexed stream kind lexed stream := by
  rw [Ends, eq]
  exact make_moves kind literal

theorem makeInteger_ends {base : Nat} {digits : List Char}
    (split : Scan.integerDigits lexed = (base, digits)) :
    Ends (makeInteger base digits) before lexed stream .integer lexed stream := by
  unfold Ends makeInteger
  simp only [Scan.literal?, split]
  cases Word.ofInt? (digitsValue base digits) with
  | some n => exact make_moves _ _
  | none => exact lexeme_moves.fails (fail_fails _)

theorem makeFloat_ends : Ends makeFloat before lexed stream .float lexed stream := by
  refine lexeme_moves.ends ?_
  unfold Ends
  simp only [Scan.literal?]
  cases Decimal.ofChars? lexed with
  | some d => exact make_moves _ _
  | none => exact fail_fails _

-- What the lexer does behind the first character agrees with the scan of the text there.
def Agrees (m : Lexer Token) (before : List Char) (c : Char) (cs : List Char) : Prop :=
  match Scan.token (Position.start.after before) c cs with
  | .ok (t, n) => Moves m before [c] cs t (c :: cs.take n) (cs.drop n)
  | .error fault => Fails m before [c] cs fault

namespace Agrees

variable {m : Lexer Token} {c : Char} {cs : List Char} {kind : TokenKind}

theorem of_ends (ds : List Char) (ends : Ends m before [c] (ds ++ rest) kind (c :: ds) rest)
    (scanned : Scan.scan c (ds ++ rest) = .ok (kind, ds.length)) :
    Agrees m before c (ds ++ rest) := by
  unfold Agrees Scan.token
  unfold Ends at ends
  simp only [scanned, bind, Except.bind, List.take_left]
  split at ends
  · next literal eq =>
    simpa only [eq, pure, Except.pure, List.take_left, List.drop_left] using ends
  · next fault eq =>
    simpa only [eq] using ends

theorem of_fails {fault : Fault} (fails : Fails m before [c] cs fault)
    (scanned : Scan.scan c cs = .error fault) : Agrees m before c cs := by
  unfold Agrees Scan.token
  simpa only [scanned, bind, Except.bind] using fails

theorem get {f : Cursor → Lexer Token} (agrees : Agrees (f (.reading before [c] cs)) before c cs) :
    Agrees (MonadState.get >>= f) before c cs := agrees

end Agrees

def Plain (kind : TokenKind) : Prop := ∀ lexeme, Scan.literal? kind lexeme = .ok none

theorem lookahead_ends {long short : TokenKind} (plain : Plain long) (plain' : Plain short)
    (before stream : List Char) : ∃ kind ds rest, stream = ds ++ rest ∧
      Scan.withEquals stream long short = (kind, ds.length) ∧
      ∀ lexed, Ends (lookahead '=' long short) before lexed stream kind (lexed ++ ds) rest := by
  by_cases equals : stream.head? = some '='
  · obtain ⟨rest, rfl⟩ := List.head?_eq_some_iff.mp equals
    refine ⟨long, ['='], rest, rfl, if_pos equals, fun lexed => ?_⟩
    exact (advanceIf_moves (by decide)).ends (make_ends (plain _))
  · refine ⟨short, [], stream, rfl, if_neg equals, fun lexed => ?_⟩
    rw [List.append_nil]
    exact (advanceIf_other equals).ends (make_ends (plain' _))

theorem lookahead_agrees {c : Char} {cs : List Char} {long short : TokenKind}
    (plain : Plain long) (plain' : Plain short)
    (scanned : Scan.scan c cs = .ok (Scan.withEquals cs long short)) :
    Agrees (lookahead '=' long short) before c cs := by
  obtain ⟨kind, ds, rest, rfl, found, ends⟩ := lookahead_ends plain plain' before cs
  exact .of_ends ds (ends [c]) (scanned.trans (congrArg Except.ok found))

theorem slash_agrees (cs : List Char) : Agrees slash before '/' cs := by
  have plain (op : BinaryOp) : Plain (.compound op) := fun _ => rfl
  have plain' (op : BinaryOp) : Plain (.binary op) := fun _ => rfl
  by_cases doubled : cs.head? = some '/'
  · obtain ⟨cs, rfl⟩ := List.head?_eq_some_iff.mp doubled
    obtain ⟨kind, ds, rest, rfl, found, ends⟩ :=
      lookahead_ends (plain .floorDivide) (plain' .floorDivide) before cs
    refine .of_ends ('/' :: ds) ((advanceIf_moves (by decide)).ends (ends ['/', '/'])) ?_
    simp only [Scan.scan, List.cons_append, List.head?_cons, if_true, List.tail_cons, found,
      List.length_cons]
  · obtain ⟨kind, ds, rest, rfl, found, ends⟩ :=
      lookahead_ends (plain .divide) (plain' .divide) before cs
    refine .of_ends ds ((advanceIf_other doubled).ends (ends ['/'])) ?_
    simp only [Scan.scan, if_neg doubled, found]

theorem pair_agrees {c : Char} {cs : List Char} {kind : TokenKind} (plain : Plain kind)
    (scanned : Scan.scan c cs = Scan.doubled c cs kind) : Agrees (pair c kind) before c cs := by
  unfold Scan.doubled at scanned
  by_cases doubled : cs.head? = some c
  · rw [if_pos doubled] at scanned
    obtain ⟨rest, rfl⟩ := List.head?_eq_some_iff.mp doubled
    exact .of_ends [c] ((advanceIf_moves (decide_eq_true rfl)).ends (make_ends (plain _))) scanned
  · rw [if_neg doubled] at scanned
    exact .of_fails ((advanceIf_other doubled).fails (fail_fails _)) scanned

theorem comment_agrees (cs : List Char) :
    Agrees (do let _ ← advanceWhile (· ≠ '\n'); make .comment none) before '#' cs := by
  obtain ⟨ds, rest, rfl, all, stop, length⟩ := Scan.runLength_split (fun c => c ≠ '\n') cs
  refine .of_ends ds ((advanceWhile_moves all stop).ends (make_ends rfl)) ?_
  exact congrArg (fun n => Except.ok (TokenKind.comment, n)) length

theorem byteLength_of_gap {gap : List Char} (blank : ∀ c ∈ gap, isGap c = true) :
    byteLength gap = gap.length := by
  induction gap with
  | nil => rfl
  | cons c gap ih =>
    obtain ⟨here, later⟩ := List.forall_mem_cons.mp blank
    have single : c.utf8Size = 1 := by
      rcases (by simpa [isGap] using here : c = ' ' ∨ c = '\t') with rfl | rfl <;> rfl
    rw [byteLength_cons, single, ih later, List.length_cons, Nat.add_comm]

theorem startsWithIf_eq_true {cs : List Char} (starts : startsWithIf cs = true) :
    ∃ rest, cs = 'i' :: 'f' :: rest := by
  unfold startsWithIf at starts
  split at starts
  · next rest => exact ⟨rest, rfl⟩
  · cases starts

theorem trailingIf?_eq {gap behind : List Char}
    (length : Scan.runLength isGap (gap ++ behind) = gap.length) :
    Scan.trailingIf? (gap ++ behind) =
      if (gap.length = 0 || !startsWithIf behind) = true then none else some (gap.length + 2) := by
  have length' : Scan.runLength (fun c => c = ' ' || c = '\t') (gap ++ behind) = gap.length :=
    length
  simp only [Scan.trailingIf?, length', List.drop_left]
  unfold startsWithIf
  split <;> simp

-- The gap and the word behind it are as many bytes as characters.
theorem trailingIf_moves (before lexed cs : List Char) : (Scan.trailingIf? cs = none ∧
      Moves trailingIf before lexed cs false lexed cs) ∨
    ∃ ds rest, cs = ds ++ rest ∧ Scan.trailingIf? cs = some ds.length ∧
      Moves trailingIf before lexed cs true (lexed ++ ds) rest := by
  obtain ⟨gap, behind, rfl, blank, stop, length⟩ := Scan.runLength_split isGap cs
  have left : (gap ++ behind).dropWhile isGap = behind := by
    rw [List.dropWhile_append_of_pos blank]
    cases behind with
    | nil => rfl
    | cons c rest => exact List.dropWhile_cons_of_neg (by simp [stop c rfl])
  have bytes : byteLength (gap ++ behind) - byteLength behind = gap.length := by
    rw [byteLength_append, byteLength_of_gap blank, Nat.add_sub_cancel]
  rw [trailingIf?_eq length]
  by_cases apart : (gap.length = 0 || !startsWithIf behind) = true
  · refine .inl ⟨if_pos apart, upcoming_moves.bind ?_⟩
    simp only [left, bytes, apart, if_true]
    exact .pure false
  · have both : ¬gap.length = 0 ∧ startsWithIf behind = true := by simpa using apart
    obtain ⟨rest, rfl⟩ := startsWithIf_eq_true both.2
    have moves : Moves (advanceTimes (gap.length + 2)) before lexed (gap ++ ['i', 'f'] ++ rest) ()
        (lexed ++ (gap ++ ['i', 'f'])) rest := by
      simpa using advanceTimes_moves (gap ++ ['i', 'f'])
    rw [List.append_assoc] at moves
    refine .inr ⟨gap ++ ['i', 'f'], rest, by simp, ?_, upcoming_moves.bind ?_⟩
    · rw [if_neg apart, List.length_append]
      rfl
    · simp only [left, bytes, apart]
      exact moves.bind (.pure true)

theorem ident_agrees {c : Char} {cs : List Char} (scanned : Scan.scan c cs = .ok (Scan.word c cs)) :
    Agrees ident before c cs := by
  obtain ⟨ds, rest, rfl, all, stop, length⟩ := Scan.runLength_split Scan.isWordChar cs
  have reads : Moves (advanceWhile Scan.isWordChar) before [c] (ds ++ rest) ds.length (c :: ds)
      rest := advanceWhile_moves all stop
  unfold Scan.word at scanned
  simp only [length, List.take_left, List.drop_left] at scanned
  by_cases otherwise : String.ofList (c :: ds) = Keyword.otherwise.spelling
  · rw [otherwise, Keyword.ofWord?_spelling] at scanned
    rcases trailingIf_moves before (c :: ds) rest with
      ⟨none, stays⟩ | ⟨more, rest, rfl, some, moves⟩
    · rw [none] at scanned
      refine .of_ends ds (reads.ends (lexeme_moves.ends ?_)) scanned
      simp only [otherwise, if_true]
      refine stays.ends ?_
      simp only [Bool.false_eq_true, if_false, Keyword.ofWord?_spelling]
      exact make_ends rfl
    · have scanned' : Scan.scan c (ds ++ more ++ rest) = .ok (.elseIf, (ds ++ more).length) := by
        rw [List.append_assoc, scanned, some, List.length_append]
      rw [← List.append_assoc]
      refine .of_ends (ds ++ more) ?_ scanned'
      rw [List.append_assoc]
      refine reads.ends (lexeme_moves.ends ?_)
      simp only [otherwise, if_true]
      exact moves.ends (make_ends rfl)
  · have kind : Scan.scan c (ds ++ rest) =
        .ok (((Keyword.ofWord? (.ofList (c :: ds))).map .keyword).getD .identifier,
          ds.length) := by
      rw [scanned]
      cases found : Keyword.ofWord? (.ofList (c :: ds)) with
      | none => rfl
      | some k =>
        cases k with
        | otherwise =>
          rw [Scan.ofWord?_eq_some] at found
          exact absurd (by rw [found, String.ofList_toList]) otherwise
        | control | function | branch | loop => rfl
    refine .of_ends ds (reads.ends (lexeme_moves.ends ?_)) kind
    simp only [otherwise, if_false]
    refine (Moves.pure false).ends ?_
    simp only [Bool.false_eq_true, if_false]
    cases Keyword.ofWord? (.ofList (c :: ds)) <;> exact make_ends rfl

theorem integerDigits_decimal {c : Char} (all : ∀ d ∈ ds, isDigit 10 d = true) :
    Scan.integerDigits (c :: ds) = (10, c :: ds) := by
  unfold Scan.integerDigits
  split
  · next eq =>
    cases eq
    exact absurd (all 'x' (.head _)) (by decide)
  · next eq =>
    cases eq
    exact absurd (all 'o' (.head _)) (by decide)
  · next eq =>
    cases eq
    exact absurd (all 'b' (.head _)) (by decide)
  · rfl

theorem fraction_moves (before lexed cs : List Char) : ∃ ds rest, cs = ds ++ rest ∧
    Scan.fractionLength cs = ds.length ∧
      Moves fraction before lexed cs (!ds.isEmpty) (lexed ++ ds) rest := by
  by_cases point : cs.head? = some '.'
  · obtain ⟨cs, rfl⟩ := List.head?_eq_some_iff.mp point
    obtain ⟨ds, rest, rfl, all, stop, length⟩ := Scan.runLength_split (isDigit 10) cs
    refine ⟨'.' :: ds, rest, rfl, ?_, (advanceIf_moves (by decide)).bind ?_⟩
    · rw [Scan.fractionLength, length, List.length_cons, Nat.add_comm]
    · have text : lexed ++ '.' :: ds = lexed ++ ['.'] ++ ds := by simp
      rw [text]
      exact (advanceWhile_moves all stop).bind (.pure true)
  · refine ⟨[], cs, rfl, ?_, ?_⟩
    · unfold Scan.fractionLength
      split
      · exact absurd rfl point
      · rfl
    · rw [List.append_nil]
      exact (advanceIf_other point).bind (.pure false)

def signLength (cs : List Char) : Nat :=
  if cs.head? = some '+' ∨ cs.head? = some '-' then 1 else 0

theorem sign_moves (before cs : List Char) : ∃ sign body, cs = sign ++ body ∧
    signLength cs = sign.length ∧ ∀ lexed, ∃ signed,
      Moves (advanceIf fun c => c = '+' || c = '-') before lexed cs signed (lexed ++ sign)
        body := by
  unfold signLength
  by_cases signed : cs.head? = some '+' ∨ cs.head? = some '-'
  · rw [if_pos signed]
    rcases signed with plus | minus
    · obtain ⟨body, rfl⟩ := List.head?_eq_some_iff.mp plus
      exact ⟨['+'], body, rfl, rfl, fun lexed => ⟨true, advanceIf_moves (by decide)⟩⟩
    · obtain ⟨body, rfl⟩ := List.head?_eq_some_iff.mp minus
      exact ⟨['-'], body, rfl, rfl, fun lexed => ⟨true, advanceIf_moves (by decide)⟩⟩
  · rw [if_neg signed]
    refine ⟨[], cs, rfl, rfl, fun lexed => ⟨false, ?_⟩⟩
    rw [List.append_nil]
    refine advanceIf_stays fun d first => ?_
    rw [Option.mem_def.mp first] at signed
    simpa using signed

theorem isExponent_eq (cs : List Char) :
    isExponent ('e' :: cs) = (cs.drop (signLength cs)).head?.any (isDigit 10) := by
  cases cs with
  | nil => rfl
  | cons c rest =>
    by_cases signed : c = '+' ∨ c = '-'
    · rcases signed with rfl | rfl <;> rfl
    · have unsigned : signLength (c :: rest) = 0 := by simpa [signLength] using signed
      have plain : (c = '+' || c = '-') = false := by simpa using signed
      simp [isExponent, unsigned, plain]

theorem exponent_moves (before lexed cs : List Char) : ∃ ds rest, cs = ds ++ rest ∧
    Scan.exponentLength cs = ds.length ∧
      Moves exponent before lexed cs (!ds.isEmpty) (lexed ++ ds) rest := by
  by_cases mark : cs.head? = some 'e'
  · obtain ⟨cs, rfl⟩ := List.head?_eq_some_iff.mp mark
    have length : Scan.exponentLength ('e' :: cs) =
        if Scan.runLength (isDigit 10) (cs.drop (signLength cs)) = 0 then 0
        else 1 + signLength cs + Scan.runLength (isDigit 10) (cs.drop (signLength cs)) := rfl
    have follows := isExponent_eq cs
    obtain ⟨sign, body, rfl, signs, moves⟩ := sign_moves before cs
    obtain ⟨ds, rest, rfl, all, stop, run⟩ := Scan.runLength_split (isDigit 10) body
    rw [signs, List.drop_left, run] at length
    rw [signs, List.drop_left] at follows
    obtain ⟨signed, moves⟩ := moves (lexed ++ ['e'])
    cases ds with
    | nil =>
      rw [List.nil_append, any_head?_eq_false stop] at follows
      refine ⟨[], _, rfl, length, upcoming_moves.bind ?_⟩
      rw [List.nil_append, follows, List.append_nil]
      exact .pure false
    | cons d ds =>
      rw [List.cons_append, List.head?_cons, Option.any_some, all d (.head _)] at follows
      refine ⟨'e' :: sign ++ d :: ds, rest, by simp, ?_, upcoming_moves.bind ?_⟩
      · rw [length, if_neg (by simp), List.length_append, List.length_cons, Nat.add_comm 1,
          List.length_cons]
      · have text : lexed ++ ('e' :: sign ++ d :: ds) = lexed ++ ['e'] ++ sign ++ d :: ds := by
          simp
        rw [List.cons_append, follows, if_pos rfl, text]
        exact (advance_moves 'e').bind
          (moves.bind ((advanceWhile_moves all stop).bind (.pure true)))
  · refine ⟨[], cs, rfl, ?_, upcoming_moves.bind ?_⟩
    · unfold Scan.exponentLength
      split
      · exact absurd rfl mark
      · rfl
    · rw [List.append_nil]
      unfold isExponent
      split
      · exact absurd rfl mark
      · exact .pure false

theorem decimalNumber_agrees {c : Char} {cs : List Char}
    (scanned : Scan.scan c cs = Scan.number c cs) (decimal : Scan.base? c cs = none) :
    Agrees decimalNumber before c cs := by
  obtain ⟨whole, cs, rfl, digits, stop, length⟩ := Scan.runLength_split (isDigit 10) cs
  have reads : Moves (advanceWhile (isDigit 10)) before [c] (whole ++ cs) whole.length (c :: whole)
      cs := advanceWhile_moves digits stop
  simp only [Scan.number, decimal, length, List.drop_left] at scanned
  obtain ⟨part, cs, rfl, length', moves⟩ := fraction_moves before (c :: whole) cs
  have behind : (whole ++ (part ++ cs)).drop (whole.length + part.length) = cs := by
    rw [← List.append_assoc, ← List.length_append, List.drop_left]
  obtain ⟨power, cs, rfl, length₂, moves'⟩ := exponent_moves before (c :: whole ++ part) cs
  simp only [length', behind, length₂] at scanned
  by_cases integer : part = [] ∧ power = []
  · obtain ⟨rfl, rfl⟩ := integer
    refine .of_ends whole ?_ (by simpa using scanned)
    rw [List.append_nil] at moves moves'
    rw [List.append_nil] at moves'
    refine reads.ends (moves.ends (moves'.ends ?_))
    exact lexeme_moves.ends (makeInteger_ends (integerDigits_decimal digits))
  · have scanned' : Scan.scan c (whole ++ part ++ power ++ cs) =
        .ok (.float, (whole ++ part ++ power).length) := by
      rw [List.append_assoc, List.append_assoc, scanned, List.length_append, List.length_append,
        if_neg (by simpa using integer)]
    have float : (!part.isEmpty || !power.isEmpty) = true := by
      simpa [Classical.or_iff_not_imp_left] using integer
    rw [← List.append_assoc, ← List.append_assoc]
    refine .of_ends (whole ++ part ++ power) ?_ scanned'
    rw [List.append_assoc, List.append_assoc]
    refine reads.ends (moves.ends (moves'.ends ?_))
    rw [if_pos float]
    exact makeFloat_ends

theorem base?_eq_some {c : Char} {cs : List Char} {base : Nat}
    (based : Scan.base? c cs = some base) : ∃ mark rest, cs = mark :: rest ∧
      byteLength [c, mark] = 2 ∧
      ∀ digits, Scan.integerDigits (c :: mark :: digits) = (base, digits) := by
  unfold Scan.base? at based
  split at based
  all_goals cases based
  all_goals exact ⟨_, _, rfl, rfl, fun _ => rfl⟩

theorem basedNumber_agrees {c : Char} {cs : List Char} {base : Nat}
    (scanned : Scan.scan c cs = Scan.number c cs) (based : Scan.base? c cs = some base) :
    Agrees (basedNumber base) before c cs := by
  simp only [Scan.number, based] at scanned
  obtain ⟨mark, cs, rfl, bytes, split⟩ := base?_eq_some based
  obtain ⟨ds, rest, rfl, digits, stop, length⟩ := Scan.runLength_split (isDigit base) cs
  have reads : Moves (advanceWhile (isDigit base)) before [c, mark] (ds ++ rest) ds.length
      (c :: mark :: ds) rest := advanceWhile_moves digits stop
  simp only [List.tail_cons, length] at scanned
  by_cases none : ds.length = 0
  · rw [if_pos none] at scanned
    obtain rfl := List.length_eq_zero_iff.mp none
    refine .of_fails ((advance_moves mark).fails (reads.fails ?_)) scanned
    exact lexeme_moves.fails (fail_fails _)
  · rw [if_neg none] at scanned
    have scanned' : Scan.scan c (mark :: ds ++ rest) = .ok (.integer, (mark :: ds).length) := by
      rw [List.cons_append, scanned, List.length_cons, Nat.add_comm]
    have sliced : slice? (byteLength before + 2) (byteLength (before ++ c :: mark :: ds))
        (before ++ (c :: mark :: ds) ++ rest) = some ds := by
      have parts : before ++ (c :: mark :: ds) = before ++ [c, mark] ++ ds := by simp
      rw [parts]
      exact slice?_append _ ds rest (by rw [byteLength_append, bytes]) rfl
    refine .of_ends (mark :: ds) ((advance_moves mark).ends (reads.ends ?_)) scanned'
    rw [if_neg none]
    exact Moves.get.ends ((ofSlice_moves sliced).ends (makeInteger_ends (split ds)))

theorem number_agrees {c : Char} {cs : List Char} (scanned : Scan.scan c cs = Scan.number c cs) :
    Agrees (number c) before c cs := by
  refine .get ?_
  rw [Cursor.reading_stream]
  cases based : Scan.base? c cs with
  | some base => exact basedNumber_agrees scanned based
  | none => exact decimalNumber_agrees scanned based

theorem advanceString_moves {inside : List Char} (quotable : Scan.Quotable inside) :
    Moves (advanceString (inside ++ '"' :: rest)) before lexed (inside ++ '"' :: rest) ()
      (lexed ++ (inside ++ ['"'])) rest := by
  induction quotable generalizing lexed with
  | nil => exact (advance_moves '"').bind (.pure ())
  | @plain c cs noQuote noEscape more ih =>
    have text : lexed ++ (c :: cs ++ ['"']) = lexed ++ [c] ++ (cs ++ ['"']) := by simp
    rw [List.cons_append, advanceString, text]
    · exact (advance_moves c).bind ih
    · exact noQuote
    · exact noEscape
  | @escaped c cs more ih =>
    have text : lexed ++ ('\\' :: c :: cs ++ ['"']) =
        lexed ++ ['\\'] ++ [c] ++ (cs ++ ['"']) := by simp
    rw [List.cons_append, List.cons_append, advanceString, text]
    exact (advance_moves '\\').bind ((advance_moves c).bind ih)

theorem advanceString_fails {cs : List Char} (none : Scan.stringLength? cs = none) :
    Fails (advanceString cs) before lexed cs .unterminatedString := by
  fun_induction Scan.stringLength? cs generalizing lexed with
  | case1 => exact fail_fails _
  | case2 rest => cases none
  | case3 c cs ih =>
    rw [advanceString]
    exact (advance_moves '\\').fails
      ((advance_moves c).fails (ih (Option.map_eq_none_iff.mp none)))
  | case4 c cs noQuote noEscape ih =>
    by_cases escape : c = '\\'
    · subst escape
      cases cs with
      | nil => exact (advance_moves '\\').fails (fail_fails _)
      | cons d cs => exact absurd rfl (noEscape d cs rfl)
    · rw [advanceString]
      · exact (advance_moves c).fails (ih (Option.map_eq_none_iff.mp none))
      · exact noQuote
      · exact escape

theorem string_agrees (cs : List Char) : Agrees string before '"' cs := by
  cases found : Scan.stringLength? cs with
  | none =>
    refine .of_fails (Moves.get.fails (advanceString_fails found).bind) ?_
    simp only [Scan.scan, found]
  | some n =>
    obtain ⟨inside, rest, quotable, rfl, rfl⟩ := Scan.stringLength?_eq_some.mp found
    have scanned : Scan.scan '"' (inside ++ ['"'] ++ rest) =
        .ok (.string, (inside ++ ['"']).length) := by
      simp only [Scan.scan, List.append_assoc, List.singleton_append, found, List.length_append,
        List.length_singleton]
    have sliced : slice? (byteLength before + 1)
        (byteLength (before ++ '"' :: (inside ++ ['"'])) - 1)
        (before ++ '"' :: (inside ++ ['"']) ++ rest) = some inside := by
      have parts : before ++ '"' :: (inside ++ ['"']) ++ rest =
          before ++ ['"'] ++ inside ++ '"' :: rest := by simp
      have quote : byteLength ['"'] = 1 := rfl
      rw [parts]
      refine slice?_append _ inside _ (by rw [byteLength_append, quote]) ?_
      have total : before ++ '"' :: (inside ++ ['"']) = before ++ ['"'] ++ inside ++ ['"'] := by
        simp
      rw [total, byteLength_append _ ['"'], quote, Nat.add_sub_cancel]
    have literal : Scan.literal? .string ('"' :: (inside ++ ['"'])) =
        .ok (some (.string (.ofList inside))) := by
      simp [Scan.literal?]
    rw [List.append_cons]
    refine .of_ends (inside ++ ['"']) ?_ scanned
    rw [← List.append_cons]
    refine Moves.get.ends ((advanceString_moves quotable).ends ?_)
    exact Moves.get.ends ((ofSlice_moves sliced).ends (make_ends literal))

theorem plain_of_char {c : Char} {kind : TokenKind} (single : TokenKind.ofChar? c = some kind) :
    Plain kind := by
  intro lexeme
  unfold TokenKind.ofChar? at single
  split at single <;> cases single <;> rfl

theorem tokenFrom_agrees (before : List Char) (c : Char) (cs : List Char) :
    Agrees (tokenFrom c) before c cs := by
  unfold tokenFrom
  split
  case h_10 => exact slash_agrees cs
  case h_11 => exact pair_agrees (fun _ => rfl) rfl
  case h_12 => exact pair_agrees (fun _ => rfl) rfl
  case h_13 => exact comment_agrees cs
  case h_14 => exact string_agrees cs
  case h_15 =>
    refine .get ?_
    rw [Cursor.reading_stream]
    split
    · next start => exact ident_agrees (if_pos start)
    · next start => exact .of_fails (fail_fails _) (if_neg start)
  case h_16 =>
    cases single : TokenKind.ofChar? c with
    | some kind =>
      have scanned : Scan.scan c cs = .ok (kind, 0) := by
        rw [Scan.scan]
        · rw [single]
        all_goals assumption
      exact .of_ends [] (make_ends (plain_of_char single _)) scanned
    | none =>
      have scanned : Scan.scan c cs =
          if Scan.isWordStart c then .ok (Scan.word c cs)
          else if isDigit 10 c then Scan.number c cs
          else .error (.unexpectedCharacter c) := by
        rw [Scan.scan]
        · rw [single]
        all_goals assumption
      simp only
      split
      · next start => exact ident_agrees (scanned.trans (if_pos start))
      · next start =>
        rw [if_neg start] at scanned
        split
        · next digit => exact number_agrees (scanned.trans (if_pos digit))
        · next digit => exact .of_fails (fail_fails _) (scanned.trans (if_neg digit))
  all_goals exact lookahead_agrees (fun _ => rfl) (fun _ => rfl) rfl

theorem next?_moves (before lexed : List Char) (c : Char) (cs : List Char) :
    match Scan.token (Position.start.after (before ++ lexed)) c cs with
    | .ok (t, n) => next? (.reading before lexed (c :: cs)) =
        .ok (some t, .reading (before ++ lexed) (c :: cs.take n) (cs.drop n))
    | .error fault => next? (.reading before lexed (c :: cs)) =
        .error (.error (.located (Position.start.after (before ++ lexed)) fault)) := by
  have anew : Cursor.reading (before ++ lexed) [] (c :: cs) =
      { Cursor.reading before lexed (c :: cs) with
        start := byteLength (before ++ lexed)
        startPlace := Position.start.after (before ++ lexed) } := by
    simp [Cursor.reading]
  have first : next? (.reading before lexed (c :: cs)) =
      tokenAhead? (.reading (before ++ lexed) [] (c :: cs)) := by
    rw [anew]
    rfl
  have agrees := tokenFrom_agrees (before ++ lexed) c cs
  unfold Agrees at agrees
  rw [first]
  split at agrees
  · exact (advance_moves c).bind (agrees.bind (.pure _))
  · exact (advance_moves c).fails agrees.bind

end Lexer

theorem Cursor.tokens_of_reading (before lexed cs : List Char) :
    Tokens (.reading before lexed cs)
      ((Scan.tokensFrom (Position.start.after (before ++ lexed)) cs).mapError .error) := by
  generalize place : Position.start.after (before ++ lexed) = pos
  fun_induction Scan.tokensFrom pos cs generalizing before lexed with
  | case1 pos => exact .done rfl
  | case2 pos c cs fault failed =>
    have step := Lexer.next?_moves before lexed c cs
    rw [place, failed] at step
    exact .failed step
  | case3 pos c cs t n first ih =>
    have step := Lexer.next?_moves before lexed c cs
    rw [place, first] at step
    have later := ih (before ++ lexed) (c :: cs.take n) (by rw [Position.after_append, place])
    have result : ((do
        let rest ← Scan.tokensFrom (pos.after (c :: cs.take n)) (cs.drop n)
        return t :: rest : Except SyntaxError (List Token)).mapError Failure.error) =
        ((Scan.tokensFrom (pos.after (c :: cs.take n)) (cs.drop n)).mapError .error).map
          (t :: ·) := by
      cases Scan.tokensFrom (pos.after (c :: cs.take n)) (cs.drop n) <;> rfl
    rw [result]
    exact .next step later

namespace Cursor.Tokens

variable {cursor : Cursor} {r r' : Except Failure (List Token)}

theorem unique (comes : Tokens cursor r) (comes' : Tokens cursor r') : r = r' := by
  induction comes generalizing r' with
  | done last =>
    cases comes' with
    | done last' => rfl
    | failed first' => cases last.symm.trans first'
    | next first' later' => cases last.symm.trans first'
  | failed first =>
    cases comes' with
    | done last' => cases first.symm.trans last'
    | failed first' =>
      cases first.symm.trans first'
      rfl
    | next first' later' => cases first.symm.trans first'
  | next first later ih =>
    cases comes' with
    | done last' => cases first.symm.trans last'
    | failed first' => cases first.symm.trans first'
    | next first' later' =>
      cases first.symm.trans first'
      rw [ih later']

end Cursor.Tokens

-- No slice starts or ends inside a character, and the loop ends.
theorem Cursor.tokens_iff (source : String) {r : Except Failure (List Token)} :
    Tokens (.ofSource source.toList) r ↔ r = (tokens source).mapError .error := by
  have comes : Tokens (.ofSource source.toList) ((tokens source).mapError .error) :=
    tokens_of_reading [] [] source.toList
  exact ⟨fun comes' => comes'.unique comes, fun eq => eq ▸ comes⟩

end CalcScript
