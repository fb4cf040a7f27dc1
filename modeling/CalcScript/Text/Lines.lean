set_option autoImplicit false

namespace CalcScript.Text

-- The lines of a text without their line feeds and without a carriage return right before one.
def lines : List Char → List (List Char)
  | [] => []
  | '\r' :: '\n' :: cs => [] :: lines cs
  | c :: cs =>
    if c = '\n' then [] :: lines cs
    else match lines cs with
      | [] => [[c]]
      | line :: rest => (c :: line) :: rest

def takeLine : List UInt8 → List UInt8 × List UInt8
  | [] => ([], [])
  | b :: bs =>
    if b = 10 then ([b], bs)
    else ((b :: (takeLine bs).1), (takeLine bs).2)

def ofUtf8? (bs : List UInt8) : Option String := String.fromUTF8? ⟨bs.toArray⟩

def dropLineEnd (s : String) : String :=
  .ofList ((s.toList.reverse.dropWhile fun c => c = '\n' || c = '\r').reverse)

def isBlank (c : Char) : Bool :=
  let n := c.toNat
  (9 ≤ n && n ≤ 13) || n == 0x20 || n == 0x85 || n == 0xA0 || n == 0x1680 ||
    (0x2000 ≤ n && n ≤ 0x200A) || n == 0x2028 || n == 0x2029 || n == 0x202F || n == 0x205F ||
    n == 0x3000

def trimStart (cs : List Char) : List Char := cs.dropWhile isBlank

def trimEnd (cs : List Char) : List Char := (trimStart cs.reverse).reverse

def trim (cs : List Char) : List Char := trimEnd (trimStart cs)

theorem trimEnd_eq_nil {cs : List Char} : trimEnd cs = [] ↔ ∀ c ∈ cs, isBlank c = true := by
  have start (ds : List Char) : trimStart ds = [] ↔ ∀ c ∈ ds, isBlank c = true := by
    induction ds with
    | nil => simp [trimStart]
    | cons d ds ih => cases blank : isBlank d <;> simp_all [trimStart]
  simp [trimEnd, start]

theorem trim_eq_nil {cs : List Char} : trim cs = [] ↔ ∀ c ∈ cs, isBlank c = true := by
  induction cs with
  | nil => simp [trim, trimStart, trimEnd]
  | cons c cs ih =>
    cases blank : isBlank c with
    | true =>
      rw [List.forall_mem_cons, ← ih]
      simp [trim, trimStart, blank]
    | false =>
      have same : trim (c :: cs) = trimEnd (c :: cs) := by simp [trim, trimStart, blank]
      rw [same, trimEnd_eq_nil]

-- The longest runs of characters that are not blank. `word` is the run before `cs`, backwards.
def wordsFrom (word : List Char) : List Char → List (List Char)
  | [] => if word = [] then [] else [word.reverse]
  | c :: cs =>
    if isBlank c then
      if word = [] then wordsFrom [] cs else word.reverse :: wordsFrom [] cs
    else wordsFrom (c :: word) cs

def words (cs : List Char) : List (List Char) := wordsFrom [] cs

end CalcScript.Text
