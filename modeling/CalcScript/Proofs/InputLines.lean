import CalcScript.Console
import CalcScript.Proofs.LineBreaks

set_option autoImplicit false

namespace CalcScript

namespace Text

def bytes (cs : List Char) : List UInt8 := cs.flatMap String.utf8EncodeChar

@[simp] theorem bytes_append (cs ds : List Char) : bytes (cs ++ ds) = bytes cs ++ bytes ds :=
  List.flatMap_append

theorem bytes_toList (s : String) : bytes s.toList = s.toUTF8.data.toList := by
  have text : s.toUTF8 = s.toList.utf8Encode := by
    rw [String.toUTF8, ← String.toByteArray_ofList, String.ofList_toList]
  rw [text, List.utf8Encode, List.data_toByteArray, bytes]

theorem ofUtf8?_bytes (cs : List Char) : ofUtf8? (bytes cs) = some (.ofList cs) := by
  have text : (⟨(bytes cs).toArray⟩ : ByteArray) = cs.utf8Encode :=
    ByteArray.ext List.data_toByteArray.symm
  have valid : cs.utf8Encode.IsValidUTF8 := ⟨cs, rfl⟩
  rw [ofUtf8?, text, String.fromUTF8?, dif_pos valid]
  exact congrArg some (String.toByteArray_inj.mp String.toByteArray_ofList.symm)

theorem eq_feed_of_mem_bytes {c : Char} (member : 10 ∈ String.utf8EncodeChar c) : c = '\n' := by
  have octet (n : Nat) (low : 128 ≤ n) (high : n < 256) : (10 : UInt8) ≠ .ofNat n := by
    intro same
    have value := congrArg UInt8.toNat same
    rw [UInt8.toNat_ofNat_of_lt' high] at value
    change 10 = n at value
    omega
  simp only [String.utf8EncodeChar] at member
  split at member
  · next ascii =>
    have value := congrArg UInt8.toNat (List.mem_singleton.mp member)
    rw [UInt8.toNat_ofNat_of_lt' (show c.val.toNat < 256 by omega)] at value
    exact Char.toNat_inj.mp value.symm
  -- All bytes of a longer encoding are at least 128.
  · exfalso
    split at member
    · simp only [List.mem_cons, List.not_mem_nil, or_false] at member
      rcases member with same | same <;> exact octet _ (by omega) (by omega) same
    · split at member
      · simp only [List.mem_cons, List.not_mem_nil, or_false] at member
        rcases member with same | same | same <;> exact octet _ (by omega) (by omega) same
      · simp only [List.mem_cons, List.not_mem_nil, or_false] at member
        rcases member with same | same | same | same <;>
          exact octet _ (by omega) (by omega) same

theorem feed_not_mem_bytes {cs : List Char} (single : '\n' ∉ cs) : 10 ∉ bytes cs := by
  intro member
  obtain ⟨c, inside, byte⟩ := List.mem_flatMap.mp member
  exact single (eq_feed_of_mem_bytes byte ▸ inside)

theorem bytes_eq_nil {cs : List Char} : bytes cs = [] ↔ cs = [] := by
  constructor
  · intro none
    cases cs with
    | nil => rfl
    | cons c cs =>
      have first := (List.append_eq_nil_iff.mp none).1
      have size := congrArg List.length first
      rw [String.length_utf8EncodeChar] at size
      exact absurd size (Nat.ne_of_gt c.utf8Size_pos)
  · rintro rfl
    rfl

theorem length_le_bytes (cs : List Char) : cs.length ≤ (bytes cs).length := by
  induction cs with
  | nil => exact Nat.le_refl _
  | cons c cs ih =>
    have size := c.utf8Size_pos
    simp only [bytes, List.flatMap_cons, List.length_append, List.length_cons,
      String.length_utf8EncodeChar] at ih ⊢
    omega

theorem takeLine_feed {bs : List UInt8} (inside : 10 ∉ bs) (rest : List UInt8) :
    takeLine (bs ++ 10 :: rest) = (bs ++ [10], rest) := by
  induction bs with
  | nil => rfl
  | cons b bs ih =>
    obtain ⟨other, behind⟩ := not_or.mp (mt List.mem_cons.mpr inside)
    simp [takeLine, Ne.symm other, ih behind]

theorem takeLine_last {bs : List UInt8} (inside : 10 ∉ bs) : takeLine bs = (bs, []) := by
  induction bs with
  | nil => rfl
  | cons b bs ih =>
    obtain ⟨other, behind⟩ := not_or.mp (mt List.mem_cons.mpr inside)
    simp [takeLine, Ne.symm other, ih behind]

theorem trimEnd_dropLineEnd (s : String) : trimEnd (dropLineEnd s).toList = trimEnd s.toList := by
  have twice (cs : List Char) :
      (cs.dropWhile fun c => c = '\n' || c = '\r').dropWhile isBlank = cs.dropWhile isBlank := by
    induction cs with
    | nil => rfl
    | cons c cs ih =>
      by_cases ending : (decide (c = '\n') || decide (c = '\r')) = true
      · have blank : isBlank c = true := by
          simp only [Bool.or_eq_true, decide_eq_true_eq] at ending
          rcases ending with rfl | rfl <;> rfl
        simp only [List.dropWhile_cons, if_pos ending, if_pos blank, ih]
      · simp only [List.dropWhile_cons, if_neg ending]
  simp only [dropLineEnd, trimEnd, trimStart, String.toList_ofList, List.reverse_reverse, twice]

end Text

open Text (bytes)

inductive Fed : List UInt8 → List Char → List UInt8 → Prop
  | line {text : List Char} (single : '\n' ∉ text) (rest : List UInt8) :
      Fed (bytes text ++ 10 :: rest) text rest
  | last {text : List Char} (single : '\n' ∉ text) (some : text ≠ []) : Fed (bytes text) text []

theorem Fed.takeLine {bs rest : List UInt8} {text : List Char} (fed : Fed bs text rest) :
    bs ≠ [] ∧ ∃ line, Text.takeLine bs = (bytes line, rest) ∧
      Text.trimEnd line = Text.trimEnd text := by
  cases fed with
  | line single =>
    refine ⟨by simp, text ++ ['\n'], ?_, ?_⟩
    · rw [Text.takeLine_feed (Text.feed_not_mem_bytes single), Text.bytes_append]
      rfl
    · rw [Text.trimEnd_concat]
      rfl
  | last single some =>
    refine ⟨fun none => some (Text.bytes_eq_nil.mp none), text, ?_, rfl⟩
    exact Text.takeLine_last (Text.feed_not_mem_bytes single)

theorem Console.readLine_fed {c : Console} {rest : List UInt8} {text : List Char}
    (ended : c.ended = true) (fed : Fed c.unread text rest) :
    ∃ line, c.readLine = (.text line, { c with unread := rest }) ∧
      Text.trimEnd line.toList = Text.trimEnd text := by
  obtain ⟨some, line, taken, same⟩ := fed.takeLine
  refine ⟨Text.dropLineEnd (.ofList line), ?_, ?_⟩
  · simp [readLine, some, taken, ended, Text.ofUtf8?_bytes]
  · rw [Text.trimEnd_dropLineEnd, String.toList_ofList, same]

theorem Console.readLine_end {c : Console} (ended : c.ended = true) (none : c.unread = []) :
    c.readLine = (.noMore, c) := by
  simp [readLine, none, ended]

end CalcScript
