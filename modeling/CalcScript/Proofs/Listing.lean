import CalcScript.Proofs.FloatOrder
import CalcScript.Proofs.Requests

set_option autoImplicit false

namespace CalcScript

theorem nodup_of_sorted {β : Type} {l : List (String × β)}
    (sorted : l.Pairwise fun a b => a.1 < b.1) : l.Nodup := by
  refine List.Pairwise.imp (fun less same => ?_) sorted
  exact String.lt_irrefl _ (same ▸ less)

theorem eq_of_sorted {β : Type} {l l' : List (String × β)}
    (sorted : l.Pairwise fun a b => a.1 < b.1) (sorted' : l'.Pairwise fun a b => a.1 < b.1)
    (same : ∀ b, b ∈ l ↔ b ∈ l') : l = l' := by
  have perm : l.Perm l' :=
    (List.perm_ext_iff_of_nodup (nodup_of_sorted sorted) (nodup_of_sorted sorted')).mpr same
  refine perm.eq_of_pairwise (fun _ _ _ _ less more => ?_) sorted sorted'
  exact absurd (String.lt_trans less more) (String.lt_irrefl _)

namespace Frame

theorem mem_iff_find? {name : String} {v : Value} {l : List (String × Value)}
    (sorted : l.Pairwise fun a b => a.1 < b.1) : (name, v) ∈ l ↔ find? name l = some v := by
  induction l with
  | nil => simp [find?]
  | cons b l ih =>
    obtain ⟨n, w⟩ := b
    obtain ⟨head, tail⟩ := List.pairwise_cons.mp sorted
    rw [List.mem_cons, ih tail, find?]
    split
    · next same =>
      subst same
      have once : find? n l ≠ some v := fun found =>
        String.lt_irrefl n (head (n, v) ((ih tail).mpr found))
      simp [once, eq_comm]
    · next other => simp [Ne.symm other]

theorem mem_bindings {f : Frame} {name : String} {v : Value} :
    (name, v) ∈ f.bindings ↔ f.get? name = some v :=
  mem_iff_find? f.sorted

theorem ext_get? {f g : Frame} (same : ∀ name, f.get? name = g.get? name) : f = g := by
  have bindings : f.bindings = g.bindings := by
    refine eq_of_sorted f.sorted g.sorted fun b => ?_
    rw [mem_bindings, mem_bindings, same]
  rcases f with ⟨l, _⟩
  rcases g with ⟨l', _⟩
  obtain rfl : l = l' := bindings
  rfl

/-- The bindings in any order, as a table that has none gives them. -/
structure Enumerates (f : Frame) (l : List (String × Value)) : Prop where
  once : (l.map Prod.fst).Nodup
  mem : ∀ name v, (name, v) ∈ l ↔ f.get? name = some v

theorem get?_initial {name : String} {v : Value} :
    Frame.initial.get? name = some v ↔ ∃ x, (name, x) ∈ constants ∧ v = .float x := by
  simp only [Frame.initial, Frame.ofList, constants, List.map_cons, List.map_nil, List.foldl_cons,
    List.foldl_nil, Frame.get?_set, Frame.get?_empty, List.mem_cons, Prod.mk.injEq,
    List.not_mem_nil]
  split
  · next pi => simp [pi, eq_comm]
  · next other =>
    split
    · next e => simp [e, eq_comm]
    · next neither => simp [other, neither]

end Frame

theorem constants_real : ∀ b ∈ constants, b.2 ≠ Float.nan ∧ b.2 ≠ 0 ∧ b.2 ≠ -0 := by
  decide +kernel

theorem isConstant_iff {name : String} {v : Value} :
    isConstant name v = true ↔ Frame.initial.get? name = some v := by
  rw [Frame.get?_initial]
  cases v with
  | float x =>
    have same {y : Float} (constant : (name, y) ∈ constants) : (x == y) = true ↔ x = y := by
      obtain ⟨number, positive, negative⟩ := constants_real _ constant
      rw [Float.beq_iff_ne_nan_and_eq]
      grind
    simp only [isConstant, List.any_eq_true, Bool.and_eq_true, beq_iff_eq, Value.float.injEq]
    constructor
    · rintro ⟨⟨_, y⟩, constant, rfl, equal⟩
      exact ⟨y, constant, (same constant).mp equal⟩
    · rintro ⟨y, constant, equal⟩
      exact ⟨(name, y), constant, rfl, (same constant).mpr equal⟩
  | int | string | function | nothing => simp [isConstant]

namespace Command

structure Lists (globals : Frame) (entries : List (String × String)) : Prop where
  sorted : entries.Pairwise fun a b => a.1 < b.1
  mem : ∀ name text, (name, text) ∈ entries ↔
    name ≠ "_" ∧ ∃ v, globals.get? name = some v ∧ Frame.initial.get? name ≠ some v ∧ v.text = text

def Sorts (l : List (String × Value)) (entries : List (String × String)) : Prop :=
  entries.Perm ((l.filter fun b => b.1 != "_" && !isConstant b.1 b.2).map fun b =>
    (b.1, b.2.text)) ∧
  entries.Pairwise fun a b => a.1 < b.1 ∨ a.1 = b.1 ∧ a.2 ≤ b.2

def entry (e : String × String) : String := e.1 ++ ":\t" ++ e.2 ++ "\n"

variable {globals : Frame} {entries others : List (String × String)} {l : List (String × Value)}

theorem Lists.unique (lists : Lists globals entries) : Lists globals others ↔ others = entries := by
  constructor
  · intro lists'
    refine eq_of_sorted lists'.sorted lists.sorted fun b => ?_
    rw [lists'.mem, lists.mem]
  · rintro rfl
    exact lists

theorem mem_kept (enumerates : globals.Enumerates l) (name text : String) :
    (name, text) ∈ (l.filter fun b => b.1 != "_" && !isConstant b.1 b.2).map (fun b =>
      (b.1, b.2.text)) ↔
    name ≠ "_" ∧ ∃ v, globals.get? name = some v ∧ Frame.initial.get? name ≠ some v ∧
      v.text = text := by
  simp only [List.mem_map, List.mem_filter, Prod.exists, Prod.mk.injEq, Bool.and_eq_true,
    bne_iff_ne, Bool.not_eq_true', Bool.eq_false_iff, ne_eq, isConstant_iff, enumerates.mem]
  constructor
  · rintro ⟨_, v, ⟨bound, proper, changed⟩, rfl, shown⟩
    exact ⟨proper, v, bound, changed, shown⟩
  · rintro ⟨proper, v, bound, changed, shown⟩
    exact ⟨name, v, ⟨bound, proper, changed⟩, rfl, shown⟩

theorem sorts_iff (enumerates : globals.Enumerates l) :
    Sorts l entries ↔ Lists globals entries := by
  have names : (((l.filter fun b => b.1 != "_" && !isConstant b.1 b.2).map fun b =>
      (b.1, b.2.text)).map Prod.fst).Nodup := by
    rw [List.map_map]
    exact enumerates.once.sublist (List.filter_sublist.map _)
  constructor
  · rintro ⟨perm, ordered⟩
    refine ⟨?_, fun name text => perm.mem_iff.trans (mem_kept enumerates name text)⟩
    have apart := List.pairwise_map.mp ((perm.map Prod.fst).nodup_iff.mpr names)
    exact ordered.imp₂ (fun _ _ order other => order.resolve_right fun same => other same.1) apart
  · intro lists
    refine ⟨?_, lists.sorted.imp .inl⟩
    refine (List.perm_ext_iff_of_nodup (nodup_of_sorted lists.sorted) (.of_map _ names)).mpr ?_
    intro b
    rw [lists.mem, mem_kept enumerates]

theorem enumerates_bindings (globals : Frame) : globals.Enumerates globals.bindings where
  once := List.pairwise_map.mpr (globals.sorted.imp fun less => String.ne_of_lt less)
  mem _ _ := Frame.mem_bindings

theorem lists_listed (globals : Frame) :
    Lists globals ((listed globals).map fun b => (b.1, b.2.text)) where
  sorted := List.pairwise_map.mpr (globals.sorted.filter _)
  mem := mem_kept (enumerates_bindings globals)

theorem listing_eq (globals : Frame) :
    listing globals = .join (((listed globals).map fun b => (b.1, b.2.text)).map entry) := by
  rw [List.map_map]
  rfl

theorem join_entries_eq_nil : String.join (entries.map entry) = "" ↔ entries = [] := by
  cases entries with
  | nil => exact iff_of_true rfl rfl
  | cons e entries => simp [entry, String.join_cons, String.append_eq_empty_iff]

end Command

namespace Text

theorem trimStart_append {gap cs : List Char} (blank : ∀ c ∈ gap, isBlank c = true)
    (shown : ∀ c ∈ cs.head?, isBlank c = false) : trimStart (gap ++ cs) = cs := by
  rw [trimStart, List.dropWhile_append_of_pos blank]
  cases cs with
  | nil => rfl
  | cons c cs => exact List.dropWhile_cons_of_neg (by simp [shown c rfl])

theorem trim_between {before word after : List Char} (blank : ∀ c ∈ before, isBlank c = true)
    (blank' : ∀ c ∈ after, isBlank c = true) (first : ∀ c ∈ word.head?, isBlank c = false)
    (last : ∀ c ∈ word.getLast?, isBlank c = false) (some : word ≠ []) :
    trim (before ++ (word ++ after)) = word := by
  have start : ∀ c ∈ (word ++ after).head?, isBlank c = false := by
    rwa [List.head?_append_of_ne_nil word some]
  have stop : ∀ c ∈ word.reverse.head?, isBlank c = false := by
    rwa [List.head?_reverse]
  rw [trim, trimStart_append blank start, trimEnd, List.reverse_append,
    trimStart_append (fun c within => blank' c (List.mem_reverse.mp within)) stop,
    List.reverse_reverse]

end Text

namespace Command

def AsksVars (line : String) : Prop :=
  ∃ before word after, line.toList = before ++ (word ++ after) ∧
    (∀ c ∈ before, Text.isBlank c = true) ∧ (∀ c ∈ after, Text.isBlank c = true) ∧
    (word = "vars".toList ∨ word = ".vars".toList)

theorem ofLine_vars {line : String} (asked : AsksVars line) : ofLine line = .vars := by
  obtain ⟨before, word, after, split, blank, blank', rfl | rfl⟩ := asked
  all_goals
    rw [ofLine, split, Text.trim_between blank blank' (by simp [Text.isBlank])
      (by simp [Text.isBlank]) (by decide)]
    rfl

/-- The command writes the entries and changes nothing else, and the entries depend only on what the
names are bound to. -/
theorem vars_lists_bindings {line : String} (asked : AsksVars line) (globals : Frame) :
    ∃ entries, (∀ others, Lists globals others ↔ others = entries) ∧
      (∀ l, globals.Enumerates l → ∀ others, Sorts l others ↔ others = entries) ∧
      ∀ (s : Session) (rounds : Nat) (files : Files),
        (∀ name, s.globals.get? name = globals.get? name) →
        s.perform (.command rounds files line) =
          if s.console.broken = true ∧ entries ≠ [] then (.error (.io .brokenPipe), s)
          else (.value (), { s with console := s.console.wrote (.join (entries.map entry)) }) := by
  have lists := lists_listed globals
  refine ⟨_, fun others => lists.unique, fun l enumerates others => ?_, ?_⟩
  · rw [sorts_iff enumerates, lists.unique]
  · intro s rounds files same
    have alike : s.globals = globals := Frame.ext_get? same
    rw [Session.perform, ofLine_vars asked, Session.command, Session.print, Session.run, Eval.write,
      alike, listing_eq]
    rcases s.console.write?_cases _ with ⟨fails, broken, some⟩ | ⟨written, works⟩
    · rw [fails, if_pos ⟨broken, mt join_entries_eq_nil.mpr some⟩]
      rfl
    · rw [written, if_neg]
      · rfl
      · rintro ⟨broken, some⟩
        rcases works with works | nothing
        · exact absurd (works.symm.trans broken) Bool.false_ne_true
        · exact some (join_entries_eq_nil.mp nothing)

theorem vars_lists_bindings_two :
    let globals := ((Frame.initial.set "x" (.int 1)).set "pi" (.int 3)).set "_" (.string "x")
    let s : Session := ⟨globals, [], .ofInput []⟩
    let files : Files := fun _ => .error .notFound
    AsksVars " .vars\t" ∧
      s.perform (.command 0 files " .vars\t") =
        (.value (), { s with console := s.console.wrote "pi:\t3\nx:\t1\n" }) := by
  intro globals s files
  have asked : AsksVars " .vars\t" :=
    ⟨" ".toList, ".vars".toList, "\t".toList, by decide, by simp [Text.isBlank],
      by simp [Text.isBlank], .inr rfl⟩
  obtain ⟨entries, only, -, run⟩ := vars_lists_bindings asked globals
  obtain rfl := (only _).mp (lists_listed globals)
  refine ⟨asked, (run s 0 files fun _ => rfl).trans ?_⟩
  rfl

end Command

end CalcScript
