import Chipscopy.Pcie.TraceItems

/-! What is printed of a trace

    The loop finds every list of a balanced trace but those that follow another list at once, or
    behind a comma only: the search goes on behind their opening bracket. Such a bracket is then
    printed as a part of an item, or something is raised. So a balanced trace is printed completely
    if and only if it has no such lists and the colors suffice for its depth. -/

namespace Chipscopy.Pcie

open Brackets (Nest Balanced DepthAtMost)

/-- Lines that are printed, and what is raised then. -/
abbrev Output := List (List Char) × Option TraceError

/-- An item is printed at its indentation. -/
def Printed (item : ℕ × List Char) (text : List Char) : Prop :=
  ∃ color ∈ colors, text = line color item.1 item.2

/-- The items are printed, each once and in order, and nothing is raised. -/
def Shows (out : Output) (items : List (ℕ × List Char)) : Prop :=
  out.2 = none ∧ List.Forall₂ Printed items out.1

/-- Something is raised, or an item is printed with a bracket. -/
def Garbled (out : Output) : Prop := out.2 ≠ none ∨ ∃ text ∈ out.1, 2 < text.count '['

/-- The condition decides between the two. -/
def Decides (fits : Prop) (out : Output) (items : List (ℕ × List Char)) : Prop :=
  (fits → Shows out items) ∧ (¬ fits → Garbled out)

/-! ### Lines -/

theorem mem_of_mem_strip {c : Char} {s : List Char} (h : c ∈ strip s) : c ∈ s :=
  (List.dropWhile_sublist _).mem ((List.rdropWhile_prefix _ _).mem h)

theorem mem_strip {c : Char} {s : List Char} (hc : Py.isSpace c = false) (h : c ∈ s) :
    c ∈ strip s := by
  have hdrop : c ∈ s.dropWhile Py.isSpace := by
    rw [← List.takeWhile_append_dropWhile (p := Py.isSpace) (l := s)] at h
    rcases List.mem_append.mp h with h | h
    · exact absurd (List.mem_takeWhile_imp h) (by simp [hc])
    · exact h
  rw [← List.rdropWhile_append_rtakeWhile (p := Py.isSpace) (l := s.dropWhile Py.isSpace)] at hdrop
  rcases List.mem_append.mp hdrop with h | h
  · exact h
  · exact absurd (List.mem_rtakeWhile_imp h) (by simp [hc])

theorem strip_eq_self {s : List Char} (h : ∀ c ∈ s, Py.isSpace c = false) : strip s = s := by
  have hdrop : s.dropWhile Py.isSpace = s :=
    List.dropWhile_eq_self_iff.mpr fun hs => by simp [h _ (List.getElem_mem hs)]
  rw [strip, hdrop]
  exact List.rdropWhile_eq_self_iff.mpr fun hs => by simp [h _ (List.getLast_mem hs)]

theorem count_line (color : String) (indent : ℕ) (item : List Char) :
    (line color indent item).count '[' =
      2 + 2 * color.toList.count '[' + item.count '[' := by
  simp only [line, List.count_append, List.count_cons, List.count_replicate, List.count_nil]
  simp
  omega

theorem count_printed {item : ℕ × List Char} {text : List Char} (h : Printed item text)
    (hitem : '[' ∉ item.2) : text.count '[' = 2 := by
  obtain ⟨color, hcolor, rfl⟩ := h
  have hnone : ∀ color ∈ colors, color.toList.count '[' = 0 := by decide
  rw [count_line, hnone color hcolor, List.count_eq_zero_of_not_mem hitem]

theorem notMem_of_mem_flush {item : List Char} {depth : ℕ} (hitem : '[' ∉ item)
    {entry : ℕ × List Char} (h : entry ∈ flush depth item) : '[' ∉ entry.2 := by
  rw [flush] at h
  split at h
  · simp at h
  · rw [List.mem_singleton.mp h]
    exact fun hmem => hitem (mem_of_mem_strip hmem)

/-- Items have no brackets. -/
theorem notMem_of_mem_traceItems : ∀ {s item : List Char} {depth : ℕ}, '[' ∉ item →
    ∀ {entry : ℕ × List Char}, entry ∈ traceItems depth item s → '[' ∉ entry.2
  | [], item, depth, hitem, entry, h => by
    rw [traceItems] at h
    exact notMem_of_mem_flush hitem h
  | c :: s, item, depth, hitem, entry, h => by
    have happend : ∀ {depth' : ℕ}, entry ∈ flush depth item ++ traceItems depth' [] s →
        '[' ∉ entry.2 := fun h => by
      rcases List.mem_append.mp h with h | h
      · exact notMem_of_mem_flush hitem h
      · exact notMem_of_mem_traceItems (by simp) h
    rw [traceItems] at h
    split at h
    · exact happend h
    · next hc =>
      split at h
      · exact happend h
      · split at h
        · exact happend h
        · exact notMem_of_mem_traceItems (by simp [hitem, Ne.symm hc]) h

theorem exists_item : ∀ {items : List (ℕ × List Char)} {texts : List (List Char)},
    List.Forall₂ Printed items texts → ∀ text ∈ texts, ∃ item ∈ items, Printed item text
  | _, _, .nil, text, h => by simp at h
  | _, _, .cons hfirst hrest, text, h => by
    rcases List.mem_cons.mp h with rfl | h
    · exact ⟨_, List.mem_cons_self, hfirst⟩
    · obtain ⟨item, hitem, hprinted⟩ := exists_item hrest text h
      exact ⟨item, List.mem_cons_of_mem _ hitem, hprinted⟩

theorem Garbled.not_shows {out : Output} (h : Garbled out) {trace : List Char} {depth : ℕ} :
    ¬ Shows out (traceItems depth [] trace) := by
  rintro ⟨hnone, hprinted⟩
  rcases h with hraised | ⟨text, htext, hcount⟩
  · exact hraised hnone
  · obtain ⟨item, hitem, hshown⟩ := exists_item hprinted text htext
    have := count_printed hshown (notMem_of_mem_traceItems (by simp) hitem)
    omega

/-- Code points of the separators and of blanks. -/
def separators : List ℕ :=
  ['['.toNat, ']'.toNat, ','.toNat] ++ List.range' 9 5 ++ List.range' 0x1c 5 ++
    List.range' 0x2000 11 ++ [0x85, 0xa0, 0x1680, 0x2028, 0x2029, 0x202f, 0x205f, 0x3000]

/-- No separator is a digit. -/
theorem isDigit_of_mem_separators {c : Char} (h : c.toNat ∈ separators) : isDigit c = false := by
  have hnone : ∀ n ∈ separators, (Py.decimalZeros.find? fun d => d ≤ n ∧ n < d + 10) = none ∧
      (otherDigits.any fun range => range.1 ≤ n && n ≤ range.2) = false := by decide +kernel
  obtain ⟨hdecimal, hother⟩ := hnone _ h
  rw [isDigit, Py.decimal?, hdecimal, hother]
  rfl

theorem isDigit_of_isSpace {c : Char} (h : Py.isSpace c = true) : isDigit c = false := by
  refine isDigit_of_mem_separators ?_
  simp only [Py.isSpace, Bool.or_eq_true, Bool.and_eq_true, decide_eq_true_eq] at h
  simp only [separators, List.mem_append, List.mem_range'_1]
  rcases h with ((h | h) | h) | h
  · omega
  · omega
  · omega
  · exact .inr h

/-- A number is its only item. -/
theorem shows_isdigit {s : List Char} (h : isdigit s = true) {indent : ℕ} {color : String}
    (hcolor : color ∈ colors) : Shows ([line color indent s], none) (textItems indent s) := by
  obtain ⟨hne, hall⟩ : s ≠ [] ∧ ∀ c ∈ s, isDigit c = true := by simpa [isdigit] using h
  have hcomma : ',' ∉ s := fun hmem =>
    Bool.false_ne_true ((isDigit_of_mem_separators (by decide)).symm.trans (hall _ hmem))
  have hspace : ∀ c ∈ s, Py.isSpace c = false := fun c hc => by
    by_contra hspace
    have hfalse := isDigit_of_isSpace (by simpa using hspace : Py.isSpace c = true)
    exact Bool.false_ne_true (hfalse.symm.trans (hall c hc))
  rw [textItems_of_notMem hcomma, flush, if_neg hne, strip_eq_self hspace]
  exact ⟨rfl, .cons ⟨color, hcolor, rfl⟩ .nil⟩

theorem forall₂_printItems {color : String} (hcolor : color ∈ colors) (indent : ℕ) (s : List Char) :
    List.Forall₂ Printed (textItems indent s) (printItems color indent s) := by
  rw [textItems, printItems, List.forall₂_map_left_iff, List.forall₂_map_right_iff,
    List.forall₂_same]
  exact fun item _ => ⟨color, hcolor, rfl⟩

/-- A bracket that is taken for a part of an item is printed. -/
theorem exists_printItems (color : String) (indent : ℕ) {s : List Char} (h : '[' ∈ s) :
    ∃ text ∈ printItems color indent s, 2 < text.count '[' := by
  obtain ⟨item, hitem, hmem⟩ : ∃ item ∈ s.splitOn ',', '[' ∈ item := by
    induction s with
    | nil => simp at h
    | cons c s ih =>
      rw [List.splitOn_cons_eq_if_modifyHead]
      split
      · next hc =>
        have hne : '[' ≠ c := fun heq => by simp [← heq] at hc
        obtain ⟨item, hitem, hmem⟩ := ih (by simpa [hne] using h)
        exact ⟨item, List.mem_cons_of_mem _ hitem, hmem⟩
      · rcases hsplit : s.splitOn ',' with _ | ⟨first, items⟩
        · exact absurd hsplit (List.splitOn_ne_nil _ _)
        · rw [List.modifyHead_cons]
          by_cases hc : '[' = c
          · exact ⟨c :: first, List.mem_cons_self, hc ▸ List.mem_cons_self⟩
          · obtain ⟨item, hitem, hmem⟩ := ih (by simpa [hc] using h)
            rw [hsplit] at hitem
            rcases List.mem_cons.mp hitem with rfl | hitem
            · exact ⟨c :: item, List.mem_cons_self, List.mem_cons_of_mem _ hmem⟩
            · exact ⟨item, List.mem_cons_of_mem _ hitem, hmem⟩
  refine ⟨line color indent (strip item), List.mem_map.mpr ⟨item, ?_, rfl⟩, ?_⟩
  · simpa using ⟨hitem, List.ne_nil_of_mem hmem⟩
  · have hcount := List.count_pos_iff.mpr (mem_strip (by decide : Py.isSpace '[' = false) hmem)
    rw [count_line]
    omega

/-! ### One round of the loop -/

/-- The rest of the loop behind a list. -/
def printRest (trace : List Char) (indent : ℕ) (color : String) (braceLocations : BraceLocations)
    (next : ℕ) : Output :=
  if next ≥ trace.length then ([], none)
  else
    let prev := if (trace)[next]? = some ',' then next + 1 else next
    printLists trace indent color braceLocations prev next (prev + 1)

/-- Items before a list, the list, and the rest. -/
def chain (items : List (List Char)) (inner rest : Output) : Output :=
  match inner with
  | (texts, some e) => (items ++ texts, some e)
  | (texts, none) => (items ++ texts ++ rest.1, rest.2)

section Rounds

variable {trace : List Char} {indent : ℕ} {color : String} {braceLocations : BraceLocations}
  {prev next start : ℕ}

theorem printLists_none (h : findOpening trace start = none) :
    printLists trace indent color braceLocations prev next start =
      (printItems color indent (trace.drop next), none) := by
  rw [printLists]
  split
  · rfl
  · next i hi => cases h.symm.trans hi

theorem printLists_noLocation {i : ℕ} (h : findOpening trace start = some i)
    (hlocation : braceLocations.toret.get? i = none) :
    (printLists trace indent color braceLocations prev next start).2 ≠ none := by
  rw [printLists]
  split
  · next hnone => cases h.symm.trans hnone
  · next j hj =>
    obtain rfl := Option.some.inj (h.symm.trans hj)
    split
    · simp
    · next stop hstop => cases hlocation.symm.trans hstop

theorem printLists_found {i stop : ℕ} (h : findOpening trace start = some i)
    (hlocation : braceLocations.toret.get? i = some stop) :
    printLists trace indent color braceLocations prev next start =
      chain (printItems color indent (Py.segment trace prev i))
        (printBracketed (Py.segment trace (i + 1) stop) (indent + 1))
        (printRest trace indent color braceLocations (stop + 1)) := by
  rw [printLists]
  split
  · next hnone => cases h.symm.trans hnone
  · next j hj =>
    obtain rfl := Option.some.inj (h.symm.trans hj)
    split
    · next hnone => cases hlocation.symm.trans hnone
    · next stop' hstop =>
      obtain rfl := Option.some.inj (hlocation.symm.trans hstop)
      rcases printBracketed (Py.segment trace (i + 1) stop) (indent + 1) with ⟨inner, _ | e⟩
      · rw [chain, printRest]
        by_cases hlen : stop + 1 ≥ trace.length
        · simp only [hlen, if_true, List.append_nil]
        · simp only [hlen, if_false]
      · rfl

theorem Garbled.of_items {texts : List (List Char)} {text : List Char} (hmem : text ∈ texts)
    (hcount : 2 < text.count '[') (inner rest : Output) : Garbled (chain texts inner rest) := by
  rcases inner with ⟨inner, _ | e⟩
  · exact .inr ⟨text, by simp [chain, hmem], hcount⟩
  · exact .inr ⟨text, by simp [chain, hmem], hcount⟩

theorem Garbled.of_inner {inner : Output} (h : Garbled inner) (texts : List (List Char))
    (rest : Output) : Garbled (chain texts inner rest) := by
  rcases inner with ⟨inner, _ | e⟩
  · rcases h with hraised | ⟨text, htext, hcount⟩
    · exact absurd rfl hraised
    · have hinner : text ∈ inner := htext
      exact .inr ⟨text, by simp [chain, hinner], hcount⟩
  · exact .inl (by simp [chain])

theorem Garbled.of_rest {rest : Output} (h : Garbled rest) (texts : List (List Char))
    (inner : Output) : Garbled (chain texts inner rest) := by
  rcases inner with ⟨inner, _ | e⟩
  · rcases h with hraised | ⟨text, htext, hcount⟩
    · exact .inl hraised
    · exact .inr ⟨text, by simp [chain, htext], hcount⟩
  · exact .inl (by simp [chain])

/-- A bracket before the next list, or before the end, is printed. -/
theorem garbled_printLists {m : ℕ} (hm : (trace)[m]? = some '[') (hnext : next ≤ m)
    (hprev : prev ≤ m) (hstart : m < start) :
    Garbled (printLists trace indent color braceLocations prev next start) := by
  rcases hfind : findOpening trace start with _ | i
  · rw [printLists_none hfind]
    have hmem : '[' ∈ trace.drop next := by
      refine List.mem_of_getElem? (i := m - next) ?_
      rw [List.getElem?_drop, Nat.add_sub_cancel' hnext, hm]
    exact .inr (exists_printItems color indent hmem)
  · obtain ⟨hle, -⟩ := findOpening_eq_some hfind
    rcases hlocation : braceLocations.toret.get? i with _ | stop
    · exact .inl (printLists_noLocation hfind hlocation)
    · rw [printLists_found hfind hlocation]
      have hmem : '[' ∈ Py.segment trace prev i := by
        refine List.mem_of_getElem? (i := m - prev) ?_
        rw [Py.segment, List.getElem?_drop, Nat.add_sub_cancel' hprev,
          List.getElem?_take_of_lt (by omega), hm]
      obtain ⟨text, htext, hcount⟩ := exists_printItems color indent hmem
      exact Garbled.of_items htext hcount _ _

end Rounds

theorem Decides.chain {f g : Prop} {inner rest : Output} {texts : List (List Char)}
    {items items₁ items₂ : List (ℕ × List Char)} (htexts : List.Forall₂ Printed items texts)
    (hinner : Decides f inner items₁) (hrest : Decides g rest items₂) :
    Decides (f ∧ g) (chain texts inner rest) (items ++ items₁ ++ items₂) := by
  constructor
  · rintro ⟨hf, hg⟩
    obtain ⟨hnone₁, hprinted₁⟩ := hinner.1 hf
    obtain ⟨hnone₂, hprinted₂⟩ := hrest.1 hg
    obtain ⟨texts₁, raised⟩ := inner
    obtain rfl : raised = none := hnone₁
    exact ⟨hnone₂, List.rel_append (List.rel_append htexts hprinted₁) hprinted₂⟩
  · intro hnot
    by_cases hf : f
    · exact (hrest.2 fun hg => hnot ⟨hf, hg⟩).of_rest texts inner
    · exact (hinner.2 hf).of_inner texts rest

end Chipscopy.Pcie
