import Chipscopy.Pcie.TracePrint

/-! Traces that are printed completely

    By induction over the tree of a balanced trace: a list is printed completely if its own trace
    is, and if the rest is and its first list does not follow at once. In terms of the trace, no
    list follows another at once or behind a comma only, and no more than four are open anywhere. -/

namespace Chipscopy.Pcie

open Brackets (Nest Balanced DepthAtMost)

/-! ### Lists in the trace -/

theorem idxOf?_append_cons : ∀ {b : List Char}, '[' ∉ b → ∀ (rest : List Char),
    (b ++ '[' :: rest).idxOf? '[' = some b.length
  | [], _, rest => by simp [List.idxOf?_cons]
  | c :: b, h, rest => by
    obtain ⟨hc, hb⟩ := not_or.mp (List.mem_cons.not.mp h)
    rw [List.cons_append, List.idxOf?_cons, idxOf?_append_cons hb, if_neg (by simp [Ne.symm hc])]
    rfl

theorem findOpening_list {front before rest : List Char} (h : '[' ∉ before) {start : ℕ}
    (hfront : front.length ≤ start) (hbefore : start ≤ front.length + before.length) :
    findOpening (front ++ (before ++ '[' :: rest)) start =
      some (front.length + before.length) := by
  obtain ⟨k, rfl⟩ := Nat.exists_eq_add_of_le hfront
  have hk : k ≤ before.length := by omega
  have hdrop : (front ++ (before ++ '[' :: rest)).drop (front.length + k) =
      before.drop k ++ '[' :: rest := by
    rw [List.drop_length_add_append, List.drop_append_of_le_length hk]
  have hnot : '[' ∉ before.drop k := fun hmem => h (List.mem_of_mem_drop hmem)
  rw [findOpening, hdrop, idxOf?_append_cons hnot, Option.map_some, List.length_drop]
  congr 1
  omega

theorem findOpening_text {front s : List Char} (h : '[' ∉ s) {start : ℕ}
    (hfront : front.length ≤ start) : findOpening (front ++ s) start = none := by
  obtain ⟨k, rfl⟩ := Nat.exists_eq_add_of_le hfront
  rw [findOpening, List.drop_length_add_append, Option.map_eq_none_iff, List.idxOf?_eq_none_iff]
  exact fun hmem => h (List.mem_of_mem_drop hmem)

theorem segment_middle (x y z : List Char) :
    Py.segment (x ++ (y ++ z)) x.length (x.length + y.length) = y := by
  rw [Py.segment, List.take_length_add_append, List.drop_left, List.take_left]

theorem mem_colors {indent : ℕ} {color : String} (h : colors[indent]? = some color) :
    color ∈ colors ∧ indent ≤ 4 := by
  obtain ⟨hlt, -⟩ := List.getElem?_eq_some_iff.mp h
  exact ⟨List.mem_of_getElem? h, Nat.le_of_lt_succ hlt⟩

/-! ### The tree -/

/-- A list that comes next has more than a comma before it. -/
def Leads : Nest Char → Prop
  | .text _ => True
  | .list before _ _ => before ≠ [] ∧ before ≠ [',']

/-- The colors suffice, and no list follows another at once. -/
def Fits (indent : ℕ) : Nest Char → Prop
  | .text _ => indent ≤ 4
  | .list _ inner after => Fits (indent + 1) inner ∧ Fits indent after ∧ Leads after

theorem Fits.indent_le : ∀ {t : Nest Char} {indent : ℕ}, Fits indent t → indent ≤ 4
  | .text _, _, h => h
  | .list _ _ _, _, h => h.2.1.indent_le

/-- A trace by a call of its own. -/
def CallDecides (t : Nest Char) : Prop :=
  ∀ indent, Decides (Fits indent t) (printBracketed (t.render '[' ']') indent) (treeItems indent t)

/-- The rest of a trace. -/
def RestDecides (t : Nest Char) : Prop :=
  ∀ (trace front : List Char) (indent : ℕ) (color : String) (braceLocations : BraceLocations),
    trace = front ++ t.render '[' ']' → colors[indent]? = some color →
    Located braceLocations.toret front.length t →
    Decides (Fits indent t ∧ Leads t)
      (printRest trace indent color braceLocations front.length) (treeItems indent t)

section Steps

variable {trace front before : List Char} {inner after : Nest Char} {indent : ℕ} {color : String}
  {braceLocations : BraceLocations}

/-- The round of a list that is found. -/
theorem decides_found (htrace : trace = front ++ (Nest.list before inner after).render '[' ']')
    (hbefore : '[' ∉ before) (hinner : CallDecides inner) (hafter : RestDecides after)
    (hcolor : colors[indent]? = some color)
    (hlocated : Located braceLocations.toret front.length (.list before inner after))
    {prev next start : ℕ} (hfront : front.length ≤ start)
    (hstart : start ≤ front.length + before.length)
    (hitems : textItems indent (Py.segment trace prev (front.length + before.length)) =
      textItems indent before) :
    Decides (Fits indent (.list before inner after))
      (printLists trace indent color braceLocations prev next start)
      (treeItems indent (.list before inner after)) := by
  obtain ⟨hlocation, hlocated⟩ := hlocated
  have hfind : findOpening trace start = some (front.length + before.length) := by
    rw [htrace]
    exact findOpening_list hbefore hfront hstart
  have hsegment : Py.segment trace (front.length + before.length + 1)
      (front.length + before.length + 1 + (inner.render '[' ']').length) =
        inner.render '[' ']' := by
    have hmiddle := segment_middle (front ++ before ++ ['[']) (inner.render '[' ']')
      (']' :: after.render '[' ']')
    rw [htrace, Nest.render]
    simpa [Nat.add_assoc] using hmiddle
  -- the rest begins behind the closing bracket
  let front' := front ++ before ++ '[' :: inner.render '[' ']' ++ [']']
  have hlength : front'.length =
      front.length + before.length + 1 + (inner.render '[' ']').length + 1 := by
    simp only [front', List.length_append, List.length_cons, List.length_nil]
    omega
  have htrace' : trace = front' ++ after.render '[' ']' := by
    simp [htrace, front', Nest.render]
  have hrest := hafter trace front' indent color braceLocations htrace' hcolor
    (hlength.symm ▸ hlocated)
  have htexts := forall₂_printItems (mem_colors hcolor).1 indent
    (Py.segment trace prev (front.length + before.length))
  rw [hitems] at htexts
  rw [printLists_found hfind hlocation, hsegment, ← hlength]
  exact Decides.chain htexts (hinner (indent + 1)) hrest

theorem printBracketed_noColor (h : colors[indent]? = none) :
    printBracketed trace indent = ([], some .colorIndex) := by
  rw [printBracketed]
  split
  · rfl
  · next color hcolor => cases h.symm.trans hcolor

theorem printBracketed_lists (hcolor : colors[indent]? = some color)
    (hdigit : isdigit trace = false) {toret : Py.Dict ℕ ℕ}
    (hfind : findBrace trace ('[', ']') = .ok toret) :
    printBracketed trace indent =
      printLists trace indent color ⟨toret, findBrace_lt hfind⟩ 0 0 0 := by
  rw [printBracketed]
  split
  · next hnone => cases hnone.symm.trans hcolor
  · next color' hcolor' =>
    obtain rfl := Option.some.inj (hcolor.symm.trans hcolor')
    rw [if_neg (by simp [hdigit])]
    split
    · next e herror => cases hfind.symm.trans herror
    · next toret' hok =>
      obtain rfl := Except.ok.inj (hfind.symm.trans hok)
      rfl

/-- There are colors for a depth up to 4. -/
theorem not_fits_of_noColor (h : colors[indent]? = none) (t : Nest Char) : ¬ Fits indent t := by
  intro hfits
  have hle := hfits.indent_le
  have hlength : colors.length = 5 := rfl
  have hnone := List.getElem?_eq_none_iff.mp h
  omega

/-- The call on a trace with a list. -/
theorem callDecides_list (hplain : (Nest.list before inner after).Plain '[' ']')
    (hinner : CallDecides inner) (hafter : RestDecides after) :
    CallDecides (.list before inner after) := by
  intro indent
  rcases hcolor : colors[indent]? with _ | color
  · rw [printBracketed_noColor hcolor]
    exact ⟨fun hfits => absurd hfits (not_fits_of_noColor hcolor _), fun _ => .inl (by simp)⟩
  · have hdigit : isdigit ((Nest.list before inner after).render '[' ']') = false := by
      have hopen : isDigit '[' = false := isDigit_of_mem_separators (by decide)
      simp [isdigit, Nest.render, hopen]
    obtain ⟨toret, hfind, hlocated⟩ := findBrace_render hplain
    rw [printBracketed_lists hcolor hdigit hfind]
    have htrace : (Nest.list before inner after).render '[' ']' =
        [] ++ (Nest.list before inner after).render '[' ']' := rfl
    refine decides_found htrace hplain.1.1 hinner hafter hcolor hlocated le_rfl
      (Nat.zero_le _) ?_
    have hmiddle := segment_middle [] before
      ('[' :: (inner.render '[' ']' ++ ']' :: after.render '[' ']'))
    exact congrArg (textItems indent) hmiddle

/-- The rest of a trace with a list. -/
theorem restDecides_list (hplain : (Nest.list before inner after).Plain '[' ']')
    (hinner : CallDecides inner) (hafter : RestDecides after) :
    RestDecides (.list before inner after) := by
  intro trace front indent color braceLocations htrace hcolor hlocated
  have hopen : (trace)[front.length + before.length]? = some '[' := by
    rw [htrace, Nest.render, List.getElem?_append_right (Nat.le_add_right _ _),
      Nat.add_sub_cancel_left, List.getElem?_append_right le_rfl, Nat.sub_self]
    rfl
  have hlt := (List.getElem?_eq_some_iff.mp hopen).1
  rw [printRest, if_neg (by omega)]
  by_cases hleads : Leads (.list before inner after)
  · rw [iff_true_intro hleads, and_true]
    rcases before with _ | ⟨c, bs⟩
    · exact absurd rfl hleads.1
    · have hfirst : (trace)[front.length]? = some c := by
        rw [htrace, List.getElem?_append_right le_rfl, Nat.sub_self]
        rfl
      by_cases hc : c = ','
      · -- the comma is skipped, and so is the first character behind it
        subst hc
        have hbs : 0 < bs.length := by
          rcases bs with _ | ⟨b, bs⟩
          · exact absurd rfl hleads.2
          · exact Nat.succ_pos _
        have hsegment : Py.segment trace (front.length + 1) (front.length + (',' :: bs).length) =
            bs := by
          have hmiddle := segment_middle (front ++ [',']) bs
            ('[' :: (inner.render '[' ']' ++ ']' :: after.render '[' ']'))
          rw [htrace, Nest.render]
          simpa [Nat.add_assoc, Nat.add_comm 1] using hmiddle
        have hitems : textItems indent (',' :: bs) = textItems indent bs := by
          have hcomma := @textItems_append_comma [] (by simp) indent bs
          simpa [flush] using hcomma
        simp only [hfirst, if_true]
        refine decides_found htrace hplain.1.1 hinner hafter hcolor hlocated (by omega) ?_ ?_
        · rw [List.length_cons]
          omega
        · rw [hsegment, hitems]
      · have hsegment : Py.segment trace front.length (front.length + (c :: bs).length) =
            c :: bs := by
          rw [htrace, Nest.render]
          exact segment_middle front (c :: bs) _
        have hne : ¬ some c = some ',' := fun h => hc (Option.some.inj h)
        simp only [hfirst, hne, if_false]
        refine decides_found htrace hplain.1.1 hinner hafter hcolor hlocated (by omega) ?_ ?_
        · rw [List.length_cons]
          omega
        · rw [hsegment]
  · refine ⟨fun h => absurd h.2 hleads, fun _ => ?_⟩
    -- the opening bracket is skipped
    have hbefore : before = [] ∨ before = [','] := by
      by_contra hnot
      exact hleads (not_or.mp hnot)
    rcases hbefore with rfl | rfl
    · have hfirst : (trace)[front.length]? = some '[' := hopen
      have hne : ¬ some '[' = some ',' := by decide
      simp only [hfirst, hne, if_false]
      exact garbled_printLists hfirst le_rfl le_rfl (Nat.lt_succ_self _)
    · have hfirst : (trace)[front.length]? = some ',' := by
        rw [htrace, List.getElem?_append_right le_rfl, Nat.sub_self]
        rfl
      simp only [hfirst, if_true]
      exact garbled_printLists hopen (Nat.le_succ _) le_rfl (Nat.lt_succ_self _)

/-! ### Texts -/

theorem callDecides_text {s : List Char} (hplain : (Nest.text s).Plain '[' ']') :
    CallDecides (.text s) := by
  intro indent
  rcases hcolor : colors[indent]? with _ | color
  · rw [printBracketed_noColor hcolor]
    exact ⟨fun hfits => absurd hfits (not_fits_of_noColor hcolor _), fun _ => .inl (by simp)⟩
  · refine ⟨fun _ => ?_, fun hnot => absurd (mem_colors hcolor).2 hnot⟩
    by_cases hdigit : isdigit s = true
    · have hprint : printBracketed s indent = ([line color indent s], none) := by
        rw [printBracketed]
        split
        · next hnone => cases hnone.symm.trans hcolor
        · next color' hcolor' =>
          obtain rfl := Option.some.inj (hcolor.symm.trans hcolor')
          rw [if_pos hdigit]
      rw [Nest.render, hprint]
      exact shows_isdigit hdigit (mem_colors hcolor).1
    · obtain ⟨toret, hfind, -⟩ := findBrace_render hplain
      have hdigit' : isdigit ((Nest.text s).render '[' ']') = false := by
        rw [← Bool.not_eq_true]
        exact hdigit
      have hnone : findOpening ((Nest.text s).render '[' ']') 0 = none :=
        @findOpening_text [] _ hplain.1 _ le_rfl
      rw [printBracketed_lists hcolor hdigit' hfind, printLists_none hnone]
      exact ⟨rfl, forall₂_printItems (mem_colors hcolor).1 indent s⟩

theorem restDecides_text {s : List Char} (hplain : (Nest.text s).Plain '[' ']') :
    RestDecides (.text s) := by
  intro trace front indent color braceLocations htrace hcolor _
  refine ⟨fun _ => ?_, fun hnot => absurd ⟨(mem_colors hcolor).2, trivial⟩ hnot⟩
  rw [Nest.render] at htrace
  rw [printRest]
  split
  · next hlen =>
    have hs : s = [] := by
      rw [htrace, List.length_append] at hlen
      exact List.length_eq_zero_iff.mp (by omega)
    rw [hs]
    exact ⟨rfl, .nil⟩
  · have hnone : ∀ start, front.length ≤ start → findOpening trace start = none := by
      intro start hstart
      rw [htrace]
      exact findOpening_text hplain.1 hstart
    have hprev : front.length ≤ (if (trace)[front.length]? = some ',' then front.length + 1
        else front.length) + 1 := by
      split <;> omega
    simp only [printLists_none (hnone _ hprev)]
    rw [htrace, List.drop_left]
    exact ⟨rfl, forall₂_printItems (mem_colors hcolor).1 indent s⟩

end Steps

/-- Every tree is printed completely exactly if it fits, by itself and behind a list. -/
theorem decides_tree : ∀ {t : Nest Char}, t.Plain '[' ']' → CallDecides t ∧ RestDecides t
  | .text _, hplain => ⟨callDecides_text hplain, restDecides_text hplain⟩
  | .list _ _ _, hplain =>
    have hinner := (decides_tree hplain.2.1).1
    have hafter := (decides_tree hplain.2.2).2
    ⟨callDecides_list hplain hinner hafter, restDecides_list hplain hinner hafter⟩

/-! ### The trace -/

/-- A list follows another at once, or behind a comma only. -/
def Touching (s : List Char) : Prop := [']', '['] <:+: s ∨ [']', ',', '['] <:+: s

theorem not_touching_nil : ¬ Touching [] := by simp [Touching]

theorem touching_cons {c : Char} (hc : c ≠ ']') (s : List Char) :
    Touching (c :: s) ↔ Touching s := by
  simp [Touching, List.infix_cons_iff, Ne.symm hc]

theorem touching_close (s : List Char) : Touching (']' :: s) ↔
    (['['] <+: s ∨ [',', '['] <+: s) ∨ Touching s := by
  simp only [Touching, List.infix_cons_iff, List.cons_prefix_cons, true_and]
  tauto

theorem touching_plain : ∀ {b : List Char}, ']' ∉ b → ∀ (s : List Char),
    Touching (b ++ s) ↔ Touching s
  | [], _, _ => Iff.rfl
  | c :: b, h, s => by
    obtain ⟨hc, hb⟩ := not_or.mp (List.mem_cons.not.mp h)
    rw [List.cons_append, touching_cons (Ne.symm hc), touching_plain hb]

theorem touching_append_close : ∀ (x y : List Char),
    Touching (x ++ ']' :: y) ↔ Touching x ∨ Touching (']' :: y)
  | [], y => by simp [not_touching_nil]
  | c :: x, y => by
    rw [List.cons_append]
    by_cases hc : c = ']'
    · subst hc
      -- what follows the bracket lies in the first part, which another bracket closes
      have hone : ['['] <+: x ++ ']' :: y ↔ ['['] <+: x := by
        rcases x with _ | ⟨c, x⟩ <;> simp
      have htwo : [',', '['] <+: x ++ ']' :: y ↔ [',', '['] <+: x := by
        rcases x with _ | ⟨c, _ | ⟨d, x⟩⟩ <;> simp
      rw [touching_close, touching_append_close x y, hone, htwo, touching_close x, or_assoc,
        or_assoc, or_assoc]
    · rw [touching_cons hc, touching_cons hc, touching_append_close x y]

/-- The next list follows at once exactly if the text begins so. -/
theorem not_leads_iff : ∀ {t : Nest Char}, t.Plain '[' ']' →
    ((['['] <+: t.render '[' ']' ∨ [',', '['] <+: t.render '[' ']') ↔ ¬ Leads t)
  | .text s, hplain => by
    refine iff_of_false ?_ (not_not.mpr trivial)
    rintro (h | h)
    · exact hplain.1 (h.subset (by simp))
    · exact hplain.1 (h.subset (by simp))
  | .list before inner after, hplain => by
    have hopen := hplain.1.1
    rw [Leads, Nest.render]
    rcases before with _ | ⟨c, _ | ⟨d, bs⟩⟩
    · simp
    · have hc : ¬ '[' = c := fun h => hopen (h ▸ List.mem_cons_self)
      simp [hc, eq_comm]
    · have hc : ¬ '[' = c := fun h => hopen (h ▸ List.mem_cons_self)
      have hd : ¬ '[' = d := fun h => hopen (h ▸ by simp)
      simp [hc, hd]

theorem fits_iff : ∀ {t : Nest Char}, t.Plain '[' ']' → ∀ (indent : ℕ),
    Fits indent t ↔ indent + t.depth ≤ 4 ∧ ¬ Touching (t.render '[' ']')
  | .text s, hplain, indent => by
    have hnot : ¬ Touching s := by
      have happend := touching_plain hplain.2 []
      rw [List.append_nil] at happend
      exact happend.not.mpr not_touching_nil
    rw [Fits, Nest.depth, Nat.add_zero]
    exact (and_iff_left hnot).symm
  | .list before inner after, ⟨hbefore, hinner, hafter⟩, indent => by
    have htouching : Touching ((Nest.list before inner after).render '[' ']') ↔
        Touching (inner.render '[' ']') ∨ ¬ Leads after ∨ Touching (after.render '[' ']') := by
      rw [Nest.render, touching_plain hbefore.2, touching_cons (by decide), touching_append_close,
        touching_close, not_leads_iff hafter]
    have hdepth : indent + (Nest.list before inner after).depth ≤ 4 ↔
        indent + 1 + inner.depth ≤ 4 ∧ indent + after.depth ≤ 4 := by
      rw [Nest.depth]
      omega
    rw [Fits, fits_iff hinner, fits_iff hafter, htouching, hdepth]
    tauto

/-- No list follows another at once, and at most four are open anywhere, less the indentation. -/
structure Printable (trace : List Char) (indent : ℕ) : Prop where
  apart : ¬ [']', '['] <:+: trace ∧ ¬ [']', ',', '['] <:+: trace
  shallow : ∀ p, p <+: trace → indent + p.count '[' ≤ p.count ']' + 4

theorem fits_iff_printable {t : Nest Char} (hplain : t.Plain '[' ']') (indent : ℕ) :
    Fits indent t ↔ Printable (t.render '[' ']') indent := by
  have hdepth : indent + t.depth ≤ 4 ↔
      ∀ p, p <+: t.render '[' ']' → indent + p.count '[' ≤ p.count ']' + 4 := by
    constructor
    · intro hle p hp
      have hcount := (Brackets.Nest.depthAtMost_render (by decide) hplain).mpr le_rfl p hp
      omega
    · intro hall
      have hindent : indent ≤ 4 := by simpa using hall [] List.nil_prefix
      have hle := (Brackets.Nest.depthAtMost_render (by decide) hplain (n := 4 - indent)).mp
        fun p hp => by
          have := hall p hp
          omega
      omega
  rw [fits_iff hplain, hdepth, Touching, not_or]
  exact ⟨fun h => ⟨h.2, h.1⟩, fun h => ⟨h.shallow, h.apart⟩⟩

theorem decides_printable {trace : List Char} (h : Balanced '[' ']' trace) (indent : ℕ) :
    Decides (Printable trace indent) (printBracketed trace indent)
      (traceItems indent [] trace) := by
  obtain ⟨t, hplain, rfl⟩ := h.exists_nest (by decide)
  have hdecides := (decides_tree hplain).1 indent
  rwa [fits_iff_printable hplain, ← traceItems_eq_treeItems hplain] at hdecides

/-- The matching refuses exactly what is not balanced, and a balanced trace is printed completely
    exactly if its lists are apart and not too deep. -/
theorem printBracketed_shows_iff (trace : List Char) (indent : ℕ) :
    ((∃ e, findBrace trace ('[', ']') = .error e ∧ e.IsIndexError) ↔ ¬ Balanced '[' ']' trace) ∧
      (Balanced '[' ']' trace →
        (Shows (printBracketed trace indent) (traceItems indent [] trace) ↔
          Printable trace indent)) := by
  refine ⟨findBrace_error_iff trace, fun h => ⟨fun hshows => ?_, ?_⟩⟩
  · by_contra hnot
    exact ((decides_printable h indent).2 hnot).not_shows hshows
  · exact (decides_printable h indent).1

/-- The second of two lists with a comma between them is not found. -/
theorem not_printTrace_shows : ¬ ∀ trace, Balanced '[' ']' trace →
    Shows (printTrace trace) (traceItems 0 [] trace) := by
  intro h
  have hbalanced : Balanced '[' ']' ['[', 'a', ']', ',', '[', 'b', ']'] :=
    (findBrace_ok_iff _).mp ⟨_, rfl⟩
  have hnot : ¬ Printable ['[', 'a', ']', ',', '[', 'b', ']'] 0 := fun hprintable =>
    hprintable.apart.2 (by decide)
  exact ((decides_printable hbalanced 0).2 hnot).not_shows (h _ hbalanced)

end Chipscopy.Pcie
