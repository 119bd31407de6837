import Chipscopy.Lib.Brackets
import Chipscopy.Pcie.Trace

/-! Items of a trace

    A trace says which items are to be printed: what stands between two separators, at the number
    of brackets that are open there. The brackets of a trace are balanced exactly when they can be
    matched, and a balanced trace is a tree, whose lists the matching finds. -/

namespace Chipscopy.Pcie

open Brackets (Nest Closes Balanced)

/-! ### Items -/

def flush (depth : ℕ) (item : List Char) : List (ℕ × List Char) :=
  if item = [] then [] else [(depth, strip item)]

/-- Items from a depth on, with what has been read of the first. -/
def traceItems (depth : ℕ) (item : List Char) : List Char → List (ℕ × List Char)
  | [] => flush depth item
  | c :: s =>
    if c = '[' then flush depth item ++ traceItems (depth + 1) [] s
    else if c = ']' then flush depth item ++ traceItems (depth - 1) [] s
    else if c = ',' then flush depth item ++ traceItems depth [] s
    else traceItems depth (item ++ [c]) s

/-- Items of a text without brackets. -/
def textItems (depth : ℕ) (s : List Char) : List (ℕ × List Char) :=
  ((s.splitOn ',').filter (· ≠ [])).map fun item => (depth, strip item)

/-- Items of a tree. -/
def treeItems (depth : ℕ) : Nest Char → List (ℕ × List Char)
  | .text s => textItems depth s
  | .list before inner after =>
    textItems depth before ++ treeItems (depth + 1) inner ++ treeItems depth after

/-- A text that ends the item before it. -/
def Ends (rest : List Char) : Prop := rest = [] ∨ ∃ s, rest = '[' :: s ∨ rest = ']' :: s

theorem traceItems_of_ends {rest : List Char} (h : Ends rest) (depth : ℕ) (item : List Char) :
    traceItems depth item rest = flush depth item ++ traceItems depth [] rest := by
  rcases h with rfl | ⟨s, rfl | rfl⟩ <;> simp [traceItems, flush]

theorem textItems_of_notMem {item : List Char} (h : ',' ∉ item) (depth : ℕ) :
    textItems depth item = flush depth item := by
  rw [textItems, List.splitOn_eq_singleton h, flush]
  by_cases hitem : item = []
  · simp [hitem]
  · simp [hitem]

theorem textItems_append_comma {item : List Char} (h : ',' ∉ item) (depth : ℕ) (s : List Char) :
    textItems depth (item ++ ',' :: s) = flush depth item ++ textItems depth s := by
  rw [← textItems_of_notMem h, textItems, textItems, textItems,
    List.splitOn_append_cons_self_of_not_mem h, List.splitOn_eq_singleton h,
    ← List.singleton_append, List.filter_append, List.map_append]

/-- Up to a bracket, the items are those between commas. -/
theorem traceItems_append {rest : List Char} (hrest : Ends rest) (depth : ℕ) :
    ∀ {s item : List Char}, '[' ∉ s → ']' ∉ s → ',' ∉ item →
      traceItems depth item (s ++ rest) =
        textItems depth (item ++ s) ++ traceItems depth [] rest
  | [], item, _, _, hitem => by
    rw [List.nil_append, List.append_nil, textItems_of_notMem hitem, traceItems_of_ends hrest]
  | c :: s, item, ho, hc, hitem => by
    obtain ⟨hco, hos⟩ := not_or.mp (List.mem_cons.not.mp ho)
    obtain ⟨hcc, hcs⟩ := not_or.mp (List.mem_cons.not.mp hc)
    rw [List.cons_append, traceItems, if_neg (Ne.symm hco), if_neg (Ne.symm hcc)]
    by_cases hcomma : c = ','
    · subst hcomma
      rw [if_pos rfl, traceItems_append hrest depth hos hcs (by simp), textItems_append_comma hitem,
        List.nil_append, List.append_assoc]
    · have hitem' : ',' ∉ item ++ [c] := by simp [hitem, Ne.symm hcomma]
      rw [if_neg hcomma, traceItems_append hrest depth hos hcs hitem', List.append_assoc,
        List.singleton_append]

/-- The items of a trace are those of its tree. -/
theorem traceItems_render : ∀ {t : Nest Char}, t.Plain '[' ']' → ∀ (depth : ℕ) {rest : List Char},
    Ends rest → traceItems depth [] (t.render '[' ']' ++ rest) =
      treeItems depth t ++ traceItems depth [] rest
  | .text s, h, depth, rest, hrest => by
    rw [Nest.render, traceItems_append hrest depth h.1 h.2 (by simp), List.nil_append, treeItems]
  | .list before inner after, ⟨hbefore, hinner, hafter⟩, depth, rest, hrest => by
    have hopen : ∀ s, traceItems depth [] ('[' :: s) = traceItems (depth + 1) [] s := fun s => by
      simp [traceItems, flush]
    have hclose : ∀ s, traceItems (depth + 1) [] (']' :: s) = traceItems depth [] s := fun s => by
      simp [traceItems, flush]
    rw [Nest.render, List.append_assoc, List.cons_append, List.append_assoc, List.cons_append,
      traceItems_append (.inr ⟨_, .inl rfl⟩) depth hbefore.1 hbefore.2 (by simp), hopen,
      traceItems_render hinner (depth + 1) (.inr ⟨_, .inr rfl⟩), hclose,
      traceItems_render hafter depth hrest, treeItems]
    simp only [List.nil_append, List.append_assoc]

theorem traceItems_eq_treeItems {t : Nest Char} (h : t.Plain '[' ']') (depth : ℕ) :
    traceItems depth [] (t.render '[' ']') = treeItems depth t := by
  have hitems := traceItems_render h depth (.inl rfl : Ends [])
  simpa [traceItems, flush] using hitems

/-! ### Matching -/

/-- The scan matches every bracket if and only if the text closes the brackets of the stack. -/
theorem scanBraces_matches_iff : ∀ (s : List Char) (i : ℕ) (st : Braces),
    (∃ toret, scanBraces ('[', ']') i s st = .ok ⟨toret, []⟩) ↔
      Closes '[' ']' st.pstack.length s
  | [], i, st => by
    rw [scanBraces, Brackets.closes_nil, List.length_eq_zero_iff]
    constructor
    · rintro ⟨toret, h⟩
      cases h
      rfl
    · intro h
      exact ⟨st.toret, by rw [← h]⟩
  | c :: s, i, st => by
    rw [scanBraces]
    by_cases hco : c = '['
    · subst hco
      rw [if_pos rfl, scanBraces_matches_iff, Brackets.closes_open (by decide)]
      rfl
    · by_cases hcc : c = ']'
      · subst hcc
        rw [if_neg hco, if_pos rfl, Brackets.closes_close (by decide)]
        rcases hstack : st.pstack with _ | ⟨j, pstack⟩
        · simp
        · simp only [scanBraces_matches_iff, List.length_cons, Nat.add_right_cancel_iff,
            exists_eq_left']
      · rw [if_neg hco, if_neg hcc, scanBraces_matches_iff, Brackets.closes_other hco hcc]

/-- An error with the class `IndexError`. -/
def TraceError.IsIndexError : TraceError → Prop
  | .noLocation _ => False
  | _ => True

theorem findBrace_ok_iff (s : List Char) :
    (∃ toret, findBrace s ('[', ']') = .ok toret) ↔ Balanced '[' ']' s := by
  have hscan := scanBraces_matches_iff s 0 ⟨.empty, []⟩
  rw [Brackets.balanced_iff_closes]
  refine Iff.trans ?_ hscan
  rw [findBrace]
  rcases scanBraces ('[', ']') 0 s ⟨.empty, []⟩ with e | ⟨toret, pstack⟩
  · simp
  · rcases pstack with _ | ⟨j, pstack⟩ <;> simp

theorem scanBraces_error : ∀ (s : List Char) (i : ℕ) {st : Braces} {e : TraceError},
    scanBraces ('[', ']') i s st = .error e → e.IsIndexError
  | [], _, _, _, h => by cases h
  | c :: s, i, st, e, h => by
    rw [scanBraces] at h
    split at h
    · exact scanBraces_error s (i + 1) h
    · split at h
      · split at h
        · cases h
          trivial
        · exact scanBraces_error s (i + 1) h
      · exact scanBraces_error s (i + 1) h

/-- The matching raises an `IndexError` exactly when the brackets are not balanced. -/
theorem findBrace_error_iff (s : List Char) :
    (∃ e, findBrace s ('[', ']') = .error e ∧ e.IsIndexError) ↔ ¬ Balanced '[' ']' s := by
  rw [← findBrace_ok_iff]
  constructor
  · rintro ⟨e, herror, -⟩ ⟨toret, hok⟩
    rw [herror] at hok
    cases hok
  · intro hnot
    rcases hfind : findBrace s ('[', ']') with e | toret
    · refine ⟨e, rfl, ?_⟩
      rw [findBrace] at hfind
      split at hfind
      · next hscan =>
        cases hfind
        exact scanBraces_error s 0 hscan
      · split at hfind
        · cases hfind
        · cases hfind
          trivial
    · exact absurd ⟨toret, hfind⟩ hnot

/-- The lists of a tree from a position are located. -/
def Located (toret : Py.Dict ℕ ℕ) (i : ℕ) : Nest Char → Prop
  | .text _ => True
  | .list before inner after =>
    toret.get? (i + before.length) =
        some (i + before.length + 1 + (inner.render '[' ']').length) ∧
      Located toret (i + before.length + 1 + (inner.render '[' ']').length + 1) after

theorem scanBraces_plain : ∀ {b : List Char}, '[' ∉ b → ']' ∉ b → ∀ (i : ℕ) (rest : List Char)
    (st : Braces), scanBraces ('[', ']') i (b ++ rest) st =
      scanBraces ('[', ']') (i + b.length) rest st
  | [], _, _, _, _, _ => rfl
  | c :: b, ho, hc, i, rest, st => by
    obtain ⟨hco, ho⟩ := not_or.mp (List.mem_cons.not.mp ho)
    obtain ⟨hcc, hc⟩ := not_or.mp (List.mem_cons.not.mp hc)
    rw [List.cons_append, scanBraces, if_neg (Ne.symm hco), if_neg (Ne.symm hcc),
      scanBraces_plain ho hc, List.length_cons, Nat.add_right_comm, Nat.add_assoc]

/-- Over a tree, the scan locates its lists and changes nothing outside. -/
theorem scanBraces_render : ∀ {t : Nest Char}, t.Plain '[' ']' → ∀ (i : ℕ) (rest : List Char)
    (st : Braces), ∃ toret, scanBraces ('[', ']') i (t.render '[' ']' ++ rest) st =
        scanBraces ('[', ']') (i + (t.render '[' ']').length) rest ⟨toret, st.pstack⟩ ∧
      (∀ k, k < i → toret.get? k = st.toret.get? k) ∧ Located toret i t
  | .text b, h, i, rest, st =>
    ⟨st.toret, scanBraces_plain h.1 h.2 i rest st, fun _ _ => rfl, trivial⟩
  | .list before inner after, ⟨hbefore, hinner, hafter⟩, i, rest, st => by
    let p := i + before.length
    let q := p + 1 + (inner.render '[' ']').length
    obtain ⟨toret₁, hscan₁, hkeep₁, -⟩ := scanBraces_render hinner (p + 1)
      (']' :: (after.render '[' ']' ++ rest)) ⟨st.toret, p :: st.pstack⟩
    obtain ⟨toret₂, hscan₂, hkeep₂, hlocated⟩ :=
      scanBraces_render hafter (q + 1) rest ⟨toret₁.set p q, st.pstack⟩
    refine ⟨toret₂, ?_, fun k hk => ?_, ?_, hlocated⟩
    · have hopen : scanBraces ('[', ']') p
          ('[' :: (inner.render '[' ']' ++ ']' :: (after.render '[' ']' ++ rest))) st =
          scanBraces ('[', ']') (p + 1) (inner.render '[' ']' ++
            ']' :: (after.render '[' ']' ++ rest)) ⟨st.toret, p :: st.pstack⟩ := rfl
      have hclose : scanBraces ('[', ']') q (']' :: (after.render '[' ']' ++ rest))
          ⟨toret₁, p :: st.pstack⟩ =
          scanBraces ('[', ']') (q + 1) (after.render '[' ']' ++ rest)
            ⟨toret₁.set p q, st.pstack⟩ := rfl
      have hlength : i + ((Nest.list before inner after).render '[' ']').length =
          q + 1 + (after.render '[' ']').length := by
        simp only [Nest.render, List.length_append, List.length_cons, q, p]
        omega
      rw [hlength, ← hscan₂, ← hclose, ← hscan₁, ← hopen]
      simp only [Nest.render, List.append_assoc, List.cons_append]
      exact scanBraces_plain hbefore.1 hbefore.2 i _ st
    · have hkp : k ≠ p := by omega
      rw [hkeep₂ k (by omega), Py.Dict.get?_set_ne _ hkp, hkeep₁ k (by omega)]
    · rw [hkeep₂ p (by omega), Py.Dict.get?_set_self]

theorem findBrace_render {t : Nest Char} (h : t.Plain '[' ']') :
    ∃ toret, findBrace (t.render '[' ']') ('[', ']') = .ok toret ∧ Located toret 0 t := by
  obtain ⟨toret, hscan, -, hlocated⟩ := scanBraces_render h 0 [] ⟨.empty, []⟩
  rw [List.append_nil] at hscan
  exact ⟨toret, by rw [findBrace, hscan]; rfl, hlocated⟩

end Chipscopy.Pcie
