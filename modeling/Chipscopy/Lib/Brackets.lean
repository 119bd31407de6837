import Mathlib

/-! Brackets

    A text is balanced if no part from its start closes more brackets than it opens and all of it
    closes as many as it opens. The balanced texts are those of trees: a text without brackets, or
    such a text, a list in brackets, and a tree again. -/

namespace Brackets

variable {α : Type*} [DecidableEq α] {o c : α}

/-- Every part from the start closes at most `n` more than it opens, and all of it `n` more. -/
def Closes (o c : α) (n : ℕ) (s : List α) : Prop :=
  (∀ p, p <+: s → p.count c ≤ p.count o + n) ∧ s.count c = s.count o + n

def Balanced (o c : α) (s : List α) : Prop :=
  (∀ p, p <+: s → p.count c ≤ p.count o) ∧ s.count c = s.count o

/-- No part from the start opens more than `n` more than it closes. -/
def DepthAtMost (o c : α) (n : ℕ) (s : List α) : Prop := ∀ p, p <+: s → p.count o ≤ p.count c + n

theorem balanced_iff_closes {s : List α} : Balanced o c s ↔ Closes o c 0 s := Iff.rfl

omit [DecidableEq α] in
theorem forall_prefix_cons {P : List α → Prop} {x : α} {s : List α} :
    (∀ p, p <+: x :: s → P p) ↔ P [] ∧ ∀ p, p <+: s → P (x :: p) := by
  constructor
  · intro h
    exact ⟨h [] List.nil_prefix, fun p hp => h _ (List.cons_prefix_cons.mpr ⟨rfl, hp⟩)⟩
  · rintro ⟨hnil, hcons⟩ p hp
    rcases List.prefix_cons_iff.mp hp with rfl | ⟨t, rfl, ht⟩
    · exact hnil
    · exact hcons t ht

theorem closes_nil {n : ℕ} : Closes o c n [] ↔ n = 0 := by
  simp [Closes, eq_comm]

theorem closes_open (hne : o ≠ c) {n : ℕ} {s : List α} :
    Closes o c n (o :: s) ↔ Closes o c (n + 1) s := by
  rw [Closes, forall_prefix_cons, Closes]
  simp only [List.count_nil, List.count_cons_self, List.count_cons_of_ne hne, Nat.zero_le, true_and]
  refine and_congr (forall₂_congr fun p _ => ?_) ?_ <;> omega

theorem closes_close (hne : o ≠ c) {n : ℕ} {s : List α} :
    Closes o c n (c :: s) ↔ ∃ m, n = m + 1 ∧ Closes o c m s := by
  rw [Closes, forall_prefix_cons]
  simp only [List.count_nil, List.count_cons_self, List.count_cons_of_ne hne.symm, Nat.zero_le,
    true_and]
  constructor
  · rintro ⟨hparts, hall⟩
    have hfirst : 1 ≤ n := by simpa using hparts [] List.nil_prefix
    refine ⟨n - 1, by omega, fun p hp => ?_, by omega⟩
    have := hparts p hp
    omega
  · rintro ⟨m, rfl, hparts, hall⟩
    refine ⟨fun p hp => ?_, by omega⟩
    have := hparts p hp
    omega

theorem closes_other {x : α} (hxo : x ≠ o) (hxc : x ≠ c) {n : ℕ} {s : List α} :
    Closes o c n (x :: s) ↔ Closes o c n s := by
  rw [Closes, forall_prefix_cons, Closes]
  simp only [List.count_nil, List.count_cons_of_ne hxo, List.count_cons_of_ne hxc, Nat.zero_le,
    true_and]

theorem depthAtMost_nil {n : ℕ} : DepthAtMost o c n [] := by
  intro p hp
  simp [List.prefix_nil.mp hp]

theorem depthAtMost_open (hne : o ≠ c) {n : ℕ} {s : List α} :
    DepthAtMost o c (n + 1) (o :: s) ↔ DepthAtMost o c n s := by
  rw [DepthAtMost, forall_prefix_cons, DepthAtMost]
  simp only [List.count_nil, List.count_cons_self, List.count_cons_of_ne hne, Nat.zero_le, true_and]
  refine forall₂_congr fun p _ => ?_
  omega

theorem not_depthAtMost_open (hne : o ≠ c) {s : List α} : ¬ DepthAtMost o c 0 (o :: s) := by
  intro h
  have := h [o] (List.cons_prefix_cons.mpr ⟨rfl, List.nil_prefix⟩)
  simp [hne] at this

theorem depthAtMost_close (hne : o ≠ c) {n : ℕ} {s : List α} :
    DepthAtMost o c n (c :: s) ↔ DepthAtMost o c (n + 1) s := by
  rw [DepthAtMost, forall_prefix_cons, DepthAtMost]
  simp only [List.count_nil, List.count_cons_self, List.count_cons_of_ne hne.symm, Nat.zero_le,
    true_and]
  refine forall₂_congr fun p _ => ?_
  omega

theorem depthAtMost_plain {n : ℕ} : ∀ {b s : List α}, o ∉ b → c ∉ b →
    (DepthAtMost o c n (b ++ s) ↔ DepthAtMost o c n s)
  | [], _, _, _ => Iff.rfl
  | x :: b, s, ho, hc => by
    obtain ⟨hxo, ho⟩ := not_or.mp (List.mem_cons.not.mp ho)
    obtain ⟨hxc, hc⟩ := not_or.mp (List.mem_cons.not.mp hc)
    rw [List.cons_append, DepthAtMost, forall_prefix_cons]
    simp only [List.count_nil, List.count_cons_of_ne (Ne.symm hxo),
      List.count_cons_of_ne (Ne.symm hxc), Nat.zero_le, true_and]
    exact depthAtMost_plain ho hc

/-! ### Trees -/

/-- A text without brackets, or such a text with a list and a tree after it. -/
inductive Nest (α : Type*)
  | text (s : List α)
  | list (before : List α) (inner after : Nest α)

namespace Nest

def render (o c : α) : Nest α → List α
  | text s => s
  | list before inner after => before ++ o :: (inner.render o c ++ c :: after.render o c)

/-- The texts of the tree have no brackets. -/
def Plain (o c : α) : Nest α → Prop
  | text s => o ∉ s ∧ c ∉ s
  | list before inner after => (o ∉ before ∧ c ∉ before) ∧ inner.Plain o c ∧ after.Plain o c

/-- How many lists are around one place at most. -/
def depth : Nest α → ℕ
  | text _ => 0
  | list _ inner after => max (inner.depth + 1) after.depth

/-- A character before the first list. -/
def cons (x : α) : Nest α → Nest α
  | text s => text (x :: s)
  | list before inner after => list (x :: before) inner after

omit [DecidableEq α] in
theorem render_cons (x : α) (t : Nest α) : (t.cons x).render o c = x :: t.render o c := by
  cases t with
  | text s => rfl
  | list before inner after => rfl

omit [DecidableEq α] in
theorem Plain.cons {x : α} (hxo : x ≠ o) (hxc : x ≠ c) {t : Nest α} (h : t.Plain o c) :
    (t.cons x).Plain o c := by
  cases t with
  | text s => simpa [Nest.cons, Plain, hxo.symm, hxc.symm] using h
  | list before inner after => simpa [Nest.cons, Plain, hxo.symm, hxc.symm] using h

/-- Depth is what a counter of open brackets reaches. -/
theorem depthAtMost_render_append (hne : o ≠ c) : ∀ {t : Nest α}, t.Plain o c →
    ∀ {n : ℕ} {s : List α},
      DepthAtMost o c n (t.render o c ++ s) ↔ t.depth ≤ n ∧ DepthAtMost o c n s
  | text b, h, n, s => by
    rw [render, depthAtMost_plain h.1 h.2, depth]
    simp
  | list before inner after, ⟨hbefore, hinner, hafter⟩, n, s => by
    rw [render, List.append_assoc, depthAtMost_plain hbefore.1 hbefore.2, List.cons_append,
      List.append_assoc, List.cons_append, depth]
    cases n with
    | zero =>
      refine iff_of_false (not_depthAtMost_open hne) ?_
      rintro ⟨hdepth, -⟩
      omega
    | succ n =>
      rw [depthAtMost_open hne, depthAtMost_render_append hne hinner, depthAtMost_close hne,
        depthAtMost_render_append hne hafter, max_le_iff, and_assoc, Nat.add_le_add_iff_right]

theorem depthAtMost_render (hne : o ≠ c) {t : Nest α} (h : t.Plain o c) {n : ℕ} :
    DepthAtMost o c n (t.render o c) ↔ t.depth ≤ n := by
  have happend := depthAtMost_render_append hne h (n := n) (s := [])
  rw [List.append_nil] at happend
  rw [happend, and_iff_left depthAtMost_nil]

end Nest

/-- What closes `n` brackets is a tree, followed by the first of them and what closes the rest. -/
theorem Closes.split (hne : o ≠ c) (s : List α) {n : ℕ} (h : Closes o c n s) :
    (n = 0 → ∃ t : Nest α, t.Plain o c ∧ t.render o c = s) ∧
      ∀ m, n = m + 1 → ∃ (t : Nest α) (rest : List α), t.Plain o c ∧
        s = t.render o c ++ c :: rest ∧ Closes o c m rest := by
  induction hlen : s.length using Nat.strong_induction_on generalizing s n with
  | _ k ih =>
    subst hlen
    rcases s with _ | ⟨x, s⟩
    · obtain rfl := closes_nil.mp h
      exact ⟨fun _ => ⟨.text [], by simp [Nest.Plain], rfl⟩, fun m hm => by omega⟩
    · have hs : s.length < (x :: s).length := Nat.lt_succ_self _
      by_cases hxo : x = o
      · -- the list that opens here, and the tree after it
        subst hxo
        obtain ⟨inner, rest, hinner, rfl, hrest⟩ :=
          (ih _ hs s ((closes_open hne).mp h) rfl).2 n rfl
        have hlen : rest.length < (x :: (inner.render x c ++ c :: rest)).length := by
          simp only [List.length_cons, List.length_append]
          omega
        obtain ⟨hzero, hsucc⟩ := ih _ hlen rest hrest rfl
        constructor
        · intro hn
          obtain ⟨after, hafter, rfl⟩ := hzero hn
          exact ⟨.list [] inner after, ⟨by simp, hinner, hafter⟩, rfl⟩
        · intro m hm
          obtain ⟨after, rest', hafter, rfl, hrest'⟩ := hsucc m hm
          refine ⟨.list [] inner after, rest', ⟨by simp, hinner, hafter⟩, ?_, hrest'⟩
          simp [Nest.render]
      · by_cases hxc : x = c
        · subst hxc
          obtain ⟨m, rfl, hrest⟩ := (closes_close hne).mp h
          refine ⟨fun hm => by omega, fun m' hm => ?_⟩
          obtain rfl : m = m' := by omega
          exact ⟨.text [], s, by simp [Nest.Plain], rfl, hrest⟩
        · obtain ⟨hzero, hsucc⟩ := ih _ hs s ((closes_other hxo hxc).mp h) rfl
          constructor
          · intro hn
            obtain ⟨t, ht, rfl⟩ := hzero hn
            exact ⟨t.cons x, ht.cons hxo hxc, Nest.render_cons x t⟩
          · intro m hm
            obtain ⟨t, rest, ht, rfl, hrest⟩ := hsucc m hm
            refine ⟨t.cons x, rest, ht.cons hxo hxc, ?_, hrest⟩
            rw [Nest.render_cons, List.cons_append]

/-- A balanced text is that of a tree. -/
theorem Balanced.exists_nest (hne : o ≠ c) {s : List α} (h : Balanced o c s) :
    ∃ t : Nest α, t.Plain o c ∧ t.render o c = s :=
  (Closes.split hne s (balanced_iff_closes.mp h)).1 rfl

end Brackets
