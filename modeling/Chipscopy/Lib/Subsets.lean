import Mathlib

/-! Sets of list items as numbers

    An item of a list has the bit of its position, and a set of items the or of their bits. Items
    that are picked by the bits of a number form a sublist, and where the items are the front of the
    list, sublists and the numbers below a power of two correspond to each other. -/

namespace Subsets

variable {α : Type*} [DecidableEq α] {l known A B : List α} {a b : α} {c p : ℕ}

/-- Or of the bits of the items. -/
def mask (l A : List α) : ℕ := A.foldl (fun n a => n ||| 1 <<< l.idxOf a) 0

/-- The items whose bits are set. -/
def pick (l known : List α) (c : ℕ) : List α := known.filter fun a => c.testBit (l.idxOf a)

theorem testBit_foldl_or (l : List α) (p : ℕ) : ∀ (A : List α) (n : ℕ),
    (A.foldl (fun n a => n ||| 1 <<< l.idxOf a) n).testBit p ↔
      n.testBit p ∨ ∃ a ∈ A, l.idxOf a = p
  | [], n => by simp
  | a :: A, n => by
    rw [List.foldl_cons, testBit_foldl_or l p A, Nat.testBit_or, Nat.one_shiftLeft,
      Nat.testBit_two_pow]
    simp [or_assoc]

theorem testBit_mask : (mask l A).testBit p ↔ ∃ a ∈ A, l.idxOf a = p := by
  rw [mask, testBit_foldl_or]
  simp

@[simp] theorem mask_nil : mask l [] = 0 := rfl

@[simp] theorem mask_singleton : mask l [a] = 1 <<< l.idxOf a := Nat.zero_or _

theorem mask_eq_zero_iff : mask l A = 0 ↔ A = [] := by
  constructor
  · intro h
    cases A with
    | nil => rfl
    | cons a A =>
      have hbit : (mask l (a :: A)).testBit (l.idxOf a) :=
        testBit_mask.mpr ⟨a, List.mem_cons_self, rfl⟩
      rw [h, Nat.zero_testBit] at hbit
      cases hbit
  · rintro rfl
    rfl

/-- More items, a larger number. -/
theorem mask_le_of_subset (h : A ⊆ B) : mask l A ≤ mask l B := by
  have hor : mask l A ||| mask l B = mask l B := by
    refine Nat.eq_of_testBit_eq fun p => Bool.eq_iff_iff.mpr ?_
    rw [Nat.testBit_or, Bool.or_eq_true, testBit_mask, testBit_mask]
    refine or_iff_right_of_imp ?_
    rintro ⟨a, ha, hp⟩
    exact ⟨a, h ha, hp⟩
  rw [← hor]
  exact Nat.left_le_or

theorem mask_lt (h : ∀ a ∈ A, l.idxOf a < p) : mask l A < 2 ^ p := by
  refine Nat.lt_pow_two_of_testBit _ fun i hi => ?_
  by_contra hbit
  obtain ⟨a, ha, rfl⟩ := testBit_mask.mp (Bool.not_eq_false _ ▸ hbit)
  exact absurd (h a ha) (by omega)

theorem pick_sublist : (pick l known c).Sublist known := List.filter_sublist

theorem mem_pick : a ∈ pick l known c ↔ a ∈ known ∧ c.testBit (l.idxOf a) := List.mem_filter

/-- Items of a list without repetition, in their order. -/
theorem filter_mem_eq (hnodup : known.Nodup) (h : A.Sublist known) :
    known.filter (· ∈ A) = A := by
  have hsub : A.Sublist (known.filter (· ∈ A)) := by
    have hfilter := h.filter (· ∈ A)
    rwa [List.filter_eq_self.mpr fun a ha => decide_eq_true ha] at hfilter
  refine (hsub.eq_of_length_le (List.Subperm.length_le ?_)).symm
  exact (hnodup.filter _).subperm fun a ha => of_decide_eq_true (List.mem_filter.mp ha).2

/-- A set of items is picked by its number. -/
theorem pick_mask (hknown : known ⊆ l) (hnodup : known.Nodup) (h : A.Sublist known) :
    pick l known (mask l A) = A := by
  rw [← filter_mem_eq hnodup h, pick]
  refine List.filter_congr fun a ha => ?_
  rw [filter_mem_eq hnodup h]
  refine Bool.eq_iff_iff.mpr (testBit_mask.trans ?_)
  rw [decide_eq_true_iff]
  constructor
  · rintro ⟨b, hb, hidx⟩
    exact (List.idxOf_inj (hknown (h.subset hb))).mp hidx ▸ hb
  · exact fun ha => ⟨a, ha, rfl⟩

theorem mask_inj (hknown : known ⊆ l) (hnodup : known.Nodup) (hA : A.Sublist known)
    (hB : B.Sublist known) (h : mask l A = mask l B) : A = B := by
  rw [← pick_mask hknown hnodup hA, h, pick_mask hknown hnodup hB]

section Front

variable (hfront : known <+: l)

include hfront

theorem idxOf_of_front (ha : a ∈ known) : l.idxOf a = known.idxOf a := by
  obtain ⟨rest, rfl⟩ := hfront
  rw [List.idxOf_append, if_pos ha]

theorem idxOf_lt_of_front (ha : a ∈ known) : l.idxOf a < known.length := by
  rw [idxOf_of_front hfront ha]
  exact List.idxOf_lt_length_of_mem ha

/-- A number is that of the items it picks from the front of a list. -/
theorem mask_pick (hnodup : known.Nodup) (hc : c < 2 ^ known.length) :
    mask l (pick l known c) = c := by
  refine Nat.eq_of_testBit_eq fun p => Bool.eq_iff_iff.mpr (testBit_mask.trans ?_)
  constructor
  · rintro ⟨a, ha, rfl⟩
    exact (mem_pick.mp ha).2
  · intro hbit
    have hp : p < known.length := by
      by_contra hp
      rw [Nat.testBit_lt_two_pow (hc.trans_le (Nat.pow_le_pow_right (by decide) (by omega)))] at hbit
      cases hbit
    have hmem : known[p] ∈ known := List.getElem_mem hp
    have hidx : l.idxOf known[p] = p := by
      rw [idxOf_of_front hfront hmem, hnodup.idxOf_getElem]
    exact ⟨known[p], mem_pick.mpr ⟨hmem, hidx ▸ hbit⟩, hidx⟩

end Front

/-- Items that stand at the first positions only are the front of the list. -/
theorem front_of_idxOf_lt (hl : l.Nodup) (hknown : known.Sublist l)
    (h : ∀ a ∈ known, l.idxOf a < known.length) : known <+: l := by
  have hsub : known ⊆ l.take known.length := by
    intro a ha
    have hidx := List.idxOf_lt_length_of_mem (hknown.subset ha)
    have hget : l[l.idxOf a] = a := List.getElem_idxOf hidx
    exact List.mem_take_iff_getElem.mpr ⟨l.idxOf a, lt_min (h a ha) hidx, hget⟩
  have hperm : known.Perm (l.take known.length) :=
    ((hknown.nodup hl).subperm hsub).perm_of_length_le (List.length_take_le _ _)
  have heq : known = l.take known.length :=
    calc known = l.filter (· ∈ known) := (filter_mem_eq hl hknown).symm
      _ = l.filter (· ∈ l.take known.length) :=
        List.filter_congr fun a _ => decide_eq_decide.mpr hperm.mem_iff
      _ = l.take known.length := filter_mem_eq hl (List.take_sublist _ _)
  rw [heq]
  exact List.take_prefix _ _

end Subsets
