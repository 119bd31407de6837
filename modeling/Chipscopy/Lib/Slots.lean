import Mathlib

/-! Lists filled slot by slot

    A value for a slot replaces the one that is there. A value for a slot behind the end is inserted
    at it, which makes it the last of the list, wherever the slot is. A range of slots is filled in
    some order exactly if the slots that the list does not have yet come in their own order. -/

namespace Slots

variable {α : Type*}

/-- Length of a list after a value for slot `k`. -/
def grow (len k : ℕ) : ℕ := if k < len then len else len + 1

/-- `l[k] = a` in the list, `l.insert(k, a)` behind its end. -/
def store (l : List α) (k : ℕ) (a : α) : List α :=
  if k < l.length then l.set k a else l.take k ++ a :: l.drop k

/-- Values for slots, one after the other. -/
def fill (f : ℕ → α) (l : List α) (order : List ℕ) : List α :=
  order.foldl (fun l k => store l k (f k)) l

/-- No slot is skipped. -/
def InOrder : ℕ → List ℕ → Prop
  | _, [] => True
  | len, k :: ks => k ≤ len ∧ InOrder (grow len k) ks

section

variable {f : ℕ → α} {l : List α} {a b : α} {i k len n : ℕ} {order : List ℕ}

@[simp] theorem length_store : (store l k a).length = grow l.length k := by
  rw [store, grow]
  split
  · rw [List.length_set]
  · rw [List.length_append, List.length_cons, List.length_take, List.length_drop]
    omega

theorem getElem?_store_self (h : k ≤ l.length) : (store l k a)[k]? = some a := by
  rw [store]
  split
  · next hk => rw [List.getElem?_set_self hk]
  · rw [List.getElem?_append_right (by rw [List.length_take]; omega), List.length_take,
      Nat.min_eq_left h, Nat.sub_self, List.getElem?_cons_zero]

/-- Another value for the slot. -/
theorem set_store (h : k ≤ l.length) : (store l k a).set k b = store l k b := by
  rw [store, store]
  split
  · rw [List.set_set]
  · have hk : (l.take k).length = k := by rw [List.length_take, Nat.min_eq_left h]
    rw [List.set_append_right _ _ hk.le, hk, Nat.sub_self, List.set_cons_zero]

theorem getElem?_store_ne (hne : i ≠ k) (h : l[i]? = some b) : (store l k a)[i]? = some b := by
  have hi : i < l.length := (List.getElem?_eq_some_iff.mp h).1
  rw [store]
  split
  · rwa [List.getElem?_set_ne hne.symm]
  · next hk =>
    rwa [List.take_of_length_le (by omega), List.getElem?_append_left hi]

@[simp] theorem fill_nil : fill f l [] = l := rfl

@[simp] theorem fill_cons : fill f l (k :: order) = fill f (store l k (f k)) order := rfl

theorem length_fill (f : ℕ → α) (l : List α) (order : List ℕ) :
    (fill f l order).length = order.foldl grow l.length := by
  induction order generalizing l with
  | nil => rfl
  | cons k order ih => rw [fill_cons, ih, length_store, List.foldl_cons]

/-- A slot keeps its value, and every slot of the order has its own at the end. -/
theorem getElem?_fill (h : InOrder l.length order) (hi : i ∈ order ∨ l[i]? = some (f i)) :
    (fill f l order)[i]? = some (f i) := by
  induction order generalizing l with
  | nil =>
    rcases hi with hi | hi
    · cases hi
    · exact hi
  | cons k order ih =>
    obtain ⟨hk, hrest⟩ := h
    rw [fill_cons]
    refine ih (by rwa [length_store]) ?_
    by_cases hik : i = k
    · subst hik
      exact .inr (getElem?_store_self hk)
    · rcases hi with hi | hi
      · exact .inl ((List.mem_cons.mp hi).resolve_left hik)
      · exact .inr (getElem?_store_ne hik hi)

/-! ### Orders of a range of slots -/

/-- The slots from `len` on that are still to come are those below `n`, each once. -/
structure Remaining (n len : ℕ) (order : List ℕ) : Prop where
  nodup : order.Nodup
  mem_iff : ∀ k, len ≤ k → (k ∈ order ↔ k < n)

theorem remaining_of_perm (h : order.Perm (List.range n)) (len : ℕ) : Remaining n len order where
  nodup := h.nodup_iff.mpr List.nodup_range
  mem_iff := fun k _ => by rw [h.mem_iff, List.mem_range]

theorem Remaining.tail (h : Remaining n len (k :: order)) (hk : k ≤ len) :
    Remaining n (grow len k) order where
  nodup := h.nodup.of_cons
  mem_iff := by
    intro j hj
    have hne : j ≠ k := by
      rw [grow] at hj
      split at hj <;> omega
    have hlen : len ≤ j := by
      rw [grow] at hj
      split at hj <;> omega
    rw [← h.mem_iff j hlen, List.mem_cons, or_iff_right hne]

/-- A slot further on comes first only if the next one comes later. -/
theorem Remaining.skipped (h : Remaining n len (k :: order)) (hk : len < k) :
    len ∈ order ∧ len < n := by
  have hkn : k < n := (h.mem_iff k hk.le).mp List.mem_cons_self
  have hlen : len ∈ k :: order := (h.mem_iff len le_rfl).mpr (hk.trans hkn)
  exact ⟨(List.mem_cons.mp hlen).resolve_left hk.ne, hk.trans hkn⟩

theorem inOrder_iff (h : Remaining n len order) :
    InOrder len order ↔ (order.filter (len ≤ ·)).Pairwise (· < ·) := by
  induction order generalizing len with
  | nil => simp [InOrder]
  | cons k order ih =>
    rw [InOrder]
    rcases lt_trichotomy k len with hk | rfl | hk
    · have hrest := ih (h.tail hk.le)
      rw [grow, if_pos hk] at hrest ⊢
      rw [List.filter_cons_of_neg (by simpa using hk), hrest, and_iff_right hk.le]
    · have hrest := ih (h.tail le_rfl)
      have hnot : k ∉ order := (List.nodup_cons.mp h.nodup).1
      have hfilter : order.filter (grow k k ≤ ·) = order.filter (k ≤ ·) := by
        refine List.filter_congr fun j hj => ?_
        have hjk : j ≠ k := fun heq => hnot (heq ▸ hj)
        have hiff : grow k k ≤ j ↔ k ≤ j := by
          rw [grow, if_neg (lt_irrefl k)]
          omega
        simp [hiff]
      rw [hrest, hfilter, List.filter_cons_of_pos (by simp), List.pairwise_cons,
        and_iff_right le_rfl, and_iff_right]
      intro j hj
      obtain ⟨hmem, hle⟩ := List.mem_filter.mp hj
      have hjk : j ≠ k := fun heq => hnot (heq ▸ hmem)
      have hle : k ≤ j := by simpa using hle
      omega
    · -- Slot `len` comes later, and stands behind `k` in the order.
      refine iff_of_false (fun hin => absurd hin.1 (not_le.mpr hk)) fun hpairwise => ?_
      rw [List.filter_cons_of_pos (by simpa using hk.le)] at hpairwise
      have hlen : len ∈ order.filter (len ≤ ·) :=
        List.mem_filter.mpr ⟨(h.skipped hk).1, by simp⟩
      exact absurd ((List.pairwise_cons.mp hpairwise).1 len hlen) (not_lt.mpr hk.le)

theorem foldl_grow_le (order : List ℕ) (len : ℕ) :
    order.foldl grow len ≤ len + order.countP (len ≤ ·) := by
  induction order generalizing len with
  | nil => simp
  | cons k order ih =>
    rw [List.foldl_cons]
    by_cases hk : k < len
    · rw [grow, if_pos hk, List.countP_cons_of_neg (by simpa using hk)]
      exact ih len
    · have hmono : order.countP (len + 1 ≤ ·) ≤ order.countP (len ≤ ·) := by
        refine List.countP_mono_left fun j _ hj => ?_
        simp only [decide_eq_true_eq] at hj ⊢
        omega
      have hrest := ih (len + 1)
      rw [grow, if_neg hk, List.countP_cons_of_pos (by simpa using hk)]
      omega

/-- A list with all slots at the end was filled in order. -/
theorem inOrder_of_length (h : Remaining n len order) (hn : n ≤ order.foldl grow len) :
    InOrder len order := by
  induction order generalizing len with
  | nil => trivial
  | cons k order ih =>
    rw [List.foldl_cons] at hn
    by_cases hk : k ≤ len
    · exact ⟨hk, ih (h.tail hk) hn⟩
    · -- Two slots from `len` on are passed by one step of the length.
      have hk : len < k := not_le.mp hk
      have hkn : k < n := (h.mem_iff k hk.le).mp List.mem_cons_self
      obtain ⟨hnot, hnodup⟩ := List.nodup_cons.mp h.nodup
      have hle := foldl_grow_le order (len + 1)
      have hsub : (order.filter (len + 1 ≤ ·)).toFinset ⊆ (Finset.Ico (len + 1) n).erase k := by
        intro j hj
        obtain ⟨hmem, hlt⟩ := List.mem_filter.mp (List.mem_toFinset.mp hj)
        have hlt : len + 1 ≤ j := by simpa using hlt
        refine Finset.mem_erase.mpr ⟨fun heq => hnot (heq ▸ hmem), Finset.mem_Ico.mpr ⟨hlt, ?_⟩⟩
        exact (h.mem_iff j (by omega)).mp (List.mem_cons_of_mem _ hmem)
      have hcard := Finset.card_le_card hsub
      rw [List.toFinset_card_of_nodup (hnodup.filter _), ← List.countP_eq_length_filter,
        Finset.card_erase_of_mem (Finset.mem_Ico.mpr ⟨by omega, hkn⟩), Nat.card_Ico] at hcard
      rw [grow, if_neg (by omega)] at hn
      omega

end

end Slots
