import Mathlib

/-! First-fit packing of intervals

    Intervals are put, in the order of their starts, into the first lane whose last interval ended
    before; where there is none, a new lane is opened. Intervals of one lane never meet, and a new
    lane is opened only at a point where every lane is busy, so no packing has fewer lanes. -/

namespace FirstFit

variable {α τ : Type*} [LinearOrder τ] (start finish : α → τ)

/-- The interval covers the point, its ends included. -/
def Active (i : τ) (t : α) : Prop := start t ≤ i ∧ i ≤ finish t

instance (i : τ) : DecidablePred (Active start finish i) := fun _ =>
  inferInstanceAs (Decidable (_ ∧ _))

/-- Put an interval into the first lane that is free at its start; a lane is kept with the end of
    its last interval. -/
def place (t : α) : List (τ × List α) → List (τ × List α)
  | [] => [(finish t, [t])]
  | lane :: lanes =>
    if lane.1 < start t then (finish t, lane.2 ++ [t]) :: lanes else lane :: place t lanes

def pack (ts : List α) : List (τ × List α) :=
  ts.foldl (fun lanes t => place start finish t lanes) []

/-- A lane: its intervals follow each other, and the last of them has the end that is kept. -/
structure IsLane (lane : τ × List α) : Prop where
  last : ∃ t ∈ lane.2, finish t = lane.1
  le_last : ∀ t ∈ lane.2, finish t ≤ lane.1
  apart : lane.2.Pairwise fun t u => finish t < start u

variable {start finish}

theorem isLane_singleton (t : α) : IsLane start finish (finish t, [t]) where
  last := ⟨t, List.mem_singleton_self t, rfl⟩
  le_last u hu := by rw [List.mem_singleton.mp hu]
  apart := List.pairwise_singleton _ _

/-- A lane that is free at the start of an interval takes it. -/
theorem IsLane.append {lane : τ × List α} (h : IsLane start finish lane) {t : α}
    (hfree : lane.1 < start t) (ht : start t ≤ finish t) :
    IsLane start finish (finish t, lane.2 ++ [t]) where
  last := ⟨t, by simp, rfl⟩
  le_last u hu := by
    rcases List.mem_append.mp hu with hu | hu
    · exact (h.le_last u hu).trans (hfree.le.trans ht)
    · rw [List.mem_singleton.mp hu]
  apart := by
    refine List.pairwise_append.mpr ⟨h.apart, List.pairwise_singleton _ _, fun u hu v hv => ?_⟩
    rw [List.mem_singleton.mp hv]
    exact (h.le_last u hu).trans_lt hfree

/-- At most one interval of a lane covers a point. -/
theorem countP_active_le_one {ts : List α} (h : ts.Pairwise fun t u => finish t < start u) (i : τ) :
    ts.countP (fun t => decide (Active start finish i t)) ≤ 1 := by
  induction ts with
  | nil => exact Nat.zero_le 1
  | cons t ts ih =>
    obtain ⟨hfirst, hrest⟩ := List.pairwise_cons.mp h
    rw [List.countP_cons]
    by_cases ht : Active start finish i t
    · have hnone : ts.countP (fun t => decide (Active start finish i t)) = 0 := by
        refine List.countP_eq_zero.mpr fun u hu hactive => ?_
        have hu' : Active start finish i u := of_decide_eq_true hactive
        exact absurd ((hfirst u hu).trans_le hu'.1) (not_lt.mpr ht.2)
      simp [hnone, ht]
    · simpa [ht] using ih hrest

/-! ### Placing one interval -/

theorem place_flatten_perm (t : α) : ∀ lanes : List (τ × List α),
    ((place start finish t lanes).flatMap (·.2)).Perm (lanes.flatMap (·.2) ++ [t])
  | [] => by simp [place]
  | lane :: lanes => by
    rw [place]
    split
    · rw [List.flatMap_cons, List.flatMap_cons, List.append_assoc, List.append_assoc]
      exact List.perm_append_comm.append_left lane.2
    · rw [List.flatMap_cons, List.flatMap_cons, List.append_assoc]
      exact (place_flatten_perm t lanes).append_left lane.2

theorem place_isLane {t : α} (ht : start t ≤ finish t) : ∀ {lanes : List (τ × List α)},
    (∀ lane ∈ lanes, IsLane start finish lane) →
      ∀ lane ∈ place start finish t lanes, IsLane start finish lane
  | [], _, lane, hlane => by
    rw [List.mem_singleton.mp hlane]
    exact isLane_singleton t
  | first :: lanes, h, lane, hlane => by
    obtain ⟨hfirst, hrest⟩ := List.forall_mem_cons.mp h
    rw [place] at hlane
    split at hlane
    · next hfree =>
      rcases List.mem_cons.mp hlane with rfl | hlane
      · exact hfirst.append hfree ht
      · exact hrest lane hlane
    · rcases List.mem_cons.mp hlane with rfl | hlane
      · exact hfirst
      · exact place_isLane ht hrest lane hlane

/-- Either a lane takes the interval or all are busy at its start. -/
theorem length_place (t : α) : ∀ lanes : List (τ × List α),
    (place start finish t lanes).length = lanes.length ∨
      (place start finish t lanes).length = lanes.length + 1 ∧ ∀ lane ∈ lanes, start t ≤ lane.1
  | [] => .inr ⟨rfl, fun _ h => absurd h List.not_mem_nil⟩
  | lane :: lanes => by
    rw [place]
    split
    · exact .inl rfl
    · next hbusy =>
      rcases length_place t lanes with hlen | ⟨hlen, hrest⟩
      · exact .inl (by rw [List.length_cons, List.length_cons, hlen])
      · refine .inr ⟨by rw [List.length_cons, List.length_cons, hlen], ?_⟩
        exact List.forall_mem_cons.mpr ⟨not_lt.mp hbusy, hrest⟩

/-- Lanes that are all busy at a point hold as many intervals that cover it. -/
theorem length_le_countP_active {i : τ} : ∀ {lanes : List (τ × List α)},
    (∀ lane ∈ lanes, ∃ t ∈ lane.2, Active start finish i t) →
      lanes.length ≤ (lanes.flatMap (·.2)).countP fun t => decide (Active start finish i t)
  | [], _ => Nat.zero_le _
  | lane :: lanes, h => by
    obtain ⟨⟨t, ht, hactive⟩, hrest⟩ := List.forall_mem_cons.mp h
    have hone : 0 < lane.2.countP fun t => decide (Active start finish i t) :=
      List.countP_pos_iff.mpr ⟨t, ht, decide_eq_true hactive⟩
    have ih := length_le_countP_active hrest
    rw [List.length_cons, List.flatMap_cons, List.countP_append]
    omega

/-- A point is covered by at most as many intervals as there are lanes. -/
theorem countP_active_le_length (i : τ) : ∀ {lanes : List (τ × List α)},
    (∀ lane ∈ lanes, IsLane start finish lane) →
      (lanes.flatMap (·.2)).countP (fun t => decide (Active start finish i t)) ≤ lanes.length
  | [], _ => Nat.zero_le _
  | lane :: lanes, h => by
    obtain ⟨hlane, hrest⟩ := List.forall_mem_cons.mp h
    have hone := countP_active_le_one hlane.apart i
    have ih := countP_active_le_length i hrest
    rw [List.length_cons, List.flatMap_cons, List.countP_append]
    omega

/-! ### Packing -/

variable (start finish) in
/-- What the lanes are after some intervals: they hold these, and one of them starts where as many
    intervals are active as there are lanes. -/
structure Packs (ts : List α) (lanes : List (τ × List α)) : Prop where
  perm : (lanes.flatMap (·.2)).Perm ts
  isLane : ∀ lane ∈ lanes, IsLane start finish lane
  needed : lanes = [] ∨ ∃ t ∈ ts,
    lanes.length ≤ ts.countP fun u => decide (Active start finish (start t) u)

theorem packs_nil : Packs start finish [] [] :=
  ⟨.refl _, fun _ h => absurd h List.not_mem_nil, .inl rfl⟩

theorem Packs.place {ts : List α} {lanes : List (τ × List α)}
    (h : Packs start finish ts lanes) {t : α} (ht : start t ≤ finish t)
    (hlate : ∀ u ∈ ts, start u ≤ start t) :
    Packs start finish (ts ++ [t]) (place start finish t lanes) where
  perm := (place_flatten_perm t lanes).trans (h.perm.append_right [t])
  isLane := place_isLane ht h.isLane
  needed := by
    have hself : Active start finish (start t) t := ⟨le_rfl, ht⟩
    refine .inr ?_
    rcases @length_place _ _ _ start finish t lanes with hlen | ⟨hlen, hbusy⟩
    · rcases h.needed with rfl | ⟨u, hu, hle⟩
      · cases hlen
      · refine ⟨u, List.mem_append_left _ hu, ?_⟩
        rw [hlen, List.countP_append]
        omega
    · -- every lane is busy at the start of the interval: its last one has not ended
      have hactive : ∀ lane ∈ lanes, ∃ u ∈ lane.2, Active start finish (start t) u := by
        intro lane hlane
        obtain ⟨u, hu, hend⟩ := (h.isLane lane hlane).last
        have hmem : u ∈ ts := h.perm.mem_iff.mp (List.mem_flatMap.mpr ⟨lane, hlane, hu⟩)
        exact ⟨u, hu, hlate u hmem, hend ▸ hbusy lane hlane⟩
      refine ⟨t, List.mem_append_right _ (List.mem_singleton_self t), ?_⟩
      have hcount := length_le_countP_active hactive
      rw [h.perm.countP_eq] at hcount
      rw [hlen, List.countP_append, List.countP_singleton, if_pos (decide_eq_true hself)]
      omega

theorem packs_foldl : ∀ (ts : List α) {before : List α} {lanes : List (τ × List α)},
    (∀ t ∈ ts, start t ≤ finish t) → (before ++ ts).Pairwise (fun t u => start t ≤ start u) →
    Packs start finish before lanes →
      Packs start finish (before ++ ts)
        (ts.foldl (fun lanes t => FirstFit.place start finish t lanes) lanes)
  | [], before, lanes, _, _, h => by rwa [List.append_nil]
  | t :: ts, before, lanes, hproper, hsorted, h => by
    obtain ⟨ht, hproper⟩ := List.forall_mem_cons.mp hproper
    rw [List.append_cons] at hsorted ⊢
    have hlate : ∀ u ∈ before, start u ≤ start t := fun u hu =>
      (List.pairwise_append.mp (List.pairwise_append.mp hsorted).1).2.2 u hu t
        (List.mem_singleton_self t)
    exact packs_foldl ts hproper hsorted (h.place ht hlate)

/-- First fit in the order of the starts. -/
theorem packs_pack {ts : List α} (hproper : ∀ t ∈ ts, start t ≤ finish t)
    (hsorted : ts.Pairwise fun t u => start t ≤ start u) :
    Packs start finish ts (pack start finish ts) :=
  @packs_foldl _ _ _ start finish ts [] [] hproper hsorted packs_nil

/-- There are as many lanes as intervals active at the busiest point. -/
theorem Packs.length_isGreatest {ts : List α} {lanes : List (τ × List α)}
    (h : Packs start finish ts lanes) (hts : ts ≠ []) :
    IsGreatest {k | ∃ t ∈ ts, k = ts.countP fun u => decide (Active start finish (start t) u)}
        lanes.length ∧
      ∀ i, ts.countP (fun u => decide (Active start finish i u)) ≤ lanes.length := by
  have hle : ∀ i, ts.countP (fun u => decide (Active start finish i u)) ≤ lanes.length := by
    intro i
    rw [← h.perm.countP_eq]
    exact countP_active_le_length i h.isLane
  rcases h.needed with rfl | ⟨t, ht, hneeded⟩
  · exact absurd h.perm.symm.eq_nil hts
  refine ⟨⟨⟨t, ht, le_antisymm hneeded (hle _)⟩, ?_⟩, hle⟩
  rintro k ⟨u, -, rfl⟩
  exact hle _

end FirstFit
