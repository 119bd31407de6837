import Chipscopy.Lib.Fuel

/-! Depth-first search

    All branches of a search add to one set of visited nodes, and a node that is in it is not
    searched again. Nodes without successors to follow (`none`) are not part of the graph. Whatever a
    search adds is reached from its node, and has its successors added by the end of the search; so
    a search that starts with no visited nodes visits exactly what can be reached. -/

namespace DepthFirst

variable {α : Type*} [DecidableEq α] (next : α → Option (List α))

/-- The visited nodes after the search of a node. -/
def visit : ℕ → Finset α → α → Option (Finset α)
  | 0, _, _ => none
  | fuel + 1, seen, a =>
    match next a with
    | none => some seen
    | some bs => if a ∈ seen then some seen else bs.foldlM (visit fuel) (insert a seen)

/-- From a node to one of its successors in the graph. -/
def Edge (a b : α) : Prop := ∃ bs, next a = some bs ∧ b ∈ bs ∧ (next b).isSome

abbrev Reachable : α → α → Prop := Relation.ReflTransGen (Edge next)

/-- What the searches of some nodes, one after the other, make of the visited nodes. -/
structure Explores (seen : Finset α) (roots : List α) (after : Finset α) : Prop where
  subset : seen ⊆ after
  visited : ∀ a ∈ roots, (next a).isSome → a ∈ after
  closed : ∀ a ∈ after, a ∉ seen → ∀ b, Edge next a b → b ∈ after
  sound : ∀ b ∈ after, b ∈ seen ∨ ∃ a ∈ roots, (next a).isSome ∧ Reachable next a b

section

variable {next} {seen mid after : Finset α} {a : α} {roots bs : List α}

omit [DecidableEq α] in
theorem Explores.nil : Explores next seen [] seen where
  subset := subset_rfl
  visited := by simp
  closed := fun a ha hnew => absurd ha hnew
  sound := fun b hb => .inl hb

theorem Explores.cons (h : Explores next seen [a] mid) (hrest : Explores next mid roots after) :
    Explores next seen (a :: roots) after where
  subset := h.subset.trans hrest.subset
  visited := by
    intro b hb hnode
    rcases List.mem_cons.mp hb with rfl | hb
    · exact hrest.subset (h.visited _ List.mem_cons_self hnode)
    · exact hrest.visited b hb hnode
  closed := by
    intro c hc hnew b hedge
    by_cases hmid : c ∈ mid
    · exact hrest.subset (h.closed c hmid hnew b hedge)
    · exact hrest.closed c hc hmid b hedge
  sound := by
    intro b hb
    rcases hrest.sound b hb with hmid | ⟨c, hc, hnode, hreach⟩
    · rcases h.sound b hmid with hseen | ⟨c, hc, hnode, hreach⟩
      · exact .inl hseen
      · obtain rfl := List.mem_singleton.mp hc
        exact .inr ⟨c, List.mem_cons_self, hnode, hreach⟩
    · exact .inr ⟨c, List.mem_cons_of_mem _ hc, hnode, hreach⟩

/-- A node is searched by adding it and searching its successors. -/
theorem Explores.node (hnext : next a = some bs) (hnew : a ∉ seen)
    (h : Explores next (insert a seen) bs after) : Explores next seen [a] after where
  subset := (Finset.subset_insert a seen).trans h.subset
  visited := by
    intro b hb _
    obtain rfl := List.mem_singleton.mp hb
    exact h.subset (Finset.mem_insert_self _ seen)
  closed := by
    intro c hc hcnew b hedge
    by_cases hca : c = a
    · subst hca
      obtain ⟨bs', hbs', hmem, hnode⟩ := hedge
      obtain rfl := Option.some.inj (hnext.symm.trans hbs')
      exact h.visited b hmem hnode
    · exact h.closed c hc (by simp [hca, hcnew]) b hedge
  sound := by
    intro b hb
    have hnode : (next a).isSome := by simp [hnext]
    rcases h.sound b hb with hseen | ⟨c, hc, hcnode, hreach⟩
    · rcases Finset.mem_insert.mp hseen with rfl | hseen
      · exact .inr ⟨b, List.mem_singleton_self b, hnode, .refl⟩
      · exact .inl hseen
    · exact .inr ⟨a, List.mem_singleton_self a, hnode, .head ⟨bs, hnext, hc, hcnode⟩ hreach⟩

/-- Searches of the nodes of a list, when every single search explores. -/
theorem foldlM_explores {search : Finset α → α → Option (Finset α)}
    (h : ∀ seen a after, search seen a = some after → Explores next seen [a] after) :
    ∀ {roots : List α} {seen after : Finset α}, roots.foldlM search seen = some after →
      Explores next seen roots after
  | [], seen, after, hrun => by
    obtain rfl := Option.some.inj hrun
    exact .nil
  | a :: roots, seen, after, hrun => by
    rw [List.foldlM_cons] at hrun
    obtain ⟨mid, hmid, hrest⟩ := Option.bind_eq_some_iff.mp hrun
    exact (h seen a mid hmid).cons (foldlM_explores h hrest)

theorem visit_explores {fuel : ℕ} (h : visit next fuel seen a = some after) :
    Explores next seen [a] after := by
  induction fuel generalizing seen a after with
  | zero => cases h
  | succ fuel ih =>
    rw [visit] at h
    rcases hnext : next a with - | bs
    · -- Not a node of the graph.
      rw [hnext] at h
      obtain rfl := Option.some.inj h
      exact ⟨subset_rfl, by simp [hnext], fun b hb hnew => absurd hb hnew, fun b hb => .inl hb⟩
    · rw [hnext] at h
      by_cases hseen : a ∈ seen
      · simp only [hseen, if_true] at h
        obtain rfl := Option.some.inj h
        exact ⟨subset_rfl, by simpa using fun _ => hseen, fun b hb hnew => absurd hb hnew,
          fun b hb => .inl hb⟩
      · simp only [hseen, if_false] at h
        exact (foldlM_explores (fun _ _ _ => ih) h).node hnext hseen

/-- With no node visited before, the search visits what can be reached. -/
theorem mem_visit_iff {fuel : ℕ} (h : visit next fuel ∅ a = some after) (ha : (next a).isSome)
    (b : α) : b ∈ after ↔ Reachable next a b := by
  have hexplores := visit_explores h
  constructor
  · intro hb
    rcases hexplores.sound b hb with hseen | ⟨c, hc, -, hreach⟩
    · simp at hseen
    · rwa [List.mem_singleton.mp hc] at hreach
  · intro hreach
    induction hreach with
    | refl => exact hexplores.visited a (List.mem_singleton_self a) ha
    | tail _ hedge ih => exact hexplores.closed _ ih (by simp) _ hedge

/-! ### Termination -/

omit [DecidableEq α] in
/-- A list of searches ends when every one of them does, whatever was visited before it. -/
theorem foldlM_isSome {search : Finset α → α → Option (Finset α)} (start : Finset α)
    (hexplores : ∀ seen a after, search seen a = some after → seen ⊆ after)
    (h : ∀ seen a, start ⊆ seen → (search seen a).isSome) :
    ∀ {roots : List α} {seen : Finset α}, start ⊆ seen → (roots.foldlM search seen).isSome
  | [], _, _ => rfl
  | a :: roots, seen, hstart => by
    obtain ⟨mid, hmid⟩ := Option.isSome_iff_exists.mp (h seen a hstart)
    rw [List.foldlM_cons, hmid]
    exact foldlM_isSome start hexplores h (hstart.trans (hexplores seen a mid hmid))

/-- The nodes that are not visited yet bound the depth of a search. -/
theorem visit_isSome {nodes : Finset α} (hnodes : ∀ a, (next a).isSome → a ∈ nodes) {fuel : ℕ}
    (h : (nodes \ seen).card < fuel) : (visit next fuel seen a).isSome := by
  induction fuel generalizing seen a with
  | zero => omega
  | succ fuel ih =>
    rw [visit]
    rcases hnext : next a with - | bs
    · rfl
    · by_cases hseen : a ∈ seen
      · simp [hseen]
      · have ha : a ∈ nodes \ seen :=
          Finset.mem_sdiff.mpr ⟨hnodes a (by simp [hnext]), hseen⟩
        have hfewer : (nodes \ insert a seen).card < fuel := by
          rw [Finset.sdiff_insert, Finset.card_erase_of_mem ha]
          have := Finset.card_pos.mpr ⟨a, ha⟩
          omega
        simp only [hseen, if_false]
        refine foldlM_isSome (insert a seen) (fun _ _ _ hrun => (visit_explores hrun).subset)
          (fun seen' b hsub => ih ?_) subset_rfl
        exact (Finset.card_le_card (Finset.sdiff_subset_sdiff subset_rfl hsub)).trans_lt hfewer

end

end DepthFirst
