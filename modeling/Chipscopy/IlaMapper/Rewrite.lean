import Chipscopy.IlaMapper.Mapper

/-! The rewriting passes keep every condition

    Sorting is a permutation, dropping don't-care matches drops none of a proper condition, a
    flipped one bit match means the same, and merging happens below `and` and `nand` only, where the
    conjunction is what counts. -/

namespace Chipscopy.Mapping

namespace Condition

/-- Truth of a condition on the previous and current values of the ports. -/
def holds (port : ℕ → Signal) (c : Condition) : Bool :=
  match c.op with
  | .and => c.matchList.all (·.holds port)
  | .nand => !c.matchList.all (·.holds port)
  | .or => c.matchList.any (·.holds port)
  | .nor => !c.matchList.any (·.holds port)

/-- No match is all don't-care, and all characters are bit characters. -/
def Proper (c : Condition) : Prop :=
  ∀ mt ∈ c.matchList, mt.BitChars ∧ mt.ensureProperTypes.isDontCare = false

/-- What the rewriting passes keep: upper case bit characters, not all don't-care. -/
def Clean (c : Condition) : Prop :=
  ∀ mt ∈ c.matchList, Match.UpperBitChars mt.value ∧ mt.isDontCare = false

theorem holds_congr (port : ℕ → Signal) {c c' : Condition} (hop : c'.op = c.op)
    (hall : (∀ mt ∈ c'.matchList, mt.holds port = true) ↔ ∀ mt ∈ c.matchList, mt.holds port = true)
    (hany : (∃ mt ∈ c'.matchList, mt.holds port = true) ↔
      ∃ mt ∈ c.matchList, mt.holds port = true) :
    c'.holds port = c.holds port := by
  have hall' : c'.matchList.all (·.holds port) = c.matchList.all (·.holds port) := by
    rw [Bool.eq_iff_iff, List.all_eq_true, List.all_eq_true, hall]
  have hany' : c'.matchList.any (·.holds port) = c.matchList.any (·.holds port) := by
    rw [Bool.eq_iff_iff, List.any_eq_true, List.any_eq_true, hany]
  simp only [holds, hop, hall', hany']

theorem holds_mapMatches (port : ℕ → Signal) {f : Match → Match} {c : Condition}
    (h : ∀ mt ∈ c.matchList, (f mt).holds port = mt.holds port) :
    (c.mapMatches f).holds port = c.holds port := by
  refine holds_congr port rfl ?_ ?_
  · simp only [mapMatches, List.forall_mem_map]
    exact forall₂_congr fun mt hmt => by rw [h mt hmt]
  · simp only [mapMatches, List.mem_map, exists_exists_and_eq_and]
    exact exists_congr fun mt => and_congr_right fun hmt => by rw [h mt hmt]

theorem holds_sortMatches (port : ℕ → Signal) (c : Condition) :
    c.sortMatches.holds port = c.holds port := by
  have hmem : ∀ mt, mt ∈ c.sortMatches.matchList ↔ mt ∈ c.matchList := fun mt =>
    (List.perm_insertionSort _ _).mem_iff
  exact holds_congr port rfl (by simp only [hmem]) (by simp only [hmem])

theorem Clean.removeDontCareMatches {c : Condition} (h : c.Clean) :
    c.removeDontCareMatches = c := by
  have hfilter : c.matchList.filter (fun mt => !mt.isDontCare) = c.matchList :=
    List.filter_eq_self.mpr fun mt hmt => by rw [(h mt hmt).2]; rfl
  rw [Condition.removeDontCareMatches, hfilter]

theorem Clean.sortMatches {c : Condition} (h : c.Clean) : c.sortMatches.Clean := fun mt hmt =>
  h mt ((List.perm_insertionSort _ _).mem_iff.mp hmt)

theorem Clean.assignSourceInfo {c : Condition} (h : c.Clean) :
    (c.mapMatches Match.assignSourceInfo).Clean := by
  intro mt hmt
  obtain ⟨mt', hmt', rfl⟩ := List.mem_map.mp hmt
  exact h mt' hmt'

theorem Proper.clean {c : Condition} (h : c.Proper) :
    (c.mapMatches Match.ensureProperTypes).Clean := by
  intro mt hmt
  obtain ⟨mt', hmt', rfl⟩ := List.mem_map.mp hmt
  exact ⟨Match.upperBitChars_ensureProperTypes (h mt' hmt').1, (h mt' hmt').2⟩

theorem Clean.upper_flip {c : Condition} (h : c.Clean) :
    ∀ mt ∈ (c.mapMatches Match.flipOneBitNeqToEq).matchList, Match.UpperBitChars mt.value := by
  intro mt hmt
  obtain ⟨mt', hmt', rfl⟩ := List.mem_map.mp hmt
  exact Match.upperBitChars_flipOneBitNeqToEq (h mt' hmt').1

/-- Merging below `and` and `nand` keeps the meaning of the condition. -/
theorem holds_mergeSharedPorts (port : ℕ → Signal) {c c' : Condition}
    (hu : ∀ mt ∈ c.matchList, Match.UpperBitChars mt.value) (h : c.mergeSharedPorts = .ok c') :
    c'.name = c.name ∧ c'.op = c.op ∧ c'.holds port = c.holds port ∧
      ∀ mt ∈ c'.matchList, Match.UpperBitChars mt.value := by
  unfold mergeSharedPorts at h
  split at h
  · cases h; exact ⟨rfl, rfl, rfl, hu⟩
  · next hop =>
    split at h
    · cases h
    · next res hres =>
      cases h
      have hs : Worklist.Sound Match.mergeSharedPorts (fun mt => Match.UpperBitChars mt.value)
          (fun mt => mt.holds port = true) := by
        intro a b d ha hb hm
        refine ⟨Match.upperBitChars_mergeSharedPorts ha hb hm, ?_⟩
        show d.holds port = true ↔ a.holds port = true ∧ b.holds port = true
        rw [Match.holds_mergeSharedPorts port ha hb hm, Bool.and_eq_true]
      obtain ⟨hu', hiff⟩ := hs.run hres hu
      have hall : res.all (·.holds port) = c.matchList.all (·.holds port) := by
        rw [Bool.eq_iff_iff, List.all_eq_true, List.all_eq_true, hiff]
      refine ⟨rfl, rfl, ?_, hu'⟩
      -- the operator is `and` or `nand`, so only the conjunction counts
      cases hc : c.op with
      | and => simp only [holds, hc, hall]
      | nand => simp only [holds, hc, hall]
      | or => simp [hc] at hop
      | nor => simp [hc] at hop

end Condition

/-- The passes before the match units are given out keep name, operator and meaning. -/
def Condition.Keeps (port : ℕ → Signal) (c c' : Condition) : Prop :=
  c'.name = c.name ∧ c'.op = c.op ∧ c'.holds port = c.holds port ∧
    ∀ mt ∈ c'.matchList, Match.UpperBitChars mt.value

/-- The rewriting passes on one condition. -/
def Condition.rewrite (c : Condition) : Condition :=
  ((((c.mapMatches Match.ensureProperTypes).mapMatches Match.assignSourceInfo).sortMatches)
    |>.removeDontCareMatches).mapMatches Match.flipOneBitNeqToEq

theorem Condition.keeps_rewrite (port : ℕ → Signal) {c : Condition} (h : c.Proper) :
    c.Keeps port c.rewrite := by
  have hclean := h.clean.assignSourceInfo.sortMatches
  refine ⟨rfl, rfl, ?_, ?_⟩
  · rw [rewrite, hclean.removeDontCareMatches,
      holds_mapMatches port fun mt hmt =>
        Match.holds_flipOneBitNeqToEq port (hclean mt hmt).1 (hclean mt hmt).2,
      holds_sortMatches, holds_mapMatches (f := Match.assignSourceInfo) port fun _ _ => rfl,
      holds_mapMatches port fun mt hmt => Match.holds_ensureProperTypes port (h mt hmt).1]
  · rw [rewrite, hclean.removeDontCareMatches]
    exact hclean.upper_flip

theorem Condition.Keeps.trans {port : ℕ → Signal} {c c' c'' : Condition} (h : c.Keeps port c')
    (h' : c'.name = c''.name ∧ c'.op = c''.op ∧ c''.holds port = c'.holds port ∧
      ∀ mt ∈ c''.matchList, Match.UpperBitChars mt.value) : c.Keeps port c'' :=
  ⟨h'.1.symm.trans h.1, h'.2.1.symm.trans h.2.1, h'.2.2.1.trans h.2.2.1, h'.2.2.2⟩

namespace IlaMapper

theorem map_ok {m mapped : IlaMapper} {skip allMapped : Bool} {msg : Option (List String)}
    (h : m.map skip = .ok ((allMapped, msg), mapped)) :
    ∃ conditions, Py.mapExcept Condition.mergeSharedPorts (m.conditions.map Condition.rewrite) =
        .ok conditions ∧
      IlaMapper.mapMatchUnits { m with conditions := conditions } = .ok (allMapped, mapped) := by
  have hpasses : flipOneBitNeqToEq (removeDontCareMatches (sortMatches (assignMatchSourceInfo
      (ensureProperTypes m)))) = { m with conditions := m.conditions.map Condition.rewrite } := by
    simp only [flipOneBitNeqToEq, removeDontCareMatches, sortMatches, assignMatchSourceInfo,
      ensureProperTypes, mapMatches, List.map_map]
    rfl
  simp only [map, hpasses, mergeSharedPorts] at h
  split at h
  · cases h
  · next merged hmerged =>
    split at hmerged
    · cases hmerged
    · next conditions hconds =>
      cases hmerged
      split at h
      · cases h
      · next all' mapped' hunits =>
        refine ⟨conditions, hconds, ?_⟩
        split at h
        · split at h
          · cases h
          · cases h; exact hunits
        · cases h; exact hunits

end IlaMapper

end Chipscopy.Mapping
