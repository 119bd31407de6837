import Chipscopy.IlaMapper.Rewrite

/-! Giving out match units

    The last pass only extends the value lists of the ports, so a unit once given out keeps its
    value; in the end every match of every condition is on a unit of its port that holds the
    operator of the match and its value, grown to the width of the port. -/

namespace Chipscopy.Mapping

/-- A port only gains values, at the end of its list. -/
def Port.Grows (p p' : Port) : Prop :=
  p'.width = p.width ∧ p.muValues <+: p'.muValues

def PortsGrow (ports ports' : List Port) : Prop :=
  ∀ (i : ℕ) (p : Port), ports[i]? = some p → ∃ p', ports'[i]? = some p' ∧ p.Grows p'

theorem PortsGrow.refl (ports : List Port) : PortsGrow ports ports :=
  fun _ p hp => ⟨p, hp, rfl, List.prefix_refl _⟩

theorem PortsGrow.trans {a b c : List Port} (h : PortsGrow a b) (h' : PortsGrow b c) :
    PortsGrow a c := by
  intro i p hp
  obtain ⟨p', hp', hw, hpre⟩ := h i p hp
  obtain ⟨p'', hp'', hw', hpre'⟩ := h' i p' hp'
  exact ⟨p'', hp'', hw'.trans hw, hpre.trans hpre'⟩

/-- The match unit of a match holds its operator and its value, grown to the port. -/
def Placed (ports : List Port) (mt : Match) : Prop :=
  ∃ p j v, ports[mt.portIndex]? = some p ∧ mt.muIndex = (j : ℕ) ∧
    Match.resizeValue mt.value mt.bitIndex 0 p.width = .ok v ∧
    p.muValues[j]? = some (mt.op.chars ++ v)

theorem Placed.mono {ports ports' : List Port} {mt : Match} (hg : PortsGrow ports ports')
    (h : Placed ports mt) : Placed ports' mt := by
  obtain ⟨p, j, v, hp, hj, hv, hget⟩ := h
  obtain ⟨p', hp', hw, hpre⟩ := hg mt.portIndex p hp
  refine ⟨p', j, v, hp', hj, by rw [hw]; exact hv, ?_⟩
  obtain ⟨hlt, -⟩ := List.getElem?_eq_some_iff.mp hget
  obtain ⟨t, ht⟩ := hpre
  rw [← ht, List.getElem?_append_left hlt]; exact hget

/-- A match and the same match on its unit. -/
def MatchPlaced (ports : List Port) (mt mt' : Match) : Prop :=
  (∃ j : ℕ, mt' = { mt with muIndex := j }) ∧ Placed ports mt'

theorem Match.makePortMatchValue_ok {mt : Match} {w : ℕ} {value : List Char}
    (h : mt.makePortMatchValue w = .ok value) :
    ∃ v, Match.resizeValue mt.value mt.bitIndex 0 w = .ok v ∧ value = mt.op.chars ++ v := by
  unfold makePortMatchValue at h
  split at h
  · cases h
  · next v hv =>
    split at h
    · cases h
    · cases h; exact ⟨v, hv, rfl⟩

/-- One placement: ports grow, and only the unit index of the match changes. -/
theorem mapMatchUnit_ok {ports ports' : List Port} {mt : Match} {r : Match × Bool}
    (h : mapMatchUnit ports mt = .ok (ports', r)) :
    PortsGrow ports ports' ∧ MatchPlaced ports' mt r.1 := by
  unfold mapMatchUnit at h
  split at h
  · cases h
  · split at h
    · cases h
    · next p hp =>
      split at h
      · cases h
      · next value hvalue =>
        obtain ⟨v, hv, rfl⟩ := Match.makePortMatchValue_ok hvalue
        split at h
        · next j hj =>
          cases h
          have hget : p.muValues[j]? = some (mt.op.chars ++ v) := by
            obtain ⟨hlt, hbeq, -⟩ := List.findIdx?_eq_some_iff_getElem.mp hj
            rw [List.getElem?_eq_getElem hlt, Option.some_inj]
            exact eq_of_beq hbeq
          exact ⟨PortsGrow.refl _, ⟨j, rfl⟩, p, j, v, hp, rfl, hv, hget⟩
        · cases h
          obtain ⟨hlt, -⟩ := List.getElem?_eq_some_iff.mp hp
          refine ⟨?_, ⟨p.muValues.length, rfl⟩,
            { p with muValues := p.muValues ++ [mt.op.chars ++ v] },
            p.muValues.length, v, List.getElem?_set_self hlt, rfl, hv, ?_⟩
          · intro i q hq
            by_cases hi : i = mt.portIndex
            · subst hi
              rw [hp] at hq
              cases hq
              exact ⟨_, List.getElem?_set_self hlt, rfl, List.prefix_append _ _⟩
            · exact ⟨q, by rw [List.getElem?_set_ne (Ne.symm hi)]; exact hq, rfl,
                List.prefix_refl _⟩
          · simp

/-- A condition after placement: same name, operator and meaning, every match on its unit. -/
def ConditionPlaced (ports : List Port) (c c' : Condition) : Prop :=
  c'.name = c.name ∧ c'.op = c.op ∧
    List.Forall₂ (MatchPlaced ports) c.matchList c'.matchList

theorem ConditionPlaced.mono {ports ports' : List Port} {c c' : Condition}
    (hg : PortsGrow ports ports') (h : ConditionPlaced ports c c') : ConditionPlaced ports' c c' :=
  ⟨h.1, h.2.1, h.2.2.imp fun _ _ h => ⟨h.1, h.2.mono hg⟩⟩

theorem mapConditionUnits_ok {ports ports' : List Port} {c : Condition} {r : Condition × List Bool}
    (h : mapConditionUnits ports c = .ok (ports', r)) :
    PortsGrow ports ports' ∧ ConditionPlaced ports' c r.1 := by
  unfold mapConditionUnits at h
  split at h
  · cases h
  · next ports₁ res hres =>
    cases h
    have hrun := Py.mapAccum_invariant PortsGrow
      (fun ports mt (r : Match × Bool) => MatchPlaced ports mt r.1)
      PortsGrow.refl (fun _ _ _ => PortsGrow.trans) (fun _ _ _ _ hg hd => ⟨hd.1, hd.2.mono hg⟩)
      (fun _ _ _ _ hstep => mapMatchUnit_ok hstep) hres
    exact ⟨hrun.1, rfl, rfl, List.forall₂_map_right_iff.mpr hrun.2⟩

theorem ConditionPlaced.matchList {ports : List Port} {c c' : Condition}
    (h : ConditionPlaced ports c c') : ∀ mt' ∈ c'.matchList, ∃ mt ∈ c.matchList,
      MatchPlaced ports mt mt' := by
  intro mt' hmt'
  obtain ⟨i, hi⟩ := List.mem_iff_getElem?.mp hmt'
  obtain ⟨mt, hmt, hrel⟩ := Py.forall₂_getElem? (List.Forall₂.flip h.2.2) hi
  exact ⟨mt, List.mem_iff_getElem?.mpr ⟨i, hmt⟩, hrel⟩

theorem ConditionPlaced.matchList' {ports : List Port} {c c' : Condition}
    (h : ConditionPlaced ports c c') : ∀ mt ∈ c.matchList, ∃ mt' ∈ c'.matchList,
      ∃ j : ℕ, mt' = { mt with muIndex := j } := by
  intro mt hmt
  obtain ⟨i, hi⟩ := List.mem_iff_getElem?.mp hmt
  obtain ⟨mt', hmt', hrel⟩ := Py.forall₂_getElem? h.2.2 hi
  exact ⟨mt', List.mem_iff_getElem?.mpr ⟨i, hmt'⟩, hrel.1⟩

/-- The unit index is not looked at by the match itself. -/
theorem Match.holds_muIndex (port : ℕ → Signal) (mt : Match) (j : ℤ) :
    Match.holds port { mt with muIndex := j } = mt.holds port := rfl

theorem ConditionPlaced.holds {ports : List Port} {c c' : Condition} (port : ℕ → Signal)
    (h : ConditionPlaced ports c c') : c'.holds port = c.holds port := by
  refine Condition.holds_congr port h.2.1 ⟨fun hall mt hmt => ?_, fun hall mt' hmt' => ?_⟩
    ⟨fun ⟨mt', hmt', hh⟩ => ?_, fun ⟨mt, hmt, hh⟩ => ?_⟩
  · obtain ⟨mt', hmt', j, rfl⟩ := h.matchList' mt hmt
    exact (Match.holds_muIndex port mt j).symm.trans (hall _ hmt')
  · obtain ⟨mt, hmt, ⟨j, rfl⟩, -⟩ := h.matchList mt' hmt'
    exact hall mt hmt
  · obtain ⟨mt, hmt, ⟨j, rfl⟩, -⟩ := h.matchList mt' hmt'
    exact ⟨mt, hmt, hh⟩
  · obtain ⟨mt', hmt', j, rfl⟩ := h.matchList' mt hmt
    exact ⟨_, hmt', hh⟩

/-- A mapped condition: name, operator and meaning of the original, every match on its unit. -/
structure MappedCondition (port : ℕ → Signal) (ports : List Port) (c c' : Condition) : Prop where
  name_eq : c'.name = c.name
  op_eq : c'.op = c.op
  holds_eq : c'.holds port = c.holds port
  upper : ∀ mt ∈ c'.matchList, Match.UpperBitChars mt.value ∧ Placed ports mt

theorem mappedCondition (port : ℕ → Signal) {ports : List Port} {c c₁ c' : Condition}
    (hproper : c.Proper) (hmerge : c.rewrite.mergeSharedPorts = .ok c₁)
    (hplaced : ConditionPlaced ports c₁ c') : MappedCondition port ports c c' := by
  obtain ⟨hname, hop, hholds, hupper⟩ := Condition.keeps_rewrite port hproper
  obtain ⟨hname₁, hop₁, hholds₁, hupper₁⟩ := Condition.holds_mergeSharedPorts port hupper hmerge
  refine ⟨?_, ?_, ?_, ?_⟩
  · rw [hplaced.1, hname₁, hname]
  · rw [hplaced.2.1, hop₁, hop]
  · rw [hplaced.holds port, hholds₁, hholds]
  · intro mt' hmt'
    obtain ⟨mt, hmt, ⟨j, rfl⟩, hp⟩ := hplaced.matchList mt' hmt'
    exact ⟨hupper₁ mt hmt, hp⟩

/-- `map` keeps every condition and puts every match on a match unit with its value. -/
theorem IlaMapper.map_conditions (port : ℕ → Signal) {m mapped : IlaMapper} {skip allMapped : Bool}
    {msg : Option (List String)} (hproper : ∀ c ∈ m.conditions, c.Proper)
    (h : m.map skip = .ok ((allMapped, msg), mapped)) :
    mapped.isBasicCapture = m.isBasicCapture ∧
      List.Forall₂ (MappedCondition port mapped.ports) m.conditions mapped.conditions := by
  obtain ⟨conditions, hmerge, hunits⟩ := map_ok h
  have hmerged := (List.forall₂_and_left _ _).mpr
    ⟨hproper, List.forall₂_map_left_iff.mp (Py.forall₂_of_mapExcept_ok hmerge)⟩
  simp only [mapMatchUnits] at hunits
  split at hunits
  · cases hunits
  · next ports res hres =>
    cases hunits
    have hrun := Py.mapAccum_invariant PortsGrow
      (fun ports c (r : Condition × List Bool) => ConditionPlaced ports c r.1)
      PortsGrow.refl (fun _ _ _ => PortsGrow.trans) (fun _ _ _ _ hg hd => hd.mono hg)
      (fun _ _ _ _ hstep => mapConditionUnits_ok hstep) hres
    refine ⟨rfl, Py.forall₂_comp (fun c c₁ c' hc hc' => ?_) hmerged
      (List.forall₂_map_right_iff.mpr hrun.2)⟩
    exact mappedCondition port hc.1 hc.2 hc'

end Chipscopy.Mapping
