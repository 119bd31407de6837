import Chipscopy.Tsm.Props

/-! Condition registers of a state machine

    A branch with probe compares has a condition register of its own: no other condition of the
    mapper and no match unit is written under its name. The match units that it selects show the
    matches of the compares, so the register evaluates, on the ports, to the compares joined by
    their operator, when each compare can be expressed by the matches of its port ranges. -/

namespace Chipscopy.Tsm

open Mapping (IlaMapper Signal muHolds registerHolds)

/-! ### Compares on match units -/

/-- A compare that the matches of its port ranges, joined by `o`, can express. -/
structure Expressible (o : LogicOp) (mu : ILATsmMatchUnit) : Prop where
  length_eq : mu.compareValue.length = totalWidth mu.probe.map
  valid : ValidValue mu.getCompareOperator mu.compareValue
  cares : ∀ piece ∈ mu.pieces, ¬ DontCares piece.2
  split : SplitFaithful (mu.pieces.map (·.2)) mu.getCompareOperator o

/-- Matches that a compare adds to its condition. -/
def ILATsmMatchUnit.matchList (mu : ILATsmMatchUnit) : List Mapping.Match :=
  (addProbeValueToPorts mu mu.probe.map { op := .and }).matchList

theorem addProbeValueToPorts_eq (mu : ILATsmMatchUnit) (cond : Mapping.Condition) :
    addProbeValueToPorts mu mu.probe.map cond =
      { cond with matchList := cond.matchList ++ mu.matchList } := by
  rw [ILATsmMatchUnit.matchList, addProbeValueToPorts, addProbeValueToPorts, matchList_foldl,
    matchList_foldl, List.nil_append]

theorem foldl_addProbeValueToPorts : ∀ (mus : List ILATsmMatchUnit) (cond : Mapping.Condition),
    mus.foldl (fun c mu => addProbeValueToPorts mu mu.probe.map c) cond =
      { cond with matchList := cond.matchList ++ mus.flatMap ILATsmMatchUnit.matchList }
  | [], cond => by simp
  | mu :: mus, cond => by
    rw [List.foldl_cons, foldl_addProbeValueToPorts mus, addProbeValueToPorts_eq]
    simp

theorem mapperCondition_eq (s b : ℕ) (cond : ILATsmCondition) : mapperCondition s b cond =
    { name := makeTcName s b
      op := cond.getMapperProbeOperator.toConditionOp
      matchList := cond.matchUnits.flatMap ILATsmMatchUnit.matchList } :=
  foldl_addProbeValueToPorts _ _

theorem LogicOp.join_flatMap {α β : Type*} (o : LogicOp) (f : β → Bool) (g : α → List β)
    (l : List α) : o.join f (l.flatMap g) = o.join (fun a => o.join f (g a)) l := by
  cases o
  · exact List.all_flatMap
  · exact List.any_flatMap

namespace Expressible

variable {o : LogicOp} {mu : ILATsmMatchUnit}

theorem pieces_valid (h : Expressible o mu) :
    ∀ piece ∈ mu.pieces, ValidValue mu.getCompareOperator piece.2 := by
  have hlen : mu.compareValue.reverse.length = totalWidth mu.probe.map := by
    rw [List.length_reverse, h.length_eq]
  intro piece hpiece
  have hsub := (mem_chunks hlen hpiece).2
  exact ⟨fun ch hch => h.valid.1 ch (List.mem_reverse.mp (hsub ch hch)),
    fun hne hne' ch hch => h.valid.2 hne hne' ch (List.mem_reverse.mp (hsub ch hch))⟩

/-- The matches of a compare are the compare. -/
theorem join_matchList (h : Expressible o mu) (port : ℕ → Signal) :
    o.join (Mapping.Match.holds port) mu.matchList = mu.holds port := by
  have hpieces := holds_addProbeValueToPorts port o "" h.length_eq h.valid.1
  rw [addProbeValueToPorts_eq, List.nil_append, Tsm.join_matchList] at hpieces
  rw [hpieces, holds_eq_pieces port h.length_eq]
  exact (splitFaithful_iff mu.pieces mu.getCompareOperator o h.pieces_valid).1 h.split port

theorem proper (h : Expressible o mu) :
    ∀ mt ∈ mu.matchList, mt.BitChars ∧ mt.ensureProperTypes.isDontCare = false := by
  have hpieces := zip_sliceValue mu.compareValue mu.probe.map mu.compareValue.length
    le_rfl h.length_eq.ge
  rw [List.take_length] at hpieces
  intro mt hmt
  rw [ILATsmMatchUnit.matchList, addProbeValueToPorts, matchList_foldl, List.nil_append] at hmt
  obtain ⟨⟨seq, val⟩, hmem, rfl⟩ := List.mem_map.mp hmt
  have hpiece : (seq, val.reverse) ∈ mu.pieces := by
    rw [ILATsmMatchUnit.pieces, ← hpieces]
    exact List.mem_map.mpr ⟨(seq, val), hmem, rfl⟩
  have hbits : ∀ ch ∈ val, ch ∈ Mapping.matchBitValues := fun ch hch =>
    (h.pieces_valid _ hpiece).1 ch (List.mem_reverse.mpr hch)
  have hcares : ∃ ch ∈ val, ch.toUpper ≠ 'X' := by
    by_contra hnone
    push Not at hnone
    exact h.cares _ hpiece fun ch hch => hnone ch (List.mem_reverse.mp hch)
  refine ⟨fun ch hch => ?_, ?_⟩
  · rw [upperNoUnderscore hbits] at hch
    obtain ⟨ch', hch', rfl⟩ := List.mem_map.mp hch
    exact Mapping.toUpper_mem ch' (hbits ch' hch')
  · obtain ⟨ch, hch, hne⟩ := hcares
    rw [Mapping.Match.isDontCare, List.all_eq_false]
    refine ⟨ch.toUpper, ?_, by simpa using hne⟩
    rw [Mapping.Match.ensureProperTypes, upperNoUnderscore hbits]
    refine List.mem_map.mpr ⟨ch.toUpper, List.mem_map_of_mem hch, ?_⟩
    exact Mapping.toUpper_idem ch (hbits ch hch)

end Expressible

/-! ### Condition registers -/

/-- A condition whose compares can be expressed. -/
def ILATsmCondition.Expressible (cond : ILATsmCondition) : Prop :=
  ∀ mu ∈ cond.matchUnits, Tsm.Expressible cond.getMapperProbeOperator mu

theorem ILATsmCondition.Expressible.proper {cond : ILATsmCondition} (h : cond.Expressible)
    (s b : ℕ) : (mapperCondition s b cond).Proper := by
  intro mt hmt
  rw [mapperCondition_eq] at hmt
  obtain ⟨mu, hmu, hmt⟩ := List.mem_flatMap.mp hmt
  exact (h mu hmu).proper mt hmt

/-- The mapper condition of a branch is its probe compares joined by their operator. -/
theorem ILATsmCondition.Expressible.holds_mapperCondition {cond : ILATsmCondition}
    (h : cond.Expressible) (s b : ℕ) (port : ℕ → Signal) :
    (mapperCondition s b cond).holds port =
      cond.getMapperProbeOperator.join (ILATsmMatchUnit.holds port) cond.matchUnits := by
  rw [mapperCondition_eq, join_matchList, LogicOp.join_flatMap]
  exact join_congr _ fun mu hmu => (h mu hmu).join_matchList port

/-- The mapper condition of a branch, if the branch has probe compares. -/
def branchCondition (stateIndex : ℕ) (branch : ILATsmBranch × ℕ) : Option Mapping.Condition :=
  (branch.1.condition.filter fun cond => !cond.matchUnits.isEmpty).map
    (mapperCondition stateIndex branch.2)

theorem mapperConditions_eq (states : List ILATsmState) : mapperConditions states =
    states.flatMap fun state => state.branches.zipIdx.filterMap (branchCondition state.index) := by
  refine congrArg (states.flatMap ·) (funext fun state => ?_)
  refine congrArg (state.branches.zipIdx.filterMap ·) (funext fun ⟨branch, b⟩ => ?_)
  cases hcond : branch.condition with
  | none => simp [branchCondition, hcond]
  | some cond => by_cases hmus : cond.matchUnits = [] <;> simp [branchCondition, hcond, hmus]

theorem branchCondition_eq_some_iff {s b : ℕ} {branch : ILATsmBranch} {c : Mapping.Condition} :
    branchCondition s (branch, b) = some c ↔ ∃ cond, branch.condition = some cond ∧
      cond.matchUnits ≠ [] ∧ c = mapperCondition s b cond := by
  rw [branchCondition, Option.map_eq_some_iff]
  refine exists_congr fun cond => ?_
  rw [Option.filter_eq_some_iff, and_assoc, eq_comm (b := c)]
  simp

theorem name_branchCondition {s b : ℕ} {branch : ILATsmBranch} {c : Mapping.Condition}
    (h : branchCondition s (branch, b) = some c) : c.name = makeTcName s b := by
  obtain ⟨cond, -, -, rfl⟩ := branchCondition_eq_some_iff.mp h
  rw [mapperCondition_eq]

/-- All conditions of the mapper have different names. -/
theorem nodup_name_mapperConditions {states : List ILATsmState}
    (hnodup : (states.map (·.index)).Nodup) (hlt : ∀ state ∈ states, state.index < maxStateCount) :
    ((mapperConditions states).map (·.name)).Nodup := by
  rw [mapperConditions_eq, List.map_flatMap, List.nodup_flatMap]
  constructor
  · intro state hstate
    -- the branches of one state differ in their position
    have hpositions : (state.branches.zipIdx).Pairwise fun e e' => e.2 < e'.2 := by
      rw [← List.pairwise_map (f := Prod.snd) (R := (· < ·)), List.zipIdx_map_snd]
      exact List.pairwise_lt_range'
    rw [List.Nodup, List.pairwise_map, List.pairwise_filterMap]
    refine hpositions.imp ?_
    rintro ⟨branch, b⟩ ⟨branch', b'⟩ hb c hc c' hc' heq
    have hs := hlt state hstate
    rw [name_branchCondition hc, name_branchCondition hc'] at heq
    exact absurd (makeTcName_injective hs hs heq).2 hb.ne
  · rw [List.Nodup, List.pairwise_map] at hnodup
    refine hnodup.imp_of_mem ?_
    intro state state' hstate hstate' hne
    rw [Function.onFun, List.disjoint_left]
    intro name hname hname'
    obtain ⟨c, hc, rfl⟩ := List.mem_map.mp hname
    obtain ⟨c', hc', heq⟩ := List.mem_map.mp hname'
    obtain ⟨⟨branch, b⟩, -, hc⟩ := List.mem_filterMap.mp hc
    obtain ⟨⟨branch', b'⟩, -, hc'⟩ := List.mem_filterMap.mp hc'
    rw [name_branchCondition hc, name_branchCondition hc'] at heq
    exact hne (makeTcName_injective (hlt state' hstate') (hlt state hstate) heq).1.symm

/-- A condition of a branch with probe compares is one of the conditions of the mapper. -/
theorem mem_mapperConditions {states : List ILATsmState} {state : ILATsmState}
    (hstate : state ∈ states) {branch : ILATsmBranch} {b : ℕ}
    (hbranch : state.branches[b]? = some branch) {cond : ILATsmCondition}
    (hcond : branch.condition = some cond) (hmus : cond.matchUnits ≠ []) :
    mapperCondition state.index b cond ∈ mapperConditions states := by
  rw [mapperConditions_eq]
  refine List.mem_flatMap.mpr ⟨state, hstate, List.mem_filterMap.mpr ⟨(branch, b), ?_, ?_⟩⟩
  · exact List.mem_zipIdx_iff_getElem?.mpr hbranch
  · exact branchCondition_eq_some_iff.mpr ⟨cond, hcond, hmus, rfl⟩

theorem exists_of_mem_mapperConditions {states : List ILATsmState} {c : Mapping.Condition}
    (h : c ∈ mapperConditions states) : ∃ state ∈ states, ∃ branch ∈ state.branches, ∃ b cond,
      branch.condition = some cond ∧ c = mapperCondition state.index b cond := by
  rw [mapperConditions_eq] at h
  obtain ⟨state, hstate, hc⟩ := List.mem_flatMap.mp h
  obtain ⟨⟨branch, b⟩, hbranch, hc⟩ := List.mem_filterMap.mp hc
  obtain ⟨cond, hcond, -, rfl⟩ := branchCondition_eq_some_iff.mp hc
  exact ⟨state, hstate, branch, List.fst_mem_of_mem_zipIdx hbranch, b, cond, hcond, rfl⟩

theorem conditionName_mapperCondition (isBasicCapture : Bool) (i s b : ℕ) (cond : ILATsmCondition) :
    IlaMapper.conditionName isBasicCapture i (mapperCondition s b cond) = makeTcName s b := by
  have hne : makeTcName s b ≠ "" := by
    intro heq
    have hhead := head_makeTcName s b
    rw [heq] at hhead
    cases hhead
  rw [mapperCondition_eq, IlaMapper.conditionName, if_pos hne]

/-! ### Registers of the settings -/

/-- What the settings of a program hold. -/
structure Settings (tsmData : ILATsmData) (hasBasicCaptureControl : Bool) (mapped : IlaMapper)
    (regs props : Props) : Prop where
  map_eq : ∃ msg, (tsmMapper tsmData hasBasicCaptureControl).map false = .ok ((true, msg), mapped)
  units : ∀ u ∈ mapped.units, (getMuIndex hasBasicCaptureControl tsmData.ports u.1 u.2.1).isSome
  regs_eq : mapped.getRegMuMapping tsmData.getMatchUnitCount (fun p j =>
    (getMuIndex hasBasicCaptureControl tsmData.ports p j).getD 0) = .ok regs
  counter : ∃ values, counterValues tsmData.states = .ok values ∧ ∀ idx : Fin counterCount,
    props.get? (counterName idx) = some (((Py.Dict.empty.update values).get? idx).getD ['0'])
  fsm : ∃ rows, createTsmTableActions tsmData.states = .ok rows ∧
    props.get? "fsm" = some (fsmText rows)
  get?_eq : ∀ {name}, name.toList.head? = some 't' ∨ name.toList.head? = some 'm' →
    props.get? name = (regs.get? name).or ((initFsmTcProps tsmData).get? name)

theorem mapTsmCountersToProps_ok {states : List ILATsmState} {props : List (String × List Char)}
    (h : mapTsmCountersToProps states = .ok props) : ∃ values, counterValues states = .ok values ∧
      props = (List.finRange counterCount).map fun idx : Fin counterCount =>
        (counterName idx, ((Py.Dict.empty.update values).get? idx).getD ['0']) := by
  rw [mapTsmCountersToProps] at h
  cases hvalues : counterValues states with
  | error e => rw [hvalues] at h; cases h
  | ok values => rw [hvalues] at h; cases h; exact ⟨values, rfl, rfl⟩

theorem mapTsmMuTcToProps_ok {tsmData : ILATsmData} {hasBasicCaptureControl : Bool} {regs : Props}
    (h : mapTsmMuTcToProps tsmData hasBasicCaptureControl = .ok (regs, [])) : ∃ mapped,
      (∃ msg, (tsmMapper tsmData hasBasicCaptureControl).map false = .ok ((true, msg), mapped)) ∧
      (∀ u ∈ mapped.units, (getMuIndex hasBasicCaptureControl tsmData.ports u.1 u.2.1).isSome) ∧
      mapped.getRegMuMapping tsmData.getMatchUnitCount (fun p j =>
        (getMuIndex hasBasicCaptureControl tsmData.ports p j).getD 0) = .ok regs := by
  simp only [mapTsmMuTcToProps] at h
  split at h
  · cases h
  · cases h
  · next msg mapped hmap =>
    simp only [mappedProps] at h
    split at h
    · next hall =>
      cases hregs : mapped.getRegMuMapping tsmData.getMatchUnitCount (fun p j =>
          (getMuIndex hasBasicCaptureControl tsmData.ports p j).getD 0) with
      | error e => rw [hregs] at h; cases h
      | ok regs' =>
        rw [hregs] at h
        cases h
        exact ⟨mapped, ⟨msg, hmap⟩, List.all_eq_true.mp hall, hregs⟩
    · cases h

/-- The registers of one kind do not replace those of another. -/
theorem settings_of_mapTsmToProps {tsmData : ILATsmData} {hasBasicCaptureControl : Bool}
    {props : Props} (h : mapTsmToProps tsmData hasBasicCaptureControl = .ok (props, [])) :
    ∃ mapped regs, Settings tsmData hasBasicCaptureControl mapped regs props := by
  obtain ⟨⟨regs, errors⟩, hmu, h⟩ := Py.bind_eq_ok h
  obtain ⟨counterProps, hcounter, h⟩ := Py.bind_eq_ok h
  obtain ⟨rows, hrows, h⟩ := Py.bind_eq_ok h
  cases h
  obtain ⟨mapped, hmap, hunits, hregs⟩ := mapTsmMuTcToProps_ok hmu
  obtain ⟨values, hvalues, rfl⟩ := mapTsmCountersToProps_ok hcounter
  refine ⟨mapped, regs, hmap, hunits, hregs, ⟨values, hvalues, fun idx => ?_⟩,
    ⟨rows, hrows, ?_⟩, ?_⟩
  · rw [Py.Dict.get?_update_of_notMem]
    · refine Py.Dict.get?_update_of_mem _ _
        (List.mem_map.mpr ⟨idx, List.mem_finRange idx, rfl⟩) ?_
      rintro e he hname
      obtain ⟨i, -, rfl⟩ := List.mem_map.mp he
      rw [Fin.ext (counterName_injective hname)]
    · rw [List.map_singleton, List.mem_singleton]
      exact ne_of_head (head_counterName idx) head_fsm (by decide)
  · exact Py.Dict.get?_update_append_cons _ [] [] _ List.not_mem_nil
  · intro name hname
    have hne : ∀ {other : String} {ch : Char}, other.toList.head? = some ch → ch ≠ 't' → ch ≠ 'm' →
        name ≠ other := by
      intro other ch hother ht hm
      rcases hname with hname | hname
      · exact ne_of_head hname hother ht.symm
      · exact ne_of_head hname hother hm.symm
    rw [Py.Dict.get?_update_of_notMem, Py.Dict.get?_update_of_notMem, Py.Dict.get?_update_entries]
    · rw [List.map_map, List.mem_map]
      rintro ⟨idx, -, heq⟩
      exact hne (head_counterName idx) (by decide) (by decide) heq.symm
    · rw [List.map_singleton, List.mem_singleton]
      exact hne head_fsm (by decide) (by decide)

namespace Settings

variable {tcfPorts : List (ℕ × List ℕ)} {states : List ILATsmState} {basic : Bool}
  {mapped : IlaMapper} {regs props : Props}

/-- The index that the settings use for a match unit. -/
abbrev unitIndex (tcfPorts : List (ℕ × List ℕ)) (basic : Bool) (p j : ℕ) : ℕ :=
  (getMuIndex basic (portsFromTcfProps tcfPorts) p j).getD 0

variable (h : Settings ⟨portsFromTcfProps tcfPorts, states⟩ basic mapped regs props)
include h

theorem get?_of_regs {name : String} {text : List Char}
    (hname : name.toList.head? = some 't' ∨ name.toList.head? = some 'm')
    (hget : regs.get? name = some text) : props.get? name = some text := by
  rw [h.get?_eq hname, hget, Option.some_or]

/-- A match unit in use is one of the match units of its port. -/
theorem unit_mem {p j : ℕ} {v : List Char} (hu : (p, j, v) ∈ mapped.units) :
    ∃ port, tcfPorts[p]? = some port ∧
      port.2[if basic then j + 1 else j]? =
        some (unitIndex tcfPorts basic p j) := by
  obtain ⟨i, hi⟩ := Option.isSome_iff_exists.mp (h.units _ hu)
  obtain ⟨port, hport, hmu⟩ := getMuIndex_eq_some_iff.mp hi
  refine ⟨port, hport, ?_⟩
  rw [hmu, unitIndex, hi, Option.getD_some]

theorem muIndexInjective (hdistinct : DistinctUnits tcfPorts) :
    Mapping.MuIndexInjective mapped (unitIndex tcfPorts basic) := by
  rintro ⟨p, j, v⟩ hu ⟨p', j', v'⟩ hu' heq
  obtain ⟨port, hport, hmu⟩ := h.unit_mem hu
  obtain ⟨port', hport', hmu'⟩ := h.unit_mem hu'
  obtain ⟨hp, hj⟩ := hdistinct.unit_eq hport hmu hport' (heq ▸ hmu')
  refine ⟨hp, ?_⟩
  cases basic <;> simpa using hj

/-- A match unit in use shows its match. -/
theorem muHolds_eq (hdistinct : DistinctUnits tcfPorts) (port : ℕ → Signal) {mt : Mapping.Match}
    (hupper : Mapping.Match.UpperBitChars mt.value) (hplaced : Mapping.Placed mapped.ports mt) :
    muHolds props (muWiring (portsFromTcfProps tcfPorts)) port
      (unitIndex tcfPorts basic mt.portIndex mt.muIndex.toNat) = mt.holds port := by
  have hinj := h.muIndexInjective hdistinct
  rw [← Mapping.muHolds_of_placed port hinj h.regs_eq hupper hplaced]
  obtain ⟨p, j, v, hp, hj, hv, hget⟩ := hplaced
  have hu : (mt.portIndex, j, mt.op.chars ++ v) ∈ mapped.units :=
    Mapping.mem_units.mpr ⟨p, hp, hget⟩
  obtain ⟨tcfPort, hport, hmu⟩ := h.unit_mem hu
  rw [hj, Int.toNat_natCast, muHolds, muHolds, Mapping.muPort_eq hinj hu,
    hdistinct.muWiring_eq hport (List.mem_of_getElem? hmu),
    Mapping.getRegMuMapping_unit hinj h.regs_eq hu,
    h.get?_of_regs (Or.inr (head_muName _)) (Mapping.getRegMuMapping_unit hinj h.regs_eq hu)]

end Settings

/-- States whose numbers are different and whose conditions can be expressed. -/
structure ExpressibleStates (states : List ILATsmState) : Prop where
  nodup : (states.map (·.index)).Nodup
  index_lt : ∀ state ∈ states, state.index < maxStateCount
  conditions : ∀ state ∈ states, ∀ branch ∈ state.branches, ∀ cond,
    branch.condition = some cond → cond.Expressible

namespace ExpressibleStates

variable {tcfPorts : List (ℕ × List ℕ)} {states : List ILATsmState} {basic : Bool}
  {mapped : IlaMapper} {regs props : Props} (hexp : ExpressibleStates states)
include hexp

theorem proper : ∀ c ∈ mapperConditions states, c.Proper := by
  intro c hc
  obtain ⟨state, hstate, branch, hbranch, b, cond, hcond, rfl⟩ := exists_of_mem_mapperConditions hc
  exact (hexp.conditions state hstate branch hbranch cond hcond).proper _ _

/-- No other condition of the mapper and no match unit has the name of the condition. -/
theorem registerKept {m : IlaMapper} (hm : m.conditions = mapperConditions states)
    (mapped : IlaMapper) (getMuIndex : ℕ → ℕ → ℕ) {s b i : ℕ} {cond : ILATsmCondition}
    (hi : (mapperConditions states)[i]? = some (mapperCondition s b cond)) :
    Mapping.RegisterKept m mapped getMuIndex i (mapperCondition s b cond) := by
  refine ⟨fun j c' hij hc' heq => ?_, fun u _ => ?_⟩
  · rw [hm] at hc'
    obtain ⟨state, -, branch, -, b', cond', -, rfl⟩ :=
      exists_of_mem_mapperConditions (List.mem_of_getElem? hc')
    rw [conditionName_mapperCondition, conditionName_mapperCondition] at heq
    have hnames := nodup_name_mapperConditions hexp.nodup hexp.index_lt
    rw [List.Nodup, List.pairwise_map, List.pairwise_iff_getElem] at hnames
    obtain ⟨hlt, hi⟩ := List.getElem?_eq_some_iff.mp hi
    obtain ⟨hlt', hj⟩ := List.getElem?_eq_some_iff.mp hc'
    refine hnames i j hlt hlt' hij ?_
    rw [hi, hj, mapperCondition_eq, mapperCondition_eq, heq]
  · rw [conditionName_mapperCondition]
    exact ne_of_head (head_muName _) (head_makeTcName _ _) (by decide)

variable (h : Settings ⟨portsFromTcfProps tcfPorts, states⟩ basic mapped regs props)
include h

/-- The condition register of a branch evaluates to its probe compares. -/
theorem registerHolds_makeTcName (hdistinct : DistinctUnits tcfPorts) {state : ILATsmState}
    (hstate : state ∈ states) {b : ℕ} {branch : ILATsmBranch}
    (hbranch : state.branches[b]? = some branch) {cond : ILATsmCondition}
    (hcond : branch.condition = some cond) (hmus : cond.matchUnits ≠ []) (port : ℕ → Signal) :
    registerHolds props (muWiring (portsFromTcfProps tcfPorts)) port (makeTcName state.index b) =
      cond.getMapperProbeOperator.join (ILATsmMatchUnit.holds port) cond.matchUnits := by
  obtain ⟨msg, hmap⟩ := h.map_eq
  obtain ⟨hbasic, hmapped⟩ := IlaMapper.map_conditions port hexp.proper hmap
  obtain ⟨i, hi⟩ := List.mem_iff_getElem?.mp (mem_mapperConditions hstate hbranch hcond hmus)
  obtain ⟨c', hc', hm⟩ := Py.forall₂_getElem? hmapped hi
  have hkept := hexp.registerKept (m := tsmMapper ⟨portsFromTcfProps tcfPorts, states⟩
    basic) rfl mapped (Settings.unitIndex tcfPorts basic) hi
  have hname : IlaMapper.conditionName mapped.isBasicCapture i c' =
      makeTcName state.index b := by
    rw [← conditionName_mapperCondition mapped.isBasicCapture i state.index b cond,
      IlaMapper.conditionName, IlaMapper.conditionName, hm.name_eq]
  obtain ⟨reg, hreg, hget⟩ := Mapping.getRegMuMapping_condition h.regs_eq hc'
    (hkept.later hmapped hbasic (by rw [hname, conditionName_mapperCondition]))
    fun u _ => hname ▸ ne_of_head (head_muName _) (head_makeTcName _ _) (by decide)
  rw [hname] at hget
  rw [registerHolds, h.get?_of_regs (Or.inl (head_makeTcName _ _)) hget]
  show Mapping.conditionRegisterHolds _ reg = _
  have hcondition := (hexp.conditions state hstate branch (List.mem_of_getElem? hbranch) cond
    hcond).holds_mapperCondition state.index b port
  rw [← hcondition, ← hm.holds_eq]
  refine Mapping.conditionRegisterHolds_eq port _ hreg (fun mt hmt => ?_) fun mt hmt => ?_
  · obtain ⟨p, j, v, -, hj, -⟩ := (hm.upper mt hmt).2
    rw [hj]
    exact Int.natCast_nonneg j
  · exact h.muHolds_eq hdistinct port (hm.upper mt hmt).1 (hm.upper mt hmt).2

end ExpressibleStates

end Chipscopy.Tsm
