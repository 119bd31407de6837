import Chipscopy.Tsm.ConditionRegisters

/-! The core runs the program

    The core reads its registers: the condition registers of its state select match units, which
    look at the ports; the selected counter is compared with its configured value; and the word at
    the address of the state and of these inputs says what is done and which state comes next. On
    the settings of a program without errors it does, on every sequence of port signals and counter
    values, what the program does when its conditions are read as they stand. -/

namespace Chipscopy.Tsm

open Mapping (Signal registerHolds)

/-! ### The core -/

/-- What the core sees in one step. -/
structure CoreInput where
  port : ℕ → Signal
  counter : Fin counterCount → ℕ

/-- The counter has the value of its register. -/
def counterMatches (props : Props) (counter : Fin counterCount → ℕ) (i : Fin counterCount) : Bool :=
  props.get? (counterName i) = some (toString (counter i)).toList

def coreInput (props : Props) (wiring : ℕ → Option ℕ) (s : ℕ) (selected : Fin counterCount)
    (inp : CoreInput) : ILATsmInput where
  ifMux := registerHolds props wiring inp.port (makeTcName s 0)
  elseIfMux := registerHolds props wiring inp.port (makeTcName s 1)
  counterMux := counterMatches props inp.counter selected

def coreTable (props : Props) : List ILATsmAction :=
  ((props.get? "fsm").bind fun text => (readFsm text).toOption).getD []

/-- One step of the core from a state and the counter that is selected there. -/
def coreStep (props : Props) (wiring : ℕ → Option ℕ) (config : ℕ × Fin counterCount)
    (inp : CoreInput) : (ℕ × Fin counterCount) × Effect :=
  let (next, effect) :=
    tableStep (coreTable props) config.1 (coreInput props wiring config.1 config.2 inp)
  ((next, Fin.ofNat counterCount effect.selectCounter), effect)

/-! ### The program -/

/-- Truth of a counter compare. -/
def ILATsmCounterCompare.holds (counter : Fin counterCount → ℕ) (cmp : ILATsmCounterCompare) :
    Bool :=
  let equal :=
    (IntLiteral.int 2 cmp.compareValue).toOption = some (counter cmp.counterIndex : ℤ)
  if cmp.compareOp = .neq then !equal else equal

/-- Compares are read on the whole probe and on the counter that they name. -/
def CoreInput.assignment (inp : CoreInput) : Assignment where
  probe mu := mu.holds inp.port
  counter cmp := cmp.holds inp.counter

/-- First action block whose condition holds, otherwise the last one. -/
def StateBlock.selectWhen (v : Assignment) : StateBlock → Actions
  | .stateNoIf _ actions => actions
  | .stateIf _ c =>
    if c.ifCond.holds v then c.ifActions
    else
      match c.elseIf, c.elseActions with
      | none, none => c.ifActions
      | none, some last => last
      | some (_, last), none => last
      | some (cond, actions), some last => if cond.holds v then actions else last

/-- One step of the program. -/
def programStep (blocks : List StateBlock) (s : ℕ) (inp : CoreInput) : ℕ × Effect :=
  match blocks[s]? with
  | none => (0, decode ILATsmAction.default)
  | some block =>
    let actions := block.selectWhen inp.assignment
    let target := actions.target (blocks.map StateBlock.name)
    (target, actions.effect target (comparedCounter blocks target))

theorem coreTable_eq {props : Props} {rows : List ILATsmAction}
    (h : props.get? "fsm" = some (fsmText rows)) (hne : rows ≠ []) : coreTable props = rows := by
  rw [coreTable, h, Option.bind_some, readFsm_fsmText hne]
  rfl

/-! ### Accepted programs -/

/-- A program whose conditions the registers can express: no counter compare in front of mixed
    operators, and compares that are expressed by the matches of their port ranges. -/
structure IlaTsm.Expressible (p : IlaTsm) : Prop where
  leftAssoc : ∀ c ∈ p.conditions, c.LeftAssoc
  not_mixed : ∀ c ∈ p.conditions, ¬ c.CounterFirstMixed
  compares : ∀ c ∈ p.conditions, (ILATsmCondition.fromItemList (visitFullCondition c).1).Expressible

theorem mem_conditions {p : IlaTsm} {block : StateBlock} (hblock : block ∈ p.blocks)
    {e : Option Condition × Actions} (he : e ∈ block.branches) {c : Condition} (hc : e.1 = some c) :
    c ∈ p.conditions :=
  List.mem_flatMap.mpr ⟨block, hblock, List.mem_filterMap.mpr ⟨e, he, hc⟩⟩

theorem visitFullCondition_of_visitStateBlock {ck : ILATsmCheckAndBuild} {block : StateBlock}
    (h : (ck.visitStateBlock block).2 = []) {e : Option Condition × Actions}
    (he : e ∈ block.branches) {c : Condition} (hc : e.1 = some c) :
    (visitFullCondition c).2 = [] := by
  cases block with
  | stateNoIf name actions =>
    rw [List.mem_singleton.mp he] at hc
    cases hc
  | stateIf name cond =>
    obtain ⟨ifCond, ifActions, elseIf, elseActions⟩ := cond
    simp only [ILATsmCheckAndBuild.visitStateBlock, ILATsmCheckAndBuild.visitIfCondition,
      List.append_eq_nil_iff, List.flatMap_eq_nil_iff] at h
    have hconditions : (IfCondition.mk ifCond ifActions elseIf elseActions).fullConditions =
        (StateBlock.stateIf name ⟨ifCond, ifActions, elseIf, elseActions⟩).branches.filterMap
          (·.1) := by
      cases elseIf <;> cases elseActions <;> rfl
    have hmem : c ∈ (IfCondition.mk ifCond ifActions elseIf elseActions).fullConditions :=
      hconditions.symm ▸ List.mem_filterMap.mpr ⟨e, he, hc⟩
    exact h.1.1.1 _ (List.mem_map_of_mem hmem)

/-- An accepted condition without mixed operators means what its flat list means. -/
theorem holds_fromItemList {c : Condition} (hgrammar : c.LeftAssoc)
    (haccepted : (visitFullCondition c).2 = []) (hmixed : ¬ c.CounterFirstMixed) (v : Assignment) :
    (ILATsmCondition.fromItemList (visitFullCondition c).1).holds v = c.holds v := by
  obtain ⟨herrors, hverify⟩ := List.append_eq_nil_iff.mp haccepted
  obtain ⟨k, hk⟩ := verifyCondition_shape hverify
  have hlist : (visitFullCondition c).1 = k.toList := hk
  rw [hlist, fromItemList_toList, condition_holds]
  cases k with
  | probes o mu mus => exact (holds_of_probes v hk).symm
  | counter cmp => exact ((holds_of_counter hk).2 v).symm
  | counterLast o mu mus op cmp => exact (holds_of_counterLast v hgrammar herrors hk).symm
  | counterFirst cmp op o mu mus =>
    obtain ⟨ops, h⟩ := counterFirst_of_list herrors hk
    rw [h.mixed_iff, not_and_or, not_not, not_not] at hmixed
    exact (h.holds_eq hmixed v).symm

/-- The two inputs of a condition evaluate it: the probe input is asked for when there are probe
    compares, the counter input when there is a counter compare. -/
theorem evalCondition_eq_holds {l : ConditionList} (h : verifyCondition l = []) {v : Assignment}
    {probeMux counterMux : Bool}
    (hprobe : (ILATsmCondition.fromItemList l).matchUnits ≠ [] →
      probeMux = (ILATsmCondition.fromItemList l).getMapperProbeOperator.join v.probe
        (ILATsmCondition.fromItemList l).matchUnits)
    (hcounter : ∀ cmp, (ILATsmCondition.fromItemList l).counterCompare = some cmp →
      counterMux = if cmp.compareOp = .neq then !v.counter cmp else v.counter cmp) :
    (ILATsmCondition.fromItemList l).evalCondition probeMux counterMux =
      (ILATsmCondition.fromItemList l).holds v := by
  obtain ⟨k, rfl⟩ := verifyCondition_shape h
  rw [fromItemList_toList] at *
  cases k with
  | counter cmp =>
    rw [ILATsmCondition.holds, hcounter cmp rfl]
    rfl
  | probes o mu mus =>
    rw [ILATsmCondition.holds, hprobe (by simp [Checked.condition])]
    rfl
  | counterFirst cmp op o mu mus | counterLast o mu mus op cmp =>
    rw [ILATsmCondition.holds, hprobe (by simp [Checked.condition]), hcounter cmp rfl]
    rfl

theorem counterCompare_mem {l : ConditionList} (h : verifyCondition l = [])
    {cmp : ILATsmCounterCompare}
    (hcmp : (ILATsmCondition.fromItemList l).counterCompare = some cmp) :
    .counter cmp ∈ l.operands := by
  obtain ⟨k, rfl⟩ := verifyCondition_shape h
  rw [fromItemList_toList] at hcmp
  cases k with
  | probes o mu mus => cases hcmp
  | counter cmp' | counterFirst cmp' op o mu mus =>
    cases hcmp
    exact List.mem_cons_self
  | counterLast o mu mus op cmp' =>
    cases hcmp
    simp [Checked.toList, ConditionList.operands]

/-! ### Counters -/

theorem eq_of_toString_eq {n : ℤ} {m : ℕ} (h : toString n = toString m) : n = m := by
  cases n with
  | ofNat k => exact congrArg Int.ofNat (Nat.repr_injective h)
  | negSucc k =>
    -- the text of a counter has no sign
    have htext : toString (Int.negSucc k) = "-" ++ Nat.repr (k + 1) := rfl
    have hmem : '-' ∈ Nat.toDigits 10 m := by
      rw [← Nat.toList_repr, show m.repr = "-" ++ Nat.repr (k + 1) from (htext.symm.trans h).symm,
        String.toList_append]
      exact List.mem_cons_self
    obtain ⟨d, hd, heq⟩ := Py.exists_of_mem_toDigits hmem
    have hdigits : ∀ d < 10, '-' ≠ Nat.digitChar d := by decide
    exact absurd heq (hdigits d hd)

theorem toString_toList_eq_iff {n : ℤ} {m : ℕ} :
    (toString n).toList = (toString m).toList ↔ n = m := by
  refine ⟨fun h => eq_of_toString_eq (String.toList_inj.mp h), ?_⟩
  rintro rfl
  rfl

/-- What the counter registers of the settings show. -/
theorem counterMatches_eq {states : List ILATsmState} {values : List (Fin counterCount × List Char)}
    {props : Props} (hvalues : counterValues states = .ok values)
    (hprops : ∀ idx : Fin counterCount, props.get? (counterName idx) =
      some (((Py.Dict.empty.update values).get? idx).getD ['0']))
    (hsame : ∀ a ∈ branchCompares states, ∀ b ∈ branchCompares states,
      a.counterIndex = b.counterIndex → a.compareValue = b.compareValue)
    {cmp : ILATsmCounterCompare} (hcmp : cmp ∈ branchCompares states)
    (counter : Fin counterCount → ℕ) : counterMatches props counter cmp.counterIndex = decide
      ((IntLiteral.int 2 cmp.compareValue).toOption = some (counter cmp.counterIndex : ℤ)) := by
  have hall := Py.forall₂_of_mapExcept_ok hvalues
  have hentry : ∀ (a : ILATsmCounterCompare) r, (IntLiteral.int 2 a.compareValue).map
      (fun n => (a.counterIndex, (toString n).toList)) = .ok r →
      ∃ n, IntLiteral.int 2 a.compareValue = .ok n ∧ r = (a.counterIndex, (toString n).toList) := by
    intro a r h
    cases hint : IntLiteral.int 2 a.compareValue with
    | error e => rw [hint] at h; cases h
    | ok n => rw [hint] at h; cases h; exact ⟨n, rfl, rfl⟩
  obtain ⟨k, hk⟩ := List.mem_iff_getElem?.mp hcmp
  obtain ⟨r, hr, hrel⟩ := Py.forall₂_getElem? hall hk
  obtain ⟨n, hn, rfl⟩ := hentry cmp r hrel
  have hget : (Py.Dict.empty.update values).get? cmp.counterIndex = some (toString n).toList := by
    refine Py.Dict.get?_update_of_mem _ _ (List.mem_of_getElem? hr) ?_
    intro e he hidx
    -- another compare of the counter has the same value
    obtain ⟨k', hk'⟩ := List.mem_iff_getElem?.mp he
    obtain ⟨a, ha, hrel'⟩ := Py.forall₂_getElem? (List.Forall₂.flip hall) hk'
    obtain ⟨n', hn', rfl⟩ := hentry a e hrel'
    rw [hsame a (List.mem_of_getElem? ha) cmp hcmp hidx, hn] at hn'
    cases hn'
    rfl
  rw [counterMatches, hprops, hget, hn, Option.getD_some, decide_eq_decide, Option.some_inj,
    toString_toList_eq_iff]
  exact Option.some_inj.symm

/-! ### Settings of an accepted program -/

/-- The states of a program that are mapped. -/
def mappedStates (ck : ILATsmCheckAndBuild) (p : IlaTsm) : List ILATsmState :=
  p.blocks.map (selectedState ck (comparedCounter p.blocks))

/-- The settings are those of the program, which has no errors. -/
structure Loaded (ck : ILATsmCheckAndBuild) (p : IlaTsm) (ports : List ILAPort)
    (hasBasicCaptureControl : Bool) (mapped : Mapping.IlaMapper) (regs props : Props) : Prop where
  checked : ProgramChecked ck p
  names_nodup : (p.blocks.map StateBlock.name).Nodup
  conditions : ∀ c ∈ p.conditions, (visitFullCondition c).2 = []
  counters : ∀ a ∈ p.counterCompares, ∀ b ∈ p.counterCompares, a.counterIndex = b.counterIndex →
    a.compareValue = b.compareValue
  settings : Settings ⟨ports, mappedStates ck p⟩ hasBasicCaptureControl mapped regs props

theorem buildStates_accepted {counterWidths : Fin counterCount → ℕ} {p : IlaTsm}
    (h : (buildStates counterWidths p).2 = []) : (scanStates p).2 = [] ∧
      ∀ c ∈ p.conditions, (visitFullCondition c).2 = [] := by
  cases hscan : scanStates p with
  | mk names errors =>
    simp only [buildStates, hscan] at h
    split at h
    · next hne => exact absurd h hne
    · next hnil =>
      refine ⟨not_not.mp hnil, fun c hc => ?_⟩
      obtain ⟨block, hblock, hc⟩ := List.mem_flatMap.mp hc
      obtain ⟨e, he, hc⟩ := List.mem_filterMap.mp hc
      exact visitFullCondition_of_visitStateBlock
        (List.flatMap_eq_nil_iff.mp h _ (List.mem_map_of_mem hblock)) he hc

theorem checkAndBuild_accepted {counterWidths : Fin counterCount → ℕ} {p : IlaTsm}
    {states : List ILATsmState} {report : Report}
    (h : checkAndBuild counterWidths p = .ok (states, report)) (hmessages : report.messages = [])
    (hconflicts : report.counterConflicts = []) : (buildStates counterWidths p).2 = [] ∧
      selectCounterActions (buildStates counterWidths p).1 = .ok states ∧
      (p.counterCompares.foldl verifyCounterMatch {}).conflicts = [] := by
  simp only [checkAndBuild] at h
  split at h
  · next hscan =>
    cases h
    exact absurd (buildStates_accepted hmessages).1 hscan
  · cases hselect : selectCounterActions (buildStates counterWidths p).1 with
    | error e => rw [hselect] at h; cases h
    | ok states' =>
      rw [hselect] at h
      cases h
      simp only [List.append_eq_nil_iff] at hmessages
      exact ⟨hmessages.1.1, rfl, hconflicts⟩

/-- Without an error the settings are those of the program. -/
theorem loaded_of_parse {counterWidths : Fin counterCount → ℕ} {ports : List ILAPort}
    {hasBasicCaptureControl compileOnly : Bool} {p : IlaTsm} {report : Report} {props : Props}
    (h : parse counterWidths ports hasBasicCaptureControl compileOnly p = .ok (report, some props))
    (hok : report.errorCount = 0) :
    ∃ ck mapped regs, Loaded ck p ports hasBasicCaptureControl mapped regs props := by
  obtain ⟨⟨states, checks⟩, hcheck, h⟩ := Py.bind_eq_ok h
  simp only at h
  split at h
  · obtain ⟨⟨props', errors⟩, hmap, h⟩ := Py.bind_eq_ok h
    cases h
    simp only [Report.errorCount, Nat.add_eq_zero_iff, List.length_eq_zero_iff] at hok
    obtain ⟨⟨hmessages, hconflicts⟩, rfl⟩ := hok
    obtain ⟨hbuild, hselect, hcounters⟩ := checkAndBuild_accepted hcheck hmessages hconflicts
    obtain ⟨hscan, hconditions⟩ := buildStates_accepted hbuild
    obtain ⟨ck, hck, hstates⟩ := buildStates_ok hbuild
    rw [hstates, selectCounterActions_ok hck.names_eq (Nat.succ_pos _) hck.blocks] at hselect
    cases hselect
    obtain ⟨mapped, regs, hsettings⟩ := settings_of_mapTsmToProps hmap
    exact ⟨ck, mapped, regs, hck, (scanStates_ok hscan).2.1, hconditions,
      fun a ha b hb => compareValue_eq hcounters ha hb, hsettings⟩
  · cases h

namespace Loaded

variable {ck : ILATsmCheckAndBuild} {p : IlaTsm} {ports : List ILAPort}
  {hasBasicCaptureControl : Bool} {mapped : Mapping.IlaMapper} {regs props : Props}
  (h : Loaded ck p ports hasBasicCaptureControl mapped regs props)
include h

theorem state_index {s : ℕ} {block : StateBlock} (hs : p.blocks[s]? = some block) :
    (selectedState ck (comparedCounter p.blocks) block).index = s := by
  have hidx : (selectedState ck (comparedCounter p.blocks) block).index =
      ck.stateNames.idxOf block.name := by
    cases block <;> rfl
  obtain ⟨hlt, rfl⟩ := List.getElem?_eq_some_iff.mp hs
  have hname := h.names_nodup.idxOf_getElem s (by rwa [List.length_map])
  rwa [hidx, h.checked.names_eq, ← List.getElem_map StateBlock.name]

/-- The branches of a state are those of its block. -/
theorem branch_eq {block : StateBlock} (hblock : block ∈ p.blocks) {b : ℕ}
    {e : Option Condition × Actions} (he : block.branches[b]? = some e) :
    (selectedState ck (comparedCounter p.blocks) block).branches[b]? =
      some (withCounter (comparedCounter p.blocks) (mkBranch ck (e, b))) := by
  rw [selectedState, (h.checked.blocks block hblock).branches_eq, List.map_map, List.getElem?_map,
    List.getElem?_zipIdx, he]
  simp

theorem exists_of_mem_branches {state : ILATsmState} (hstate : state ∈ mappedStates ck p)
    {branch : ILATsmBranch} (hbranch : branch ∈ state.branches) {cond : ILATsmCondition}
    (hcond : branch.condition = some cond) :
    ∃ c ∈ p.conditions, cond = .fromItemList (visitFullCondition c).1 := by
  obtain ⟨block, hblock, rfl⟩ := List.mem_map.mp hstate
  rw [selectedState, (h.checked.blocks block hblock).branches_eq] at hbranch
  obtain ⟨built, hbuilt, rfl⟩ := List.mem_map.mp hbranch
  obtain ⟨⟨e, b⟩, he, rfl⟩ := List.mem_map.mp hbuilt
  obtain ⟨c, hc, rfl⟩ := Option.map_eq_some_iff.mp hcond
  exact ⟨c, mem_conditions hblock (List.fst_mem_of_mem_zipIdx he) hc, rfl⟩

theorem branchCompares_subset :
    ∀ cmp ∈ branchCompares (mappedStates ck p), cmp ∈ p.counterCompares := by
  intro cmp hcmp
  obtain ⟨state, hstate, hcmp⟩ := List.mem_flatMap.mp hcmp
  obtain ⟨branch, hbranch, hcmp⟩ := List.mem_filterMap.mp hcmp
  obtain ⟨cond, hcond, hcmp⟩ := Option.bind_eq_some_iff.mp hcmp
  obtain ⟨c, hc, rfl⟩ := h.exists_of_mem_branches hstate hbranch hcond
  have hverify := verifyCondition_of_visitFullCondition (h.conditions c hc)
  exact List.mem_flatMap.mpr ⟨c, hc, List.mem_filterMap.mpr
    ⟨.counter cmp, counterCompare_mem hverify hcmp, rfl⟩⟩

theorem expressibleStates (hexp : p.Expressible) : ExpressibleStates (mappedStates ck p) := by
  have hindex : ∀ state ∈ mappedStates ck p, ∃ s < p.blocks.length, state.index = s := by
    intro state hstate
    obtain ⟨block, hblock, rfl⟩ := List.mem_map.mp hstate
    obtain ⟨s, hs⟩ := List.mem_iff_getElem?.mp hblock
    exact ⟨s, (List.getElem?_eq_some_iff.mp hs).1, h.state_index hs⟩
  refine ⟨?_, fun state hstate => ?_, fun state hstate branch hbranch cond hcond => ?_⟩
  · have hindices : (mappedStates ck p).map (·.index) = List.range p.blocks.length := by
      refine List.ext_getElem (by simp [mappedStates]) fun s hs _ => ?_
      have hlt : s < p.blocks.length := by simpa [mappedStates] using hs
      simpa [mappedStates] using h.state_index (List.getElem?_eq_getElem hlt)
    rw [hindices]
    exact List.nodup_range
  · obtain ⟨s, hs, heq⟩ := hindex state hstate
    exact heq ▸ hs.trans_le h.checked.length_le
  · obtain ⟨c, hc, rfl⟩ := h.exists_of_mem_branches hstate hbranch hcond
    exact hexp.compares c hc

end Loaded

section

variable {ck : ILATsmCheckAndBuild} {p : IlaTsm} {tcfPorts : List (ℕ × List ℕ)}
  {hasBasicCaptureControl : Bool} {mapped : Mapping.IlaMapper} {regs props : Props}
  (h : Loaded ck p (portsFromTcfProps tcfPorts) hasBasicCaptureControl mapped regs props)
  (hexp : p.Expressible) (hdistinct : DistinctUnits tcfPorts) {s : ℕ} {block : StateBlock}
  (hs : p.blocks[s]? = some block)
include h hexp hdistinct hs

/-- The inputs of a condition make it hold when its tree holds. -/
theorem Loaded.holdsOn_eq {b : ℕ} {c : Condition} {actions : Actions}
    (he : block.branches[b]? = some (some c, actions)) (inp : CoreInput) :
    c.holdsOn
      (registerHolds props (muWiring (portsFromTcfProps tcfPorts)) inp.port (makeTcName s b))
      (counterMatches props inp.counter (comparedCounter p.blocks s)) = c.holds inp.assignment := by
  have hblock := List.mem_of_getElem? hs
  have hc := mem_conditions hblock (List.mem_of_getElem? he) rfl
  have hverify := verifyCondition_of_visitFullCondition (h.conditions c hc)
  have hstate : selectedState ck (comparedCounter p.blocks) block ∈ mappedStates ck p :=
    List.mem_map_of_mem hblock
  have hbranch := h.branch_eq hblock he
  rw [Condition.holdsOn, ← evalCondition_fromItemList hverify,
    evalCondition_eq_holds hverify (v := inp.assignment) (fun hmus => ?_) fun cmp hcmp => ?_,
    holds_fromItemList (hexp.leftAssoc c hc) (h.conditions c hc) (hexp.not_mixed c hc)]
  · have hregister := (h.expressibleStates hexp).registerHolds_makeTcName h.settings hdistinct
      hstate hbranch rfl hmus inp.port
    rwa [h.state_index hs] at hregister
  · obtain ⟨values, hvalues, hprops⟩ := h.settings.counter
    have hcompare : cmp ∈ branchCompares (mappedStates ck p) :=
      List.mem_flatMap.mpr ⟨_, hstate,
        List.mem_filterMap.mpr ⟨_, List.mem_of_getElem? hbranch, hcmp⟩⟩
    have hmem : cmp.counterIndex ∈ block.comparedCounters := by
      rw [comparedCounters_eq]
      exact List.mem_flatMap.mpr ⟨_, List.mem_map_of_mem (List.mem_filterMap.mpr
        ⟨_, List.mem_of_getElem? he, rfl⟩), List.mem_filterMap.mpr
        ⟨.counter cmp, counterCompare_mem hverify hcmp, rfl⟩⟩
    have hsame : ∀ a ∈ branchCompares (mappedStates ck p), ∀ b ∈ branchCompares (mappedStates ck p),
        a.counterIndex = b.counterIndex → a.compareValue = b.compareValue := fun a ha b hb =>
      h.counters a (h.branchCompares_subset a ha) b (h.branchCompares_subset b hb)
    rw [h.checked.comparedCounter_eq hs hmem, counterMatches_eq hvalues hprops hsame hcompare]
    by_cases hop : cmp.compareOp = .neq <;>
      simp [CoreInput.assignment, ILATsmCounterCompare.holds, hop]

/-- The core selects the action block that the program selects. -/
theorem Loaded.select_eq (inp : CoreInput) :
    block.select (coreInput props (muWiring (portsFromTcfProps tcfPorts)) s
      (comparedCounter p.blocks s) inp) = block.selectWhen inp.assignment := by
  cases block with
  | stateNoIf name actions => rfl
  | stateIf name cond =>
    obtain ⟨ifCond, ifActions, elseIf, elseActions⟩ := cond
    have hif := h.holdsOn_eq hexp hdistinct hs (b := 0) (c := ifCond) rfl inp
    cases elseIf with
    | none =>
      cases elseActions <;>
        simp only [StateBlock.select, StateBlock.selectWhen, coreInput, hif]
    | some e =>
      have helse := h.holdsOn_eq hexp hdistinct hs (b := 1) (c := e.1) rfl inp
      cases elseActions <;>
        simp only [StateBlock.select, StateBlock.selectWhen, coreInput, hif, helse]

omit hexp hdistinct in
/-- The table in the settings is the table of the program. -/
theorem Loaded.tableStep_eq (inp : ILATsmInput) : tableStep (coreTable props) s inp =
    ((block.effect p.blocks inp).goto, block.effect p.blocks inp) := by
  obtain ⟨rows, hrows, hfsm⟩ := h.settings.fsm
  have htable := h.checked.createTsmTableActions_ok
  rw [show p.blocks.map (selectedState ck (comparedCounter p.blocks)) = mappedStates ck p from rfl,
    hrows] at htable
  cases htable
  have hlen : ∀ block, (inputRows.map (tableWord ck p.blocks block)).length = tableRowsPerState :=
    fun block => by rw [List.length_map, length_inputRows]
  have hrow := Py.getElem?_flatMap_of_length hlen p.blocks s (row_lt inp)
  rw [hs, Option.bind_some, List.getElem?_map, getElem?_inputRows, Option.map_some] at hrow
  have hne : p.blocks.flatMap (fun block => inputRows.map (tableWord ck p.blocks block)) ++
      List.replicate ((maxStateCount - p.blocks.length) * tableRowsPerState)
        ILATsmAction.default ≠ [] := by
    intro hnil
    rw [(List.append_eq_nil_iff.mp hnil).1] at hrow
    cases hrow
  rw [tableStep, coreTable_eq hfsm hne, List.getD_eq_getElem?_getD,
    List.getElem?_append_left (List.getElem?_eq_some_iff.mp hrow).1, hrow, Option.getD_some,
    h.checked.decode_tableWord (List.mem_of_getElem? hs)]

theorem Loaded.programStep_lt (inp : CoreInput) :
    (programStep p.blocks s inp).1 < p.blocks.length := by
  have hlt := h.checked.target_lt (List.mem_of_getElem? hs) (coreInput props
    (muWiring (portsFromTcfProps tcfPorts)) s (comparedCounter p.blocks s) inp)
  rw [StateBlock.effect, h.select_eq hexp hdistinct hs inp] at hlt
  rw [programStep, hs]
  exact hlt

/-- One step of the core, with the counter of its state selected, is one step of the program. -/
theorem Loaded.coreStep_eq (inp : CoreInput) :
    coreStep props (muWiring (portsFromTcfProps tcfPorts)) (s, comparedCounter p.blocks s) inp =
      (((programStep p.blocks s inp).1, comparedCounter p.blocks (programStep p.blocks s inp).1),
        (programStep p.blocks s inp).2) := by
  have hselect := h.select_eq hexp hdistinct hs inp
  simp only [coreStep, h.tableStep_eq hs, programStep, hs, StateBlock.effect, hselect,
    Actions.effect]
  refine congrArg (fun c => ((_, c), _)) (Fin.ext ?_)
  exact Nat.mod_eq_of_lt (comparedCounter p.blocks _).isLt

end

/-- On the settings of a program without errors, whose conditions they can express, the core does
    what the program does, for every sequence of port signals and counter values, from every state
    with the counter of the state selected. -/
theorem coreStep_simulates {counterWidths : Fin counterCount → ℕ} {tcfPorts : List (ℕ × List ℕ)}
    {hasBasicCaptureControl compileOnly : Bool} {p : IlaTsm} {report : Report} {props : Props}
    (hparse : parse counterWidths (portsFromTcfProps tcfPorts) hasBasicCaptureControl compileOnly
      p = .ok (report, some props)) (hok : report.errorCount = 0) (hexp : p.Expressible)
    (hdistinct : DistinctUnits tcfPorts) {s : ℕ} (hs : s < p.blocks.length)
    (inputs : List CoreInput) :
    (Machine.run (coreStep props (muWiring (portsFromTcfProps tcfPorts)))
      (s, comparedCounter p.blocks s) inputs).map (·.2) =
      (Machine.run (programStep p.blocks) s inputs).map (·.2) := by
  obtain ⟨ck, mapped, regs, h⟩ := loaded_of_parse hparse hok
  have hsim : Machine.Simulates (coreStep props (muWiring (portsFromTcfProps tcfPorts)))
      (programStep p.blocks) fun config s =>
        s < p.blocks.length ∧ config = (s, comparedCounter p.blocks s) := by
    rintro _ s inp ⟨hs, rfl⟩
    have hblock := List.getElem?_eq_getElem hs
    rw [h.coreStep_eq hexp hdistinct hblock inp]
    exact ⟨⟨h.programStep_lt hexp hdistinct hblock inp, rfl⟩, rfl⟩
  have hrun := hsim.run inputs ⟨hs, rfl⟩
  rw [← List.forall₂_eq_eq_eq, List.forall₂_map_left_iff, List.forall₂_map_right_iff]
  exact hrun.imp fun _ _ h => h.2

theorem expressible_waitForProbe : waitForProbe.Expressible := by
  have hconditions : waitForProbe.conditions =
      [.logicOp (probeCompare "a") .or (.counterMatch ⟨1, .eq, ['1', '1']⟩)] := rfl
  refine ⟨?_, ?_, ?_⟩ <;> rw [hconditions] <;> refine List.forall_mem_singleton.mpr ?_
  · exact ⟨trivial, trivial, rfl⟩
  · rintro ⟨op, o, ops, hspine, -⟩
    cases hspine
  · refine List.forall_mem_singleton.mpr ⟨rfl, ⟨?_, ?_⟩, ?_, trivial⟩
    · simp [Mapping.matchBitValues]
    · simp
    · refine List.forall_mem_singleton.mpr fun hcares => ?_
      exact absurd (hcares '1' List.mem_cons_self) (by decide)

/-- The probe on port 0 is set in the second step. -/
def setLater : List CoreInput :=
  [⟨fun _ _ => (false, false), fun _ => 0⟩, ⟨fun _ _ => (false, true), fun _ => 1⟩]

/-- One port of one bit with one match unit. -/
theorem coreStep_simulates_waitForProbe : ∃ report props,
    parse (fun _ => 8) (portsFromTcfProps [(1, [0])]) false false waitForProbe =
      .ok (report, some props) ∧
    (Machine.run (coreStep props (muWiring (portsFromTcfProps [(1, [0])])))
      (0, comparedCounter waitForProbe.blocks 0) setLater).map (·.2) =
      (Machine.run (programStep waitForProbe.blocks) 0 setLater).map (·.2) := by
  have haccepted : (parse (fun _ => 8) (portsFromTcfProps [(1, [0])]) false false
      waitForProbe).toOption.map (fun r => (r.1.errorCount, r.2.isSome)) = some (0, true) := by
    decide +kernel
  cases hparse : parse (fun _ => 8) (portsFromTcfProps [(1, [0])]) false false waitForProbe with
  | error e => rw [hparse] at haccepted; cases haccepted
  | ok r =>
    obtain ⟨report, _ | props⟩ := r
    · rw [hparse] at haccepted
      exact absurd (congrArg Prod.snd (Option.some.inj haccepted)) Bool.false_ne_true
    · have hok : report.errorCount = 0 := by
        rw [hparse] at haccepted
        exact congrArg Prod.fst (Option.some.inj haccepted)
      exact ⟨report, props, rfl, coreStep_simulates hparse hok expressible_waitForProbe
        (List.nodup_singleton 0) (Nat.succ_pos _) _⟩

end Chipscopy.Tsm
