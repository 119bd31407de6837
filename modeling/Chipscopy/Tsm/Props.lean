import Chipscopy.IlaMapper.Registers
import Chipscopy.Lib.IntLiteral
import Chipscopy.Lib.Numerals
import Chipscopy.Tsm.Reachability
import Chipscopy.Tsm.Split
import Chipscopy.Tsm.Simulation

/-! Register settings of a state machine

    A program without errors becomes one dictionary of registers: a trigger condition register for
    both conditions of each of the sixteen states, all don't care where the program has no probe
    compares, the match units that the conditions select, the compare values of the counters, and
    the words of the table as text. No entry replaces another one. -/

namespace Chipscopy.Tsm

open Mapping (IlaMapper Signal)

/-- Register name and text. -/
abbrev Props := Py.Dict String (List Char)

structure ILAPort where
  bitWidth : ℕ
  index : ℕ
  matchUnits : List ℕ
  deriving DecidableEq

/-- The ports of a core, each given by its width and its match units; the index is the position. -/
def portsFromTcfProps (ports : List (ℕ × List ℕ)) : List ILAPort :=
  ports.zipIdx.map fun ((bitWidth, mus), pIndex) => ⟨bitWidth, pIndex, mus⟩

structure ILATsmData where
  ports : List ILAPort
  states : List ILATsmState

namespace ILATsmData

def getMatchUnitCount (tsmData : ILATsmData) : ℕ :=
  (tsmData.ports.map fun port => port.matchUnits.length).sum

end ILATsmData

def maxConditionCountPerState : ℕ := 2

def getUnusedTcValue (matchUnitCount : ℕ) : List Char :=
  '=' :: '=' :: List.replicate matchUnitCount 'x'

/-! ### Trigger conditions and match units -/

/-- Errors of the mapping. An internal error is reported once here, not for every match unit. -/
inductive MappingError
  | unableToFit (overflowMessage : Option (List String))
  | internalError
  deriving DecidableEq

/-- `create_mu_index_function`: the first match unit of each port may be left out. -/
def getMuIndex (skipFirstMu : Bool) (ports : List ILAPort) (portIndex muIndexWithinPort : ℕ) :
    Option ℕ :=
  let muIndexByPort : Py.Dict (ℕ × ℕ) ℕ := Py.Dict.empty.update (ports.flatMap fun pp =>
    pp.matchUnits.zipIdx.map fun (muIndex, pmuIndex) => ((pp.index, pmuIndex), muIndex))
  muIndexByPort.get? (portIndex, if skipFirstMu then muIndexWithinPort + 1 else muIndexWithinPort)

/-- The ports of the mapper. -/
def mapperPorts (hasBasicCaptureControl : Bool) (ports : List ILAPort) : List Mapping.Port :=
  ports.zipIdx.map fun (pp, index) => {
    index := index
    width := pp.bitWidth
    -- First MU per port is reserved for capture control.
    muCount := if hasBasicCaptureControl then pp.matchUnits.length - 1 else pp.matchUnits.length }

/-- The registers that a mapped state writes; without an index for a match unit in use the caller
    gets an error, and the registers written then are not modelled. -/
def mappedProps (tsmData : ILATsmData) (hasBasicCaptureControl : Bool) (mapped : IlaMapper) :
    Except Py.Error (Props × List MappingError) :=
  let muIndex := getMuIndex hasBasicCaptureControl tsmData.ports
  if mapped.units.all fun (p, j, _) => (muIndex p j).isSome then
    (mapped.getRegMuMapping tsmData.getMatchUnitCount fun p j => (muIndex p j).getD 0).map (·, [])
  else .ok (.empty, [.internalError])

def tsmMapper (tsmData : ILATsmData) (hasBasicCaptureControl : Bool) : IlaMapper where
  ports := mapperPorts hasBasicCaptureControl tsmData.ports
  conditions := mapperConditions tsmData.states

def mapTsmMuTcToProps (tsmData : ILATsmData) (hasBasicCaptureControl : Bool) :
    Except Py.Error (Props × List MappingError) :=
  match (tsmMapper tsmData hasBasicCaptureControl).map false with
  | .error e => .error e
  | .ok ((false, overflowMessage), _) => .ok (.empty, [.unableToFit overflowMessage])
  | .ok ((true, _), mapped) => mappedProps tsmData hasBasicCaptureControl mapped

/-! ### All registers -/

/-- `map_tsm_actions_to_props`: the words in binary, one on each line. -/
def fsmText (actions : List ILATsmAction) : List Char :=
  ['\n'].intercalate (actions.map (Bits.formatBin 24))

def counterName (idx : ℕ) : String := "counter" ++ toString idx ++ "_config"

/-- Counter compares of the branches. -/
def branchCompares (states : List ILATsmState) : List ILATsmCounterCompare :=
  states.flatMap fun state => state.branches.filterMap fun branch =>
    branch.condition.bind (·.counterCompare)

/-- Compare values of the counters, by their index. -/
def counterValues (states : List ILATsmState) :
    Except Py.Error (List (Fin counterCount × List Char)) :=
  Py.mapExcept (fun (ccmp : ILATsmCounterCompare) =>
      -- Convert binary string to unsigned int string.
      (IntLiteral.int 2 ccmp.compareValue).map fun n => (ccmp.counterIndex, (toString n).toList))
    (branchCompares states)

def mapTsmCountersToProps (states : List ILATsmState) :
    Except Py.Error (List (String × List Char)) :=
  (counterValues states).map fun values =>
    (List.finRange counterCount).map fun (idx : Fin counterCount) =>
      (counterName idx, ((Py.Dict.empty.update values).get? idx).getD ['0'])

/-- Initial values for all trigger conditions. -/
def initFsmTcProps (tsmData : ILATsmData) : Props :=
  Py.Dict.empty.update ((List.range maxStateCount).flatMap fun st =>
    (List.range maxConditionCountPerState).map fun br =>
      (makeTcName st br, getUnusedTcValue tsmData.getMatchUnitCount))

def mapTsmToProps (tsmData : ILATsmData) (hasBasicCaptureControl : Bool) :
    Except Py.Error (Props × List MappingError) := do
  let props := initFsmTcProps tsmData
  let (muTcProps, errors) ← mapTsmMuTcToProps tsmData hasBasicCaptureControl
  let counterProps ← mapTsmCountersToProps tsmData.states
  let tsmRowActions ← createTsmTableActions tsmData.states
  return (((props.update muTcProps.entries).update counterProps).update
    [("fsm", fsmText tsmRowActions)], errors)

/-- `dump_fsm_regs` reads the words back. -/
def readFsm (text : List Char) : Except Py.Error (List ILATsmAction) :=
  Py.mapExcept Bits.parseBin (text.splitOn '\n')

/-! ### From the program to the registers -/

def Operand.counter? : Operand → Option ILATsmCounterCompare
  | .probe _ => none
  | .counter cmp => some cmp

/-- Conditions of a program, in order. -/
def IlaTsm.conditions (p : IlaTsm) : List Condition :=
  p.blocks.flatMap fun block => block.branches.filterMap (·.1)

/-- Counter compares in the order in which they are visited. -/
def IlaTsm.counterCompares (p : IlaTsm) : List ILATsmCounterCompare :=
  p.conditions.flatMap fun c => (visitFullCondition c).1.operands.filterMap Operand.counter?

/-- First compare of each counter and the compares with another value than the first. -/
structure CounterMatchCheck where
  found : Py.Dict (Fin counterCount) ILATsmCounterCompare := .empty
  conflicts : List (ILATsmCounterCompare × ILATsmCounterCompare) := []

/-- A counter must use the same compare value in the whole state machine. -/
def verifyCounterMatch (check : CounterMatchCheck) (cmp : ILATsmCounterCompare) :
    CounterMatchCheck :=
  match check.found.get? cmp.counterIndex with
  | none => { check with found := check.found.set cmp.counterIndex cmp }
  | some prev =>
    if prev.compareValue ≠ cmp.compareValue then
      { check with conflicts := check.conflicts ++ [(cmp, prev)] }
    else check

def triggerCount (p : IlaTsm) : ℕ :=
  (p.blocks.flatMap fun block => block.branches.flatMap fun e => e.2.toList).count .trigger

/-- Errors of a program; a conflict of counter compares is shown by the two compares. -/
structure Report where
  messages : List String := []
  counterConflicts : List (ILATsmCounterCompare × ILATsmCounterCompare) := []
  mapping : List MappingError := []

def Report.errorCount (report : Report) : ℕ :=
  report.messages.length + report.counterConflicts.length + report.mapping.length

/-- `visitIla_tsm`, when the scan for state names found no error. -/
def checkAndBuild (counterWidths : Fin counterCount → ℕ) (p : IlaTsm) :
    Except Py.Error (List ILATsmState × Report) :=
  let (states, errors) := buildStates counterWidths p
  if (scanStates p).2 ≠ [] then .ok (states, { messages := errors })
  else
    (selectCounterActions states).map fun states =>
      let conflicts := (p.counterCompares.foldl verifyCounterMatch {}).conflicts
      let unreached :=
        if errors = [] ∧ conflicts = [] then
          (verifyAllStatesVisited states (states.length + 1) ∅ 0).elim [] (·.2)
        else []
      let noTrigger :=
        if triggerCount p = 0 then ["The state machine need at least one trigger action."] else []
      (states, { messages := errors ++ unreached ++ noTrigger, counterConflicts := conflicts })

/-- `ILATsmReader.parse` after the text was parsed; without an error the settings are made. -/
def parse (counterWidths : Fin counterCount → ℕ) (ports : List ILAPort)
    (hasBasicCaptureControl compileOnly : Bool) (p : IlaTsm) :
    Except Py.Error (Report × Option Props) := do
  let (states, report) ← checkAndBuild counterWidths p
  if !compileOnly && report.errorCount = 0 then
    let (props, errors) ← mapTsmToProps ⟨ports, states⟩ hasBasicCaptureControl
    return ({ report with mapping := errors }, some props)
  else return (report, none)

/-! ### Names of registers -/

theorem head_makeTcName (s b : ℕ) : (makeTcName s b).toList.head? = some 't' := by
  rw [makeTcName, String.toList_append]
  rfl

theorem head_muName (i : ℕ) : (IlaMapper.muName i).toList.head? = some 'm' := by
  rw [IlaMapper.muName, String.toList_append]
  rfl

theorem head_counterName (i : ℕ) : (counterName i).toList.head? = some 'c' := by
  rw [counterName, String.toList_append, String.toList_append]
  rfl

theorem head_fsm : "fsm".toList.head? = some 'f' := rfl

/-- Names that start with different characters are different. -/
theorem ne_of_head {s t : String} {a b : Char} (hs : s.toList.head? = some a)
    (ht : t.toList.head? = some b) (hne : a ≠ b) : s ≠ t := by
  rintro rfl
  exact hne (Option.some.inj (hs.symm.trans ht))

theorem makeTcName_injective {s b s' b' : ℕ} (hs : s < maxStateCount) (hs' : s' < maxStateCount)
    (h : makeTcName s b = makeTcName s' b') : s = s' ∧ b = b' := by
  have hlist := congrArg String.toList h
  simp only [makeTcName, String.toList_append, List.append_cancel_left_eq] at hlist
  have hnum := Nat.repr_injective (String.toList_inj.mp hlist)
  simp only [maxStateCount] at *
  omega

theorem counterName_injective {i j : ℕ} (h : counterName i = counterName j) : i = j := by
  have hlist := congrArg String.toList h
  simp only [counterName, String.toList_append, List.append_cancel_left_eq,
    List.append_cancel_right_eq] at hlist
  exact Nat.repr_injective (String.toList_inj.mp hlist)

/-! ### The table as text -/

theorem newline_notMem_formatBin (n : ℕ) : '\n' ∉ Bits.formatBin 24 n := by
  intro h
  rcases Bits.binary_formatBin 24 n '\n' h with h | h <;> cases h

theorem parseBin_formatBin (n : ℕ) : Bits.parseBin (Bits.formatBin 24 n) = .ok n := by
  have hne : Bits.formatBin 24 n ≠ [] := by
    intro h
    have hlen := Bits.le_length_formatBin 24 n
    rw [h] at hlen
    cases hlen
  rw [Bits.parseBin, if_pos ⟨hne, Bits.binary_formatBin 24 n⟩, Bits.number_formatBin]

/-- The words are read back from their text. -/
theorem readFsm_fsmText {actions : List ILATsmAction} (hne : actions ≠ []) :
    readFsm (fsmText actions) = .ok actions := by
  have hsplit : (fsmText actions).splitOn '\n' = actions.map (Bits.formatBin 24) := by
    refine List.splitOn_intercalate '\n' ?_ (by simpa using hne)
    intro l hl
    obtain ⟨n, -, rfl⟩ := List.mem_map.mp hl
    exact newline_notMem_formatBin n
  rw [readFsm, hsplit, Py.mapExcept_map]
  exact (Py.mapExcept_eq_ok fun n _ => parseBin_formatBin n).trans (by rw [List.map_id'])

/-! ### Counter compares -/

/-- The first compare of a counter. -/
def CounterMatchCheck.Knows (check : CounterMatchCheck) (cmp : ILATsmCounterCompare) : Prop :=
  ∃ prev, check.found.get? cmp.counterIndex = some prev ∧ prev.compareValue = cmp.compareValue

/-- A compare without a conflict has the value of the first one, and the first ones stay. -/
theorem verifyCounterMatch_ok {check : CounterMatchCheck} {cmp : ILATsmCounterCompare}
    (h : (verifyCounterMatch check cmp).conflicts = []) :
    check.conflicts = [] ∧ (verifyCounterMatch check cmp).Knows cmp ∧
      ∀ cmp', check.Knows cmp' → (verifyCounterMatch check cmp).Knows cmp' := by
  cases hget : check.found.get? cmp.counterIndex with
  | none =>
    have hstep : verifyCounterMatch check cmp =
        { check with found := check.found.set cmp.counterIndex cmp } := by
      simp only [verifyCounterMatch, hget]
    rw [hstep] at h ⊢
    refine ⟨h, ⟨cmp, Py.Dict.get?_set_self _ _ _, rfl⟩, ?_⟩
    rintro cmp' ⟨prev, hprev, heq⟩
    have hne : cmp'.counterIndex ≠ cmp.counterIndex := by
      intro hidx
      rw [hidx, hget] at hprev
      cases hprev
    exact ⟨prev, (Py.Dict.get?_set_ne _ hne _).trans hprev, heq⟩
  | some prev =>
    simp only [verifyCounterMatch, hget] at h ⊢
    split at h
    · simp at h
    · next heq =>
      rw [if_neg heq]
      exact ⟨h, ⟨prev, hget, not_not.mp heq⟩, fun _ => id⟩

theorem foldl_verifyCounterMatch_ok : ∀ {cmps : List ILATsmCounterCompare}
    {check : CounterMatchCheck}, (cmps.foldl verifyCounterMatch check).conflicts = [] →
      check.conflicts = [] ∧
        (∀ cmp, check.Knows cmp → (cmps.foldl verifyCounterMatch check).Knows cmp) ∧
        ∀ cmp ∈ cmps, (cmps.foldl verifyCounterMatch check).Knows cmp
  | [], check, h => ⟨h, fun _ => id, by simp⟩
  | cmp :: cmps, check, h => by
    obtain ⟨hconflicts, hkeeps, hall⟩ := @foldl_verifyCounterMatch_ok cmps _ h
    obtain ⟨hcheck, hcmp, hstep⟩ := verifyCounterMatch_ok hconflicts
    refine ⟨hcheck, fun cmp' h' => hkeeps cmp' (hstep cmp' h'), ?_⟩
    exact List.forall_mem_cons.mpr ⟨hkeeps cmp hcmp, hall⟩

/-- Without a conflict all compares of a counter have one value. -/
theorem compareValue_eq {cmps : List ILATsmCounterCompare}
    (h : (cmps.foldl verifyCounterMatch {}).conflicts = []) {a b : ILATsmCounterCompare}
    (ha : a ∈ cmps) (hb : b ∈ cmps) (hidx : a.counterIndex = b.counterIndex) :
    a.compareValue = b.compareValue := by
  obtain ⟨-, -, hall⟩ := foldl_verifyCounterMatch_ok h
  obtain ⟨prev, hprev, heq⟩ := hall a ha
  obtain ⟨prev', hprev', heq'⟩ := hall b hb
  rw [hidx, hprev'] at hprev
  cases hprev
  exact heq.symm.trans heq'

/-! ### Match units -/

/-- A match unit of a port by its position there. -/
theorem getMuIndex_eq_some_iff {tcfPorts : List (ℕ × List ℕ)} {skip : Bool} {p j i : ℕ} :
    getMuIndex skip (portsFromTcfProps tcfPorts) p j = some i ↔
      ∃ port, tcfPorts[p]? = some port ∧ port.2[if skip then j + 1 else j]? = some i := by
  have hmem : ∀ p j i, ((p, j), i) ∈ ((portsFromTcfProps tcfPorts).flatMap fun pp =>
      pp.matchUnits.zipIdx.map fun (muIndex, pmuIndex) => ((pp.index, pmuIndex), muIndex)) ↔
      ∃ port, tcfPorts[p]? = some port ∧ port.2[j]? = some i := by
    intro p j i
    simp only [portsFromTcfProps, List.mem_flatMap, List.mem_map, Prod.exists,
      List.mem_zipIdx_iff_getElem?]
    constructor
    · rintro ⟨pp, ⟨w, mus, p', hport, rfl⟩, i', j', hmu, heq⟩
      cases heq
      exact ⟨w, mus, hport, hmu⟩
    · rintro ⟨w, mus, hport, hmu⟩
      exact ⟨_, ⟨w, mus, p, hport, rfl⟩, i, j, hmu, rfl⟩
  rw [← hmem, getMuIndex]
  constructor
  · intro h
    obtain ⟨before, after, hes, -⟩ := Py.Dict.get?_update_empty_iff.mp h
    rw [hes]
    exact List.mem_append_right _ List.mem_cons_self
  · intro h
    refine Py.Dict.get?_update_of_mem _ _ h ?_
    rintro ⟨⟨p', j'⟩, i'⟩ he hkey
    cases hkey
    obtain ⟨port, hport, hi⟩ := (hmem _ _ _).mp h
    obtain ⟨port', hport', hi'⟩ := (hmem _ _ _).mp he
    rw [hport] at hport'
    cases hport'
    exact Option.some.inj (hi'.symm.trans hi)

/-- The port that a match unit is attached to. -/
def muWiring (ports : List ILAPort) (muIndex : ℕ) : Option ℕ :=
  (ports.find? fun pp => muIndex ∈ pp.matchUnits).map (·.index)

/-- No match unit belongs to two ports or twice to one. -/
def DistinctUnits (tcfPorts : List (ℕ × List ℕ)) : Prop := (tcfPorts.flatMap (·.2)).Nodup

namespace DistinctUnits

variable {tcfPorts : List (ℕ × List ℕ)} (h : DistinctUnits tcfPorts) {p p' j j' i : ℕ}
  {port port' : ℕ × List ℕ}
include h

theorem port_eq (hp : tcfPorts[p]? = some port) (hi : i ∈ port.2) (hp' : tcfPorts[p']? = some port')
    (hi' : i ∈ port'.2) : p = p' := by
  have hpair := (List.nodup_flatMap.mp h).2
  obtain ⟨hlt, rfl⟩ := List.getElem?_eq_some_iff.mp hp
  obtain ⟨hlt', rfl⟩ := List.getElem?_eq_some_iff.mp hp'
  rw [List.pairwise_iff_getElem] at hpair
  rcases Nat.lt_trichotomy p p' with hlt'' | heq | hlt''
  · exact absurd hi' (hpair p p' hlt hlt' hlt'' hi)
  · exact heq
  · exact absurd hi (hpair p' p hlt' hlt hlt'' hi')

theorem unit_eq (hp : tcfPorts[p]? = some port) (hi : port.2[j]? = some i)
    (hp' : tcfPorts[p']? = some port') (hi' : port'.2[j']? = some i) : p = p' ∧ j = j' := by
  obtain rfl := h.port_eq hp (List.mem_of_getElem? hi) hp' (List.mem_of_getElem? hi')
  rw [hp] at hp'
  cases hp'
  have hnodup := (List.nodup_flatMap.mp h).1 port (List.mem_of_getElem? hp)
  obtain ⟨hlt, hj⟩ := List.getElem?_eq_some_iff.mp hi
  obtain ⟨hlt', hj'⟩ := List.getElem?_eq_some_iff.mp hi'
  exact ⟨rfl, (hnodup.getElem_inj_iff).mp (hj.trans hj'.symm)⟩

theorem muWiring_eq (hp : tcfPorts[p]? = some port) (hi : i ∈ port.2) :
    muWiring (portsFromTcfProps tcfPorts) i = some p := by
  have hmem : ∀ pp ∈ portsFromTcfProps tcfPorts, ∃ port', tcfPorts[pp.index]? = some port' ∧
      pp.matchUnits = port'.2 := by
    intro pp hpp
    obtain ⟨⟨port', p'⟩, hport, rfl⟩ := List.mem_map.mp hpp
    exact ⟨port', List.mem_zipIdx_iff_getElem?.mp hport, rfl⟩
  have hsome : ((portsFromTcfProps tcfPorts).find? fun pp => i ∈ pp.matchUnits).isSome := by
    rw [List.find?_isSome]
    refine ⟨⟨port.1, p, port.2⟩, ?_, decide_eq_true hi⟩
    exact List.mem_map.mpr ⟨(port, p), List.mem_zipIdx_iff_getElem?.mpr hp, rfl⟩
  obtain ⟨pp, hfind⟩ := Option.isSome_iff_exists.mp hsome
  obtain ⟨port', hport', hmus⟩ := hmem pp (List.mem_of_find?_eq_some hfind)
  have hi' : i ∈ pp.matchUnits := by simpa using List.find?_some hfind
  rw [muWiring, hfind, Option.map_some, h.port_eq hport' (hmus ▸ hi') hp hi]

end DistinctUnits

end Chipscopy.Tsm
