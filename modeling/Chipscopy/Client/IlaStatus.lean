import Chipscopy.Lib.Python

/-! Status of an ILA

    The service sends the state of the capture by its name. Before a status is made of the
    properties, the name is replaced by a member of the enumeration that users see. The client has
    an enumeration of its own with the same members, and a member of the one never equals a member
    of the other. -/

namespace Chipscopy.Client

inductive ILAState
  | idle
  | preTrigger
  | trigger
  | postTrigger
  deriving DecidableEq, Repr

def ILAState.name : ILAState → String
  | .idle => "IDLE"
  | .preTrigger => "PRE_TRIGGER"
  | .trigger => "TRIGGER"
  | .postTrigger => "POST_TRIGGER"

/-- `ILAState[name]`. -/
def ILAState.ofName? (name : String) : Option ILAState :=
  [.idle, .preTrigger, .trigger, .postTrigger].find? (ILAState.name · = name)

theorem ILAState.ofName?_name (state : ILAState) : ILAState.ofName? state.name = some state := by
  cases state <;> rfl

/-- The two classes `ILAState`: of `ila_capture` and of `axis_ila_core_client`. -/
inductive StateEnum
  | api
  | client
  deriving DecidableEq, Repr

/-- Values of properties. `True` is 1, and a list is made of cells. -/
inductive PropValue
  | none
  | int (n : ℤ)
  | str (s : String)
  | nil
  | cons (head tail : PropValue)
  | state (enum : StateEnum) (state : ILAState)
  deriving DecidableEq, Repr

namespace PropValue

def list (values : List PropValue) : PropValue := values.foldr cons nil

def truthy : PropValue → Bool
  | none => false
  | int n => n ≠ 0
  | str s => s ≠ ""
  | nil => false
  | cons _ _ => true
  | state _ _ => true

end PropValue

abbrev Props := Py.Dict String PropValue

def Props.item (props : Props) (key : String) : Except Py.Error PropValue :=
  match props.get? key with
  | some value => .ok value
  | none => .error (.keyError key)

/-- `enum[value]`. -/
def stateOfValue : PropValue → Except Py.Error ILAState
  | .str name => match ILAState.ofName? name with
    | some state => .ok state
    | none => .error (.keyError name)
  | .nil | .cons _ _ => .error (.typeError "unhashable type: 'list'")
  | .none | .int _ | .state _ _ => .error (.keyError "capture_state")

/-- `state_names.get(value, "")`. -/
def stateName (stateNames : Py.Dict ℤ String) : PropValue → Except Py.Error String
  | .int n => .ok ((stateNames.get? n).getD "")
  | .nil | .cons _ _ => .error (.typeError "unhashable type: 'list'")
  | .none | .str _ | .state _ _ => .ok ""

/-- The properties under the names that a status has for them. -/
def renameStatus (state : ILAState) (props : Props) : Props :=
  let props := props.set "capture_state" (.state .api state)
  let props := props.set "is_trigger_at_startup" ((props.get? "is_tas").getD (.int 0))
  let props := props.set "samples_requested" ((props.get? "window_depth_readback").getD .none)
  let props := props.set "windows_requested" ((props.get? "window_count_readback").getD .none)
  let props := props.set "trigger_position_requested"
    ((props.get? "trigger_pos_readback").getD .none)
  props.set "tsm_counters" (.list
    (["tsm_counter0", "tsm_counter1", "tsm_counter2", "tsm_counter3"].map fun name =>
      (props.get? name).getD (.int 0)))

/-- The name of the state of the trigger state machine, if the states have names. -/
def nameTsmState (stateNames : Py.Dict ℤ String) (props : Props) : Except Py.Error Props :=
  if stateNames.size = 0 then .ok props
  else do
    let name ← stateName stateNames (← props.item "tsm_state")
    return props.set "tsm_state_name" (.str name)

def postProcessStatus (stateNames : Py.Dict ℤ String) (props : Props) : Except Py.Error Props := do
  let state ← stateOfValue (← props.item "capture_state")
  nameTsmState stateNames (renameStatus state props)

structure ILAStatus where
  captureState : PropValue
  isArmed : PropValue
  isFull : PropValue
  isTriggerAtStartup : PropValue
  samplesCaptured : PropValue
  windowsCaptured : PropValue
  samplesRequested : PropValue
  windowsRequested : PropValue
  triggerPositionRequested : PropValue
  tsmCounters : PropValue
  tsmFlags : PropValue
  tsmState : PropValue
  tsmStateName : PropValue
  deriving DecidableEq, Repr

/-- Members of a status without a default. -/
def ilaStatusRequired : List String :=
  ["capture_state", "is_armed", "is_full", "is_trigger_at_startup", "samples_captured",
    "windows_captured", "samples_requested", "windows_requested", "trigger_position_requested",
    "tsm_counters", "tsm_flags", "tsm_state"]

def ilaStatusMembers : List String := ilaStatusRequired ++ ["tsm_state_name"]

def filterProps (props : Props) (propFilter : List String) : Props where
  entries := props.entries.filter (·.1 ∈ propFilter)
  nodup := (List.filter_sublist.map _).nodup props.nodup

/-- `ILAStatus(**args)`. -/
def ILAStatus.ofArgs (args : Props) : Except Py.Error ILAStatus :=
  if ∀ key ∈ ilaStatusRequired, (args.get? key).isSome then
    let arg (key : String) : PropValue := (args.get? key).getD .none
    .ok {
      captureState := arg "capture_state"
      isArmed := arg "is_armed"
      isFull := arg "is_full"
      isTriggerAtStartup := arg "is_trigger_at_startup"
      samplesCaptured := arg "samples_captured"
      windowsCaptured := arg "windows_captured"
      samplesRequested := arg "samples_requested"
      windowsRequested := arg "windows_requested"
      triggerPositionRequested := arg "trigger_position_requested"
      tsmCounters := arg "tsm_counters"
      tsmFlags := arg "tsm_flags"
      tsmState := arg "tsm_state"
      tsmStateName := (args.get? "tsm_state_name").getD (.str "") }
  else .error (.typeError "ILAStatus.__init__() missing required positional arguments")

/-- The status, and the properties as they are left. -/
def tcfPropsToStatus (stateNames : Py.Dict ℤ String) (props : Props) :
    Except Py.Error (ILAStatus × Props) := do
  let props ← postProcessStatus stateNames props
  let status ← ILAStatus.ofArgs (filterProps props ilaStatusMembers)
  return (status, props)

/-! ### Complete properties -/

/-- Members of a status that are properties under other names. -/
def renamedMembers : List String :=
  ["capture_state", "is_trigger_at_startup", "samples_requested", "windows_requested",
    "trigger_position_requested", "tsm_counters"]

/-- Members of a status that are properties under their own names. -/
def sentMembers : List String :=
  ["is_armed", "is_full", "samples_captured", "windows_captured", "tsm_flags"]

theorem ilaStatusRequired_cases : ∀ key ∈ ilaStatusRequired,
    key ∈ renamedMembers ∨ key = "tsm_state" ∨ key ∈ sentMembers := by decide

/-- What the service sends for a status: every property that a status needs, the state of the
    capture by its name. -/
structure StatusProps where
  props : Props
  state : ILAState
  captureState : props.get? "capture_state" = some (.str state.name)
  tsmState : ∃ n, props.get? "tsm_state" = some (.int n)
  complete : ∀ key ∈ sentMembers, (props.get? key).isSome

def StatusProps.isFull (p : StatusProps) : Bool :=
  ((p.props.get? "is_full").getD (.int 0)).truthy

theorem get?_filterProps (props : Props) {propFilter : List String} {key : String}
    (hkey : key ∈ propFilter) : (filterProps props propFilter).get? key = props.get? key := by
  ext value
  rw [Py.Dict.get?_eq_some_iff, Py.Dict.get?_eq_some_iff, filterProps]
  simp [hkey]

/-- Other properties stay. -/
theorem get?_renameStatus (state : ILAState) (props : Props) {key : String}
    (hkey : key ∉ renamedMembers) : (renameStatus state props).get? key = props.get? key := by
  simp only [renamedMembers, List.mem_cons, List.not_mem_nil, or_false, not_or] at hkey
  obtain ⟨hstate, hstartup, hsamples, hwindows, hposition, hcounters⟩ := hkey
  rw [renameStatus, Py.Dict.get?_set_ne _ hcounters, Py.Dict.get?_set_ne _ hposition,
    Py.Dict.get?_set_ne _ hwindows, Py.Dict.get?_set_ne _ hsamples,
    Py.Dict.get?_set_ne _ hstartup, Py.Dict.get?_set_ne _ hstate]

theorem isSome_renameStatus (state : ILAState) (props : Props) {key : String}
    (hkey : key ∈ renamedMembers) : ((renameStatus state props).get? key).isSome := by
  simp only [renamedMembers, List.mem_cons, List.not_mem_nil, or_false] at hkey
  rcases hkey with rfl | rfl | rfl | rfl | rfl | rfl <;> simp [renameStatus, Py.Dict.get?_set]

theorem captureState_renameStatus (state : ILAState) (props : Props) :
    (renameStatus state props).get? "capture_state" = some (.state .api state) := by
  simp [renameStatus, Py.Dict.get?_set]

theorem nameTsmState_ok (stateNames : Py.Dict ℤ String) {props : Props} {n : ℤ}
    (hstate : props.get? "tsm_state" = some (.int n)) :
    ∃ props', nameTsmState stateNames props = .ok props' ∧
      ∀ key ≠ "tsm_state_name", props'.get? key = props.get? key := by
  rw [nameTsmState]
  by_cases hnames : stateNames.size = 0
  · rw [if_pos hnames]
    exact ⟨props, rfl, fun _ _ => rfl⟩
  · rw [if_neg hnames, Props.item, hstate]
    exact ⟨_, rfl, fun key hkey => Py.Dict.get?_set_ne _ hkey _⟩

/-- A status has all its members. -/
theorem ofArgs_ok {args : Props} (h : ∀ key ∈ ilaStatusRequired, (args.get? key).isSome) :
    ∃ status, ILAStatus.ofArgs args = .ok status := by
  rw [ILAStatus.ofArgs, if_pos h]
  exact ⟨_, rfl⟩

/-- Complete properties give a status, and the state in them is a member of the other class. -/
theorem tcfPropsToStatus_ok (stateNames : Py.Dict ℤ String) (p : StatusProps) :
    ∃ status props, tcfPropsToStatus stateNames p.props = .ok (status, props) ∧
      props.get? "capture_state" = some (.state .api p.state) ∧
      props.get? "is_full" = p.props.get? "is_full" := by
  obtain ⟨n, hn⟩ := p.tsmState
  have hrenamed : (renameStatus p.state p.props).get? "tsm_state" = some (.int n) := by
    rw [get?_renameStatus _ _ (by decide), hn]
  obtain ⟨props, hprops, hsame⟩ := nameTsmState_ok stateNames hrenamed
  have hpost : postProcessStatus stateNames p.props = .ok props := by
    rw [postProcessStatus, Props.item, p.captureState]
    dsimp only
    rw [Py.ok_bind, stateOfValue, ILAState.ofName?_name]
    exact hprops
  have hrequired : ∀ key ∈ ilaStatusRequired,
      ((filterProps props ilaStatusMembers).get? key).isSome := by
    intro key hkey
    have hne : key ≠ "tsm_state_name" := by
      rintro rfl
      exact absurd hkey (by decide)
    have hmember : key ∈ ilaStatusMembers := List.mem_append_left _ hkey
    rw [get?_filterProps props hmember, hsame key hne]
    rcases ilaStatusRequired_cases key hkey with hset | rfl | hsent
    · exact isSome_renameStatus p.state p.props hset
    · rw [hrenamed]
      rfl
    · have hother : ∀ key ∈ sentMembers, key ∉ renamedMembers := by decide
      rw [get?_renameStatus _ _ (hother key hsent)]
      exact p.complete key hsent
  obtain ⟨status, hstatus⟩ := ofArgs_ok hrequired
  refine ⟨status, props, ?_, ?_, ?_⟩
  · rw [tcfPropsToStatus, hpost, Py.ok_bind, hstatus]
    rfl
  · rw [hsame _ (by decide), captureState_renameStatus]
  · rw [hsame _ (by decide), get?_renameStatus _ _ (by decide)]

end Chipscopy.Client
