import Mathlib
import Chipscopy.Lib.Machine

/-! The device list of a session

    A session keeps the list of the last scan, and a flag that says whether to scan again. Events
    of nodes come in on a thread of their own; each one goes through a copy of the list, marks
    devices and stores what is left of it. Between any two steps of that thread the user's thread
    may read the flag, find devices or store a list. -/

namespace Chipscopy.Api.DeviceList

abbrev DeviceId := ℕ

/-- A node that may have a device wrapper. -/
abbrev NodeId := ℕ

inductive NodeAction
  | nodeAdded
  | nodeRemoved
  | nodeChanged
  deriving DecidableEq

inductive DeviceState
  | valid
  | needsRefresh
  | invalid
  deriving DecidableEq

/-- The contexts of a `DeviceSpec`. -/
structure DeviceSpec where
  deviceCtx : String
  jtagDeviceCtx : String
  debugcoreDapCtx : String
  debugcoreDpcCtx : String
  memoryDapCtx : String
  memoryDpcCtx : String
  chipscopeDapCtx : String
  chipscopeDpcCtx : String
  deriving DecidableEq

def DeviceSpec.rootDeviceContexts (spec : DeviceSpec) : List String :=
  [spec.deviceCtx, spec.jtagDeviceCtx]

def DeviceSpec.allDeviceContexts (spec : DeviceSpec) : List String :=
  [spec.deviceCtx, spec.jtagDeviceCtx, spec.debugcoreDapCtx, spec.debugcoreDpcCtx,
    spec.memoryDapCtx, spec.memoryDpcCtx, spec.chipscopeDapCtx, spec.chipscopeDpcCtx]

structure Device where
  spec : DeviceSpec
  state : DeviceState
  deriving DecidableEq

/-- `Device.node_callback`: the new state, if it is set. -/
def Device.nodeCallback (device : Device) (action : NodeAction) (ctx : String) :
    Option DeviceState :=
  if action = .nodeRemoved ∧ ctx ∈ device.spec.rootDeviceContexts then some .invalid
  else if action = .nodeChanged ∧ ctx ∈ device.spec.allDeviceContexts then some .needsRefresh
  else none

/-- Where the loop of `node_callback` is: before a device, in its callback once the device is
    marked INVALID and the wrapper is still to be removed, or before its state is tested. -/
inductive Phase
  | next
  | clearing (d : DeviceId)
  | called (d : DeviceId)
  deriving DecidableEq

/-- `Session.node_callback` for an event. -/
structure Callback where
  action : NodeAction
  ctx : String
  remaining : List DeviceId
  phase : Phase
  validDeviceList : List DeviceId

/-- An access to `devices`: a scan with what it has found, or the list that is stored. The states
    of the devices when it began are a record. -/
inductive Access
  | scanning (before : DeviceId → DeviceState) (found : List DeviceId)
  | returning (before : DeviceId → DeviceState)

/-- The last field is a record: an event made a listed device INVALID since the last scan began. -/
structure State where
  devices : List DeviceId
  needToScanDevices : Bool
  device : DeviceId → Device
  nextDevice : DeviceId
  deviceWrapper : NodeId → Option DeviceId
  callback : Option Callback
  access : Option Access
  invalidated : Bool

/-- Steps of the two threads. What a scan finds on the hardware, and which node a device has when
    it is marked, is given. -/
inductive Label
  | event (action : NodeAction) (ctx : String)
  | nodeCallback
  | removeWrapper (deviceNode : Option NodeId)
  | testState
  | storeValid
  | access
  | discover (deviceNode : NodeId) (spec : DeviceSpec)
  | storeScanned
  | return

def noDevice : Device := ⟨⟨"", "", "", "", "", "", "", ""⟩, .needsRefresh⟩

/-- A new session. -/
def State.initial : State where
  devices := []
  needToScanDevices := true
  device _ := noDevice
  nextDevice := 0
  deviceWrapper _ := none
  callback := none
  access := none
  invalidated := false

/-- `_set_device_with_lock`. -/
def State.setDeviceWithLock (st : State) (devices : List DeviceId) : State :=
  { st with devices, needToScanDevices := false }

def State.setState (st : State) (d : DeviceId) (state : DeviceState) : State :=
  { st with device := Function.update st.device d { st.device d with state } }

/-- `device.node_callback(action, node, props)`. -/
def State.callNode (st : State) (cb : Callback) (d : DeviceId) (rest : List DeviceId) : State :=
  match (st.device d).nodeCallback cb.action cb.ctx with
  | some .invalid => { st.setState d .invalid with
      callback := some { cb with remaining := rest, phase := .clearing d }, invalidated := true }
  | some state => { st.setState d state with
      callback := some { cb with remaining := rest, phase := .called d } }
  | none => { st with callback := some { cb with remaining := rest, phase := .called d } }

/-- A node of `discover_devices`: its wrapper, or a new device that is refreshed at once. -/
def State.discover (st : State) (before : DeviceId → DeviceState) (found : List DeviceId)
    (deviceNode : NodeId) (spec : DeviceSpec) : State :=
  match st.deviceWrapper deviceNode with
  | some d => { st with access := some (.scanning before (found ++ [d])) }
  | none => { st with
      device := Function.update st.device st.nextDevice ⟨spec, .valid⟩
      nextDevice := st.nextDevice + 1
      deviceWrapper := Function.update st.deviceWrapper deviceNode (some st.nextDevice)
      access := some (.scanning before (found ++ [st.nextDevice])) }

def step (st : State) : Label → Option State
  | .event action ctx => match st.callback with
    | none => some { st with callback := some ⟨action, ctx, st.devices, .next, []⟩ }
    | some _ => none
  | .nodeCallback => match st.callback with
    | some ⟨action, ctx, d :: rest, .next, valid⟩ =>
      some (st.callNode ⟨action, ctx, d :: rest, .next, valid⟩ d rest)
    | _ => none
  | .removeWrapper deviceNode => match st.callback with
    | some ⟨action, ctx, rest, .clearing d, valid⟩ => some { st with
        deviceWrapper := match deviceNode with
          | some node => Function.update st.deviceWrapper node none
          | none => st.deviceWrapper
        callback := some ⟨action, ctx, rest, .called d, valid⟩ }
    | _ => none
  | .testState => match st.callback with
    | some ⟨action, ctx, rest, .called d, valid⟩ =>
      if (st.device d).state = .invalid then
        some { st with needToScanDevices := true, callback := some ⟨action, ctx, rest, .next, valid⟩ }
      else some { st with callback := some ⟨action, ctx, rest, .next, valid ++ [d]⟩ }
    | _ => none
  | .storeValid => match st.callback with
    | some ⟨_, _, [], .next, valid⟩ => some { st.setDeviceWithLock valid with callback := none }
    | _ => none
  | .access => match st.access with
    | some _ => none
    | none =>
      let before d := (st.device d).state
      if st.needToScanDevices then
        some { st with access := some (.scanning before []), invalidated := false }
      else some { st with access := some (.returning before) }
  | .discover deviceNode spec => match st.access with
    | some (.scanning before found) => some (st.discover before found deviceNode spec)
    | _ => none
  | .storeScanned => match st.access with
    | some (.scanning before found) =>
      some { st.setDeviceWithLock found with access := some (.returning before) }
    | _ => none
  | .return => match st.access with
    | some (.returning _) => some { st with access := none }
    | _ => none

/-! ### What is promised -/

/-- An access scans if it has to, and returns no device that was INVALID when it began. -/
def Rescans (st : State) : Label → State → Prop
  | .access, st' => st.invalidated → ∃ before, st'.access = some (.scanning before [])
  | .return, _ => ∀ before, st.access = some (.returning before) →
      ∀ d ∈ st.devices, before d ≠ .invalid
  | _, _ => True

/-- The event thread has marked a device INVALID and has not yet set the flag. -/
def State.Marking (st : State) : Prop :=
  match st.callback.map Callback.phase with
  | some (.clearing _) => True
  | some (.called d) => (st.device d).state = .invalid
  | _ => False

/-- No list is stored while an event has made a listed device INVALID since the last scan began, no
    access begins between such a mark and the flag if the flag is not set, and a scan does not find
    the wrapper of an INVALID device. -/
def Allowed (st : State) : Label → Prop
  | .storeValid => st.invalidated = false
  | .storeScanned => st.invalidated = false
  | .access => st.invalidated → st.Marking → st.needToScanDevices
  | .discover deviceNode _ => ∀ d ∈ st.deviceWrapper deviceNode, (st.device d).state ≠ .invalid
  | _ => True

instance (st : State) : Decidable st.Marking :=
  match h : st.callback.map Callback.phase with
  | some (.clearing _) => .isTrue (by rw [State.Marking, h]; trivial)
  | some (.called d) =>
    decidable_of_iff ((st.device d).state = .invalid) (by rw [State.Marking, h])
  | some .next => .isFalse (by rw [State.Marking, h]; exact id)
  | none => .isFalse (by rw [State.Marking, h]; exact id)

instance (st : State) : ∀ label, Decidable (Allowed st label)
  | .event _ _ => inferInstanceAs (Decidable True)
  | .nodeCallback => inferInstanceAs (Decidable True)
  | .removeWrapper _ => inferInstanceAs (Decidable True)
  | .testState => inferInstanceAs (Decidable True)
  | .storeValid => inferInstanceAs (Decidable (st.invalidated = false))
  | .access => inferInstanceAs (Decidable (st.invalidated → st.Marking → st.needToScanDevices))
  | .discover deviceNode _ => inferInstanceAs
      (Decidable (∀ d ∈ st.deviceWrapper deviceNode, (st.device d).state ≠ .invalid))
  | .storeScanned => inferInstanceAs (Decidable (st.invalidated = false))
  | .return => inferInstanceAs (Decidable True)

end Chipscopy.Api.DeviceList
