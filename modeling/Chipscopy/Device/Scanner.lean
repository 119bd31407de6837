import Chipscopy.Lib.Bits

/-! Scanning the views of hw_server and cs_server

    Each view lists nodes: the cables of the JTAG view with the devices of their chains, and the top
    level nodes of the memory, debugcore and chipscope views. `scan_all_views` groups the records of
    all of them by device, first by DNA and then by context names that contain one another. -/

namespace Chipscopy.Device

/-- A device of a JTAG chain. The DNA register is read again each time; it is missing when the
    device has none or the read raises. -/
structure JtagDevice where
  ctx : String
  name : Option String
  archName : Option String
  dnaRegister : Option (List UInt8)
  deriving DecidableEq, Repr

structure JtagCable where
  ctx : String
  isActive : Bool
  isError : Bool
  description : String
  status : String
  children : List JtagDevice
  deriving DecidableEq, Repr

/-- A top level node of another view. -/
structure Node where
  ctx : String
  name : Option String
  jtagNodeId : Option String
  jtagGroup : Option String
  deviceDna : List ℕ
  deriving DecidableEq, Repr

structure JtagRecord where
  server : String
  view : String
  ctx : String
  name : Option String
  hierName : String
  part : Option String
  archName : Option String
  isArmDap : Bool
  jtagIndex : ℕ
  jtagCableCtx : String
  dapCtx : String := ""
  dna : Option ℕ := none
  deriving DecidableEq, Repr

/-- A memory, debugcore or chipscope record; only the first has the JTAG node. -/
structure NodeRecord where
  server : String
  view : String
  ctx : String
  name : String
  hierName : String
  jtagNodeId : Option String := none
  jtagNodeGroup : Option String := none
  isDap : Bool := false
  isDpc : Bool := false
  dna : Option ℕ := none
  deriving DecidableEq, Repr

/-- Text of a property in an f-string. -/
def propText (name : Option String) : String := name.getD "None"

/-! ### DNA -/

/-- `get_node_dna` of a JTAG device, whose DNA is a stream of bytes. -/
def JtagDevice.getNodeDna (device : JtagDevice) : Option ℕ := device.dnaRegister.map Bits.fromBytes

/-- `get_node_dna` of another node, whose DNA is four words. -/
def Node.getNodeDna (node : Node) : Option ℕ :=
  match node.deviceDna with
  | [d0, d1, d2, d3] => some (d3 <<< 96 ||| d2 <<< 64 ||| d1 <<< 32 ||| d0)
  | _ => none

/-! ### JTAG view -/

/-- Why a cable is not read. -/
def JtagCable.errorMsg (cable : JtagCable) : String :=
  if cable.isError then
    if cable.description ≠ "" then s!"error: {cable.description}" else "error"
  else if cable.status ≠ "" then s!"ERROR: {cable.ctx}: {cable.status}"
  else ""

def JtagCable.isRead (cable : JtagCable) : Bool := cable.isActive && cable.errorMsg == ""

/-- Devices without an arm_dap that have a DNA. -/
def dnaArchNames : List String := ["kintexuplus", "kintexu", "virtexuplus", "virtexu"]

section

variable (includeDna includeArmDap : Bool)

def JtagDevice.isArmDap (device : JtagDevice) : Bool := device.name == some "arm_dap"

def JtagRecord.new (cable : JtagCable) (jtagIndex : ℕ) (device : JtagDevice) : JtagRecord where
  server := "hw_server"
  view := "jtag"
  ctx := device.ctx
  name := device.name
  hierName := s!"jtag/{propText device.name}"
  part := device.name
  archName := device.archName
  isArmDap := device.isArmDap
  jtagIndex := jtagIndex
  jtagCableCtx := cable.ctx

/-- The record before a device if it is that of an arm_dap. -/
def dapRecord (previous : Option JtagRecord) : Option JtagRecord := previous.filter (·.isArmDap)

/-- The record of a device, with the arm_dap of the record before it. -/
def JtagRecord.collapse (previous : Option JtagRecord) (device : JtagDevice)
    (record : JtagRecord) : JtagRecord :=
  let dna := if includeDna then device.getNodeDna else none
  match dapRecord previous with
  | some dap => { record with dapCtx := dap.ctx, dna := dna }
  | none =>
    if record.archName.getD "" ∈ dnaArchNames then { record with dapCtx := "", dna := dna }
    else record

def scanDevice (cable : JtagCable) (previous : Option JtagRecord) (jtagIndex : ℕ)
    (device : JtagDevice) : JtagRecord :=
  let record := JtagRecord.new cable jtagIndex device
  if record.isArmDap then record else record.collapse includeDna previous device

/-- The records yielded for the devices of a chain, and the record of the last device. -/
def scanDevices (cable : JtagCable) :
    Option JtagRecord → ℕ → List JtagDevice → List JtagRecord × Option JtagRecord
  | previous, _, [] => ([], previous)
  | previous, jtagIndex, device :: devices =>
    let record := scanDevice includeDna cable previous jtagIndex device
    let rest := scanDevices cable (some record) (jtagIndex + 1) devices
    (if record.isArmDap && !includeArmDap then rest.1 else record :: rest.1, rest.2)

/-- `previous_jtag_device_record` is kept from one cable to the next. -/
def scanCables : Option JtagRecord → List JtagCable → List JtagRecord
  | _, [] => []
  | previous, cable :: cables =>
    if cable.isRead then
      let scanned := scanDevices includeDna includeArmDap cable previous 0 cable.children
      scanned.1 ++ scanCables scanned.2 cables
    else scanCables previous cables

def scanJtagView (cables : List JtagCable) : List JtagRecord :=
  scanCables includeDna includeArmDap none cables

/-! ### Other views -/

/-- The record of a node of a view. -/
def Node.scan (server view : String) (node : Node) : NodeRecord :=
  let name := node.name.getD ""
  let isDpc := "DPC".toList.isPrefixOf name.toList
  { server := server
    view := view
    ctx := node.ctx
    name := name
    hierName := s!"{view}/{propText node.name}"
    isDap := !isDpc
    isDpc := isDpc
    dna := if includeDna then node.getNodeDna else none }

def scanMemoryView (nodes : List Node) : List NodeRecord :=
  nodes.map fun node => { node.scan includeDna "hw_server" "memory" with
    jtagNodeId := node.jtagNodeId, jtagNodeGroup := node.jtagGroup }

def scanDebugcoreView (nodes : List Node) : List NodeRecord :=
  nodes.map (Node.scan includeDna "hw_server" "debugcore")

def scanChipscopeView (nodes : List Node) : List NodeRecord :=
  nodes.map (Node.scan includeDna "cs_server" "chipscope")

end

/-! ### All views -/

/-- The views other than the JTAG view. -/
inductive NodeView
  | memory
  | debugcore
  | chipscope
  deriving DecidableEq, Repr

inductive ViewRecord
  | jtag (record : JtagRecord)
  | node (view : NodeView) (record : NodeRecord)
  deriving DecidableEq, Repr

/-- Records under their keys, a dictionary with empty lists as defaults. -/
abbrev Groups := List (String × List ViewRecord)

def Groups.get (groups : Groups) (key : String) : List ViewRecord :=
  (Py.lookup key groups).getD []

def Groups.append (groups : Groups) (key : String) (record : ViewRecord) : Groups :=
  Py.store key (groups.get key ++ [record]) groups

/-- `all_view_dict` and the dictionaries of the records that still need a group. -/
structure Scanned where
  groups : Groups := []
  jtag : List (String × JtagRecord) := []
  nodes : NodeView → List (String × NodeRecord) := fun _ => []

/-- A DNA that is not missing and not zero. -/
def knownDna (dna : Option ℕ) : Option ℕ := dna.filter (· ≠ 0)

section

variable {α : Type} (ctx : α → String) (dna : α → Option ℕ) (wrap : α → ViewRecord)

/-- One record of `populate_dna_or_context_dicts`. -/
def populateOne (dicts : Groups × List (String × α)) (record : α) : Groups × List (String × α) :=
  match knownDna (dna record) with
  | some dna => (dicts.1.append (toString dna) (wrap record), dicts.2)
  | none => (dicts.1, Py.store (ctx record) record dicts.2)

def populateDnaOrContext (records : List α) (dicts : Groups × List (String × α)) :
    Groups × List (String × α) :=
  records.foldl (populateOne ctx dna wrap) dicts

end

def Scanned.populateJtag (s : Scanned) (records : List JtagRecord) : Scanned :=
  let dicts := populateDnaOrContext JtagRecord.ctx JtagRecord.dna .jtag records (s.groups, s.jtag)
  { s with groups := dicts.1, jtag := dicts.2 }

def Scanned.populate (s : Scanned) (view : NodeView) (records : List NodeRecord) : Scanned :=
  let dicts := populateDnaOrContext NodeRecord.ctx NodeRecord.dna (.node view) records
    (s.groups, s.nodes view)
  { s with groups := dicts.1, nodes := Function.update s.nodes view dicts.2 }

/-- `part in ctx`. -/
def containsCtx (ctx part : String) : Bool := part.toList <:+: ctx.toList

/-- Move the records of a dictionary whose context matches to a group. -/
def moveMatching (view : NodeView) (isMatch : String → Bool) (key : String) :
    Groups → List (String × NodeRecord) → Groups × List (String × NodeRecord)
  | groups, [] => (groups, [])
  | groups, (ctx, record) :: rest =>
    if isMatch ctx then moveMatching view isMatch key (groups.append key (.node view record)) rest
    else
      let moved := moveMatching view isMatch key groups rest
      (moved.1, (ctx, record) :: moved.2)

def Scanned.moveMatching (s : Scanned) (view : NodeView) (isMatch : String → Bool)
    (key : String) : Scanned :=
  let moved := Device.moveMatching view isMatch key s.groups (s.nodes view)
  { s with groups := moved.1, nodes := Function.update s.nodes view moved.2 }

/-- The context names of a JTAG device, its own or that of its arm_dap. -/
def matchesJtag (jtagCtx dapCtx ctx : String) : Bool :=
  containsCtx ctx jtagCtx || dapCtx != "" && containsCtx ctx dapCtx

/-- The loop over JTAG records without DNA. -/
def Scanned.matchJtag (s : Scanned) : Scanned :=
  s.jtag.foldl (fun s entry =>
    let s := { s with groups := s.groups.append entry.1 (.jtag entry.2) }
    let s := s.moveMatching .memory (matchesJtag entry.1 entry.2.dapCtx) entry.1
    let s := s.moveMatching .debugcore (matchesJtag entry.1 entry.2.dapCtx) entry.1
    s.moveMatching .chipscope (matchesJtag entry.1 entry.2.dapCtx) entry.1) { s with jtag := [] }

/-- The loop over the debugcore records that are left. -/
def Scanned.matchDebugcore (s : Scanned) : Scanned :=
  (s.nodes .debugcore).foldl (fun s entry =>
    let s := { s with groups := s.groups.append entry.1 (.node .debugcore entry.2) }
    let s := s.moveMatching .memory (containsCtx · entry.1) entry.1
    s.moveMatching .chipscope (containsCtx · entry.1) entry.1)
    { s with nodes := Function.update s.nodes .debugcore [] }

/-- The records of all views by device. -/
def groupRecords (jtag : List JtagRecord) (nodes : NodeView → List NodeRecord) : Groups :=
  let s : Scanned := {}
  let s := s.populateJtag jtag
  let s := s.populate .memory (nodes .memory)
  let s := s.populate .debugcore (nodes .debugcore)
  let s := s.populate .chipscope (nodes .chipscope)
  s.matchJtag.matchDebugcore.groups

structure HwServer where
  jtag : List JtagCable
  memory : List Node
  debugcore : List Node

structure CsServer where
  chipscope : List Node

/-- A server that is missing has no nodes. -/
def scanJtag (hwServer : Option HwServer) (includeDna : Bool) : List JtagRecord :=
  (hwServer.map fun hw => scanJtagView includeDna false hw.jtag).getD []

def scanNodes (hwServer : Option HwServer) (csServer : Option CsServer) (includeDna : Bool) :
    NodeView → List NodeRecord
  | .memory => (hwServer.map fun hw => scanMemoryView includeDna hw.memory).getD []
  | .debugcore => (hwServer.map fun hw => scanDebugcoreView includeDna hw.debugcore).getD []
  | .chipscope => (csServer.map fun cs => scanChipscopeView includeDna cs.chipscope).getD []

def scanAllViews (hwServer : Option HwServer) (csServer : Option CsServer) (includeDna : Bool) :
    Groups :=
  groupRecords (scanJtag hwServer includeDna) (scanNodes hwServer csServer includeDna)

end Chipscopy.Device
