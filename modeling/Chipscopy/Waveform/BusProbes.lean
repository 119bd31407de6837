import Chipscopy.Lib.Decimal
import Chipscopy.Waveform.Data

/-! Probes of bus interfaces

    A port map says which bits of a pin a port of a bus interface has. The Ltx file is read to a
    text that names these bits, and the ILA makes a waveform probe of the text. -/

namespace Chipscopy.Waveform

/-- Exceptions of the lookups. -/
inductive LookupError
  | typeError
  | keyError (key : String)
  | indexError
  | valueError
  | importError
  deriving DecidableEq, Repr

def lookupError : Py.Error → LookupError
  | .keyError key => .keyError key
  | .valueError _ => .valueError
  | .typeError _ => .typeError
  | _ => .indexError

/-! ### The Ltx file -/

/-- A net, and the names of its bits from the left where the file lists them. -/
structure Net where
  name : String
  subnets : Option (List String)
  deriving DecidableEq, Repr

structure Pin where
  name : Option String
  isVector : Option Bool
  rightIndex : Option ℤ
  nets : List Net
  deriving DecidableEq, Repr

structure PortMap where
  logicalPort : String
  pinName : String
  leftBit : ℕ
  width : ℕ
  deriving DecidableEq, Repr

/-- `f"{base_name}[{end_bit}:{start_bit}]"`. -/
def rangeText (baseName : String) (portMap : PortMap) : String :=
  s!"{baseName}[{(portMap.leftBit + portMap.width : ℤ) - 1}:{portMap.leftBit}]"

/-- `_read_bus_portmap`; the empty tuple is `none`. -/
def readBusPortmap (portMap : PortMap) (probes : List Pin) (slot : String)
    (moreThanOneBus : Bool) : Except LookupError (Option (String × String)) := do
  let busKey := if moreThanOneBus then slot ++ "/" ++ portMap.logicalPort else portMap.logicalPort
  match probes.find? (·.name = some portMap.pinName) with
  | none => .error .typeError
  | some probeactual =>
    match probeactual.rightIndex with
    | none => .error (.keyError "rightIndex")
    | some actualwidth =>
      let net ← (Py.index probeactual.nets 0).mapError lookupError
      let subnets := if probeactual.isVector.getD false then net.subnets else none
      if portMap.width = 1 then
        match subnets with
        | some subnets =>
          let name ← (Py.index subnets (actualwidth - portMap.leftBit)).mapError lookupError
          return some (busKey, name)
        | none => return some (busKey, net.name)
      else
        match subnets with
        | some subnets =>
          let endBit := (portMap.leftBit + portMap.width : ℤ) - 1
          if endBit < subnets.length then return some (busKey, rangeText net.name portMap)
          else return none
        | none => return some (busKey, rangeText net.name portMap)

/-! ### The ILA -/

structure ILAProbe where
  name : String
  map : String
  isBus : Bool := false
  busLeftIndex : Option ℤ := none
  busRightIndex : Option ℤ := none
  deriving DecidableEq, Repr

structure ILAProbeValues where
  displayRadix : ILAProbeRadix
  enumDef : Option EnumMeta
  deriving DecidableEq, Repr

/-- What the waveform probes are made of. -/
structure ILA where
  probes : Py.Dict String ILAProbe
  probeValues : Py.Dict String ILAProbeValues
  probeToPortSeqs : Py.Dict String (List ILABitRange)
  busProbeMappings : List (Option (String × String))

/-- `d[k]`. -/
def item {υ : Type} (d : Py.Dict String υ) (k : String) : Except LookupError υ :=
  match d.get? k with
  | some v => .ok v
  | none => .error (.keyError k)

def makeWaveformProbe (ila : ILA) (p : ILAProbe) : Except LookupError ILAWaveformProbe := do
  let mapRange ← item ila.probeToPortSeqs p.map
  let values ← item ila.probeValues p.name
  return { name := p.name
           map := p.map
           mapRange
           isBus := p.isBus
           busLeftIndex := p.busLeftIndex
           busRightIndex := p.busRightIndex
           displayRadix := values.displayRadix
           enumDef := values.enumDef }

/-- `"[" in s and ":" in s`. -/
def isRangeText (s : String) : Bool := '[' ∈ s.toList && ':' ∈ s.toList

/-- `s.split("[")[0]`. -/
def baseProbeName (s : String) : String := String.ofList (s.toList.takeWhile (· ≠ '['))

/-- `\[(\d+):(\d+)\]` at the start of a string. -/
def matchRange : List Char → Option (ℕ × ℕ)
  | '[' :: s => match Py.digitRun s with
    | (d :: ds, ':' :: s') => match Py.digitRun s' with
      | (e :: es, ']' :: _) => some (Py.ofDecimals (d :: ds), Py.ofDecimals (e :: es))
      | _ => none
    | _ => none
  | _ => none

/-- `\[(\d+)\]` at the start of a string. -/
def matchIndex : List Char → Option ℕ
  | '[' :: s => match Py.digitRun s with
    | (d :: ds, ']' :: _) => some (Py.ofDecimals (d :: ds))
    | _ => none
  | _ => none

/-- `re.search`: the first match. -/
def search {α : Type} (pattern : List Char → Option α) : List Char → Option α
  | [] => none
  | c :: s => (pattern (c :: s)).orElse fun _ => search pattern s

/-- The bit that the text of a single bit names, the lowest one without an index. -/
def bitIndex (s : String) : ℕ := (search matchIndex s.toList).getD 0

/-- The first probe that has the name, or the map. -/
def findProbe (ila : ILA) (baseName : String) : Option ILAProbe :=
  ila.probes.values.find? fun p => p.name = baseName ∨ p.map = baseName

/-- The loop of `_make_bus_waveform_probes`; `none` where it goes on with a warning. -/
def makeBusWaveformProbe (ila : ILA) (busName physicalProbeName : String) :
    Except LookupError (Option ILAWaveformProbe) :=
  let isBus := isRangeText physicalProbeName
  let (busLeftIndex, busRightIndex) :=
    if isBus then (search matchRange physicalProbeName.toList).getD (0, 0)
    else (bitIndex physicalProbeName, bitIndex physicalProbeName)
  match findProbe ila (baseProbeName physicalProbeName) with
  | none => .ok none
  | some physicalProbe =>
    match ila.probeToPortSeqs.get? physicalProbe.map with
    | none => .ok none
    | some portSeq =>
      let portSeq := if isBus then portSeq
        else portSeq.map fun seq => ⟨seq.index + busLeftIndex, 1⟩
      match ila.probeValues.get? physicalProbe.name with
      | none => .error .importError
      | some pv => .ok (some
          { name := busName
            map := physicalProbeName
            mapRange := portSeq
            isBus
            busLeftIndex := some busLeftIndex
            busRightIndex := some busRightIndex
            displayRadix := pv.displayRadix
            enumDef := pv.enumDef })

/-- An empty tuple cannot be unpacked. -/
def makeBusWaveformProbes (ila : ILA) : Except LookupError (Py.Dict String ILAWaveformProbe) :=
  ila.busProbeMappings.foldlM (fun d mapping => do
    match mapping with
    | none => .error .valueError
    | some (busName, physicalProbeName) =>
      match ← makeBusWaveformProbe ila busName physicalProbeName with
      | none => return d
      | some probe => return d.set busName probe) Py.Dict.empty

end Chipscopy.Waveform
