import Chipscopy.Lib.Worklist
import Chipscopy.IlaMapper.Match

/-! Mapping conditions onto match units

    `IlaMapper.map` rewrites the matches of every condition (sort, drop the don't-care ones, flip a
    one bit `!=`, merge what shares a port) and then gives each match a match unit of its port,
    reusing a unit that already holds the same value. `get_reg_mu_mapping` writes the result as
    registers: one for each condition, selecting match units, and one for each unit in use. -/

namespace Chipscopy.Mapping

structure Port where
  index : ℕ
  muCount : ℕ
  width : ℕ
  /-- Filled out by the mapper. -/
  muValues : List (List Char) := []
  deriving DecidableEq

/-- Global boolean operators of a condition. -/
inductive ConditionOp
  | and | nand | or | nor
  deriving DecidableEq, Repr

structure Condition where
  /-- Empty string, or ILA core register. -/
  name : String := ""
  op : ConditionOp
  matchList : List Match := []
  deriving DecidableEq

structure IlaMapper where
  ports : List Port
  conditions : List Condition
  isBasicCapture : Bool := false
  deriving DecidableEq

namespace Condition

def addProbeValue (c : Condition) (probeName : String) (portIndex : ℕ) (bitIndex : ℤ) (op : MatchOp)
    (value : List Char) : Condition :=
  let upperNoUnderscoreValue := (value.map Char.toUpper).filter (· ≠ '_')
  { c with
    matchList := c.matchList ++ [{
      name := probeName
      portIndex := portIndex
      bitIndex := bitIndex
      op := op
      value := upperNoUnderscoreValue }] }

/-- Merging is only allowed below `and` and `nand`. -/
def mergeSharedPorts (c : Condition) : Except Py.Error Condition :=
  if c.op ≠ .and ∧ c.op ≠ .nand then .ok c
  else
    match Worklist.run Match.mergeSharedPorts c.matchList.length c.matchList with
    | .error e => .error e
    | .ok res => .ok { c with matchList := res }

def mapMatches (f : Match → Match) (c : Condition) : Condition :=
  { c with matchList := c.matchList.map f }

def removeDontCareMatches (c : Condition) : Condition :=
  { c with matchList := c.matchList.filter fun mt => !mt.isDontCare }

def sortMatches (c : Condition) : Condition :=
  { c with matchList := c.matchList.insertionSort fun a b => a.sortKey ≤ b.sortKey }

end Condition

/-- The tally of the source is never advanced, so every index is zero. -/
def Match.assignSourceInfo (mt : Match) : Match :=
  { mt with
    sourceNames := mt.sourceNames ++ [mt.name]
    sourceValueIndices := mt.sourceValueIndices ++ [0] }

/-- Place one match on a match unit of its port; true if the port has that unit. -/
def mapMatchUnit (ports : List Port) (mt : Match) : Except Py.Error (List Port × Match × Bool) :=
  if mt.portIndex > ports.length then
    .error (.valueError ("Internal Error: Match Unit " ++ mt.name ++
      " refers to non-existent port index " ++ toString mt.portIndex))
  else
    match ports[mt.portIndex]? with
    | none => .error .indexError
    | some port =>
      match mt.makePortMatchValue port.width with
      | .error e => .error e
      | .ok value =>
        match port.muValues.idxOf? value with
        -- Re-use actual port match unit.
        | some i => .ok (ports, { mt with muIndex := i }, decide (i < port.muCount))
        | none =>
          let i := port.muValues.length
          .ok (ports.set mt.portIndex { port with muValues := port.muValues ++ [value] },
            { mt with muIndex := i }, decide (i < port.muCount))

def mapConditionUnits (ports : List Port) (c : Condition) :
    Except Py.Error (List Port × Condition × List Bool) :=
  match Py.mapAccum mapMatchUnit ports c.matchList with
  | .error e => .error e
  | .ok (ports, res) => .ok (ports, { c with matchList := res.map (·.1) }, res.map (·.2))

namespace IlaMapper

def mapMatches (f : Match → Match) (m : IlaMapper) : IlaMapper :=
  { m with conditions := m.conditions.map (Condition.mapMatches f) }

def ensureProperTypes (m : IlaMapper) : IlaMapper := m.mapMatches Match.ensureProperTypes

def assignMatchSourceInfo (m : IlaMapper) : IlaMapper := m.mapMatches Match.assignSourceInfo

def sortMatches (m : IlaMapper) : IlaMapper :=
  { m with conditions := m.conditions.map Condition.sortMatches }

def removeDontCareMatches (m : IlaMapper) : IlaMapper :=
  { m with conditions := m.conditions.map Condition.removeDontCareMatches }

def flipOneBitNeqToEq (m : IlaMapper) : IlaMapper := m.mapMatches Match.flipOneBitNeqToEq

def mergeSharedPorts (m : IlaMapper) : Except Py.Error IlaMapper :=
  match Py.mapExcept Condition.mergeSharedPorts m.conditions with
  | .error e => .error e
  | .ok conditions => .ok { m with conditions := conditions }

/-- True if trigger/capture values fit into port match units. -/
def mapMatchUnits (m : IlaMapper) : Except Py.Error (Bool × IlaMapper) :=
  match Py.mapAccum mapConditionUnits m.ports m.conditions with
  | .error e => .error e
  | .ok (ports, res) =>
    .ok ((res.flatMap (·.2)).all id, { m with ports := ports, conditions := res.map (·.1) })

def binToHexIfPossible (value : List Char) : Except Py.Error String :=
  if value.all fun ch => ch = '0' ∨ ch = '1' then
    if value = [] then .error (.valueError "invalid literal for int() with base 2: ''")
    else .ok ("0x" ++ String.ofList (Nat.toDigits 16 (Nat.ofDigitChars 2 value 0)))
  else .ok (String.ofList value)

/-- One message for each port with more compare values than match units. -/
def reportOverflow (m : IlaMapper) : Except Py.Error (List String) :=
  let portMatches := fun p => (m.conditions.flatMap (·.matchList)).filter fun mt => mt.portIndex = p
  let compareValue := fun (mt : Match) =>
    (binToHexIfPossible mt.value).map fun s =>
      "\t" ++ mt.name ++ " " ++ String.ofList mt.op.chars ++ " " ++ s
  Py.mapExcept (fun (p : ℕ) => (Py.mapExcept compareValue (portMatches p)).map ("\n".intercalate ·))
    ((m.ports.zipIdx.filter fun (port, p) => port.muCount < (portMatches p).length).map (·.2))

/-- Map match values onto port match units: all-mapped status, overflow messages, mapped state. -/
def map (m : IlaMapper) (skipOverflowMessages : Bool := true) :
    Except Py.Error ((Bool × Option (List String)) × IlaMapper) :=
  match (flipOneBitNeqToEq (removeDontCareMatches (sortMatches (assignMatchSourceInfo
      (ensureProperTypes m))))).mergeSharedPorts with
  | .error e => .error e
  | .ok merged =>
    match merged.mapMatchUnits with
    | .error e => .error e
    | .ok (allMapped, mapped) =>
      if !allMapped && !skipOverflowMessages then
        match mapped.reportOverflow with
        | .error e => .error e
        | .ok msgs => .ok ((allMapped, some msgs), mapped)
      else .ok ((allMapped, none), mapped)

end IlaMapper

end Chipscopy.Mapping
