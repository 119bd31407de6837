import Chipscopy.Ltx.Pins
import Chipscopy.Lib.Layers

/-! Probes files

    A full file describes the device without its reconfigurable partitions, and a partial one
    describes partitions: it names the cells that are reconfigured, and every debug core names the
    partition it is in. A later file takes the place of the partitions it describes, and a later
    full file that of everything before it. -/

namespace Chipscopy

namespace Ltx

/-- A partition cell, or `""` for the top level, and the file it was read from. -/
structure LtxPath where
  str : String
  source : String
  deriving DecidableEq, Repr

namespace LtxPath

def pathSegments (p : LtxPath) : List (List Char) := p.str.toList.splitOn '/'

def isTopLevel (p : LtxPath) : Bool := p.str = ""

def isInsideOf (p other : LtxPath) : Bool :=
  if p.isTopLevel then other.isTopLevel
  else if other.pathSegments.length > p.pathSegments.length then false
  else (p.pathSegments.zip other.pathSegments).all fun segs => segs.1 = segs.2

end LtxPath

/-- `paths.add(path)`: paths are compared without their files, and the first one stays. -/
def addPath (paths : List LtxPath) (path : LtxPath) : List LtxPath :=
  if paths.any (·.str = path.str) then paths else paths ++ [path]

/-- `paths.update(more)`. -/
def updatePaths (paths more : List LtxPath) : List LtxPath := more.foldl addPath paths

inductive CoreType
  | axiDebugHub | axisIla | axisVio | axisTrace
  deriving DecidableEq, Repr

def LTX_IP_NAME_TO_CORE_TYPE : List (String × CoreType) :=
  [("axi_dbg_hub", .axiDebugHub), ("axis_ila", .axisIla), ("axis_vio", .axisVio),
    ("trace", .axisTrace), ("hw_trace", .axisTrace)]

structure LtxCore where
  coreType : CoreType
  cellName : String
  uuid : String
  debugHubAddress : String
  probes : List LtxProbe
  upstreamCellNames : List String
  partition : LtxPath

/-- A core downstream of another one, and which of its streams leads there. -/
structure LtxStreamRef where
  cellName : String
  uuid : String
  streamIndex : ℕ
  deriving DecidableEq, Repr

/-- An entry of `debug_cores`. The `offset` of `address_info` may be missing as well. -/
structure DebugCore where
  reconfigTop : Option String
  pins : Option (List Pin)
  ipName : Option String
  addressInfo : Option (Option String)
  name : Option String
  uuid : Option String
  master : Option String

/-- An entry of `ltx_data`. -/
structure LtxDataItem where
  cellName : Option String
  parentNets : Option (List ParentNet)
  debugCores : Option (List DebugCore)

end Ltx

structure Ltx where
  sourceName : String
  cores : Py.Dict Ltx.CoreType (List Ltx.LtxCore) := Py.Dict.empty
  debugHubAddresses : List ℤ := []
  downstreamRefs : Py.Dict String (List Ltx.LtxStreamRef) := Py.Dict.empty
  partitions : List Ltx.LtxPath := []
  emptyPartitions : List Ltx.LtxPath := []

namespace Ltx

/-- `d[k].append(v)` of a `defaultdict(list)`. -/
def push {κ υ : Type} [DecidableEq κ] (d : Py.Dict κ (List υ)) (k : κ) (v : υ) :
    Py.Dict κ (List υ) :=
  d.set k ((d.get? k).getD [] ++ [v])

/-- The cores of all types. -/
def allCores (ltx : Ltx) : List LtxCore := ltx.cores.values.flatten

def isTopLevel (ltx : Ltx) : Bool := ltx.partitions.any (·.str = "")

def getSourceNames (ltx : Ltx) : List String := ltx.partitions.map (·.source)

def isInsideLtxPartitions (ltx : Ltx) (partition : LtxPath) : Bool :=
  ltx.partitions.any partition.isInsideOf

def replacePartitionCores (self other : Ltx) : Ltx :=
  let cores := self.cores.map fun coreList =>
    coreList.filter fun core => !other.isInsideLtxPartitions core.partition
  let emptyPartitions := self.emptyPartitions.filter fun ep => !other.isInsideLtxPartitions ep
  { self with
    sourceName := ""
    cores := other.cores.entries.foldl (fun cores e => e.2.foldl (push · e.1 ·) cores) cores
    emptyPartitions := updatePaths emptyPartitions other.emptyPartitions }

/-- The references of one core. -/
def addDownstreamRefs (refs : Py.Dict String (List LtxStreamRef)) (core : LtxCore) :
    Py.Dict String (List LtxStreamRef) :=
  core.upstreamCellNames.zipIdx.foldl
    (fun refs up => push refs up.1 ⟨core.cellName, core.uuid, up.2⟩) refs

/-- `core_list.sort(key=lambda x: x.cell_name)`. -/
def sortCores (coreList : List LtxCore) : List LtxCore :=
  coreList.mergeSort fun a b => a.cellName ≤ b.cellName

def postProcess (ltx : Ltx) : Except Py.Error Ltx := do
  let partitions := updatePaths (ltx.partitions.filter (·.isTopLevel)) ltx.emptyPartitions
  let partitions := updatePaths partitions (ltx.allCores.map (·.partition))
  let downstreamRefs := ltx.allCores.foldl addDownstreamRefs Py.Dict.empty
  let cores := ltx.cores.map sortCores
  let debugHubAddresses ← Py.mapExcept
    (fun core => IntLiteral.int 16 core.debugHubAddress.toList)
    ((cores.get? .axiDebugHub).getD [])
  return { ltx with cores, debugHubAddresses, downstreamRefs, partitions }

section Parse

variable (isMemberName : String → String → Bool)

/-- `_read_core`; a core of an unknown IP is `None`, once its pins are read. A `uuid` is a text of
    ASCII characters. -/
def readCore (inCore : DebugCore) (parentEnums : ParentEnums) (sourceName : String) :
    Except Py.Error (Option LtxCore) := do
  let partition : LtxPath := ⟨inCore.reconfigTop.getD "", sourceName⟩
  let probes ← Py.mapExcept (readPin isMemberName · parentEnums) (inCore.pins.getD [])
  let ipName := inCore.ipName.getD ""
  let addr := match inCore.addressInfo with
    | some offset => if ipName = "axi_dbg_hub" then offset.getD "" else ""
    | none => ""
  let upstream := inCore.master.getD ""
  return (Py.lookup ipName LTX_IP_NAME_TO_CORE_TYPE).map fun coreType =>
    { coreType
      cellName := inCore.name.getD ""
      uuid := (inCore.uuid.getD "00000000000000000000000000000000").toUpper
      debugHubAddress := addr
      probes
      upstreamCellNames := if upstream = "" then []
        else (upstream.toList.splitOn ':').map String.ofList
      partition }

/-- The loop over the cores of an item. -/
def readCores (parentEnums : ParentEnums) (ltx : Ltx) (debugCores : List DebugCore) :
    Except Py.Error Ltx :=
  debugCores.foldlM (fun ltx debugCore => do
    match ← readCore isMemberName debugCore parentEnums ltx.sourceName with
    | none => return ltx
    | some core => return { ltx with cores := push ltx.cores core.coreType core }) ltx

/-- The path of an item that names a cell. -/
def LtxDataItem.path? (item : LtxDataItem) (sourceName : String) : Option LtxPath :=
  (item.cellName.filter (· ≠ "")).map (⟨·, sourceName⟩)

def readItem (ltx : Ltx) (item : LtxDataItem) : Except Py.Error Ltx := do
  let path := item.path? ltx.sourceName
  let ltx := { ltx with partitions := path.elim ltx.partitions (addPath ltx.partitions) }
  let debugCores := item.debugCores.getD []
  let ltx ← readCores isMemberName (readParentNetEnums (item.parentNets.getD [])) ltx debugCores
  match path, debugCores with
  | some path, [] => return { ltx with emptyPartitions := addPath ltx.emptyPartitions path }
  | _, _ => return ltx

/-- `parse_ltx` of the `ltx_data` of a file. -/
def parseLtx (sourceName : String) (ltxData : List LtxDataItem) : Except Py.Error Ltx := do
  let ltx ← ltxData.foldlM (readItem isMemberName) { sourceName }
  let ltx := if ltxData.all fun item => (item.path? sourceName).isNone then
      { ltx with partitions := addPath ltx.partitions ⟨"", sourceName⟩ }
    else ltx
  postProcess ltx

/-- The last full file, but for the first file. -/
def lastTopLevel (ltxs : List Ltx) : ℕ :=
  ((List.range' 1 (ltxs.length - 1)).reverse.find? fun idx =>
    (ltxs[idx]?.map (·.isTopLevel)).getD false).getD 0

/-- The files laid over the first one. -/
def mergeLtxs (ltx : Ltx) (partials : List Ltx) : Except Py.Error Ltx :=
  if partials.isEmpty then .ok ltx else postProcess (partials.foldl replacePartitionCores ltx)

/-- The sources whose names the partitions have, from a source on. -/
def usedSources {σ : Type} (ltx : Ltx) (idx : ℕ) (sources : List σ) (sourceNames : List String) :
    List (σ × String) :=
  ((sources.drop idx).zip (sourceNames.drop idx)).filter (·.2 ∈ ltx.getSourceNames)

/-- The merge of several files, from the last full one on. -/
def combineLtxs {σ : Type} (ltxs : List Ltx) (sources : List σ) (sourceNames : List String) :
    Except Py.Error (Ltx × List σ × List String) :=
  match ltxs.drop (lastTopLevel ltxs) with
  | [] => .error .indexError
  | ltx :: partials =>
    (mergeLtxs ltx partials).bind fun ltx =>
      match usedSources ltx (lastTopLevel ltxs) sources sourceNames with
      | [] => .error (.valueError "not enough values to unpack (expected 2, got 0)")
      | used => .ok (ltx, used.map (·.1), used.map (·.2))

/-- `parse_ltx_files`, with a name for every source and without the experimental protocol decoding;
    `load` opens a source and reads its JSON. -/
def parseLtxFiles {σ : Type} (load : σ → Except Py.Error (List LtxDataItem)) (sources : List σ)
    (sourceNames : List String) : Except Py.Error (Ltx × List σ × List String) :=
  if sources.length ≠ sourceNames.length then
    .error (.valueError ("Function \"ltx_files(ltx_sources, source_names)\" needs to have "
      ++ "equal number of items for arguments \"ltx_sources\" and \"source_names\"."))
  else do
    let ltxs ← Py.mapExcept (fun s => load s.1 >>= parseLtx isMemberName s.2)
      (sources.zip sourceNames)
    match ltxs with
    | [ltx] => return (ltx, sources, sourceNames)
    | _ => combineLtxs ltxs sources sourceNames

end Parse

end Ltx

end Chipscopy
