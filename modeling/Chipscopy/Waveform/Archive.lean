import Chipscopy.Waveform.Data

/-! Waveform archives

    An archive holds a waveform as JSON next to the bytes of its data. The encoder walks through
    the records and writes an enum class as its name and its members, the decoder reads the keys
    one by one and hands them to the constructors. Iterating over an enum class leaves out the
    names that share the value of an earlier one. -/

namespace Chipscopy.Waveform

inductive Json
  | null
  | bool (b : Bool)
  | int (n : ℤ)
  | str (s : String)
  | list (es : List Json)
  | obj (entries : List (String × Json))

/-- How reading an archive ends otherwise: an exception, or a value that is not of the type of its
    field or for a field that is left out here, which the constructors do not look at. -/
inductive ArchiveError
  | raised (e : Py.Error)
  | foreign
  deriving DecidableEq, Repr

/-! ### Writing -/

def ILABitRange.asdict (br : ILABitRange) : Json :=
  .obj [("index", .int br.index), ("length", .int br.length)]

def encodeMapRange (mapRange : List ILABitRange) : Json := .list (mapRange.map ILABitRange.asdict)

def ILAProbeRadix.name : ILAProbeRadix → String
  | bin => "BIN"
  | enum => "ENUM"
  | hex => "HEX"
  | signed => "SIGNED"
  | unsigned => "UNSIGNED"

/-- Members that iterating over a plain `Enum` or `IntEnum` class yields: a name for a value that
    has one is an alias. -/
def canonicalMembers : List (String × ℤ) → List (String × ℤ)
  | [] => []
  | m :: ms => m :: (canonicalMembers ms).filter (·.2 ≠ m.2)

def EnumMeta.encode (e : EnumMeta) : Json :=
  .list [.str e.name, .obj ((canonicalMembers e.members).map fun m => (m.1, .int m.2))]

/-- An optional value, or `null`. -/
def Json.optional {α : Type} (encode : α → Json) : Option α → Json
  | none => .null
  | some a => encode a

def ILAWaveformProbe.encode (p : ILAWaveformProbe) : Json :=
  .obj [
    ("name", .str p.name),
    ("map", .str p.map),
    ("map_range", encodeMapRange p.mapRange),
    ("is_bus", .bool p.isBus),
    ("bus_left_index", .optional .int p.busLeftIndex),
    ("bus_right_index", .optional .int p.busRightIndex),
    ("display_radix", .str p.displayRadix.name),
    ("enum_def", .optional EnumMeta.encode p.enumDef)]

/-- `export_compressed_waveform`. -/
def ILAWaveform.encode (wf : ILAWaveform) : Json :=
  .obj [
    ("version", .int 1),
    ("gap_index", .optional (fun g : ℕ => .int g) wf.gapIndex),
    ("probes", .obj (wf.probes.entries.map fun e => (e.1, e.2.encode))),
    ("sample_count", .int wf.sampleCount),
    ("trigger_position", .list (wf.triggerPosition.map .int)),
    ("window_size", .int wf.windowSize),
    ("width", .int wf.width)]

/-! ### Reading -/

def waveformArchiveVersion : ℤ := 1

/-- Python's name of the type of a value. -/
def Json.typeName : Json → String
  | null => "NoneType"
  | bool _ => "bool"
  | int _ => "int"
  | str _ => "str"
  | list _ => "list"
  | obj _ => "dict"

/-- `value.items()`. -/
def Json.items : Json → Except ArchiveError (List (String × Json))
  | obj entries => .ok entries
  | value => .error (.raised (.attributeError
      s!"'{value.typeName}' object has no attribute 'items'"))

/-- `'a', 'b' and 'c'`. -/
def quoteNames : List String → String
  | [] => ""
  | [a] => s!"'{a}'"
  | [a, b] => s!"'{a}' and '{b}'"
  | [a, b, c] => s!"'{a}', '{b}', and '{c}'"
  | a :: as => s!"'{a}', " ++ quoteNames as

/-- Keyword arguments of a constructor: none but its fields, and all that have no default. -/
def bindKeywords (callee : String) (required optional : List String) (given : List String) :
    Except ArchiveError Unit :=
  match given.find? (· ∉ required ++ optional) with
  | some key => .error (.raised (.typeError
      s!"{callee}() got an unexpected keyword argument '{key}'"))
  | none =>
    match required.filter (· ∉ given) with
    | [] => .ok ()
    | [a] => .error (.raised (.typeError
        s!"{callee}() missing 1 required positional argument: {quoteNames [a]}"))
    | missing => .error (.raised (.typeError
        (s!"{callee}() missing {missing.length} required positional arguments: "
          ++ quoteNames missing)))

def Json.asStr : Json → Except ArchiveError String
  | str s => .ok s
  | _ => .error .foreign

def Json.asBool : Json → Except ArchiveError Bool
  | bool b => .ok b
  | _ => .error .foreign

def Json.asInt : Json → Except ArchiveError ℤ
  | int n => .ok n
  | _ => .error .foreign

def Json.asNat : Json → Except ArchiveError ℕ
  | int n => if 0 ≤ n then .ok n.toNat else .error .foreign
  | _ => .error .foreign

def Json.asOptional {α : Type} (read : Json → Except ArchiveError α) :
    Json → Except ArchiveError (Option α)
  | null => .ok none
  | value => (read value).map some

/-- `ILABitRange(**dd)`. -/
def decodeBitRange : Json → Except ArchiveError ILABitRange
  | .obj entries => do
    bindKeywords "ILABitRange.__new__" ["index", "length"] [] (entries.map (·.1))
    let index ← ((Py.lookup "index" entries).getD .null).asNat
    let length ← ((Py.lookup "length" entries).getD .null).asNat
    return ⟨index, length⟩
  | value => .error (.raised (.typeError
      s!"argument after ** must be a mapping, not {value.typeName}"))

/-- The loop goes over the characters of a string and the keys of a dictionary. -/
def decodeMapRange : Json → Except ArchiveError (List ILABitRange)
  | .list es => Py.mapExcept decodeBitRange es
  | .str s => Py.mapExcept (fun c => decodeBitRange (.str (String.singleton c))) s.toList
  | .obj entries => Py.mapExcept (fun e => decodeBitRange (.str e.1)) entries
  | value => .error (.raised (.typeError s!"'{value.typeName}' object is not iterable"))

/-- `ILAProbeRadix[value]`. -/
def decodeRadix : Json → Except ArchiveError ILAProbeRadix
  | .str s =>
    match [.bin, .enum, .hex, .signed, .unsigned].find? (fun r : ILAProbeRadix => r.name = s) with
    | some r => .ok r
    | none => .error (.raised (.keyError s))
  | .list _ => .error (.raised (.typeError "unhashable type: 'list'"))
  | .obj _ => .error (.raised (.typeError "unhashable type: 'dict'"))
  | _ => .error (.raised (.keyError ""))

/-- `enum.Enum(value[0], value[1])`, for names with integers. -/
def decodeEnum : Json → Except ArchiveError (Option EnumMeta)
  | .list [.str name, .obj items] => do
    let members ← Py.mapExcept (fun e => e.2.asInt.map fun n => (e.1, n)) items
    return some ⟨name, members⟩
  | .list [_, _] => .error .foreign
  | _ => .ok none

/-- An argument of `ILAWaveformProbe`. -/
inductive ProbeArg
  | mapRange (mapRange : List ILABitRange)
  | displayRadix (displayRadix : ILAProbeRadix)
  | enumDef (enumDef : Option EnumMeta)
  | other (value : Json)

def decodeProbeArg (key : String) (value : Json) : Except ArchiveError ProbeArg :=
  if key = "map_range" then (decodeMapRange value).map .mapRange
  else if key = "display_radix" then (decodeRadix value).map .displayRadix
  else if key = "enum_def" then (decodeEnum value).map .enumDef
  else .ok (.other value)

/-- `except Exception as ex: raise ValueError(..) from ex`. -/
def reading {α : Type} (probeName : String) :
    Except ArchiveError α → Except ArchiveError α
  | .error (.raised _) => .error (.raised (.valueError
      s!"Error reading ILA waveform probe \"{probeName}\""))
  | r => r

/-- The value of an argument that is no list of ranges, radix or enum class. -/
def ProbeArg.value : ProbeArg → Json
  | other value => value
  | _ => .null

/-- `ILAWaveformProbe(**pd)`. -/
def ILAWaveformProbe.ofArgs (pd : Py.Dict String ProbeArg) :
    Except ArchiveError ILAWaveformProbe := do
  bindKeywords "ILAWaveformProbe.__init__" ["name", "map", "map_range", "is_bus"]
    ["bus_left_index", "bus_right_index", "display_radix", "enum_def"] pd.keys
  let json (key : String) : Json := ((pd.get? key).map ProbeArg.value).getD .null
  let name ← (json "name").asStr
  let map ← (json "map").asStr
  let isBus ← (json "is_bus").asBool
  let busLeftIndex ← (json "bus_left_index").asOptional Json.asInt
  let busRightIndex ← (json "bus_right_index").asOptional Json.asInt
  let mapRange := match pd.get? "map_range" with
    | some (.mapRange mapRange) => mapRange
    | _ => []
  let displayRadix := match pd.get? "display_radix" with
    | some (.displayRadix displayRadix) => displayRadix
    | _ => .hex
  let enumDef := match pd.get? "enum_def" with
    | some (.enumDef enumDef) => enumDef
    | _ => none
  return { name, map, mapRange, isBus, busLeftIndex, busRightIndex, displayRadix, enumDef }

def decodeProbe (probeName : String) (inDict : Json) : Except ArchiveError ILAWaveformProbe := do
  let pd ← (← inDict.items).foldlM (fun (pd : Py.Dict String ProbeArg) e => do
    let arg ← reading probeName (decodeProbeArg e.1 e.2)
    return pd.set e.1 arg) .empty
  ILAWaveformProbe.ofArgs pd

def decodeProbes (inProbes : Json) : Except ArchiveError (Py.Dict String ILAWaveformProbe) := do
  let probes ← Py.mapExcept (fun e => (decodeProbe e.1 e.2).map fun p => (e.1, p))
    (← inProbes.items)
  return Py.Dict.empty.update probes

/-- The version of an archive must not be newer than the decoder. -/
def checkVersion (value : Json) : Except ArchiveError Unit :=
  let newer : Except ArchiveError Bool := match value with
    | .int v => .ok (v > waveformArchiveVersion)
    | .bool _ => .ok false
    | value => .error (.raised (.typeError
        s!"'>' not supported between instances of '{value.typeName}' and 'int'"))
  match newer, value with
  | .ok true, .int v => .error (.raised (.valueError
      (s!"waveform archive version \"{v}\" is not supported."
        ++ s!"Only versions \"<={waveformArchiveVersion}\" are supported.")))
  | .ok _, _ => .ok ()
  | .error e, _ => .error e

/-- One round of the loop over the keys. -/
def decodeKey (wd : Py.Dict String Json) (e : String × Json) :
    Except ArchiveError (Py.Dict String Json) :=
  if e.1 = "data" ∨ e.1 = "probes" then .ok wd
  else if e.1 = "version" then (checkVersion e.2).map fun _ => wd
  else .ok (wd.set e.1 e.2)

/-- `ILAWaveform(**wd)`. -/
def ILAWaveform.ofArgs (wd : Py.Dict String Json) (probes : Py.Dict String ILAWaveformProbe)
    (data : List UInt8) : Except ArchiveError ILAWaveform := do
  bindKeywords "ILAWaveform.__init__" ["width", "sample_count", "trigger_position", "window_size"]
    ["gap_index", "probe_groups", "transactionAssembler", "num_slots"] wd.keys
  if wd.keys.any (· ∈ ["probe_groups", "transactionAssembler", "num_slots"]) then
    throw .foreign
  let json (key : String) : Json := (wd.get? key).getD .null
  let width ← (json "width").asNat
  let sampleCount ← (json "sample_count").asNat
  let triggerPosition ← match json "trigger_position" with
    | .list es => Py.mapExcept Json.asInt es
    | _ => .error .foreign
  let windowSize ← (json "window_size").asNat
  let gapIndex ← (json "gap_index").asOptional Json.asNat
  return { width, sampleCount, triggerPosition, windowSize, probes, data, gapIndex }

/-- `decode_waveform_from_json`, after the text has been read as JSON. -/
def decodeWaveformFromJson (json : Json) (inData : List UInt8) :
    Except ArchiveError ILAWaveform := do
  let jsonDict ← match json with
    | .obj entries => .ok entries
    | value => .error (.raised (.attributeError
        s!"'{value.typeName}' object has no attribute 'get'"))
  let probes ← decodeProbes ((Py.lookup "probes" jsonDict).getD (.obj []))
  let wd ← jsonDict.foldlM decodeKey .empty
  ILAWaveform.ofArgs wd probes inData

/-! ### The same waveform -/

/-- `enumClass[name].value`. -/
def EnumMeta.value? (e : EnumMeta) (name : String) : Option ℤ := Py.lookup name e.members

/-- Every name resolves to the same value. -/
structure EnumMeta.Same (e e' : EnumMeta) : Prop where
  name : e'.name = e.name
  value : ∀ name, e'.value? name = e.value? name

structure ILAWaveformProbe.Same (p p' : ILAWaveformProbe) : Prop where
  name : p'.name = p.name
  map : p'.map = p.map
  mapRange : p'.mapRange = p.mapRange
  isBus : p'.isBus = p.isBus
  busLeftIndex : p'.busLeftIndex = p.busLeftIndex
  busRightIndex : p'.busRightIndex = p.busRightIndex
  displayRadix : p'.displayRadix = p.displayRadix
  enumDef : Option.Rel EnumMeta.Same p.enumDef p'.enumDef

/-- The probes stand under the same names in the same order. -/
structure ILAWaveform.Same (wf wf' : ILAWaveform) : Prop where
  width : wf'.width = wf.width
  sampleCount : wf'.sampleCount = wf.sampleCount
  triggerPosition : wf'.triggerPosition = wf.triggerPosition
  windowSize : wf'.windowSize = wf.windowSize
  gapIndex : wf'.gapIndex = wf.gapIndex
  data : wf'.data = wf.data
  probes : List.Forall₂ (fun e e' => e'.1 = e.1 ∧ e.2.Same e'.2) wf.probes.entries
    wf'.probes.entries

/-- What was archived is read again. -/
def ILAWaveform.RoundTrips (wf : ILAWaveform) : Prop :=
  ∃ wf', decodeWaveformFromJson wf.encode wf.data = .ok wf' ∧ wf.Same wf'

/-- No class has two members of one name. -/
def ILAWaveform.EnumsNamed (wf : ILAWaveform) : Prop :=
  ∀ p ∈ wf.probes.values, ∀ e ∈ p.enumDef, (e.members.map (·.1)).Nodup

/-- No class has two names for one value. -/
def ILAWaveform.WithoutAliases (wf : ILAWaveform) : Prop :=
  ∀ p ∈ wf.probes.values, ∀ e ∈ p.enumDef, (e.members.map (·.2)).Nodup

instance (wf : ILAWaveform) : Decidable wf.EnumsNamed :=
  inferInstanceAs (Decidable (∀ p ∈ wf.probes.values, ∀ e ∈ p.enumDef, _))

instance (wf : ILAWaveform) : Decidable wf.WithoutAliases :=
  inferInstanceAs (Decidable (∀ p ∈ wf.probes.values, ∀ e ∈ p.enumDef, _))

/-! ### Aliases -/

theorem canonicalMembers_sublist : ∀ ms : List (String × ℤ), (canonicalMembers ms).Sublist ms
  | [] => .slnil
  | m :: ms => (List.filter_sublist.trans (canonicalMembers_sublist ms)).cons_cons m

/-- Nothing is left out of members with values of their own. -/
theorem canonicalMembers_eq_self : ∀ {ms : List (String × ℤ)}, (ms.map (·.2)).Nodup →
    canonicalMembers ms = ms
  | [], _ => rfl
  | m :: ms, h => by
    obtain ⟨hm, hms⟩ := List.nodup_cons.mp h
    have hne : ∀ m' ∈ ms, m'.2 ≠ m.2 := fun m' hm' heq => hm (List.mem_map.mpr ⟨m', hm', heq⟩)
    rw [canonicalMembers, canonicalMembers_eq_self hms, List.filter_eq_self.mpr]
    simpa using hne

/-- The values of canonical members are distinct. -/
theorem nodup_canonicalMembers (ms : List (String × ℤ)) :
    ((canonicalMembers ms).map (·.2)).Nodup := by
  induction ms with
  | nil => exact List.nodup_nil
  | cons m ms ih =>
    rw [canonicalMembers, List.map_cons, List.nodup_cons]
    constructor
    · intro hmem
      obtain ⟨m', hm', heq⟩ := List.mem_map.mp hmem
      simp [heq] at hm'
    · exact ih.sublist (List.filter_sublist.map _)

/-- A name that was left out resolves to nothing. -/
theorem lookup_canonicalMembers_iff {ms : List (String × ℤ)} (hnames : (ms.map (·.1)).Nodup) :
    (∀ name, Py.lookup name (canonicalMembers ms) = Py.lookup name ms) ↔ (ms.map (·.2)).Nodup := by
  constructor
  · intro h
    have hcanonical : ((canonicalMembers ms).map (·.1)).Nodup :=
      hnames.sublist ((canonicalMembers_sublist ms).map _)
    have hsubset : ms ⊆ canonicalMembers ms := by
      rintro ⟨name, v⟩ hm
      rw [← Py.lookup_eq_some_iff hcanonical, h, Py.lookup_eq_some_iff hnames]
      exact hm
    have hlength : ms.length ≤ (canonicalMembers ms).length :=
      (hnames.of_map.subperm hsubset).length_le
    rw [← (canonicalMembers_sublist ms).eq_of_length_le hlength]
    exact nodup_canonicalMembers ms
  · intro h name
    rw [canonicalMembers_eq_self h]

/-! ### What is read -/

/-- The class that iterating over the members makes again. -/
def EnumMeta.canonical (e : EnumMeta) : EnumMeta := ⟨e.name, canonicalMembers e.members⟩

def ILAWaveformProbe.canonical (p : ILAWaveformProbe) : ILAWaveformProbe :=
  { p with enumDef := p.enumDef.map EnumMeta.canonical }

def ILAWaveform.canonical (wf : ILAWaveform) : ILAWaveform :=
  { wf with probes := wf.probes.map ILAWaveformProbe.canonical }

@[simp] theorem asNat_natCast (n : ℕ) : Json.asNat (.int n) = .ok n := by
  simp [Json.asNat]

@[simp] theorem decodeBitRange_asdict (br : ILABitRange) : decodeBitRange br.asdict = .ok br := by
  rw [ILABitRange.asdict]
  simp [decodeBitRange, bindKeywords, Py.lookup]
  rfl

@[simp] theorem decodeMapRange_encode (mapRange : List ILABitRange) :
    decodeMapRange (encodeMapRange mapRange) = .ok mapRange := by
  rw [encodeMapRange, decodeMapRange, Py.mapExcept_map,
    Py.mapExcept_eq_ok fun br _ => decodeBitRange_asdict br, List.map_id']

@[simp] theorem decodeRadix_name (r : ILAProbeRadix) : decodeRadix (.str r.name) = .ok r := by
  cases r <;> rfl

theorem decodeEnum_encode (e : EnumMeta) : decodeEnum e.encode = .ok (some e.canonical) := by
  have hmembers : Py.mapExcept (fun m : String × Json => m.2.asInt.map fun n => (m.1, n))
      ((canonicalMembers e.members).map fun m => (m.1, .int m.2)) =
        .ok (canonicalMembers e.members) := by
    rw [Py.mapExcept_map]
    exact (Py.mapExcept_eq_ok (g := id) fun m _ => rfl).trans (by rw [List.map_id])
  rw [EnumMeta.encode, decodeEnum, hmembers]
  rfl

@[simp] theorem decodeEnum_optional (o : Option EnumMeta) :
    decodeEnum (.optional EnumMeta.encode o) = .ok (o.map EnumMeta.canonical) := by
  cases o with
  | none => rfl
  | some e => exact decodeEnum_encode e

@[simp] theorem asOptional_int (o : Option ℤ) :
    Json.asOptional Json.asInt (.optional .int o) = .ok o := by
  cases o <;> rfl

@[simp] theorem asOptional_nat (o : Option ℕ) :
    Json.asOptional Json.asNat (.optional (fun n : ℕ => .int n) o) = .ok o := by
  cases o with
  | none => rfl
  | some n => simp [Json.optional, Json.asOptional, Except.map]

/-- The arguments that stand in an archive. -/
def ILAWaveformProbe.args (p : ILAWaveformProbe) : Py.Dict String ProbeArg :=
  Py.Dict.empty.update [
    ("name", .other (.str p.name)),
    ("map", .other (.str p.map)),
    ("map_range", .mapRange p.mapRange),
    ("is_bus", .other (.bool p.isBus)),
    ("bus_left_index", .other (.optional .int p.busLeftIndex)),
    ("bus_right_index", .other (.optional .int p.busRightIndex)),
    ("display_radix", .displayRadix p.displayRadix),
    ("enum_def", .enumDef p.enumDef)]

theorem ofArgs_args (p : ILAWaveformProbe) : ILAWaveformProbe.ofArgs p.args = .ok p := by
  simp [ILAWaveformProbe.ofArgs, ILAWaveformProbe.args, bindKeywords, Py.Dict.update, Py.Dict.set,
    Py.Dict.empty, Py.store, Py.Dict.keys, Py.Dict.get?, Py.lookup, ProbeArg.value, Json.asStr,
    Json.asBool, Py.ok_bind]

/-- The fields of a probe come back. -/
theorem decodeProbe_encode (probeName : String) (p : ILAWaveformProbe) :
    decodeProbe probeName p.encode = .ok p.canonical := by
  rw [ILAWaveformProbe.encode, decodeProbe]
  simp only [Json.items, Py.ok_bind, List.foldlM_cons, List.foldlM_nil, decodeProbeArg,
    decodeMapRange_encode, decodeRadix_name, decodeEnum_optional, reading, Except.map,
    String.reduceEq, if_true, if_false, pure_bind]
  exact ofArgs_args p.canonical

theorem decodeProbes_encode (probes : Py.Dict String ILAWaveformProbe) :
    decodeProbes (.obj (probes.entries.map fun e => (e.1, e.2.encode))) =
      .ok (probes.map ILAWaveformProbe.canonical) := by
  have hprobes : Py.mapExcept (fun e : String × Json =>
      (decodeProbe e.1 e.2).map fun p => (e.1, p))
      (probes.entries.map fun e => (e.1, e.2.encode)) =
        .ok (probes.map ILAWaveformProbe.canonical).entries := by
    rw [Py.mapExcept_map]
    refine Py.mapExcept_eq_ok fun e _ => ?_
    rw [decodeProbe_encode]
    rfl
  rw [decodeProbes, Json.items, Py.ok_bind, hprobes, Py.ok_bind, Py.Dict.update_entries]
  rfl

/-- An archive reads as the waveform without the aliases of its enum classes. -/
theorem decodeWaveformFromJson_encode (wf : ILAWaveform) :
    decodeWaveformFromJson wf.encode wf.data = .ok wf.canonical := by
  have hpositions : Py.mapExcept Json.asInt (wf.triggerPosition.map .int) =
      .ok wf.triggerPosition := by
    rw [Py.mapExcept_map]
    exact (Py.mapExcept_eq_ok (g := id) fun t _ => rfl).trans (by rw [List.map_id])
  rw [ILAWaveform.encode, decodeWaveformFromJson]
  simp [Py.ok_bind, Py.lookup, decodeProbes_encode, decodeKey, checkVersion,
    waveformArchiveVersion, Except.map, ILAWaveform.ofArgs, bindKeywords, Py.Dict.keys,
    Py.Dict.set, Py.Dict.empty, Py.store, Py.Dict.get?, hpositions]
  rfl

/-! ### What is kept -/

theorem EnumMeta.same_canonical_iff {e : EnumMeta} (hnames : (e.members.map (·.1)).Nodup) :
    e.Same e.canonical ↔ (e.members.map (·.2)).Nodup := by
  rw [← lookup_canonicalMembers_iff hnames]
  exact ⟨fun h => h.value, fun h => ⟨rfl, h⟩⟩

theorem ILAWaveformProbe.same_canonical_iff {p : ILAWaveformProbe}
    (hnames : ∀ e ∈ p.enumDef, (e.members.map (·.1)).Nodup) :
    p.Same p.canonical ↔ ∀ e ∈ p.enumDef, (e.members.map (·.2)).Nodup := by
  have hfields : p.Same p.canonical ↔
      Option.Rel EnumMeta.Same p.enumDef (p.enumDef.map EnumMeta.canonical) :=
    ⟨fun h => h.enumDef, fun h => ⟨rfl, rfl, rfl, rfl, rfl, rfl, rfl, h⟩⟩
  rw [hfields]
  rcases he : p.enumDef with - | e
  · simp
  · simp [← EnumMeta.same_canonical_iff (hnames e he)]

theorem ILAWaveform.same_canonical_iff (wf : ILAWaveform) :
    wf.Same wf.canonical ↔ ∀ p ∈ wf.probes.values, p.Same p.canonical := by
  have hprobes : List.Forall₂ (fun e e' : String × ILAWaveformProbe => e'.1 = e.1 ∧ e.2.Same e'.2)
      wf.probes.entries wf.canonical.probes.entries ↔
        ∀ p ∈ wf.probes.values, p.Same p.canonical := by
    change List.Forall₂ _ _ (wf.probes.entries.map _) ↔ _
    rw [List.forall₂_map_right_iff, List.forall₂_same, Py.Dict.values, List.forall_mem_map]
    exact forall₂_congr fun e _ => ⟨fun h => h.2, fun h => ⟨rfl, h⟩⟩
  rw [← hprobes]
  exact ⟨fun h => h.probes, fun h => ⟨rfl, rfl, rfl, rfl, rfl, rfl, h⟩⟩

theorem ILAWaveform.roundTrips_iff_same (wf : ILAWaveform) :
    wf.RoundTrips ↔ wf.Same wf.canonical := by
  constructor
  · rintro ⟨wf', hread, hsame⟩
    obtain rfl := Except.ok.inj ((decodeWaveformFromJson_encode wf).symm.trans hread)
    exact hsame
  · exact fun h => ⟨wf.canonical, decodeWaveformFromJson_encode wf, h⟩

/-- A waveform comes back from its archive just when no enum class has two names for a value. -/
theorem ILAWaveform.roundTrips_iff (wf : ILAWaveform) (hnames : wf.EnumsNamed) :
    wf.RoundTrips ↔ wf.WithoutAliases := by
  rw [roundTrips_iff_same, same_canonical_iff]
  exact forall₂_congr fun p hp => ILAWaveformProbe.same_canonical_iff (hnames p hp)

/-- A sample of two bits, shown with names. -/
def named (members : List (String × ℤ)) : ILAWaveform where
  width := 2
  sampleCount := 1
  triggerPosition := [0]
  windowSize := 1
  probes := Py.Dict.empty.set "state"
    ⟨"state", "manual", [⟨0, 2⟩], true, some 1, some 0, .enum, some ⟨"state_Enum", members⟩⟩
  data := [1]

theorem ILAWaveform.roundTrips_iff_named : (named [("IDLE", 0), ("BUSY", 1)]).RoundTrips :=
  (roundTrips_iff (named [("IDLE", 0), ("BUSY", 1)]) (by decide)).mpr (by decide)

/-- The second name of a value is lost. -/
theorem ILAWaveform.not_roundTrips_alias :
    ¬ (named [("IDLE", 0), ("BUSY", 1), ("ACTIVE", 1)]).RoundTrips := by
  intro h
  rw [roundTrips_iff_same, same_canonical_iff] at h
  have hprobe := h _ List.mem_cons_self
  have hvalue := (Option.rel_some_some.mp hprobe.enumDef).value "ACTIVE"
  exact absurd hvalue (by decide)

end Chipscopy.Waveform
