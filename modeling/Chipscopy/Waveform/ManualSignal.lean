import Chipscopy.Waveform.Export

/-! Manual signals

    A manual signal is shown with an `Enum`, one member for each label. Its codes are stored in the
    samples themselves: the waveform gets wider by the bits of the largest code, the samples move
    apart where their bytes do not have room for these bits, and each sample gets the code of its
    label. -/

namespace Chipscopy.Waveform

/-- The member name of a label: `Enum` takes no empty one. -/
def memberName (label : String) (code : ℤ) : String :=
  if label = "" then s!"VAL_{code}" else label

/-- `enum_to_display` and `sanitized_map`. -/
structure ManualEnum where
  enumToDisplay : Py.Dict String String
  sanitizedMap : Py.Dict String ℤ

namespace ManualEnum

def ofMapping (mapping : List (String × ℤ)) : ManualEnum where
  enumToDisplay := Py.Dict.empty.update (mapping.map fun e => (memberName e.1 e.2, e.1))
  sanitizedMap := Py.Dict.empty.update (mapping.map fun e => (memberName e.1 e.2, e.2))

/-- Code of the first member that shows a label. -/
def code (members : ManualEnum) (sval : String) : Except Py.Error ℤ :=
  match members.enumToDisplay.entries.find? (fun m => m.2 = sval) with
  | none => .error (.assertionError s!"no enum member for '{sval}'")
  | some m =>
    match members.sanitizedMap.get? m.1 with
    | none => .error (.keyError m.1)
    | some code => .ok code

end ManualEnum

/-- `max(values)`. -/
def maxCode (codes : List ℤ) : Except Py.Error ℤ :=
  match codes.max? with
  | none => .error (.valueError "max() arg is an empty sequence")
  | some code => .ok code

/-- `max_code.bit_length() or 1`. -/
def codeWidth (maxCode : ℤ) : ℕ := if maxCode.natAbs.size = 0 then 1 else maxCode.natAbs.size

theorem codeWidth_pos (maxCode : ℤ) : 0 < codeWidth maxCode := by
  rw [codeWidth]
  split <;> omega

theorem lt_two_pow_codeWidth (n : ℕ) : n < 2 ^ codeWidth n := by
  rw [codeWidth, Int.natAbs_natCast]
  split
  · next h => simp [Nat.size_eq_zero.mp h]
  · exact Nat.lt_size_self n

/-- `Enum(enum_name, members)`, for the member names that `Enum` takes under a class name. -/
def newEnum (isMemberName : String → String → Bool) (enumName : String)
    (members : Py.Dict String ℤ) : Except Py.Error EnumMeta :=
  if members.keys.all (isMemberName enumName) then .ok ⟨enumName, members.entries⟩
  else .error (.valueError "invalid enum member name")

/-- The bytes of each sample, moved to samples of `newBps` bytes. -/
def widenSamples (sampleCount oldBps newBps : ℕ) (data : List UInt8) : List UInt8 :=
  (List.range sampleCount).foldl
    (fun newData i => Py.setSlice newData (i * newBps : ℕ) (i * newBps + oldBps : ℕ)
      (Py.slice data (i * oldBps : ℕ) (i * oldBps + oldBps : ℕ)))
    (List.replicate (newBps * sampleCount) 0)

/-- One bit of the sample at byte `base`. -/
def writeBit (data : List UInt8) (base position : ℕ) (value : Bool) :
    Except Py.Error (List UInt8) := do
  let byteOff := position / 8
  let mask := UInt8.ofNat (1 <<< (position % 8))
  let idx := base + byteOff
  let byte ← Py.index data idx
  return data.set idx (if value then byte ||| mask else byte &&& ~~~mask)

/-- The bits of a code, in sample `i`. -/
def writeCode (bps bitIndex bitWidth : ℕ) (data : List UInt8) (i : ℕ) (code : ℤ) :
    Except Py.Error (List UInt8) :=
  (List.range bitWidth).foldlM
    (fun data bit => writeBit data (i * bps) (bitIndex + bit) (code.testBit bit)) data

/-- The loop over the values, from sample `i`. -/
def writeValues (members : ManualEnum) (bps bitIndex bitWidth : ℕ) :
    List UInt8 → ℕ → List String → Except Py.Error (List UInt8)
  | data, _, [] => .ok data
  | data, i, sval :: values => do
    let code ← members.code sval
    let data ← writeCode bps bitIndex bitWidth data i code
    writeValues members bps bitIndex bitWidth data (i + 1) values

def manualProbe (name : String) (bitIndex bitWidth : ℕ) (enumDef : EnumMeta) :
    ILAWaveformProbe where
  name := name
  map := "manual"
  mapRange := [⟨bitIndex, bitWidth⟩]
  isBus := true
  busLeftIndex := some (bitWidth - 1)
  busRightIndex := some 0
  displayRadix := .enum
  enumDef := some enumDef

/-- `append_manual_enum_signal`, for the member names that `Enum` takes. -/
def appendManualEnumSignal (isMemberName : String → String → Bool) (wf : ILAWaveform)
    (name : String) (values : List String) (mapping : Py.Dict String ℤ) :
    Except Py.Error ILAWaveform :=
  let missing := values.dedup.filter (· ∉ mapping.keys)
  if values.length ≠ wf.sampleCount then
    .error (.valueError s!"{name}: must supply one value per sample ({wf.sampleCount})")
  else if missing ≠ [] then
    .error (.keyError (s!"{name}: no mapping for \x7b"
      ++ ", ".intercalate (missing.map fun label => "'" ++ label ++ "'") ++ "\x7d"))
  else do
    let members := ManualEnum.ofMapping mapping.entries
    let maxCode ← maxCode members.sanitizedMap.values
    let bitWidth := codeWidth maxCode
    let bitIndex := wf.width
    let width := wf.width + bitWidth
    let oldBps ← wf.bytesPerSample
    let newBps := (width + 7) / 8
    let data := if newBps > oldBps then widenSamples wf.sampleCount oldBps newBps wf.data
      else wf.data
    let enumDef ← newEnum isMemberName s!"{name}_Enum" members.sanitizedMap
    let probe := manualProbe name bitIndex bitWidth enumDef
    let widened : ILAWaveform := { wf with width, data, probes := wf.probes.set name probe }
    let bps ← widened.bytesPerSample
    let data ← writeValues members bps bitIndex bitWidth data 0 values
    return { widened with data }

/-- What an export reads for a probe in a sample. -/
def readProbe (wf : ILAWaveform) (probe : ILAWaveformProbe) (i : ℕ) : Except Py.Error (List ℕ) :=
  Py.mapExcept (fun rVal => Bits.parseBin rVal.reverse) (getSampleBinaryValues wf.width [probe]
    (Py.segment wf.data (i * wf.stride) (i * wf.stride + wf.stride)))

/-! ### Bits written into the samples -/

theorem writeBit_eq {data : List UInt8} {base position : ℕ}
    (h : base + position / 8 < data.length) (value : Bool) :
    writeBit data base position value = .ok (Bits.assign data (8 * base + position) value) := by
  have hdiv : (8 * base + position) / 8 = base + position / 8 := by omega
  have hmod : (8 * base + position) % 8 = position % 8 := by omega
  rw [writeBit, Py.index_natCast (List.getElem?_eq_getElem h), Py.ok_bind, Bits.assign, hdiv, hmod,
    List.getD_eq_getElem _ _ h]
  rfl

/-- The bits of a code are stored at their positions, and no other bit changes. -/
theorem writeCode_spec (bps : ℕ) {bitIndex i : ℕ} (code : ℤ) (data : List UInt8) : ∀ {bitWidth : ℕ},
    (∀ bit < bitWidth, i * bps + (bitIndex + bit) / 8 < data.length) →
    ∃ data', writeCode bps bitIndex bitWidth data i code = .ok data' ∧
      data'.length = data.length ∧ ∀ k, Bits.bit data' k =
        if 8 * (i * bps) + bitIndex ≤ k ∧ k < 8 * (i * bps) + bitIndex + bitWidth then
          code.testBit (k - (8 * (i * bps) + bitIndex))
        else Bits.bit data k
  | 0, _ => ⟨data, rfl, rfl, fun k => (if_neg (by omega)).symm⟩
  | bitWidth + 1, h => by
    obtain ⟨data', hok, hlen, hbits⟩ :=
      writeCode_spec bps code data fun bit hbit => h bit (Nat.lt_succ_of_lt hbit)
    have hroom := hlen ▸ h bitWidth (Nat.lt_succ_self bitWidth)
    refine ⟨Bits.assign data' (8 * (i * bps) + (bitIndex + bitWidth)) (code.testBit bitWidth),
      ?_, by rw [Bits.length_assign, hlen], fun k => ?_⟩
    · rw [writeCode, List.range_succ, List.foldlM_append]
      rw [writeCode] at hok
      rw [hok, Py.ok_bind, List.foldlM_cons, writeBit_eq hroom]
      rfl
    · rw [Bits.bit_assign (by omega), hbits]
      by_cases hk : k = 8 * (i * bps) + (bitIndex + bitWidth)
      · have hsub : k - (8 * (i * bps) + bitIndex) = bitWidth := by omega
        rw [if_pos hk, if_pos (by omega), hsub]
      · rw [if_neg hk]
        exact if_congr (by omega) rfl rfl

/-- Samples are written from the front to the back, so a bit inside its own sample stays. -/
theorem writeValues_spec {members : ManualEnum} {bps bitIndex bitWidth : ℕ} :
    ∀ {values : List String} {codes : List ℤ} (data : List UInt8) {i : ℕ},
    List.Forall₂ (fun sval code => members.code sval = .ok code) values codes →
    (∀ j < values.length, ∀ bit < bitWidth,
      (i + j) * bps + (bitIndex + bit) / 8 < data.length) →
    ∃ data', writeValues members bps bitIndex bitWidth data i values = .ok data' ∧
      data'.length = data.length ∧ (∀ k < 8 * (i * bps), Bits.bit data' k = Bits.bit data k) ∧
      ∀ j code, codes[j]? = some code → ∀ bit < bitWidth, bitIndex + bit < 8 * bps →
        Bits.bit data' (8 * ((i + j) * bps) + (bitIndex + bit)) = code.testBit bit
  | _, _, data, i, .nil, _ => ⟨data, rfl, rfl, fun _ _ => rfl, by simp⟩
  | sval :: values, code :: codes, data, i, .cons hcode hcodes, h => by
    obtain ⟨data₁, hok₁, hlen₁, hbits₁⟩ := writeCode_spec (i := i) bps code data
      fun bit hbit => by simpa using h 0 (by simp) bit hbit
    obtain ⟨data₂, hok₂, hlen₂, hbefore, hbits₂⟩ := writeValues_spec (i := i + 1) data₁
      hcodes fun j hj bit hbit => by
        rw [hlen₁, Nat.add_assoc, Nat.add_comm 1 j]
        exact h (j + 1) (by simpa using hj) bit hbit
    have hnext : 8 * ((i + 1) * bps) = 8 * (i * bps) + 8 * bps := by ring
    refine ⟨data₂, ?_, hlen₂.trans hlen₁, fun k hk => ?_, fun j c hj bit hbit hin => ?_⟩
    · rw [writeValues, hcode, Py.ok_bind, hok₁, Py.ok_bind, hok₂]
    · rw [hbefore k (by omega), hbits₁, if_neg (by omega)]
    · cases j with
      | zero =>
        obtain rfl : code = c := by simpa using hj
        have hsub : 8 * (i * bps) + (bitIndex + bit) - (8 * (i * bps) + bitIndex) = bit := by omega
        rw [Nat.add_zero, hbefore _ (by omega), hbits₁, if_pos (by omega), hsub]
      | succ j =>
        have hj : codes[j]? = some c := by simpa using hj
        rw [← hbits₂ j c hj bit hbit hin, Nat.add_assoc i 1 j, Nat.add_comm 1 j]

/-- Only found codes are written. -/
theorem codes_of_writeValues_ok {members : ManualEnum} {bps bitIndex bitWidth : ℕ} :
    ∀ {values : List String} {data data' : List UInt8} {i : ℕ},
    writeValues members bps bitIndex bitWidth data i values = .ok data' →
    ∃ codes, List.Forall₂ (fun sval code => members.code sval = .ok code) values codes
  | [], _, _, _, _ => ⟨[], .nil⟩
  | sval :: values, data, data', i, h => by
    obtain ⟨code, hcode, h⟩ := Py.bind_eq_ok h
    obtain ⟨data₁, -, h⟩ := Py.bind_eq_ok h
    obtain ⟨codes, hcodes⟩ := codes_of_writeValues_ok h
    exact ⟨code :: codes, .cons hcode hcodes⟩

/-! ### Members -/

section Members

variable {mapping : List (String × ℤ)} {label : String} {code : ℤ}

/-- The member of a label is its own, and not that of a label further down. -/
def HasMember (mapping : List (String × ℤ)) (label : String) (code : ℤ) : Prop :=
  ∃ before after, mapping = before ++ (label, code) :: after ∧
    memberName label code ∉ after.map fun e => memberName e.1 e.2

theorem HasMember.mem (h : HasMember mapping label code) : (label, code) ∈ mapping := by
  obtain ⟨before, after, rfl, -⟩ := h
  simp

/-- No entry behind that of the label has its member name. -/
theorem hasMember_iff (hnodup : mapping.Nodup) : HasMember mapping label code ↔
    (label, code) ∈ mapping ∧ ∀ e, [(label, code), e].Sublist mapping →
      memberName e.1 e.2 ≠ memberName label code := by
  constructor
  · rintro ⟨before, after, rfl, hafter⟩
    refine ⟨by simp, fun e hsub hname => hafter ?_⟩
    obtain ⟨hbefore, -⟩ := List.nodup_cons.mp (List.nodup_middle.mp hnodup)
    obtain ⟨front, back, hsplit, hfront, hback⟩ := List.sublist_append_iff.mp hsub
    have hnil : front = [] := by
      cases front with
      | nil => rfl
      | cons x front =>
        obtain ⟨rfl, -⟩ := List.cons.inj hsplit
        exact absurd (List.mem_append_left _ (hfront.subset List.mem_cons_self)) hbefore
    rw [hnil, List.nil_append] at hsplit
    rw [← hsplit] at hback
    exact List.mem_map.mpr ⟨e, List.singleton_sublist.mp (List.cons_sublist_cons.mp hback), hname⟩
  · rintro ⟨hmem, hlast⟩
    obtain ⟨before, after, rfl⟩ := List.append_of_mem hmem
    refine ⟨before, after, rfl, fun hname => ?_⟩
    obtain ⟨e, he, hname⟩ := List.mem_map.mp hname
    refine hlast e (List.Sublist.trans ?_ (List.sublist_append_right before _)) hname
    exact List.cons_sublist_cons.mpr (List.singleton_sublist.mpr he)

theorem get?_enumToDisplay {name : String} :
    (ManualEnum.ofMapping mapping).enumToDisplay.get? name = some label ↔
      ∃ code, memberName label code = name ∧ HasMember mapping label code := by
  rw [ManualEnum.ofMapping, Py.Dict.get?_update_empty_iff]
  constructor
  · rintro ⟨before, after, hsplit, hafter⟩
    obtain ⟨before, rest, rfl, rfl, hrest⟩ := List.map_eq_append_iff.mp hsplit
    obtain ⟨⟨l, c⟩, after, rfl, he, rfl⟩ := List.map_eq_cons_iff.mp hrest
    obtain ⟨rfl, rfl⟩ := Prod.mk.inj he
    exact ⟨c, rfl, before, after, rfl, by simpa using hafter⟩
  · rintro ⟨code, rfl, before, after, rfl, hafter⟩
    exact ⟨before.map _, after.map _, by rw [List.map_append, List.map_cons], by simpa using hafter⟩

theorem HasMember.get?_sanitizedMap (h : HasMember mapping label code) :
    (ManualEnum.ofMapping mapping).sanitizedMap.get? (memberName label code) = some code := by
  obtain ⟨before, after, rfl, hafter⟩ := h
  exact Py.Dict.get?_update_empty_iff.mpr
    ⟨before.map _, after.map _, by rw [List.map_append, List.map_cons], by simpa using hafter⟩

/-- A label finds its code if its member was not taken over by another label. -/
theorem code_eq_ok_iff (hnodup : (mapping.map (·.1)).Nodup) :
    (ManualEnum.ofMapping mapping).code label = .ok code ↔ HasMember mapping label code := by
  constructor
  · intro h
    rw [ManualEnum.code] at h
    cases hfind : (ManualEnum.ofMapping mapping).enumToDisplay.entries.find?
        (fun m => m.2 = label) with
    | none => simp [hfind] at h
    | some m =>
      obtain rfl : m.2 = label := by simpa using List.find?_some hfind
      have hget := (Py.Dict.get?_eq_some_iff _).mpr (List.mem_of_find?_eq_some hfind)
      obtain ⟨code', hname, hhas⟩ := get?_enumToDisplay.mp hget
      simp only [hfind, ← hname, hhas.get?_sanitizedMap, Except.ok.injEq] at h
      exact h ▸ hhas
  · intro h
    have hmem := (Py.Dict.get?_eq_some_iff _).mp (get?_enumToDisplay.mpr ⟨code, rfl, h⟩)
    rw [ManualEnum.code]
    cases hfind : (ManualEnum.ofMapping mapping).enumToDisplay.entries.find?
        (fun m => m.2 = label) with
    | none => exact absurd (List.find?_eq_none.mp hfind _ hmem) (by simp)
    | some m =>
      obtain rfl : m.2 = label := by simpa using List.find?_some hfind
      have hget := (Py.Dict.get?_eq_some_iff _).mpr (List.mem_of_find?_eq_some hfind)
      obtain ⟨code', hname, hhas⟩ := get?_enumToDisplay.mp hget
      obtain rfl : code' = code := congrArg Prod.snd
        (List.inj_on_of_nodup_map hnodup hhas.mem h.mem rfl)
      simp only [← hname, hhas.get?_sanitizedMap]

theorem mem_keys_sanitizedMap {name : String} :
    name ∈ (ManualEnum.ofMapping mapping).sanitizedMap.keys ↔
      ∃ e ∈ mapping, memberName e.1 e.2 = name := by
  rw [ManualEnum.ofMapping, Py.Dict.mem_keys_update]
  simp [Py.Dict.empty, Py.Dict.keys]

/-- The largest code, if its label has a member. -/
theorem maxCode_sanitizedMap (hmember : HasMember mapping label code)
    (hle : ∀ e ∈ mapping, e.2 ≤ code) :
    maxCode (ManualEnum.ofMapping mapping).sanitizedMap.values = .ok code := by
  have hmem : code ∈ (ManualEnum.ofMapping mapping).sanitizedMap.values :=
    List.mem_map_of_mem (f := (·.2)) ((Py.Dict.get?_eq_some_iff _).mp hmember.get?_sanitizedMap)
  have hmax : ∀ c ∈ (ManualEnum.ofMapping mapping).sanitizedMap.values, c ≤ code := by
    intro c hc
    obtain ⟨⟨name, c⟩, hentry, rfl⟩ := List.mem_map.mp hc
    obtain ⟨before, after, hsplit, -⟩ :=
      Py.Dict.get?_update_empty_iff.mp ((Py.Dict.get?_eq_some_iff _).mpr hentry)
    have hin : (name, c) ∈ mapping.map fun e => (memberName e.1 e.2, e.2) := by
      rw [hsplit]
      simp
    obtain ⟨e, he, hec⟩ := List.mem_map.mp hin
    exact congrArg Prod.snd hec ▸ hle e he
  rw [maxCode, List.max?_eq_some_iff.mpr ⟨hmem, hmax⟩]

end Members

/-! ### The waveform with its new signal -/

/-- Bytes of a sample after a signal of `bitWidth` bits. -/
def widenedStride (wf : ILAWaveform) (bitWidth : ℕ) : ℕ :=
  let newBps := (wf.width + bitWidth + 7) / 8
  if newBps > wf.stride then
    newBps * wf.sampleCount / (wf.triggerPosition.length * wf.windowSize)
  else wf.stride

/-- The waveform before its bits are written. -/
def widened (wf : ILAWaveform) (name : String) (bitWidth : ℕ) (enumDef : EnumMeta) : ILAWaveform :=
  let newBps := (wf.width + bitWidth + 7) / 8
  { wf with
    width := wf.width + bitWidth
    data := if newBps > wf.stride then widenSamples wf.sampleCount wf.stride newBps wf.data
      else wf.data
    probes := wf.probes.set name (manualProbe name wf.width bitWidth enumDef) }

variable {wf : ILAWaveform} {name : String} {bitWidth : ℕ} {enumDef : EnumMeta}

theorem length_widenSamples {sampleCount oldBps newBps : ℕ} {data : List UInt8}
    (hbps : oldBps ≤ newBps) (hdata : sampleCount * oldBps ≤ data.length) :
    (widenSamples sampleCount oldBps newBps data).length = newBps * sampleCount := by
  have hloop : ∀ n ≤ sampleCount, ((List.range n).foldl
      (fun newData i => Py.setSlice newData (i * newBps : ℕ) (i * newBps + oldBps : ℕ)
        (Py.slice data (i * oldBps : ℕ) (i * oldBps + oldBps : ℕ)))
      (List.replicate (newBps * sampleCount) 0)).length = newBps * sampleCount := by
    intro n hn
    induction n with
    | zero => simp
    | succ n ih =>
      have hold : n * oldBps + oldBps ≤ data.length :=
        calc n * oldBps + oldBps = (n + 1) * oldBps := by ring
          _ ≤ sampleCount * oldBps := Nat.mul_le_mul_right _ hn
          _ ≤ data.length := hdata
      have hnew : n * newBps + newBps ≤ newBps * sampleCount :=
        calc n * newBps + newBps = newBps * (n + 1) := by ring
          _ ≤ newBps * sampleCount := Nat.mul_le_mul_left _ hn
      have hfirst : n * newBps ≤ newBps * sampleCount := by omega
      have hlast : n * newBps + oldBps ≤ newBps * sampleCount := by omega
      rw [List.range_succ, List.foldl_append, List.foldl_cons, List.foldl_nil, Py.length_setSlice,
        ih (Nat.le_of_succ_le hn), Py.sliceIndex_natCast hfirst, Py.sliceIndex_natCast hlast,
        Py.slice_eq_segment _ (Nat.le_add_right _ _) hold, Py.length_segment]
      omega
  exact hloop sampleCount le_rfl

/-- A signal is read back as far as its bits lie in the bytes of a sample. -/
theorem readProbe_manualProbe {bitIndex i n : ℕ} (hpos : 0 < bitWidth)
    (hwidth : bitIndex + bitWidth ≤ wf.width) (hn : n < 2 ^ bitWidth)
    (hbits : ∀ bit < bitWidth, bitIndex + bit < 8 * wf.stride →
      Bits.bit wf.data (8 * (i * wf.stride) + (bitIndex + bit)) = n.testBit bit) :
    readProbe wf (manualProbe name bitIndex bitWidth enumDef) i =
      .ok [n % 2 ^ (8 * wf.stride - bitIndex)] := by
  have hread : (List.range bitWidth).map (fun bit => (Bits.fromBytes (Py.segment wf.data
      (i * wf.stride) (i * wf.stride + wf.stride))).testBit (bitIndex + bit)) =
      (List.range bitWidth).map (n % 2 ^ (8 * wf.stride - bitIndex)).testBit := by
    refine List.map_congr_left fun bit hbit => ?_
    have hbit := List.mem_range.mp hbit
    rw [Bits.testBit_fromBytes, Nat.testBit_mod_two_pow]
    by_cases hin : bitIndex + bit < 8 * wf.stride
    · rw [Bits.bit_segment _ hin, hbits bit hbit hin, decide_eq_true (by omega), Bool.true_and]
    · rw [Bits.bit_segment_of_le _ (by omega), decide_eq_false (by omega), Bool.false_and]
  have hsmall : n % 2 ^ (8 * wf.stride - bitIndex) < 2 ^ bitWidth := (Nat.mod_le _ _).trans_lt hn
  rw [readProbe, getSampleBinaryValues, List.map_singleton, manualProbe, List.flatMap_singleton,
    Bits.segment_reverse_formatBin _ hwidth]
  have hchars : (List.range bitWidth).map (fun bit => Bits.bitChar ((Bits.fromBytes (Py.segment
      wf.data (i * wf.stride) (i * wf.stride + wf.stride))).testBit (bitIndex + bit))) =
      ((List.range bitWidth).map (n % 2 ^ (8 * wf.stride - bitIndex)).testBit).map Bits.bitChar := by
    rw [← hread, List.map_map]
    rfl
  have hne : (List.range bitWidth).map (n % 2 ^ (8 * wf.stride - bitIndex)).testBit ≠ [] := by
    simpa using hpos.ne'
  rw [hchars, Py.mapExcept, Bits.parseBin_reverse_bits hne, Bits.ofBits_map_testBit hsmall]
  rfl

section Widened

variable (hcount : wf.sampleCount ≤ wf.triggerPosition.length * wf.windowSize)

include hcount

theorem sampleCount_mul_stride_le : wf.sampleCount * wf.stride ≤ wf.data.length :=
  calc wf.sampleCount * wf.stride ≤ wf.triggerPosition.length * wf.windowSize * wf.stride :=
        Nat.mul_le_mul_right _ hcount
    _ ≤ wf.data.length := Nat.mul_div_le _ _

theorem stride_widened (name : String) (enumDef : EnumMeta) :
    (widened wf name bitWidth enumDef).stride =
      widenedStride wf bitWidth := by
  rw [ILAWaveform.stride, widened, widenedStride]
  by_cases hgrow : (wf.width + bitWidth + 7) / 8 > wf.stride
  · simp only [if_pos hgrow, length_widenSamples (Nat.le_of_lt hgrow)
      (sampleCount_mul_stride_le hcount)]
  · simp only [if_neg hgrow]
    rfl

/-- All bits of the new signal have a byte in the buffer. -/
theorem byte_lt_length_widened {i bit : ℕ} (hi : i < wf.sampleCount) (hbit : bit < bitWidth) :
    i * (widened wf name bitWidth enumDef).stride + (wf.width + bit) / 8 <
      (widened wf name bitWidth enumDef).data.length := by
  have hbyte : (wf.width + bit) / 8 < (wf.width + bitWidth + 7) / 8 := by omega
  rw [stride_widened hcount name enumDef, widenedStride, widened]
  by_cases hgrow : (wf.width + bitWidth + 7) / 8 > wf.stride
  · have hstride : (wf.width + bitWidth + 7) / 8 * wf.sampleCount /
        (wf.triggerPosition.length * wf.windowSize) ≤ (wf.width + bitWidth + 7) / 8 :=
      Nat.div_le_of_le_mul (by rw [Nat.mul_comm]; exact Nat.mul_le_mul_right _ hcount)
    simp only [if_pos hgrow, length_widenSamples (Nat.le_of_lt hgrow)
      (sampleCount_mul_stride_le hcount)]
    generalize (wf.width + bitWidth + 7) / 8 = newBps at *
    calc i * (newBps * wf.sampleCount / (wf.triggerPosition.length * wf.windowSize)) +
          (wf.width + bit) / 8 < i * newBps + newBps :=
          Nat.add_lt_add_of_le_of_lt (Nat.mul_le_mul_left _ hstride) hbyte
      _ = newBps * (i + 1) := by ring
      _ ≤ newBps * wf.sampleCount := Nat.mul_le_mul_left _ hi
  · simp only [if_neg hgrow]
    calc i * wf.stride + (wf.width + bit) / 8 < i * wf.stride + wf.stride := by omega
      _ = (i + 1) * wf.stride := by ring
      _ ≤ wf.sampleCount * wf.stride := Nat.mul_le_mul_right _ hi
      _ ≤ wf.data.length := sampleCount_mul_stride_le hcount

end Widened

/-- The codes are written for every signal whose values have members. -/
theorem exists_written (name : String) (bitWidth : ℕ) (enumDef : EnumMeta)
    {members : ManualEnum} {values : List String}
    (hcount : wf.sampleCount ≤ wf.triggerPosition.length * wf.windowSize)
    (hlen : values.length = wf.sampleCount) {codes : List ℤ}
    (hcodes : List.Forall₂ (fun sval code => members.code sval = .ok code) values codes) :
    ∃ data', writeValues members (widened wf name bitWidth enumDef).stride wf.width bitWidth
        (widened wf name bitWidth enumDef).data 0 values = .ok data' ∧
      data'.length = (widened wf name bitWidth enumDef).data.length ∧
      ∀ (i n : ℕ), codes[i]? = some (n : ℤ) → 0 < bitWidth → n < 2 ^ bitWidth →
        readProbe { widened wf name bitWidth enumDef with data := data' }
            (manualProbe name wf.width bitWidth enumDef) i =
          .ok [n % 2 ^ (8 * widenedStride wf bitWidth - wf.width)] := by
  have hroom : ∀ i < values.length, ∀ bit < bitWidth,
      (0 + i) * (widened wf name bitWidth enumDef).stride + (wf.width + bit) / 8 <
        (widened wf name bitWidth enumDef).data.length := by
    intro i hi bit hbit
    rw [Nat.zero_add]
    exact byte_lt_length_widened hcount (hlen ▸ hi) hbit
  obtain ⟨data', hwrite, hlen', -, hbits⟩ := writeValues_spec _ hcodes hroom
  refine ⟨data', hwrite, hlen', fun i n hcode hpos hn => ?_⟩
  have hstride : ILAWaveform.stride { widened wf name bitWidth enumDef with data := data' } =
      widenedStride wf bitWidth := by
    rw [← stride_widened hcount name enumDef, ILAWaveform.stride,
      ILAWaveform.stride, hlen']
  rw [← hstride]
  refine readProbe_manualProbe hpos le_rfl hn fun bit hbit hin => ?_
  rw [hstride, ← stride_widened hcount name enumDef] at hin ⊢
  have hread := hbits i n hcode bit hbit hin
  rw [Nat.zero_add] at hread
  exact hread

/-! ### The call -/

/-- The `Enum` class of a mapping. -/
def manualEnumDef (name : String) (mapping : List (String × ℤ)) : EnumMeta :=
  ⟨s!"{name}_Enum", (ManualEnum.ofMapping mapping).sanitizedMap.entries⟩

section Append

variable {isMemberName : String → String → Bool} {values : List String}
  {mapping : Py.Dict String ℤ} {m : ℤ}
  (hmax : maxCode (ManualEnum.ofMapping mapping.entries).sanitizedMap.values = .ok m)

include hmax

/-- The call, as its checks and the bits it writes. -/
theorem appendManualEnumSignal_eq_ok_iff {wf' : ILAWaveform}
    (hdef : enumDef = manualEnumDef name mapping.entries) :
    appendManualEnumSignal isMemberName wf name values mapping = .ok wf' ↔
      (values.length = wf.sampleCount ∧ (∀ v ∈ values, v ∈ mapping.keys) ∧
        wf.triggerPosition.length ≠ 0 ∧ wf.windowSize ≠ 0 ∧
        ∀ e ∈ mapping.entries, isMemberName s!"{name}_Enum" (memberName e.1 e.2)) ∧
      ∃ data', writeValues (ManualEnum.ofMapping mapping.entries)
          (widened wf name (codeWidth m) enumDef).stride wf.width (codeWidth m)
          (widened wf name (codeWidth m) enumDef).data 0 values = .ok data' ∧
        wf' = { widened wf name (codeWidth m) enumDef with data := data' } := by
  rw [appendManualEnumSignal]
  by_cases hlen : values.length = wf.sampleCount
  swap
  · simp [hlen]
  by_cases hkeys : ∀ v ∈ values, v ∈ mapping.keys
  swap
  · simp [hlen, hkeys]
  have hmissing : values.dedup.filter (· ∉ mapping.keys) = [] := by
    simpa [List.filter_eq_nil_iff] using hkeys
  simp only [hlen, hmissing, ne_eq, not_true_eq_false, if_false, hmax, Py.ok_bind]
  by_cases hwindows : wf.triggerPosition.length = 0
  · simp [ILAWaveform.bytesPerSample, hwindows, Py.error_bind]
  by_cases hsize : wf.windowSize = 0
  · simp [ILAWaveform.bytesPerSample, hwindows, hsize, Py.error_bind]
  have hbps : wf.bytesPerSample = .ok wf.stride := by
    rw [ILAWaveform.bytesPerSample, if_neg hwindows, if_neg hsize]
  have hbps' : (widened wf name (codeWidth m) enumDef).bytesPerSample =
      .ok (widened wf name (codeWidth m) enumDef).stride := by
    rw [ILAWaveform.bytesPerSample, widened, if_neg hwindows, if_neg hsize]
  by_cases hnames : ∀ e ∈ mapping.entries,
      isMemberName s!"{name}_Enum" (memberName e.1 e.2) = true
  · have hnew : newEnum isMemberName s!"{name}_Enum"
        (ManualEnum.ofMapping mapping.entries).sanitizedMap = .ok enumDef := by
      rw [newEnum, if_pos, hdef, manualEnumDef]
      refine List.all_eq_true.mpr fun member hmember => ?_
      obtain ⟨e, he, rfl⟩ := mem_keys_sanitizedMap.mp hmember
      exact hnames e he
    rw [hbps, Py.ok_bind, hnew, Py.ok_bind]
    change ((widened wf name (codeWidth m) enumDef).bytesPerSample >>= fun bps =>
      writeValues (ManualEnum.ofMapping mapping.entries) bps wf.width (codeWidth m)
        (widened wf name (codeWidth m) enumDef).data 0 values >>= fun data =>
      .ok { widened wf name (codeWidth m) enumDef with data := data }) = .ok wf' ↔ _
    rw [hbps', Py.ok_bind]
    constructor
    · intro h
      obtain ⟨data', hwrite, h⟩ := Py.bind_eq_ok h
      exact ⟨⟨trivial, hkeys, hwindows, hsize, hnames⟩, data', hwrite, (Except.ok.inj h).symm⟩
    · rintro ⟨-, data', hwrite, rfl⟩
      rw [hwrite, Py.ok_bind]
  · have hnew : newEnum isMemberName s!"{name}_Enum"
        (ManualEnum.ofMapping mapping.entries).sanitizedMap =
          .error (.valueError "invalid enum member name") := by
      rw [newEnum, if_neg]
      refine fun hall => hnames fun e he => ?_
      exact List.all_eq_true.mp hall _ (mem_keys_sanitizedMap.mpr ⟨e, he, rfl⟩)
    rw [hbps, Py.ok_bind, hnew, Py.error_bind]
    exact iff_of_false (fun h => by cases h) fun h => hnames h.1.2.2.2.2

/-- The calls that return. -/
theorem exists_appendManualEnumSignal_iff
    (hcount : wf.sampleCount ≤ wf.triggerPosition.length * wf.windowSize) :
    (∃ wf', appendManualEnumSignal isMemberName wf name values mapping = .ok wf') ↔
      (values.length = wf.sampleCount ∧ (∀ v ∈ values, v ∈ mapping.keys) ∧
        wf.triggerPosition.length ≠ 0 ∧ wf.windowSize ≠ 0 ∧
        ∀ e ∈ mapping.entries, isMemberName s!"{name}_Enum" (memberName e.1 e.2)) ∧
      ∀ v ∈ values, ∃ c, HasMember mapping.entries v c := by
  constructor
  · rintro ⟨wf', hok⟩
    obtain ⟨hchecks, data', hwrite, -⟩ := (appendManualEnumSignal_eq_ok_iff hmax rfl).mp hok
    obtain ⟨codes, hcodes⟩ := codes_of_writeValues_ok hwrite
    refine ⟨hchecks, fun v hv => ?_⟩
    obtain ⟨i, hi⟩ := List.mem_iff_getElem?.mp hv
    obtain ⟨code, -, hcode⟩ := Py.forall₂_getElem? hcodes hi
    exact ⟨code, (code_eq_ok_iff mapping.nodup).mp hcode⟩
  · rintro ⟨hchecks, hmembers⟩
    have hcodes : List.Forall₂ (fun sval code =>
        (ManualEnum.ofMapping mapping.entries).code sval = .ok code) values
        (values.map fun v => ((ManualEnum.ofMapping mapping.entries).code v).toOption.getD 0) := by
      refine List.forall₂_map_right_iff.mpr (List.forall₂_same.mpr fun v hv => ?_)
      obtain ⟨c, hc⟩ := hmembers v hv
      rw [(code_eq_ok_iff mapping.nodup).mpr hc]
      rfl
    obtain ⟨data', hwrite, -⟩ := exists_written name (codeWidth m)
      (manualEnumDef name mapping.entries) hcount hchecks.1 hcodes
    exact ⟨_, (appendManualEnumSignal_eq_ok_iff hmax rfl).mpr ⟨hchecks, data', hwrite, rfl⟩⟩

/-- A signal reads as the codes of its values. -/
theorem readProbe_appendManualEnumSignal {wf' : ILAWaveform}
    (hcount : wf.sampleCount ≤ wf.triggerPosition.length * wf.windowSize)
    (hok : appendManualEnumSignal isMemberName wf name values mapping = .ok wf') :
    wf'.sampleCount = wf.sampleCount ∧ ∃ probe, wf'.probes.get? name = some probe ∧
      ∀ i v (n : ℕ), values[i]? = some v → HasMember mapping.entries v n → n < 2 ^ codeWidth m →
        readProbe wf' probe i = .ok [n % 2 ^ (8 * widenedStride wf (codeWidth m) - wf.width)] := by
  obtain ⟨hchecks, data', hwrite, rfl⟩ := (appendManualEnumSignal_eq_ok_iff hmax rfl).mp hok
  obtain ⟨codes, hcodes⟩ := codes_of_writeValues_ok hwrite
  obtain ⟨data₁, hwrite₁, -, hreads⟩ := exists_written name (codeWidth m)
    (manualEnumDef name mapping.entries) hcount hchecks.1 hcodes
  obtain rfl : data' = data₁ := Except.ok.inj (hwrite.symm.trans hwrite₁)
  refine ⟨rfl, manualProbe name wf.width (codeWidth m) (manualEnumDef name mapping.entries),
    Py.Dict.get?_set_self _ _ _, fun i v n hv hmember hn => ?_⟩
  obtain ⟨code, hcode, hfound⟩ := Py.forall₂_getElem? hcodes hv
  rw [(code_eq_ok_iff mapping.nodup).mpr hmember, Except.ok.injEq] at hfound
  exact hreads i n (hfound ▸ hcode) (codeWidth_pos m) hn

end Append

end Chipscopy.Waveform
