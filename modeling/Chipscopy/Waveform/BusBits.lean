import Chipscopy.Lib.Bytes
import Chipscopy.Lib.Positions
import Chipscopy.Waveform.BusProbes
import Chipscopy.Waveform.GetData

/-! The bits that a bus interface probe shows

    A probe shows the bits of a sample at the positions of its slices, as far as the sample has
    them. It shows the bits of a port map in every waveform only if these are the same positions. -/

namespace Chipscopy.Waveform

open Bits

/-- Positions of the bits of some slices, the lowest bit first. -/
def positions (mapRange : List ILABitRange) : List ℕ :=
  mapRange.flatMap fun br => List.range' br.index br.length

theorem length_positions (p : ILAWaveformProbe) : (positions p.mapRange).length = p.length := by
  rw [positions, List.length_flatMap, ILAWaveformProbe.length]
  simp only [List.length_range']

/-- Of single bits. -/
theorem positions_single (offset : ℕ) : ∀ seqs : List ILABitRange,
    positions (seqs.map fun seq => ⟨seq.index + offset, 1⟩) = seqs.map (·.index + offset)
  | [] => rfl
  | seq :: seqs => by
    rw [List.map_cons, positions, List.flatMap_cons, ← positions, positions_single offset seqs]
    rfl

theorem lt_of_mem_positions {mapRange : List ILABitRange} {width : ℕ}
    (h : ∀ br ∈ mapRange, br.index + br.length ≤ width) : ∀ p ∈ positions mapRange, p < width := by
  rintro p hp
  obtain ⟨br, hbr, hp⟩ := List.mem_flatMap.mp hp
  have := (List.mem_range'_1.mp hp).2
  have := h br hbr
  omega

variable {wf : ILAWaveform} {physical probe : ILAWaveformProbe} {name : String}

/-- The characters of a probe in a sample. -/
theorem getSampleBinaryValues_singleton (width : ℕ) (p : ILAWaveformProbe) (data : List UInt8) :
    getSampleBinaryValues width [p] data =
      [(((positions p.mapRange).filter (· < (formatBin width (fromBytes data)).length)).map
        (fromBytes data).testBit).map bitChar] := by
  rw [getSampleBinaryValues, List.map_singleton, positions, List.filter_flatMap, List.map_flatMap,
    List.map_flatMap]
  simp only [segment_reverse_formatBin_eq, List.map_map, Function.comp_def]

/-- The number of a sample. -/
def sampleNumber (wf : ILAWaveform) (i : ℕ) : ℕ :=
  fromBytes (Py.segment wf.data (i * wf.stride) (i * wf.stride + wf.stride))

theorem sampleNumber_lt (wf : ILAWaveform) (i : ℕ) : sampleNumber wf i < 2 ^ (8 * wf.stride) := by
  have hlen : (Py.segment wf.data (i * wf.stride) (i * wf.stride + wf.stride)).length ≤ wf.stride := by
    rw [Py.length_segment]
    omega
  rw [pow_mul]
  exact (fromBytes_lt _).trans_le (Nat.pow_le_pow_right (by decide) hlen)

/-- The documented value, by positions. -/
theorem probeValue_eq_select (hwf : wf.Framed)
    (hin : ∀ br ∈ physical.mapRange, br.index + br.length ≤ wf.width) (i : ℕ) :
    wf.probeValue physical i = select (sampleNumber wf i) (positions physical.mapRange) := by
  rw [ILAWaveform.probeValue, ILAWaveform.probeBits, select, positions, List.map_flatMap]
  congr 1
  refine List.flatMap_congr fun br hbr => ?_
  rw [List.range'_eq_map_range, List.map_map]
  refine List.map_congr_left fun j hj => ?_
  have hj : br.index + j < 8 * wf.stride := by
    have := List.mem_range.mp hj
    have := hin br hbr
    have := hwf.width_le
    omega
  rw [Function.comp_apply, sampleNumber, testBit_fromBytes, bit_segment _ hj, ← getBitValue_eq_bit]

/-- The positions that a sample has. -/
def shown (wf : ILAWaveform) (probe : ILAWaveformProbe) (i : ℕ) : List ℕ :=
  (positions probe.mapRange).filter (· < (formatBin wf.width (sampleNumber wf i)).length)

/-- What the slices find in a sample. -/
def readValue (wf : ILAWaveform) (probe : ILAWaveformProbe) (i : ℕ) : Except Py.Error ℕ :=
  parseBin (((shown wf probe i).map (sampleNumber wf i).testBit).map bitChar).reverse

theorem readValue_eq {i : ℕ} (hne : shown wf probe i ≠ []) :
    readValue wf probe i = .ok (select (sampleNumber wf i) (shown wf probe i)) := by
  rw [readValue, parseBin_reverse_bits (by simpa using hne), select]

theorem shown_of_readValue_ok {i v : ℕ} (h : readValue wf probe i = .ok v) :
    shown wf probe i ≠ [] ∧ v = select (sampleNumber wf i) (shown wf probe i) := by
  have hne : shown wf probe i ≠ [] := fun hnil => by
    rw [readValue, hnil] at h
    cases h
  rw [readValue_eq hne] at h
  exact ⟨hne, (Except.ok.inj h).symm⟩

theorem getWaveformDataValues_single (hwf : wf.Framed) (hget : wf.probes.get? name = some probe)
    (hname : probe.name = name) {sw ss : ℤ} {wc sc : Option ℤ} {r : SampleRange}
    (hr : wf.checkRange "ILAWaveform.get_data()" sw wc ss sc = .ok r) :
    getWaveformDataValues wf [name] sw wc ss sc ⟨false, false, false⟩ =
      (wf.exportedSamples r).foldlM (fun d i => do
        return Columns.appendAll d [(name, ← readValue wf probe i)]) Py.Dict.empty := by
  have hsel : selectProbes wf getDataBadNames [name] = .ok [probe] := by
    simp [selectProbes, hget]
  rw [getWaveformDataValues, hsel, Py.ok_bind, wf.exportWaveform_eq_raw _ hwf _ hr]
  congr 1
  funext d i
  rw [ILAWaveform.rawRecordAt, getSampleBinaryValues_singleton, readValue, shown, ← sampleNumber]
  subst hname
  simp only [writeSampleToDict, PseudoProbes.entries, Py.mapExcept]
  cases parseBin _ with
  | error e => rfl
  | ok v => rfl

theorem column_foldl_single (name : String) (v : ℕ → ℕ) : ∀ (samples : List ℕ) (d : Columns),
    (samples.foldl (fun d i => Columns.appendAll d [(name, v i)]) d).column name =
      d.column name ++ samples.map v
  | [], d => (List.append_nil _).symm
  | i :: samples, d => by
    have hone : Columns.valuesUnder name [(name, v i)] = [v i] :=
      Columns.valuesUnder_of_mem (by simp) (List.mem_singleton_self _)
    rw [List.foldl_cons, column_foldl_single name v samples, Columns.column_appendAll, hone,
      List.append_assoc, List.map_cons, List.singleton_append]

/-- A column of values that are all read. -/
theorem getWaveformDataValues_column (hwf : wf.Framed) (hget : wf.probes.get? name = some probe)
    (hname : probe.name = name) {v : ℕ → ℕ} (hv : ∀ i, readValue wf probe i = .ok (v i))
    {sw ss : ℤ} {wc sc : Option ℤ} {r : SampleRange}
    (hr : wf.checkRange "ILAWaveform.get_data()" sw wc ss sc = .ok r) :
    ∃ result, getWaveformDataValues wf [name] sw wc ss sc ⟨false, false, false⟩ = .ok result ∧
      result.column name = (wf.exportedSamples r).map v := by
  rw [getWaveformDataValues_single hwf hget hname hr]
  refine ⟨_, Py.foldlM_eq_ok (g := fun d i => Columns.appendAll d [(name, v i)]) _
    fun d i _ => by rw [hv i]; rfl, ?_⟩
  rw [column_foldl_single, Columns.column_empty, List.nil_append]

/-! ### One sample of any number -/

/-- A waveform that has one probe and one sample. -/
def oneSample (width stride : ℕ) (name : String) (probe : ILAWaveformProbe) (v : ℕ) : ILAWaveform where
  width
  sampleCount := 1
  triggerPosition := [0]
  windowSize := 1
  probes := Py.Dict.empty.set name probe
  data := littleEndian stride v

section OneSample

variable {width stride v : ℕ} (hwidth : width ≤ 8 * stride)

theorem stride_oneSample : (oneSample width stride name probe v).stride = stride := by
  simp [ILAWaveform.stride, oneSample]

theorem sampleNumber_oneSample (hv : v < 2 ^ (8 * stride)) :
    sampleNumber (oneSample width stride name probe v) 0 = v := by
  rw [sampleNumber, stride_oneSample, oneSample, Nat.zero_mul, Nat.zero_add, Py.segment,
    List.take_of_length_le (length_littleEndian stride v).le, List.drop_zero,
    fromBytes_littleEndian]
  rw [pow_mul] at hv
  exact Nat.mod_eq_of_lt hv

include hwidth in
theorem framed_oneSample : (oneSample width stride name probe v).Framed where
  windowSize_pos := Nat.one_pos
  sampleCount_le := le_rfl
  width_le := by
    rw [stride_oneSample]
    exact hwidth
  gap g hg := by cases hg

theorem checkRange_oneSample : (oneSample width stride name probe v).checkRange
    "ILAWaveform.get_data()" 0 none 0 none = .ok ⟨0, 1, 0, 1⟩ := by
  simp [ILAWaveform.checkRange, ILAWaveform.maxWindowCount, ILAWaveform.getWindowCount, orDefault,
    oneSample]

theorem exportedSamples_oneSample :
    (oneSample width stride name probe v).exportedSamples ⟨0, 1, 0, 1⟩ = [0] := by
  simp [ILAWaveform.exportedSamples, oneSample]

end OneSample

/-! ### The right bits -/

/-- In every waveform of the ILA, `get_data` returns the bits of the port map at each sample. -/
def ShowsIn (width stride : ℕ) (physical : ILAWaveformProbe) (leftBit bitWidth : ℕ) (name : String)
    (probe : ILAWaveformProbe) : Prop :=
  ∀ wf : ILAWaveform, wf.Framed → wf.width = width → wf.stride = stride →
    wf.probes.get? name = some probe → ∀ sw wc ss sc r,
      wf.checkRange "ILAWaveform.get_data()" sw wc ss sc = .ok r →
      ∃ result, getWaveformDataValues wf [name] sw wc ss sc ⟨false, false, false⟩ = .ok result ∧
        result.column name = (wf.exportedSamples r).map fun i =>
          (wf.probeValue physical i >>> leftBit) % 2 ^ bitWidth

/-- It does so when the positions are the same. -/
theorem showsIn_iff {width stride leftBit bitWidth : ℕ} (hpos : 0 < width)
    (hwidth : width ≤ 8 * stride) (hname : probe.name = name)
    (hin : ∀ br ∈ physical.mapRange, br.index + br.length ≤ width) :
    ShowsIn width stride physical leftBit bitWidth name probe ↔
      ((positions physical.mapRange).drop leftBit).take bitWidth ≠ [] ∧
      (positions probe.mapRange).filter (· < 8 * stride) =
        ((positions physical.mapRange).drop leftBit).take bitWidth := by
  have hqs : ∀ q ∈ ((positions physical.mapRange).drop leftBit).take bitWidth, q < width :=
    fun q hq => lt_of_mem_positions hin q (List.mem_of_mem_drop (List.mem_of_mem_take hq))
  constructor
  · intro h
    have hread : ∀ v < 2 ^ (8 * stride), (positions probe.mapRange).filter
          (· < (formatBin width v).length) ≠ [] ∧
        select v ((positions probe.mapRange).filter (· < (formatBin width v).length)) =
          select v (((positions physical.mapRange).drop leftBit).take bitWidth) := fun v hv => by
      obtain ⟨result, hresult, hcolumn⟩ := h (oneSample width stride name probe v)
        (framed_oneSample hwidth) rfl stride_oneSample (Py.Dict.get?_set_self _ _ _) 0 none 0 none _
        checkRange_oneSample
      rw [getWaveformDataValues_single (framed_oneSample hwidth) (Py.Dict.get?_set_self _ _ _) hname
        checkRange_oneSample, exportedSamples_oneSample, List.foldlM_cons] at hresult
      obtain ⟨d, hd, hresult⟩ := Py.bind_eq_ok hresult
      obtain ⟨u, hu, hd⟩ := Py.bind_eq_ok hd
      cases hd
      cases hresult
      have hone : Columns.valuesUnder name [(name, u)] = [u] :=
        Columns.valuesUnder_of_mem (by simp) (List.mem_singleton_self _)
      rw [Columns.column_appendAll, hone, Columns.column_empty, exportedSamples_oneSample,
        List.nil_append, List.map_singleton, probeValue_eq_select (framed_oneSample hwidth) hin, sampleNumber_oneSample hv,
        select_drop_take] at hcolumn
      obtain ⟨hne, hselect⟩ := shown_of_readValue_ok hu
      rw [shown, sampleNumber_oneSample hv] at hne hselect
      exact ⟨hne, hselect.symm.trans (List.singleton_inj.mp hcolumn)⟩
    have heq := (select_shown_iff hpos hwidth hqs).mp fun v hv => (hread v hv).2
    refine ⟨fun hnil => (hread 0 (Nat.two_pow_pos _)).1 ?_, heq⟩
    rw [hnil, List.filter_eq_nil_iff] at heq
    refine List.filter_eq_nil_iff.mpr fun p hp hlt => heq p hp (decide_eq_true ?_)
    exact (of_decide_eq_true hlt).trans_le (length_formatBin_le hwidth (Nat.two_pow_pos _)
      (hpos.trans_le hwidth))
  · rintro ⟨hne, heq⟩ wf hwf rfl rfl hget sw wc ss sc r hr
    refine getWaveformDataValues_column hwf hget hname (fun i => ?_) hr
    have hshown : shown wf probe i =
        ((positions physical.mapRange).drop leftBit).take bitWidth :=
      filter_shown_eq hpos hwidth hqs heq (sampleNumber_lt wf i)
    rw [readValue_eq (by rwa [hshown]), hshown, probeValue_eq_select hwf hin, select_drop_take]

/-! ### Port maps -/

/-- A port map, its pin and net, and the probe of the net in an ILA whose samples have `width` bits
    in `stride` bytes. -/
structure Connected (ila : ILA) (pins : List Pin) (m : PortMap) (pin : Pin) (net : Net)
    (physical : ILAWaveformProbe) (width stride : ℕ) : Prop where
  found : pins.find? (·.name = some m.pinName) = some pin
  nets : pin.nets = [net]
  subnets : ∀ subnets ∈ net.subnets, subnets.length = physical.length
  probe : ∃ p, ila.probes.get? net.name = some p ∧ makeWaveformProbe ila p = .ok physical
  values : ∀ p ∈ ila.probes.values, ∃ values, ila.probeValues.get? p.name = some values
  pos : 0 < physical.length
  bits : m.leftBit + m.width ≤ physical.length
  inside : ∀ br ∈ physical.mapRange, br.index + br.length ≤ width
  width : 0 < width ∧ width ≤ 8 * stride

/-- Neither the Ltx file nor the ILA raises on a port map, and the probe that is made for it shows
    its bits of the physical probe. -/
def ShowsBits (ila : ILA) (pins : List Pin) (m : PortMap) (slot : String) (moreThanOneBus : Bool)
    (physical : ILAWaveformProbe) (width stride : ℕ) : Prop :=
  ∃ mapping, readBusPortmap m pins slot moreThanOneBus = .ok mapping ∧
    ∃ d, makeBusWaveformProbes { ila with busProbeMappings := [mapping] } = .ok d ∧
      ∀ name probe, d.get? name = some probe →
        ShowsIn width stride physical m.leftBit m.width name probe

/-- The text for the bits of a port map: the name of a sub-net for one bit of a vector, and else
    the name of the net, with a range for more than one bit. -/
def portText (pin : Pin) (net : Net) (m : PortMap) : Option String :=
  pin.rightIndex.bind fun rightIndex =>
    if m.width = 1 then
      match if pin.isVector.getD false then net.subnets else none with
      | some subnets => (Py.index subnets (rightIndex - m.leftBit)).toOption
      | none => some net.name
    else some (rangeText net.name m)

/-- There is a text. If a probe is found for it, the text of a range stands for the whole of the
    probe, and the text of one bit for a bit of each of its slices, counted from where the slice
    starts; those that the sample has are the bits of the port map. -/
def RightBits (ila : ILA) (pin : Pin) (net : Net) (m : PortMap) (physical : ILAWaveformProbe)
    (sampleBits : ℕ) : Prop :=
  ∃ text, portText pin net m = some text ∧
    ∀ p seqs, findProbe ila (baseProbeName text) = some p →
      ila.probeToPortSeqs.get? p.map = some seqs → 0 < m.width ∧
        if isRangeText text then
          if seqs = physical.mapRange then m.leftBit = 0 ∧ m.width = physical.length
          else (positions seqs).filter (· < sampleBits) =
            ((positions physical.mapRange).drop m.leftBit).take m.width
        else (seqs.map (·.index + bitIndex text)).filter (· < sampleBits) =
          ((positions physical.mapRange).drop m.leftBit).take m.width

section Connected

variable {ila : ILA} {pins : List Pin} {m : PortMap} {pin : Pin} {net : Net} {width stride : ℕ}
  (hc : Connected ila pins m pin net physical width stride)
include hc

theorem Connected.readBusPortmap_eq (slot : String) (moreThanOneBus : Bool) :
    (∃ text, portText pin net m = some text ∧ readBusPortmap m pins slot moreThanOneBus =
      .ok (some (if moreThanOneBus then slot ++ "/" ++ m.logicalPort else m.logicalPort, text))) ∨
    portText pin net m = none ∧ ∃ e, readBusPortmap m pins slot moreThanOneBus = .error e := by
  have hnet : (Py.index pin.nets 0).mapError lookupError = .ok net := by
    rw [hc.nets]
    rfl
  rw [readBusPortmap, hc.found, portText]
  rcases hright : pin.rightIndex with _ | right
  · refine .inr ⟨rfl, .keyError "rightIndex", ?_⟩
    simp only [hright]
  · simp only [hright, hnet, Py.ok_bind, Option.bind_some]
    rcases hsubnets : (if pin.isVector.getD false then net.subnets else none) with _ | subnets
    · by_cases hone : m.width = 1
      · exact .inl ⟨net.name, if_pos hone, if_pos hone⟩
      · exact .inl ⟨rangeText net.name m, if_neg hone, if_neg hone⟩
    · by_cases hone : m.width = 1
      · simp only [if_pos hone]
        rcases Py.index subnets (right - m.leftBit) with e | name
        · exact .inr ⟨rfl, _, rfl⟩
        · exact .inl ⟨name, rfl, rfl⟩
      · have hmem : subnets ∈ net.subnets := by
          split at hsubnets
          · exact hsubnets
          · cases hsubnets
        have hend : (m.leftBit + m.width : ℤ) - 1 < subnets.length := by
          have := hc.subnets subnets hmem
          have := hc.bits
          omega
        simp only [if_neg hone, if_pos hend]
        exact .inl ⟨rangeText net.name m, rfl, rfl⟩

theorem Connected.length_bits :
    (((positions physical.mapRange).drop m.leftBit).take m.width).length = m.width := by
  have := hc.bits
  rw [List.length_take, List.length_drop, length_positions]
  omega

/-- The whole probe is the bits of a port map that has all of them. -/
theorem Connected.whole_iff : (positions physical.mapRange).filter (· < 8 * stride) =
      ((positions physical.mapRange).drop m.leftBit).take m.width ↔
    m.leftBit = 0 ∧ m.width = physical.length := by
  have hall : (positions physical.mapRange).filter (· < 8 * stride) = positions physical.mapRange :=
    List.filter_eq_self.mpr fun p hp =>
      decide_eq_true ((lt_of_mem_positions hc.inside p hp).trans_le hc.width.2)
  rw [hall]
  constructor
  · intro h
    have hlen := congrArg List.length h
    have := hc.bits
    have := hc.pos
    rw [hc.length_bits, length_positions] at hlen
    omega
  · rintro ⟨hleft, hwidth⟩
    rw [hleft, hwidth, List.drop_zero, ← length_positions, List.take_length]

theorem Connected.bits_ne_nil :
    ((positions physical.mapRange).drop m.leftBit).take m.width ≠ [] ↔ 0 < m.width := by
  rw [← List.length_pos_iff, hc.length_bits]

omit hc in
theorem makeBusWaveformProbes_single (ila : ILA) (key text : String) :
    makeBusWaveformProbes { ila with busProbeMappings := [some (key, text)] } =
      (makeBusWaveformProbe ila key text).map fun made =>
        made.elim Py.Dict.empty (Py.Dict.empty.set key) := by
  rw [makeBusWaveformProbes, List.foldlM_cons]
  change (makeBusWaveformProbe ila key text >>= _) >>= _ = _
  rcases makeBusWaveformProbe ila key text with e | _ | probe
  · rfl
  · rfl
  · rfl

/-- The probe that is made of a text, once a probe of the ILA is found for it. -/
theorem Connected.makeBusWaveformProbe_eq {key text : String} {p : ILAProbe}
    {seqs : List ILABitRange} (hfind : findProbe ila (baseProbeName text) = some p)
    (hseqs : ila.probeToPortSeqs.get? p.map = some seqs) :
    ∃ probe, makeBusWaveformProbe ila key text = .ok (some probe) ∧ probe.name = key ∧
      positions probe.mapRange = if isRangeText text then positions seqs
        else seqs.map (·.index + bitIndex text) := by
  obtain ⟨pv, hpv⟩ := hc.values p (List.mem_of_find?_eq_some hfind)
  rw [makeBusWaveformProbe, hfind]
  simp only [hseqs, hpv]
  refine ⟨_, rfl, rfl, ?_⟩
  rcases hrange : isRangeText text with _ | _
  · exact positions_single _ _
  · rfl

/-- What is made of the text of a port map, and what it shows. -/
theorem Connected.shows_iff (key text : String) :
    (∃ d, makeBusWaveformProbes { ila with busProbeMappings := [some (key, text)] } = .ok d ∧
      ∀ name probe, d.get? name = some probe →
        ShowsIn width stride physical m.leftBit m.width name probe) ↔
    ∀ p seqs, findProbe ila (baseProbeName text) = some p →
      ila.probeToPortSeqs.get? p.map = some seqs → 0 < m.width ∧
        if isRangeText text then
          if seqs = physical.mapRange then m.leftBit = 0 ∧ m.width = physical.length
          else (positions seqs).filter (· < 8 * stride) =
            ((positions physical.mapRange).drop m.leftBit).take m.width
        else (seqs.map (·.index + bitIndex text)).filter (· < 8 * stride) =
          ((positions physical.mapRange).drop m.leftBit).take m.width := by
  rw [makeBusWaveformProbes_single]
  by_cases hmade : ∃ p seqs, findProbe ila (baseProbeName text) = some p ∧
      ila.probeToPortSeqs.get? p.map = some seqs
  · obtain ⟨p, seqs, hfind, hseqs⟩ := hmade
    obtain ⟨probe, hprobe, hname, hpositions⟩ := hc.makeBusWaveformProbe_eq hfind hseqs
    have hshows : (∃ d, (makeBusWaveformProbe ila key text).map (fun made =>
        made.elim Py.Dict.empty (Py.Dict.empty.set key)) = .ok d ∧
        ∀ name probe, d.get? name = some probe →
          ShowsIn width stride physical m.leftBit m.width name probe) ↔
        ShowsIn width stride physical m.leftBit m.width key probe := by
      rw [hprobe]
      constructor
      · rintro ⟨d, hd, h⟩
        obtain rfl := Except.ok.inj hd
        exact h key probe (Py.Dict.get?_set_self _ _ _)
      · refine fun h => ⟨_, rfl, fun name probe' hget => ?_⟩
        change (Py.Dict.empty.set key probe).get? name = some probe' at hget
        rw [Py.Dict.get?_set] at hget
        split at hget
        · next heq =>
          obtain rfl := Option.some.inj hget
          rw [heq]
          exact h
        · cases hget
    have hright : (0 < m.width ∧ (positions probe.mapRange).filter (· < 8 * stride) =
          ((positions physical.mapRange).drop m.leftBit).take m.width) ↔ 0 < m.width ∧
        if isRangeText text then
          if seqs = physical.mapRange then m.leftBit = 0 ∧ m.width = physical.length
          else (positions seqs).filter (· < 8 * stride) =
            ((positions physical.mapRange).drop m.leftBit).take m.width
        else (seqs.map (·.index + bitIndex text)).filter (· < 8 * stride) =
          ((positions physical.mapRange).drop m.leftBit).take m.width := by
      rw [hpositions]
      rcases isRangeText text with _ | _
      · rfl
      · simp only [if_true]
        by_cases hseqs : seqs = physical.mapRange
        · rw [if_pos hseqs, hseqs, hc.whole_iff]
        · rw [if_neg hseqs]
    rw [hshows, showsIn_iff hc.width.1 hc.width.2 hname hc.inside, hc.bits_ne_nil, hright]
    constructor
    · intro h p' seqs' hfind' hseqs'
      obtain rfl := Option.some.inj (hfind.symm.trans hfind')
      obtain rfl := Option.some.inj (hseqs.symm.trans hseqs')
      exact h
    · exact fun h => h p seqs hfind hseqs
  · have hnone : makeBusWaveformProbe ila key text = .ok none := by
      rw [makeBusWaveformProbe]
      rcases hfind : findProbe ila (baseProbeName text) with _ | p
      · rfl
      · rcases hseqs : ila.probeToPortSeqs.get? p.map with _ | seqs
        · simp only [hseqs]
        · exact absurd ⟨p, seqs, hfind, hseqs⟩ hmade
    rw [hnone]
    constructor
    · exact fun _ p seqs hfind hseqs => absurd ⟨p, seqs, hfind, hseqs⟩ hmade
    · exact fun _ => ⟨_, rfl, fun _ _ hget => by cases hget⟩

/-- A port map is shown right exactly if its text stands for the right bits. -/
theorem showsBits_iff (slot : String) (moreThanOneBus : Bool) :
    ShowsBits ila pins m slot moreThanOneBus physical width stride ↔
      RightBits ila pin net m physical (8 * stride) := by
  rcases hc.readBusPortmap_eq slot moreThanOneBus with ⟨text, htext, hread⟩ | ⟨htext, e, hread⟩
  · constructor
    · rintro ⟨mapping, hmapping, h⟩
      obtain rfl := Except.ok.inj (hread.symm.trans hmapping)
      exact ⟨text, htext, (hc.shows_iff _ text).mp h⟩
    · rintro ⟨text', htext', h⟩
      obtain rfl := Option.some.inj (htext.symm.trans htext')
      exact ⟨_, hread, (hc.shows_iff _ text).mpr h⟩
  · constructor
    · rintro ⟨mapping, hmapping, -⟩
      rw [hread] at hmapping
      cases hmapping
    · rintro ⟨text, htext', -⟩
      rw [htext] at htext'
      cases htext'

end Connected

/-- Port 0 of an ILA, whose four bits are the net `data`. -/
def dataPort : ILA where
  probes := Py.Dict.empty.set "data" ⟨"data", "port0[3:0]", true, some 3, some 0⟩
  probeValues := Py.Dict.empty.set "data" ⟨.hex, none⟩
  probeToPortSeqs := Py.Dict.empty.set "port0[3:0]" [⟨0, 4⟩]
  busProbeMappings := []

def dataNet (subnets : List String) : Net := ⟨"data", some subnets⟩

def dataPin (subnets : List String) : Pin :=
  ⟨some "probe0", some true, some 3, [dataNet subnets]⟩

/-- One bit of the pin. -/
def dataBit (leftBit : ℕ) : PortMap := ⟨"TVALID", "probe0", leftBit, 1⟩

def dataProbe : ILAWaveformProbe where
  name := "data"
  map := "port0[3:0]"
  mapRange := [⟨0, 4⟩]
  isBus := true
  busLeftIndex := some 3
  busRightIndex := some 0

theorem connected_dataPort {subnets : List String} (hlen : subnets.length = 4) {leftBit : ℕ}
    (hbit : leftBit < 4) : Connected dataPort [dataPin subnets] (dataBit leftBit) (dataPin subnets)
      (dataNet subnets) dataProbe 16 2 where
  found := rfl
  nets := rfl
  subnets := by
    rintro _ ⟨⟩
    exact hlen
  probe := ⟨_, rfl, rfl⟩
  values p hp := by
    obtain rfl := List.mem_singleton.mp hp
    exact ⟨_, rfl⟩
  pos := by decide
  bits := hbit
  inside := by decide
  width := by decide

/-- Bit 2 of `data[3:0]`. -/
theorem showsBits_iff_zeroBased : ShowsBits dataPort
    [dataPin ["data[3]", "data[2]", "data[1]", "data[0]"]] (dataBit 2) "SLOT_0" false dataProbe
      16 2 := by
  refine (showsBits_iff (connected_dataPort rfl (by decide)) "SLOT_0" false).mpr
    ⟨"data[2]", rfl, fun p seqs hfind hseqs => ?_⟩
  obtain rfl : _ = p := Option.some.inj hfind
  obtain rfl : _ = seqs := Option.some.inj hseqs
  decide

/-- Bit 0 of `data[11:8]`: the ILA looks for it at offset 8. -/
theorem not_showsBits_offset : ¬ ShowsBits dataPort
    [dataPin ["data[11]", "data[10]", "data[9]", "data[8]"]] (dataBit 0) "SLOT_0" false dataProbe
      16 2 := by
  rintro ⟨mapping, hmapping, h⟩
  obtain rfl : some ("TVALID", "data[8]") = mapping := Except.ok.inj hmapping
  have hconnected := @connected_dataPort ["data[11]", "data[10]", "data[9]", "data[8]"] rfl 0
    (by decide)
  have hright := (hconnected.shows_iff "TVALID" "data[8]").mp h _ _ rfl rfl
  revert hright
  decide

end Chipscopy.Waveform
