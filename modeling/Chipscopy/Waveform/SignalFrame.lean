import Chipscopy.Waveform.GetData
import Chipscopy.Waveform.ManualSignal

/-! Reads across manual signals

    A manual signal moves the samples apart and stores its codes between them, so what was read
    before it is read from other bytes after it. Where the samples have room, no read of an earlier
    signal changes, whatever is exported and to which writer, and this also holds over any number
    of signals, each of which reads as its codes to the end. -/

namespace Chipscopy.Waveform

/-! ### Samples moved apart -/

theorem getElem?_setSlice (data new : List UInt8) {a : ℕ} (h : a + new.length ≤ data.length)
    (k : ℕ) : (Py.setSlice data (a : ℕ) (a + new.length : ℕ) new)[k]? =
      if a ≤ k ∧ k < a + new.length then new[k - a]? else data[k]? := by
  rw [Py.setSlice_eq_setSegment data (Nat.le_add_right _ _) h]
  exact Py.getElem?_setSegment h k

/-- The first `n` samples have their bytes after `n` rounds of the loop. -/
theorem getElem?_widenSamples {sampleCount oldBps newBps : ℕ} {data : List UInt8}
    (hbps : oldBps ≤ newBps) (hdata : sampleCount * oldBps ≤ data.length) {i b : ℕ}
    (hi : i < sampleCount) (hb : b < oldBps) :
    (widenSamples sampleCount oldBps newBps data)[i * newBps + b]? = data[i * oldBps + b]? := by
  have hloop : ∀ n ≤ sampleCount, ∃ moved, (List.range n).foldl
      (fun newData i => Py.setSlice newData (i * newBps : ℕ) (i * newBps + oldBps : ℕ)
        (Py.slice data (i * oldBps : ℕ) (i * oldBps + oldBps : ℕ)))
      (List.replicate (newBps * sampleCount) 0) = moved ∧ moved.length = newBps * sampleCount ∧
        ∀ i < n, moved[i * newBps + b]? = data[i * oldBps + b]? := by
    intro n hn
    induction n with
    | zero => simp
    | succ n ih =>
      obtain ⟨moved, hfold, hlen, hmoved⟩ := ih (Nat.le_of_succ_le hn)
      have hold : n * oldBps + oldBps ≤ data.length :=
        calc n * oldBps + oldBps = (n + 1) * oldBps := by ring
          _ ≤ sampleCount * oldBps := Nat.mul_le_mul_right _ hn
          _ ≤ data.length := hdata
      have hnew : n * newBps + newBps ≤ newBps * sampleCount :=
        calc n * newBps + newBps = newBps * (n + 1) := by ring
          _ ≤ newBps * sampleCount := Nat.mul_le_mul_left _ hn
      have hsample : (Py.segment data (n * oldBps) (n * oldBps + oldBps)).length = oldBps := by
        rw [Py.length_segment]
        omega
      have hset := getElem?_setSlice moved (Py.segment data (n * oldBps) (n * oldBps + oldBps))
        (a := n * newBps) (by omega)
      rw [hsample] at hset
      refine ⟨_, by rw [List.range_succ, List.foldl_append, hfold, List.foldl_cons, List.foldl_nil,
        Py.slice_eq_segment _ (Nat.le_add_right _ _) hold], ?_, fun i hi => ?_⟩
      · rw [Py.length_setSlice, hlen, Py.sliceIndex_natCast (by omega),
          Py.sliceIndex_natCast (by omega), hsample]
        omega
      · rw [hset]
        rcases Nat.lt_succ_iff_lt_or_eq.mp hi with hlt | rfl
        · have hbefore : i * newBps + newBps ≤ n * newBps :=
            calc i * newBps + newBps = (i + 1) * newBps := by ring
              _ ≤ n * newBps := Nat.mul_le_mul_right _ hlt
          rw [if_neg (by omega), hmoved i hlt]
        · rw [if_pos (by omega), Nat.add_sub_cancel_left, Py.getElem?_segment, if_pos (by omega)]
  obtain ⟨moved, hfold, -, hmoved⟩ := hloop sampleCount le_rfl
  rw [widenSamples, hfold]
  exact hmoved i hi

theorem bit_widenSamples {sampleCount oldBps newBps : ℕ} {data : List UInt8}
    (hbps : oldBps ≤ newBps) (hdata : sampleCount * oldBps ≤ data.length) {i k : ℕ}
    (hi : i < sampleCount) (hk : k < 8 * oldBps) :
    Bits.bit (widenSamples sampleCount oldBps newBps data) (8 * (i * newBps) + k) =
      Bits.bit data (8 * (i * oldBps) + k) := by
  have hdiv : ∀ base, (8 * base + k) / 8 = base + k / 8 := by
    intro base
    omega
  have hbyte := getElem?_widenSamples hbps hdata hi (Nat.div_lt_of_lt_mul hk)
  simp only [Bits.bit, hdiv, Nat.mul_add_mod, List.getD_eq_getElem?_getD, hbyte]

/-! ### Bits that stay -/

/-- No bit outside those of the signal changes. -/
theorem bit_writeValues {members : ManualEnum} {bps bitIndex bitWidth k : ℕ} :
    ∀ {values : List String} {data data' : List UInt8} {i : ℕ},
    (∀ j < values.length, ∀ bit < bitWidth,
      (i + j) * bps + (bitIndex + bit) / 8 < data.length) →
    (∀ j < values.length, ¬(8 * ((i + j) * bps) + bitIndex ≤ k ∧
      k < 8 * ((i + j) * bps) + bitIndex + bitWidth)) →
    writeValues members bps bitIndex bitWidth data i values = .ok data' →
    Bits.bit data' k = Bits.bit data k := by
  intro values
  induction values with
  | nil =>
    intro data data' i _ _ h
    rw [Except.ok.inj h]
  | cons sval values ih =>
    intro data data' i hroom hout h
    obtain ⟨code, -, h⟩ := Py.bind_eq_ok h
    obtain ⟨written, hwrite, h⟩ := Py.bind_eq_ok h
    obtain ⟨data₁, hok₁, hlen₁, hbits₁⟩ := writeCode_spec (i := i) bps code data
      fun bit hbit => by simpa using hroom 0 (by simp) bit hbit
    obtain rfl : written = data₁ := Except.ok.inj (hwrite.symm.trans hok₁)
    have hfirst := hout 0 (by simp)
    rw [ih (fun j hj bit hbit => ?_) (fun j hj => ?_) h, hbits₁, if_neg (by simpa using hfirst)]
    · rw [hlen₁, Nat.add_assoc, Nat.add_comm 1 j]
      exact hroom (j + 1) (by simpa using hj) bit hbit
    · rw [Nat.add_assoc, Nat.add_comm 1 j]
      exact hout (j + 1) (by simpa using hj)

/-- The signal does not fit into the bytes of a sample. -/
def Grows (wf : ILAWaveform) (bitWidth : ℕ) : Prop := wf.stride < (wf.width + bitWidth + 7) / 8

/-- Room for the bits of signals: samples move apart only where no window is partial, and a gap
    bit stays in the last byte of its sample, outside the signals. -/
structure Roomy (wf : ILAWaveform) (bitWidth : ℕ) : Prop where
  full : Grows wf bitWidth → wf.sampleCount = wf.triggerPosition.length * wf.windowSize
  gap : ∀ g ∈ wf.gapIndex, g ≠ 0 →
    ¬Grows wf bitWidth ∧ (g < wf.width ∨ wf.width + bitWidth ≤ g)

/-- Every sample of a waveform is read from another one as well. -/
structure Keeps (wf wf' : ILAWaveform) : Prop where
  framed : wf'.Framed
  sampleCount : wf'.sampleCount = wf.sampleCount
  triggerPosition : wf'.triggerPosition = wf.triggerPosition
  windowSize : wf'.windowSize = wf.windowSize
  width_le : wf.width ≤ wf'.width
  bits : ∀ i < wf.sampleCount, ∀ k < wf.width,
    ILAWaveform.getBitValue wf'.data wf'.stride i k = ILAWaveform.getBitValue wf.data wf.stride i k
  gapAt : ∀ i < wf.sampleCount, wf'.gapAt i = wf.gapAt i

theorem Keeps.refl {wf : ILAWaveform} (hwf : wf.Framed) : Keeps wf wf :=
  ⟨hwf, rfl, rfl, rfl, le_rfl, fun _ _ _ _ => rfl, fun _ _ => rfl⟩

theorem Keeps.trans {wf₁ wf₂ wf₃ : ILAWaveform} (h : Keeps wf₁ wf₂) (h' : Keeps wf₂ wf₃) :
    Keeps wf₁ wf₃ where
  framed := h'.framed
  sampleCount := h'.sampleCount.trans h.sampleCount
  triggerPosition := h'.triggerPosition.trans h.triggerPosition
  windowSize := h'.windowSize.trans h.windowSize
  width_le := h.width_le.trans h'.width_le
  bits i hi k hk :=
    (h'.bits i (h.sampleCount ▸ hi) k (hk.trans_le h.width_le)).trans (h.bits i hi k hk)
  gapAt i hi := (h'.gapAt i (h.sampleCount ▸ hi)).trans (h.gapAt i hi)

namespace Keeps

variable {wf wf' : ILAWaveform} {probes : List ILAWaveformProbe}

theorem probesInside (h : Keeps wf wf') (hin : wf.ProbesInside probes) :
    wf'.ProbesInside probes :=
  fun p hp br hbr => (hin p hp br hbr).trans h.width_le

theorem checkRange (h : Keeps wf wf') (caller : String) (sw ss : ℤ) (wc sc : Option ℤ) :
    wf'.checkRange caller sw wc ss sc = wf.checkRange caller sw wc ss sc := by
  have hcount := h.sampleCount
  have htrigger := h.triggerPosition
  have hsize := h.windowSize
  cases wf
  cases wf'
  subst hcount htrigger hsize
  rfl

theorem exportedSamples (h : Keeps wf wf') (r : SampleRange) :
    wf'.exportedSamples r = wf.exportedSamples r := by
  simp only [ILAWaveform.exportedSamples, h.sampleCount, h.windowSize]

theorem probeBits (h : Keeps wf wf') {p : ILAWaveformProbe}
    (hp : ∀ br ∈ p.mapRange, br.index + br.length ≤ wf.width) {i : ℕ} (hi : i < wf.sampleCount) :
    wf'.probeBits p i = wf.probeBits p i := by
  refine List.flatMap_congr fun br hbr => List.map_congr_left fun j hj => ?_
  have hj := List.mem_range.mp hj
  have hbr := hp br hbr
  exact h.bits i hi _ (by omega)

theorem recordAt (h : Keeps wf wf') (hin : wf.ProbesInside probes) {i : ℕ}
    (hi : i < wf.sampleCount) : wf'.recordAt probes i = wf.recordAt probes i := by
  have hbits : (probes.map fun p => (wf'.probeBits p i).map Bits.bitChar) =
      probes.map fun p => (wf.probeBits p i).map Bits.bitChar := by
    refine List.map_congr_left fun p hp => ?_
    rw [h.probeBits (hin p hp) hi]
  have htrigger : decide (wf'.triggerAt i) = decide (wf.triggerAt i) := decide_eq_decide.mpr (by
    rw [ILAWaveform.triggerAt, ILAWaveform.triggerAt, h.triggerPosition, h.windowSize])
  have hlast : decide (i + 1 = wf'.sampleCount) = decide (i + 1 = wf.sampleCount) := by
    rw [h.sampleCount]
  simp only [ILAWaveform.recordAt, htrigger, hlast, h.gapAt i hi, hbits, h.windowSize]

/-- Every writer is handed the same samples, and every error is the same. -/
theorem exportWaveform {σ : Type} (h : Keeps wf wf') (hwf : wf.Framed)
    (hin : wf.ProbesInside probes) (write : σ → SampleRecord → Except Py.Error σ) (init : σ)
    (sw ss : ℤ) (wc sc : Option ℤ) (caller : String) :
    wf'.exportWaveform probes write init sw wc ss sc caller =
      wf.exportWaveform probes write init sw wc ss sc caller := by
  cases hr : wf.checkRange caller sw wc ss sc with
  | error e =>
    rw [ILAWaveform.exportWaveform, ILAWaveform.exportWaveform, h.checkRange, hr]
    rfl
  | ok r =>
    have hsame : ∀ i ∈ wf.exportedSamples r, wf'.recordAt probes i = wf.recordAt probes i :=
      fun i hi => h.recordAt hin (List.mem_range.mp (List.mem_of_mem_filter hi))
    rw [ILAWaveform.exportWaveform_eq write hwf hin init hr,
      ILAWaveform.exportWaveform_eq write h.framed (h.probesInside hin) init
        ((h.checkRange caller sw ss wc sc).trans hr), h.exportedSamples]
    generalize wf.exportedSamples r = samples at hsame
    induction samples generalizing init with
    | nil => rfl
    | cons i samples ih =>
      rw [List.foldlM_cons, List.foldlM_cons, hsame i List.mem_cons_self]
      exact bind_congr fun s => ih s fun i hi => hsame i (List.mem_cons_of_mem _ hi)

end Keeps

/-- The selected probes are those under the selected names. -/
theorem get?_of_selectProbes {wf : ILAWaveform} {message : String} {names : List String}
    {probes : List ILAWaveformProbe} (hne : names ≠ [])
    (hsel : selectProbes wf message names = .ok probes) :
    List.Forall₂ (fun name p => wf.probes.get? name = some p) names probes := by
  rw [selectProbes, if_neg hne] at hsel
  cases hmap : names.mapM wf.probes.get? with
  | none => simp [hmap] at hsel
  | some found =>
    obtain rfl : found = probes := by simpa [hmap] using hsel
    clear hsel hne
    induction names generalizing found with
    | nil =>
      obtain rfl : [] = found := by simpa using hmap
      exact .nil
    | cons name names ih =>
      obtain ⟨p, hp, ps, hps, rfl⟩ : ∃ p, wf.probes.get? name = some p ∧
          ∃ ps, names.mapM wf.probes.get? = some ps ∧ p :: ps = found := by
        simpa [List.mapM_cons, Option.bind_eq_some_iff] using hmap
      exact .cons hp (ih ps hps)

/-- A selection that names no other probes than before gives the same columns and errors. -/
theorem Keeps.getWaveformDataValues {wf wf' : ILAWaveform} (h : Keeps wf wf') (hwf : wf.Framed)
    {names : List String} (hne : names ≠ [])
    (hsame : ∀ name ∈ names, wf'.probes.get? name = wf.probes.get? name)
    (hin : ∀ name ∈ names, ∀ p, wf.probes.get? name = some p →
      ∀ br ∈ p.mapRange, br.index + br.length ≤ wf.width)
    (sw ss : ℤ) (wc sc : Option ℤ) (opts : PseudoProbes) :
    getWaveformDataValues wf' names sw wc ss sc opts =
      getWaveformDataValues wf names sw wc ss sc opts := by
  have hmap : names.mapM wf'.probes.get? = names.mapM wf.probes.get? := by
    clear hin hne
    induction names with
    | nil => rfl
    | cons name names ih =>
      rw [List.mapM_cons, List.mapM_cons, hsame name List.mem_cons_self,
        ih fun name hname => hsame name (List.mem_cons_of_mem _ hname)]
  have hbad : names.dedup.filter (· ∉ wf'.probes.keys) =
      names.dedup.filter (· ∉ wf.probes.keys) := by
    refine List.filter_congr fun name hname => decide_eq_decide.mpr ?_
    rw [← Py.Dict.get?_eq_none_iff, ← Py.Dict.get?_eq_none_iff,
      hsame name (List.mem_dedup.mp hname)]
  have hsel : selectProbes wf' getDataBadNames names = selectProbes wf getDataBadNames names := by
    rw [selectProbes, selectProbes, if_neg hne, if_neg hne, hmap, hbad]
  rw [Waveform.getWaveformDataValues, Waveform.getWaveformDataValues, hsel]
  cases hprobes : selectProbes wf getDataBadNames names with
  | error e => rfl
  | ok probes =>
    refine h.exportWaveform hwf (fun p hp => ?_) _ _ sw ss wc sc _
    obtain ⟨i, hi⟩ := List.mem_iff_getElem?.mp hp
    obtain ⟨name, hname, hget⟩ := Py.forall₂_getElem? (get?_of_selectProbes hne hprobes).flip hi
    exact hin name (List.mem_of_getElem? hname) p hget

/-! ### One signal -/

/-- The arguments of a call. -/
structure ManualSignal where
  name : String
  values : List String
  mapping : Py.Dict String ℤ

/-- Bits of the codes. -/
def ManualSignal.width (s : ManualSignal) : ℕ :=
  match maxCode (ManualEnum.ofMapping s.mapping.entries).sanitizedMap.values with
  | .ok m => codeWidth m
  | .error _ => 0

def ManualSignal.append (isMemberName : String → String → Bool) (wf : ILAWaveform)
    (s : ManualSignal) : Except Py.Error ILAWaveform :=
  appendManualEnumSignal isMemberName wf s.name s.values s.mapping

/-- The probe of a signal. -/
def ManualSignal.probe (s : ManualSignal) (bitIndex : ℕ) : ILAWaveformProbe :=
  manualProbe s.name bitIndex s.width (manualEnumDef s.name s.mapping.entries)

section Append

variable {isMemberName : String → String → Bool} {wf wf' : ILAWaveform} {s : ManualSignal}

/-- What a call does to the waveform. -/
structure Appended (wf : ILAWaveform) (s : ManualSignal) (wf' : ILAWaveform) : Prop where
  width_pos : 0 < s.width
  length_values : s.values.length = wf.sampleCount
  windowCount_pos : 0 < wf.triggerPosition.length
  written : ∃ data', writeValues (ManualEnum.ofMapping s.mapping.entries)
      (widened wf s.name s.width (manualEnumDef s.name s.mapping.entries)).stride wf.width s.width
      (widened wf s.name s.width (manualEnumDef s.name s.mapping.entries)).data 0 s.values =
        .ok data' ∧
    wf' = { widened wf s.name s.width (manualEnumDef s.name s.mapping.entries) with data := data' }

theorem appended (h : s.append isMemberName wf = .ok wf') : Appended wf s wf' := by
  obtain ⟨m, hmax⟩ :
      ∃ m, maxCode (ManualEnum.ofMapping s.mapping.entries).sanitizedMap.values = .ok m := by
    rw [ManualSignal.append, appendManualEnumSignal] at h
    split at h
    · cases h
    · split at h
      · cases h
      · obtain ⟨m, hmax, -⟩ := Py.bind_eq_ok h
        exact ⟨m, hmax⟩
  have hwidth : s.width = codeWidth m := by rw [ManualSignal.width, hmax]
  obtain ⟨⟨hlen, -, hwindows, -⟩, hwritten⟩ := (appendManualEnumSignal_eq_ok_iff hmax rfl).mp h
  exact ⟨hwidth ▸ codeWidth_pos m, hlen, Nat.pos_of_ne_zero hwindows, hwidth ▸ hwritten⟩

theorem widenedStride_of_roomy {bitWidth : ℕ} (hroom : Roomy wf bitWidth)
    (hpos : 0 < wf.triggerPosition.length * wf.windowSize) :
    widenedStride wf bitWidth = max wf.stride ((wf.width + bitWidth + 7) / 8) := by
  rw [widenedStride]
  by_cases hgrow : (wf.width + bitWidth + 7) / 8 > wf.stride
  · rw [if_pos hgrow, hroom.full hgrow, Nat.mul_div_cancel _ hpos, Nat.max_eq_right hgrow.le]
  · rw [if_neg hgrow, Nat.max_eq_left (Nat.le_of_not_lt hgrow)]

theorem bit_widened {bitWidth : ℕ} (hwf : wf.Framed) (hroom : Roomy wf bitWidth)
    (hpos : 0 < wf.triggerPosition.length * wf.windowSize) (name : String) (enumDef : EnumMeta)
    {i k : ℕ} (hi : i < wf.sampleCount) (hk : k < 8 * wf.stride) :
    Bits.bit (widened wf name bitWidth enumDef).data (8 * (i * widenedStride wf bitWidth) + k) =
      Bits.bit wf.data (8 * (i * wf.stride) + k) := by
  rw [widenedStride_of_roomy hroom hpos, widened]
  by_cases hgrow : (wf.width + bitWidth + 7) / 8 > wf.stride
  · simp only [if_pos hgrow, Nat.max_eq_right hgrow.le]
    exact bit_widenSamples hgrow.le (sampleCount_mul_stride_le hwf.sampleCount_le) hi hk
  · simp only [if_neg hgrow, Nat.max_eq_left (Nat.le_of_not_lt hgrow)]

namespace Appended

variable (h : Appended wf s wf') (hwf : wf.Framed)

include h hwf

theorem samples_pos : 0 < wf.triggerPosition.length * wf.windowSize :=
  Nat.mul_pos h.windowCount_pos hwf.windowSize_pos

theorem stride : wf'.stride = widenedStride wf s.width := by
  obtain ⟨data', hwrite, rfl⟩ := h.written
  obtain ⟨codes, hcodes⟩ := codes_of_writeValues_ok hwrite
  obtain ⟨data₁, hwrite₁, hlen, -⟩ := exists_written s.name s.width
    (manualEnumDef s.name s.mapping.entries) hwf.sampleCount_le h.length_values hcodes
  obtain rfl : data' = data₁ := Except.ok.inj (hwrite.symm.trans hwrite₁)
  rw [← stride_widened hwf.sampleCount_le s.name (manualEnumDef s.name s.mapping.entries),
    ILAWaveform.stride, ILAWaveform.stride, hlen]

/-- Bits outside the new signal stay with their samples. -/
theorem getBitValue_eq (hroom : Roomy wf s.width) {i k : ℕ} (hi : i < wf.sampleCount)
    (hk : k < 8 * wf.stride) (hout : k < wf.width ∨ wf.width + s.width ≤ k) :
    ILAWaveform.getBitValue wf'.data wf'.stride i k =
      ILAWaveform.getBitValue wf.data wf.stride i k := by
  have hpos := h.samples_pos hwf
  have hstride := widenedStride_of_roomy hroom hpos
  obtain ⟨data', hwrite, hwf'⟩ := h.written
  have hdata : wf'.data = data' := by rw [hwf']
  rw [getBitValue_eq_bit, getBitValue_eq_bit, h.stride hwf, hdata,
    ← bit_widened hwf hroom hpos s.name (manualEnumDef s.name s.mapping.entries) hi hk]
  refine bit_writeValues (fun j hj bit hbit => ?_) (fun j hj => ?_) hwrite
  · rw [Nat.zero_add]
    exact byte_lt_length_widened hwf.sampleCount_le (h.length_values ▸ hj) hbit
  · rw [stride_widened hwf.sampleCount_le, Nat.zero_add, hstride]
    have hfits : wf.width + s.width ≤ 8 * max wf.stride ((wf.width + s.width + 7) / 8) := by omega
    have hless : k < 8 * max wf.stride ((wf.width + s.width + 7) / 8) := by omega
    generalize max wf.stride ((wf.width + s.width + 7) / 8) = bps at hfits hless
    -- the signal of sample `j` ends before sample `j + 1`
    rcases Nat.lt_trichotomy j i with hlt | rfl | hgt
    · have hrow : (j + 1) * bps ≤ i * bps := Nat.mul_le_mul_right _ hlt
      rw [Nat.succ_mul] at hrow
      omega
    · omega
    · have hrow : (i + 1) * bps ≤ j * bps := Nat.mul_le_mul_right _ hgt
      rw [Nat.succ_mul] at hrow
      omega

theorem keeps (hroom : Roomy wf s.width) : Keeps wf wf' := by
  have hstride := (h.stride hwf).trans (widenedStride_of_roomy hroom (h.samples_pos hwf))
  have hbits := fun i hi k hk hout => h.getBitValue_eq hwf hroom (i := i) (k := k) hi hk hout
  obtain ⟨data', -, hwf'⟩ := h.written
  have hcount : wf'.sampleCount = wf.sampleCount := by rw [hwf']; rfl
  have htrigger : wf'.triggerPosition = wf.triggerPosition := by rw [hwf']; rfl
  have hsize : wf'.windowSize = wf.windowSize := by rw [hwf']; rfl
  have hwidth : wf'.width = wf.width + s.width := by rw [hwf']; rfl
  have hgap : wf'.gapIndex = wf.gapIndex := by rw [hwf']; rfl
  refine ⟨⟨?_, ?_, ?_, fun g hg h0 => ?_⟩, hcount, htrigger, hsize, ?_, fun i hi k hk => ?_,
    fun i hi => ?_⟩
  · rw [hsize]
    exact hwf.windowSize_pos
  · rw [hcount, htrigger, hsize]
    exact hwf.sampleCount_le
  · rw [hwidth, hstride]
    omega
  · rw [hgap] at hg
    rw [hwf.gap g hg h0, hstride, Nat.max_eq_left (Nat.le_of_not_lt (hroom.gap g hg h0).1)]
  · rw [hwidth]
    exact Nat.le_add_right _ _
  · exact hbits i hi k (hk.trans_le hwf.width_le) (.inl hk)
  · rw [ILAWaveform.gapAt, ILAWaveform.gapAt, hgap]
    cases hg : wf.gapIndex with
    | none => rfl
    | some g =>
      by_cases h0 : g = 0
      · simp [h0]
      · have hlast := hwf.gap g hg h0
        simp only [hbits i hi g (by omega) (hroom.gap g hg h0).2]

end Appended

/-- The bits of an integer are those of its residue. -/
theorem testBit_emod_two_pow (c : ℤ) {width bit : ℕ} (hbit : bit < width) :
    (c % 2 ^ width).toNat.testBit bit = c.testBit bit := by
  cases c with
  | ofNat n =>
    have hmod : ((n : ℤ) % 2 ^ width).toNat = n % 2 ^ width := by
      rw [show (2 : ℤ) ^ width = ((2 ^ width : ℕ) : ℤ) by simp, ← Int.natCast_mod,
        Int.toNat_natCast]
    rw [Int.ofNat_eq_natCast, hmod, Nat.testBit_mod_two_pow, decide_eq_true hbit, Bool.true_and]
    rfl
  | negSucc n =>
    have hlt : n % 2 ^ width < 2 ^ width := Nat.mod_lt _ (Nat.two_pow_pos width)
    have hmod : (Int.negSucc n % 2 ^ width).toNat = 2 ^ width - (n % 2 ^ width + 1) := by
      rw [Int.negSucc_emod n (by positivity),
        show (2 : ℤ) ^ width = ((2 ^ width : ℕ) : ℤ) by simp, ← Int.natCast_mod]
      omega
    rw [hmod, Nat.testBit_two_pow_sub_succ hlt, decide_eq_true hbit, Bool.true_and,
      Nat.testBit_mod_two_pow, decide_eq_true hbit, Bool.true_and]
    rfl

/-- A sample reads as the code of its value, modulo the codes that fit. -/
theorem Appended.probeValue (h : Appended wf s wf') (hwf : wf.Framed) (hroom : Roomy wf s.width)
    {codes : List ℤ}
    (hcodes : List.Forall₂ (fun v c => HasMember s.mapping.entries v c) s.values codes) {i : ℕ}
    {c : ℤ} (hc : codes[i]? = some c) :
    wf'.probeValue (s.probe wf.width) i = (c % 2 ^ s.width).toNat := by
  have hfound : List.Forall₂ (fun sval code =>
      (ManualEnum.ofMapping s.mapping.entries).code sval = .ok code) s.values codes :=
    hcodes.imp fun v c hmember => (code_eq_ok_iff s.mapping.nodup).mpr hmember
  have hroom' : ∀ j < s.values.length, ∀ bit < s.width, (0 + j) *
      (widened wf s.name s.width (manualEnumDef s.name s.mapping.entries)).stride +
        (wf.width + bit) / 8 <
      (widened wf s.name s.width (manualEnumDef s.name s.mapping.entries)).data.length := by
    intro j hj bit hbit
    rw [Nat.zero_add]
    exact byte_lt_length_widened hwf.sampleCount_le (h.length_values ▸ hj) hbit
  obtain ⟨data₁, hwrite₁, -, -, hbits⟩ := writeValues_spec _ hfound hroom'
  obtain ⟨data', hwrite, hwf'⟩ := h.written
  obtain rfl : data' = data₁ := Except.ok.inj (hwrite.symm.trans hwrite₁)
  have hdata : wf'.data = data' := by rw [hwf']
  have hstride := h.stride hwf
  have hfits : wf.width + s.width ≤ 8 * wf'.stride := by
    rw [hstride, widenedStride_of_roomy hroom (h.samples_pos hwf)]
    omega
  have hread : wf'.probeBits (s.probe wf.width) i =
      (List.range s.width).map (c % 2 ^ s.width).toNat.testBit := by
    rw [ILAWaveform.probeBits, ManualSignal.probe, manualProbe, List.flatMap_singleton]
    refine List.map_congr_left fun bit hbit => ?_
    have hbit : bit < s.width := List.mem_range.mp hbit
    have hstored := hbits i c hc bit hbit (by
      rw [stride_widened hwf.sampleCount_le, ← hstride]
      omega)
    rw [stride_widened hwf.sampleCount_le, ← hstride, Nat.zero_add, ← hdata] at hstored
    rw [getBitValue_eq_bit, hstored, testBit_emod_two_pow c hbit]
  have hlt : (c % 2 ^ s.width).toNat < 2 ^ s.width := by
    have hneg := Int.emod_nonneg c (show (2 : ℤ) ^ s.width ≠ 0 by positivity)
    have hpos := Int.emod_lt_of_pos c (show (0 : ℤ) < 2 ^ s.width by positivity)
    zify [Int.toNat_of_nonneg hneg]
    omega
  rw [ILAWaveform.probeValue, hread, Bits.ofBits_map_testBit hlt]

end Append

/-! ### Any number of signals -/

def appendManualSignals (isMemberName : String → String → Bool) (wf : ILAWaveform)
    (signals : List ManualSignal) : Except Py.Error ILAWaveform :=
  signals.foldlM (ManualSignal.append isMemberName) wf

section Run

variable {isMemberName : String → String → Bool}

/-- Room for all signals is room for the first and, after it, for the others. -/
theorem Roomy.split {wf wf' : ILAWaveform} {s : ManualSignal} {bitWidth : ℕ}
    (h : Roomy wf (s.width + bitWidth)) (hwf : wf.Framed) (hs : Appended wf s wf') :
    Roomy wf s.width ∧ Roomy wf' bitWidth := by
  have hmono : Grows wf s.width → Grows wf (s.width + bitWidth) := by
    intro hgrow
    rw [Grows] at hgrow ⊢
    omega
  have hfirst : Roomy wf s.width := by
    refine ⟨fun hgrow => h.full (hmono hgrow), fun g hg h0 => ?_⟩
    obtain ⟨hstay, hout⟩ := h.gap g hg h0
    exact ⟨fun hgrow => hstay (hmono hgrow), by omega⟩
  have hstride := (hs.stride hwf).trans (widenedStride_of_roomy hfirst (hs.samples_pos hwf))
  obtain ⟨data', -, hwf'⟩ := hs.written
  have hwidth : wf'.width = wf.width + s.width := by rw [hwf']; rfl
  have hgap : wf'.gapIndex = wf.gapIndex := by rw [hwf']; rfl
  have hrest : Grows wf' bitWidth → Grows wf (s.width + bitWidth) := by
    intro hgrow
    rw [Grows, hstride, hwidth] at hgrow
    rw [Grows]
    omega
  refine ⟨hfirst, fun hgrow => ?_, fun g hg h0 => ?_⟩
  · have hfull := h.full (hrest hgrow)
    rw [hwf']
    exact hfull
  · rw [hgap] at hg
    obtain ⟨hstay, hout⟩ := h.gap g hg h0
    exact ⟨fun hgrow => hstay (hrest hgrow), by omega⟩

/-- Signals keep all reads, the probes under other names, and the room for more signals. -/
theorem keeps_appendManualSignals {signals : List ManualSignal} {n : ℕ} :
    ∀ {wf wf' : ILAWaveform}, wf.Framed → Roomy wf ((signals.map (·.width)).sum + n) →
    appendManualSignals isMemberName wf signals = .ok wf' →
    Keeps wf wf' ∧ Roomy wf' n ∧
      ∀ name ∉ signals.map (·.name), wf'.probes.get? name = wf.probes.get? name := by
  induction signals with
  | nil =>
    intro wf wf' hwf hroom hok
    obtain rfl : wf = wf' := Except.ok.inj hok
    exact ⟨Keeps.refl hwf, by simpa using hroom, fun _ _ => rfl⟩
  | cons s signals ih =>
    intro wf wf' hwf hroom hok
    obtain ⟨wf₁, happend, hok⟩ := Py.bind_eq_ok hok
    have hs := appended happend
    rw [List.map_cons, List.sum_cons, Nat.add_assoc] at hroom
    obtain ⟨hfirst, hroom₁⟩ := hroom.split hwf hs
    have hkeeps := hs.keeps hwf hfirst
    obtain ⟨hkeeps', hrest, hprobes⟩ := ih hkeeps.framed hroom₁ hok
    refine ⟨hkeeps.trans hkeeps', hrest, fun name hname => ?_⟩
    obtain ⟨hne, hname⟩ : name ≠ s.name ∧ name ∉ signals.map (·.name) := by simpa using hname
    obtain ⟨data', -, rfl⟩ := hs.written
    rw [hprobes name hname]
    exact Py.Dict.get?_set_ne _ hne _

/-- The column of a signal, as long as no later signal takes its name. -/
theorem column_appendManualSignals {wf wf₁ wf' : ILAWaveform} {s : ManualSignal}
    {later : List ManualSignal} (hwf : wf.Framed) (hs : Appended wf s wf₁)
    (hroom : Roomy wf (s.width + (later.map (·.width)).sum))
    (hname : s.name ∉ later.map (·.name))
    (hok : appendManualSignals isMemberName wf₁ later = .ok wf') {codes : List ℤ}
    (hcodes : List.Forall₂ (fun v c => HasMember s.mapping.entries v c) s.values codes)
    {opts : PseudoProbes} (hopts : s.name ∉ opts.names) {sw ss : ℤ} {wc sc : Option ℤ}
    {r : SampleRange} (hr : wf.checkRange "ILAWaveform.get_data()" sw wc ss sc = .ok r) :
    ∃ result, getWaveformDataValues wf' [s.name] sw wc ss sc opts = .ok result ∧
      result.column s.name = (wf.exportedSamples r).filterMap fun i =>
        codes[i]?.map fun c => (c % 2 ^ s.width).toNat := by
  obtain ⟨hfirst, hroom₁⟩ := hroom.split hwf hs
  have hkeeps := hs.keeps hwf hfirst
  obtain ⟨hkeeps', -, hprobes⟩ :=
    keeps_appendManualSignals (n := 0) hkeeps.framed hroom₁ hok
  have hwidth : wf₁.width = wf.width + s.width := by
    obtain ⟨data', -, rfl⟩ := hs.written
    rfl
  have hprobe : wf₁.probes.get? s.name = some (s.probe wf.width) := by
    obtain ⟨data', -, rfl⟩ := hs.written
    exact Py.Dict.get?_set_self _ _ _
  have hinside : ∀ br ∈ (s.probe wf.width).mapRange, br.index + br.length ≤ wf₁.width := by
    intro br hbr
    obtain rfl : br = ⟨wf.width, s.width⟩ := List.mem_singleton.mp hbr
    exact hwidth.ge
  have hread := hkeeps'.getWaveformDataValues hkeeps.framed (List.cons_ne_nil s.name [])
    (fun name hmem => by
      obtain rfl : name = s.name := List.mem_singleton.mp hmem
      exact hprobes s.name hname)
    (fun name hmem p hp => by
      obtain rfl : name = s.name := List.mem_singleton.mp hmem
      obtain rfl : s.probe wf.width = p := Option.some.inj (hprobe.symm.trans hp)
      exact hinside) sw ss wc sc opts
  have hsel : selectProbes wf₁ getDataBadNames [s.name] = .ok [s.probe wf.width] := by
    simp [selectProbes, List.mapM_cons, hprobe]
  have hpos : ∀ p ∈ [s.probe wf.width], 0 < p.length := by
    intro p hp
    obtain rfl : p = s.probe wf.width := List.mem_singleton.mp hp
    simpa [ILAWaveformProbe.length, ManualSignal.probe, manualProbe] using hs.width_pos
  have hnames : (opts.names ++ [s.probe wf.width].map (·.name)).Nodup := by
    have hopts' : opts.names.Nodup := by
      obtain ⟨a, b, c⟩ := opts
      cases a <;> cases b <;> cases c <;> decide
    exact hopts'.append (List.nodup_singleton _) (by
      simpa [ManualSignal.probe, manualProbe] using hopts)
  obtain ⟨result, hresult, hcolumn, -⟩ := getWaveformDataValues_eq hkeeps.framed hsel
    (fun p hp => by
      obtain rfl : p = s.probe wf.width := List.mem_singleton.mp hp
      exact hinside) hpos hnames ((hkeeps.checkRange _ sw ss wc sc).trans hr)
  refine ⟨result, hread.trans hresult, ?_⟩
  have hself := hcolumn (s.probe wf.width) (List.mem_singleton_self _)
  rw [hkeeps.exportedSamples] at hself
  refine hself.trans ((congrFun List.filterMap_eq_map _).symm.trans
    (List.filterMap_congr fun i hi => ?_))
  have hi : i < codes.length := by
    rw [← hcodes.length_eq, hs.length_values]
    exact List.mem_range.mp (List.mem_of_mem_filter hi)
  have hc := List.getElem?_eq_getElem hi
  rw [hc, Function.comp_apply, Option.map_some, hs.probeValue hwf hfirst hcodes hc]

/-- Codes that are not negative are read as they are. -/
theorem toNat_emod_width {s : ManualSignal} {v : String} {c : ℤ}
    (hmember : HasMember s.mapping.entries v c) (hc : 0 ≤ c) :
    ((c % 2 ^ s.width).toNat : ℤ) = c := by
  have hmem : c ∈ (ManualEnum.ofMapping s.mapping.entries).sanitizedMap.values :=
    List.mem_map_of_mem (f := (·.2)) ((Py.Dict.get?_eq_some_iff _).mp hmember.get?_sanitizedMap)
  obtain ⟨m, hmax⟩ : ∃ m, (ManualEnum.ofMapping s.mapping.entries).sanitizedMap.values.max? =
      some m := Option.isSome_iff_exists.mp (List.isSome_max?_of_mem hmem)
  have hle : c ≤ m := (List.max?_eq_some_iff.mp hmax).2 c hmem
  obtain ⟨n, rfl⟩ := Int.eq_ofNat_of_zero_le (hc.trans hle)
  have hwidth : s.width = codeWidth n := by rw [ManualSignal.width, maxCode, hmax]
  have hlt : (n : ℤ) < 2 ^ codeWidth n := by exact_mod_cast lt_two_pow_codeWidth n
  rw [hwidth, Int.emod_eq_of_lt hc (hle.trans_lt hlt), Int.toNat_of_nonneg hc]

/-- Any number of signals with room for their bits: every export of the signals before them is
    what it was, and every signal reads as its codes. -/
theorem getWaveformDataValues_appendManualSignals {wf wf' : ILAWaveform} (hwf : wf.Framed)
    (hin : wf.ProbesInside wf.probes.values) {signals : List ManualSignal}
    (hroom : Roomy wf (signals.map (·.width)).sum) (hnames : (signals.map (·.name)).Nodup)
    (hok : appendManualSignals isMemberName wf signals = .ok wf') :
    (∀ probes, wf.ProbesInside probes → ∀ (σ : Type) (write : σ → SampleRecord → Except Py.Error σ)
      (init : σ) sw wc ss sc caller,
      wf'.exportWaveform probes write init sw wc ss sc caller =
        wf.exportWaveform probes write init sw wc ss sc caller) ∧
    (∀ names ≠ [], (∀ name ∈ names, name ∉ signals.map (·.name)) → ∀ sw wc ss sc opts,
      getWaveformDataValues wf' names sw wc ss sc opts =
        getWaveformDataValues wf names sw wc ss sc opts) ∧
    ∀ s ∈ signals, ∀ codes,
      List.Forall₂ (fun v c => HasMember s.mapping.entries v c) s.values codes →
      (∀ c ∈ codes, 0 ≤ c → ((c % 2 ^ s.width).toNat : ℤ) = c) ∧
      ∀ sw wc ss sc r opts, s.name ∉ opts.names →
        wf.checkRange "ILAWaveform.get_data()" sw wc ss sc = .ok r →
        ∃ result, getWaveformDataValues wf' [s.name] sw wc ss sc opts = .ok result ∧
          result.column s.name = (wf.exportedSamples r).filterMap fun i =>
            codes[i]?.map fun c => (c % 2 ^ s.width).toNat := by
  obtain ⟨hkeeps, -, hprobes⟩ := keeps_appendManualSignals (n := 0) hwf hroom hok
  refine ⟨fun probes hprobes σ write init sw wc ss sc caller =>
    hkeeps.exportWaveform hwf hprobes write init sw ss wc sc caller,
    fun names hne hold sw wc ss sc opts => ?_, fun s hs codes hcodes => ⟨fun c hc hneg => ?_,
    fun sw wc ss sc r opts hopts hr => ?_⟩⟩
  · refine hkeeps.getWaveformDataValues hwf hne (fun name hname => hprobes name (hold name hname))
      (fun name _ p hp => ?_) sw ss wc sc opts
    exact hin p (List.mem_map_of_mem (f := (·.2)) ((Py.Dict.get?_eq_some_iff _).mp hp))
  · obtain ⟨i, hi⟩ := List.mem_iff_getElem?.mp hc
    obtain ⟨v, -, hmember⟩ := Py.forall₂_getElem? hcodes.flip hi
    exact toNat_emod_width hmember hneg
  · obtain ⟨before, later, rfl⟩ := List.append_of_mem hs
    rw [appendManualSignals, List.foldlM_append] at hok
    obtain ⟨wf₀, hbefore, hok⟩ := Py.bind_eq_ok hok
    obtain ⟨wf₁, happend, hlater⟩ := Py.bind_eq_ok hok
    rw [List.map_append, List.sum_append, List.map_cons, List.sum_cons] at hroom
    obtain ⟨hkeeps₀, hroom₀, -⟩ := keeps_appendManualSignals hwf hroom hbefore
    have hname : s.name ∉ later.map (·.name) := by
      rw [List.map_append, List.map_cons] at hnames
      exact (List.nodup_cons.mp hnames.of_append_right).1
    rw [← hkeeps₀.exportedSamples]
    exact column_appendManualSignals hkeeps₀.framed (appended happend) hroom₀ hname hlater hcodes
      hopts ((hkeeps₀.checkRange _ sw ss wc sc).trans hr)

end Run

/-- Two samples of seven bits, which fill their window. -/
def twoByteSamples : ILAWaveform where
  width := 7
  sampleCount := 2
  triggerPosition := [0]
  windowSize := 2
  probes := Py.Dict.empty.set "p" ⟨"p", "probe0", [⟨0, 3⟩], true, some 2, some 0, .hex, none⟩
  data := [5, 3]

def opSignal : ManualSignal :=
  ⟨"op", ["WR", "RD"], (Py.Dict.empty.set "RD" 1).set "WR" 2⟩

def idleSignal : ManualSignal := ⟨"idle", ["", ""], Py.Dict.empty.set "" 0⟩

example : (appendManualSignals (fun _ _ => true) twoByteSamples [opSignal, idleSignal]).map (·.data) =
    .ok [5, 1, 131, 0] := rfl

theorem getWaveformDataValues_appendManualSignals_twoSamples : ∃ wf',
    appendManualSignals (fun _ _ => true) twoByteSamples [opSignal, idleSignal] = .ok wf' ∧
    getWaveformDataValues wf' ["p"] 0 none 0 none ⟨true, false, true⟩ =
      getWaveformDataValues twoByteSamples ["p"] 0 none 0 none ⟨true, false, true⟩ ∧
    ∃ result, getWaveformDataValues wf' ["op"] 0 none 0 none ⟨false, false, false⟩ = .ok result ∧
      result.column "op" = [2, 1] := by
  have hwf : twoByteSamples.Framed := ⟨by decide, by decide, by decide, by simp [twoByteSamples]⟩
  have hin : twoByteSamples.ProbesInside twoByteSamples.probes.values := by
    simp [ILAWaveform.ProbesInside, twoByteSamples, Py.Dict.values, Py.Dict.set, Py.Dict.empty,
      Py.store]
  have hroom : Roomy twoByteSamples ([opSignal, idleSignal].map (·.width)).sum :=
    ⟨fun _ => rfl, by simp [twoByteSamples]⟩
  have hcodes : List.Forall₂ (fun v c => HasMember opSignal.mapping.entries v c) opSignal.values
      [2, 1] := by
    refine .cons ⟨[("RD", 1)], [], rfl, by simp⟩ (.cons ⟨[], [("WR", 2)], rfl, ?_⟩ .nil)
    decide
  have hr : twoByteSamples.checkRange "ILAWaveform.get_data()" 0 none 0 none = .ok ⟨0, 1, 0, 2⟩ := rfl
  have hok : appendManualSignals (fun _ _ => true) twoByteSamples [opSignal, idleSignal] = .ok _ := rfl
  obtain ⟨-, hold, hnew⟩ :=
    getWaveformDataValues_appendManualSignals hwf hin hroom (by decide) hok
  obtain ⟨-, hreads⟩ := hnew opSignal List.mem_cons_self [2, 1] hcodes
  obtain ⟨result, hresult, hcolumn⟩ := hreads 0 none 0 none _ ⟨false, false, false⟩ (by decide) hr
  exact ⟨_, rfl, hold ["p"] (by decide) (by decide) 0 none 0 none _, result, hresult, hcolumn⟩

end Chipscopy.Waveform
