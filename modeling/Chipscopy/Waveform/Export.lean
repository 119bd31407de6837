import Chipscopy.Waveform.Data

/-! Exporting samples

    `_export_waveform` walks over the selected windows and samples and hands every sample to a
    writer. The samples it visits are those of the selected range in increasing order, and what it
    hands over is, for every probe, the bits of its stretches, read with the documented formula. -/

namespace Chipscopy.Waveform

/-- The arguments of `write_sample`; values start with their least significant bit. -/
structure SampleRecord where
  samplePosition : ℕ
  windowIndex : ℕ
  sampleInWindowIndex : ℕ
  isTrigger : Bool
  probeBinaryReversedValues : List (List Char)
  isLastSample : Bool
  isGap : Bool
  deriving DecidableEq, Repr

/-- Selected windows, and selected samples of each window. -/
structure SampleRange where
  startWindow : ℕ
  windowCount : ℕ
  startSample : ℕ
  sampleCount : ℕ
  deriving DecidableEq, Repr

/-- `if not n: n = default`. -/
def orDefault (n : Option ℤ) (default : ℤ) : ℤ :=
  match n with
  | none => default
  | some n => if n = 0 then default else n

namespace ILAWaveform

/-- Number of windows that have samples. -/
def maxWindowCount (wf : ILAWaveform) : ℕ := (wf.sampleCount + wf.windowSize - 1) / wf.windowSize

/-- Defaults and range checks of the export functions. -/
def checkRange (wf : ILAWaveform) (callingFunction : String) (startWindowIdx : ℤ)
    (windowCount : Option ℤ) (startSampleIdx : ℤ) (sampleCount : Option ℤ) :
    Except Py.Error SampleRange :=
  let windowCount := orDefault windowCount wf.getWindowCount
  let sampleCount := orDefault sampleCount wf.windowSize
  let wSize : ℤ := wf.windowSize
  if wSize = 0 then .error .zeroDivisionError
  else
    let maxWindowCount : ℤ := wf.maxWindowCount
    if startWindowIdx < 0 ∨ startWindowIdx ≥ maxWindowCount then
      .error (.valueError (s!"{callingFunction} function argument start_window=\"{startWindowIdx}\" "
        ++ s!"must be in the range [0-{maxWindowCount - 1}]"))
    else if startSampleIdx < 0 ∨ startSampleIdx ≥ wSize then
      .error (.valueError
        (s!"{callingFunction} function argument \"start_sample=\"{startSampleIdx}\" "
          ++ s!"must be in the range [0-{wSize - 1}]"))
    else if sampleCount < 1 ∨ sampleCount > wSize - startSampleIdx then
      .error (.valueError (s!"{callingFunction} function argument \"sample_count=\"{sampleCount}\" "
        ++ s!"must be in the range [1-{wSize - startSampleIdx}], "
        ++ s!"since start_sample_idx=\"{startSampleIdx}\"."))
    else if windowCount < 1 ∨ windowCount > maxWindowCount - startWindowIdx then
      .error (.valueError (s!"{callingFunction} function argument \"window_count=\"{windowCount}\" "
        ++ s!"must be in the range [1-{maxWindowCount - startWindowIdx}], "
        ++ s!"since start_window_idx=\"{startWindowIdx}\"."))
    else .ok ⟨startWindowIdx.toNat, windowCount.toNat, startSampleIdx.toNat, sampleCount.toNat⟩

end ILAWaveform

def getSampleBinaryValues (width : ℕ) (probes : List ILAWaveformProbe) (sampleData : List UInt8) :
    List (List Char) :=
  let reversedBinValue := (Bits.formatBin width (Bits.fromBytes sampleData)).reverse
  probes.map fun p =>
    p.mapRange.flatMap fun br => Py.segment reversedBinValue br.index (br.index + br.length)

def isGap (sampleHighByte : UInt8) (gapIndex : Option ℕ) : Bool :=
  match gapIndex with
  | none => false
  | some g => g != 0 && sampleHighByte.toNat &&& 1 <<< (g % 8) != 0

namespace ILAWaveform

variable {σ : Type} (wf : ILAWaveform) (probes : List ILAWaveformProbe)
  (write : σ → SampleRecord → Except Py.Error σ)

/-- `sample_is_gap`, read from the last byte of the sample when the waveform has a gap bit. -/
def sampleIsGap (rawSampleIdxEnd : ℕ) : Except Py.Error Bool :=
  if wf.gapIndex.getD 0 = 0 then .ok false
  else (Py.index wf.data ((rawSampleIdxEnd : ℤ) - 1)).map (isGap · wf.gapIndex)

/-- What the loop body passes on for one sample. -/
def sampleRecord (sampleByteCount windowIdx : ℕ) (triggerSampleIdx : ℤ) (sampleIdx : ℕ) :
    Except Py.Error SampleRecord := do
  let rawSampleIdx := sampleIdx * sampleByteCount
  let rawSampleIdxEnd := rawSampleIdx + sampleByteCount
  let sampleIdxInWindow := sampleIdx - windowIdx * wf.windowSize
  let binValues := getSampleBinaryValues wf.width probes
    (Py.segment wf.data rawSampleIdx rawSampleIdxEnd)
  let sampleIsGap ← wf.sampleIsGap rawSampleIdxEnd
  return { samplePosition := sampleIdx
           windowIndex := windowIdx
           sampleInWindowIndex := sampleIdxInWindow
           isTrigger := sampleIdxInWindow = triggerSampleIdx
           probeBinaryReversedValues := binValues
           isLastSample := sampleIdx + 1 = wf.sampleCount
           isGap := sampleIsGap }

/-- The loop over the samples of a window; a partial last window ends it early. -/
def exportWindow (sampleByteCount windowIdx : ℕ) (triggerSampleIdx : ℤ) :
    σ → (sampleIdx count : ℕ) → Except Py.Error σ
  | s, _, 0 => .ok s
  | s, sampleIdx, count + 1 =>
    if sampleIdx ≥ wf.sampleCount then .ok s
    else do
      let record ← sampleRecord wf probes sampleByteCount windowIdx triggerSampleIdx sampleIdx
      let s ← write s record
      exportWindow sampleByteCount windowIdx triggerSampleIdx s (sampleIdx + 1) count

/-- The loop over the windows. -/
def exportWindows (sampleByteCount startSample sampleCount : ℕ) :
    σ → (windowIdx count : ℕ) → Except Py.Error σ
  | s, _, 0 => .ok s
  | s, windowIdx, count + 1 => do
    let triggerSampleIdx ← Py.index wf.triggerPosition windowIdx
    let s ← exportWindow wf probes write sampleByteCount windowIdx triggerSampleIdx s
      (windowIdx * wf.windowSize + startSample) sampleCount
    exportWindows sampleByteCount startSample sampleCount s (windowIdx + 1) count

/-- `_export_waveform`, with the writer given by its state after `init` and its `write_sample`. -/
def exportWaveform (init : σ) (startWindowIdx : ℤ) (windowCount : Option ℤ) (startSampleIdx : ℤ)
    (sampleCount : Option ℤ) (callingFunction : String) : Except Py.Error σ := do
  let range ← wf.checkRange callingFunction startWindowIdx windowCount startSampleIdx sampleCount
  let sampleByteCount ← wf.bytesPerSample
  exportWindows wf probes write sampleByteCount range.startSample range.sampleCount init
    range.startWindow range.windowCount

/-! ### The samples of a range -/

/-- The samples of a range, in increasing order. -/
def exportedSamples (r : SampleRange) : List ℕ :=
  (List.range wf.sampleCount).filter fun i =>
    r.startWindow ≤ i / wf.windowSize ∧ i / wf.windowSize < r.startWindow + r.windowCount ∧
      r.startSample ≤ i % wf.windowSize ∧ i % wf.windowSize < r.startSample + r.sampleCount

/-- Bits of a probe in a sample, least significant slice first. -/
def probeBits (p : ILAWaveformProbe) (i : ℕ) : List Bool :=
  p.mapRange.flatMap fun br =>
    (List.range br.length).map fun j => getBitValue wf.data wf.stride i (br.index + j)

/-- Value of a probe in a sample. -/
def probeValue (p : ILAWaveformProbe) (i : ℕ) : ℕ := Bits.ofBits (wf.probeBits p i)

/-- The gap bit of a sample. -/
def gapAt (i : ℕ) : Bool :=
  match wf.gapIndex with
  | none => false
  | some g => g != 0 && getBitValue wf.data wf.stride i g

/-- The trigger sample of its window. -/
def triggerAt (i : ℕ) : Prop :=
  wf.triggerPosition[i / wf.windowSize]? = some ((i % wf.windowSize : ℕ) : ℤ)

instance (i : ℕ) : Decidable (wf.triggerAt i) := inferInstanceAs (Decidable (_ = _))

/-- What a writer is told about a sample. -/
def recordAt (i : ℕ) : SampleRecord where
  samplePosition := i
  windowIndex := i / wf.windowSize
  sampleInWindowIndex := i % wf.windowSize
  isTrigger := wf.triggerAt i
  probeBinaryReversedValues := probes.map fun p => (wf.probeBits p i).map Bits.bitChar
  isLastSample := i + 1 = wf.sampleCount
  isGap := wf.gapAt i

/-- Before the characters are known to be those of the documented bits. -/
def rawRecordAt (i : ℕ) : SampleRecord :=
  { recordAt wf probes i with
    probeBinaryReversedValues := getSampleBinaryValues wf.width probes
      (Py.segment wf.data (i * wf.stride) (i * wf.stride + wf.stride)) }

/-- All slices of the probes lie inside the sample width. -/
def ProbesInside : Prop := ∀ p ∈ probes, ∀ br ∈ p.mapRange, br.index + br.length ≤ wf.width

variable {wf probes}

/-! ### One sample -/

theorem getSampleBinaryValues_eq (hwf : wf.Framed) (hin : ProbesInside wf probes) (i : ℕ) :
    getSampleBinaryValues wf.width probes
        (Py.segment wf.data (i * wf.stride) (i * wf.stride + wf.stride)) =
      probes.map fun p => (wf.probeBits p i).map Bits.bitChar := by
  refine List.map_congr_left fun p hp => ?_
  rw [probeBits, List.map_flatMap]
  refine List.flatMap_congr fun br hbr => ?_
  have hbr := hin p hp br hbr
  rw [Bits.segment_reverse_formatBin _ hbr, List.map_map]
  refine List.map_congr_left fun j hj => ?_
  have hj : br.index + j < 8 * wf.stride := by
    have := List.mem_range.mp hj
    have := hwf.width_le
    omega
  rw [Bits.testBit_fromBytes, Bits.bit_segment _ hj, ← getBitValue_eq_bit]
  rfl

/-- The gap bit is read from the last byte of the sample. -/
theorem sampleIsGap_eq (hwf : wf.Framed) {i : ℕ} (hi : i < wf.sampleCount) :
    wf.sampleIsGap (i * wf.stride + wf.stride) = .ok (wf.gapAt i) := by
  have hlen := hwf.sample_le hi
  have hgap := hwf.gap
  rw [sampleIsGap, gapAt]
  cases hg : wf.gapIndex with
  | none => rfl
  | some g =>
    by_cases h0 : g = 0
    · simp [h0]
    · have hg8 := hgap g hg h0
      have hlast : i * wf.stride + g / 8 < wf.data.length := by
        rw [Nat.add_mul, Nat.one_mul] at hlen
        omega
      have hidx : ((i * wf.stride + wf.stride : ℕ) : ℤ) - 1 = ((i * wf.stride + g / 8 : ℕ) : ℤ) := by
        omega
      have hmask : g &&& 0x7 = g % 8 := Nat.and_two_pow_sub_one_eq_mod g 3
      rw [Option.getD_some, if_neg h0, hidx, Py.index_natCast (List.getElem?_eq_getElem hlast)]
      simp only [Except.map, isGap, getBitValue, hmask]
      rw [List.getD_eq_getElem _ _ hlast]

theorem rawRecordAt_eq (hwf : wf.Framed) (hin : ProbesInside wf probes) (i : ℕ) :
    rawRecordAt wf probes i = recordAt wf probes i := by
  rw [rawRecordAt, getSampleBinaryValues_eq hwf hin]
  rfl

theorem sampleRecord_eq (hwf : wf.Framed) {i : ℕ} (hi : i < wf.sampleCount) {t : ℤ}
    (ht : wf.triggerPosition[i / wf.windowSize]? = some t) :
    sampleRecord wf probes wf.stride (i / wf.windowSize) t i = .ok (rawRecordAt wf probes i) := by
  have hmod : i - i / wf.windowSize * wf.windowSize = i % wf.windowSize := by
    have := Nat.div_add_mod' i wf.windowSize
    omega
  have htrig : wf.triggerAt i ↔ ((i % wf.windowSize : ℕ) : ℤ) = t := by
    rw [triggerAt, ht, Option.some_inj]
    exact eq_comm
  simp only [sampleRecord, sampleIsGap_eq hwf hi, Py.ok_bind, hmod, rawRecordAt, recordAt, htrig]
  rfl

/-! ### The loops -/

theorem exportWindow_eq (hwf : wf.Framed) {v : ℕ} {t : ℤ}
    (ht : wf.triggerPosition[v]? = some t) : ∀ (n : ℕ) (s : σ) (i : ℕ), v * wf.windowSize ≤ i →
      i + n ≤ (v + 1) * wf.windowSize →
      exportWindow wf probes write wf.stride v t s i n =
        ((List.range' i n).filter (· < wf.sampleCount)).foldlM
          (fun s i => write s (rawRecordAt wf probes i)) s
  | 0, s, i, _, _ => rfl
  | n + 1, s, i, hlo, hhi => by
    rw [exportWindow, List.range'_succ]
    by_cases hi : i < wf.sampleCount
    · have hv : i / wf.windowSize = v :=
        Nat.div_eq_of_lt_le hlo (by omega)
      rw [if_neg (by omega), List.filter_cons_of_pos (by simpa using hi), List.foldlM_cons]
      subst hv
      rw [sampleRecord_eq hwf hi ht, Py.ok_bind]
      refine bind_congr fun s => ?_
      exact exportWindow_eq hwf ht n s (i + 1) (by omega) (by omega)
    · have hnone : (i :: List.range' (i + 1) n).filter (· < wf.sampleCount) = [] := by
        rw [List.filter_eq_nil_iff]
        intro j hj
        rcases List.mem_cons.mp hj with rfl | hj
        · simpa using hi
        · have := (List.mem_range'_1.mp hj).1
          simp only [decide_eq_true_eq]
          omega
      rw [if_pos (by omega), hnone]
      rfl

/-- Samples visited in windows `v`, .., `v + n - 1`. -/
def visitedSamples (wf : ILAWaveform) (startSample sampleCount v n : ℕ) : List ℕ :=
  (List.range' v n).flatMap fun v =>
    (List.range' (v * wf.windowSize + startSample) sampleCount).filter (· < wf.sampleCount)

theorem exportWindows_eq (hwf : wf.Framed) {ss sc : ℕ}
    (hsc : ss + sc ≤ wf.windowSize) : ∀ (n : ℕ) (s : σ) (v : ℕ),
      v + n ≤ wf.triggerPosition.length →
      exportWindows wf probes write wf.stride ss sc s v n =
        (visitedSamples wf ss sc v n).foldlM (fun s i => write s (rawRecordAt wf probes i)) s
  | 0, s, v, _ => rfl
  | n + 1, s, v, hv => by
    have hlt : v < wf.triggerPosition.length := by omega
    have ht := List.getElem?_eq_getElem hlt
    have hbound : (v + 1) * wf.windowSize = v * wf.windowSize + wf.windowSize := Nat.succ_mul _ _
    rw [exportWindows, Py.index_natCast ht, Py.ok_bind,
      exportWindow_eq write hwf ht sc s _ (Nat.le_add_right _ _) (by omega), visitedSamples,
      List.range'_succ, List.flatMap_cons, List.foldlM_append]
    exact bind_congr fun s => exportWindows_eq hwf hsc n s (v + 1) (by omega)

theorem mem_visitedSamples {ss sc v n i : ℕ} (hsc : ss + sc ≤ wf.windowSize) :
    i ∈ visitedSamples wf ss sc v n ↔ i < wf.sampleCount ∧ v ≤ i / wf.windowSize ∧
      i / wf.windowSize < v + n ∧ ss ≤ i % wf.windowSize ∧ i % wf.windowSize < ss + sc := by
  have hdm := Nat.div_add_mod' i wf.windowSize
  simp only [visitedSamples, List.mem_flatMap, List.mem_filter, List.mem_range'_1, decide_eq_true_eq]
  constructor
  · rintro ⟨u, ⟨hu, hun⟩, ⟨hlo, hhi⟩, hi⟩
    have hdiv : i / wf.windowSize = u := Nat.div_eq_of_lt_le (by omega) (by rw [Nat.add_mul]; omega)
    subst hdiv
    omega
  · rintro ⟨hi, hv, hvn, hlo, hhi⟩
    exact ⟨i / wf.windowSize, ⟨hv, hvn⟩, ⟨by omega, by omega⟩, hi⟩

/-- The loops visit the samples of the range in increasing order. -/
theorem visitedSamples_eq (r : SampleRange) (hsc : r.startSample + r.sampleCount ≤ wf.windowSize) :
    visitedSamples wf r.startSample r.sampleCount r.startWindow r.windowCount =
      wf.exportedSamples r := by
  have hvisited : (visitedSamples wf r.startSample r.sampleCount r.startWindow
      r.windowCount).Pairwise (· < ·) := by
    rw [visitedSamples, List.pairwise_flatMap]
    refine ⟨fun v _ => (List.pairwise_lt_range').filter _, ?_⟩
    have hwindows : (List.range' r.startWindow r.windowCount).Pairwise (· < ·) :=
      List.pairwise_lt_range'
    refine hwindows.imp fun {u v} huv i hi j hj => ?_
    have hi := List.mem_range'_1.mp (List.mem_of_mem_filter hi)
    have hj := List.mem_range'_1.mp (List.mem_of_mem_filter hj)
    have hrow : (u + 1) * wf.windowSize ≤ v * wf.windowSize := Nat.mul_le_mul_right _ huv
    rw [Nat.add_mul] at hrow
    omega
  refine hvisited.eq_of_mem_iff (List.pairwise_lt_range.filter _) fun i => ?_
  rw [mem_visitedSamples hsc, exportedSamples, List.mem_filter, List.mem_range, decide_eq_true_eq]

/-! ### The whole export -/

theorem checkRange_ok {caller : String} {sw ss : ℤ} {wc sc : Option ℤ} {r : SampleRange}
    (h : wf.checkRange caller sw wc ss sc = .ok r) : 0 < wf.windowSize ∧ 1 ≤ r.windowCount ∧
      r.startWindow + r.windowCount ≤ wf.maxWindowCount ∧ 1 ≤ r.sampleCount ∧
      r.startSample + r.sampleCount ≤ wf.windowSize := by
  simp only [checkRange] at h
  split_ifs at h with h0 h1 h2 h3 h4
  cases h
  simp only
  omega

/-- A waveform without samples has no range. -/
theorem sampleCount_pos_of_checkRange {caller : String} {sw ss : ℤ} {wc sc : Option ℤ}
    {r : SampleRange} (h : wf.checkRange caller sw wc ss sc = .ok r) : 0 < wf.sampleCount := by
  obtain ⟨hpos, hwc, hmax, -⟩ := checkRange_ok h
  by_contra h0
  have hzero : wf.maxWindowCount = 0 := by
    rw [maxWindowCount, Nat.div_eq_zero_iff]
    omega
  omega

/-- On a range that passes the checks, the writer is handed the exported samples in order. -/
theorem exportWaveform_eq_raw (hwf : wf.Framed) (init : σ) {sw ss : ℤ} {wc sc : Option ℤ}
    {caller : String} {r : SampleRange} (hr : wf.checkRange caller sw wc ss sc = .ok r) :
    exportWaveform wf probes write init sw wc ss sc caller =
      (wf.exportedSamples r).foldlM (fun s i => write s (rawRecordAt wf probes i)) init := by
  obtain ⟨hpos, hwc, hmax, -, hsc⟩ := checkRange_ok hr
  have hcount := sampleCount_pos_of_checkRange hr
  have hmaxle : wf.maxWindowCount ≤ wf.triggerPosition.length := by
    rw [maxWindowCount, Nat.div_le_iff_le_mul_add_pred hpos, Nat.mul_comm]
    have := hwf.sampleCount_le
    omega
  rw [exportWaveform, hr, hwf.bytesPerSample_eq hcount, ← visitedSamples_eq r hsc]
  exact exportWindows_eq write hwf hsc _ init _ (by omega)

theorem exportWaveform_eq (hwf : wf.Framed) (hin : ProbesInside wf probes) (init : σ) {sw ss : ℤ}
    {wc sc : Option ℤ} {caller : String} {r : SampleRange}
    (hr : wf.checkRange caller sw wc ss sc = .ok r) :
    exportWaveform wf probes write init sw wc ss sc caller =
      (wf.exportedSamples r).foldlM (fun s i => write s (recordAt wf probes i)) init := by
  rw [exportWaveform_eq_raw write hwf init hr]
  simp only [rawRecordAt_eq hwf hin]

end ILAWaveform

end Chipscopy.Waveform
