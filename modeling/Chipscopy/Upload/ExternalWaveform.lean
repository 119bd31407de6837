import Chipscopy.Upload.ExternalDecode
import Chipscopy.Waveform.Data

/-! The waveform of an upload from external memory

    Nothing in a waveform tells how many bytes a sample has: they are counted again from the length
    of the buffer and the size of its windows. The decoder returns only the samples that were
    captured, so a window that is not full makes the count too small. -/

namespace Chipscopy.Upload

open Waveform

/-- What the core's status tells of a capture. -/
structure CaptureStatus where
  isFull : Bool
  windowsCaptured : ℕ
  samplesCaptured : ℕ
  deriving DecidableEq, Repr

def calculateTraceInfoCaptured (info : TraceInfo) (status : CaptureStatus) :
    Except Py.Error TraceInfo :=
  if status.isFull then .ok info
  else if info.windowSize = 0 then .error .zeroDivisionError
  else
    let lastWindowSampleCount := status.samplesCaptured % info.windowSize
    if lastWindowSampleCount > info.triggerPosition then
      -- the last window has its trigger
      .ok { info with
        windowCount := status.windowsCaptured + 1
        partialWindowSampleCount := lastWindowSampleCount }
    else
      .ok { info with windowCount := status.windowsCaptured, partialWindowSampleCount := 0 }

/-- Bytes of one sample and of all samples, full windows of them. -/
def calculateRawDataUploadByteCount (info : TraceInfo) (alignBitCount : ℕ) : ℕ × ℕ :=
  let alignByteCount := alignBitCount / 8
  let oneSampleByteCount :=
    alignByteCount * ((info.dataWidth + 1 + alignBitCount - 1) / alignBitCount)
  (oneSampleByteCount, oneSampleByteCount * info.windowSize * info.windowCount)

/-- The property group `trigger_info`. -/
structure TriggerInfo where
  triggerValid : Bool
  triggerSample : List UInt8
  lastGapCountValid : Bool
  lastGapCount : ℕ
  deriving DecidableEq, Repr

/-- What an upload reads: the core, its trace block and the memory. -/
structure ExternalCapture where
  dataWidth : ℕ
  triggerPosReadback : ℕ
  windowCountReadback : ℕ
  windowDepthReadback : ℕ
  status : CaptureStatus
  lastGapCount : ℕ
  lastRecordAddress : ℤ
  triggerInfo : TriggerInfo
  address : ℕ
  memory : ℕ → UInt8
  probes : Py.Dict String ILAWaveformProbe

/-- The windows that were captured. -/
def ExternalCapture.traceInfo (c : ExternalCapture) : Except Py.Error TraceInfo :=
  calculateTraceInfoCaptured
    { dataWidth := c.dataWidth
      triggerPosition := c.triggerPosReadback
      windowCount := c.windowCountReadback
      windowSize := c.windowDepthReadback }
    c.status

def readExternalData (memory : ℕ → UInt8) (addr byteCount : ℕ) : List UInt8 :=
  (List.range byteCount).map fun k => memory (addr + k)

/-- The waveform of the captured windows. -/
def externalWaveform (c : ExternalCapture) (info : TraceInfo) : Except Py.Error ILAWaveform := do
  let (_, waveDataByteCount) :=
    calculateRawDataUploadByteCount info externalTraceDataAlignmentBitCount
  let data := readExternalData c.memory c.address waveDataByteCount
  let gapAtEndSampleCount :=
    if c.triggerInfo.lastGapCountValid then c.lastGapCount + c.triggerInfo.lastGapCount
    else c.lastGapCount
  let beyondLastRecordAddress := c.lastRecordAddress - c.address
  let (trace, hasGaps) ←
    decodeExternalData data info [beyondLastRecordAddress] [gapAtEndSampleCount]
  let fullWindowCount :=
    if info.partialWindowSampleCount ≠ 0 then info.windowCount - 1 else info.windowCount
  return {
    data := trace
    width := info.dataWidth
    sampleCount := info.windowSize * fullWindowCount + info.partialWindowSampleCount
    triggerPosition := List.replicate info.windowCount (info.triggerPosition : ℤ)
    windowSize := info.windowSize
    probes := c.probes
    gapIndex := if hasGaps then some info.dataWidth else none }

/-- `upload_external_waveform`: no waveform when no window was captured. -/
def uploadExternalWaveform (c : ExternalCapture) : Except Py.Error (Option ILAWaveform) := do
  let info ← c.traceInfo
  if info.windowCount = 0 then return none
  else
    let waveform ← externalWaveform c info
    if c.triggerInfo.triggerValid then
      return some (← waveform.setSample info.triggerPosition c.triggerInfo.triggerSample)
    else return some waveform

/-! ### The length of what the decoder returns -/

section Length

variable {info : TraceInfo} {dw : DataWindow}

theorem length_assign {data data' new : List UInt8} {a b : ℤ}
    (h : dw.assign data a b new = .ok data') : data'.length = data.length := by
  have hsize : (dw.data data).length = min (dw.addr + dw.size) data.length - dw.addr :=
    Py.length_segment _ _ _
  have hindex : ∀ i : ℤ, Py.sliceIndex (dw.data data).length i ≤ (dw.data data).length := by
    intro i
    rw [Py.sliceIndex]
    split <;> omega
  have ha := hindex a
  have hb := hindex b
  rw [DataWindow.assign] at h
  split at h
  · next hnew =>
    cases h
    simp only [Py.setSegment, List.length_append, List.length_take, List.length_drop, hnew]
    omega
  · cases h

theorem length_unrollExternalWindow {data data' : List UInt8}
    (h : unrollExternalWindow data dw = .ok data') : data'.length = data.length := by
  rw [unrollExternalWindow] at h
  split at h
  · cases h
    rfl
  · simp only at h
    split at h
    · next hlen =>
      cases h
      exact hlen
    · cases h

theorem length_expandSegment {x x' : Expansion} {seg : DataSegment}
    (h : expandSegment info dw x seg = .ok x') : x'.data.length = x.data.length := by
  rw [expandSegment] at h
  split at h
  · obtain ⟨data, hassign, hreturn⟩ := Py.bind_eq_ok h
    cases hreturn
    exact length_assign hassign
  · split at h
    · obtain ⟨data, hassign, hreturn⟩ := Py.bind_eq_ok h
      cases hreturn
      exact length_assign hassign
    · cases h

/-- Decoding a window rearranges the buffer. -/
theorem length_decodeWindow {state state' : List UInt8 × Bool}
    (h : decodeWindow info state dw = .ok state') : state'.1.length = state.1.length := by
  obtain ⟨data, hunroll, h⟩ := Py.bind_eq_ok h
  obtain ⟨segs, -, h⟩ := Py.bind_eq_ok h
  obtain ⟨x, hexpand, hreturn⟩ := Py.bind_eq_ok h
  cases hreturn
  exact Py.foldlM_invariant (P := fun x => x.data.length = state.1.length)
    (fun s seg s' _ hs hstep => (length_expandSegment hstep).trans hs)
    (length_unrollExternalWindow hunroll) hexpand

theorem length_removeSampleHighBytes {data : List UInt8} {n total : ℕ}
    (hdata : data.length = n * inSampleByteSize info) (htotal : total ≤ n) :
    (removeSampleHighBytes info data total).length =
      if outSampleByteSize info = inSampleByteSize info then n * inSampleByteSize info
      else total * outSampleByteSize info := by
  have hm := inSampleByteSize_pos info
  have hle := outSampleByteSize_le info
  rw [removeSampleHighBytes]
  split
  · exact hdata
  · have hcount : ((Records.addresses 0 data.length (inSampleByteSize info)).take total).length =
        total := by
      rw [Records.addresses_eq hm hdata, List.length_take, List.length_range']
      omega
    have hfrom : ∀ a ∈ (Records.addresses 0 data.length (inSampleByteSize info)).take total,
        a + outSampleByteSize info ≤ data.length := by
      intro a ha
      rw [Records.addresses_eq hm hdata] at ha
      obtain ⟨i, hi, rfl⟩ := List.mem_range'.mp (List.mem_of_mem_take ha)
      have hrow : (i + 1) * inSampleByteSize info ≤ n * inSampleByteSize info :=
        Nat.mul_le_mul_right _ hi
      rw [Nat.succ_mul] at hrow
      rw [hdata, Nat.zero_add, Nat.mul_comm]
      omega
    have hto : 0 + ((Records.addresses 0 data.length (inSampleByteSize info)).take total).length *
        outSampleByteSize info ≤ data.length := by
      rw [hcount, hdata, Nat.zero_add]
      exact Nat.mul_le_mul htotal hle
    simp only
    rw [List.length_take, Records.length_moveDown hfrom hto, Records.moveDown_snd, hcount]
    rw [hcount] at hto
    omega

/-- A decoder that is told of one window decodes one window. -/
theorem dataWindows_ok {size : ℕ} {beyond : ℤ} {lastGapCount count : ℕ} {windows : List DataWindow}
    (h : dataWindows info size [beyond] [lastGapCount] = .ok windows)
    (hsize : size = inSampleByteSize info * info.windowSize * count) :
    0 < info.windowSize ∧ count ≤ 1 ∧
      windows.map (·.sampleCount) = (List.range count).map (samplesInWindow info) := by
  rw [dataWindows] at h
  simp only at h
  split at h
  · cases h
  · next hbytes =>
    have hpos : 0 < inSampleByteSize info * info.windowSize := Nat.pos_of_ne_zero hbytes
    have hws : 0 < info.windowSize := Nat.pos_of_mul_pos_left hpos
    have hcount : (size + inSampleByteSize info * info.windowSize - 1) /
        (inSampleByteSize info * info.windowSize) = count := by
      rw [hsize, Nat.add_sub_assoc hpos, Nat.mul_add_div hpos, Nat.div_eq_of_lt (by omega),
        Nat.add_zero]
    rw [hcount] at h
    have hall := Py.forall₂_of_mapExcept_ok h
    rw [List.forall₂_map_left_iff] at hall
    have hwindows : List.Forall₂
        (fun i (window : DataWindow) => i = 0 ∧ window.sampleCount = samplesInWindow info i)
        (List.range count) windows := by
      refine hall.imp fun i window hwindow => ?_
      obtain ⟨address, haddress, hwindow⟩ := Py.bind_eq_ok hwindow
      obtain ⟨gap, -, hreturn⟩ := Py.bind_eq_ok hwindow
      cases hreturn
      refine ⟨?_, rfl⟩
      by_contra hi
      rw [Py.index, if_pos (Or.inl (Int.natCast_nonneg i)), if_neg (by omega), Int.toNat_natCast,
        List.getElem?_eq_none (Nat.pos_of_ne_zero hi)] at haddress
      cases haddress
    refine ⟨hws, ?_, ?_⟩
    · by_contra hlarge
      have hmem : (List.range count)[1]? = some 1 := List.getElem?_range (by omega)
      obtain ⟨window, -, hzero, -⟩ := Py.forall₂_getElem? hwindows hmem
      cases hzero
    · have heq : List.Forall₂ (· = ·) (windows.map (·.sampleCount))
          ((List.range count).map (samplesInWindow info)) := by
        rw [List.forall₂_map_left_iff, List.forall₂_map_right_iff]
        exact hwindows.flip.imp fun window i hwindow => hwindow.2
      rwa [List.forall₂_eq_eq_eq] at heq

theorem length_readExternalData (memory : ℕ → UInt8) (addr byteCount : ℕ) :
    (readExternalData memory addr byteCount).length = byteCount := by
  rw [readExternalData, List.length_map, List.length_range]

theorem samplesInWindow_le (hshort : info.partialWindowSampleCount ≤ info.windowSize) (i : ℕ) :
    samplesInWindow info i ≤ info.windowSize := by
  rw [samplesInWindow]
  split
  · exact hshort
  · exact le_rfl

/-- A buffer for all windows can only be decoded when there is one. -/
theorem decodeExternalData_ok {data trace : List UInt8} {beyond : ℤ} {gap : ℕ} {hasGap : Bool}
    (h : decodeExternalData data info [beyond] [gap] = .ok (trace, hasGap))
    (hdata : data.length = inSampleByteSize info * info.windowSize * info.windowCount)
    (hcount : info.windowCount ≠ 0)
    (hshort : info.partialWindowSampleCount ≤ info.windowSize) :
    0 < info.windowSize ∧ info.windowCount = 1 ∧
      trace.length = if outSampleByteSize info = inSampleByteSize info
        then info.windowSize * inSampleByteSize info
        else samplesInWindow info 0 * outSampleByteSize info := by
  obtain ⟨windows, hwindows, h⟩ := Py.bind_eq_ok h
  obtain ⟨⟨data', hasGap'⟩, hdecode, hreturn⟩ := Py.bind_eq_ok h
  cases hreturn
  obtain ⟨hws, hone, hsamples⟩ := dataWindows_ok hwindows hdata
  have hcount : info.windowCount = 1 := by omega
  have hlen : data'.length = info.windowSize * inSampleByteSize info := by
    have hsame : data'.length = data.length :=
      Py.foldlM_invariant (P := fun s : List UInt8 × Bool => s.1.length = data.length)
        (fun s dw s' _ hs hstep => (length_decodeWindow hstep).trans hs) rfl hdecode
    rw [hsame, hdata, hcount, Nat.mul_one, Nat.mul_comm]
  have htotal : (windows.map (·.sampleCount)).sum = samplesInWindow info 0 := by
    rw [hsamples, hcount]
    exact Nat.add_zero _
  have hle := samplesInWindow_le hshort 0
  refine ⟨hws, hcount, ?_⟩
  rw [htotal]
  exact length_removeSampleHighBytes hlen hle

end Length

/-! ### Counting the bytes of a sample again -/

/-- The bytes of sample `i` are those that the decoder wrote for it, for all samples. -/
def FramedAs (info : TraceInfo) (wf : ILAWaveform) : Prop :=
  wf.bytesPerSample = .ok (outSampleByteSize info) ∧
    ∀ i < wf.sampleCount, (i + 1) * outSampleByteSize info ≤ wf.data.length

section Framing

variable {c : ExternalCapture} {info : TraceInfo} {wf wf' : ILAWaveform}

/-- A partial window is kept only when its trigger was captured. -/
theorem traceInfo_partial (h : c.traceInfo = .ok info) : info.partialWindowSampleCount = 0 ∨
    info.triggerPosition < info.partialWindowSampleCount ∧
      info.partialWindowSampleCount < info.windowSize := by
  rw [ExternalCapture.traceInfo, calculateTraceInfoCaptured] at h
  split at h
  · cases h
    exact Or.inl rfl
  · split at h
    · cases h
    · next hws =>
      simp only at h
      split at h
      · next htrigger =>
        cases h
        exact Or.inr ⟨htrigger, Nat.mod_lt _ (Nat.pos_of_ne_zero hws)⟩
      · cases h
        exact Or.inl rfl

/-- What a waveform from external memory looks like. -/
structure ExternalFrame (info : TraceInfo) (wf : ILAWaveform) : Prop where
  windowSize_pos : 0 < info.windowSize
  one : info.windowCount = 1
  windowSize_eq : wf.windowSize = info.windowSize
  windowCount : wf.triggerPosition.length = 1
  sampleCount : wf.sampleCount = samplesInWindow info 0
  length : wf.data.length = if outSampleByteSize info = inSampleByteSize info
    then info.windowSize * inSampleByteSize info
    else samplesInWindow info 0 * outSampleByteSize info

theorem externalFrame (hinfo : c.traceInfo = .ok info) (hcount : info.windowCount ≠ 0)
    (h : externalWaveform c info = .ok wf) : ExternalFrame info wf := by
  obtain ⟨⟨trace, hasGap⟩, hdecode, hreturn⟩ := Py.bind_eq_ok h
  cases hreturn
  have hshort := traceInfo_partial hinfo
  have hdata : (readExternalData c.memory c.address
      (calculateRawDataUploadByteCount info externalTraceDataAlignmentBitCount).2).length =
        inSampleByteSize info * info.windowSize * info.windowCount := by
    rw [length_readExternalData, calculateRawDataUploadByteCount, inSampleByteSize, Nat.mul_comm
      (externalTraceDataAlignmentBitCount / 8)]
  obtain ⟨hws, hone, hlength⟩ := decodeExternalData_ok hdecode hdata hcount (by omega)
  refine ⟨hws, hone, rfl, ?_, ?_, hlength⟩
  · rw [List.length_replicate, hone]
  · have hindex : ((0 : ℕ) : ℤ) = (info.windowCount : ℤ) - 1 := by
      rw [hone]
      rfl
    simp only [samplesInWindow, hone]
    split <;> simp_all

theorem ExternalFrame.bytesPerSample_eq (h : ExternalFrame info wf) :
    wf.bytesPerSample = .ok (wf.data.length / info.windowSize) := by
  rw [ILAWaveform.bytesPerSample, if_neg (by rw [h.windowCount]; exact one_ne_zero),
    if_neg (by rw [h.windowSize_eq]; exact h.windowSize_pos.ne'), ILAWaveform.stride, h.windowCount,
    h.windowSize_eq, Nat.one_mul]

theorem outSampleByteSize_pos (info : TraceInfo) : 0 < outSampleByteSize info := by
  rw [outSampleByteSize]
  omega

theorem ExternalFrame.samplesInWindow_eq (h : ExternalFrame info wf) : samplesInWindow info 0 =
    if info.partialWindowSampleCount = 0 then info.windowSize else info.partialWindowSampleCount := by
  rw [samplesInWindow, h.one]
  split <;> simp_all

/-- A partial window makes the count of bytes too small. -/
theorem ExternalFrame.length_div_eq_iff (h : ExternalFrame info wf)
    (hshort : info.partialWindowSampleCount = 0 ∨
      info.partialWindowSampleCount < info.windowSize) :
    wf.data.length / info.windowSize = outSampleByteSize info ↔
      info.partialWindowSampleCount = 0 ∨ outSampleByteSize info = inSampleByteSize info := by
  have hout := outSampleByteSize_pos info
  rw [h.length, h.samplesInWindow_eq]
  by_cases hsame : outSampleByteSize info = inSampleByteSize info
  · rw [if_pos hsame, Nat.mul_div_cancel_left _ h.windowSize_pos]
    exact ⟨fun _ => Or.inr hsame, fun _ => hsame.symm⟩
  · rw [if_neg hsame]
    by_cases hfull : info.partialWindowSampleCount = 0
    · rw [if_pos hfull, Nat.mul_div_cancel_left _ h.windowSize_pos]
      exact ⟨fun _ => Or.inl hfull, fun _ => rfl⟩
    · rw [if_neg hfull]
      have hless : info.partialWindowSampleCount * outSampleByteSize info / info.windowSize <
          outSampleByteSize info :=
        (Nat.div_lt_iff_lt_mul h.windowSize_pos).mpr (by
          rw [Nat.mul_comm (outSampleByteSize info)]
          exact Nat.mul_lt_mul_of_pos_right (hshort.resolve_left hfull) hout)
      exact ⟨fun heq => absurd heq hless.ne, fun hcond => absurd hcond (not_or.mpr ⟨hfull, hsame⟩)⟩

/-- All samples lie in the buffer, which may have grown. -/
theorem ExternalFrame.sample_le (h : ExternalFrame info wf)
    (hshort : info.partialWindowSampleCount ≤ info.windowSize) {i : ℕ} (hi : i < wf.sampleCount) :
    (i + 1) * outSampleByteSize info ≤ wf.data.length := by
  rw [h.sampleCount] at hi
  rw [h.length]
  split
  · next hsame =>
    rw [hsame]
    exact Nat.mul_le_mul_right _ (Nat.le_trans hi (samplesInWindow_le hshort 0))
  · exact Nat.mul_le_mul_right _ hi

/-- Setting a sample keeps all but the buffer. -/
theorem setSample_ok {i : ℕ} {sample : List UInt8} {b : ℕ} (hb : wf.bytesPerSample = .ok b)
    (h : wf.setSample i sample = .ok wf') :
    wf'.windowSize = wf.windowSize ∧ wf'.triggerPosition = wf.triggerPosition ∧
      wf'.sampleCount = wf.sampleCount ∧ wf'.data.length =
        if b * i + min b sample.length ≤ wf.data.length then wf.data.length
        else min (b * i) wf.data.length + min b sample.length := by
  have hlen : (Py.setSlice wf.data (b * i : ℕ) (b * i + min b sample.length : ℕ)
      (sample.take (min b sample.length))).length =
        if b * i + min b sample.length ≤ wf.data.length then wf.data.length
        else min (b * i) wf.data.length + min b sample.length := by
    rw [Py.length_setSlice, Py.sliceIndex_natCast_eq_min, Py.sliceIndex_natCast_eq_min,
      List.length_take]
    split <;> omega
  rw [ILAWaveform.setSample, hb, Py.ok_bind] at h
  split at h
  · cases h
    exact ⟨rfl, rfl, rfl, hlen⟩
  · obtain ⟨byte, -, hreturn⟩ := Py.bind_eq_ok h
    cases hreturn
    exact ⟨rfl, rfl, rfl, (List.length_set ..).trans hlen⟩

/-- The trigger sample is written inside the buffer, unless the trigger is outside its window. -/
theorem ExternalFrame.setSample_div_eq_iff (h : ExternalFrame info wf) {sample : List UInt8}
    (hshort : info.partialWindowSampleCount = 0 ∨
      info.triggerPosition < info.partialWindowSampleCount ∧
        info.partialWindowSampleCount < info.windowSize)
    (hset : wf.setSample info.triggerPosition sample = .ok wf') :
    wf'.data.length / info.windowSize = outSampleByteSize info ↔
      (info.partialWindowSampleCount = 0 ∨ outSampleByteSize info = inSampleByteSize info) ∧
        (info.triggerPosition < info.windowSize ∨
          min (outSampleByteSize info) sample.length < info.windowSize) := by
  obtain ⟨-, -, -, hlength⟩ := setSample_ok h.bytesPerSample_eq hset
  have hiff := h.length_div_eq_iff (hshort.imp_right And.right)
  rcases Nat.lt_or_ge info.triggerPosition info.windowSize with hin | hbeyond
  · have hroom : wf.data.length / info.windowSize * info.triggerPosition +
        min (wf.data.length / info.windowSize) sample.length ≤ wf.data.length :=
      calc wf.data.length / info.windowSize * info.triggerPosition +
            min (wf.data.length / info.windowSize) sample.length
          ≤ wf.data.length / info.windowSize * (info.triggerPosition + 1) := by
            rw [Nat.mul_succ]
            exact Nat.add_le_add_left (Nat.min_le_left _ _) _
        _ ≤ wf.data.length / info.windowSize * info.windowSize := Nat.mul_le_mul_left _ hin
        _ ≤ wf.data.length := Nat.div_mul_le_self _ _
    rw [hlength, if_pos hroom, hiff]
    exact ⟨fun hcond => ⟨hcond, Or.inl hin⟩, And.left⟩
  · have hfull : info.partialWindowSampleCount = 0 := by
      rcases hshort with hfull | ⟨htrigger, hless⟩
      · exact hfull
      · omega
    have hstride : wf.data.length / info.windowSize = outSampleByteSize info :=
      hiff.mpr (Or.inl hfull)
    have hsize : wf.data.length = info.windowSize * outSampleByteSize info := by
      rw [h.length, h.samplesInWindow_eq, if_pos hfull]
      split
      · next hsame => rw [hsame]
      · rfl
    have hafter : info.windowSize * outSampleByteSize info ≤
        outSampleByteSize info * info.triggerPosition := by
      rw [Nat.mul_comm]
      exact Nat.mul_le_mul_left _ hbeyond
    have hgrown : wf'.data.length = info.windowSize * outSampleByteSize info +
        min (outSampleByteSize info) sample.length := by
      rw [hlength, hstride, hsize]
      split <;> omega
    rw [hgrown, Nat.mul_add_div h.windowSize_pos]
    constructor
    · intro heq
      exact ⟨Or.inl hfull, Or.inr (Nat.lt_of_div_eq_zero h.windowSize_pos (by omega))⟩
    · rintro ⟨-, hin | hshort⟩
      · omega
      · rw [Nat.div_eq_of_lt hshort, Nat.add_zero]

/-- With the samples in the buffer, the framing is a matter of the count of bytes. -/
theorem framedAs_iff (hpos : 0 < info.windowSize) (hsize : wf.windowSize = info.windowSize)
    (hone : wf.triggerPosition.length = 1)
    (hsamples : ∀ i < wf.sampleCount, (i + 1) * outSampleByteSize info ≤ wf.data.length) :
    FramedAs info wf ↔ wf.data.length / info.windowSize = outSampleByteSize info := by
  have hbytes : wf.bytesPerSample = .ok (wf.data.length / info.windowSize) := by
    rw [ILAWaveform.bytesPerSample, if_neg (by rw [hone]; exact one_ne_zero),
      if_neg (by rw [hsize]; exact hpos.ne'), ILAWaveform.stride, hone, hsize, Nat.one_mul]
  rw [FramedAs, hbytes, Except.ok.injEq]
  exact and_iff_left hsamples

theorem ExternalFrame.framedAs_iff (h : ExternalFrame info wf)
    (hshort : info.partialWindowSampleCount = 0 ∨
      info.partialWindowSampleCount < info.windowSize) :
    FramedAs info wf ↔ info.partialWindowSampleCount = 0 ∨
      outSampleByteSize info = inSampleByteSize info := by
  have hsamples : ∀ i < wf.sampleCount, (i + 1) * outSampleByteSize info ≤ wf.data.length :=
    fun i hi => h.sample_le (by omega) hi
  rw [Upload.framedAs_iff h.windowSize_pos h.windowSize_eq h.windowCount hsamples]
  exact h.length_div_eq_iff hshort

/-- The waveform has the framing of the decoder when no partial window is kept, or when the samples
    fill their records, as long as the trigger sample stays in the buffer. -/
theorem uploadExternalWaveform_framedAs_iff (hinfo : c.traceInfo = .ok info)
    (hcount : info.windowCount ≠ 0) (h : externalWaveform c info = .ok wf) :
    (FramedAs info wf ↔ info.partialWindowSampleCount = 0 ∨
      outSampleByteSize info = inSampleByteSize info) ∧
    ∀ wf', uploadExternalWaveform c = .ok (some wf') →
      (FramedAs info wf' ↔
        (info.partialWindowSampleCount = 0 ∨ outSampleByteSize info = inSampleByteSize info) ∧
        (c.triggerInfo.triggerValid → info.triggerPosition < info.windowSize ∨
          min (outSampleByteSize info) c.triggerInfo.triggerSample.length < info.windowSize)) := by
  have hframe := externalFrame hinfo hcount h
  have hshort := traceInfo_partial hinfo
  have hbuilt := hframe.framedAs_iff (hshort.imp_right And.right)
  refine ⟨hbuilt, fun wf' hupload => ?_⟩
  rw [uploadExternalWaveform, hinfo, Py.ok_bind, if_neg hcount, h, Py.ok_bind] at hupload
  cases hvalid : c.triggerInfo.triggerValid with
  | false =>
    rw [hvalid, if_neg Bool.false_ne_true] at hupload
    cases hupload
    rw [hbuilt]
    exact ⟨fun hcond => ⟨hcond, fun htrigger => absurd htrigger Bool.false_ne_true⟩, And.left⟩
  | true =>
    rw [hvalid, if_pos rfl] at hupload
    obtain ⟨wf'', hset, hreturn⟩ := Py.bind_eq_ok hupload
    cases hreturn
    obtain ⟨hsize, htrigger, hsampleCount, hlength⟩ := setSample_ok hframe.bytesPerSample_eq hset
    have hgrown : wf.data.length ≤ wf'.data.length := by
      rw [hlength]
      generalize wf.data.length / info.windowSize = b
      split <;> omega
    have hsamples : ∀ i < wf'.sampleCount,
        (i + 1) * outSampleByteSize info ≤ wf'.data.length := fun i hi =>
      (hframe.sample_le (by omega) (hsampleCount ▸ hi)).trans hgrown
    rw [Upload.framedAs_iff hframe.windowSize_pos (hsize.trans hframe.windowSize_eq)
      (htrigger ▸ hframe.windowCount) hsamples, hframe.setSample_div_eq_iff hshort hset]
    simp

end Framing

/-! ### A capture of zeros -/

/-- Nine bit samples in windows of 1024, all zero, and nothing missing. -/
def zeroCapture (status : CaptureStatus) : ExternalCapture where
  dataWidth := 8
  triggerPosReadback := 0
  windowCountReadback := 1
  windowDepthReadback := 1024
  status := status
  lastGapCount := 0
  lastRecordAddress := 0
  triggerInfo := ⟨false, [], false, 0⟩
  address := 0
  memory := fun _ => 0
  probes := Py.Dict.empty

/-- Its only window, or the first samples of it. -/
def zeroInfo (n : ℕ) : TraceInfo := ⟨8, 0, 1, 1024, n⟩

theorem externalWaveform_zeroCapture (status : CaptureStatus) {n : ℕ} (hn : n ≤ 1024) :
    ∃ wf, externalWaveform (zeroCapture status) (zeroInfo n) = .ok wf := by
  have hsize : 65536 = (zeroInfo n).windowSize * inSampleByteSize (zeroInfo n) := by
    simp [zeroInfo, inSampleByteSize, externalTraceDataAlignmentBitCount]
  have hcount : samplesInWindow (zeroInfo n) 0 ≤ (zeroInfo n).windowSize := samplesInWindow_le hn 0
  have henough : (zeroInfo n).windowSize ≤ (sampleStream (zeroInfo n) 0
      (recordsWritten (zeroInfo n) (List.replicate 65536 0) 0)).length :=
    samples_zeros hsize (Nat.zero_le _)
  have hdecode : decodeExternalData (List.replicate 65536 0) (zeroInfo n)
      [(0 * inSampleByteSize (zeroInfo n) : ℕ)] [0] = .ok _ :=
    decodeExternalData_words (Nat.zero_lt_succ _) (List.length_replicate.trans hsize)
      (Nat.zero_le _) hcount (gapsCounted_zeros hsize) (hcount.trans henough)
  have hdata : readExternalData (zeroCapture status).memory (zeroCapture status).address
      (calculateRawDataUploadByteCount (zeroInfo n) externalTraceDataAlignmentBitCount).2 =
        List.replicate 65536 0 := by
    have hbytes : (calculateRawDataUploadByteCount (zeroInfo n)
        externalTraceDataAlignmentBitCount).2 = 65536 := by
      simp [calculateRawDataUploadByteCount, zeroInfo, externalTraceDataAlignmentBitCount]
    have hmemory : (zeroCapture status).memory = fun _ => 0 := rfl
    rw [readExternalData, hbytes, hmemory, List.map_const', List.length_range]
  have hbeyond : (zeroCapture status).lastRecordAddress - ((zeroCapture status).address : ℤ) =
      (0 * inSampleByteSize (zeroInfo n) : ℕ) := by
    simp [zeroCapture]
  have hgap : (if (zeroCapture status).triggerInfo.lastGapCountValid = true then
      (zeroCapture status).lastGapCount + (zeroCapture status).triggerInfo.lastGapCount
      else (zeroCapture status).lastGapCount) = 0 := rfl
  cases hwf : externalWaveform (zeroCapture status) (zeroInfo n) with
  | ok wf => exact ⟨wf, rfl⟩
  | error e =>
    rw [externalWaveform] at hwf
    simp only [hdata, hbeyond, hgap, hdecode] at hwf
    cases hwf

/-- A full window has the decoder's framing. -/
theorem uploadExternalWaveform_full : ∃ wf,
    externalWaveform (zeroCapture ⟨true, 0, 0⟩) (zeroInfo 0) = .ok wf ∧ FramedAs (zeroInfo 0) wf := by
  obtain ⟨wf, hwf⟩ := externalWaveform_zeroCapture ⟨true, 0, 0⟩ (Nat.zero_le 1024)
  exact ⟨wf, hwf, (uploadExternalWaveform_framedAs_iff rfl one_ne_zero hwf).1.mpr (Or.inl rfl)⟩

/-- Of one sample in a window the waveform finds no byte. -/
theorem uploadExternalWaveform_partial : ∃ wf,
    uploadExternalWaveform (zeroCapture ⟨false, 0, 1⟩) = .ok (some wf) ∧
      wf.bytesPerSample = .ok 0 ∧ outSampleByteSize (zeroInfo 1) = 2 ∧ ¬ FramedAs (zeroInfo 1) wf := by
  have hinfo : (zeroCapture ⟨false, 0, 1⟩).traceInfo = .ok (zeroInfo 1) := rfl
  obtain ⟨wf, hwf⟩ := externalWaveform_zeroCapture ⟨false, 0, 1⟩
    (Nat.le_of_ble_eq_true rfl : 1 ≤ 1024)
  have hframe := externalFrame hinfo one_ne_zero hwf
  refine ⟨wf, ?_, ?_, rfl, ?_⟩
  · have hcount : (zeroInfo 1).windowCount ≠ 0 := one_ne_zero
    rw [uploadExternalWaveform, hinfo, Py.ok_bind, if_neg hcount, hwf]
    rfl
  · rw [hframe.bytesPerSample_eq, hframe.length]
    rfl
  · rw [hframe.framedAs_iff (Or.inr (Nat.le_of_ble_eq_true rfl))]
    rintro (hfull | hsame)
    · exact one_ne_zero hfull
    · exact absurd hsame (by decide)

end Chipscopy.Upload
