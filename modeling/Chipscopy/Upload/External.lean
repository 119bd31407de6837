import Chipscopy.Upload.Internal

/-! Decoding samples from external memory

    In external memory every sample is a record of whole 64 byte blocks; a record with its highest
    bit set stands for a gap of missing samples. Decoding turns the window so that the last record
    stands last, looks backwards for the records that make up the window, and then writes their
    samples from the front of the same buffer, each missing sample as a word of its own. -/

namespace Chipscopy.Upload

/-- Consecutive data records, or one gap record; no place for a gap behind the last record. -/
structure DataSegment where
  startAddr : Option ℤ
  endAddr : Option ℤ
  sampleCount : ℕ
  isGap : Bool
  deriving DecidableEq, Repr

/-- A window of the buffer: its address and size, and what is known of its samples. -/
structure DataWindow where
  addr : ℕ
  size : ℕ
  lastRecordOffset : ℤ
  sampleCount : ℕ
  lastGapCount : ℕ
  deriving DecidableEq, Repr

def externalTraceDataAlignmentBitCount : ℕ := 512

def inSampleByteSize (info : TraceInfo) : ℕ :=
  (info.dataWidth + 1 + externalTraceDataAlignmentBitCount - 1) / externalTraceDataAlignmentBitCount *
    (externalTraceDataAlignmentBitCount / 8)

def outSampleByteSize (info : TraceInfo) : ℕ := (info.dataWidth + 1 + 7) / 8

/-- `dw.data`. -/
def DataWindow.data (dw : DataWindow) (data : List UInt8) : List UInt8 :=
  Py.segment data dw.addr (dw.addr + dw.size)

/-- `dw.data[a:b] = new` of a `memoryview`: the slice keeps its length. -/
def DataWindow.assign (dw : DataWindow) (data : List UInt8) (a b : ℤ) (new : List UInt8) :
    Except Py.Error (List UInt8) :=
  let size := (dw.data data).length
  let first := Py.sliceIndex size a
  let last := max first (Py.sliceIndex size b)
  if new.length = last - first then
    .ok (Py.setSegment data (dw.addr + first) (dw.addr + last) new)
  else .error (.valueError "memoryview assignment: lvalue and rvalue have different structures")

def getGapSampleCount (info : TraceInfo) (windowData : List UInt8) (offset : ℤ) : ℕ :=
  let readCount := Bits.fromBytes (Py.slice windowData (offset - inSampleByteSize info)
    (offset - inSampleByteSize info + 4))
  readCount * 1024

/-- `unroll_window`: the last record comes to the end of the buffer. -/
def unrollExternalWindow (data : List UInt8) (dw : DataWindow) : Except Py.Error (List UInt8) :=
  if dw.lastRecordOffset = data.length then .ok data
  else
    let window := dw.data data
    let front : ℤ := window.length - dw.lastRecordOffset
    let buf := List.replicate window.length 0
    let buf := Py.setSlice buf 0 front (Py.slice data dw.lastRecordOffset data.length)
    let buf := Py.setSlice buf front buf.length (Py.slice window 0 dw.lastRecordOffset)
    if buf.length = data.length then .ok buf
    else .error (.bufferError "Existing exports of data: object cannot be re-sized")

def flushDataSegment (info : TraceInfo) (segments : List DataSegment) :
    (startOffset endOffset : Option ℤ) → List DataSegment
  | some s, some e =>
    segments ++ [⟨some s, some e, ((e - s) / inSampleByteSize info).toNat, false⟩]
  | _, _ => segments

/-- Variables of the backward scan; `segments` has the newest segment first. -/
structure SegmentScan where
  segments : List DataSegment
  samplesToProcess : ℤ
  currentRecordStart : Option ℤ
  currentDataEnd : Option ℤ
  deriving DecidableEq, Repr

/-- One record of the backward scan; `offset` points just beyond it. -/
def scanRecord (info : TraceInfo) (window : List UInt8) (s : SegmentScan) (offset : ℕ) :
    SegmentScan :=
  let recordStart : ℤ := offset - inSampleByteSize info
  if (window.getD (offset - 1) 0).toNat &&& 0x80 != 0 then
    let segments := flushDataSegment info s.segments (some offset) s.currentDataEnd
    let gapSampleCount := getGapSampleCount info window offset
    { segments := segments ++ [⟨some recordStart, some offset, gapSampleCount, true⟩]
      samplesToProcess := s.samplesToProcess - gapSampleCount
      currentRecordStart := some recordStart
      currentDataEnd := none }
  else
    { segments := s.segments
      samplesToProcess := s.samplesToProcess - 1
      currentRecordStart := some recordStart
      currentDataEnd := some (s.currentDataEnd.getD offset) }

/-- The scan ends early when the window has all its samples. -/
def scanRecords (info : TraceInfo) (window : List UInt8) : SegmentScan → List ℕ → SegmentScan
  | s, [] => s
  | s, offset :: offsets =>
    if s.samplesToProcess ≤ 0 then s
    else scanRecords info window (scanRecord info window s offset) offsets

/-- `range(stop, 0, -step)`. -/
def offsetsDown (stop step : ℕ) : List ℕ :=
  (List.range ((stop + step - 1) / step)).map fun k => stop - k * step

/-- Shorten a first gap that has more samples than the window needs. -/
def trimFirstGap (samplesToProcess : ℤ) : List DataSegment → List DataSegment
  | [] => []
  | seg :: segs =>
    if samplesToProcess < 0 ∧ seg.isGap ∧ (seg.sampleCount : ℤ) + samplesToProcess > 0 then
      { seg with sampleCount := ((seg.sampleCount : ℤ) + samplesToProcess).toNat } :: segs
    else seg :: segs

def findDataSegments (info : TraceInfo) (data : List UInt8) (dw : DataWindow) :
    Except Py.Error (List DataSegment) :=
  let window := dw.data data
  let start : SegmentScan :=
    if dw.lastGapCount ≠ 0 then
      ⟨[⟨none, none, dw.lastGapCount, true⟩], (dw.sampleCount : ℤ) - dw.lastGapCount, none, none⟩
    else ⟨[], dw.sampleCount, none, none⟩
  let s := scanRecords info window start (offsetsDown window.length (inSampleByteSize info))
  let segments := flushDataSegment info s.segments s.currentRecordStart s.currentDataEnd
  let segments := trimFirstGap s.samplesToProcess segments.reverse
  if s.samplesToProcess > 0 then
    .error (.valueError "Waveform data is corrupted. Did not find all samples in window.")
  else .ok segments

/-- `(1 << data_width).to_bytes(count, "little")`. -/
def gapSample (info : TraceInfo) (count : ℕ) : List UInt8 :=
  (List.range count).map fun k =>
    if k = info.dataWidth / 8 then UInt8.ofNat (1 <<< (info.dataWidth % 8)) else 0

/-- The buffer, the next address to write, and whether a gap sample was made. -/
structure Expansion where
  data : List UInt8
  toOffset : ℤ
  hasGap : Bool
  deriving DecidableEq, Repr

/-- One segment of `order_samples_expand_gaps`. -/
def expandSegment (info : TraceInfo) (dw : DataWindow) (x : Expansion) (seg : DataSegment) :
    Except Py.Error Expansion :=
  if seg.isGap then do
    let nextToOffset := x.toOffset + seg.sampleCount * inSampleByteSize info
    let data ← dw.assign x.data x.toOffset nextToOffset
      (List.replicate seg.sampleCount (gapSample info (inSampleByteSize info))).flatten
    return ⟨data, nextToOffset, true⟩
  else
    match seg.startAddr, seg.endAddr with
    | some s, some e => do
      let nextToOffset := x.toOffset + e - s
      let data ← dw.assign x.data x.toOffset nextToOffset (Py.slice (dw.data x.data) s e)
      return ⟨data, nextToOffset, x.hasGap⟩
    | _, _ => .error (.typeError "unsupported operand type(s)")

def removeSampleHighBytes (info : TraceInfo) (data : List UInt8) (totalSampleCount : ℕ) :
    List UInt8 :=
  if outSampleByteSize info = inSampleByteSize info then data
  else
    let moved := Records.moveDown (outSampleByteSize info) data 0
      ((Records.addresses 0 data.length (inSampleByteSize info)).take totalSampleCount)
    moved.1.take moved.2

/-- Samples of the window with an index. -/
def samplesInWindow (info : TraceInfo) (windowIndex : ℕ) : ℕ :=
  if info.partialWindowSampleCount ≠ 0 ∧ (windowIndex : ℤ) = (info.windowCount : ℤ) - 1 then
    info.partialWindowSampleCount
  else info.windowSize

/-- The windows of the buffer, with their addresses. -/
def dataWindows (info : TraceInfo) (size : ℕ) (beyondLastRecordAddrs : List ℤ)
    (lastGapCounts : List ℕ) : Except Py.Error (List DataWindow) :=
  let windowByteCount := inSampleByteSize info * info.windowSize
  if windowByteCount = 0 then .error (.valueError "range() arg 3 must not be zero")
  else
    Py.mapExcept (fun (windowIndex, windowAddr) => do
      let beyond ← Py.index beyondLastRecordAddrs windowIndex
      let lastGapCount ← Py.index lastGapCounts windowIndex
      let beyond := beyond - windowAddr
      return { addr := windowAddr
               size := windowByteCount
               lastRecordOffset := if beyond = 0 then windowByteCount else beyond
               sampleCount := samplesInWindow info windowIndex
               lastGapCount := lastGapCount })
      ((List.range ((size + windowByteCount - 1) / windowByteCount)).map fun i : ℕ =>
        ((i, i * windowByteCount) : ℕ × ℕ))

/-- The work on one window. -/
def decodeWindow (info : TraceInfo) (state : List UInt8 × Bool) (dw : DataWindow) :
    Except Py.Error (List UInt8 × Bool) := do
  let data ← unrollExternalWindow state.1 dw
  let segments ← findDataSegments info data dw
  let x ← segments.foldlM (expandSegment info dw) ⟨data, 0, state.2⟩
  return (x.data, x.hasGap)

def decodeExternalData (data : List UInt8) (info : TraceInfo) (beyondLastRecordAddrs : List ℤ)
    (lastGapCounts : List ℕ) : Except Py.Error (List UInt8 × Bool) := do
  let windows ← dataWindows info data.length beyondLastRecordAddrs lastGapCounts
  let totalSampleCount := (windows.map (·.sampleCount)).sum
  let (data, hasGap) ← windows.foldlM (decodeWindow info) (data, false)
  return (removeSampleHighBytes info data totalSampleCount, hasGap)

end Chipscopy.Upload
