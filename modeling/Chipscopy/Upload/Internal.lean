import Chipscopy.Lib.Bits

/-! Uploading samples from the core's own memory

    The core delivers whole windows of samples, each sample padded to 32 bit words, with one more
    bit above the data bits that marks the trigger sample, and each window written round in a
    circle. Decoding drops the padding, turns every window so that its trigger sample stands at the
    trigger position, and drops the byte of the mark where the mark has one of its own. -/

namespace Chipscopy.Upload

open Records

structure TraceInfo where
  dataWidth : ℕ
  triggerPosition : ℕ
  windowCount : ℕ
  windowSize : ℕ
  partialWindowSampleCount : ℕ := 0
  deriving DecidableEq, Repr

/-- Bytes of a sample that is padded to a multiple of the alignment. -/
def calculateDataSampleByteCount (dataSampleAlignBitCount validBitCountPerSample : ℕ) : ℕ :=
  let sampleWordCount :=
    (validBitCountPerSample + dataSampleAlignBitCount - 1) / dataSampleAlignBitCount
  sampleWordCount * (dataSampleAlignBitCount / 8)

def alignSamplesTo1Byte (data : List UInt8) (sampleBitCount sampleCount alignBitCount : ℕ) :
    List UInt8 :=
  let inSampleByteCount := calculateDataSampleByteCount alignBitCount sampleBitCount
  let outSampleByteCount := (sampleBitCount + 7) / 8
  let validDataByteCount := min data.length (inSampleByteCount * sampleCount)
  if inSampleByteCount = outSampleByteCount then data.take validDataByteCount
  else
    let moved := moveDown outSampleByteCount data 0 (addresses 0 validDataByteCount inSampleByteCount)
    moved.1.take moved.2

/-- Bytes of a sample with its trigger bit. -/
def sampleByteCountWithTrigger (info : TraceInfo) : ℕ := (info.dataWidth + 1 + 7) / 8

/-- Index of the first sample with the trigger bit. -/
def triggerMarkSampleIdx (info : TraceInfo) (windowData : List UInt8) : Option ℕ :=
  let firstTrigByteAddr := info.dataWidth / 8
  let trigMask := 1 <<< (info.dataWidth % 8)
  (addresses firstTrigByteAddr windowData.length (sampleByteCountWithTrigger info)).findIdx?
    fun addr => (windowData.getD addr 0).toNat &&& trigMask != 0

/-- `unroll_one_window`: the new content of the window. -/
def unrollOneWindow (info : TraceInfo) (windowData : List UInt8) : Except Py.Error (List UInt8) :=
  match triggerMarkSampleIdx info windowData with
  | none => .error (.valueError "Corrupt waveform data. Missing window trigger mark.")
  | some mark =>
    let startOfWindowSample : ℤ := mark - info.triggerPosition
    if startOfWindowSample = 0 then .ok windowData
    else
      let firstSampleAddr := sampleByteCountWithTrigger info * startOfWindowSample
      let firstSampleAddr :=
        if firstSampleAddr < 0 then firstSampleAddr + windowData.length else firstSampleAddr
      .ok (Py.slice windowData firstSampleAddr windowData.length ++
        Py.slice windowData 0 firstSampleAddr)

def removeTriggerByte (info : TraceInfo) (data : List UInt8) : List UInt8 :=
  let sampleByteCountNoTrigger := (info.dataWidth + 7) / 8
  if sampleByteCountNoTrigger = sampleByteCountWithTrigger info then data
  else
    let moved := moveDown sampleByteCountNoTrigger data 0
      (addresses 0 data.length (sampleByteCountWithTrigger info))
    moved.1.take moved.2

/-- One pass of the loop over the windows; the buffer and `window_byte_count` are its state. -/
def unrollWindowAt (info : TraceInfo) (state : List UInt8 × ℕ) (windowAddr : ℕ) :
    Except Py.Error (List UInt8 × ℕ) := do
  let data := state.1
  let windowByteCount :=
    if windowAddr + state.2 > data.length then data.length - windowAddr else state.2
  let windowData ← unrollOneWindow info (Py.segment data windowAddr (windowAddr + windowByteCount))
  return (Py.setSegment data windowAddr (windowAddr + windowByteCount) windowData, windowByteCount)

def unrollData (data : List UInt8) (info : TraceInfo) : Except Py.Error (List UInt8) :=
  let windowByteCount := sampleByteCountWithTrigger info * info.windowSize
  if windowByteCount = 0 then .error (.valueError "range() arg 3 must not be zero")
  else do
    let (data, _) ← (addresses 0 data.length windowByteCount).foldlM (unrollWindowAt info)
      (data, windowByteCount)
    return removeTriggerByte info data

def processRawData (info : TraceInfo) (rawTrace : List UInt8) (rawDataAlignBitCount : ℕ := 32) :
    Except Py.Error (List UInt8) :=
  if rawTrace = [] then .error (.valueError "Uploaded waveform data is empty.")
  else
    let repackedTrace := alignSamplesTo1Byte rawTrace (info.dataWidth + 1)
      (info.windowCount * info.windowSize) rawDataAlignBitCount
    unrollData repackedTrace info

/-! ### Records -/

/-- Fronts of the records of a buffer, moved down. -/
theorem moved_fronts {len m n : ℕ} {data : List UInt8} (hlen : len ≤ m) (hm : 0 < m)
    (hdata : data.length = n * m) :
    (let moved := moveDown len data 0 (addresses 0 data.length m); moved.1.take moved.2) =
      ((split m n data).map (·.take len)).flatten := by
  have hrows : Rows m (split m n data) := rows_split hdata.ge
  have hmove := take_moveDown hlen hrows
  rwa [flatten_split hdata, length_split, ← addresses_eq hm hdata] at hmove

theorem alignSamplesTo1Byte_eq {data : List UInt8} {bits n align : ℕ}
    (hpos : 0 < calculateDataSampleByteCount align bits)
    (hle : (bits + 7) / 8 ≤ calculateDataSampleByteCount align bits)
    (hdata : data.length = n * calculateDataSampleByteCount align bits) :
    alignSamplesTo1Byte data bits n align =
      ((split (calculateDataSampleByteCount align bits) n data).map
        (·.take ((bits + 7) / 8))).flatten := by
  have hvalid : min data.length (calculateDataSampleByteCount align bits * n) = data.length := by
    rw [hdata, Nat.mul_comm, Nat.min_self]
  simp only [alignSamplesTo1Byte, hvalid]
  split
  · next heq =>
    have hwhole : (split (calculateDataSampleByteCount align bits) n data).map
        (·.take ((bits + 7) / 8)) = split (calculateDataSampleByteCount align bits) n data :=
      (List.map_congr_left fun row hrow =>
        List.take_of_length_le ((rows_split hdata.ge row hrow).trans heq).le).trans (List.map_id _)
    rw [hwhole, flatten_split hdata, List.take_length]
  · exact moved_fronts hle hpos hdata

theorem removeTriggerByte_eq {info : TraceInfo} {data : List UInt8} {n : ℕ}
    (hdata : data.length = n * sampleByteCountWithTrigger info) :
    removeTriggerByte info data =
      ((split (sampleByteCountWithTrigger info) n data).map
        (·.take ((info.dataWidth + 7) / 8))).flatten := by
  have hle : (info.dataWidth + 7) / 8 ≤ sampleByteCountWithTrigger info := by
    rw [sampleByteCountWithTrigger]
    omega
  have hpos : 0 < sampleByteCountWithTrigger info := by
    rw [sampleByteCountWithTrigger]
    omega
  rw [removeTriggerByte]
  split
  · next heq =>
    have hwhole : (split (sampleByteCountWithTrigger info) n data).map
        (·.take ((info.dataWidth + 7) / 8)) = split (sampleByteCountWithTrigger info) n data :=
      (List.map_congr_left fun row hrow =>
        List.take_of_length_le ((rows_split hdata.ge row hrow).trans heq.symm).le).trans
          (List.map_id _)
    rw [hwhole, flatten_split hdata]
  · exact moved_fronts hle hpos hdata

/-! ### One window -/

/-- The trigger bit of a sample. -/
def marked (info : TraceInfo) (row : List UInt8) : Bool := Bits.bit row info.dataWidth

theorem findIdx?_range' {m : ℕ} (first : ℕ) (test : ℕ → Bool) (p : List UInt8 → Bool) :
    ∀ (rows : List (List UInt8)) (i : ℕ),
      (∀ k row, rows[k]? = some row → test (first + (i + k) * m) = p row) →
      (List.range' (first + i * m) rows.length m).findIdx? test = rows.findIdx? p
  | [], i, _ => rfl
  | row :: rows, i, h => by
    have hhead : test (first + i * m) = p row := by simpa using h 0 row rfl
    have hnext : first + i * m + m = first + (i + 1) * m := by rw [Nat.succ_mul, Nat.add_assoc]
    have htail := findIdx?_range' first test p rows (i + 1) fun k row' hk => by
      have := h (k + 1) row' hk
      rwa [show i + (k + 1) = i + 1 + k by omega] at this
    rw [List.length_cons, List.range'_succ, List.findIdx?_cons, List.findIdx?_cons, hhead, hnext,
      htail]

theorem triggerMarkSampleIdx_flatten {info : TraceInfo} {rows : List (List UInt8)}
    (hrows : Rows (sampleByteCountWithTrigger info) rows) :
    triggerMarkSampleIdx info rows.flatten = rows.findIdx? (marked info) := by
  have hm : sampleByteCountWithTrigger info = info.dataWidth / 8 + 1 := by
    rw [sampleByteCountWithTrigger]
    omega
  have hcount : (rows.flatten.length - info.dataWidth / 8 + sampleByteCountWithTrigger info - 1) /
      sampleByteCountWithTrigger info = rows.length := by
    rw [hrows.length_flatten]
    refine Nat.div_eq_of_lt_le ?_ ?_
    · rcases Nat.eq_zero_or_pos rows.length with h0 | hpos
      · omega
      · have := Nat.mul_le_mul_right (sampleByteCountWithTrigger info) hpos
        omega
    · rw [Nat.succ_mul]
      omega
  have hscan := findIdx?_range' (m := sampleByteCountWithTrigger info) (info.dataWidth / 8)
    (fun addr => (rows.flatten.getD addr 0).toNat &&& 1 <<< (info.dataWidth % 8) != 0)
    (marked info) rows 0 fun k row hk => by
      rw [Bits.and_shiftLeft_bne_zero, List.getD_eq_getElem?_getD, Nat.zero_add, Nat.add_comm,
        hrows.getElem?_flatten (by omega) hk, marked, Bits.bit, List.getD_eq_getElem?_getD]
  rw [Nat.zero_mul, Nat.add_zero] at hscan
  rw [triggerMarkSampleIdx, addresses, hcount]
  exact hscan

/-- A window turned so that its first marked sample comes to the trigger position. -/
theorem unrollOneWindow_flatten {info : TraceInfo} {rows : List (List UInt8)}
    (hrows : Rows (sampleByteCountWithTrigger info) rows) (hsize : rows.length = info.windowSize)
    (htrigger : info.triggerPosition < info.windowSize) :
    unrollOneWindow info rows.flatten =
      match rows.findIdx? (marked info) with
      | none => .error (.valueError "Corrupt waveform data. Missing window trigger mark.")
      | some mark => .ok (rows.rotate (mark + (info.windowSize - info.triggerPosition))).flatten := by
  rw [unrollOneWindow, triggerMarkSampleIdx_flatten hrows]
  cases hmark : rows.findIdx? (marked info) with
  | none => rfl
  | some mark =>
    have hlt : mark < rows.length := (List.findIdx?_eq_some_iff_findIdx_eq.mp hmark).1
    have hlen := hrows.length_flatten
    simp only
    split
    · next h0 =>
      have hturn : mark + (info.windowSize - info.triggerPosition) = rows.length := by omega
      rw [hturn, List.rotate_length]
    · next h0 =>
      -- the first sample of the window, counted from its start in the buffer
      obtain ⟨k, hk, hfirst⟩ : ∃ k < rows.length,
          (if (sampleByteCountWithTrigger info : ℤ) * ((mark : ℤ) - info.triggerPosition) < 0
            then (sampleByteCountWithTrigger info : ℤ) * ((mark : ℤ) - info.triggerPosition) +
              (rows.flatten.length : ℤ)
            else (sampleByteCountWithTrigger info : ℤ) * ((mark : ℤ) - info.triggerPosition)) =
              ((k * sampleByteCountWithTrigger info : ℕ) : ℤ) ∧
            (mark + (info.windowSize - info.triggerPosition)) % rows.length = k := by
        have hm : (0 : ℤ) < sampleByteCountWithTrigger info := by
          rw [sampleByteCountWithTrigger]
          omega
        by_cases hneg : mark < info.triggerPosition
        · refine ⟨mark + (info.windowSize - info.triggerPosition), by omega, ?_,
            Nat.mod_eq_of_lt (by omega)⟩
          rw [if_pos (mul_neg_of_pos_of_neg hm (by omega)), hlen, ← hsize]
          push_cast [Nat.cast_sub (show info.triggerPosition ≤ rows.length by omega)]
          ring
        · refine ⟨mark - info.triggerPosition, by omega, ?_, ?_⟩
          · rw [if_neg (not_lt.mpr (mul_nonneg hm.le (by omega)))]
            push_cast [Nat.cast_sub (show info.triggerPosition ≤ mark by omega)]
            ring
          · rw [show mark + (info.windowSize - info.triggerPosition) =
              mark - info.triggerPosition + rows.length by omega, Nat.add_mod_right,
              Nat.mod_eq_of_lt (by omega)]
      have hbound : k * sampleByteCountWithTrigger info ≤ rows.flatten.length := by
        rw [hlen]
        exact Nat.mul_le_mul_right _ hk.le
      have hfront := Py.slice_natCast rows.flatten (a := 0) hbound
      have hback := Py.slice_natCast rows.flatten (a := k * sampleByteCountWithTrigger info) le_rfl
      rw [Nat.min_eq_left hbound, List.take_length, hrows.drop_flatten] at hback
      rw [Nat.zero_min, List.drop_zero, hrows.take_flatten, Nat.cast_zero] at hfront
      rw [hfirst.1, hback, hfront, List.rotate_eq_drop_append_take_mod, hfirst.2,
        List.flatten_append]

/-! ### All windows -/

/-- The loop over the windows, on the windows still to come. -/
theorem foldlM_unrollWindowAt {info : TraceInfo} {w : ℕ}
    (hkeep : ∀ window window', window.length = w → unrollOneWindow info window = .ok window' →
      window'.length = w) :
    ∀ {windows : List (List UInt8)}, Rows w windows → ∀ done : List UInt8,
      (List.range' done.length windows.length w).foldlM (unrollWindowAt info)
          (done ++ windows.flatten, w) =
        (Py.mapExcept (unrollOneWindow info) windows).map fun windows' =>
          (done ++ windows'.flatten, w)
  | [], _, done => rfl
  | window :: windows, h, done => by
    have hw : window.length = w := h window List.mem_cons_self
    have hcount : ¬ done.length + w > (done ++ (window :: windows).flatten).length := by
      rw [List.length_append, List.flatten_cons, List.length_append]
      omega
    have hseg : Py.segment (done ++ (window :: windows).flatten) done.length (done.length + w) =
        window := by
      rw [Py.segment, List.take_length_add_append, List.drop_left, List.flatten_cons, ← hw,
        List.take_left]
    rw [List.length_cons, List.range'_succ, List.foldlM_cons, unrollWindowAt]
    simp only [if_neg hcount, hseg, Py.mapExcept]
    cases hu : unrollOneWindow info window with
    | error e => rfl
    | ok window' =>
      have hw' := hkeep window window' hw hu
      have hset : Py.setSegment (done ++ (window :: windows).flatten) done.length (done.length + w)
          window' = (done ++ window') ++ windows.flatten := by
        rw [Py.setSegment, List.take_left, List.drop_length_add_append, List.flatten_cons, ← hw,
          List.drop_left]
      have hlen : done.length + w = (done ++ window').length := by rw [List.length_append, hw']
      have ih := foldlM_unrollWindowAt hkeep h.tail (done ++ window')
      rw [Py.ok_bind, hset, hlen]
      refine ih.trans ?_
      cases Py.mapExcept (unrollOneWindow info) windows with
      | error e => rfl
      | ok windows' => simp [Except.map]

/-- Bytes of a raw sample. -/
def rawSampleByteCount (info : TraceInfo) : ℕ :=
  calculateDataSampleByteCount 32 (info.dataWidth + 1)

/-- Bit `b` of sample `i` of window `w` of the raw buffer. -/
def rawBit (info : TraceInfo) (raw : List UInt8) (w i b : ℕ) : Bool :=
  Bits.bit raw (8 * ((w * info.windowSize + i) * rawSampleByteCount info) + b)

/-- Bit `b` of sample `j` of window `w` of the returned buffer. -/
def sampleBit (info : TraceInfo) (out : List UInt8) (w j b : ℕ) : Bool :=
  Bits.bit out (8 * ((w * info.windowSize + j) * ((info.dataWidth + 7) / 8)) + b)

/-- The raw sample that comes to position `j` of a window with its mark at sample `mark`. -/
def rolledSample (info : TraceInfo) (mark j : ℕ) : ℕ :=
  (((mark : ℤ) - info.triggerPosition + j) % info.windowSize).toNat

/-- The raw samples without their padding. -/
def alignedSamples (info : TraceInfo) (raw : List UInt8) : List (List UInt8) :=
  (split (rawSampleByteCount info) (info.windowCount * info.windowSize) raw).map
    (·.take (sampleByteCountWithTrigger info))

/-- The windows of aligned samples. -/
def alignedWindows (info : TraceInfo) (raw : List UInt8) : List (List (List UInt8)) :=
  split info.windowSize info.windowCount (alignedSamples info raw)

/-- The new content of a window, in terms of its samples. -/
def unrolledWindow (info : TraceInfo) (rows : List (List UInt8)) :
    Except Py.Error (List (List UInt8)) :=
  match rows.findIdx? (marked info) with
  | none => .error (.valueError "Corrupt waveform data. Missing window trigger mark.")
  | some mark => .ok (rows.rotate (mark + (info.windowSize - info.triggerPosition)))

section Samples

variable {info : TraceInfo} {raw : List UInt8}

theorem sampleByteCount_le (info : TraceInfo) :
    sampleByteCountWithTrigger info ≤ rawSampleByteCount info := by
  simp only [sampleByteCountWithTrigger, rawSampleByteCount, calculateDataSampleByteCount]
  omega

/-- A turned window has the records of the window. -/
theorem unrolledWindow_ok {rows rows' : List (List UInt8)}
    (h : unrolledWindow info rows = .ok rows') : ∃ k, rows' = rows.rotate k := by
  rw [unrolledWindow] at h
  split at h
  · cases h
  · next mark _ => cases h; exact ⟨_, rfl⟩

theorem rows_alignedSamples
    (hraw : raw.length = info.windowCount * info.windowSize * rawSampleByteCount info) : Rows (sampleByteCountWithTrigger info) (alignedSamples info raw) := by
  intro row hrow
  obtain ⟨row', hrow', rfl⟩ := List.mem_map.mp hrow
  rw [List.length_take, rows_split hraw.ge row' hrow', Nat.min_eq_left (sampleByteCount_le info)]

theorem length_alignedSamples : (alignedSamples info raw).length =
    info.windowCount * info.windowSize := by
  rw [alignedSamples, List.length_map, length_split]

theorem rows_alignedWindows : Rows info.windowSize (alignedWindows info raw) :=
  rows_split length_alignedSamples.ge

theorem flatten_alignedWindows : (alignedWindows info raw).flatten = alignedSamples info raw :=
  flatten_split length_alignedSamples

theorem rows_of_mem_alignedWindows
    (hraw : raw.length = info.windowCount * info.windowSize * rawSampleByteCount info)
    {rows : List (List UInt8)} (h : rows ∈ alignedWindows info raw) : Rows (sampleByteCountWithTrigger info) rows := by
  intro row hrow
  refine rows_alignedSamples hraw row ?_
  rw [← flatten_alignedWindows]
  exact List.mem_flatten_of_mem h hrow

/-- A bit of an aligned sample is the bit of the raw sample. -/
theorem bit_alignedSamples {w i b : ℕ} (hw : w < info.windowCount) (hi : i < info.windowSize)
    (hb : b ≤ info.dataWidth) {rows : List (List UInt8)} {row : List UInt8}
    (hrows : (alignedWindows info raw)[w]? = some rows) (hrow : rows[i]? = some row) :
    Bits.bit row b = rawBit info raw w i b := by
  have hlt : w * info.windowSize + i < info.windowCount * info.windowSize := by
    have := Nat.mul_le_mul_right info.windowSize hw
    rw [Nat.succ_mul] at this
    omega
  have hget : (alignedSamples info raw)[w * info.windowSize + i]? = some row := by
    rw [← flatten_alignedWindows, rows_alignedWindows.getElem?_flatten hi hrows, hrow]
  rw [alignedSamples, List.getElem?_map, getElem?_split _ hlt, Option.map_some,
    Option.some_inj] at hget
  have hb8 : b < 8 * sampleByteCountWithTrigger info := by
    rw [sampleByteCountWithTrigger]
    omega
  have hle := sampleByteCount_le info
  rw [← hget, Bits.bit_take _ hb8, Bits.bit_segment _ (by omega), rawBit]

/-- The first mark of a window is its only one. -/
theorem findIdx?_marked {w t : ℕ} (hw : w < info.windowCount) (ht : t < info.windowSize)
    (hmark : ∀ i < info.windowSize, rawBit info raw w i info.dataWidth = true ↔ i = t)
    {rows : List (List UInt8)} (hrows : (alignedWindows info raw)[w]? = some rows) :
    rows.findIdx? (marked info) = some t := by
  have hlen : rows.length = info.windowSize :=
    rows_alignedWindows rows (List.mem_of_getElem? hrows)
  have hbit : ∀ i (hi : i < rows.length), marked info rows[i] = true ↔ i = t := fun i hi => by
    rw [marked, bit_alignedSamples hw (hlen ▸ hi) le_rfl hrows (List.getElem?_eq_getElem hi)]
    exact hmark i (hlen ▸ hi)
  rw [List.findIdx?_eq_some_iff_getElem]
  refine ⟨hlen.symm ▸ ht, (hbit t _).mpr rfl, fun j hj => ?_⟩
  rw [hbit]
  exact hj.ne

theorem findIdx?_marked_eq_none_iff {w : ℕ} (hw : w < info.windowCount) {rows : List (List UInt8)}
    (hrows : (alignedWindows info raw)[w]? = some rows) :
    rows.findIdx? (marked info) = none ↔
      ∀ i < info.windowSize, rawBit info raw w i info.dataWidth = false := by
  have hlen : rows.length = info.windowSize :=
    rows_alignedWindows rows (List.mem_of_getElem? hrows)
  have hbit : ∀ i (hi : i < rows.length),
      marked info rows[i] = rawBit info raw w i info.dataWidth := fun i hi => by
    rw [marked, bit_alignedSamples hw (hlen ▸ hi) le_rfl hrows (List.getElem?_eq_getElem hi)]
  rw [List.findIdx?_eq_none_iff]
  constructor
  · intro h i hi
    rw [← hbit i (hlen.symm ▸ hi)]
    exact h _ (List.getElem_mem _)
  · intro h row hrow
    obtain ⟨i, hi, rfl⟩ := List.getElem_of_mem hrow
    rw [hbit i hi]
    exact h i (hlen ▸ hi)

end Samples

/-- Decoding works on whole samples: it drops paddings, turns the windows and drops mark bytes. -/
theorem processRawData_eq_rows {info : TraceInfo} {raw : List UInt8}
    (hwindows : 0 < info.windowCount) (htrigger : info.triggerPosition < info.windowSize)
    (hraw : raw.length = info.windowCount * info.windowSize * rawSampleByteCount info) :
    processRawData info raw =
      (Py.mapExcept (unrolledWindow info) (alignedWindows info raw)).map fun windows =>
        (windows.flatten.map (·.take ((info.dataWidth + 7) / 8))).flatten := by
  have hsize : 0 < info.windowSize := Nat.zero_lt_of_lt htrigger
  have hm : 0 < sampleByteCountWithTrigger info := by
    rw [sampleByteCountWithTrigger]
    omega
  have hne : raw ≠ [] := by
    rintro rfl
    have := Nat.mul_pos (Nat.mul_pos hwindows hsize) (hm.trans_le (sampleByteCount_le info))
    rw [List.length_nil] at hraw
    omega
  have halign : alignSamplesTo1Byte raw (info.dataWidth + 1) (info.windowCount * info.windowSize) 32 =
      ((alignedWindows info raw).map List.flatten).flatten := by
    rw [← List.flatten_flatten, flatten_alignedWindows]
    exact alignSamplesTo1Byte_eq (hm.trans_le (sampleByteCount_le info)) (sampleByteCount_le info) hraw
  have hbytes : Rows (sampleByteCountWithTrigger info * info.windowSize)
      ((alignedWindows info raw).map List.flatten) := by
    intro window hwindow
    obtain ⟨rows, hrows, rfl⟩ := List.mem_map.mp hwindow
    rw [(rows_of_mem_alignedWindows hraw hrows).length_flatten, rows_alignedWindows rows hrows,
      Nat.mul_comm]
  have hlen : ((alignedWindows info raw).map List.flatten).flatten.length =
      info.windowCount * (sampleByteCountWithTrigger info * info.windowSize) := by
    rw [hbytes.length_flatten, List.length_map, alignedWindows, length_split]
  have hpos : sampleByteCountWithTrigger info * info.windowSize ≠ 0 := (Nat.mul_pos hm hsize).ne'
  have hunroll : ∀ {rows : List (List UInt8)}, Rows (sampleByteCountWithTrigger info) rows →
      rows.length = info.windowSize →
      unrollOneWindow info rows.flatten = (unrolledWindow info rows).map List.flatten := by
    intro rows hrows hlen
    rw [unrollOneWindow_flatten hrows hlen htrigger, unrolledWindow]
    cases rows.findIdx? (marked info) <;> rfl
  have hkeep : ∀ window window',
      window.length = sampleByteCountWithTrigger info * info.windowSize →
      unrollOneWindow info window = .ok window' →
      window'.length = sampleByteCountWithTrigger info * info.windowSize := by
    intro window window' hwindow hok
    have hwindow : window.length = info.windowSize * sampleByteCountWithTrigger info := by
      rw [hwindow, Nat.mul_comm]
    have hrows := rows_split hwindow.ge
    rw [← flatten_split hwindow, hunroll hrows (length_split _ _ _)] at hok
    cases hrolled : unrolledWindow info
        (split (sampleByteCountWithTrigger info) info.windowSize window) with
    | error e =>
      rw [hrolled] at hok
      cases hok
    | ok rows' =>
      rw [hrolled] at hok
      cases hok
      obtain ⟨k, rfl⟩ := unrolledWindow_ok hrolled
      have hrotated : Rows (sampleByteCountWithTrigger info)
          ((split (sampleByteCountWithTrigger info) info.windowSize window).rotate k) :=
        fun row hrow => hrows row (List.mem_rotate.mp hrow)
      rw [hrotated.length_flatten, List.length_rotate, length_split, Nat.mul_comm]
  have hloop := foldlM_unrollWindowAt hkeep hbytes []
  have hmap : Py.mapExcept (unrollOneWindow info) ((alignedWindows info raw).map List.flatten) =
      (Py.mapExcept (unrolledWindow info) (alignedWindows info raw)).map (List.map List.flatten) := by
    rw [Py.mapExcept_map, ← Py.mapExcept_map_ok]
    exact Py.mapExcept_congr fun rows hrows =>
      hunroll (rows_of_mem_alignedWindows hraw hrows) (rows_alignedWindows rows hrows)
  rw [hmap, List.nil_append, List.length_nil, List.length_map] at hloop
  rw [processRawData, if_neg hne]
  simp only [halign, unrollData, if_neg hpos]
  have haddresses : addresses 0 ((alignedWindows info raw).map List.flatten).flatten.length
      (sampleByteCountWithTrigger info * info.windowSize) =
        List.range' 0 (alignedWindows info raw).length
          (sampleByteCountWithTrigger info * info.windowSize) := by
    rw [addresses_eq (Nat.pos_of_ne_zero hpos) hlen, alignedWindows, length_split]
  rw [haddresses, hloop]
  cases hwin : Py.mapExcept (unrolledWindow info) (alignedWindows info raw) with
  | error e => rfl
  | ok windows =>
    have hforall := Py.forall₂_of_mapExcept_ok hwin
    have hrolled : Rows (sampleByteCountWithTrigger info) windows.flatten := by
      intro row hrow
      obtain ⟨rows', hrows', hrow⟩ := List.mem_flatten.mp hrow
      obtain ⟨i, hi⟩ := List.getElem?_of_mem hrows'
      obtain ⟨rows, hrows, hok⟩ := Py.forall₂_getElem? (R := flip _) hforall.flip hi
      obtain ⟨k, rfl⟩ := unrolledWindow_ok hok
      exact rows_of_mem_alignedWindows hraw (List.mem_of_getElem? hrows) row
        (List.mem_rotate.mp hrow)
    have hbytesLen := hrolled.length_flatten
    change Except.ok (removeTriggerByte info ((windows.map List.flatten).flatten)) = _
    rw [← List.flatten_flatten, removeTriggerByte_eq hbytesLen, hrolled.split_flatten]
    rfl

/-! ### Samples of the result -/

theorem rolledSample_eq {info : TraceInfo} (htrigger : info.triggerPosition < info.windowSize)
    (mark j : ℕ) : rolledSample info mark j =
      (j + (mark + (info.windowSize - info.triggerPosition))) % info.windowSize := by
  have hcast : ((mark : ℤ) - info.triggerPosition + j) % info.windowSize =
      ((j + (mark + (info.windowSize - info.triggerPosition)) : ℕ) : ℤ) % info.windowSize := by
    have hsum : ((j + (mark + (info.windowSize - info.triggerPosition)) : ℕ) : ℤ) =
        (mark : ℤ) - info.triggerPosition + j + info.windowSize := by
      push_cast [Nat.cast_sub htrigger.le]
      ring
    rw [hsum, Int.add_emod_right]
  rw [rolledSample, hcast, ← Int.natCast_mod, Int.toNat_natCast]

/-- Every captured sample comes to exactly one position. -/
theorem bijOn_rolledSample {info : TraceInfo} (htrigger : info.triggerPosition < info.windowSize)
    (mark : ℕ) : Set.BijOn (rolledSample info mark) (Set.Iio info.windowSize)
      (Set.Iio info.windowSize) := by
  have hpos : 0 < info.windowSize := Nat.zero_lt_of_lt htrigger
  refine ⟨fun j _ => ?_, fun j hj j' hj' heq => ?_, fun i hi => ?_⟩
  · rw [rolledSample_eq htrigger]
    exact Nat.mod_lt _ hpos
  · rw [rolledSample_eq htrigger, rolledSample_eq htrigger] at heq
    exact Nat.ModEq.eq_of_lt_of_lt (Nat.ModEq.add_right_cancel' _ heq) hj hj'
  · have hturn := Nat.mod_lt (mark + (info.windowSize - info.triggerPosition)) hpos
    have hdm := Nat.div_add_mod (mark + (info.windowSize - info.triggerPosition)) info.windowSize
    refine ⟨(i + (info.windowSize - (mark + (info.windowSize - info.triggerPosition)) %
      info.windowSize)) % info.windowSize, Nat.mod_lt _ hpos, ?_⟩
    rw [rolledSample_eq htrigger, Nat.mod_add_mod]
    have hsum : i + (info.windowSize - (mark + (info.windowSize - info.triggerPosition)) %
        info.windowSize) + (mark + (info.windowSize - info.triggerPosition)) =
          i + info.windowSize * ((mark + (info.windowSize - info.triggerPosition)) /
            info.windowSize + 1) := by
      rw [Nat.mul_add, Nat.mul_one]
      omega
    rw [hsum, Nat.add_mul_mod_self_left, Nat.mod_eq_of_lt hi]

theorem rolledSample_triggerPosition {info : TraceInfo}
    (htrigger : info.triggerPosition < info.windowSize) {mark : ℕ} (hmark : mark < info.windowSize) :
    rolledSample info mark info.triggerPosition = mark := by
  have hsum : info.triggerPosition + (mark + (info.windowSize - info.triggerPosition)) =
      mark + info.windowSize := by omega
  rw [rolledSample_eq htrigger, hsum, Nat.add_mod_right, Nat.mod_eq_of_lt hmark]

/-- A window turned by the position of its mark. -/
def turned (info : TraceInfo) (rows : List (List UInt8)) : List (List UInt8) :=
  rows.rotate ((rows.findIdx? (marked info)).getD 0 + (info.windowSize - info.triggerPosition))

theorem unrolledWindow_eq_turned {info : TraceInfo} {rows : List (List UInt8)} {mark : ℕ}
    (h : rows.findIdx? (marked info) = some mark) :
    unrolledWindow info rows = .ok (turned info rows) := by
  rw [unrolledWindow, turned, h, Option.getD_some]

/-- The records of the result. -/
def resultRows (info : TraceInfo) (raw : List UInt8) : List (List UInt8) :=
  ((alignedWindows info raw).map (turned info)).flatten.map (·.take ((info.dataWidth + 7) / 8))

theorem rows_turned {info : TraceInfo} {raw : List UInt8} :
    Rows info.windowSize ((alignedWindows info raw).map (turned info)) := by
  intro window hwindow
  obtain ⟨rows, hrows, rfl⟩ := List.mem_map.mp hwindow
  rw [turned, List.length_rotate, rows_alignedWindows rows hrows]

theorem rows_resultRows {info : TraceInfo} {raw : List UInt8}
    (hraw : raw.length = info.windowCount * info.windowSize * rawSampleByteCount info) :
    Rows ((info.dataWidth + 7) / 8) (resultRows info raw) := by
  intro row hrow
  obtain ⟨row', hrow', rfl⟩ := List.mem_map.mp hrow
  obtain ⟨window, hwindow, hmem⟩ := List.mem_flatten.mp hrow'
  obtain ⟨rows, hrows, rfl⟩ := List.mem_map.mp hwindow
  have hlen := rows_of_mem_alignedWindows hraw hrows row' (List.mem_rotate.mp hmem)
  rw [List.length_take, hlen, sampleByteCountWithTrigger]
  omega

theorem length_resultRows {info : TraceInfo} {raw : List UInt8} :
    (resultRows info raw).length = info.windowCount * info.windowSize := by
  rw [resultRows, List.length_map, rows_turned.length_flatten, List.length_map, alignedWindows,
    length_split]

/-- Sample `j` of a turned window. -/
theorem sampleBit_resultRows {info : TraceInfo} {raw : List UInt8}
    (hraw : raw.length = info.windowCount * info.windowSize * rawSampleByteCount info)
    (htrigger : info.triggerPosition < info.windowSize) {w j b mark : ℕ} (hw : w < info.windowCount)
    (hj : j < info.windowSize) (hb : b < info.dataWidth) {rows : List (List UInt8)}
    (hrows : (alignedWindows info raw)[w]? = some rows)
    (hmark : rows.findIdx? (marked info) = some mark) :
    sampleBit info (resultRows info raw).flatten w j b =
      rawBit info raw w (rolledSample info mark j) b := by
  have hlen : rows.length = info.windowSize :=
    rows_alignedWindows rows (List.mem_of_getElem? hrows)
  have hlt : rolledSample info mark j < info.windowSize := by
    rw [rolledSample_eq htrigger]
    exact Nat.mod_lt _ (Nat.zero_lt_of_lt hj)
  obtain ⟨row, hrow⟩ : ∃ row, rows[rolledSample info mark j]? = some row :=
    ⟨_, List.getElem?_eq_getElem (hlen.symm ▸ hlt)⟩
  have hturned : (turned info rows)[j]? = rows[rolledSample info mark j]? := by
    rw [turned, hmark, Option.getD_some, List.getElem?_rotate (hlen.symm ▸ hj), hlen,
      rolledSample_eq htrigger]
  have hget : (resultRows info raw)[w * info.windowSize + j]? =
      some (row.take ((info.dataWidth + 7) / 8)) := by
    have hwindow : ((alignedWindows info raw).map (turned info))[w]? = some (turned info rows) := by
      rw [List.getElem?_map, hrows]
      rfl
    rw [resultRows, List.getElem?_map, rows_turned.getElem?_flatten hj hwindow, hturned, hrow]
    rfl
  have hb8 : b < 8 * ((info.dataWidth + 7) / 8) := by omega
  rw [sampleBit, Bits.bit_flatten (rows_resultRows hraw) hb8 hget, Bits.bit_take _ hb8,
    bit_alignedSamples hw hlt hb.le hrows hrow]

/-- Uploaded windows are turned to their trigger position, without losing a sample; decoding fails
    when a window has no mark, and only then. -/
theorem processRawData_eq {info : TraceInfo} {raw : List UInt8} (hwindows : 0 < info.windowCount)
    (htrigger : info.triggerPosition < info.windowSize)
    (hraw : raw.length = info.windowCount * info.windowSize * rawSampleByteCount info) :
    (∀ mark : ℕ → ℕ, (∀ w < info.windowCount, mark w < info.windowSize ∧
        ∀ i < info.windowSize, rawBit info raw w i info.dataWidth = true ↔ i = mark w) →
      ∃ out, processRawData info raw = .ok out ∧
        out.length = info.windowCount * info.windowSize * ((info.dataWidth + 7) / 8) ∧
        (∀ w < info.windowCount, ∀ j < info.windowSize, ∀ b < info.dataWidth,
          sampleBit info out w j b = rawBit info raw w (rolledSample info (mark w) j) b) ∧
        ∀ w < info.windowCount, rolledSample info (mark w) info.triggerPosition = mark w ∧
          Set.BijOn (rolledSample info (mark w)) (Set.Iio info.windowSize)
            (Set.Iio info.windowSize)) ∧
    ((∃ message, processRawData info raw = .error (.valueError message)) ↔
      ∃ w < info.windowCount, ∀ i < info.windowSize, rawBit info raw w i info.dataWidth = false) := by
  have hrun := processRawData_eq_rows hwindows htrigger hraw
  have hcount : (alignedWindows info raw).length = info.windowCount := length_split _ _ _
  have hget : ∀ {w : ℕ}, w < info.windowCount → ∃ rows, (alignedWindows info raw)[w]? = some rows :=
    fun hw => ⟨_, List.getElem?_eq_getElem (hcount.symm ▸ hw)⟩
  have hok : (∀ rows ∈ alignedWindows info raw, ∃ mark, rows.findIdx? (marked info) = some mark) →
      processRawData info raw = .ok (resultRows info raw).flatten := fun hall => by
    rw [hrun, Py.mapExcept_eq_ok fun rows hrows =>
      unrolledWindow_eq_turned (hall rows hrows).choose_spec]
    rfl
  constructor
  · intro mark hmark
    have hfound : ∀ {w : ℕ} {rows : List (List UInt8)}, w < info.windowCount →
        (alignedWindows info raw)[w]? = some rows → rows.findIdx? (marked info) = some (mark w) :=
      fun hw hrows => findIdx?_marked hw (hmark _ hw).1 (hmark _ hw).2 hrows
    refine ⟨_, hok fun rows hrows => ?_, ?_, fun w hw j hj b hb => ?_, fun w hw =>
      ⟨rolledSample_triggerPosition htrigger (hmark w hw).1, bijOn_rolledSample htrigger _⟩⟩
    · obtain ⟨w, hw, rfl⟩ := List.getElem_of_mem hrows
      exact ⟨mark w, hfound (hcount ▸ hw) (List.getElem?_eq_getElem hw)⟩
    · rw [(rows_resultRows hraw).length_flatten, length_resultRows]
    · obtain ⟨rows, hrows⟩ := hget hw
      exact sampleBit_resultRows hraw htrigger hw hj hb hrows (hfound hw hrows)
  · constructor
    · rintro ⟨message, herror⟩
      by_contra hnone
      push Not at hnone
      have hall : ∀ rows ∈ alignedWindows info raw,
          ∃ mark, rows.findIdx? (marked info) = some mark := by
        intro rows hrows
        obtain ⟨w, hw, rfl⟩ := List.getElem_of_mem hrows
        have hw' : w < info.windowCount := hcount ▸ hw
        obtain ⟨i, hi, hbit⟩ := hnone w hw'
        rw [← Option.ne_none_iff_exists', ne_eq,
          findIdx?_marked_eq_none_iff hw' (List.getElem?_eq_getElem hw)]
        exact fun h => hbit (h i hi)
      rw [hok hall] at herror
      cases herror
    · rintro ⟨w, hw, hnone⟩
      have honly : ∀ rows ∈ alignedWindows info raw, ∀ e, unrolledWindow info rows = .error e →
          e = .valueError "Corrupt waveform data. Missing window trigger mark." := by
        intro rows _ e he
        rw [unrolledWindow] at he
        split at he
        · cases he
          rfl
        · cases he
      obtain ⟨rows, hrows⟩ := hget hw
      have hfail : unrolledWindow info rows =
          .error (.valueError "Corrupt waveform data. Missing window trigger mark.") := by
        rw [unrolledWindow, (findIdx?_marked_eq_none_iff hw hrows).mpr hnone]
      rw [Py.mapExcept_error honly ⟨_, List.mem_of_getElem? hrows, hfail⟩] at hrun
      exact ⟨_, hrun⟩

/-- One window of two samples of one bit; the second sample has the mark. -/
theorem processRawData_markInSecond :
    ∃ out, processRawData ⟨1, 0, 1, 2, 0⟩ [1, 0, 0, 0, 2, 0, 0, 0] = .ok out ∧ out.length = 2 ∧
      sampleBit ⟨1, 0, 1, 2, 0⟩ out 0 0 0 = false ∧ sampleBit ⟨1, 0, 1, 2, 0⟩ out 0 1 0 = true := by
  have hraw : ([1, 0, 0, 0, 2, 0, 0, 0] : List UInt8).length =
      1 * 2 * rawSampleByteCount ⟨1, 0, 1, 2, 0⟩ := by decide
  obtain ⟨hdecoded, -⟩ :=
    @processRawData_eq ⟨1, 0, 1, 2, 0⟩ [1, 0, 0, 0, 2, 0, 0, 0] Nat.one_pos Nat.two_pos hraw
  obtain ⟨out, hout, hlen, hbits, -⟩ := hdecoded (fun _ => 1) fun w hw => by
    obtain rfl : w = 0 := Nat.lt_one_iff.mp hw
    exact ⟨Nat.one_lt_two, by decide⟩
  refine ⟨out, hout, hlen, ?_, ?_⟩
  · exact (hbits 0 Nat.one_pos 0 Nat.two_pos 0 Nat.one_pos).trans (by decide)
  · exact (hbits 0 Nat.one_pos 1 Nat.one_lt_two 0 Nat.one_pos).trans (by decide)

/-- No window at all: no window lacks its mark, and decoding raises. -/
theorem processRawData_noWindow :
    ([] : List UInt8).length = 0 * 2 * rawSampleByteCount ⟨1, 0, 0, 2, 0⟩ ∧
      processRawData ⟨1, 0, 0, 2, 0⟩ [] =
        .error (.valueError "Uploaded waveform data is empty.") ∧
      ¬ ∃ w < 0, ∀ i < 2, rawBit ⟨1, 0, 0, 2, 0⟩ [] w i 1 = false :=
  ⟨rfl, rfl, fun ⟨_, hw, _⟩ => absurd hw (Nat.not_lt_zero _)⟩

end Chipscopy.Upload
