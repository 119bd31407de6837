import Chipscopy.Upload.External

/-! What decoding external memory returns

    Read in writing order, the records of a window are a stream of samples: a data record is one
    sample, a gap record as many missing ones as its block count says. The backward scan finds
    segments that stand for the end of this stream, and since every record that is still to be read
    stands for a sample that is still to be written, writing never reaches a record before it has
    been read. -/

namespace Chipscopy.Upload

open Records

/-! ### The stream of a window -/

/-- The highest bit of a record tells a gap. -/
def isGapRecord (info : TraceInfo) (record : List UInt8) : Bool :=
  Bits.bit record (8 * inSampleByteSize info - 1)

/-- Missing samples of a gap record. -/
def gapRecordSampleCount (record : List UInt8) : ℕ := Bits.fromBytes (record.take 4) * 1024

/-- Samples of a record, a missing one as `none`. -/
def recordSamples (info : TraceInfo) (record : List UInt8) : List (Option (List UInt8)) :=
  if isGapRecord info record then List.replicate (gapRecordSampleCount record) none
  else [some record]

/-- Samples of records in writing order, and those missing behind the last record. -/
def sampleStream (info : TraceInfo) (lastGapCount : ℕ) (records : List (List UInt8)) :
    List (Option (List UInt8)) :=
  records.flatMap (recordSamples info) ++ List.replicate lastGapCount none

/-- The word of a sample in a buffer of records. -/
def sampleWord (info : TraceInfo) : Option (List UInt8) → List UInt8
  | none => gapSample info (inSampleByteSize info)
  | some record => record

/-- Gap records stand for at least one block of samples. -/
def GapsCounted (info : TraceInfo) (records : List (List UInt8)) : Prop :=
  ∀ record ∈ records, isGapRecord info record → 0 < gapRecordSampleCount record

variable {info : TraceInfo} {records : List (List UInt8)} {lastGapCount : ℕ}

theorem inSampleByteSize_pos (info : TraceInfo) : 0 < inSampleByteSize info := by
  rw [inSampleByteSize, externalTraceDataAlignmentBitCount]
  omega

theorem outSampleByteSize_le (info : TraceInfo) : outSampleByteSize info ≤ inSampleByteSize info := by
  rw [outSampleByteSize, inSampleByteSize, externalTraceDataAlignmentBitCount]
  omega

theorem length_gapSample (info : TraceInfo) (count : ℕ) : (gapSample info count).length = count := by
  rw [gapSample, List.length_map, List.length_range]

theorem sampleStream_cons (record : List UInt8) (records : List (List UInt8)) :
    sampleStream info lastGapCount (record :: records) =
      recordSamples info record ++ sampleStream info lastGapCount records := by
  rw [sampleStream, List.flatMap_cons, List.append_assoc, sampleStream]

/-- Every record stands for a sample. -/
theorem length_le_sampleStream : ∀ {records : List (List UInt8)}, GapsCounted info records →
    records.length ≤ (sampleStream info lastGapCount records).length
  | [], _ => Nat.zero_le _
  | record :: records, h => by
    have hrest : records.length ≤ (sampleStream info lastGapCount records).length :=
      length_le_sampleStream fun r hr => h r (List.mem_cons_of_mem _ hr)
    have hone : 1 ≤ (recordSamples info record).length := by
      rw [recordSamples]
      split
      · next hgap =>
        rw [List.length_replicate]
        exact h record List.mem_cons_self hgap
      · simp
    rw [sampleStream_cons, List.length_append, List.length_cons]
    omega

/-! ### Segments and the samples they stand for -/

/-- Segments of a window with `n` records, oldest first, and their samples. A data segment leaves
    at least as many samples to write, its own included, as there are records from its start on. -/
inductive Reads (m : ℕ) (records : List (List UInt8)) :
    List DataSegment → List (Option (List UInt8)) → Prop
  | nil : Reads m records [] []
  | gap {segs ys} (a b : Option ℤ) {c : ℕ} (hc : 0 < c) (h : Reads m records segs ys) :
    Reads m records (⟨a, b, c, true⟩ :: segs) (List.replicate c none ++ ys)
  | data {segs ys} {s e : ℕ} (hs : s ≤ e) (he : e ≤ records.length)
    (hleft : records.length ≤ s + ((e - s) + ys.length)) (h : Reads m records segs ys) :
    Reads m records (⟨some (s * m : ℕ), some (e * m : ℕ), e - s, false⟩ :: segs)
      ((Py.segment records s e).map some ++ ys)

/-! ### The backward scan -/

/-- Ends of the last `i` records, from the last one down. -/
def recordEnds (m : ℕ) : ℕ → List ℕ
  | 0 => []
  | i + 1 => (i + 1) * m :: recordEnds m i

theorem offsetsDown_eq {m : ℕ} (hm : 0 < m) : ∀ i, offsetsDown (i * m) m = recordEnds m i := by
  intro i
  have hcount : (i * m + m - 1) / m = i := by
    rw [Nat.add_sub_assoc hm, Nat.mul_comm, Nat.mul_add_div hm, Nat.div_eq_of_lt (by omega),
      Nat.add_zero]
  rw [offsetsDown, hcount]
  clear hcount
  induction i with
  | zero => rfl
  | succ i ih =>
    rw [List.range_succ_eq_map, List.map_cons, List.map_map, recordEnds, Nat.zero_mul, Nat.sub_zero,
      ← ih]
    refine congrArg ((i + 1) * m :: ·) (List.map_congr_left fun k _ => ?_)
    rw [Function.comp_apply, Nat.succ_mul, Nat.succ_mul]
    omega

/-- The scan has seen the records from `i` on. -/
structure Scanned (info : TraceInfo) (records : List (List UInt8)) (lastGapCount n i : ℕ)
    (s : SegmentScan) : Prop where
  toProcess : s.samplesToProcess = n - ((sampleStream info lastGapCount (records.drop i)).length : ℤ)
  start : i < records.length → s.currentRecordStart = some (i * inSampleByteSize info : ℕ)
  closed : s.currentDataEnd = none →
    Reads (inSampleByteSize info) records s.segments.reverse
      (sampleStream info lastGapCount (records.drop i))
  pending : ∀ o, s.currentDataEnd = some o → ∃ e ys, o = (e * inSampleByteSize info : ℕ) ∧ i < e ∧
    e ≤ records.length ∧ Reads (inSampleByteSize info) records s.segments.reverse ys ∧
    sampleStream info lastGapCount (records.drop i) = (Py.segment records i e).map some ++ ys
  tight : s.samplesToProcess < 0 → s.currentDataEnd = none ∧ ∃ a b c segs,
    s.segments.reverse = ⟨a, b, c, true⟩ :: segs ∧ 0 < c + s.samplesToProcess

/-- Closing the data segment that is still open. -/
theorem Scanned.reads_flush {n i : ℕ} {s : SegmentScan}
    (h : Scanned info records lastGapCount n i s) (hgaps : GapsCounted info records) :
    Reads (inSampleByteSize info) records
      (flushDataSegment info s.segments (some (i * inSampleByteSize info : ℕ)) s.currentDataEnd).reverse
      (sampleStream info lastGapCount (records.drop i)) := by
  have hm := inSampleByteSize_pos info
  cases hend : s.currentDataEnd with
  | none => exact h.closed hend
  | some o =>
    obtain ⟨e, ys, rfl, hie, he, hreads, hstream⟩ := h.pending o hend
    have hcount : ((((e * inSampleByteSize info : ℕ) : ℤ) - (i * inSampleByteSize info : ℕ)) /
        inSampleByteSize info).toNat = e - i := by
      rw [← Nat.cast_sub (Nat.mul_le_mul_right _ hie.le), ← Nat.sub_mul, ← Int.natCast_ediv,
        Nat.mul_div_cancel _ hm, Int.toNat_natCast]
    have hleft : (records.drop i).length ≤
        (sampleStream info lastGapCount (records.drop i)).length :=
      length_le_sampleStream fun r hr => hgaps r (List.mem_of_mem_drop hr)
    rw [hstream, List.length_append, List.length_map, Py.length_segment, List.length_drop] at hleft
    rw [flushDataSegment, hcount, List.reverse_append, List.reverse_singleton, List.singleton_append,
      hstream]
    exact Reads.data hie.le he (by omega) hreads

section Record

variable {i : ℕ} {record : List UInt8}

theorem highBit_eq_isGapRecord (hrows : Rows (inSampleByteSize info) records)
    (hi : records[i]? = some record) :
    ((records.flatten.getD ((i + 1) * inSampleByteSize info - 1) 0).toNat &&& 0x80 != 0) =
      isGapRecord info record := by
  have hm := inSampleByteSize_pos info
  have hidx : (i + 1) * inSampleByteSize info - 1 =
      i * inSampleByteSize info + (inSampleByteSize info - 1) := by
    rw [Nat.succ_mul]
    omega
  have hbyte : (8 * inSampleByteSize info - 1) / 8 = inSampleByteSize info - 1 := by omega
  have hbit : (8 * inSampleByteSize info - 1) % 8 = 7 := by omega
  have hmask : (0x80 : ℕ) = 1 <<< 7 := rfl
  rw [List.getD_eq_getElem?_getD, hidx, hrows.getElem?_flatten (by omega) hi, hmask,
    Bits.and_shiftLeft_bne_zero, isGapRecord, Bits.bit, hbyte, hbit, List.getD_eq_getElem?_getD]

theorem getGapSampleCount_eq (hrows : Rows (inSampleByteSize info) records)
    (hi : records[i]? = some record) :
    getGapSampleCount info records.flatten ((i + 1) * inSampleByteSize info : ℕ) =
      gapRecordSampleCount record := by
  have hfour : 4 ≤ inSampleByteSize info := by
    have hpos := inSampleByteSize_pos info
    rw [inSampleByteSize, externalTraceDataAlignmentBitCount] at hpos ⊢
    omega
  have hlt : i < records.length := (List.getElem?_eq_some_iff.mp hi).1
  have hstart : (((i + 1) * inSampleByteSize info : ℕ) : ℤ) - inSampleByteSize info =
      (i * inSampleByteSize info : ℕ) := by
    rw [Nat.succ_mul]
    omega
  have hend : ((i * inSampleByteSize info : ℕ) : ℤ) + 4 = (i * inSampleByteSize info + 4 : ℕ) := rfl
  have hle : i * inSampleByteSize info + 4 ≤ records.flatten.length := by
    have hrecord : (i + 1) * inSampleByteSize info ≤ records.length * inSampleByteSize info :=
      Nat.mul_le_mul_right _ hlt
    rw [Nat.succ_mul] at hrecord
    rw [hrows.length_flatten]
    omega
  rw [getGapSampleCount, hstart, hend, Py.slice_eq_segment _ (Nat.le_add_right _ _) hle,
    hrows.segment_row hfour hi, gapRecordSampleCount]

theorem sampleStream_drop (hi : records[i]? = some record) :
    sampleStream info lastGapCount (records.drop i) =
      recordSamples info record ++ sampleStream info lastGapCount (records.drop (i + 1)) := by
  obtain ⟨hlt, rfl⟩ := List.getElem?_eq_some_iff.mp hi
  rw [List.drop_eq_getElem_cons hlt, sampleStream_cons]

theorem segment_succ (hi : records[i]? = some record) {e : ℕ} (he : i < e) :
    Py.segment records i e = record :: Py.segment records (i + 1) e := by
  obtain ⟨hlt, rfl⟩ := List.getElem?_eq_some_iff.mp hi
  have hlt' : i < (records.take e).length := by
    rw [List.length_take]
    omega
  rw [Py.segment, List.drop_eq_getElem_cons hlt', List.getElem_take, Py.segment]

/-- One more record of the scan. -/
theorem Scanned.step {n : ℕ} {s : SegmentScan} (hrows : Rows (inSampleByteSize info) records)
    (hgaps : GapsCounted info records) (hi : records[i]? = some record)
    (h : Scanned info records lastGapCount n (i + 1) s) (hleft : 0 < s.samplesToProcess) :
    Scanned info records lastGapCount n i
      (scanRecord info records.flatten s ((i + 1) * inSampleByteSize info)) := by
  have hlt : i < records.length := (List.getElem?_eq_some_iff.mp hi).1
  have hstart : (((i + 1) * inSampleByteSize info : ℕ) : ℤ) - inSampleByteSize info =
      (i * inSampleByteSize info : ℕ) := by
    rw [Nat.succ_mul]
    omega
  have hstream : sampleStream info lastGapCount (records.drop i) =
      recordSamples info record ++ sampleStream info lastGapCount (records.drop (i + 1)) :=
    sampleStream_drop hi
  have hlen := congrArg List.length hstream
  rw [List.length_append] at hlen
  have hproc := h.toProcess
  rw [scanRecord, highBit_eq_isGapRecord hrows hi, getGapSampleCount_eq hrows hi, hstart]
  cases hgap : isGapRecord info record with
  | true =>
    have hcount := hgaps record (List.mem_of_getElem? hi) hgap
    have hsamples : recordSamples info record =
        List.replicate (gapRecordSampleCount record) none := by
      rw [recordSamples, if_pos hgap]
    rw [hsamples, List.length_replicate] at hlen
    rw [hsamples] at hstream
    have hreads := Reads.gap (some (i * inSampleByteSize info : ℕ))
      (some ((i + 1) * inSampleByteSize info : ℕ)) hcount (h.reads_flush hgaps)
    rw [← hstream] at hreads
    rw [if_pos rfl]
    refine ⟨?_, fun _ => rfl, fun _ => ?_, fun o ho => (by cases ho), fun _ => ⟨rfl, ?_⟩⟩
    · simp only
      omega
    · simpa using hreads
    · refine ⟨_, _, gapRecordSampleCount record, _, List.reverse_concat, ?_⟩
      simp only
      omega
  | false =>
    have hsamples : recordSamples info record = [some record] := by
      rw [recordSamples, if_neg (by rw [hgap]; exact Bool.false_ne_true)]
    rw [hsamples, List.length_singleton] at hlen
    rw [hsamples] at hstream
    rw [if_neg Bool.false_ne_true]
    refine ⟨?_, fun _ => rfl, fun ho => (by cases ho), fun o ho => ?_, fun hneg => ?_⟩
    · simp only
      omega
    · simp only [Option.some.injEq] at ho
      cases hend : s.currentDataEnd with
      | none =>
        rw [hend, Option.getD_none] at ho
        refine ⟨i + 1, _, ho.symm, Nat.lt_succ_self i, hlt, h.closed hend, ?_⟩
        have hempty : Py.segment records (i + 1) (i + 1) = [] :=
          List.eq_nil_of_length_eq_zero (by rw [Py.length_segment]; omega)
        rw [hstream, segment_succ hi (Nat.lt_succ_self i), hempty]
        rfl
      | some o' =>
        obtain ⟨e, ys, rfl, hie, he, hreads, hys⟩ := h.pending o' hend
        rw [hend, Option.getD_some] at ho
        refine ⟨e, ys, ho.symm, by omega, he, hreads, ?_⟩
        rw [hstream, hys, segment_succ hi (by omega)]
        rfl
    · simp only at hneg
      omega

end Record

theorem Scanned.run {n : ℕ} (hrows : Rows (inSampleByteSize info) records)
    (hgaps : GapsCounted info records) : ∀ {i : ℕ} {s : SegmentScan}, i ≤ records.length →
      Scanned info records lastGapCount n i s → ∃ i', i' ≤ records.length ∧
        Scanned info records lastGapCount n i'
          (scanRecords info records.flatten s (recordEnds (inSampleByteSize info) i)) ∧
        ((scanRecords info records.flatten s
          (recordEnds (inSampleByteSize info) i)).samplesToProcess ≤ 0 ∨ i' = 0)
  | 0, s, hle, h => ⟨0, hle, h, Or.inr rfl⟩
  | i + 1, s, hle, h => by
    rw [recordEnds, scanRecords]
    split
    · next hdone => exact ⟨i + 1, hle, h, Or.inl hdone⟩
    · next hleft =>
      obtain ⟨record, hrecord⟩ : ∃ record, records[i]? = some record :=
        ⟨_, List.getElem?_eq_getElem hle⟩
      exact Scanned.run hrows hgaps (Nat.le_of_succ_le hle)
        (h.step hrows hgaps hrecord (not_le.mp hleft))

/-- Before the scan only the samples behind the last record are known. -/
theorem scanned_start (n : ℕ) (hn : 0 < n) : Scanned info records lastGapCount n records.length
    (if lastGapCount ≠ 0 then
      ⟨[⟨none, none, lastGapCount, true⟩], (n : ℤ) - lastGapCount, none, none⟩
    else ⟨[], n, none, none⟩) := by
  have hstream : sampleStream info lastGapCount (records.drop records.length) =
      List.replicate lastGapCount none := by
    rw [List.drop_length, sampleStream, List.flatMap_nil, List.nil_append]
  split
  · next hgap =>
    have hnil : Reads (inSampleByteSize info) records [] [] := Reads.nil
    have hreads := Reads.gap none none (Nat.pos_of_ne_zero hgap) hnil
    rw [List.append_nil] at hreads
    refine ⟨?_, fun hlt => absurd hlt (lt_irrefl _), fun _ => ?_, fun o ho => (by cases ho), fun _ =>
      ⟨rfl, none, none, lastGapCount, [], rfl, ?_⟩⟩
    · rw [hstream, List.length_replicate]
    · rw [hstream]
      exact hreads
    · simp only
      omega
  · next hgap =>
    rw [not_not] at hgap
    subst hgap
    refine ⟨?_, fun hlt => absurd hlt (lt_irrefl _), fun _ => ?_, fun o ho => (by cases ho),
      fun hneg => ?_⟩
    · rw [hstream]
      simp
    · rw [hstream]
      exact Reads.nil
    · simp only at hneg
      omega

theorem Scanned.reads_end {n i : ℕ} {s : SegmentScan} (h : Scanned info records lastGapCount n i s)
    (hgaps : GapsCounted info records) (hi : i ≤ records.length) :
    Reads (inSampleByteSize info) records
      (flushDataSegment info s.segments s.currentRecordStart s.currentDataEnd).reverse
      (sampleStream info lastGapCount (records.drop i)) := by
  have hflush := h.reads_flush hgaps
  rcases Nat.lt_or_eq_of_le hi with hlt | heq
  · rwa [h.start hlt]
  · cases hend : s.currentDataEnd with
    | none =>
      rw [hend] at hflush
      cases hstart : s.currentRecordStart <;> exact hflush
    | some o =>
      obtain ⟨e, -, -, hie, he, -⟩ := h.pending o hend
      omega

/-- Missing samples that are too many come off the first segment. -/
theorem Reads.trimFirstGap {m : ℕ} {segs : List DataSegment} {ys : List (Option (List UInt8))}
    {left : ℤ} (h : Reads m records segs ys) (hle : left ≤ 0)
    (htight : left < 0 → ∃ a b c segs', segs = ⟨a, b, c, true⟩ :: segs' ∧ 0 < c + left) :
    Reads m records (trimFirstGap left segs) (ys.drop (-left).toNat) := by
  rcases lt_or_eq_of_le hle with hneg | rfl
  · obtain ⟨a, b, c, segs', rfl, hpos⟩ := htight hneg
    cases h with
    | gap _ _ hc hrest =>
      next ys' =>
      have hkeep : (List.replicate c none ++ ys').drop (-left).toNat =
          List.replicate ((c : ℤ) + left).toNat none ++ ys' := by
        rw [List.drop_append_of_le_length (by rw [List.length_replicate]; omega), List.drop_replicate]
        congr 2
        omega
      have hkept : 0 < ((c : ℤ) + left).toNat := by omega
      rw [hkeep, Upload.trimFirstGap, if_pos ⟨hneg, rfl, hpos⟩]
      exact Reads.gap a b hkept hrest
  · cases segs with
    | nil => exact h
    | cons seg segs =>
      rw [Upload.trimFirstGap, if_neg (fun hneg => lt_irrefl _ hneg.1)]
      exact h

/-- A window that is the whole buffer. -/
structure DataWindow.Whole (dw : DataWindow) (size : ℕ) : Prop where
  addr : dw.addr = 0
  size : dw.size = size

theorem DataWindow.Whole.data_eq {dw : DataWindow} {data : List UInt8} (h : dw.Whole data.length) :
    dw.data data = data := by
  rw [DataWindow.data, h.addr, h.size, Nat.zero_add, Py.segment, List.take_length, List.drop_zero]

/-- The segments stand for the last samples of the stream. -/
theorem findDataSegments_reads {dw : DataWindow} (hdw : dw.Whole records.flatten.length)
    (hrows : Rows (inSampleByteSize info) records) (hgaps : GapsCounted info records)
    (hpos : 0 < dw.sampleCount)
    (henough : dw.sampleCount ≤ (sampleStream info dw.lastGapCount records).length) :
    ∃ segs, findDataSegments info records.flatten dw = .ok segs ∧
      Reads (inSampleByteSize info) records segs
        ((sampleStream info dw.lastGapCount records).drop
          ((sampleStream info dw.lastGapCount records).length - dw.sampleCount)) := by
  have hlen : records.flatten.length = records.length * inSampleByteSize info := hrows.length_flatten
  have hstart : Scanned info records dw.lastGapCount dw.sampleCount records.length _ :=
    scanned_start dw.sampleCount hpos
  obtain ⟨i, hi, hscan, hend⟩ := hstart.run hrows hgaps le_rfl
  rw [findDataSegments, hdw.data_eq, hlen, offsetsDown_eq (inSampleByteSize_pos info)]
  set s := scanRecords info records.flatten _ (recordEnds (inSampleByteSize info) records.length)
    with hs
  have hsplit : sampleStream info dw.lastGapCount records =
      (records.take i).flatMap (recordSamples info) ++
        sampleStream info dw.lastGapCount (records.drop i) := by
    rw [sampleStream, sampleStream, ← List.append_assoc, ← List.flatMap_append,
      List.take_append_drop]
  have hall : i = 0 → sampleStream info dw.lastGapCount (records.drop i) =
      sampleStream info dw.lastGapCount records := by
    rintro rfl
    rw [List.drop_zero]
  have hdone : s.samplesToProcess ≤ 0 := by
    rcases hend with hle | hzero
    · exact hle
    · rw [hscan.toProcess, hall hzero]
      omega
  have hreads := (hscan.reads_end hgaps hi).trimFirstGap hdone fun hneg => by
    obtain ⟨hnone, a, b, c, segs, hsegs, hc⟩ := hscan.tight hneg
    exact ⟨a, b, c, segs, by rw [hnone]; cases s.currentRecordStart <;> exact hsegs, hc⟩
  refine ⟨_, if_neg (not_lt.mpr hdone), ?_⟩
  have hlength := congrArg List.length hsplit
  rw [List.length_append] at hlength
  have htoProcess := hscan.toProcess
  have hdrop : (sampleStream info dw.lastGapCount records).length - dw.sampleCount =
      ((records.take i).flatMap (recordSamples info)).length + (-s.samplesToProcess).toNat := by
    omega
  rw [hdrop]
  nth_rewrite 1 [hsplit]
  rw [List.drop_length_add_append]
  exact hreads

/-! ### Writing the samples from the front -/

theorem DataWindow.Whole.assign_eq {dw : DataWindow} {data new : List UInt8} {a b : ℕ}
    (h : dw.Whole data.length) (hab : a ≤ b) (hb : b ≤ data.length) (hnew : new.length = b - a) :
    dw.assign data a b new = .ok (Py.setSegment data a b new) := by
  have hlast : max a b = b := Nat.max_eq_right hab
  rw [DataWindow.assign, h.data_eq, Py.sliceIndex_natCast (hab.trans hb), Py.sliceIndex_natCast hb]
  simp only [hlast]
  rw [if_pos hnew, h.addr, Nat.zero_add, Nat.zero_add]

/-- Words written so far, and behind them the records that were there from the start. -/
def partlyWritten (records written : List (List UInt8)) : List (List UInt8) :=
  written ++ records.drop written.length

section Write

variable {m : ℕ} {written : List (List UInt8)}

theorem rows_partlyWritten (hrows : Rows m records) (hwritten : Rows m written) :
    Rows m (partlyWritten records written) := hwritten.append (hrows.drop _)

theorem length_partlyWritten (h : written.length ≤ records.length) :
    (partlyWritten records written).length = records.length := by
  rw [partlyWritten, List.length_append, List.length_drop]
  omega

/-- A record that has not been written to is what it was. -/
theorem segment_partlyWritten {s : ℕ} (h : written.length ≤ s) (e : ℕ) :
    Py.segment (partlyWritten records written) s e = Py.segment records s e := by
  refine List.ext_getElem? fun k => ?_
  rw [Py.getElem?_segment, Py.getElem?_segment, partlyWritten,
    List.getElem?_append_right (by omega), List.getElem?_drop]
  congr 2
  omega

theorem assign_partlyWritten {dw : DataWindow} {new : List (List UInt8)} (hrows : Rows m records)
    (hwritten : Rows m written) (hnew : Rows m new) (hdw : dw.Whole (records.length * m))
    (hroom : written.length + new.length ≤ records.length) :
    dw.assign (partlyWritten records written).flatten (written.length * m : ℕ)
        ((written.length + new.length) * m : ℕ) new.flatten =
      .ok (partlyWritten records (written ++ new)).flatten := by
  have hpart := rows_partlyWritten hrows hwritten
  have hlen : (partlyWritten records written).flatten.length = records.length * m := by
    rw [hpart.length_flatten, length_partlyWritten (by omega)]
  have hsize : new.flatten.length =
      (written.length + new.length) * m - written.length * m := by
    rw [hnew.length_flatten, ← Nat.sub_mul, Nat.add_sub_cancel_left]
  rw [DataWindow.Whole.assign_eq (hlen ▸ hdw) (Nat.mul_le_mul_right m (Nat.le_add_right _ _))
    (hlen ▸ Nat.mul_le_mul_right m hroom) hsize, Py.setSegment, hpart.take_flatten,
    hpart.drop_flatten, partlyWritten, partlyWritten, List.take_left,
    List.drop_length_add_append, List.drop_drop, List.length_append, List.flatten_append, List.flatten_append]

end Write

theorem rows_replicate_gapSample (info : TraceInfo) (c : ℕ) :
    Rows (inSampleByteSize info) (List.replicate c (gapSample info (inSampleByteSize info))) := by
  intro row hrow
  rw [List.eq_of_mem_replicate hrow, length_gapSample]

/-- Expanding the segments writes the words of their samples. -/
theorem foldlM_expandSegment {dw : DataWindow} (hrows : Rows (inSampleByteSize info) records)
    (hdw : dw.Whole (records.length * inSampleByteSize info)) {segs : List DataSegment}
    {ys : List (Option (List UInt8))} (h : Reads (inSampleByteSize info) records segs ys) :
    ∀ (written : List (List UInt8)) (hasGap : Bool), Rows (inSampleByteSize info) written →
      written.length + ys.length ≤ records.length →
      segs.foldlM (expandSegment info dw) ⟨(partlyWritten records written).flatten,
          (written.length * inSampleByteSize info : ℕ), hasGap⟩ =
        .ok ⟨(partlyWritten records (written ++ ys.map (sampleWord info))).flatten,
          ((written.length + ys.length) * inSampleByteSize info : ℕ),
          hasGap || decide (none ∈ ys)⟩ := by
  induction h with
  | nil =>
    intro written hasGap _ _
    simp [pure, Except.pure]
  | @gap segs ys a b c hc _ ih =>
    intro written hasGap hwritten hroom
    have hnew := rows_replicate_gapSample info c
    rw [List.length_append, List.length_replicate] at hroom
    have hnext : ((written.length * inSampleByteSize info : ℕ) : ℤ) + c * inSampleByteSize info =
        ((written.length + (List.replicate c (gapSample info (inSampleByteSize info))).length) *
          inSampleByteSize info : ℕ) := by
      rw [List.length_replicate, Nat.add_mul]
      push_cast
      rfl
    have hstep : expandSegment info dw ⟨(partlyWritten records written).flatten,
        (written.length * inSampleByteSize info : ℕ), hasGap⟩ ⟨a, b, c, true⟩ =
        .ok ⟨(partlyWritten records (written ++
          List.replicate c (gapSample info (inSampleByteSize info)))).flatten,
          ((written ++ List.replicate c (gapSample info (inSampleByteSize info))).length *
            inSampleByteSize info : ℕ), true⟩ := by
      rw [expandSegment, if_pos rfl]
      simp only [hnext]
      rw [assign_partlyWritten hrows hwritten hnew hdw (by rw [List.length_replicate]; omega),
        ← List.length_append]
      rfl
    have hmem : none ∈ List.replicate c none ++ ys :=
      List.mem_append_left _ (List.mem_replicate.mpr ⟨hc.ne', rfl⟩)
    rw [List.foldlM_cons, hstep, Py.ok_bind, ih _ _ (hwritten.append hnew) (by
      rw [List.length_append, List.length_replicate]; omega), List.map_append, List.map_replicate,
      List.append_assoc, List.length_append, List.length_append, List.length_replicate,
      List.length_replicate, Bool.true_or, decide_eq_true hmem, Bool.or_true, Nat.add_assoc]
    rfl
  | @data segs ys s e hs he hleft _ ih =>
    intro written hasGap hwritten hroom
    have hnew : Rows (inSampleByteSize info) (Py.segment records s e) := (hrows.take e).drop s
    have hcount : (Py.segment records s e).length = e - s := by
      rw [Py.length_segment]
      omega
    rw [List.length_append, List.length_map, hcount] at hroom
    have hbehind : written.length ≤ s := by omega
    have hpart := rows_partlyWritten hrows hwritten
    have hlen : (partlyWritten records written).flatten.length =
        records.length * inSampleByteSize info := by
      rw [hpart.length_flatten, length_partlyWritten (by omega)]
    have hnext : ((written.length * inSampleByteSize info : ℕ) : ℤ) +
        (e * inSampleByteSize info : ℕ) - (s * inSampleByteSize info : ℕ) =
        ((written.length + (Py.segment records s e).length) * inSampleByteSize info : ℕ) := by
      rw [hcount, Nat.add_mul, Nat.sub_mul]
      have := Nat.mul_le_mul_right (inSampleByteSize info) hs
      omega
    have hread : Py.slice (dw.data (partlyWritten records written).flatten)
        (s * inSampleByteSize info : ℕ) (e * inSampleByteSize info : ℕ) =
        (Py.segment records s e).flatten := by
      rw [DataWindow.Whole.data_eq (hlen ▸ hdw), Py.slice_eq_segment _ (Nat.mul_le_mul_right _ hs)
        (hlen ▸ Nat.mul_le_mul_right _ he), hpart.segment_flatten, segment_partlyWritten hbehind]
    have hstep : expandSegment info dw ⟨(partlyWritten records written).flatten,
        (written.length * inSampleByteSize info : ℕ), hasGap⟩
        ⟨some (s * inSampleByteSize info : ℕ), some (e * inSampleByteSize info : ℕ), e - s, false⟩ =
        .ok ⟨(partlyWritten records (written ++ Py.segment records s e)).flatten,
          ((written ++ Py.segment records s e).length * inSampleByteSize info : ℕ), hasGap⟩ := by
      rw [expandSegment, if_neg Bool.false_ne_true]
      simp only [hnext, hread]
      rw [assign_partlyWritten hrows hwritten hnew hdw (by omega), ← List.length_append]
      rfl
    have hwords : ((Py.segment records s e).map some).map (sampleWord info) =
        Py.segment records s e := by
      rw [List.map_map]
      exact List.map_id _
    have hmem : none ∈ (Py.segment records s e).map some ++ ys ↔ none ∈ ys := by simp
    rw [List.foldlM_cons, hstep, Py.ok_bind, ih _ _ (hwritten.append hnew) (by
      rw [List.length_append]; omega), List.map_append, hwords, List.append_assoc,
      List.length_append, List.length_append, List.length_map, Nat.add_assoc, decide_eq_decide.mpr hmem]

/-! ### The whole window -/

theorem unrollExternalWindow_eq {dw : DataWindow} {w : ℕ} (hdw : dw.Whole records.flatten.length)
    (hrows : Rows (inSampleByteSize info) records) (hw : w ≤ records.length)
    (hoffset : dw.lastRecordOffset = (w * inSampleByteSize info : ℕ)) :
    unrollExternalWindow records.flatten dw = .ok (records.drop w ++ records.take w).flatten := by
  have hlen := hrows.length_flatten
  have hle : w * inSampleByteSize info ≤ records.flatten.length :=
    hlen ▸ Nat.mul_le_mul_right _ hw
  rw [unrollExternalWindow, hoffset]
  split
  · next hall =>
    have hwhole : w = records.length := by
      rw [hlen] at hall
      exact Nat.eq_of_mul_eq_mul_right (inSampleByteSize_pos info) (Int.ofNat.inj hall)
    rw [hwhole, List.drop_length, List.take_length, List.nil_append]
  · have hfront : (records.flatten.length : ℤ) - (w * inSampleByteSize info : ℕ) =
        (records.flatten.length - w * inSampleByteSize info : ℕ) := (Nat.cast_sub hle).symm
    have htail : Py.slice records.flatten (w * inSampleByteSize info : ℕ) records.flatten.length =
        records.flatten.drop (w * inSampleByteSize info) := by
      rw [Py.slice_eq_segment _ hle le_rfl, Py.segment, List.take_length]
    have hhead : Py.slice records.flatten 0 (w * inSampleByteSize info : ℕ) =
        records.flatten.take (w * inSampleByteSize info) :=
      (Py.slice_eq_segment _ (Nat.zero_le _) hle).trans (by rw [Py.segment, List.drop_zero])
    have hfirst : Py.setSlice (List.replicate records.flatten.length (0 : UInt8)) 0
        (records.flatten.length - w * inSampleByteSize info : ℕ)
        (records.flatten.drop (w * inSampleByteSize info)) =
        records.flatten.drop (w * inSampleByteSize info) ++
          List.replicate (w * inSampleByteSize info) 0 := by
      have hzero : Py.sliceIndex records.flatten.length 0 = 0 := rfl
      rw [Py.setSlice, List.length_replicate, hzero, Py.sliceIndex_natCast (Nat.sub_le _ _),
        List.take_zero, List.nil_append, Nat.zero_max, List.drop_replicate, Nat.sub_sub_self hle]
    have hsecond : ∀ buf : List UInt8,
        buf = records.flatten.drop (w * inSampleByteSize info) ++
          List.replicate (w * inSampleByteSize info) 0 →
        Py.setSlice buf (records.flatten.length - w * inSampleByteSize info : ℕ) buf.length
          (records.flatten.take (w * inSampleByteSize info)) =
        records.flatten.drop (w * inSampleByteSize info) ++
          records.flatten.take (w * inSampleByteSize info) := by
      rintro buf rfl
      have hbuf : (records.flatten.drop (w * inSampleByteSize info) ++
          List.replicate (w * inSampleByteSize info) (0 : UInt8)).length =
            records.flatten.length := by
        rw [List.length_append, List.length_drop, List.length_replicate, Nat.sub_add_cancel hle]
      rw [Py.setSlice, hbuf, Py.sliceIndex_natCast (Nat.sub_le _ _), Py.sliceIndex_natCast le_rfl,
        Nat.max_eq_right (Nat.sub_le _ _), List.take_left' (List.length_drop ..),
        List.drop_eq_nil_of_le hbuf.le, List.append_nil]
    simp only [hdw.data_eq, hfront, htail, hhead, hfirst]
    rw [hsecond _ rfl, if_pos (by
      rw [List.length_append, List.length_drop, List.length_take, Nat.min_eq_left hle,
        Nat.sub_add_cancel hle]), hrows.drop_flatten, hrows.take_flatten, List.flatten_append]

/-- The records of a buffer in writing order, for a writer that stopped before record `w`. -/
def recordsWritten (info : TraceInfo) (data : List UInt8) (w : ℕ) : List (List UInt8) :=
  let records := split (inSampleByteSize info) info.windowSize data
  records.drop w ++ records.take w

/-- The samples a window ends with. -/
def windowSamples (info : TraceInfo) (data : List UInt8) (w lastGapCount : ℕ) :
    List (Option (List UInt8)) :=
  let stream := sampleStream info lastGapCount (recordsWritten info data w)
  stream.drop (stream.length - samplesInWindow info 0)

/-- The bytes of a sample, as a waveform has them. -/
def sampleBytes (info : TraceInfo) : Option (List UInt8) → List UInt8
  | none => gapSample info (outSampleByteSize info)
  | some record => record.take (outSampleByteSize info)

section Window

variable {data : List UInt8} {w : ℕ}

theorem recordsWritten_eq (info : TraceInfo) (data : List UInt8) (w : ℕ) :
    recordsWritten info data w =
      (split (inSampleByteSize info) info.windowSize data).drop
          (if w = 0 then info.windowSize else w) ++
        (split (inSampleByteSize info) info.windowSize data).take
          (if w = 0 then info.windowSize else w) := by
  rw [recordsWritten]
  split
  · next hzero =>
    rw [hzero, List.drop_zero, List.take_zero, List.append_nil, List.drop_eq_nil_of_le (by simp),
      List.take_of_length_le (by simp), List.nil_append]
  · rfl

theorem length_recordsWritten (hw : w ≤ info.windowSize) :
    (recordsWritten info data w).length = info.windowSize := by
  rw [recordsWritten, List.length_append, List.length_drop, List.length_take, length_split]
  omega

theorem rows_recordsWritten (hdata : data.length = info.windowSize * inSampleByteSize info) :
    Rows (inSampleByteSize info) (recordsWritten info data w) := by
  have hrows : Rows (inSampleByteSize info)
      (split (inSampleByteSize info) info.windowSize data) := rows_split hdata.ge
  exact (hrows.drop w).append (hrows.take w)

theorem length_windowSamples (henough : samplesInWindow info 0 ≤
      (sampleStream info lastGapCount (recordsWritten info data w)).length) :
    (windowSamples info data w lastGapCount).length = samplesInWindow info 0 := by
  rw [windowSamples, List.length_drop]
  omega

theorem samplesInWindow_pos (hpos : 0 < info.windowSize) (i : ℕ) : 0 < samplesInWindow info i := by
  rw [samplesInWindow]
  split <;> omega

/-- The one window of a buffer whose writer stopped before record `w`. -/
def onlyWindow (info : TraceInfo) (w lastGapCount : ℕ) : DataWindow where
  addr := 0
  size := inSampleByteSize info * info.windowSize
  lastRecordOffset := ((if w = 0 then info.windowSize else w) * inSampleByteSize info : ℕ)
  sampleCount := samplesInWindow info 0
  lastGapCount := lastGapCount

theorem whole_onlyWindow (info : TraceInfo) (w lastGapCount : ℕ) :
    (onlyWindow info w lastGapCount).Whole (info.windowSize * inSampleByteSize info) :=
  ⟨rfl, Nat.mul_comm _ _⟩

theorem dataWindows_eq (hpos : 0 < info.windowSize) (w lastGapCount : ℕ) :
    dataWindows info (info.windowSize * inSampleByteSize info) [(w * inSampleByteSize info : ℕ)]
        [lastGapCount] = .ok [onlyWindow info w lastGapCount] := by
  have hm := inSampleByteSize_pos info
  have hbytes : 0 < inSampleByteSize info * info.windowSize := Nat.mul_pos hm hpos
  have hcount : (info.windowSize * inSampleByteSize info + inSampleByteSize info * info.windowSize
      - 1) / (inSampleByteSize info * info.windowSize) = 1 := by
    rw [Nat.mul_comm info.windowSize, Nat.add_sub_assoc hbytes, Nat.add_div_left _ hbytes,
      Nat.div_eq_of_lt (by omega)]
  have hoffset : (if ((w * inSampleByteSize info : ℕ) : ℤ) - ((0 : ℕ) : ℤ) = 0 then
      ((inSampleByteSize info * info.windowSize : ℕ) : ℤ)
      else ((w * inSampleByteSize info : ℕ) : ℤ) - ((0 : ℕ) : ℤ)) =
      (((if w = 0 then info.windowSize else w) * inSampleByteSize info : ℕ) : ℤ) := by
    rcases Nat.eq_zero_or_pos w with rfl | hw
    · have hzero : ((0 * inSampleByteSize info : ℕ) : ℤ) - ((0 : ℕ) : ℤ) = 0 := by simp
      rw [if_pos hzero, if_pos rfl, Nat.mul_comm]
    · have hne : ((w * inSampleByteSize info : ℕ) : ℤ) - ((0 : ℕ) : ℤ) ≠ 0 := by
        have := Nat.mul_pos hw hm
        omega
      rw [if_neg hne, if_neg hw.ne', Nat.cast_zero, sub_zero]
  have hbeyond : Py.index [((w * inSampleByteSize info : ℕ) : ℤ)] ((0 : ℕ) : ℤ) =
      .ok ((w * inSampleByteSize info : ℕ) : ℤ) := Py.index_natCast rfl
  have hgap : Py.index [lastGapCount] ((0 : ℕ) : ℤ) = .ok lastGapCount := Py.index_natCast rfl
  rw [dataWindows]
  simp only
  rw [if_neg hbytes.ne', hcount]
  have hrange : (List.range 1).map (fun i : ℕ =>
      ((i, i * (inSampleByteSize info * info.windowSize)) : ℕ × ℕ)) = [(0, 0)] := by
    rw [List.range_one, List.map_singleton, Nat.zero_mul]
  rw [hrange, Py.mapExcept]
  simp only [hbeyond, hgap, Py.ok_bind, hoffset]
  rfl

/-- Decoding one window leaves the words of its last samples in front. -/
theorem decodeExternalData_words (hpos : 0 < info.windowSize)
    (hdata : data.length = info.windowSize * inSampleByteSize info) (hw : w ≤ info.windowSize)
    (hcount : samplesInWindow info 0 ≤ info.windowSize)
    (hgaps : GapsCounted info (recordsWritten info data w))
    (henough : samplesInWindow info 0 ≤
      (sampleStream info lastGapCount (recordsWritten info data w)).length) :
    decodeExternalData data info [(w * inSampleByteSize info : ℕ)] [lastGapCount] =
      .ok (removeSampleHighBytes info
          (partlyWritten (recordsWritten info data w)
            ((windowSamples info data w lastGapCount).map (sampleWord info))).flatten
          (samplesInWindow info 0),
        decide (none ∈ windowSamples info data w lastGapCount)) := by
  have hrows := rows_recordsWritten (w := w) hdata
  have hlen : (recordsWritten info data w).length = info.windowSize := length_recordsWritten hw
  have hflat : (recordsWritten info data w).flatten.length =
      info.windowSize * inSampleByteSize info := by rw [hrows.length_flatten, hlen]
  have hsplit : Rows (inSampleByteSize info)
      (split (inSampleByteSize info) info.windowSize data) := rows_split hdata.ge
  have hwhole := whole_onlyWindow info w lastGapCount
  have hunroll : unrollExternalWindow data (onlyWindow info w lastGapCount) =
      .ok (recordsWritten info data w).flatten := by
    have hoffset : (if w = 0 then info.windowSize else w) ≤
        (split (inSampleByteSize info) info.windowSize data).length := by
      rw [length_split]
      split <;> omega
    have hunroll := unrollExternalWindow_eq (by rw [flatten_split hdata, hdata]; exact hwhole)
      hsplit hoffset rfl
    rwa [flatten_split hdata, ← recordsWritten_eq] at hunroll
  obtain ⟨segs, hsegs, hreads⟩ := findDataSegments_reads (by rw [hflat]; exact hwhole) hrows hgaps
    (samplesInWindow_pos hpos 0) henough
  have hlength := length_windowSamples henough
  have hexpand := foldlM_expandSegment hrows (by rw [hlen]; exact hwhole) hreads [] false
    (fun _ h => nomatch h) (by
      rw [List.length_nil, Nat.zero_add, hlen]
      exact hlength.le.trans hcount)
  have hstart : partlyWritten (recordsWritten info data w) [] = recordsWritten info data w := rfl
  rw [hstart, List.length_nil, Nat.zero_mul, Bool.false_or, List.nil_append] at hexpand
  have hdecode : decodeWindow info (data, false) (onlyWindow info w lastGapCount) =
      .ok ((partlyWritten (recordsWritten info data w)
        ((windowSamples info data w lastGapCount).map (sampleWord info))).flatten,
        decide (none ∈ windowSamples info data w lastGapCount)) := by
    rw [decodeWindow, hunroll, Py.ok_bind, hsegs, Py.ok_bind]
    exact (congrArg (· >>= _) hexpand).trans rfl
  rw [decodeExternalData, hdata, dataWindows_eq hpos, Py.ok_bind]
  simp only [List.map_singleton, List.sum_singleton, List.foldlM_cons, List.foldlM_nil, hdecode,
    Py.ok_bind]
  rfl

/-- The low bytes of the words in front. -/
theorem removeSampleHighBytes_eq {written rest : List (List UInt8)}
    (hwritten : Rows (inSampleByteSize info) written) (hrest : Rows (inSampleByteSize info) rest)
    (hne : outSampleByteSize info ≠ inSampleByteSize info) :
    removeSampleHighBytes info (written ++ rest).flatten written.length =
      (written.map (·.take (outSampleByteSize info))).flatten := by
  have hlen := (hwritten.append hrest).length_flatten
  have hfirst : (List.range' 0 (written ++ rest).length (inSampleByteSize info)).take written.length =
      List.range' 0 written.length (inSampleByteSize info) := by
    rw [List.length_append, ← List.range'_append, List.take_left' (List.length_range' ..)]
  rw [removeSampleHighBytes, if_neg hne, addresses_eq (inSampleByteSize_pos info) hlen, hfirst,
    List.flatten_append]
  exact take_moveDown_append (outSampleByteSize_le info) hwritten rest.flatten

theorem take_gapSample {count count' : ℕ} (h : count' ≤ count) :
    (gapSample info count).take count' = gapSample info count' := by
  rw [gapSample, ← List.map_take, List.take_range, Nat.min_eq_left h, gapSample]

/-- A gap sample has just the bit above the data bits set. -/
theorem bit_gapSample {count : ℕ} (h : info.dataWidth < 8 * count) (j : ℕ) :
    Bits.bit (gapSample info count) j = decide (j = info.dataWidth) := by
  have hbyte : (gapSample info count).getD (j / 8) 0 =
      if j / 8 = info.dataWidth / 8 then UInt8.ofNat (1 <<< (info.dataWidth % 8)) else 0 := by
    rw [gapSample, List.getD_eq_getElem?_getD, List.getElem?_map]
    rcases Nat.lt_or_ge (j / 8) count with hlt | hge
    · rw [List.getElem?_range hlt]
      rfl
    · rw [List.getElem?_eq_none (by simpa using hge), if_neg (by omega)]
      rfl
  rw [Bits.bit, hbyte]
  have hmod : info.dataWidth % 8 < 8 := Nat.mod_lt _ (by decide)
  split
  · next hsame =>
    have hsmall : 1 <<< (info.dataWidth % 8) < 2 ^ 8 := by
      rw [Nat.one_shiftLeft]
      exact Nat.pow_lt_pow_right (by decide) hmod
    rw [UInt8.toNat_ofNat_of_lt' hsmall, Nat.one_shiftLeft, Nat.testBit_two_pow]
    exact decide_eq_decide.mpr (by omega)
  · next hother =>
    have hne : j ≠ info.dataWidth := fun heq => hother (heq ▸ rfl)
    rw [decide_eq_false hne]
    exact Nat.zero_testBit _

/-- Words cut to the bytes a waveform has of them. -/
theorem take_sampleWord (y : Option (List UInt8)) :
    (sampleWord info y).take (outSampleByteSize info) = sampleBytes info y := by
  cases y with
  | none => exact take_gapSample (outSampleByteSize_le info)
  | some record => rfl

theorem rows_sampleWords (hdata : data.length = info.windowSize * inSampleByteSize info) :
    Rows (inSampleByteSize info)
      ((windowSamples info data w lastGapCount).map (sampleWord info)) := by
  intro row hrow
  obtain ⟨y, hy, rfl⟩ := List.mem_map.mp hrow
  cases y with
  | none => exact length_gapSample info _
  | some record =>
    have hmem := List.mem_of_mem_drop hy
    rcases List.mem_append.mp hmem with hstream | hgap
    · obtain ⟨record', hrecord', hin⟩ := List.mem_flatMap.mp hstream
      rw [recordSamples] at hin
      split at hin
      · exact absurd (List.eq_of_mem_replicate hin) (by simp)
      · rw [List.mem_singleton, Option.some.injEq] at hin
        exact rows_recordsWritten hdata _ (hin ▸ hrecord')
    · exact absurd (List.eq_of_mem_replicate hgap) (by simp)

theorem sampleBytes_words : ((windowSamples info data w lastGapCount).map (sampleWord info)).map
    (·.take (outSampleByteSize info)) =
      (windowSamples info data w lastGapCount).map (sampleBytes info) := by
  rw [List.map_map]
  exact List.map_congr_left fun y _ => take_sampleWord y

/-- A buffer that keeps its samples as they are is returned whole. -/
theorem decodeExternalData_ne (hpos : 0 < info.windowSize)
    (hdata : data.length = info.windowSize * inSampleByteSize info) (hw : w ≤ info.windowSize)
    (hcount : samplesInWindow info 0 < info.windowSize)
    (hgaps : GapsCounted info (recordsWritten info data w))
    (henough : samplesInWindow info 0 ≤
      (sampleStream info lastGapCount (recordsWritten info data w)).length)
    (hsame : outSampleByteSize info = inSampleByteSize info) :
    decodeExternalData data info [(w * inSampleByteSize info : ℕ)] [lastGapCount] ≠
      .ok ((windowSamples info data w lastGapCount).flatMap (sampleBytes info),
        decide (none ∈ windowSamples info data w lastGapCount)) := by
  have hlength := length_windowSamples henough
  have hwords : Rows (inSampleByteSize info)
      ((windowSamples info data w lastGapCount).map (sampleWord info)) := rows_sampleWords hdata
  have hrows : Rows (inSampleByteSize info) (recordsWritten info data w) :=
    rows_recordsWritten hdata
  rw [decodeExternalData_words hpos hdata hw hcount.le hgaps henough, removeSampleHighBytes,
    if_pos hsame]
  intro hresult
  have hbytes := congrArg List.length (congrArg Prod.fst (Except.ok.inj hresult))
  have hshort : ((windowSamples info data w lastGapCount).flatMap (sampleBytes info)).length =
      samplesInWindow info 0 * inSampleByteSize info := by
    have htaken : Rows (inSampleByteSize info)
        ((windowSamples info data w lastGapCount).map (sampleBytes info)) := by
      intro row hrow
      rw [← sampleBytes_words, hsame] at hrow
      obtain ⟨word, hword, rfl⟩ := List.mem_map.mp hrow
      rw [List.length_take, hwords word hword, Nat.min_self]
    rw [List.flatMap_def, htaken.length_flatten, List.length_map, hlength]
  rw [hshort, (rows_partlyWritten hrows hwords).length_flatten, length_partlyWritten (by
    rw [List.length_map, hlength, length_recordsWritten hw]
    exact hcount.le), length_recordsWritten hw] at hbytes
  exact hcount.ne' (Nat.eq_of_mul_eq_mul_right (inSampleByteSize_pos info) hbytes)

/-- The decoder returns the last samples of the stream when their bytes are fewer than those of a
    record, or when they fill the window; else it returns the whole buffer. -/
theorem decodeExternalData_eq_iff (hpos : 0 < info.windowSize)
    (hdata : data.length = info.windowSize * inSampleByteSize info) (hw : w ≤ info.windowSize)
    (hcount : samplesInWindow info 0 ≤ info.windowSize)
    (hgaps : GapsCounted info (recordsWritten info data w))
    (henough : samplesInWindow info 0 ≤
      (sampleStream info lastGapCount (recordsWritten info data w)).length) :
    decodeExternalData data info [(w * inSampleByteSize info : ℕ)] [lastGapCount] =
        .ok ((windowSamples info data w lastGapCount).flatMap (sampleBytes info),
          decide (none ∈ windowSamples info data w lastGapCount)) ↔
      outSampleByteSize info ≠ inSampleByteSize info ∨ samplesInWindow info 0 = info.windowSize := by
  constructor
  · intro hresult
    by_contra hcond
    rw [not_or, not_not] at hcond
    exact decodeExternalData_ne hpos hdata hw (lt_of_le_of_ne hcount hcond.2) hgaps henough hcond.1
      hresult
  · intro hcond
    have hlength := length_windowSamples henough
    have hwords : Rows (inSampleByteSize info)
        ((windowSamples info data w lastGapCount).map (sampleWord info)) := rows_sampleWords hdata
    rw [decodeExternalData_words hpos hdata hw hcount hgaps henough, partlyWritten,
      List.flatMap_def, ← sampleBytes_words]
    by_cases hsame : outSampleByteSize info = inSampleByteSize info
    · have hfull : samplesInWindow info 0 = info.windowSize :=
        hcond.resolve_left (not_not.mpr hsame)
      have hrest : (recordsWritten info data w).drop
          ((windowSamples info data w lastGapCount).map (sampleWord info)).length = [] :=
        List.drop_eq_nil_of_le (by
          rw [length_recordsWritten hw, List.length_map, hlength, hfull])
      have htake : ((windowSamples info data w lastGapCount).map (sampleWord info)).map
          (·.take (outSampleByteSize info)) =
            (windowSamples info data w lastGapCount).map (sampleWord info) :=
        (List.map_congr_left fun row hrow =>
          List.take_of_length_le ((hwords row hrow).trans hsame.symm).le).trans (List.map_id _)
      rw [removeSampleHighBytes, if_pos hsame, hrest, List.append_nil, htake]
    · have hrest : Rows (inSampleByteSize info) ((recordsWritten info data w).drop
          ((windowSamples info data w lastGapCount).map (sampleWord info)).length) :=
        (rows_recordsWritten hdata).drop _
      have hremove := removeSampleHighBytes_eq hwords hrest hsame
      rw [List.length_map, hlength] at hremove
      rw [List.length_map, hlength, hremove]

/-! ### A buffer of zeros -/

theorem mem_of_mem_recordsWritten {record : List UInt8} {b : UInt8}
    (hdata : data.length = info.windowSize * inSampleByteSize info)
    (hrecord : record ∈ recordsWritten info data w) (hb : b ∈ record) : b ∈ data := by
  rw [← flatten_split hdata]
  refine List.mem_flatten.mpr ⟨record, ?_, hb⟩
  rcases List.mem_append.mp hrecord with h | h
  · exact List.mem_of_mem_drop h
  · exact List.mem_of_mem_take h

/-- Zeros are data records. -/
theorem gapsCounted_zeros {size : ℕ} (hsize : size = info.windowSize * inSampleByteSize info) :
    GapsCounted info (recordsWritten info (List.replicate size 0) w) := by
  intro record hrecord hgap
  have hzero : record.getD ((8 * inSampleByteSize info - 1) / 8) 0 = 0 := by
    rw [List.getD_eq_getElem?_getD]
    cases hbyte : record[(8 * inSampleByteSize info - 1) / 8]? with
    | none => rfl
    | some b =>
      exact List.eq_of_mem_replicate (mem_of_mem_recordsWritten (by rw [List.length_replicate, hsize])
        hrecord (List.mem_of_getElem? hbyte))
  rw [isGapRecord, Bits.bit, hzero] at hgap
  simp at hgap

theorem samples_zeros {size : ℕ} (hsize : size = info.windowSize * inSampleByteSize info)
    (hw : w ≤ info.windowSize) : info.windowSize ≤ (sampleStream info lastGapCount
      (recordsWritten info (List.replicate size 0) w)).length := by
  have hle : (recordsWritten info (List.replicate size 0) w).length ≤ (sampleStream info lastGapCount
      (recordsWritten info (List.replicate size 0) w)).length :=
    length_le_sampleStream (gapsCounted_zeros hsize)
  rwa [length_recordsWritten hw] at hle

/-- A full window of nine bit samples, the last five of them missing. -/
theorem decodeExternalData_fullWindow :
    decodeExternalData (List.replicate 65536 0) ⟨8, 0, 1, 1024, 0⟩ [(3 * 64 : ℕ)] [5] =
      .ok ((windowSamples ⟨8, 0, 1, 1024, 0⟩ (List.replicate 65536 0) 3 5).flatMap
          (sampleBytes ⟨8, 0, 1, 1024, 0⟩),
        decide (none ∈ windowSamples ⟨8, 0, 1, 1024, 0⟩ (List.replicate 65536 0) 3 5)) :=
  (decodeExternalData_eq_iff (by decide) (List.length_replicate.trans rfl) (by decide)
    (by decide) (gapsCounted_zeros rfl) (samples_zeros rfl (by decide))).mpr (Or.inr rfl)

/-- One sample of a window whose samples fill their records: all the window is returned. -/
theorem decodeExternalData_partialWindow :
    decodeExternalData (List.replicate 65536 0) ⟨511, 0, 1, 1024, 1⟩ [(0 * 64 : ℕ)] [0] ≠
      .ok ((windowSamples ⟨511, 0, 1, 1024, 1⟩ (List.replicate 65536 0) 0 0).flatMap
          (sampleBytes ⟨511, 0, 1, 1024, 1⟩),
        decide (none ∈ windowSamples ⟨511, 0, 1, 1024, 1⟩ (List.replicate 65536 0) 0 0)) :=
  decodeExternalData_ne (by decide) (by rw [List.length_replicate]; rfl) (by decide) (by decide)
    (gapsCounted_zeros rfl) (le_trans (by decide) (samples_zeros rfl (by decide))) rfl

end Window

end Chipscopy.Upload
