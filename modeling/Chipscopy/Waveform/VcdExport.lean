import Chipscopy.Waveform.VcdEvents
import Chipscopy.Waveform.VcdHeader

/-! Dumps agree with `get_data`

    A dump of the exported samples is read again. At the time of every exported sample each variable
    reads what `get_data` reports for this sample, and a gap reads as unknown in every probe. -/

namespace Chipscopy.Waveform

open ILAWaveform
open ValueChange (Lines Solid Var File Reader Event times valueAt zeroExtend words)
open WaveformWriterVCD

/-! ### What a dump is -/

/-- The variable of a probe and its values at the times of some samples. -/
structure ReadsProbe (wf : ILAWaveform) (samples : List ℕ) (file : File) (p : ILAWaveformProbe)
    (v : Var) : Prop where
  width : v.width = p.length
  reference : v.reference = words (makeProbeName p)
  length : ∀ i ∈ samples, (file.reading v i).length = p.length
  gap : ∀ i ∈ samples, wf.gapAt i = true → ∀ c ∈ file.reading v i, c = 'x'
  value : ∀ i ∈ samples, wf.gapAt i = false →
    Bits.parseBin (file.reading v i) = .ok (wf.probeValue p i)

/-- The variable of a flag. -/
structure ReadsFlag (samples : List ℕ) (file : File) (mark : String × (ℕ → Bool)) (v : Var) :
    Prop where
  width : v.width = 1
  reference : v.reference = [mark.1.toList]
  value : ∀ i ∈ samples, file.reading v i = flag (mark.2 i)

/-- The flags of a dump. -/
def flags (wf : ILAWaveform) (includeGap : Bool) : List (String × (ℕ → Bool)) :=
  [("_TRIGGER", fun i => decide (wf.triggerAt i)),
    ("_WINDOW", fun i => i / wf.windowSize % 2 != 0)] ++
    if includeGap then [("_GAP", wf.gapAt)] else []

/-- A dump that shows the exported samples, with the values that `get_data` reports. -/
structure Lossless (wf : ILAWaveform) (probes : List ILAWaveformProbe) (includeGap : Bool)
    (names : List String) (sw ss : ℤ) (wc sc : Option ℤ) (r : SampleRange) (file : File) :
    Prop where
  ids : (file.vars.map (·.id)).Nodup
  increasing : (times file.events).Pairwise (· < ·)
  stamps : ∀ t ∈ times file.events, t ∈ wf.exportedSamples r
  lastSample : ∀ i ∈ wf.exportedSamples r, i + 1 = wf.sampleCount → i ∈ times file.events
  vars : ∃ probeVars flagVars, file.vars = probeVars ++ flagVars ∧
    List.Forall₂ (ReadsProbe wf (wf.exportedSamples r) file) probes probeVars ∧
    List.Forall₂ (ReadsFlag (wf.exportedSamples r) file) (flags wf includeGap) flagVars
  getData : getWaveformDataValues wf names sw wc ss sc ⟨true, true, true⟩ =
    .ok ((wf.exportedSamples r).foldl
      (fun d i => d.appendAll (rowAt wf probes ⟨true, true, true⟩ i)) Py.Dict.empty)

variable {wf : ILAWaveform} {probes : List ILAWaveformProbe} {includeGap : Bool}

/-! ### Digits of a sample -/

/-- Digits of a probe, least significant first. -/
def probeDigits (wf : ILAWaveform) (i : ℕ) (p : ILAWaveformProbe) : List Char :=
  if wf.gapAt i then List.replicate p.length 'x' else (wf.probeBits p i).map Bits.bitChar

theorem shownValues_recordAt (wf : ILAWaveform) (probes : List ILAWaveformProbe) (i : ℕ) :
    shownValues (wf.recordAt probes i) = probes.map (probeDigits wf i) := by
  have hgap : (wf.recordAt probes i).isGap = wf.gapAt i := rfl
  have hvalues : (wf.recordAt probes i).probeBinaryReversedValues =
      probes.map fun p => (wf.probeBits p i).map Bits.bitChar := rfl
  rw [shownValues, hgap, hvalues]
  cases hg : wf.gapAt i with
  | false => simp [probeDigits, hg]
  | true =>
    simp [probeDigits, hg, WaveformWriterCSV.makeValuesUnknown, length_probeBits]

theorem length_probeDigits (wf : ILAWaveform) (i : ℕ) (p : ILAWaveformProbe) :
    (probeDigits wf i p).length = p.length := by
  rw [probeDigits]
  split_ifs
  · exact List.length_replicate
  · rw [List.length_map, length_probeBits]

theorem writable_probeDigits {p : ILAWaveformProbe} (hpos : 0 < p.length) (i : ℕ) :
    Writable (wf.gapAt i) (probeDigits wf i p) := by
  refine ⟨List.ne_nil_of_length_pos ((length_probeDigits wf i p).symm ▸ hpos), ?_⟩
  rw [probeDigits]
  split_ifs with hgap
  · exact .inr ⟨hgap, fun c hc => List.eq_of_mem_replicate hc⟩
  · refine .inl fun c hc => ?_
    obtain ⟨b, -, rfl⟩ := List.mem_map.mp hc
    cases b
    · exact .inl rfl
    · exact .inr rfl

/-- A reader puts back the zeros that are left out. -/
theorem zeroExtend_probeDigits (wf : ILAWaveform) (i : ℕ) (p : ILAWaveformProbe) :
    zeroExtend p.length (shownDigits (probeDigits wf i p)) = (probeDigits wf i p).reverse := by
  have hlength := length_probeDigits wf i p
  rw [probeDigits] at hlength ⊢
  split_ifs at hlength ⊢ with hgap
  · rw [zeroExtend_shownDigits_unknown, List.reverse_replicate]
  · rw [← hlength]
    refine zeroExtend_shownDigits_bits fun c hc => ?_
    obtain ⟨b, -, rfl⟩ := List.mem_map.mp hc
    cases b
    · exact .inl rfl
    · exact .inr rfl

/-! ### The writer before the first sample -/

section Start

variable {a b c : List Char} {rest : List (List Char)} (hnodup : (a :: b :: c :: rest).Nodup)
  (hcodes : ∀ code ∈ a :: b :: c :: rest, code ∈ generateVars)
  (hlength : rest.length = probes.length) (text : List Char)

theorem codes_sublist (includeGap : Bool) :
    (codes ((blank probes includeGap a b c rest).write text)).Sublist (a :: b :: c :: rest) := by
  have hcodes : codes ((blank probes includeGap a b c rest).write text) =
      [a] ++ [b] ++ (if includeGap then [c] else []) ++ rest := rfl
  rw [hcodes]
  cases includeGap with
  | false => simp
  | true => simp

include hnodup hcodes hlength in
theorem ready_blank (includeGap : Bool) :
    Ready ((blank probes includeGap a b c rest).write text) where
  nodup := hnodup.sublist (codes_sublist text includeGap)
  solid := fun code hcode =>
    solid_generateVars (hcodes code ((codes_sublist text includeGap).mem hcode))
  values := by
    have hvalues : (List.replicate probes.length (none : Option (List Char))).length =
      rest.length := by simp [hlength]
    exact hvalues

theorem holds_blank (includeGap : Bool) :
    Holds ((blank probes includeGap a b c rest).write text) [] := by
  intro e he
  have hremembered : remembered ((blank probes includeGap a b c rest).write text) =
      [(a, none)] ++ [(b, none)] ++ (if includeGap then [(c, none)] else []) ++
        rest.zip (List.replicate probes.length none) := rfl
  have hnone : e.2 = none := by
    rw [hremembered] at he
    simp only [List.mem_append, List.mem_singleton] at he
    rcases he with ((rfl | rfl) | he) | he
    · rfl
    · rfl
    · split_ifs at he
      · rw [List.mem_singleton.mp he]
      · cases he
    · exact List.eq_of_mem_replicate (List.of_mem_zip he).2
  rw [hnone]
  rfl

include hlength in
theorem complete_blank (hpos : ∀ p ∈ probes, 0 < p.length) (includeGap : Bool) (i : ℕ) :
    Complete ((blank probes includeGap a b c rest).write text) (wf.recordAt probes i) where
  length := by
    rw [shownValues_recordAt, List.length_map]
    exact hlength
  writable := by
    intro v hv
    rw [shownValues_recordAt] at hv
    obtain ⟨p, hp, rfl⟩ := List.mem_map.mp hv
    exact writable_probeDigits (hpos p hp) i

end Start

/-! ### Reading the samples -/

theorem pairwise_exportedSamples (wf : ILAWaveform) (r : SampleRange) :
    (wf.exportedSamples r).Pairwise (· < ·) := List.pairwise_lt_range.filter _

/-- What the writer is given for some samples. -/
def records (wf : ILAWaveform) (probes : List ILAWaveformProbe) (r : SampleRange) :
    List SampleRecord := (wf.exportedSamples r).map (wf.recordAt probes)

theorem map_samplePosition_records (wf : ILAWaveform) (r : SampleRange) :
    (records wf probes r).map (·.samplePosition) = wf.exportedSamples r := by
  rw [records, List.map_map]
  exact List.map_id _

section Samples

variable {w : WaveformWriterVCD} {r : SampleRange} (hready : Ready w) (hholds : Holds w [])
  (hcomplete : ∀ i, Complete w (wf.recordAt probes i))

include hready hholds hcomplete in
/-- At the time of a sample, its digits are read. -/
theorem valueAt_records {i : ℕ} (hi : i ∈ wf.exportedSamples r) {e : List Char × List Char}
    (he : e ∈ digits w (wf.recordAt probes i)) :
    valueAt i e.1 true none (dumpEvents w (records wf probes r)) = some (shownDigits e.2) := by
  have hsorted : ((records wf probes r).map (·.samplePosition)).Pairwise (· < ·) := by
    rw [map_samplePosition_records]
    exact pairwise_exportedSamples wf r
  have hall : ∀ record ∈ records wf probes r, Complete w record := by
    intro record hrecord
    obtain ⟨j, -, rfl⟩ := List.mem_map.mp hrecord
    exact hcomplete j
  have hmem : wf.recordAt probes i ∈ records wf probes r := List.mem_map_of_mem hi
  exact valueAt_dumpEvents hready hall hholds hsorted (by simp [times]) _ hmem e he

end Samples

/-- The variable of a probe. -/
theorem readsProbe_probeVar {file : File} {samples : List ℕ} {p : ILAWaveformProbe}
    {code : List Char} (hpos : 0 < p.length)
    (h : ∀ i ∈ samples,
      valueAt i code true none file.events = some (shownDigits (probeDigits wf i p))) :
    ReadsProbe wf samples file p (probeVar (p, code)) := by
  have hread : ∀ i ∈ samples,
      file.reading (probeVar (p, code)) i = (probeDigits wf i p).reverse := by
    intro i hi
    rw [← zeroExtend_probeDigits, File.reading]
    simp only [probeVar, h i hi]
  refine ⟨rfl, rfl, fun i hi => ?_, fun i hi hgap c hc => ?_, fun i hi hgap => ?_⟩
  · rw [hread i hi, List.length_reverse, length_probeDigits]
  · rw [hread i hi, List.mem_reverse, probeDigits, if_pos hgap] at hc
    exact List.eq_of_mem_replicate hc
  · rw [hread i hi, probeDigits, if_neg (by simp [hgap])]
    refine Bits.parseBin_reverse_bits ?_
    exact List.ne_nil_of_length_pos ((length_probeBits p i).symm ▸ hpos)

/-- The variable of a flag. -/
theorem readsFlag_var {file : File} {samples : List ℕ} {name : String} {mark : ℕ → Bool}
    {code : List Char}
    (h : ∀ i ∈ samples, valueAt i code true none file.events = some (shownDigits (flag (mark i)))) :
    ReadsFlag samples file (name, mark) ⟨1, code, [name.toList]⟩ := by
  refine ⟨rfl, rfl, fun i hi => ?_⟩
  rw [File.reading]
  simp only [h i hi, shownDigits_flag]
  cases mark i with
  | false => rfl
  | true => rfl

theorem forall₂_map_zip {α β γ : Type} {R : α → γ → Prop} {f : α × β → γ} {l : List α}
    {l' : List β} (hlength : l.length = l'.length) (h : ∀ e ∈ l.zip l', R e.1 (f e)) :
    List.Forall₂ R l ((l.zip l').map f) := by
  have hzip : List.Forall₂ R ((l.zip l').map Prod.fst) ((l.zip l').map f) := by
    rw [List.forall₂_map_left_iff, List.forall₂_map_right_iff, List.forall₂_same]
    exact h
  rwa [List.map_fst_zip hlength.le] at hzip

/-! ### The dump of an export -/

section Dump

variable {a b c : List Char} {rest : List (List Char)} {r : SampleRange} {text : List Char}

/-- What is read of the dump. -/
def dumpFile (wf : ILAWaveform) (probes : List ILAWaveformProbe) (includeGap : Bool)
    (a b c : List Char) (rest : List (List Char)) (text : List Char) (r : SampleRange) : File where
  vars := (probes.zip rest).map probeVar ++ flagVars includeGap a b c
  events := dumpEvents ((blank probes includeGap a b c rest).write text) (records wf probes r)

theorem map_id_flagVars (includeGap : Bool) : (flagVars includeGap a b c).map (·.id) =
    [a] ++ [b] ++ if includeGap then [c] else [] := by
  cases includeGap <;> rfl

variable (hnodup : (a :: b :: c :: rest).Nodup) (hlength : rest.length = probes.length)
  (hvalues : ∀ i ∈ wf.exportedSamples r, ∀ e ∈ digits
    ((blank probes includeGap a b c rest).write text) (wf.recordAt probes i),
      valueAt i e.1 true none (dumpFile wf probes includeGap a b c rest text r).events =
        some (shownDigits e.2))

include hnodup hlength in
theorem nodup_ids : ((dumpFile wf probes includeGap a b c rest text r).vars.map (·.id)).Nodup := by
  have hids : ((probes.zip rest).map probeVar).map (·.id) = rest := by
    rw [List.map_map]
    exact List.map_snd_zip hlength.le
  have hcodes : (codes ((blank probes includeGap a b c rest).write text)).Nodup :=
    hnodup.sublist (codes_sublist text includeGap)
  rw [dumpFile, List.map_append, hids, map_id_flagVars]
  exact (List.perm_append_comm.nodup_iff).mp hcodes

include hlength hvalues in
theorem forall₂_probeVars (hpos : ∀ p ∈ probes, 0 < p.length) :
    List.Forall₂ (ReadsProbe wf (wf.exportedSamples r)
      (dumpFile wf probes includeGap a b c rest text r)) probes
        ((probes.zip rest).map probeVar) := by
  refine forall₂_map_zip hlength.symm fun e he => ?_
  obtain ⟨p, code⟩ := e
  refine readsProbe_probeVar (hpos p (List.of_mem_zip he).1) fun i hi => ?_
  refine hvalues i hi (code, probeDigits wf i p) (List.mem_append_right _ ?_)
  rw [shownValues_recordAt, List.zip_map_right]
  refine List.mem_map.mpr ⟨(code, p), ?_, rfl⟩
  have hswap := List.mem_map_of_mem (f := Prod.swap) he
  rwa [List.zip_swap] at hswap

include hvalues in
theorem forall₂_flagVars : List.Forall₂ (ReadsFlag (wf.exportedSamples r)
    (dumpFile wf probes includeGap a b c rest text r)) (flags wf includeGap)
      (flagVars includeGap a b c) := by
  have htrigger : ReadsFlag (wf.exportedSamples r)
      (dumpFile wf probes includeGap a b c rest text r)
      ("_TRIGGER", fun i => decide (wf.triggerAt i)) ⟨1, a, ["_TRIGGER".toList]⟩ := by
    refine readsFlag_var fun i hi => hvalues i hi (a, flag (wf.triggerAt i)) ?_
    refine List.mem_append_left _ (List.mem_append_left _ (List.mem_append_left _ ?_))
    exact List.mem_singleton_self _
  have hwindow : ReadsFlag (wf.exportedSamples r)
      (dumpFile wf probes includeGap a b c rest text r)
      ("_WINDOW", fun i => i / wf.windowSize % 2 != 0) ⟨1, b, ["_WINDOW".toList]⟩ := by
    refine readsFlag_var fun i hi => hvalues i hi (b, windowMark (i / wf.windowSize)) ?_
    refine List.mem_append_left _ (List.mem_append_left _ (List.mem_append_right _ ?_))
    exact List.mem_singleton_self _
  cases includeGap with
  | false => exact .cons htrigger (.cons hwindow .nil)
  | true =>
    refine .cons htrigger (.cons hwindow (.cons ?_ .nil))
    refine readsFlag_var fun i hi => hvalues i hi (c, flag (wf.gapAt i)) ?_
    exact List.mem_append_left _ (List.mem_append_right _ (List.mem_singleton_self _))

end Dump

section Export

variable {names : List String} {r : SampleRange} {sw ss : ℤ} {wc sc : Option ℤ}
  (hwf : wf.Framed) (hsel : selectProbes wf exportBadNames names = .ok probes)
  (hcount : probes.length ≤ 800000) (hin : wf.ProbesInside probes)
  (hpos : ∀ p ∈ probes, 0 < p.length)
  (hr : wf.checkRange "export_waveform()" sw wc ss sc = .ok r)

include hwf hsel hcount hin hpos hr

/-- The text of a dump, and what its samples are read as. -/
theorem exportVcd_eq (includeGap : Bool) (version : String) (now : Timestamp) :
    ∃ a b c rest text w, generateVars.take (probes.length + 3) = a :: b :: c :: rest ∧
      rest.length = probes.length ∧ (a :: b :: c :: rest).Nodup ∧
      (∀ code ∈ a :: b :: c :: rest, code ∈ generateVars) ∧
      w = (blank probes includeGap a b c rest).write
        (start probes includeGap a b c rest version now) ∧
      exportVcd wf names sw wc ss sc includeGap version now = .ok text ∧
      (∀ file, Reader.run ⟨.declarations, ⟨[], []⟩⟩
          (start probes includeGap a b c rest version now) = ⟨.changes, file⟩ →
        ValueChange.read text =
          some ⟨file.vars, file.events ++ dumpEvents w (records wf probes r)⟩) ∧
      ∀ i ∈ wf.exportedSamples r, ∀ e ∈ digits w (wf.recordAt probes i),
        valueAt i e.1 true none (dumpEvents w (records wf probes r)) = some (shownDigits e.2) := by
  obtain ⟨a, b, c, rest, htake, hlength, hnodup, hcodes⟩ := exists_codes hcount
  let text := start probes includeGap a b c rest version now
  have hinit := init_eq htake includeGap version now
  have hready := ready_blank hnodup hcodes hlength text includeGap
  have hholds : Holds ((blank probes includeGap a b c rest).write text) [] :=
    holds_blank text includeGap
  have hcomplete : ∀ i, Complete ((blank probes includeGap a b c rest).write text)
      (wf.recordAt probes i) := fun i => complete_blank hlength text hpos includeGap i
  have hall : ∀ record ∈ records wf probes r,
      Complete ((blank probes includeGap a b c rest).write text) record := by
    intro record hrecord
    obtain ⟨i, -, rfl⟩ := List.mem_map.mp hrecord
    exact hcomplete i
  obtain ⟨w, hrun, htext⟩ := foldlM_writeSample hready hall
  refine ⟨a, b, c, rest, w.text, _, htake, hlength, hnodup, hcodes, rfl, ?_, fun file hfile => ?_,
    fun i hi e he => valueAt_records hready hholds hcomplete hi he⟩
  · rw [records, List.foldlM_map] at hrun
    rw [exportVcd, hsel, Py.ok_bind, hinit, wf.exportWaveform_eq writeSample hwf hin _ hr, hrun]
    rfl
  · have hread : Reader.run ⟨.declarations, ⟨[], []⟩⟩ w.text = ⟨.changes,
        ⟨file.vars, file.events ++ dumpEvents ((blank probes includeGap a b c rest).write text)
          (records wf probes r)⟩⟩ := by
      have hstart : ((blank probes includeGap a b c rest).write text).text = text :=
        List.nil_append _
      rw [htext, hstart, (lines_start _ _ _ _ _ _ _ _).run_append, hfile,
        run_dumpText hready hall]
    rw [ValueChange.read, hread]
    rfl

end Export

/-- An export to VCD is read again, and shows what `get_data` reports. -/
theorem exportVcd_lossless (hwf : wf.Framed) {names : List String}
    (hsel : selectProbes wf exportBadNames names = .ok probes) (hcount : probes.length ≤ 800000)
    (hin : wf.ProbesInside probes) (hpos : ∀ p ∈ probes, 0 < p.length)
    (hnames : ∀ p ∈ probes, "$end".toList ∉ words (makeProbeName p)) {version : String}
    (hversion : "$end".toList ∉ words version.toList) {sw ss : ℤ} {wc sc : Option ℤ}
    {r : SampleRange} (hr : wf.checkRange "export_waveform()" sw wc ss sc = .ok r)
    (includeGap : Bool) (now : Timestamp) :
    ∃ text file, exportVcd wf names sw wc ss sc includeGap version now = .ok text ∧
      ValueChange.read text = some file ∧
      Lossless wf probes includeGap names sw ss wc sc r file := by
  obtain ⟨a, b, c, rest, text, w, -, hlength, hnodup, hcodes, rfl, htext, hread, hvalues⟩ :=
    exportVcd_eq hwf hsel hcount hin hpos hr includeGap version now
  have hstart := run_start hcodes hnames includeGap hversion now
  refine ⟨text, _, htext, hread _ hstart, ?_⟩
  have hsorted : ((records wf probes r).map (·.samplePosition)).Pairwise (· < ·) := by
    rw [map_samplePosition_records]
    exact pairwise_exportedSamples wf r
  have hgetData : selectProbes wf getDataBadNames names = .ok probes := by
    rw [selectProbes] at hsel ⊢
    split_ifs at hsel ⊢
    · exact hsel
    · split at hsel
      · exact hsel
      · cases hsel
  refine ⟨nodup_ids hnodup hlength, pairwise_times_dumpEvents _ hsorted, fun t ht => ?_,
    fun i hi hlast => ?_, ⟨_, _, rfl, forall₂_probeVars hlength hvalues hpos,
      forall₂_flagVars hvalues⟩,
    getWaveformDataValues_foldl hwf hgetData hin hpos _ (checkRange_caller hr)⟩
  · obtain ⟨record, hrecord, rfl⟩ := mem_times_dumpEvents ht
    obtain ⟨i, hi, rfl⟩ := List.mem_map.mp hrecord
    exact hi
  · exact mem_times_of_isLastSample _ (wf.recordAt probes i) (List.mem_map_of_mem hi)
      (decide_eq_true hlast)

/-- A time of an export. -/
def newYear : Timestamp := ⟨2024, 1, 1, 0, 0, 0⟩

theorem framed_twoWindows : twoWindows.Framed := ⟨by decide, by decide, by decide, by decide⟩

theorem probesInside_fiveBits : twoWindows.ProbesInside [fiveBits] := by
  simp [ILAWaveform.ProbesInside, twoWindows, fiveBits]

theorem end_notMem_fiveBits : ∀ p ∈ [fiveBits], "$end".toList ∉ words (makeProbeName p) := by
  have hname : '$' ∉ makeProbeName fiveBits := by decide
  exact List.forall_mem_singleton.mpr (end_notMem_words hname)

theorem exportVcd_lossless_twoWindows : ∃ text file,
    exportVcd twoWindows ["p"] 0 none 1 (some 1) true "2024.1" newYear = .ok text ∧
      ValueChange.read text = some file ∧
      Lossless twoWindows [fiveBits] true ["p"] 0 1 none (some 1) ⟨0, 2, 1, 1⟩ file := by
  exact exportVcd_lossless framed_twoWindows rfl (by decide) probesInside_fiveBits (by decide)
    end_notMem_fiveBits (end_notMem_words (by simp)) rfl true newYear

/-- A name that closes its declaration. -/
def closingName : ILAWaveformProbe := bitProbe "a $end" [⟨0, 1⟩]

theorem run_closingName (version : String) (hversion : "$end".toList ∉ words version.toList) :
    Reader.run ⟨.declarations, ⟨[], []⟩⟩
        (start [closingName] false ['!'] ['"'] ['#'] [['$']] version newYear) =
      ⟨.changes, ⟨[⟨1, ['$'], [['a']]⟩, ⟨1, ['"'], ["_WINDOW".toList]⟩], []⟩⟩ := by
  have hdefinitions : Reader.run ⟨.declarations, ⟨[], []⟩⟩
      (definitions (blank [closingName] false ['!'] ['"'] ['#'] [['$']])) =
        ⟨.declarations, ⟨[⟨1, ['$'], [['a']]⟩, ⟨1, ['"'], ["_WINDOW".toList]⟩], []⟩⟩ := rfl
  rw [start, (lines_header version newYear).run_append, run_header _ newYear hversion,
    (lines_definitions _).run_append, hdefinitions, run_footer]

/-- A range that ends before the last sample, a name with the word `$end`, and a probe without bits
    in a gap. -/
theorem not_exportVcd_lossless :
    (∃ text file, exportVcd twoWindows ["p"] 0 (some 1) 0 none true "2024.1" newYear = .ok text ∧
      ValueChange.read text = some file ∧ twoWindows.sampleCount - 1 ∉ times file.events) ∧
    (∃ text file, exportVcd (oneBit closingName) [] 0 none 0 none false "2024.1" newYear =
        .ok text ∧ ValueChange.read text = some file ∧
      ∀ v ∈ file.vars, v.reference ≠ ["_TRIGGER".toList]) ∧
    exportVcd { twoWindows with probes := Py.Dict.empty.set "z" (bitProbe "z" []) } [] 0 none 1
      (some 1) false "2024.1" newYear = .error .indexError := by
  have hversion : "$end".toList ∉ words "2024.1".toList := end_notMem_words (by simp)
  refine ⟨?_, ?_, rfl⟩
  · have hsel : selectProbes twoWindows exportBadNames ["p"] = .ok [fiveBits] := rfl
    have hr : twoWindows.checkRange "export_waveform()" 0 (some 1) 0 none = .ok ⟨0, 1, 0, 2⟩ := rfl
    obtain ⟨a, b, c, rest, text, w, -, -, -, hcodes, rfl, htext, hread, -⟩ :=
      exportVcd_eq framed_twoWindows hsel (by decide) probesInside_fiveBits (by decide) hr true
        "2024.1" newYear
    refine ⟨text, _, htext,
      hread _ (run_start hcodes end_notMem_fiveBits true hversion newYear), fun hmem => ?_⟩
    obtain ⟨record, hrecord, hlast⟩ := mem_times_dumpEvents hmem
    obtain ⟨i, hi, rfl⟩ := List.mem_map.mp hrecord
    have hlt : i < 2 := by
      have hsamples : twoWindows.exportedSamples ⟨0, 1, 0, 2⟩ = [0, 1] := rfl
      rw [hsamples] at hi
      simp at hi
      omega
    have hi : 2 = i := hlast
    omega
  · have hsel : selectProbes (oneBit closingName) exportBadNames [] = .ok [closingName] := rfl
    have hin : (oneBit closingName).ProbesInside [closingName] := by
      simp [ILAWaveform.ProbesInside, oneBit, closingName, bitProbe]
    have hr : (oneBit closingName).checkRange "export_waveform()" 0 none 0 none =
        .ok ⟨0, 1, 0, 1⟩ := rfl
    obtain ⟨a, b, c, rest, text, w, htake, -, -, -, rfl, htext, hread, -⟩ :=
      exportVcd_eq (framed_oneBit closingName) hsel (by decide) hin (by decide) hr false "2024.1"
        newYear
    have hcodes : generateVars.take 4 = [['!'], ['"'], ['#'], ['$']] := rfl
    obtain ⟨rfl, rfl, rfl, rfl⟩ : ['!'] = a ∧ ['"'] = b ∧ ['#'] = c ∧ [['$']] = rest := by
      simpa using hcodes.symm.trans htake
    refine ⟨text, _, htext, hread _ (run_closingName "2024.1" hversion), ?_⟩
    simp

end Chipscopy.Waveform
