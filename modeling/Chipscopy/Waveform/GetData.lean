import Chipscopy.Waveform.Export

/-! Samples as columns of integers

    `get_data` collects one list of integers for every selected probe, and for the pseudo probes it
    is asked for. The lists stand in one `defaultdict` under the probe names, so a column has one
    integer per exported sample when no name stands for two of them. -/

namespace Chipscopy.Waveform

/-- Columns under their names; a `defaultdict(list)`. -/
abbrev Columns := Py.Dict String (List ℕ)

namespace Columns

/-- `d[name]`; a missing column is empty. -/
def column (d : Columns) (name : String) : List ℕ := (d.get? name).getD []

/-- `d[name].append(value)` for every entry. -/
def appendAll (d : Columns) (entries : List (String × ℕ)) : Columns :=
  entries.foldl (fun d e => d.set e.1 (d.column e.1 ++ [e.2])) d

/-- Values of the entries under a name. -/
def valuesUnder (name : String) (entries : List (String × ℕ)) : List ℕ :=
  (entries.filter (·.1 = name)).map (·.2)

@[simp] theorem column_empty (name : String) : column Py.Dict.empty name = [] := rfl

theorem column_appendAll (name : String) : ∀ (entries : List (String × ℕ)) (d : Columns),
    (d.appendAll entries).column name = d.column name ++ valuesUnder name entries
  | [], d => (List.append_nil _).symm
  | e :: es, d => by
    have ih := column_appendAll name es (d.set e.1 (d.column e.1 ++ [e.2]))
    rw [appendAll, List.foldl_cons, ← appendAll, ih, valuesUnder, valuesUnder]
    by_cases h : e.1 = name
    · subst h
      rw [column, Py.Dict.get?_set_self, Option.getD_some, List.append_assoc,
        List.filter_cons_of_pos (by simp), List.map_cons, List.singleton_append]
    · rw [column, Py.Dict.get?_set_ne d (Ne.symm h), ← column,
        List.filter_cons_of_neg (by simpa using h)]

theorem appendAll_append (d : Columns) (entries entries' : List (String × ℕ)) :
    d.appendAll (entries ++ entries') = (d.appendAll entries).appendAll entries' :=
  List.foldl_append

theorem valuesUnder_of_mem {name : String} {v : ℕ} : ∀ {entries : List (String × ℕ)},
    (entries.map (·.1)).Nodup → (name, v) ∈ entries → valuesUnder name entries = [v]
  | e :: es, hnodup, hmem => by
    obtain ⟨hnot, hes⟩ := List.nodup_cons.mp hnodup
    rw [valuesUnder]
    rcases List.mem_cons.mp hmem with rfl | hmem
    · have hnone : es.filter (·.1 = name) = [] := by
        rw [List.filter_eq_nil_iff]
        intro e' he' heq
        exact hnot (List.mem_map.mpr ⟨e', he', of_decide_eq_true heq⟩)
      rw [List.filter_cons_of_pos (by simp), hnone]
      rfl
    · have hne : e.1 ≠ name := fun heq => hnot (List.mem_map.mpr ⟨_, hmem, heq.symm⟩)
      rw [List.filter_cons_of_neg (by simpa using hne)]
      exact valuesUnder_of_mem hes hmem

theorem valuesUnder_of_notMem {name : String} {entries : List (String × ℕ)}
    (h : name ∉ entries.map (·.1)) : valuesUnder name entries = [] := by
  rw [valuesUnder, List.map_eq_nil_iff, List.filter_eq_nil_iff]
  intro e he heq
  exact h (List.mem_map.mpr ⟨e, he, of_decide_eq_true heq⟩)

end Columns

/-- The pseudo probes a call asks for. -/
structure PseudoProbes where
  includeTrigger : Bool
  includeSampleInfo : Bool
  includeGap : Bool
  deriving DecidableEq, Repr

/-- Entries of the pseudo probes for one sample. -/
def PseudoProbes.entries (opts : PseudoProbes) (r : SampleRecord) : List (String × ℕ) :=
  (if opts.includeTrigger then [("__TRIGGER", if r.isTrigger then 1 else 0)] else []) ++
  (if opts.includeSampleInfo then
    [("__SAMPLE_INDEX", r.samplePosition), ("__WINDOW_INDEX", r.windowIndex),
      ("__WINDOW_SAMPLE_INDEX", r.sampleInWindowIndex)] else []) ++
  (if opts.includeGap then [("__GAP", if r.isGap then 1 else 0)] else [])

/-- Names of the pseudo probes. -/
def PseudoProbes.names (opts : PseudoProbes) : List String :=
  (if opts.includeTrigger then ["__TRIGGER"] else []) ++
  (if opts.includeSampleInfo then ["__SAMPLE_INDEX", "__WINDOW_INDEX", "__WINDOW_SAMPLE_INDEX"]
    else []) ++
  (if opts.includeGap then ["__GAP"] else [])

theorem PseudoProbes.entries_map_fst (opts : PseudoProbes) (r : SampleRecord) :
    (opts.entries r).map (·.1) = opts.names := by
  obtain ⟨a, b, c⟩ := opts
  cases a <;> cases b <;> cases c <;> rfl

/-- `WaveformWriterToDict.write_sample`. -/
def writeSampleToDict (opts : PseudoProbes) (probeNames : List String) (result : Columns)
    (r : SampleRecord) : Except Py.Error Columns := do
  let result := result.appendAll (opts.entries r)
  let intValues ← Py.mapExcept (fun rVal => Bits.parseBin rVal.reverse) r.probeBinaryReversedValues
  return result.appendAll (probeNames.zip intValues)

/-- The probes of the names, or all probes for no name; `message` starts the text of the error. -/
def selectProbes (wf : ILAWaveform) (message : String) (probeNames : List String) :
    Except Py.Error (List ILAWaveformProbe) :=
  if probeNames = [] then .ok wf.probes.values
  else
    match probeNames.mapM wf.probes.get? with
    | some probes => .ok probes
    | none =>
      let badNames := probeNames.dedup.filter (· ∉ wf.probes.keys)
      .error (.keyError (message ++ ":\n  \x7b"
        ++ ", ".intercalate (badNames.map fun name => "'" ++ name ++ "'") ++ "\x7d"))

/-- Start of the error for unknown names. -/
def getDataBadNames : String := "ILAWaveform.get_data() called with non-existent probe name(s)"

def getWaveformDataValues (wf : ILAWaveform) (probeNames : List String) (startWindowIdx : ℤ)
    (windowCount : Option ℤ) (startSampleIdx : ℤ) (sampleCount : Option ℤ) (opts : PseudoProbes) :
    Except Py.Error Columns := do
  let probes ← selectProbes wf getDataBadNames probeNames
  wf.exportWaveform probes (writeSampleToDict opts (probes.map (·.name))) Py.Dict.empty
    startWindowIdx windowCount startSampleIdx sampleCount "ILAWaveform.get_data()"

variable {wf : ILAWaveform} {probes : List ILAWaveformProbe} {opts : PseudoProbes}

/-- Entries of one sample. -/
def rowAt (wf : ILAWaveform) (probes : List ILAWaveformProbe) (opts : PseudoProbes) (i : ℕ) :
    List (String × ℕ) :=
  opts.entries (wf.recordAt probes i) ++ probes.map fun p => (p.name, wf.probeValue p i)

theorem rowAt_map_fst (wf : ILAWaveform) (i : ℕ) :
    (rowAt wf probes opts i).map (·.1) = opts.names ++ probes.map (·.name) := by
  rw [rowAt, List.map_append, PseudoProbes.entries_map_fst, List.map_map]
  rfl

theorem length_probeBits (p : ILAWaveformProbe) (i : ℕ) : (wf.probeBits p i).length = p.length := by
  rw [ILAWaveform.probeBits, List.length_flatMap]
  simp [ILAWaveformProbe.length]

/-- What one sample adds, when every probe has a bit. -/
theorem writeSampleToDict_recordAt (hpos : ∀ p ∈ probes, 0 < p.length) (d : Columns) (i : ℕ) :
    writeSampleToDict opts (probes.map (·.name)) d (wf.recordAt probes i) =
      .ok (d.appendAll (rowAt wf probes opts i)) := by
  have hints : Py.mapExcept (fun rVal => Bits.parseBin rVal.reverse)
      (probes.map fun p => (wf.probeBits p i).map Bits.bitChar) =
        .ok (probes.map fun p => wf.probeValue p i) := by
    rw [Py.mapExcept_map]
    refine Py.mapExcept_eq_ok fun p hp => Bits.parseBin_reverse_bits ?_
    exact List.ne_nil_of_length_pos ((length_probeBits p i).symm ▸ hpos p hp)
  have hzip : (probes.map (·.name)).zip (probes.map fun p => wf.probeValue p i) =
      probes.map fun p => (p.name, wf.probeValue p i) := by
    rw [List.zip_map']
  have hvalues : (wf.recordAt probes i).probeBinaryReversedValues =
      probes.map fun p => (wf.probeBits p i).map Bits.bitChar := rfl
  simp only [writeSampleToDict, hvalues, hints, Py.ok_bind, hzip]
  rw [rowAt, Columns.appendAll_append]
  rfl

/-- Columns after a run over samples. -/
theorem column_foldl_rowAt (name : String) : ∀ (samples : List ℕ) (d : Columns),
    (samples.foldl (fun d i => d.appendAll (rowAt wf probes opts i)) d).column name =
      d.column name ++ samples.flatMap fun i => Columns.valuesUnder name (rowAt wf probes opts i)
  | [], d => (List.append_nil _).symm
  | i :: is, d => by
    rw [List.foldl_cons, column_foldl_rowAt name is, Columns.column_appendAll, List.append_assoc]
    rfl

section Call

variable (hwf : wf.Framed) {names : List String}
  (hsel : selectProbes wf getDataBadNames names = .ok probes) (hin : wf.ProbesInside probes)
  (hpos : ∀ p ∈ probes, 0 < p.length)

include hwf hsel hin hpos

/-- A call returns what the exported samples add one after the other. -/
theorem getWaveformDataValues_foldl (opts : PseudoProbes) {sw ss : ℤ} {wc sc : Option ℤ}
    {r : SampleRange} (hr : wf.checkRange "ILAWaveform.get_data()" sw wc ss sc = .ok r) :
    getWaveformDataValues wf names sw wc ss sc opts = .ok ((wf.exportedSamples r).foldl
      (fun d i => d.appendAll (rowAt wf probes opts i)) Py.Dict.empty) := by
  have hrun := wf.exportWaveform_eq (writeSampleToDict opts (probes.map (·.name))) hwf hin
    Py.Dict.empty hr
  rw [Py.foldlM_eq_ok (g := fun d i => Columns.appendAll d (rowAt wf probes opts i)) _
    fun d i _ => writeSampleToDict_recordAt hpos d i] at hrun
  exact (congrArg (· >>= _) hsel).trans hrun

/-- Every column is the run over the exported samples. -/
theorem getWaveformDataValues_columns (opts : PseudoProbes) {sw ss : ℤ} {wc sc : Option ℤ}
    {r : SampleRange} (hr : wf.checkRange "ILAWaveform.get_data()" sw wc ss sc = .ok r) :
    ∃ result, getWaveformDataValues wf names sw wc ss sc opts = .ok result ∧
      ∀ name, result.column name = (wf.exportedSamples r).flatMap fun i =>
        Columns.valuesUnder name (rowAt wf probes opts i) := by
  refine ⟨_, getWaveformDataValues_foldl hwf hsel hin hpos opts hr, fun name => ?_⟩
  rw [column_foldl_rowAt, Columns.column_empty, List.nil_append]

end Call

/-- A name that stands for one value of every sample. -/
theorem flatMap_valuesUnder_eq_map (hnames : (opts.names ++ probes.map (·.name)).Nodup)
    {name : String} {v : ℕ → ℕ} (h : ∀ i, (name, v i) ∈ rowAt wf probes opts i) (samples : List ℕ) :
    (samples.flatMap fun i => Columns.valuesUnder name (rowAt wf probes opts i)) =
      samples.map v := by
  have hrow : (fun i => Columns.valuesUnder name (rowAt wf probes opts i)) = fun i => [v i] := by
    funext i
    exact Columns.valuesUnder_of_mem (by rw [rowAt_map_fst]; exact hnames) (h i)
  rw [hrow, List.map_eq_flatMap]

theorem flatMap_valuesUnder_eq_nil {name : String}
    (h : name ∉ opts.names ++ probes.map (·.name)) (samples : List ℕ) :
    (samples.flatMap fun i => Columns.valuesUnder name (rowAt wf probes opts i)) = [] := by
  rw [List.flatMap_eq_nil_iff]
  exact fun i _ => Columns.valuesUnder_of_notMem (by rw [rowAt_map_fst]; exact h)

/-- Every column of a range is a part of the column of all samples. -/
theorem flatMap_exportedSamples_eq (hnames : (opts.names ++ probes.map (·.name)).Nodup)
    (name : String) (r : SampleRange) :
    ((wf.exportedSamples r).flatMap fun i => Columns.valuesUnder name (rowAt wf probes opts i)) =
      (wf.exportedSamples r).filterMap fun i =>
        ((List.range wf.sampleCount).flatMap fun i =>
          Columns.valuesUnder name (rowAt wf probes opts i))[i]? := by
  by_cases hname : name ∈ opts.names ++ probes.map (·.name)
  · have hex : ∀ i, ∃ v, (name, v) ∈ rowAt wf probes opts i := fun i => by
      rw [← rowAt_map_fst wf i] at hname
      obtain ⟨⟨name', v⟩, hmem, rfl⟩ := List.mem_map.mp hname
      exact ⟨v, hmem⟩
    choose v hv using hex
    rw [flatMap_valuesUnder_eq_map hnames hv, flatMap_valuesUnder_eq_map hnames hv]
    refine (congrFun List.filterMap_eq_map _).symm.trans (List.filterMap_congr fun i hi => ?_)
    have hi : i < wf.sampleCount := List.mem_range.mp (List.mem_of_mem_filter hi)
    rw [List.getElem?_map, List.getElem?_range hi]
    rfl
  · rw [flatMap_valuesUnder_eq_nil hname, flatMap_valuesUnder_eq_nil hname]
    exact (List.filterMap_eq_nil_iff.mpr fun i _ => rfl).symm

/-- The range of all windows and samples. -/
theorem checkRange_all (hwf : wf.Framed) (hcount : 0 < wf.sampleCount) (caller : String)
    {wc : Option ℤ} (hwc : orDefault wc wf.getWindowCount = wf.maxWindowCount) :
    ∃ r, wf.checkRange caller 0 wc 0 none = .ok r ∧
      wf.exportedSamples r = List.range wf.sampleCount := by
  have hpos := hwf.windowSize_pos
  have hmax : 0 < wf.maxWindowCount := Nat.div_pos (by omega) hpos
  refine ⟨⟨0, wf.maxWindowCount, 0, wf.windowSize⟩, ?_, ?_⟩
  · simp only [ILAWaveform.checkRange, hwc]
    rw [if_neg (by omega), if_neg (by omega), if_neg (by omega), if_neg (by simp [orDefault]; omega),
      if_neg (by omega)]
    simp [orDefault]
  · rw [ILAWaveform.exportedSamples, List.filter_eq_self]
    intro i hi
    have hi := List.mem_range.mp hi
    have hdiv : i / wf.windowSize < wf.maxWindowCount := by
      rw [ILAWaveform.maxWindowCount, Nat.div_lt_iff_lt_mul hpos]
      have := Nat.lt_div_mul_add (a := wf.sampleCount + wf.windowSize - 1) hpos
      omega
    have hmod := Nat.mod_lt i hpos
    refine decide_eq_true ⟨Nat.zero_le _, ?_, Nat.zero_le _, ?_⟩
    · exact (Nat.zero_add wf.maxWindowCount).symm ▸ hdiv
    · exact (Nat.zero_add wf.windowSize).symm ▸ hmod

/-- `get_data` returns the stored bits: a column for every selected probe and pseudo probe, with
    one integer for every exported sample. -/
theorem getWaveformDataValues_eq (hwf : wf.Framed) {names : List String}
    (hsel : selectProbes wf getDataBadNames names = .ok probes) (hin : wf.ProbesInside probes)
    (hpos : ∀ p ∈ probes, 0 < p.length) (hnames : (opts.names ++ probes.map (·.name)).Nodup)
    {sw ss : ℤ} {wc sc : Option ℤ} {r : SampleRange}
    (hr : wf.checkRange "ILAWaveform.get_data()" sw wc ss sc = .ok r) :
    ∃ result, getWaveformDataValues wf names sw wc ss sc opts = .ok result ∧
      (∀ p ∈ probes, result.column p.name = (wf.exportedSamples r).map (wf.probeValue p)) ∧
      (opts.includeTrigger = true → result.column "__TRIGGER" =
        (wf.exportedSamples r).map fun i => if wf.triggerAt i then 1 else 0) ∧
      (opts.includeGap = true → result.column "__GAP" =
        (wf.exportedSamples r).map fun i => if wf.gapAt i then 1 else 0) ∧
      (opts.includeSampleInfo = true →
        result.column "__SAMPLE_INDEX" = wf.exportedSamples r ∧
        result.column "__WINDOW_INDEX" = (wf.exportedSamples r).map (· / wf.windowSize) ∧
        result.column "__WINDOW_SAMPLE_INDEX" = (wf.exportedSamples r).map (· % wf.windowSize) ∧
        (result.column "__WINDOW_INDEX").zipWith (fun w j => w * wf.windowSize + j)
          (result.column "__WINDOW_SAMPLE_INDEX") = result.column "__SAMPLE_INDEX") ∧
      (∀ name ∉ opts.names ++ probes.map (·.name), result.column name = []) ∧
      ∀ wcAll, orDefault wcAll wf.getWindowCount = wf.maxWindowCount →
        ∃ all, getWaveformDataValues wf names 0 wcAll 0 none opts = .ok all ∧
          ∀ name, result.column name =
            (wf.exportedSamples r).filterMap fun i => (all.column name)[i]? := by
  obtain ⟨result, hresult, hcol⟩ := getWaveformDataValues_columns hwf hsel hin hpos opts hr
  have hmap : ∀ {name : String} {v : ℕ → ℕ}, (∀ i, (name, v i) ∈ rowAt wf probes opts i) →
      result.column name = (wf.exportedSamples r).map v := fun h =>
    (hcol _).trans (flatMap_valuesUnder_eq_map hnames h _)
  have hpseudo : ∀ {name : String} {v : ℕ → ℕ},
      (∀ i, (name, v i) ∈ opts.entries (wf.recordAt probes i)) →
      result.column name = (wf.exportedSamples r).map v := fun h =>
    hmap fun i => List.mem_append_left _ (h i)
  refine ⟨result, hresult, fun p hp => ?_, fun ht => ?_, fun hg => ?_, fun hs => ?_,
    fun name hname => ?_, fun wcAll hall => ?_⟩
  · exact hmap fun i => List.mem_append_right _ (List.mem_map_of_mem hp)
  · exact hpseudo fun i => by simp [PseudoProbes.entries, ht, ILAWaveform.recordAt]
  · refine hpseudo fun i => ?_
    simp only [PseudoProbes.entries, hg, if_true]
    exact List.mem_append_right _ (List.mem_singleton_self _)
  · have hsample : result.column "__SAMPLE_INDEX" = (wf.exportedSamples r).map id :=
      hpseudo fun i => by simp [PseudoProbes.entries, hs, ILAWaveform.recordAt]
    have hwindow : result.column "__WINDOW_INDEX" = (wf.exportedSamples r).map (· / wf.windowSize) :=
      hpseudo fun i => by simp [PseudoProbes.entries, hs, ILAWaveform.recordAt]
    have hinwindow : result.column "__WINDOW_SAMPLE_INDEX" =
        (wf.exportedSamples r).map (· % wf.windowSize) :=
      hpseudo fun i => by simp [PseudoProbes.entries, hs, ILAWaveform.recordAt]
    refine ⟨hsample.trans (List.map_id _), hwindow, hinwindow, ?_⟩
    rw [hwindow, hinwindow, hsample, List.zipWith_map, List.zipWith_self]
    exact List.map_congr_left fun i _ => Nat.div_add_mod' i wf.windowSize
  · exact (hcol name).trans (flatMap_valuesUnder_eq_nil hname _)
  · have hcount := ILAWaveform.sampleCount_pos_of_checkRange hr
    obtain ⟨rAll, hrAll, hexported⟩ := checkRange_all hwf hcount "ILAWaveform.get_data()" hall
    obtain ⟨all, hallok, hallcol⟩ := getWaveformDataValues_columns hwf hsel hin hpos opts hrAll
    refine ⟨all, hallok, fun name => ?_⟩
    simp only [hcol, hallcol, hexported]
    exact flatMap_exportedSamples_eq hnames name r

/-- Two windows of two samples, the second not full; ten data bits and a gap bit. -/
def twoWindows : ILAWaveform where
  width := 10
  sampleCount := 3
  triggerPosition := [1, 0]
  windowSize := 2
  probes := Py.Dict.empty.set "p" ⟨"p", "probe0", [⟨8, 2⟩, ⟨0, 3⟩], true, some 4, some 0, .hex, none⟩
  data := [5, 1, 3, 6, 7, 0, 0, 0]
  gapIndex := some 10

theorem getWaveformDataValues_twoWindows : ∃ result,
    getWaveformDataValues twoWindows ["p"] 0 none 1 (some 1) ⟨true, true, true⟩ = .ok result ∧
      result.column "p" = [14] ∧ result.column "__TRIGGER" = [1] ∧ result.column "__GAP" = [1] ∧
      result.column "__SAMPLE_INDEX" = [1] := by
  have hwf : twoWindows.Framed := ⟨by decide, by decide, by decide, by decide⟩
  have hsel : selectProbes twoWindows getDataBadNames ["p"] =
      .ok [⟨"p", "probe0", [⟨8, 2⟩, ⟨0, 3⟩], true, some 4, some 0, .hex, none⟩] := rfl
  have hin : twoWindows.ProbesInside
      [⟨"p", "probe0", [⟨8, 2⟩, ⟨0, 3⟩], true, some 4, some 0, .hex, none⟩] := by
    simp [ILAWaveform.ProbesInside, twoWindows]
  have hr : twoWindows.checkRange "ILAWaveform.get_data()" 0 none 1 (some 1) = .ok ⟨0, 2, 1, 1⟩ := rfl
  have hnames : ((⟨true, true, true⟩ : PseudoProbes).names ++ ["p"]).Nodup := by decide
  obtain ⟨result, hresult, hprobe, htrigger, hgap, hinfo, -⟩ :=
    getWaveformDataValues_eq hwf hsel hin (by decide) hnames hr
  exact ⟨result, hresult, hprobe _ (List.mem_singleton_self _), htrigger rfl, hgap rfl,
    (hinfo rfl).1⟩

/-- One sample of one bit. -/
def oneBit (probe : ILAWaveformProbe) : ILAWaveform :=
  ⟨1, 1, [0], 1, Py.Dict.empty.set probe.name probe, [1], none⟩

def bitProbe (name : String) (mapRange : List ILABitRange) : ILAWaveformProbe :=
  ⟨name, "", mapRange, false, none, none, .hex, none⟩

theorem framed_oneBit (probe : ILAWaveformProbe) : (oneBit probe).Framed :=
  ⟨Nat.one_pos, le_rfl, show 1 ≤ 8 * (1 / (1 * 1)) by decide, by simp [oneBit]⟩

theorem columns_oneBit (name : String) (opts : PseudoProbes) {names : List String}
    {probes : List ILAWaveformProbe} (hall : ∀ p ∈ probes, p = bitProbe name [⟨0, 1⟩])
    (hsel : selectProbes (oneBit (bitProbe name [⟨0, 1⟩])) getDataBadNames names = .ok probes) :
    ∃ result, getWaveformDataValues (oneBit (bitProbe name [⟨0, 1⟩])) names 0 none 0 none opts =
        .ok result ∧ ∀ column, result.column column =
          Columns.valuesUnder column (rowAt (oneBit (bitProbe name [⟨0, 1⟩])) probes opts 0) := by
  have hin : (oneBit (bitProbe name [⟨0, 1⟩])).ProbesInside probes := fun p hp br hbr => by
    rw [hall p hp] at hbr
    rw [List.mem_singleton.mp hbr]
    exact le_rfl
  have hpos : ∀ p ∈ probes, 0 < p.length := fun p hp => by
    rw [hall p hp]
    exact Nat.one_pos
  have hwc : orDefault none (oneBit (bitProbe name [⟨0, 1⟩])).getWindowCount =
      (oneBit (bitProbe name [⟨0, 1⟩])).maxWindowCount := by
    simp [orDefault, ILAWaveform.getWindowCount, ILAWaveform.maxWindowCount, oneBit]
  obtain ⟨r, hr, hall⟩ := checkRange_all (framed_oneBit (bitProbe name [⟨0, 1⟩])) Nat.one_pos
    "ILAWaveform.get_data()" hwc
  obtain ⟨result, hresult, hcol⟩ :=
    getWaveformDataValues_columns (framed_oneBit _) hsel hin hpos opts hr
  refine ⟨result, hresult, fun column => ?_⟩
  rw [hcol, hall]
  exact List.append_nil _

/-- A selection that names a probe twice, a probe without bits, and a probe with the name of a
    pseudo probe: there is no column with one integer per sample. -/
theorem getWaveformDataValues_ne_of_selection :
    (∃ result, getWaveformDataValues (oneBit (bitProbe "a" [⟨0, 1⟩])) ["a", "a"] 0 none 0 none
      ⟨false, false, false⟩ = .ok result ∧ result.column "a" = [1, 1]) ∧
    (∃ message, getWaveformDataValues (oneBit (bitProbe "z" [])) ["z"] 0 none 0 none
      ⟨false, false, false⟩ = .error (.valueError message)) ∧
    ∃ result, getWaveformDataValues (oneBit (bitProbe "__GAP" [⟨0, 1⟩])) ["__GAP"] 0 none 0 none
      ⟨false, false, true⟩ = .ok result ∧ result.column "__GAP" = [0, 1] := by
  refine ⟨?_, ⟨_, rfl⟩, ?_⟩
  · have htwice : ∀ p ∈ [bitProbe "a" [⟨0, 1⟩], bitProbe "a" [⟨0, 1⟩]],
        p = bitProbe "a" [⟨0, 1⟩] := by simp
    have hsel : selectProbes (oneBit (bitProbe "a" [⟨0, 1⟩])) getDataBadNames ["a", "a"] =
        .ok [bitProbe "a" [⟨0, 1⟩], bitProbe "a" [⟨0, 1⟩]] := rfl
    obtain ⟨result, hresult, hcol⟩ := columns_oneBit "a" ⟨false, false, false⟩ htwice hsel
    exact ⟨result, hresult, hcol "a"⟩
  · have hsel : selectProbes (oneBit (bitProbe "__GAP" [⟨0, 1⟩])) getDataBadNames ["__GAP"] =
        .ok [bitProbe "__GAP" [⟨0, 1⟩]] := rfl
    obtain ⟨result, hresult, hcol⟩ := columns_oneBit "__GAP" ⟨false, false, true⟩
      (List.forall_mem_singleton.mpr rfl) hsel
    exact ⟨result, hresult, hcol "__GAP"⟩

end Chipscopy.Waveform
