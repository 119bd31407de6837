import Chipscopy.Lib.Float
import Chipscopy.Lib.Method

/-! Samples of a memory controller

    A memory controller is two nodes that are polled at their own rates. The events of the main node
    append to the series of its metrics and those of the NoC node to the series of bandwidth and
    latency. A series that gets too long loses its first sample, some of them after every event of
    their own node and the others only after an event of the NoC node. -/

namespace Chipscopy.Noc

open Py (Outcome)

/-- Length of a series that is full. -/
def MAX_SAMPLES : ℕ := 50

/-- Types of the nodes that events come from. -/
inductive NodeType
  | nocNmu | nocNsu | ddrmcNoc | ddrmcMain | hbmmc | ddrmcCrypto | unknown
  deriving DecidableEq, Repr

/-- What a channel counts. -/
inductive DcMetric
  | activates | readCas | writeCas | precharge | prechargeAll | refresh | idle | overhead
  | busTurnarounds
  deriving DecidableEq, Repr

/-- `dc_metrics_map`. -/
def dcMetricsMap : List (ℕ × DcMetric) :=
  [(0, .activates), (1, .readCas), (2, .writeCas), (3, .precharge), (4, .prechargeAll),
    (5, .refresh), (6, .idle), (7, .overhead), (8, .busTurnarounds)]

/-- Series of numbers. -/
inductive Series
  | readBandwidth | writeBandwidth | avgReadLatency | avgWriteLatency
  | dc (ch : ℕ) (metric : DcMetric)
  | agg (metric : DcMetric)
  | dcFlags (ch : ℕ)
  | nsuWriteBandwidth (nsu : ℕ)
  | nsuReadBandwidth (nsu : ℕ)
  | nsuWriteLatency (nsu : ℕ)
  | nsuReadLatency (nsu : ℕ)
  deriving DecidableEq, Repr

/-- Registers of the two nodes: of a monitor of an NSU, and of a channel. -/
inductive Register
  | nsuPerfMon (nsu mon index : ℕ)
  | dcPerfMon (ch index : ℕ)
  deriving DecidableEq, Repr

/-- What a node reports, with the text of the time. -/
structure NodeUpdate where
  nodeType : NodeType
  registers : Register → UInt32
  timeDelta : String

/-- The two elements of a controller, with their series between two events. -/
structure DDRMC where
  numSamples : ℤ
  /-- A finite float, or an integer that is one. -/
  samplingPeriodMs : ℚ
  /-- `decode_ddrmc_gen` of the name. -/
  gen : ℕ
  samples : Series → List ℚ
  flags : List (List String)
  ts : List String

/-- The fifth generation has fewer NSUs. -/
def getNsuCountPerDdrmc (ddrmcGen : ℕ) : ℕ := if ddrmcGen = 5 then 2 else 4

namespace DDRMC

def numNsu (s : DDRMC) : ℕ := getNsuCountPerDdrmc s.gen

/-- The series that a controller has. -/
def hasSeries (numNsu : ℕ) : Series → Bool
  | .dc ch _ => ch < 2
  | .dcFlags ch => ch < 2
  | .nsuWriteBandwidth nsu => nsu < numNsu
  | .nsuReadBandwidth nsu => nsu < numNsu
  | .nsuWriteLatency nsu => nsu < numNsu
  | .nsuReadLatency nsu => nsu < numNsu
  | _ => true

/-- `__init__`: all series of numbers are full of zeros. -/
def init (numSamples : ℤ) (samplingPeriodMs : ℚ) (gen : ℕ) : DDRMC where
  numSamples := numSamples
  samplingPeriodMs := samplingPeriodMs
  gen := gen
  samples key := if hasSeries (getNsuCountPerDdrmc gen) key then List.replicate MAX_SAMPLES 0 else []
  flags := []
  ts := []

/-! ### Series -/

/-- `samples[key] = f(samples[key])`. -/
def modify (key : Series) (f : List ℚ → List ℚ) (samples : Series → List ℚ) : Series → List ℚ :=
  Function.update samples key (f (samples key))

/-- A series that is too long loses its first sample. -/
def trim {α : Type} (sampleData : List α) : List α :=
  if sampleData.length > MAX_SAMPLES then sampleData.drop 1 else sampleData

/-- `l[-1] = f(l[-1])`; no such list is empty. -/
def modifyLast (f : ℚ → ℚ) (l : List ℚ) : List ℚ := l.dropLast ++ (l.getLast?.map f).toList

/-- `trim_and_log`: all series are trimmed, also those of the main node. -/
def trimAndLog (s : DDRMC) : DDRMC :=
  { s with samples := fun key => trim (s.samples key), flags := trim s.flags, ts := trim s.ts }

/-! ### Events of the NoC node -/

/-- What is read of one monitor. -/
structure Reading where
  lacc : ℕ
  burstCount : ℕ
  flag : ℕ

/-- One monitor of an NSU. The counters of the fifth generation take two registers. -/
def readNsu (gen : ℕ) (registers : Register → UInt32) (mon nsu : ℕ) : Reading :=
  let register index := (registers (.nsuPerfMon nsu mon index)).toNat
  if gen = 5 then
    let lacc := register 0 + (register 1 &&& 0xFFFF) <<< 32
    let bc := register 2 + (register 3 &&& 0xFFFF) <<< 32
    ⟨lacc, bc, (lacc &&& 0x80000000) >>> 31⟩
  else
    let lacc := register 0
    ⟨lacc &&& 0x7FFFFFFF, register 1, (lacc &&& 0x80000000) >>> 31⟩

/-- Readings of all monitors of a direction; `ch_map` numbers them. -/
def readChannel (s : DDRMC) (registers : Register → UInt32) (mon : ℕ) : List Reading :=
  (List.range s.numNsu).map (readNsu s.gen registers mon)

/-- Bandwidth of one direction; a period of zero cannot be divided by. -/
def bytesPerSecond (samplingPeriodMs : ℚ) (readings : List Reading) : Except Py.Error ℚ := do
  let bytes ← Py.trueDiv ((readings.map (·.burstCount)).sum * 128 : ℕ) 8
  let seconds := Py.nearestFloat (samplingPeriodMs / 1000)
  if seconds = 0 then .error .zeroDivisionError else .ok (Py.nearestFloat (bytes / seconds))

def overflowFlags (ch : String) (readings : List Reading) : List String :=
  if (readings.map (·.flag)).sum ≠ 0 then [ch ++ "_overflow"] else []

/-- A direction without bursts counts as one with a single burst. -/
def avgLatency (readings : List Reading) : ℚ :=
  let aggBurst := (readings.map (·.burstCount)).sum
  let aggBurst := if aggBurst = 0 then 1 else aggBurst
  Py.nearestFloat (Py.nearestFloat (readings.map (·.lacc)).sum / Py.nearestFloat aggBurst)

def recordBwLat (readBytesPerS writeBytesPerS avgReadLatency avgWriteLatency : ℚ) (s : DDRMC) :
    DDRMC :=
  let samples := modify .readBandwidth (· ++ [readBytesPerS]) s.samples
  let samples := modify .writeBandwidth (· ++ [writeBytesPerS]) samples
  let samples := modify .avgReadLatency (· ++ [avgReadLatency]) samples
  let samples := modify .avgWriteLatency (· ++ [avgWriteLatency]) samples
  { s with samples }

/-- Read and write bandwidth. -/
def bandwidths (samplingPeriodMs : ℚ) (r w : List Reading) : Except Py.Error (ℚ × ℚ) := do
  let readBytesPerS ← bytesPerSecond samplingPeriodMs r
  let writeBytesPerS ← bytesPerSecond samplingPeriodMs w
  return (readBytesPerS, writeBytesPerS)

/-- All that an event of the NoC node appends. -/
def recordNoc (s : DDRMC) (r w : List Reading) (bandwidth : ℚ × ℚ) (timeDelta : String) : DDRMC :=
  let s := { s with flags := s.flags ++ [overflowFlags "r" r ++ overflowFlags "w" w] }
  let s := s.recordBwLat bandwidth.1 bandwidth.2 (avgLatency r) (avgLatency w)
  { s with ts := s.ts ++ [timeDelta] }

/-- The bandwidths are computed before anything is appended. -/
def updateNoc (s : DDRMC) (node : NodeUpdate) : Outcome DDRMC :=
  match bandwidths s.samplingPeriodMs (s.readChannel node.registers 0)
      (s.readChannel node.registers 1) with
  | .error e => (s, some e)
  | .ok bandwidth =>
    ((s.recordNoc (s.readChannel node.registers 0) (s.readChannel node.registers 1) bandwidth
      node.timeDelta).trimAndLog, none)

/-! ### Events of the main node -/

/-- What the loops over the metrics change. -/
structure Counting where
  samples : Series → List ℚ
  flags : ℕ := 0
  totalOps : ℕ := 0

/-- One metric of a channel. -/
def countMetric (registers : Register → UInt32) (ch : ℕ) (c : Counting) (item : ℕ × DcMetric) :
    Counting :=
  let samples := modify (.dc ch item.2) (· ++ [0]) c.samples
  let samples := if ch = 0 then modify (.agg item.2) (· ++ [0]) samples else samples
  let register := (registers (.dcPerfMon ch item.1)).toNat
  let overflow := register &&& 0x80000000 = 0x80000000
  let data := register &&& 0x7FFFFFFF
  let samples := modify (.dc ch item.2) (modifyLast fun _ => data) samples
  let samples := modify (.agg item.2) (modifyLast (· + data)) samples
  let samples := modify (.dc ch item.2) trim samples
  { samples := if ch = 1 then modify (.agg item.2) trim samples else samples
    flags := if overflow then c.flags ||| 1 <<< item.1 else c.flags
    totalOps := c.totalOps + data }

/-- One channel. -/
def countChannel (registers : Register → UInt32) (c : Counting) (ch : ℕ) : Counting :=
  let c := dcMetricsMap.foldl (countMetric registers ch) { c with flags := 0 }
  { c with samples := modify (.dcFlags ch) (· ++ [(c.flags : ℚ)]) c.samples }

/-- `(value * 100) / total_ops`. -/
def toPercentage (totalOps : ℕ) (value : ℚ) : ℚ := Py.nearestFloat (value * 100 / totalOps)

/-- An event of the main node. The totals become percentages where anything was counted. -/
def updateMain (s : DDRMC) (node : NodeUpdate) : DDRMC :=
  let c := [0, 1].foldl (countChannel node.registers) { samples := s.samples }
  let samples := if c.totalOps > 0 then
    dcMetricsMap.foldl
      (fun samples item => modify (.agg item.2) (modifyLast (toPercentage c.totalOps)) samples)
      c.samples
    else c.samples
  { s with samples }

/-- An event of a node; those of the other types change nothing. -/
def updateNode (s : DDRMC) (node : NodeUpdate) : Outcome DDRMC :=
  let s := { s with numSamples := s.numSamples - 1 }
  match node.nodeType with
  | .ddrmcNoc => s.updateNoc node
  | .ddrmcMain => (s.updateMain node, none)
  | _ => (s, none)

/-- Events of the two nodes in the order in which they come. An error goes to the caller. -/
def run (s : DDRMC) (events : List NodeUpdate) : DDRMC :=
  events.foldl (fun s node => (s.updateNode node).1) s

/-! ### Lengths of series -/

/-- Length of a series after `trim`. -/
def trimmed (n : ℕ) : ℕ := if n > MAX_SAMPLES then n - 1 else n

@[simp] theorem length_trim {α : Type} (l : List α) : (trim l).length = trimmed l.length := by
  rw [trim, trimmed]
  split_ifs
  · rw [List.length_drop]
  · rfl

@[simp] theorem length_modifyLast (f : ℚ → ℚ) (l : List ℚ) :
    (modifyLast f l).length = l.length := by
  rcases l.eq_nil_or_concat with rfl | ⟨front, last, rfl⟩
  · rfl
  · simp [modifyLast]

theorem length_modify (key key' : Series) (f : List ℚ → List ℚ) (samples : Series → List ℚ) :
    (modify key f samples key').length =
      if key' = key then (f (samples key)).length else (samples key').length := by
  rw [modify, Function.update_apply]
  split_ifs <;> rfl

/-- Length of a series after some metrics of a channel. -/
def grown (ch : ℕ) (metrics : List DcMetric) (n : ℕ) : Series → ℕ
  | .dc ch' metric => if ch' = ch ∧ metric ∈ metrics then trimmed (n + 1) else n
  | .agg metric =>
    if metric ∈ metrics then if ch = 0 then n + 1 else if ch = 1 then trimmed n else n else n
  | _ => n

theorem length_countMetric (registers : Register → UInt32) (ch : ℕ) (c : Counting)
    (item : ℕ × DcMetric) (key : Series) :
    ((countMetric registers ch c item).samples key).length =
      grown ch [item.2] (c.samples key).length key := by
  have hunless : ∀ (p : Prop) [Decidable p] (samples samples' : Series → List ℚ),
      ((if p then samples else samples') key).length =
        if p then (samples key).length else (samples' key).length := by
    intro p _ samples samples'
    split_ifs <;> rfl
  obtain ⟨index, metric⟩ := item
  cases key with
  | dc ch' metric' =>
    by_cases h : ch' = ch ∧ metric' = metric
    · obtain ⟨rfl, rfl⟩ := h
      simp [countMetric, hunless, length_modify, grown]
    · simp [countMetric, hunless, length_modify, grown, h]
  | agg metric' =>
    by_cases h : metric' = metric
    · obtain rfl := h
      by_cases hzero : ch = 0
      · simp [countMetric, length_modify, grown, hzero]
      · simp [countMetric, hunless, length_modify, grown, hzero]
    · simp [countMetric, hunless, length_modify, grown, h]
  | _ => simp [countMetric, hunless, length_modify, grown]

/-- Each metric is counted once. -/
theorem grown_cons (ch : ℕ) {metric : DcMetric} {metrics : List DcMetric} (h : metric ∉ metrics)
    (n : ℕ) (key : Series) :
    grown ch metrics (grown ch [metric] n key) key = grown ch (metric :: metrics) n key := by
  cases key with
  | dc ch' metric' =>
    by_cases hsame : metric' = metric
    · obtain rfl := hsame
      simp [grown, h]
    · simp [grown, hsame]
  | agg metric' =>
    by_cases hsame : metric' = metric
    · obtain rfl := hsame
      simp [grown, h]
    · simp [grown, hsame]
  | _ => rfl

theorem length_foldl_countMetric (registers : Register → UInt32) (ch : ℕ) (key : Series) :
    ∀ (items : List (ℕ × DcMetric)) (c : Counting), (items.map (·.2)).Nodup →
      ((items.foldl (countMetric registers ch) c).samples key).length =
        grown ch (items.map (·.2)) (c.samples key).length key
  | [], c, _ => by cases key <;> simp [grown]
  | item :: items, c, h => by
    obtain ⟨hnot, hitems⟩ := List.nodup_cons.mp h
    rw [List.foldl_cons, length_foldl_countMetric registers ch key items _ hitems,
      length_countMetric, grown_cons ch hnot, List.map_cons]

/-- Every metric is in the map. -/
theorem mem_dcMetricsMap (metric : DcMetric) : metric ∈ dcMetricsMap.map (·.2) := by
  cases metric <;> decide

theorem length_countChannel (registers : Register → UInt32) (ch : ℕ) (c : Counting)
    (key : Series) : ((countChannel registers c ch).samples key).length =
      if key = .dcFlags ch then (c.samples key).length + 1
      else grown ch (dcMetricsMap.map (·.2)) (c.samples key).length key := by
  have hnodup : (dcMetricsMap.map (·.2)).Nodup := by decide
  have hfold := fun key => length_foldl_countMetric registers ch key dcMetricsMap
    { c with flags := 0 } hnodup
  rw [countChannel, length_modify]
  by_cases hkey : key = .dcFlags ch
  · rw [if_pos hkey, if_pos hkey, List.length_append, hfold, hkey]
    rfl
  · rw [if_neg hkey, if_neg hkey, hfold]

/-- The percentages replace the last samples. -/
theorem length_foldl_toPercentage (totalOps : ℕ) (key : Series) :
    ∀ (items : List (ℕ × DcMetric)) (samples : Series → List ℚ),
      (items.foldl (fun samples item => modify (.agg item.2) (modifyLast (toPercentage totalOps))
        samples) samples key).length = (samples key).length
  | [], _ => rfl
  | item :: items, samples => by
    rw [List.foldl_cons, length_foldl_toPercentage totalOps key items, length_modify]
    split_ifs with hkey
    · rw [length_modifyLast, hkey]
    · rfl

/-- The series of the main node stay as long as they are; those of its flags grow. -/
theorem length_updateMain (s : DDRMC) (node : NodeUpdate) (key : Series) :
    ((s.updateMain node).samples key).length =
      if key = .dcFlags 0 ∨ key = .dcFlags 1 then (s.samples key).length + 1
      else grown 1 (dcMetricsMap.map (·.2))
        (grown 0 (dcMetricsMap.map (·.2)) (s.samples key).length key) key := by
  have hunless : ((s.updateMain node).samples key).length =
      ([0, 1].foldl (countChannel node.registers) { samples := s.samples } |>.samples key).length := by
    rw [updateMain]
    dsimp only
    split_ifs
    · exact length_foldl_toPercentage _ key dcMetricsMap _
    · rfl
  rw [hunless, List.foldl_cons, List.foldl_cons, List.foldl_nil, length_countChannel,
    length_countChannel]
  by_cases h0 : key = .dcFlags 0
  · simp [h0, grown]
  · by_cases h1 : key = .dcFlags 1
    · simp [h1, grown]
    · simp [h0, h1]

/-- The series that an event of the NoC node appends to. -/
def isBwLat : Series → Bool
  | .readBandwidth | .writeBandwidth | .avgReadLatency | .avgWriteLatency => true
  | _ => false

theorem length_trimAndLog (s : DDRMC) (key : Series) :
    (s.trimAndLog.samples key).length = trimmed (s.samples key).length := length_trim _

theorem length_recordBwLat (rb wb rl wl : ℚ) (s : DDRMC) (key : Series) :
    ((s.recordBwLat rb wb rl wl).samples key).length =
      if isBwLat key then (s.samples key).length + 1 else (s.samples key).length := by
  have hlength := fun key' key l x => length_modify key' key (· ++ [x]) l
  simp only [List.length_append, List.length_singleton] at hlength
  simp only [recordBwLat, hlength]
  cases key <;> simp [isBwLat]

theorem length_recordNoc (s : DDRMC) (r w : List Reading) (bandwidth : ℚ × ℚ) (timeDelta : String)
    (key : Series) : ((s.recordNoc r w bandwidth timeDelta).samples key).length =
      if isBwLat key then (s.samples key).length + 1 else (s.samples key).length :=
  length_recordBwLat _ _ _ _ _ key

/-- An event of the NoC node raises and leaves all series, or appends one sample to its own. -/
theorem updateNoc_cases (s : DDRMC) (node : NodeUpdate) :
    (∃ e, s.updateNoc node = (s, some e)) ∨ ∃ s', s.updateNoc node = (s', none) ∧ s'.gen = s.gen ∧
      (∀ key, (s'.samples key).length = trimmed
        (if isBwLat key then (s.samples key).length + 1 else (s.samples key).length)) ∧
      s'.flags.length = trimmed (s.flags.length + 1) ∧ s'.ts.length = trimmed (s.ts.length + 1) := by
  unfold updateNoc
  rcases bandwidths s.samplingPeriodMs (s.readChannel node.registers 0)
    (s.readChannel node.registers 1) with e | bandwidth
  · exact .inl ⟨e, rfl⟩
  · refine .inr ⟨_, rfl, rfl, fun key => ?_, ?_, ?_⟩
    · exact (length_trimAndLog _ key).trans (congrArg trimmed (length_recordNoc _ _ _ _ _ key))
    · exact (length_trim _).trans (congrArg trimmed List.length_append)
    · exact (length_trim _).trans (congrArg trimmed List.length_append)

/-! ### Runs -/

/-- Lengths between two events. -/
structure Kept (s : DDRMC) : Prop where
  series : ∀ key, (∀ ch, key ≠ .dcFlags ch) →
    (s.samples key).length = if hasSeries s.numNsu key then MAX_SAMPLES else 0
  flags : s.flags.length = s.ts.length
  bounded : s.ts.length ≤ MAX_SAMPLES

theorem Kept.init (numSamples : ℤ) (samplingPeriodMs : ℚ) (gen : ℕ) :
    (DDRMC.init numSamples samplingPeriodMs gen).Kept where
  series key _ := by
    change (if hasSeries (getNsuCountPerDdrmc gen) key then List.replicate MAX_SAMPLES (0 : ℚ)
      else []).length = if hasSeries (getNsuCountPerDdrmc gen) key then MAX_SAMPLES else 0
    split_ifs
    · exact List.length_replicate
    · rfl
  flags := rfl
  bounded := Nat.zero_le _

theorem trimmed_le {n : ℕ} (h : n ≤ MAX_SAMPLES + 1) : trimmed n ≤ MAX_SAMPLES := by
  rw [trimmed]
  split_ifs <;> omega

theorem Kept.updateMain {s : DDRMC} (h : s.Kept) (node : NodeUpdate) : (s.updateMain node).Kept where
  series key hkey := by
    have hnot : ¬ (key = .dcFlags 0 ∨ key = .dcFlags 1) := fun hor => hor.elim (hkey 0) (hkey 1)
    rw [length_updateMain, if_neg hnot, h.series key hkey]
    change _ = if hasSeries s.numNsu key then MAX_SAMPLES else 0
    cases key with
    | dc ch metric =>
      have hmem := mem_dcMetricsMap metric
      rcases ch with - | - | ch
      · simp [grown, hmem, hasSeries, trimmed]
      · simp [grown, hmem, hasSeries, trimmed]
      · simp [grown, hasSeries]
    | agg metric =>
      have hmem := mem_dcMetricsMap metric
      simp [grown, hmem, hasSeries, trimmed]
    | _ => rfl
  flags := h.flags
  bounded := h.bounded

theorem Kept.updateNoc {s : DDRMC} (h : s.Kept) (node : NodeUpdate) : (s.updateNoc node).1.Kept := by
  rcases updateNoc_cases s node with ⟨e, heq⟩ | ⟨s', heq, hgen, hseries, hflags, hts⟩
  · rw [heq]
    exact h
  · rw [heq]
    refine ⟨fun key hkey => ?_, ?_, ?_⟩
    · change (s'.samples key).length = if hasSeries (getNsuCountPerDdrmc s'.gen) key then _ else _
      rw [hseries, hgen, h.series key hkey]
      change _ = if hasSeries s.numNsu key then MAX_SAMPLES else 0
      by_cases hhas : hasSeries s.numNsu key
      · cases hbw : isBwLat key <;> simp [hhas, trimmed]
      · have hbw : isBwLat key = false := by
          cases key <;> first | rfl | exact absurd rfl hhas
        simp [hhas, hbw, trimmed]
    · rw [hflags, hts, h.flags]
    · rw [hts]
      exact trimmed_le (Nat.succ_le_succ h.bounded)

theorem Kept.updateNode {s : DDRMC} (h : s.Kept) (node : NodeUpdate) :
    (s.updateNode node).1.Kept := by
  have hcounted : { s with numSamples := s.numSamples - 1 }.Kept := ⟨h.series, h.flags, h.bounded⟩
  rw [DDRMC.updateNode]
  split
  · exact hcounted.updateNoc node
  · exact hcounted.updateMain node
  · exact hcounted

theorem Kept.run {s : DDRMC} (h : s.Kept) (events : List NodeUpdate) : (s.run events).Kept := by
  induction events generalizing s with
  | nil => exact h
  | cons node events ih => exact ih (h.updateNode node)

/-- Series that are bounded, and as long as the others of their kind. -/
structure Aligned (s : DDRMC) : Prop where
  series_le : ∀ key, (∀ ch, key ≠ .dcFlags ch) → (s.samples key).length ≤ MAX_SAMPLES
  flags_le : s.flags.length ≤ MAX_SAMPLES
  ts_le : s.ts.length ≤ MAX_SAMPLES
  metrics : ∀ ch < 2, ∀ metric metric',
    (s.samples (.dc ch metric)).length = (s.samples (.agg metric')).length
  bandwidths : ∀ key key', isBwLat key → isBwLat key' →
    (s.samples key).length = (s.samples key').length
  flags_ts : s.flags.length = s.ts.length

theorem Kept.aligned {s : DDRMC} (h : s.Kept) : s.Aligned where
  series_le key hkey := by
    rw [h.series key hkey]
    split_ifs
    · exact le_rfl
    · exact Nat.zero_le _
  flags_le := h.flags ▸ h.bounded
  ts_le := h.bounded
  metrics ch hch metric metric' := by
    rw [h.series _ fun _ heq => (by cases heq), h.series _ fun _ heq => (by cases heq)]
    simp [hasSeries, hch]
  bandwidths := by
    have hfull : ∀ key, isBwLat key → (s.samples key).length = MAX_SAMPLES := by
      intro key hkey
      have hhas : hasSeries s.numNsu key = true := by
        cases key <;> first | rfl | exact absurd hkey Bool.false_ne_true
      rw [h.series key (fun ch heq => by rw [heq] at hkey; exact absurd hkey Bool.false_ne_true),
        if_pos hhas]
    exact fun key key' hkey hkey' => (hfull key hkey).trans (hfull key' hkey').symm
  flags_ts := h.flags

/-- In every run all series but the flags of the channels stay aligned. -/
theorem run_aligned (numSamples : ℤ) (samplingPeriodMs : ℚ) (gen : ℕ)
    (events : List NodeUpdate) :
    ((DDRMC.init numSamples samplingPeriodMs gen).run events).Aligned :=
  ((Kept.init numSamples samplingPeriodMs gen).run events).aligned

/-- An event with registers that are all zero. -/
def zeros (nodeType : NodeType) : NodeUpdate := ⟨nodeType, fun _ => 0, "00:00.0"⟩

theorem bytesPerSecond_zero {readings : List Reading} (h : (readings.map (·.burstCount)).sum = 0) :
    bytesPerSecond 1000 readings = .ok (Py.nearestFloat ((0 : ℤ) / (1 : ℤ))) := by
  have hbytes : Py.trueDiv ((0 * 128 : ℕ) : ℤ) 8 = .ok ((0 : ℤ) : ℚ) :=
    Py.trueDiv_eq_intCast (by norm_num) (by norm_num) (by norm_num)
  have hseconds : Py.nearestFloat (1000 / 1000) = (1 : ℤ) := by
    rw [← Py.nearestFloat_intCast (by norm_num)]
    norm_num
  rw [bytesPerSecond, h, hbytes, hseconds, Py.ok_bind, if_neg (by norm_num)]

theorem bandwidths_zeros (s : DDRMC) (hgen : s.gen = 4) : ∃ bandwidth,
    bandwidths 1000 (s.readChannel (zeros .ddrmcNoc).registers 0)
      (s.readChannel (zeros .ddrmcNoc).registers 1) = .ok bandwidth := by
  have hsum : ∀ mon, ((s.readChannel (zeros .ddrmcNoc).registers mon).map (·.burstCount)).sum = 0 := by
    intro mon
    rw [readChannel, numNsu, hgen]
    rfl
  exact ⟨_, by rw [bandwidths, bytesPerSecond_zero (hsum 0), bytesPerSecond_zero (hsum 1)]; rfl⟩

/-- The flags and the times start empty, and the flags of a channel are not trimmed after an event
    of their own node. -/
theorem not_all_aligned :
    ((DDRMC.init 10 1000 4).run [zeros .ddrmcNoc]).flags.length ≠
        (((DDRMC.init 10 1000 4).run [zeros .ddrmcNoc]).samples .readBandwidth).length ∧
      MAX_SAMPLES <
        (((DDRMC.init 10 1000 4).run [zeros .ddrmcMain]).samples (.dcFlags 0)).length := by
  constructor
  · have hseries : (((DDRMC.init 10 1000 4).run [zeros .ddrmcNoc]).samples .readBandwidth).length =
        MAX_SAMPLES := ((Kept.init 10 1000 4).run [zeros .ddrmcNoc]).series _ fun _ h => by cases h
    obtain ⟨bandwidth, hbw⟩ := bandwidths_zeros { DDRMC.init 10 1000 4 with numSamples := 9 } rfl
    have hflags : ((DDRMC.init 10 1000 4).run [zeros .ddrmcNoc]).flags.length = 1 := by
      change (updateNoc { DDRMC.init 10 1000 4 with numSamples := 9 }
        (zeros .ddrmcNoc)).1.flags.length = 1
      unfold updateNoc
      rw [show ({ DDRMC.init 10 1000 4 with numSamples := 9 } : DDRMC).samplingPeriodMs = 1000 from rfl,
        hbw]
      rfl
    rw [hseries, hflags]
    decide
  · have hmain := length_updateMain { DDRMC.init 10 1000 4 with numSamples := 9 } (zeros .ddrmcMain)
      (.dcFlags 0)
    rw [if_pos (.inl rfl)] at hmain
    exact hmain.symm.le

end DDRMC

end Chipscopy.Noc
