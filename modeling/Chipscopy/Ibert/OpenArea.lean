import Chipscopy.Ibert.EyeScan

/-! Open area of eye scans

    In one run of the loop each point keeps the counters in step with the points made so far, also
    where points are merged. The counters go on from what they were, though, while the points are
    made anew for each report: the books are right for a plot if and only if the plots read since
    the last start had no open points. -/

namespace Py

variable {κ υ : Type*} [DecidableEq κ] {k : κ} {old : υ}

/-- Counting values when a value is stored in place. -/
theorem countP_store (p : υ → Bool) (v : υ) : ∀ {es : List (κ × υ)}, lookup k es = some old →
    ((store k v es).map (·.2)).countP p + (if p old then 1 else 0) =
      (es.map (·.2)).countP p + if p v then 1 else 0
  | e :: es, h => by
    by_cases he : e.1 = k
    · rw [lookup, if_pos he] at h
      obtain rfl := Option.some.inj h
      rw [store, if_pos he, List.map_cons, List.map_cons, List.countP_cons, List.countP_cons]
      dsimp only
      omega
    · rw [lookup, if_neg he] at h
      have hes := countP_store p v h
      rw [store, if_neg he, List.map_cons, List.map_cons, List.countP_cons, List.countP_cons]
      omega

theorem Dict.countP_set_of_some (p : υ → Bool) (v : υ) {d : Dict κ υ} (h : d.get? k = some old) :
    (d.set k v).values.countP p + (if p old then 1 else 0) =
      d.values.countP p + if p v then 1 else 0 :=
  countP_store p v h

theorem Dict.countP_set_of_none (p : υ → Bool) (v : υ) {d : Dict κ υ} (h : d.get? k = none) :
    (d.set k v).values.countP p = d.values.countP p + if p v then 1 else 0 := by
  have hset : (d.set k v).entries = d.entries ++ [(k, v)] :=
    store_of_notMem v (d.get?_eq_none_iff.mp h)
  rw [values, hset, List.map_append, List.countP_append]
  simp [values, List.countP_cons]

end Py

namespace Chipscopy.Ibert.Scan

open Py (Outcome)

variable {T B : Type}

/-! ### One plot -/

/-- Counters that began at some values are in step with the points. -/
structure Tally (area openDataPoints openArea : ℤ) (c : Counting B) : Prop where
  points : c.openDataPoints = openDataPoints + openPoints c.scanPoints
  area : c.openArea = openArea + openPoints c.scanPoints * area

theorem openPoints_empty : openPoints (Py.Dict.empty : ScanPoints B) = 0 := rfl

theorem openPoints_set_of_none {points : ScanPoints B} {k : ℤ × ℤ} (h : points.get? k = none)
    (v : ScanPoint B) :
    openPoints (points.set k v) = openPoints points + if v.errors = 0 then 1 else 0 := by
  have hset := Py.Dict.countP_set_of_none (fun v : ScanPoint B => decide (v.errors = 0)) v h
  simpa [openPoints] using hset

theorem openPoints_set_of_some {points : ScanPoints B} {k : ℤ × ℤ} {old : ScanPoint B}
    (h : points.get? k = some old) (v : ScanPoint B) :
    openPoints (points.set k v) + (if old.errors = 0 then 1 else 0) =
      openPoints points + if v.errors = 0 then 1 else 0 := by
  have hset := Py.Dict.countP_set_of_some (fun v : ScanPoint B => decide (v.errors = 0)) v h
  simpa [openPoints] using hset

theorem openPoints_le_size (points : ScanPoints B) : openPoints points ≤ points.size := by
  refine List.countP_le_length.trans (le_of_eq ?_)
  rw [Py.Dict.values, List.length_map]
  rfl

variable [Add B]

theorem Tally.addPoint {area k a x y : ℤ} {data : PointData B} {c : Counting B}
    (h : Tally area k a c) : Tally area k a (c.addPoint area x y data) := by
  obtain ⟨hpoints, harea⟩ := h
  rw [Counting.addPoint]
  cases hget : c.scanPoints.get? (x, y) with
  | none =>
    have hset := openPoints_set_of_none hget
      (⟨x, y, data.ber, data.errors, data.sample⟩ : ScanPoint B)
    dsimp only at hset ⊢
    split_ifs with herrors
    · rw [if_pos herrors] at hset
      refine ⟨?_, ?_⟩
      · dsimp only
        rw [hset, hpoints]
        push_cast
        ring
      · dsimp only
        rw [hset, harea]
        push_cast
        ring
    · rw [if_neg herrors, Nat.add_zero] at hset
      exact ⟨by rw [← hset] at hpoints; exact hpoints, by rw [← hset] at harea; exact harea⟩
  | some point =>
    dsimp only
    split_ifs with hmerge
    · have hset := openPoints_set_of_some hget
        ({ point with ber := point.ber + data.ber, errors := data.errors } : ScanPoint B)
      dsimp only at hset
      rw [if_pos hmerge.2, if_neg hmerge.1, add_zero] at hset
      refine ⟨?_, ?_⟩
      · dsimp only
        rw [hpoints, ← hset]
        push_cast
        ring
      · dsimp only
        rw [harea, ← hset]
        push_cast
        ring
    · have hset := openPoints_set_of_some hget
        ({ point with ber := point.ber + data.ber } : ScanPoint B)
      dsimp only at hset
      have heq := Nat.add_right_cancel hset
      exact ⟨by rw [← heq] at hpoints; exact hpoints, by rw [← heq] at harea; exact harea⟩

theorem Tally.readPoint {area k a : ℤ} {item : String × PointData B} {c : Counting B}
    (h : Tally area k a c) : Tally area k a (Counting.readPoint area item c).1 := by
  rw [Counting.readPoint]
  split
  · exact h.addPoint
  · exact h

/-- All points of a plot, or those before the first that raises. -/
theorem tally_loop (area k a : ℤ) (items : List (String × PointData B)) :
    Tally area k a (Outcome.loop (Counting.readPoint area) items ⟨.empty, k, a⟩).1 := by
  refine Outcome.loop_inv (P := Tally area k a) (fun item c h => h.readPoint) items ⟨?_, ?_⟩
  · rw [openPoints_empty, Nat.cast_zero, add_zero]
  · rw [openPoints_empty, Nat.cast_zero, zero_mul, add_zero]

omit [Add B] in
theorem calculate_keeps (points : ScanPoints B) (p : ScanParams) (metric : MetricData) :
    (calculateVerticalHorizontalOpening points p metric).1.openArea = metric.openArea ∧
      (calculateVerticalHorizontalOpening points p metric).1.openPercentage =
        metric.openPercentage := by
  rw [calculateVerticalHorizontalOpening]
  split
  · exact ⟨rfl, rfl⟩
  · exact ⟨rfl, rfl⟩
  · dsimp only
    split
    · exact ⟨rfl, rfl⟩
    · split
      · exact ⟨rfl, rfl⟩
      · exact ⟨rfl, rfl⟩

/-- What reading a plot does to the counters, and to the books if it does not raise. -/
theorem readPlot_spec (s : EyeScan T B) {report : ScanReport B} (plot : PlotReport B)
    {p : ScanParams} (hp : report.scanParameters = some p) : ∃ c metric,
      Tally (p.horzStep * p.vertStep) s.openDataPoints (s.metricData.getD {}).openArea c ∧
      (s.readPlot report plot).1.made = s.made ++ [c.scanPoints] ∧
      (s.readPlot report plot).1.openDataPoints = c.openDataPoints ∧
      (s.readPlot report plot).1.metricData = some metric ∧ metric.openArea = c.openArea ∧
      ((s.readPlot report plot).2 = none → ∃ data, (s.readPlot report plot).1.scanData = some data ∧
        data.processed = some ⟨c.scanPoints, plot.berFloorValue⟩ ∧
        EyeScan.percentage c.openDataPoints c.scanPoints.size = .ok metric.openPercentage) := by
  have htally := tally_loop (p.horzStep * p.vertStep) s.openDataPoints
    (s.metricData.getD {}).openArea plot.data.entries
  rw [EyeScan.readPlot, hp]
  dsimp only
  rcases hloop : Outcome.loop (Counting.readPoint (p.horzStep * p.vertStep)) plot.data.entries
    ⟨.empty, s.openDataPoints, (s.metricData.getD {}).openArea⟩ with ⟨c, raised⟩
  rw [hloop] at htally
  dsimp only at htally ⊢
  cases raised with
  | some e => exact ⟨c, _, htally, rfl, rfl, rfl, rfl, fun hnone => by cases hnone⟩
  | none =>
    cases hdata : s.scanData with
    | none => exact ⟨c, _, htally, rfl, rfl, rfl, rfl, fun hnone => by cases hnone⟩
    | some data =>
      dsimp only
      cases hpercentage : EyeScan.percentage c.openDataPoints c.scanPoints.size with
      | error e => exact ⟨c, _, htally, rfl, rfl, rfl, rfl, fun hnone => by cases hnone⟩
      | ok percentage =>
        dsimp only
        obtain ⟨harea, hopen⟩ := calculate_keeps c.scanPoints p
          { s.metricData.getD {} with openArea := c.openArea, openPercentage := percentage }
        refine ⟨c, _, htally, rfl, rfl, rfl, harea, fun _ => ⟨_, rfl, rfl, ?_⟩⟩
        rw [hopen]
        exact hpercentage

/-! ### A run -/

omit [Add B] in
/-- The parts of an update other than the plot leave the books alone. -/
theorem readTimes_keeps (strptime : String → Except Py.Error T) (report : ScanReport B)
    (s : EyeScan T B) : (s.readTimes strptime report).1.openDataPoints = s.openDataPoints ∧
      (s.readTimes strptime report).1.metricData = s.metricData ∧
      (s.readTimes strptime report).1.made = s.made := by
  rw [EyeScan.readTimes]
  split
  · exact ⟨rfl, rfl, rfl⟩
  · dsimp only
    split
    · exact ⟨rfl, rfl, rfl⟩
    · exact ⟨rfl, rfl, rfl⟩

omit [Add B] in
theorem readRaw_keeps (report : ScanReport B) (s : EyeScan T B) :
    (s.readRaw report).openDataPoints = s.openDataPoints ∧
      (s.readRaw report).metricData = s.metricData ∧ (s.readRaw report).made = s.made := by
  rw [EyeScan.readRaw]
  split
  · split
    · exact ⟨rfl, rfl, rfl⟩
    · exact ⟨rfl, rfl, rfl⟩
  · exact ⟨rfl, rfl, rfl⟩

omit [Add B] in
theorem readStatus_keeps (report : ScanReport B) (s : EyeScan T B) :
    (s.readStatus report).openDataPoints = s.openDataPoints ∧
      (s.readStatus report).metricData = s.metricData ∧ (s.readStatus report).made = s.made ∧
      (s.readStatus report).scanData = s.scanData := by
  rw [EyeScan.readStatus]
  dsimp only
  split
  · exact ⟨rfl, rfl, rfl, rfl⟩
  · split
    · exact ⟨rfl, rfl, rfl, rfl⟩
    · exact ⟨rfl, rfl, rfl, rfl⟩

/-- The counters hold the open points of all plots since the last start. -/
structure Inv (s : EyeScan T B) : Prop where
  openDataPoints : s.openDataPoints = (s.made.map openPoints).sum
  openArea : (∀ points ∈ s.made, openPoints points = 0) → (s.metricData.getD {}).openArea = 0

omit [Add B] in
theorem Inv.congr {s s' : EyeScan T B} (h : Inv s)
    (hpoints : s'.openDataPoints = s.openDataPoints) (hmetric : s'.metricData = s.metricData)
    (hmade : s'.made = s.made) : Inv s' := by
  refine ⟨?_, ?_⟩
  · rw [hpoints, hmade]
    exact h.openDataPoints
  · rw [hmetric, hmade]
    exact h.openArea

theorem Inv.readPlot {s : EyeScan T B} (h : Inv s) (report : ScanReport B) (plot : PlotReport B) :
    Inv (s.readPlot report plot).1 := by
  cases hp : report.scanParameters with
  | none =>
    rw [EyeScan.readPlot, hp]
    exact h
  | some p =>
    obtain ⟨c, metric, htally, hmade, hpoints, hmetric, harea, -⟩ := readPlot_spec s plot hp
    refine ⟨?_, fun hall => ?_⟩
    · rw [hpoints, hmade, htally.points, h.openDataPoints, List.map_append, List.sum_append]
      push_cast
      simp
    · rw [hmade] at hall
      obtain ⟨hold, hnew⟩ := List.forall_mem_append.mp hall
      rw [hmetric, Option.getD_some, harea, htally.area, h.openArea hold,
        hnew c.scanPoints List.mem_cons_self]
      simp

omit [Add B] in
theorem inv_clearOutOldData (s : EyeScan T B) : Inv s.clearOutOldData :=
  ⟨rfl, fun _ => rfl⟩

variable {strptime : String → Except Py.Error T}

theorem Inv.apply {s : EyeScan T B} (h : Inv s) (event : Event B) :
    Inv (apply strptime s event).1 := by
  cases event with
  | start handle =>
    cases handle with
    | ok handle => exact (inv_clearOutOldData s).congr rfl rfl rfl
    | error e => exact inv_clearOutOldData s
  | update updatedProperties report =>
    obtain ⟨htimes, hmetric, hmade⟩ := readTimes_keeps strptime report s
    rw [Scan.apply, EyeScan.scanUpdate]
    split_ifs with hhandle
    · exact h
    · refine Outcome.andThen_inv (P := Inv) (h.congr htimes hmetric hmade) fun s₁ h₁ => ?_
      obtain ⟨hpoints₂, hmetric₂, hmade₂⟩ := readRaw_keeps report (s₁.readCounts report)
      have h₂ : Inv ((s₁.readCounts report).readRaw report) :=
        h₁.congr hpoints₂ hmetric₂ hmade₂
      refine Outcome.andThen_inv (P := Inv) ?_ fun s₃ h₃ => ?_
      · cases report.plot with
        | none => exact h₂
        | some plot => exact h₂.readPlot report plot
      · obtain ⟨hpoints, hmetric, hmade, -⟩ := readStatus_keeps report s₃
        exact h₃.congr hpoints hmetric hmade

/-- A processed plot: its points are shown, and the counters have gone on by them. -/
theorem processes_spec {s : EyeScan T B} {event : Event B} {p : ScanParams}
    (h : Processes strptime s event p) : ∃ data processed metric, ∃ points : ScanPoints B,
      (apply strptime s event).1.scanData = some data ∧ data.processed = some processed ∧
      (apply strptime s event).1.metricData = some metric ∧ processed.scanPoints = points ∧
      (apply strptime s event).1.openDataPoints = s.openDataPoints + openPoints points ∧
      metric.openArea = (s.metricData.getD {}).openArea +
        openPoints points * (p.horzStep * p.vertStep) ∧
      EyeScan.percentage (s.openDataPoints + openPoints points) points.size =
        .ok metric.openPercentage := by
  obtain ⟨updatedProperties, report, rfl, ⟨handle, hhandle, hupdated⟩, hplot, hp, hraised⟩ := h
  obtain ⟨plot, hplot⟩ := Option.isSome_iff_exists.mp hplot
  have hnot : ¬ ∀ handle ∈ s.handleFromCsServer, handle ∉ updatedProperties :=
    fun hall => hall handle hhandle hupdated
  obtain ⟨hpoints₁, hmetric₁, -⟩ := readTimes_keeps strptime report s
  obtain ⟨s₁, hs₁⟩ : ∃ s₁, s₁ = (s.readTimes strptime report).1 := ⟨_, rfl⟩
  obtain ⟨hpoints₂, hmetric₂, -⟩ := readRaw_keeps report (s₁.readCounts report)
  obtain ⟨s₂, hs₂⟩ : ∃ s₂, s₂ = (s₁.readCounts report).readRaw report := ⟨_, rfl⟩
  have hpoints : s₂.openDataPoints = s.openDataPoints := by
    rw [hs₂, hpoints₂, ← hpoints₁, hs₁]
    rfl
  have hmetric : s₂.metricData = s.metricData := by
    rw [hs₂, hmetric₂, ← hmetric₁, hs₁]
    rfl
  have happly : apply strptime s (.update updatedProperties report) =
      (s.readTimes strptime report).andThen fun s₁ =>
        (((s₁.readCounts report).readRaw report).readPlot report plot).andThen fun s =>
          (s.readStatus report, none) := by
    rw [apply, EyeScan.scanUpdate, if_neg hnot, hplot]
  rw [happly] at hraised ⊢
  obtain ⟨htimes, hrest⟩ := Outcome.andThen_eq_none hraised
  rw [Outcome.andThen_of_none htimes, ← hs₁, ← hs₂]
  rw [← hs₁, ← hs₂] at hrest
  obtain ⟨hread, -⟩ := Outcome.andThen_eq_none hrest
  rw [Outcome.andThen_of_none hread]
  obtain ⟨c, metric, htally, -, hopen, hbooks, harea, hdone⟩ := readPlot_spec s₂ plot hp
  obtain ⟨data, hdata, hprocessed, hpercentage⟩ := hdone hread
  obtain ⟨hpoints₄, hmetric₄, -, hdata₄⟩ := readStatus_keeps report (s₂.readPlot report plot).1
  rw [htally.points, hpoints] at hopen
  refine ⟨data, _, metric, c.scanPoints, hdata₄.trans hdata, hprocessed, hmetric₄.trans hbooks, rfl,
    hpoints₄.trans hopen, ?_, ?_⟩
  · rw [harea, htally.area, hmetric]
  · rw [← hpoints, ← htally.points]
    exact hpercentage

omit [Add B] in
/-- A part of a plot in percent is rounded, and does not leave the range. -/
theorem percentage_ok {n total : ℕ} {q : ℚ} (hle : n ≤ total)
    (h : EyeScan.percentage n total = .ok q) :
    q = Py.roundTo 2 (Py.nearestFloat (n * 100 / total)) ∧ 0 ≤ q ∧ q ≤ 100 := by
  have hcast : (((n : ℤ) * 100 : ℤ) : ℚ) / ((total : ℤ) : ℚ) = n * 100 / total := by
    push_cast
    rfl
  have hnonneg : (0 : ℚ) ≤ n * 100 / total := by positivity
  have hhundred : (n : ℚ) * 100 / total ≤ 100 := by
    have hn : (n : ℚ) ≤ total := by exact_mod_cast hle
    refine div_le_of_le_mul₀ (Nat.cast_nonneg _) (by norm_num) ?_
    rw [mul_comm]
    exact mul_le_mul_of_nonneg_left hn (by norm_num)
  rw [EyeScan.percentage, Py.trueDiv, hcast] at h
  split_ifs at h
  · cases h
  · have hq : Py.roundTo 2 (Py.nearestFloat (n * 100 / total)) = q := Except.ok.inj h
    rw [← hq]
    exact ⟨rfl, Py.roundTo_two_percentage (Py.nearestFloat_nonneg hnonneg)
      (Py.nearestFloat_le_hundred hnonneg hhundred)⟩
  · cases h

theorem books_of_firstOpen {s : EyeScan T B} {event : Event B} (h : Inv s)
    (hfirst : FirstOpen strptime s event) : Books strptime s event (apply strptime s event).1 := by
  intro p hprocesses
  have hmade := hfirst ⟨p, hprocesses⟩
  have hzero : s.openDataPoints = 0 := by
    rw [h.openDataPoints, Nat.cast_eq_zero]
    refine List.sum_eq_zero fun n hn => ?_
    obtain ⟨points, hpoints, rfl⟩ := List.mem_map.mp hn
    exact hmade points hpoints
  obtain ⟨data, processed, metric, points, hdata, hprocessed, hmetric, rfl, hopen, harea,
    hpercentage⟩ := processes_spec hprocesses
  rw [hzero, zero_add] at hopen hpercentage
  rw [h.openArea hmade, zero_add] at harea
  obtain ⟨hq, hnonneg, hhundred⟩ := percentage_ok (openPoints_le_size _) hpercentage
  exact ⟨data, processed, metric, hdata, hprocessed, hmetric,
    hopen, harea, hq, hnonneg, hhundred⟩

/-- Open points of an earlier plot are counted again. -/
theorem not_books_of_not_firstOpen {s : EyeScan T B} {event : Event B} (h : Inv s)
    (hfirst : ¬ FirstOpen strptime s event) :
    ¬ Books strptime s event (apply strptime s event).1 := by
  intro hbooks
  rw [FirstOpen] at hfirst
  push Not at hfirst
  obtain ⟨⟨p, hprocesses⟩, points, hpoints, hopen⟩ := hfirst
  obtain ⟨data, processed, metric, hdata, hprocessed, hmetric, hbooked⟩ := hbooks p hprocesses
  obtain ⟨data', processed', metric', points', hdata', hprocessed', -, rfl, hopen', -⟩ :=
    processes_spec hprocesses
  obtain rfl := Option.some.inj (hdata.symm.trans hdata')
  obtain rfl := Option.some.inj (hprocessed.symm.trans hprocessed')
  have hsum : openPoints points ≤ (s.made.map openPoints).sum :=
    List.single_le_sum (fun _ _ => Nat.zero_le _) _ (List.mem_map_of_mem hpoints)
  have hcounted := hbooked.openDataPoints
  rw [hopen', h.openDataPoints] at hcounted
  omega

omit [Add B] in
theorem inv_new : Inv ({} : EyeScan T B) := ⟨rfl, fun _ => rfl⟩

/-- The books are right for every processed plot exactly if it is processed when no plot read since
    the last start had open points. -/
theorem books_iff (strptime : String → Except Py.Error T) (events : List (Event B)) :
    Machine.Throughout (step strptime) (fun _ => True) (Books strptime) {} events ↔
      Machine.EachStep (step strptime) (FirstOpen strptime) {} events := by
  refine Machine.Throughout.iff_eachStep Inv (fun _ => trivial)
    (fun {s event s'} h hfirst hstep => ?_) (fun {s event} h hfirst => ?_) events inv_new
  · obtain rfl := Option.some.inj hstep
    exact ⟨h.apply event, books_of_firstOpen h hfirst⟩
  · exact ⟨_, rfl, fun hbooks => absurd hbooks (not_books_of_not_firstOpen h hfirst)⟩

/-! ### A plot that is sent again -/

def params : ScanParams := ⟨8, -8, 8, 8, -8, 8⟩

/-- A plot of one open point. -/
def onePoint : ScanReport ℕ where
  scanParameters := some params
  rawData := some ⟨[], [], [], [], [], []⟩
  plot := some ⟨0, Py.Dict.empty.set "0, 0" ⟨0, 0, 100⟩⟩
  status := some EYE_SCAN_DONE

theorem openPart_params (count : ℤ) : ∃ q, openPart count 8 (-8) 8 = .ok q := by
  have hsteps : Py.trueDiv (8 - -8) 8 = .ok ((2 : ℤ) : ℚ) :=
    Py.trueDiv_eq_intCast (by decide) (by decide) (by decide)
  have hnumber : Py.nearestFloat (((2 : ℤ) : ℚ) + 1) = ((3 : ℤ) : ℚ) := by
    have hthree : ((2 : ℤ) : ℚ) + 1 = ((3 : ℤ) : ℚ) := by norm_num
    rw [hthree]
    exact Py.nearestFloat_intCast (by decide)
  rw [openPart, hsteps, Py.ok_bind]
  dsimp only
  rw [hnumber, if_neg (by norm_num)]
  exact ⟨_, rfl⟩

theorem calculate_params (points : ScanPoints ℕ) (metric : MetricData) :
    (calculateVerticalHorizontalOpening points params metric).2 = none := by
  have hmiddle : middle 8 (-8) 8 = .ok 0 := rfl
  rw [calculateVerticalHorizontalOpening, params]
  dsimp only
  rw [hmiddle]
  dsimp only
  obtain ⟨q, hq⟩ := openPart_params (((points.values.filter fun point => point.errors = 0).filter
    fun point => (point.y : ℚ) = 0).foldl (fun z point => z.add point.x) ({} : ZeroOffset)).count
  rw [hq]
  dsimp only
  obtain ⟨q', hq'⟩ := openPart_params (((points.values.filter fun point => point.errors = 0).filter
    fun point => (point.x : ℚ) = 0).foldl (fun z point => z.add point.y) ({} : ZeroOffset)).count
  rw [hq']

theorem loop_onePoint (area k a : ℤ) :
    Outcome.loop (Counting.readPoint (B := ℕ) area) [("0, 0", ⟨0, 0, 100⟩)] ⟨.empty, k, a⟩ =
      (⟨Py.Dict.empty.set (0, 0) ⟨0, 0, 0, 0, 100⟩, k + 1, a + area⟩, none) := by
  have hkey : coordinates "0, 0" = .ok (0, 0) := by decide +kernel
  rw [Outcome.loop, Counting.readPoint, hkey]
  rfl

theorem readPlot_onePoint {s : EyeScan Unit ℕ} {plot : PlotReport ℕ}
    (hplot : onePoint.plot = some plot) (hdata : s.scanData.isSome)
    (hsmall : |(s.openDataPoints + 1) * 100| < 2 ^ 53) :
    (s.readPlot onePoint plot).2 = none ∧
      (s.readPlot onePoint plot).1.openDataPoints = s.openDataPoints + 1 ∧
      (s.readPlot onePoint plot).1.handleFromCsServer = s.handleFromCsServer := by
  obtain ⟨data, hdata⟩ := Option.isSome_iff_exists.mp hdata
  have hpercentage : EyeScan.percentage (s.openDataPoints + 1) 1 =
      .ok (Py.roundTo 2 (((s.openDataPoints + 1) * 100 : ℤ) : ℚ)) := by
    rw [EyeScan.percentage, Nat.cast_one,
      Py.trueDiv_eq_intCast (by decide) hsmall (mul_one _).symm, Py.ok_bind]
  have hentries : (Py.Dict.empty.set "0, 0" (⟨0, 0, 100⟩ : PointData ℕ)).entries =
    [("0, 0", ⟨0, 0, 100⟩)] := rfl
  have hsize : (Py.Dict.empty.set ((0, 0) : ℤ × ℤ) (⟨0, 0, 0, 0, 100⟩ : ScanPoint ℕ)).size = 1 := rfl
  obtain rfl := Option.some.inj hplot
  rw [EyeScan.readPlot, onePoint]
  dsimp only
  rw [hentries, loop_onePoint]
  dsimp only
  rw [hdata]
  dsimp only
  rw [hsize, hpercentage]
  exact ⟨calculate_params _ _, rfl, rfl⟩

theorem apply_onePoint (strptime : String → Except Py.Error Unit) {s : EyeScan Unit ℕ}
    (hhandle : s.handleFromCsServer = some "handle")
    (hsmall : |(s.openDataPoints + 1) * 100| < 2 ^ 53) :
    Processes strptime s (.update ["handle"] onePoint) params ∧
      (apply strptime s (.update ["handle"] onePoint)).1.openDataPoints = s.openDataPoints + 1 ∧
      (apply strptime s (.update ["handle"] onePoint)).1.handleFromCsServer = some "handle" := by
  have hnot : ¬ ∀ handle ∈ s.handleFromCsServer, handle ∉ ["handle"] :=
    fun hall => hall "handle" hhandle List.mem_cons_self
  have htime : ∀ time, EyeScan.readTime strptime time none = .ok time := by
    intro time
    cases time <;> rfl
  have htimes : s.readTimes strptime onePoint = (s, none) := by
    rw [EyeScan.readTimes, onePoint, htime]
    dsimp only
    rw [htime]
  obtain ⟨s₂, hs₂⟩ : ∃ s₂, s₂ = (s.readCounts onePoint).readRaw onePoint := ⟨_, rfl⟩
  have hdata : s₂.scanData.isSome := by
    rw [hs₂, EyeScan.readRaw, onePoint]
    dsimp only
    split <;> rfl
  have hkeep : s₂.handleFromCsServer = s.handleFromCsServer := by
    rw [hs₂, EyeScan.readRaw, onePoint]
    dsimp only
    split <;> rfl
  have hopen : s₂.openDataPoints = s.openDataPoints := by
    rw [hs₂]
    exact (readRaw_keeps onePoint (s.readCounts onePoint)).1
  rw [← hopen] at hsmall
  obtain ⟨hread, hpoints, hhandle₂⟩ := readPlot_onePoint rfl hdata hsmall
  have happly : apply strptime s (.update ["handle"] onePoint) =
      ((s₂.readPlot onePoint ⟨0, Py.Dict.empty.set "0, 0" ⟨0, 0, 100⟩⟩).1.readStatus onePoint,
        none) := by
    rw [apply, EyeScan.scanUpdate, if_neg hnot, htimes, Outcome.andThen, ← hs₂]
    exact Outcome.andThen_of_none hread _
  obtain ⟨hstatus, -⟩ := readStatus_keeps onePoint
    (s₂.readPlot onePoint ⟨0, Py.Dict.empty.set "0, 0" ⟨0, 0, 100⟩⟩).1
  refine ⟨⟨_, _, rfl, ⟨"handle", hhandle, List.mem_cons_self⟩, rfl, rfl, by rw [happly]⟩, ?_, ?_⟩
  · rw [happly, hstatus, hpoints, hopen]
  · rw [happly, EyeScan.readStatus, onePoint]
    dsimp only
    rw [Option.getD_some, if_pos rfl]
    exact hhandle₂.trans (hkeep.trans hhandle)

/-- The report of the plot comes twice. -/
theorem not_books_again : ¬ ∀ events : List (Event ℕ),
    Machine.Throughout (step fun _ => .error (.valueError "")) (fun _ => True)
      (Books (T := Unit) fun _ => .error (.valueError "")) {} events := by
  intro h
  obtain ⟨strptime, hstrptime⟩ : ∃ strptime : String → Except Py.Error Unit,
    strptime = fun _ => .error (.valueError "") := ⟨_, rfl⟩
  rw [← hstrptime] at h
  obtain ⟨-, hopen, hhandle⟩ := apply_onePoint strptime
    (s := { handleFromCsServer := some "handle" }) rfl (by decide)
  rw [zero_add] at hopen
  obtain ⟨hagain, -, -⟩ := apply_onePoint strptime hhandle (by rw [hopen]; decide)
  have hrun := h [.start (.ok "handle"), .update ["handle"] onePoint, .update ["handle"] onePoint]
  have hlast := (((hrun.2 _ rfl).2.2 _ rfl).2.2 _ rfl).1
  obtain ⟨data, processed, metric, hdata, hprocessed, -, hbooked⟩ := hlast params hagain
  obtain ⟨data', processed', metric', points, hdata', hprocessed', -, rfl, hadded, -⟩ :=
    processes_spec hagain
  obtain rfl := Option.some.inj (hdata.symm.trans hdata')
  obtain rfl := Option.some.inj (hprocessed.symm.trans hprocessed')
  have hcounted := hadded.symm.trans hbooked.openDataPoints
  rw [hopen] at hcounted
  omega

end Chipscopy.Ibert.Scan
