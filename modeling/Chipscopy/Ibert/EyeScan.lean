import Chipscopy.Lib.Float
import Chipscopy.Lib.IntLiteral
import Chipscopy.Lib.Machine
import Chipscopy.Lib.Method

/-! Eye scans

    The server reports the progress of a scan by updates of a property, and a report may carry the
    2D plot. The points of a plot are put in a new dictionary for each report, and points that share
    their coordinates are merged. The open points and the open area are counted on the object. -/

namespace Chipscopy.Ibert.Scan

open Py (Outcome)

structure ScanPoint (B : Type) where
  x : ℤ
  y : ℤ
  ber : B
  errors : ℤ
  samples : ℤ
  deriving DecidableEq

abbrev ScanPoints (B : Type) := Py.Dict (ℤ × ℤ) (ScanPoint B)

structure Plot2DData (B : Type) where
  scanPoints : ScanPoints B
  berFloorValue : B

structure RawData where
  ut : List ℤ
  prescale : List ℤ
  errorCount : List ℤ
  sampleCount : List ℤ
  verticalRange : List ℤ
  horizontalRange : List ℤ

/-- Scan parameters that are read. -/
structure ScanParams where
  maxHorz : ℤ
  minHorz : ℤ
  horzStep : ℤ
  maxVert : ℤ
  minVert : ℤ
  vertStep : ℤ

structure ScanData (B : Type) where
  raw : RawData
  allParams : ScanParams
  processed : Option (Plot2DData B) := none

structure MetricData where
  openArea : ℤ := 0
  openPercentage : ℚ := 0
  verticalOpening : ℤ := 0
  verticalPercentage : ℚ := 0
  horizontalOpening : ℤ := 0
  horizontalPercentage : ℚ := 0

/-- Data of a point in a report. -/
structure PointData (B : Type) where
  ber : B
  errors : ℤ
  sample : ℤ

/-- The 2D plot of a report: points by a text of their coordinates. -/
structure PlotReport (B : Type) where
  berFloorValue : B
  data : Py.Dict String (PointData B)

structure ScanReport (B : Type) where
  startTime : Option String := none
  stopTime : Option String := none
  elfVersion : Option String := none
  dataPointsExpected : Option ℤ := none
  dataPointsRead : Option ℤ := none
  scanParameters : Option ScanParams := none
  rawData : Option RawData := none
  plot : Option (PlotReport B) := none
  progress : Option ℚ := none
  status : Option String := none
  error : Option String := none

def EYE_SCAN_NOT_STARTED := "Not Started"
def EYE_SCAN_DONE := "Done"
def EYE_SCAN_ABORTED := "Aborted"

/-- An eye scan. The last field is for statements only: the dictionaries of points that were made
    since the last start. -/
structure EyeScan (T B : Type) where
  error : String := ""
  status : String := EYE_SCAN_NOT_STARTED
  progress : ℚ := -1
  stopTime : Option T := none
  startTime : Option T := none
  elfVersion : Option String := none
  dataPointsRead : ℤ := 0
  dataPointsExpected : ℤ := 0
  openDataPoints : ℤ := 0
  scanData : Option (ScanData B) := none
  metricData : Option MetricData := none
  handleFromCsServer : Option String := none
  scanDone : Bool := false
  made : List (ScanPoints B) := []

/-! ### Points of a plot -/

section Points

variable {B : Type}

/-- `key.split(", ")`. -/
def splitKey : List Char → List (List Char)
  | [] => [[]]
  | ',' :: ' ' :: key => [] :: splitKey key
  | c :: key => match splitKey key with
    | [] => [[c]]
    | part :: parts => (c :: part) :: parts

/-- `x, y = [int(coordinate) for coordinate in key.split(", ")]`. -/
def coordinates (key : String) : Except Py.Error (ℤ × ℤ) := do
  match ← (splitKey key.toList).mapM (IntLiteral.int 10) with
  | [x, y] => .ok (x, y)
  | _ :: _ :: _ :: _ => .error (.valueError "too many values to unpack (expected 2)")
  | parts => .error (.valueError
    s!"not enough values to unpack (expected 2, got {parts.length})")

/-- What the loop over the points changes. -/
structure Counting (B : Type) where
  scanPoints : ScanPoints B
  openDataPoints : ℤ
  openArea : ℤ

variable [Add B]

/-- One point, whose open area is that of a step. -/
def Counting.addPoint (area x y : ℤ) (data : PointData B) (c : Counting B) : Counting B :=
  match c.scanPoints.get? (x, y) with
  | some point =>
    let point := { point with ber := point.ber + data.ber }
    if data.errors ≠ 0 ∧ point.errors = 0 then
      { scanPoints := c.scanPoints.set (x, y) { point with errors := data.errors }
        openDataPoints := c.openDataPoints - 1
        openArea := c.openArea - area }
    else { c with scanPoints := c.scanPoints.set (x, y) point }
  | none =>
    let c := { c with scanPoints := c.scanPoints.set (x, y) ⟨x, y, data.ber, data.errors, data.sample⟩ }
    if data.errors = 0 then
      { c with
        openDataPoints := c.openDataPoints + 1
        openArea := c.openArea + area }
    else c

def Counting.readPoint (area : ℤ) (item : String × PointData B) (c : Counting B) :
    Outcome (Counting B) :=
  match coordinates item.1 with
  | .ok (x, y) => (c.addPoint area x y item.2, none)
  | .error e => (c, some e)

end Points

/-! ### Openings at zero offset -/

/-- Middle of a range. -/
def middle (max min step : ℤ) : Except Py.Error ℚ := do
  if max ≠ -min then
    let middle ← Py.trueDiv (max - min + 1) 2
    if step = 0 then .error .zeroDivisionError
    else .ok (Py.nearestFloat (Py.nearestFloat (Py.nearestFloat min + middle) -
      Py.nearestFloat (min.fmod step)))
  else .ok 0

/-- Extent of the open points on one axis. -/
structure ZeroOffset where
  min : ℤ := 1000
  max : ℤ := -1000
  count : ℤ := 0

def ZeroOffset.add (z : ZeroOffset) (coordinate : ℤ) : ZeroOffset where
  min := if coordinate < z.min then coordinate else z.min
  max := if z.max < coordinate then coordinate else z.max
  count := z.count + 1

def ZeroOffset.opening (z : ZeroOffset) : ℤ := if z.max - z.min < 0 then 0 else z.max - z.min

/-- Part of the steps of a range that is open. -/
def openPart (count max min step : ℤ) : Except Py.Error ℚ := do
  let steps ← Py.trueDiv (max - min) step
  let number := Py.nearestFloat (steps + 1)
  if number = 0 then .error .zeroDivisionError
  else .ok (Py.roundTo 2 (Py.nearestFloat (Py.nearestFloat (count * 100 : ℤ) / number)))

/-- The vertical opening is widened by a test of the horizontal minimum. -/
def calculateVerticalHorizontalOpening {B : Type} (points : ScanPoints B) (p : ScanParams)
    (metric : MetricData) : Outcome MetricData :=
  match middle p.maxHorz p.minHorz p.horzStep, middle p.maxVert p.minVert p.vertStep with
  | .error e, _ => (metric, some e)
  | _, .error e => (metric, some e)
  | .ok horizontalMiddle, .ok verticalMiddle =>
    let opened := points.values.filter fun point => point.errors = 0
    let vert := (opened.filter fun point => (point.x : ℚ) = horizontalMiddle).foldl
      (fun z point => z.add point.y) ({} : ZeroOffset)
    let horz := (opened.filter fun point => (point.y : ℚ) = verticalMiddle).foldl
      (fun z point => z.add point.x) ({} : ZeroOffset)
    let metric := { metric with
      verticalOpening := vert.opening + if 0 ≤ vert.max ∧ horz.min ≤ 0 then 1 else 0
      horizontalOpening := horz.opening + if 0 ≤ horz.max ∧ horz.min ≤ 0 then 1 else 0 }
    match openPart horz.count p.maxHorz p.minHorz p.horzStep with
    | .error e => (metric, some e)
    | .ok part =>
      let metric := { metric with horizontalPercentage := part }
      match openPart vert.count p.maxVert p.minVert p.vertStep with
      | .error e => (metric, some e)
      | .ok part => ({ metric with verticalPercentage := part }, none)

namespace EyeScan

/-! ### Updates of a scan -/

variable {T B : Type}

def clearOutOldData (s : EyeScan T B) : EyeScan T B :=
  { s with
    status := EYE_SCAN_NOT_STARTED
    progress := -1
    stopTime := none
    startTime := none
    elfVersion := none
    scanData := none
    metricData := none
    openDataPoints := 0
    dataPointsRead := 0
    dataPointsExpected := 0
    scanDone := false
    made := [] }

/-- `start`, whose command is answered with a handle or an error. -/
def start (handle : Except Py.Error String) (s : EyeScan T B) : Outcome (EyeScan T B) :=
  match handle with
  | .ok handle => ({ s.clearOutOldData with handleFromCsServer := some handle }, none)
  | .error e => (s.clearOutOldData, some e)

/-- A time that is read once. -/
def readTime (strptime : String → Except Py.Error T) (time : Option T) (text : Option String) :
    Except Py.Error (Option T) :=
  match time, text with
  | none, some text => (strptime text).map some
  | _, _ => .ok time

def readTimes (strptime : String → Except Py.Error T) (report : ScanReport B) (s : EyeScan T B) :
    Outcome (EyeScan T B) :=
  match readTime strptime s.startTime report.startTime with
  | .error e => (s, some e)
  | .ok time =>
    let s := { s with startTime := time }
    match readTime strptime s.stopTime report.stopTime with
    | .error e => (s, some e)
    | .ok time => ({ s with stopTime := time }, none)

def readCounts (report : ScanReport B) (s : EyeScan T B) : EyeScan T B :=
  { s with
    elfVersion := s.elfVersion.or report.elfVersion
    dataPointsExpected :=
      if s.dataPointsExpected = 0 then report.dataPointsExpected.getD 0 else s.dataPointsExpected
    dataPointsRead := report.dataPointsRead.getD s.dataPointsRead }

def RawData.extend (raw new : RawData) : RawData where
  ut := raw.ut ++ new.ut
  prescale := raw.prescale ++ new.prescale
  errorCount := raw.errorCount ++ new.errorCount
  sampleCount := raw.sampleCount ++ new.sampleCount
  verticalRange := raw.verticalRange ++ new.verticalRange
  horizontalRange := raw.horizontalRange ++ new.horizontalRange

def readRaw (report : ScanReport B) (s : EyeScan T B) : EyeScan T B :=
  match report.scanParameters, report.rawData with
  | some params, some new =>
    match s.scanData with
    | none => { s with scanData := some { raw := new, allParams := params } }
    | some data => { s with scanData := some { data with raw := RawData.extend data.raw new } }
  | _, _ => s

/-- `round(float((n * 100) / total), 2)`. -/
def percentage (n : ℤ) (total : ℕ) : Except Py.Error ℚ := do
  .ok (Py.roundTo 2 (← Py.trueDiv (n * 100) total))

variable [Add B]

/-- The 2D plot. -/
def readPlot (report : ScanReport B) (plot : PlotReport B) (s : EyeScan T B) :
    Outcome (EyeScan T B) :=
  match report.scanParameters with
  | none => (s, some (.keyError "Scan Parameters"))
  | some params =>
    let metric := s.metricData.getD {}
    let (c, raised) := Outcome.loop (Counting.readPoint (params.horzStep * params.vertStep))
      plot.data.entries ⟨.empty, s.openDataPoints, metric.openArea⟩
    let metric := { metric with openArea := c.openArea }
    let s := { s with
      openDataPoints := c.openDataPoints
      metricData := some metric
      made := s.made ++ [c.scanPoints] }
    match raised, s.scanData with
    | some e, _ => (s, some e)
    | none, none =>
      (s, some (.attributeError "'NoneType' object has no attribute 'processed'"))
    | none, some data =>
      let s := { s with
        scanData := some { data with processed := some ⟨c.scanPoints, plot.berFloorValue⟩ } }
      match percentage s.openDataPoints c.scanPoints.size with
      | .error e => (s, some e)
      | .ok percentage =>
        let metric := { metric with openPercentage := percentage }
        let (metric, raised) := calculateVerticalHorizontalOpening c.scanPoints params metric
        ({ s with metricData := some metric }, raised)

/-- Progress and status, and the end of the scan. -/
def readStatus (report : ScanReport B) (s : EyeScan T B) : EyeScan T B :=
  let s := { s with
    progress := (report.progress.map (Py.roundTo 2)).getD s.progress
    status := report.status.getD s.status }
  if s.status = EYE_SCAN_DONE then { s with scanDone := true }
  else if s.status = EYE_SCAN_ABORTED then
    { s with error := report.error.getD "Not available", scanDone := true }
  else s

/-- `_scan_update_event_listener`, with what it catches. -/
def scanUpdate (strptime : String → Except Py.Error T) (updatedProperties : List String)
    (report : ScanReport B) (s : EyeScan T B) : Outcome (EyeScan T B) :=
  if ∀ handle ∈ s.handleFromCsServer, handle ∉ updatedProperties then (s, none)
  else
    Outcome.andThen (s.readTimes strptime report) fun s =>
      let s := (s.readCounts report).readRaw report
      let o : Outcome (EyeScan T B) := match report.plot with
        | none => (s, none)
        | some plot => s.readPlot report plot
      o.andThen fun s => (s.readStatus report, none)

end EyeScan

/-- Starts of a scan, and updates of properties with the report that is then there. -/
inductive Event (B : Type)
  | start (handle : Except Py.Error String)
  | update (updatedProperties : List String) (report : ScanReport B)

section Runs

variable {T B : Type} [Add B] (strptime : String → Except Py.Error T)

def apply (s : EyeScan T B) : Event B → Outcome (EyeScan T B)
  | .start handle => s.start handle
  | .update updatedProperties report => s.scanUpdate strptime updatedProperties report

/-- Errors of an update are printed, and those of a start go to the caller. -/
def step (s : EyeScan T B) (event : Event B) : Option (EyeScan T B) := some (apply strptime s event).1

/-! ### What is kept -/

/-- Points with no errors. -/
def openPoints (points : ScanPoints B) : ℕ := points.values.countP fun point => point.errors = 0

/-- The books agree with the points that are shown. -/
structure Booked (p : ScanParams) (points : ScanPoints B) (metric : MetricData) (s : EyeScan T B) :
    Prop where
  openDataPoints : s.openDataPoints = openPoints points
  openArea : metric.openArea = openPoints points * (p.horzStep * p.vertStep)
  openPercentage : metric.openPercentage =
    Py.roundTo 2 (Py.nearestFloat (openPoints points * 100 / points.size))
  nonneg : 0 ≤ metric.openPercentage
  le_hundred : metric.openPercentage ≤ 100

/-- An update for the scan that carries a plot, with these parameters, and does not raise. -/
def Processes (s : EyeScan T B) (event : Event B) (p : ScanParams) : Prop :=
  ∃ updatedProperties report, event = .update updatedProperties report ∧
    (∃ handle ∈ s.handleFromCsServer, handle ∈ updatedProperties) ∧ report.plot.isSome ∧
    report.scanParameters = some p ∧ (apply strptime s event).2 = none

/-- After each processed update with a plot the points are shown and booked. -/
def Books (s : EyeScan T B) (event : Event B) (s' : EyeScan T B) : Prop :=
  ∀ p, Processes strptime s event p → ∃ data processed metric, s'.scanData = some data ∧
    data.processed = some processed ∧ s'.metricData = some metric ∧
    Booked p processed.scanPoints metric s'

/-- A plot is processed only if those read since the last start had no open points. -/
def FirstOpen (s : EyeScan T B) (event : Event B) : Prop :=
  (∃ p, Processes strptime s event p) → ∀ points ∈ s.made, openPoints points = 0

end Runs

end Chipscopy.Ibert.Scan
