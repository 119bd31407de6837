import Chipscopy.Ibert.EyeScan

/-! Openings of both axes

    The two axes are measured by the same code twice, so an exchange of the axes exchanges the
    results. But the vertical opening is widened by a test of the horizontal minimum: the axes are
    treated alike if and only if this test says the same for both minima. -/

namespace Chipscopy.Ibert.Scan

variable {B : Type}

/-! ### An exchange of the axes -/

def ScanPoint.swap (point : ScanPoint B) : ScanPoint B := { point with x := point.y, y := point.x }

def swapPoints (points : ScanPoints B) : ScanPoints B where
  entries := points.entries.map fun e => (e.1.swap, e.2.swap)
  nodup := by
    have hkeys : (points.entries.map fun e => (e.1.swap, e.2.swap)).map (·.1) =
        (points.entries.map (·.1)).map Prod.swap := by simp
    rw [hkeys]
    exact points.nodup.map Prod.swap_injective

def ScanParams.swap (p : ScanParams) : ScanParams where
  maxHorz := p.maxVert
  minHorz := p.minVert
  horzStep := p.vertStep
  maxVert := p.maxHorz
  minVert := p.minHorz
  vertStep := p.horzStep

/-- Error-free points of the middle column, along it. -/
def column (points : ScanPoints B) (horizontalMiddle : ℚ) : List ℤ :=
  ((points.values.filter fun point => point.errors = 0).filter
    fun point => (point.x : ℚ) = horizontalMiddle).map (·.y)

/-- Error-free points of the middle row, along it. -/
def row (points : ScanPoints B) (verticalMiddle : ℚ) : List ℤ :=
  ((points.values.filter fun point => point.errors = 0).filter
    fun point => (point.y : ℚ) = verticalMiddle).map (·.x)

theorem values_swapPoints (points : ScanPoints B) :
    (swapPoints points).values = points.values.map ScanPoint.swap := by
  simp [swapPoints, Py.Dict.values]

@[simp] theorem row_swapPoints (points : ScanPoints B) (m : ℚ) :
    row (swapPoints points) m = column points m := by
  simp only [row, column, values_swapPoints, List.filter_map, List.map_map]
  rfl

@[simp] theorem column_swapPoints (points : ScanPoints B) (m : ℚ) :
    column (swapPoints points) m = row points m := by
  simp only [row, column, values_swapPoints, List.filter_map, List.map_map]
  rfl

/-! ### Extent of a line of points -/

/-- What the loop has found on one axis. -/
def extent (coordinates : List ℤ) : ZeroOffset := coordinates.foldl ZeroOffset.add {}

/-- An opening, widened by a test of its own maximum and the minimum of some line. -/
def widened (line other : List ℤ) : ℤ :=
  (extent line).opening + if 0 ≤ (extent line).max ∧ (extent other).min ≤ 0 then 1 else 0

/-- The opening of one axis by itself. -/
def zeroOpening (line : List ℤ) : ℤ := widened line line

theorem foldl_add_min_le : ∀ (coordinates : List ℤ) (z : ZeroOffset),
    (coordinates.foldl ZeroOffset.add z).min ≤ 0 ↔ z.min ≤ 0 ∨ ∃ c ∈ coordinates, c ≤ 0
  | [], z => by simp
  | c :: cs, z => by
    have hadd : (z.add c).min ≤ 0 ↔ z.min ≤ 0 ∨ c ≤ 0 := by
      simp only [ZeroOffset.add]
      split_ifs <;> omega
    rw [List.foldl_cons, foldl_add_min_le cs, hadd, or_assoc]
    simp

theorem le_foldl_add_max : ∀ (coordinates : List ℤ) (z : ZeroOffset),
    0 ≤ (coordinates.foldl ZeroOffset.add z).max ↔ 0 ≤ z.max ∨ ∃ c ∈ coordinates, 0 ≤ c
  | [], z => by simp
  | c :: cs, z => by
    have hadd : 0 ≤ (z.add c).max ↔ 0 ≤ z.max ∨ 0 ≤ c := by
      simp only [ZeroOffset.add]
      split_ifs <;> omega
    rw [List.foldl_cons, le_foldl_add_max cs, hadd, or_assoc]
    simp

/-- The minimum starts above zero. -/
theorem extent_min_le (coordinates : List ℤ) :
    (extent coordinates).min ≤ 0 ↔ ∃ c ∈ coordinates, c ≤ 0 := by
  rw [extent, foldl_add_min_le, or_iff_right]
  simp

/-- The maximum starts below zero. -/
theorem le_extent_max (coordinates : List ℤ) :
    0 ≤ (extent coordinates).max ↔ ∃ c ∈ coordinates, 0 ≤ c := by
  rw [extent, le_foldl_add_max, or_iff_right]
  simp

/-- The minimum of another line does as well if both say the same of zero. -/
theorem widened_eq_zeroOpening_iff (line other : List ℤ) : widened line other = zeroOpening line ↔
    ((∃ c ∈ line, 0 ≤ c) → ((∃ c ∈ other, c ≤ 0) ↔ ∃ c ∈ line, c ≤ 0)) := by
  simp only [zeroOpening, widened, le_extent_max, extent_min_le, add_right_inj]
  by_cases hline : ∃ c ∈ line, 0 ≤ c
  · by_cases hother : ∃ c ∈ other, c ≤ 0
    · by_cases hown : ∃ c ∈ line, c ≤ 0 <;> simp [hline, hother, hown]
    · by_cases hown : ∃ c ∈ line, c ≤ 0 <;> simp [hline, hother, hown]
  · simp only [hline, false_and, false_implies]

/-! ### One calculation -/

/-- Parameters for which nothing is raised, with the middle positions. -/
structure Measures (p : ScanParams) (horizontalMiddle verticalMiddle : ℚ) : Prop where
  horizontal : middle p.maxHorz p.minHorz p.horzStep = .ok horizontalMiddle
  vertical : middle p.maxVert p.minVert p.vertStep = .ok verticalMiddle
  columns : ∃ part, openPart 0 p.maxHorz p.minHorz p.horzStep = .ok part
  rows : ∃ part, openPart 0 p.maxVert p.minVert p.vertStep = .ok part

theorem Measures.swap {p : ScanParams} {hm vm : ℚ} (h : Measures p hm vm) : Measures p.swap vm hm :=
  ⟨h.vertical, h.horizontal, h.rows, h.columns⟩

/-- Whether a part is computed does not depend on the count. -/
theorem openPart_ok {max min step count : ℤ} {part : ℚ}
    (h : openPart count max min step = .ok part) (count' : ℤ) :
    ∃ part', openPart count' max min step = .ok part' := by
  obtain ⟨steps, hsteps, h⟩ := Py.bind_eq_ok h
  rw [openPart, hsteps, Py.ok_bind]
  dsimp only at h ⊢
  split_ifs at h ⊢
  exact ⟨_, rfl⟩

/-- The results, with the test of the horizontal minimum in the vertical opening. -/
def measured (points : ScanPoints B) (hm vm hpart vpart : ℚ) (metric : MetricData) : MetricData :=
  { metric with
    verticalOpening := widened (column points hm) (row points vm)
    horizontalOpening := zeroOpening (row points vm)
    horizontalPercentage := hpart
    verticalPercentage := vpart }

theorem calculate_of_measures {p : ScanParams} {hm vm : ℚ} (h : Measures p hm vm)
    (points : ScanPoints B) : ∃ hpart vpart,
      openPart (extent (row points vm)).count p.maxHorz p.minHorz p.horzStep = .ok hpart ∧
      openPart (extent (column points hm)).count p.maxVert p.minVert p.vertStep = .ok vpart ∧
      ∀ metric, calculateVerticalHorizontalOpening points p metric =
        (measured points hm vm hpart vpart metric, none) := by
  obtain ⟨_, hcolumns⟩ := h.columns
  obtain ⟨_, hrows⟩ := h.rows
  obtain ⟨hpart, hhorz⟩ := openPart_ok hcolumns (extent (row points vm)).count
  obtain ⟨vpart, hvert⟩ := openPart_ok hrows (extent (column points hm)).count
  refine ⟨hpart, vpart, hhorz, hvert, fun metric => ?_⟩
  have hrow : extent (row points vm) = ((points.values.filter fun point => point.errors = 0).filter
      fun point => (point.y : ℚ) = vm).foldl (fun z point => z.add point.x) {} := by
    rw [extent, row, List.foldl_map]
  have hcolumn : extent (column points hm) =
      ((points.values.filter fun point => point.errors = 0).filter
        fun point => (point.x : ℚ) = hm).foldl (fun z point => z.add point.y) {} := by
    rw [extent, column, List.foldl_map]
  rw [hrow] at hhorz
  rw [hcolumn] at hvert
  simp only [calculateVerticalHorizontalOpening, h.horizontal, h.vertical, hhorz, hvert, measured,
    zeroOpening, widened, hrow, hcolumn]

theorem measures_of_calculate {points : ScanPoints B} {p : ScanParams} {metric after : MetricData}
    (h : calculateVerticalHorizontalOpening points p metric = (after, none)) :
    ∃ hm vm, Measures p hm vm := by
  rw [calculateVerticalHorizontalOpening] at h
  split at h
  · cases h
  · cases h
  · next hm vm hhorz hvert =>
    dsimp only at h
    split at h
    · cases h
    · next hcolumns =>
      split at h
      · cases h
      · next hrows => exact ⟨hm, vm, hhorz, hvert, openPart_ok hcolumns 0, openPart_ok hrows 0⟩

/-! ### Both axes -/

/-- What a calculation stores, on an exchange of the axes too. -/
structure Exchanged (points : ScanPoints B) (p : ScanParams) (hm vm : ℚ) (after after' : MetricData) :
    Prop where
  horizontal_opening : after'.horizontalOpening = after.verticalOpening
  vertical_opening : after'.verticalOpening = after.horizontalOpening
  horizontal_percentage : after'.horizontalPercentage = after.verticalPercentage
  vertical_percentage : after'.verticalPercentage = after.horizontalPercentage
  column_only : after.verticalOpening = zeroOpening (column points hm)
  row_only : after.horizontalOpening = zeroOpening (row points vm)

/-- A calculation that completes also completes with the axes exchanged, and exchanges the results. -/
def AxesAlike (points : ScanPoints B) (p : ScanParams) : Prop :=
  ∀ metric after, calculateVerticalHorizontalOpening points p metric = (after, none) →
    ∃ after' hm vm, Measures p hm vm ∧
      calculateVerticalHorizontalOpening (swapPoints points) p.swap metric = (after', none) ∧
      Exchanged points p hm vm after after'

/-- With an error-free point at zero or above on the middle column or row, one at zero or below is
    on both or on none. -/
def SharesZero (points : ScanPoints B) (p : ScanParams) : Prop :=
  ∀ hm vm, Measures p hm vm → (∃ c ∈ column points hm ++ row points vm, 0 ≤ c) →
    ((∃ c ∈ column points hm, c ≤ 0) ↔ ∃ c ∈ row points vm, c ≤ 0)

theorem AxesAlike.sharesZero {points : ScanPoints B} {p : ScanParams} (h : AxesAlike points p) :
    SharesZero points p := by
  rintro hm vm hmeasures ⟨c, hc, hnonneg⟩
  obtain ⟨hpart, vpart, -, -, hcalc⟩ := calculate_of_measures hmeasures points
  obtain ⟨hpart', vpart', -, -, hcalc'⟩ :=
    calculate_of_measures hmeasures.swap (swapPoints points)
  obtain ⟨after', hm', vm', hmeasures', hswap, hexchanged⟩ := h {} _ (hcalc {})
  obtain ⟨rfl, -⟩ := Prod.mk.inj ((hcalc' {}).symm.trans hswap)
  obtain rfl : hm = hm' := Except.ok.inj (hmeasures.horizontal.symm.trans hmeasures'.horizontal)
  have hvert : widened (column points hm) (row points vm) = zeroOpening (column points hm) :=
    hexchanged.column_only
  have hhorz : widened (row points vm) (column points hm) = zeroOpening (row points vm) := by
    have hopening := hexchanged.vertical_opening
    simpa [measured] using hopening
  rw [widened_eq_zeroOpening_iff] at hvert hhorz
  rcases List.mem_append.mp hc with hc | hc
  · exact (hvert ⟨c, hc, hnonneg⟩).symm
  · exact hhorz ⟨c, hc, hnonneg⟩

/-- The axes are treated alike if and only if they have points at zero or below together. -/
theorem axesAlike_iff (points : ScanPoints B) (p : ScanParams) :
    AxesAlike points p ↔ SharesZero points p := by
  constructor
  · exact AxesAlike.sharesZero
  · intro h metric after hafter
    obtain ⟨hm, vm, hmeasures⟩ := measures_of_calculate hafter
    obtain ⟨hpart, vpart, hhpart, hvpart, hcalc⟩ := calculate_of_measures hmeasures points
    obtain ⟨hpart', vpart', hhpart', hvpart', hcalc'⟩ :=
      calculate_of_measures hmeasures.swap (swapPoints points)
    obtain ⟨rfl, -⟩ := Prod.mk.inj ((hcalc metric).symm.trans hafter)
    rw [row_swapPoints] at hhpart'
    rw [column_swapPoints] at hvpart'
    have hshares := h hm vm hmeasures
    have hvert : widened (column points hm) (row points vm) = zeroOpening (column points hm) := by
      rw [widened_eq_zeroOpening_iff]
      rintro ⟨c, hc, hnonneg⟩
      exact (hshares ⟨c, List.mem_append_left _ hc, hnonneg⟩).symm
    have hhorz : widened (row points vm) (column points hm) = zeroOpening (row points vm) := by
      rw [widened_eq_zeroOpening_iff]
      rintro ⟨c, hc, hnonneg⟩
      exact hshares ⟨c, List.mem_append_right _ hc, hnonneg⟩
    refine ⟨_, hm, vm, hmeasures, hcalc' metric, ?_⟩
    refine ⟨?_, ?_, ?_, ?_, hvert, rfl⟩
    · simp only [measured, row_swapPoints, hvert]
    · simp only [measured, row_swapPoints, column_swapPoints, hhorz]
    · exact Except.ok.inj (hhpart'.symm.trans hvpart)
    · exact Except.ok.inj (hvpart'.symm.trans hhpart)

/-- An eye whose middle column is open above zero only, and whose middle row below. -/
def cornerEye : ScanPoints ℤ :=
  Py.Dict.empty.update [((0, 1), ⟨0, 1, 0, 0, 1⟩), ((0, 2), ⟨0, 2, 0, 0, 1⟩),
    ((-1, 0), ⟨-1, 0, 0, 0, 1⟩)]

theorem measures_two : Measures ⟨2, -2, 1, 2, -2, 1⟩ 0 0 := by
  have hmiddle : middle 2 (-2) 1 = .ok 0 := by simp [middle]
  have hsteps : Py.trueDiv (2 - -2) 1 = .ok ((4 : ℤ) : ℚ) :=
    Py.trueDiv_eq_intCast one_ne_zero (by norm_num) (by norm_num)
  have hnumber : Py.nearestFloat (((4 : ℤ) : ℚ) + 1) = ((5 : ℤ) : ℚ) := by
    rw [← Py.nearestFloat_intCast (n := 5) (by norm_num)]
    norm_num
  have hpart : ∃ part, openPart 0 2 (-2) 1 = .ok part := by
    rw [openPart, hsteps, Py.ok_bind, hnumber]
    exact ⟨_, if_neg (by norm_num)⟩
  exact ⟨hmiddle, hmiddle, hpart, hpart⟩

/-- Its vertical opening is widened over a row that the middle column does not reach. -/
theorem not_axesAlike_cornerEye : ¬ AxesAlike cornerEye ⟨2, -2, 1, 2, -2, 1⟩ := by
  intro h
  have hcolumn : column cornerEye 0 = [1, 2] := by decide
  have hrow : row cornerEye 0 = [-1] := by decide
  have hshares := h.sharesZero 0 0 measures_two
  rw [hcolumn, hrow] at hshares
  revert hshares
  decide

end Chipscopy.Ibert.Scan
