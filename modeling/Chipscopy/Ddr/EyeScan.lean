import Chipscopy.Ddr.Margins
import Chipscopy.Lib.Fuel

/-! Drawing of an eye scan

    The graph is drawn of all rows but the first, which is the row of the default reference. When
    none of the drawn rows is at the default reference, the function calls itself on the first row
    to find the default margin. If that row is not at the default reference either, it calls itself
    on the same row again. -/

namespace Chipscopy.Ddr

open Py (FloatValue)

/-- `max(l)`. -/
def maximum : List ℤ → Except Py.Error ℤ
  | [] => .error (.valueError "max() arg is an empty sequence")
  | n :: ns => .ok (ns.foldl max n)

/-- What is appended to `cur_max`. -/
structure MarginWindow where
  maxMarg : ℤ
  maxMargVref : FloatValue
  defMargin : ℤ
  defVref : FloatValue
  vrefSwing : FloatValue
  yMin : FloatValue
  yMax : FloatValue
  deriving DecidableEq, Repr

namespace Margins

/-- `max_marg` and `max_marg_vref`, after `x_min` and `x_max`. -/
def widest (m : Margins) : Except Py.Error (ℤ × FloatValue) := do
  let _xMin ← maximum m.leftPs
  let _xMax ← maximum m.rightPs
  let maxMarg ← maximum m.totalMargs
  match m.vrefs[m.totalMargs.idxOf maxMarg]? with
  | some maxMargVref => .ok (maxMarg, maxMargVref)
  | none => .error .indexError

def marginWindow (m : Margins) (widest : ℤ × FloatValue) (defVref : FloatValue) (defMargin : ℤ) :
    MarginWindow where
  maxMarg := widest.1
  maxMargVref := widest.2
  defMargin := defMargin
  defVref := defVref
  vrefSwing := (m.height.yMax.sub m.height.yMin).roundTo 3
  yMin := m.height.yMin
  yMax := m.height.yMax

end Margins

namespace DDR

/-- The window of a graph; without an answer when the nested calls are out of fuel. -/
def drawEyeScanGraph (ddr : DDR) (baseName unitString : String) (defVref : FloatValue) :
    ℕ → List Row → Option (Except Py.Error MarginWindow)
  | 0, _ => none
  | fuel + 1, marginData =>
    match ddr.marginLoop baseName unitString defVref marginData with
    | .error e => some (.error e)
    | .ok m =>
      match m.widest with
      | .error e => some (.error e)
      | .ok widest =>
        if m.window.found then some (.ok (m.marginWindow widest defVref m.window.margin))
        else match ddr.eyeScanData with
          | [] => some (.error .indexError)
          | first :: _ =>
            (ddr.drawEyeScanGraph baseName unitString defVref fuel [first]).map
              (Except.map fun defWindow => m.marginWindow widest defVref defWindow.maxMarg)

/-- A call that `display_eye_scan` makes; without scan data it makes none. -/
def displayEyeScan (ddr : DDR) (baseName unitString : String) (fuel : ℕ) :
    Option (Except Py.Error (Option MarginWindow)) :=
  match ddr.eyeScanData with
  | [] => some (.ok none)
  | first :: dataList =>
    match Row.float first "config.df_vrefp" with
    | .error e => some (.error e)
    | .ok dfVref =>
      (ddr.drawEyeScanGraph baseName unitString dfVref fuel dataList).map (Except.map some)

/-- The samples of some rows. -/
def readSamples (ddr : DDR) (baseName unitString : String) (rows : List Row) :
    Except Py.Error (List Sample) := do
  Py.mapExcept (← ddr.reader baseName unitString) rows

/-- Rows that can be drawn, but none of them at the default reference. -/
def MissesDefault (ddr : DDR) (baseName unitString : String) (defVref : FloatValue)
    (rows : List Row) : Prop :=
  ∃ samples, ddr.readSamples baseName unitString rows = .ok samples ∧ samples ≠ [] ∧
    ∀ s ∈ samples, s.atDefault defVref = false

/-- Neither the drawn rows nor the first row are at the default reference of the first row. -/
def Stuck (ddr : DDR) (baseName unitString : String) : Prop :=
  ∃ first dataList dfVref, ddr.eyeScanData = first :: dataList ∧
    Row.float first "config.df_vrefp" = .ok dfVref ∧
    ddr.MissesDefault baseName unitString dfVref dataList ∧
    ddr.MissesDefault baseName unitString dfVref [first]

/-! ### One call -/

theorem marginLoop_eq (ddr : DDR) (baseName unitString : String) (defVref : FloatValue)
    (rows : List Row) : ddr.marginLoop baseName unitString defVref rows =
      (ddr.readSamples baseName unitString rows).map
        fun samples => samples.foldl (Margins.add defVref) {} := by
  rw [marginLoop, readSamples]
  rcases ddr.reader baseName unitString with e | read
  · rfl
  · rw [Py.ok_bind, Py.ok_bind, foldlM_add]

/-- The lists of the loop. -/
theorem foldl_lists (defVref : FloatValue) : ∀ (samples : List Sample) (m : Margins),
    let m' := samples.foldl (Margins.add defVref) m
    m'.leftPs = m.leftPs ++ samples.map (·.leftPs) ∧
      m'.rightPs = m.rightPs ++ samples.map (·.rightPs) ∧
      m'.totalMargs = m.totalMargs ++ samples.map (·.totalMargin) ∧
      m'.vrefs = m.vrefs ++ samples.map (·.curVref)
  | [], m => by simp
  | s :: samples, m => by
    obtain ⟨hleft, hright, htotal, hvrefs⟩ := foldl_lists defVref samples (m.add defVref s)
    refine ⟨hleft.trans ?_, hright.trans ?_, htotal.trans ?_, hvrefs.trans ?_⟩ <;>
      simp [Margins.add]

theorem foldl_max_mem : ∀ (ns : List ℤ) (n : ℤ), ns.foldl max n ∈ n :: ns
  | [], n => by simp
  | n' :: ns, n => by
    have hmem := foldl_max_mem ns (max n n')
    rcases max_choice n n' with h | h
    · rw [List.foldl_cons, h]
      rw [h] at hmem
      rcases List.mem_cons.mp hmem with hn | hns
      · exact List.mem_cons.mpr (.inl hn)
      · exact List.mem_cons_of_mem _ (List.mem_cons_of_mem _ hns)
    · rw [List.foldl_cons, h]
      rw [h] at hmem
      exact List.mem_cons_of_mem _ hmem

theorem exists_maximum {l : List ℤ} (h : l ≠ []) : ∃ n ∈ l, maximum l = .ok n := by
  rcases l with _ | ⟨n, ns⟩
  · exact absurd rfl h
  · exact ⟨_, foldl_max_mem ns n, rfl⟩

/-- A loop over some samples finds the widest margin. -/
theorem exists_widest (defVref : FloatValue) {samples : List Sample} (h : samples ≠ []) :
    ∃ widest, (samples.foldl (Margins.add defVref) {}).widest = .ok widest := by
  obtain ⟨hleft, hright, htotal, hvrefs⟩ := foldl_lists defVref samples {}
  simp only [List.nil_append] at hleft hright htotal hvrefs
  obtain ⟨xMin, -, hxMin⟩ := exists_maximum (l := samples.map (·.leftPs)) (by simpa using h)
  obtain ⟨xMax, -, hxMax⟩ := exists_maximum (l := samples.map (·.rightPs)) (by simpa using h)
  obtain ⟨maxMarg, hmem, hmax⟩ :=
    exists_maximum (l := samples.map (·.totalMargin)) (by simpa using h)
  have hidx : (samples.map (·.totalMargin)).idxOf maxMarg < (samples.map (·.curVref)).length := by
    simpa using List.idxOf_lt_length_of_mem hmem
  refine ⟨(maxMarg, (samples.map (·.curVref))[(samples.map (·.totalMargin)).idxOf maxMarg]), ?_⟩
  rw [Margins.widest, hleft, hright, htotal, hvrefs, hxMin, hxMax, hmax, Py.ok_bind, Py.ok_bind,
    Py.ok_bind, List.getElem?_eq_getElem hidx]

theorem widest_nil : ({} : Margins).widest =
    .error (.valueError "max() arg is an empty sequence") := rfl

variable (ddr : DDR) {baseName unitString : String} {defVref : FloatValue}

/-- A call on rows that miss the default reference is as good as the nested call. -/
theorem drawEyeScanGraph_of_misses {rows : List Row}
    (h : ddr.MissesDefault baseName unitString defVref rows) {first : Row} {rest : List Row}
    (hdata : ddr.eyeScanData = first :: rest) (fuel : ℕ) :
    ddr.drawEyeScanGraph baseName unitString defVref (fuel + 1) rows = none ↔
      ddr.drawEyeScanGraph baseName unitString defVref fuel [first] = none := by
  obtain ⟨samples, hread, hne, hmiss⟩ := h
  obtain ⟨widest, hwidest⟩ := exists_widest defVref hne
  have hfound : (samples.foldl (Margins.add defVref) {}).window.found = false := by
    rw [← Bool.not_eq_true, found_iff]
    rintro ⟨s, hs, hat⟩
    exact Bool.false_ne_true ((hmiss s hs).symm.trans hat)
  rw [drawEyeScanGraph, marginLoop_eq, hread]
  simp only [Except.map, hwidest, hfound, hdata]
  simp

/-- Any other call answers by itself. -/
theorem drawEyeScanGraph_of_not_misses {rows : List Row}
    (h : ¬ ddr.MissesDefault baseName unitString defVref rows) (fuel : ℕ) :
    ddr.drawEyeScanGraph baseName unitString defVref (fuel + 1) rows ≠ none := by
  rw [drawEyeScanGraph, marginLoop_eq]
  rcases hread : ddr.readSamples baseName unitString rows with e | samples
  · simp [Except.map]
  · by_cases hne : samples = []
    · subst hne
      simp [Except.map, widest_nil]
    · obtain ⟨widest, hwidest⟩ := exists_widest defVref hne
      have hfound : (samples.foldl (Margins.add defVref) {}).window.found = true := by
        rw [found_iff]
        by_contra hnone
        refine h ⟨samples, hread, hne, fun s hs => ?_⟩
        rw [← Bool.not_eq_true]
        exact fun hat => hnone ⟨s, hs, hat⟩
      simp [Except.map, hwidest, hfound]

/-! ### All nested calls -/

/-- Every nested call on the first row makes the next one. -/
theorem drawEyeScanGraph_first_eq_none {first : Row} {rest : List Row}
    (hdata : ddr.eyeScanData = first :: rest)
    (h : ddr.MissesDefault baseName unitString defVref [first]) : ∀ fuel,
    ddr.drawEyeScanGraph baseName unitString defVref fuel [first] = none
  | 0 => rfl
  | fuel + 1 => (ddr.drawEyeScanGraph_of_misses h hdata fuel).mpr
      (drawEyeScanGraph_first_eq_none hdata h fuel)

theorem displayEyeScan_eq_none (h : ddr.Stuck baseName unitString) (fuel : ℕ) :
    ddr.displayEyeScan baseName unitString fuel = none := by
  obtain ⟨first, dataList, dfVref, hdata, hdf, hrows, hfirst⟩ := h
  have hdraw : ddr.drawEyeScanGraph baseName unitString dfVref fuel dataList = none := by
    rcases fuel with _ | fuel
    · rfl
    · exact (ddr.drawEyeScanGraph_of_misses hrows hdata fuel).mpr
        (ddr.drawEyeScanGraph_first_eq_none hdata hfirst fuel)
  simp only [displayEyeScan, hdata, hdf, hdraw, Option.map_none]

/-- Two calls are enough if the graph or the first row is at the default reference. -/
theorem displayEyeScan_two (h : ¬ ddr.Stuck baseName unitString) :
    ddr.displayEyeScan baseName unitString 2 ≠ none := by
  rcases hdata : ddr.eyeScanData with _ | ⟨first, dataList⟩
  · simp [displayEyeScan, hdata]
  · rcases hdf : Row.float first "config.df_vrefp" with e | dfVref
    · simp [displayEyeScan, hdata, hdf]
    · simp only [displayEyeScan, hdata, hdf, ne_eq, Option.map_eq_none_iff]
      by_cases hrows : ddr.MissesDefault baseName unitString dfVref dataList
      · rw [ddr.drawEyeScanGraph_of_misses hrows hdata]
        refine ddr.drawEyeScanGraph_of_not_misses (fun hfirst => h ?_) 0
        exact ⟨first, dataList, dfVref, hdata, hdf, hrows, hfirst⟩
      · exact ddr.drawEyeScanGraph_of_not_misses hrows 1

/-- The drawing ends unless the first row, like the drawn ones, is off the default reference. -/
theorem displayEyeScan_ends_iff (baseName unitString : String) :
    (∃ fuel, ddr.displayEyeScan baseName unitString fuel ≠ none) ↔
      ¬ ddr.Stuck baseName unitString :=
  ⟨fun ⟨fuel, hends⟩ hstuck => hends (ddr.displayEyeScan_eq_none hstuck fuel),
    fun h => ⟨2, ddr.displayEyeScan_two h⟩⟩

/-- A loaded row of a read scan, without a margin. -/
def loadedRow (curVref dfVref : String) : Row where
  entries := [("config.df_vrefp", .text dfVref), ("config.vrefp", .text curVref),
    ("read_rise_00_left", .text "0"), ("read_rise_00_left_ps", .text "0"),
    ("read_rise_00_right", .text "0"), ("read_rise_00_right_ps", .text "0")]
  nodup := (by decide : ["config.df_vrefp", "config.vrefp", "read_rise_00_left",
    "read_rise_00_left_ps", "read_rise_00_right", "read_rise_00_right_ps"].Nodup)

theorem float_loadedRow : Row.float (loadedRow "1" "0") "config.vrefp" = .ok (.finite 1) ∧
    Row.float (loadedRow "1" "0") "config.df_vrefp" = .ok (.finite 0) := by
  constructor
  · exact (FloatValue.ofText_digitChar (by decide : 1 < 10)).trans (by norm_num)
  · exact (FloatValue.ofText_digitChar (by decide : 0 < 10)).trans (by norm_num)

theorem readSample_loadedRow : readSample "read_rise_00" (loadedRow "1" "0") =
    .ok ⟨.finite 1, 0, 0, 0, 0⟩ := by
  have hint : ∀ key ∈ ["read_rise_00" ++ "_left", "read_rise_00" ++ "_left" ++ "_ps",
      "read_rise_00" ++ "_right", "read_rise_00" ++ "_right" ++ "_ps"],
      Row.int (loadedRow "1" "0") key = .ok 0 := by decide
  simp only [List.mem_cons, forall_eq_or_imp] at hint
  obtain ⟨hleft, hleftPs, hright, hrightPs, -⟩ := hint
  rw [readSample, float_loadedRow.1, hleft, hleftPs, hright, hrightPs]
  rfl

/-- No row is at the default reference, not even the first one. -/
theorem not_displayEyeScan_ends : ¬ ∀ (ddr : DDR) (baseName unitString : String),
    ddr.eyeScanData ≠ [] → ∃ fuel, ddr.displayEyeScan baseName unitString fuel ≠ none := by
  intro h
  let row := loadedRow "1" "0"
  have hmiss : DDR.MissesDefault ⟨false, [], [row, row]⟩ "read_rise_00" "" (.finite 0) [row] := by
    refine ⟨[⟨.finite 1, 0, 0, 0, 0⟩], ?_, List.cons_ne_nil _ _,
      by simp [Sample.atDefault, FloatValue.eq]⟩
    have hread : readSample "read_rise_00" row = .ok ⟨.finite 1, 0, 0, 0, 0⟩ := readSample_loadedRow
    simp only [readSamples, reader, Bool.not_false, if_true, Py.ok_bind, Py.mapExcept, hread]
  obtain ⟨fuel, hends⟩ := h ⟨false, [], [row, row]⟩ "read_rise_00" "" (List.cons_ne_nil _ _)
  exact hends (displayEyeScan_eq_none _
    ⟨row, [row], .finite 0, rfl, float_loadedRow.2, hmiss, hmiss⟩ fuel)

end DDR

end Chipscopy.Ddr
