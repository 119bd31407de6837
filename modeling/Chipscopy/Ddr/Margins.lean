import Chipscopy.Lib.FloatValue
import Chipscopy.Lib.IntLiteral

/-! Margins of an eye scan

    A row of scan data is taken at one reference voltage. The margin loop reads the margins of a
    unit from every row, under keys that depend on the generation and the mode, and with two flags
    it looks for the window of margins around the default reference: below the default a sample
    without a margin starts the search again, and above it the first one ends it. -/

namespace Chipscopy.Ddr

open Py (FloatValue)

/-! ### Rows -/

/-- What a row holds under a key: a number after a run, a text after a load. -/
inductive Cell
  | int (n : ℤ)
  | float (x : FloatValue)
  | text (s : String)
  | other
  deriving DecidableEq, Repr

abbrev Row := Py.Dict String Cell

/-- `int(cell)`. -/
def Cell.toInt : Cell → Except Py.Error ℤ
  | .int n => .ok n
  | .float x => x.int
  | .text s => IntLiteral.int 10 s.toList
  | .other => .error (.typeError "int() argument must be a string or a number")

/-- `float(cell)`. -/
def Cell.toFloat : Cell → Except Py.Error FloatValue
  | .int n => FloatValue.ofInt n
  | .float x => .ok x
  | .text s => FloatValue.ofText s.toList
  | .other => .error (.typeError "float() argument must be a string or a number")

/-- `int(round(marg * ps_factor))`. -/
def Cell.scale (psFactor : Cell) (marg : ℤ) : Except Py.Error ℤ :=
  match psFactor with
  | .int n => .ok (marg * n)
  | .float x => do ((← FloatValue.ofInt marg).mul x).round
  | _ => .error (.typeError "type doesn't define __round__ method")

/-- `data[key]`. -/
def Row.cell (data : Row) (key : String) : Except Py.Error Cell :=
  match data.get? key with
  | some cell => .ok cell
  | none => .error (.keyError key)

def Row.int (data : Row) (key : String) : Except Py.Error ℤ := do (← Row.cell data key).toInt

def Row.float (data : Row) (key : String) : Except Py.Error FloatValue := do
  (← Row.cell data key).toFloat

/-! ### Samples -/

/-- What the loop takes from a row. -/
structure Sample where
  curVref : FloatValue
  leftMarg : ℤ
  leftPs : ℤ
  rightMarg : ℤ
  rightPs : ℤ
  deriving DecidableEq, Repr

def Sample.totalMargin (s : Sample) : ℤ := s.leftMarg + s.rightMarg

/-- `cur_vref == def_vrefs[0]`. -/
def Sample.atDefault (defVref : FloatValue) (s : Sample) : Bool := s.curVref.eq defVref

def readSample (baseName : String) (data : Row) : Except Py.Error Sample := do
  let curVref ← Row.float data "config.vrefp"
  let leftMarg ← Row.int data (baseName ++ "_left")
  let leftPs ← Row.int data (baseName ++ "_left" ++ "_ps")
  let rightMarg ← Row.int data (baseName ++ "_right")
  let rightPs ← Row.int data (baseName ++ "_right" ++ "_ps")
  .ok ⟨curVref, leftMarg, leftPs, rightMarg, rightPs⟩

/-- Write margins of the fifth generation come in two parts. -/
def readGen5WriteSample (psFactor : Cell) (baseName unitString : String) (data : Row) :
    Except Py.Error Sample := do
  let curVref ← Row.float data "config.vrefp"
  let tapVal ← Row.int data (baseName ++ "left_lsb_" ++ unitString)
  let msbVal ← Row.int data (baseName ++ "left_msb_" ++ unitString)
  let leftMarg := msbVal * 2 ^ 9 + tapVal
  let leftPs ← psFactor.scale leftMarg
  let tapVal ← Row.int data (baseName ++ "right_lsb_" ++ unitString)
  let msbVal ← Row.int data (baseName ++ "right_msb_" ++ unitString)
  let rightMarg := msbVal * 2 ^ 9 + tapVal
  let rightPs ← psFactor.scale rightMarg
  .ok ⟨curVref, leftMarg, leftPs, rightMarg, rightPs⟩

def readGen5ReadSample (psFactor : Cell) (baseName : String) (data : Row) :
    Except Py.Error Sample := do
  let curVref ← Row.float data "config.vrefp"
  let leftMarg ← Row.int data (baseName ++ "_left")
  let leftPs ← psFactor.scale leftMarg
  let rightMarg ← Row.int data (baseName ++ "_right")
  let rightPs ← psFactor.scale rightMarg
  .ok ⟨curVref, leftMarg, leftPs, rightMarg, rightPs⟩

structure DDR where
  isGen5 : Bool
  /-- The reply of `ddr_node.get_margin_ps_factors()`. -/
  psFactors : List Cell
  eyeScanData : List Row

/-- How the loop reads a row: one of three ways. -/
def DDR.reader (ddr : DDR) (baseName unitString : String) :
    Except Py.Error (Row → Except Py.Error Sample) :=
  if !ddr.isGen5 then .ok (readSample baseName)
  else match ddr.psFactors with
    | [] => .error .indexError
    | psFactor :: _ =>
      if "wrmargin".toList <:+: baseName.toList then
        .ok (readGen5WriteSample psFactor baseName unitString)
      else .ok (readGen5ReadSample psFactor baseName)

/-! ### The margin loop -/

/-- `def_window_found` and `def_margin`. -/
structure DefaultMargin where
  found : Bool := false
  margin : ℤ := 0
  deriving DecidableEq, Repr

def DefaultMargin.add (defVref : FloatValue) (w : DefaultMargin) (s : Sample) : DefaultMargin :=
  if !w.found && s.atDefault defVref then ⟨true, s.totalMargin⟩ else w

/-- `min_found`, `max_found`, `y_min` and `y_max`. -/
structure Height where
  minFound : Bool := false
  maxFound : Bool := false
  yMin : FloatValue := .finite 0
  yMax : FloatValue := .finite 0
  deriving DecidableEq, Repr

namespace Height

/-- Below the default, a sample without a margin starts the search again. -/
def restart (defVref : FloatValue) (h : Height) (s : Sample) : Height :=
  if s.curVref.lt defVref && s.totalMargin = 0 && h.minFound then { h with minFound := false }
  else h

def extend (h : Height) (s : Sample) : Height :=
  if !h.minFound then
    if s.totalMargin > 0 then
      { h with yMin := s.curVref, yMax := s.curVref, minFound := true }
    else h
  else if !h.maxFound then
    if s.totalMargin = 0 then { h with maxFound := true } else { h with yMax := s.curVref }
  else h

def add (defVref : FloatValue) (h : Height) (s : Sample) : Height := (h.restart defVref s).extend s

end Height

/-- Local variables of the loop. -/
structure Margins where
  vrefs : List FloatValue := []
  leftMargs : List ℤ := []
  leftPs : List ℤ := []
  rightMargs : List ℤ := []
  rightPs : List ℤ := []
  totalMargs : List ℤ := []
  window : DefaultMargin := {}
  height : Height := {}
  deriving DecidableEq, Repr

def Margins.add (defVref : FloatValue) (m : Margins) (s : Sample) : Margins where
  vrefs := m.vrefs ++ [s.curVref]
  leftMargs := m.leftMargs ++ [s.leftMarg]
  leftPs := m.leftPs ++ [s.leftPs]
  rightMargs := m.rightMargs ++ [s.rightMarg]
  rightPs := m.rightPs ++ [s.rightPs]
  totalMargs := m.totalMargs ++ [s.totalMargin]
  window := m.window.add defVref s
  height := m.height.add defVref s

def DDR.marginLoop (ddr : DDR) (baseName unitString : String) (defVref : FloatValue)
    (marginData : List Row) : Except Py.Error Margins := do
  let read ← ddr.reader baseName unitString
  marginData.foldlM (fun m data => do .ok (m.add defVref (← read data))) {}

/-- All samples are read, or the first error is raised. -/
theorem foldlM_add (read : Row → Except Py.Error Sample) (defVref : FloatValue) :
    ∀ (rows : List Row) (m : Margins),
      rows.foldlM (fun m data => do .ok (m.add defVref (← read data))) m =
        (Py.mapExcept read rows).map fun samples => samples.foldl (Margins.add defVref) m
  | [], m => rfl
  | row :: rows, m => by
    rcases hrow : read row with e | s
    · simp only [List.foldlM_cons, hrow, Py.error_bind, Py.mapExcept]
      rfl
    · simp only [List.foldlM_cons, hrow, Py.ok_bind, foldlM_add read defVref rows, Py.mapExcept]
      rcases Py.mapExcept read rows with e | samples <;> rfl

theorem foldl_window (defVref : FloatValue) : ∀ (samples : List Sample) (m : Margins),
    (samples.foldl (Margins.add defVref) m).window =
      samples.foldl (DefaultMargin.add defVref) m.window
  | [], _ => rfl
  | s :: samples, m => foldl_window defVref samples (m.add defVref s)

theorem foldl_height (defVref : FloatValue) : ∀ (samples : List Sample) (m : Margins),
    (samples.foldl (Margins.add defVref) m).height = samples.foldl (Height.add defVref) m.height
  | [], _ => rfl
  | s :: samples, m => foldl_height defVref samples (m.add defVref s)

/-! ### The default margin -/

theorem foldl_add_of_found (defVref : FloatValue) : ∀ (samples : List Sample) {w : DefaultMargin},
    w.found = true → samples.foldl (DefaultMargin.add defVref) w = w
  | [], _, _ => rfl
  | s :: samples, w, hw => by
    have hadd : w.add defVref s = w := by simp [DefaultMargin.add, hw]
    rw [List.foldl_cons, hadd, foldl_add_of_found defVref samples hw]

/-- The first sample at the default reference gives the margin. -/
theorem foldl_add_defaultMargin (defVref : FloatValue) : ∀ samples : List Sample,
    samples.foldl (DefaultMargin.add defVref) {} =
      ((samples.find? (Sample.atDefault defVref)).elim {} fun s => ⟨true, s.totalMargin⟩)
  | [] => rfl
  | s :: samples => by
    by_cases hs : s.atDefault defVref
    · have hadd : DefaultMargin.add defVref {} s = ⟨true, s.totalMargin⟩ := by
        simp only [DefaultMargin.add, hs]
        rfl
      rw [List.foldl_cons, hadd, foldl_add_of_found defVref samples rfl, List.find?_cons_of_pos hs]
      rfl
    · have hadd : DefaultMargin.add defVref {} s = {} := by simp [DefaultMargin.add, hs]
      rw [List.foldl_cons, hadd, foldl_add_defaultMargin defVref samples,
        List.find?_cons_of_neg hs]

theorem found_iff (defVref : FloatValue) (samples : List Sample) :
    (samples.foldl (Margins.add defVref) {}).window.found = true ↔
      ∃ s ∈ samples, s.atDefault defVref = true := by
  rw [foldl_window, foldl_add_defaultMargin]
  rcases hfind : samples.find? (Sample.atDefault defVref) with _ | d
  · have hnone := List.find?_eq_none.mp hfind
    refine iff_of_false Bool.false_ne_true ?_
    rintro ⟨s, hs, heq⟩
    exact hnone s hs heq
  · exact iff_of_true rfl ⟨d, List.mem_of_find?_eq_some hfind, List.find?_some hfind⟩

/-! ### The window around the default -/

namespace Height

/-- A search within a run of samples with margins, or before one. -/
structure Spans (h : Height) (run : List Sample) : Prop where
  minFound : h.minFound = !run.isEmpty
  maxFound : h.maxFound = false
  yMin : ∀ s ∈ run.head?, h.yMin = s.curVref
  yMax : ∀ s ∈ run.getLast?, h.yMax = s.curVref

/-- A search that has ended after a run. -/
structure Ended (h : Height) (run : List Sample) : Prop where
  minFound : h.minFound = true
  maxFound : h.maxFound = true
  yMin : ∀ s ∈ run.head?, h.yMin = s.curVref
  yMax : ∀ s ∈ run.getLast?, h.yMax = s.curVref

variable {defVref : FloatValue} {h : Height} {s : Sample} {run : List Sample}

theorem spans_nil : Spans {} [] := ⟨rfl, rfl, by simp, by simp⟩

/-- Only a sample without a margin restarts the search. -/
theorem restart_of_ne (hs : s.totalMargin ≠ 0) : h.restart defVref s = h := by
  simp [restart, hs]

theorem restart_of_not_lt (hs : s.curVref.lt defVref = false) : h.restart defVref s = h := by
  simp [restart, hs]

/-- A sample with a margin extends the run. -/
theorem Spans.add (hspans : Spans h run) (hs : 0 < s.totalMargin) (defVref : FloatValue) :
    Spans (h.add defVref s) (run ++ [s]) := by
  rw [Height.add, restart_of_ne hs.ne']
  rcases hrun : run with _ | ⟨r, rs⟩
  · have hmin : h.minFound = false := by simpa [hrun] using hspans.minFound
    have hextend : h.extend s =
        { h with yMin := s.curVref, yMax := s.curVref, minFound := true } := by
      simp [extend, hmin, hs]
    rw [hextend]
    exact ⟨rfl, hspans.maxFound, by simp, by simp⟩
  · have hmin : h.minFound = true := by simpa [hrun] using hspans.minFound
    have hextend : h.extend s = { h with yMax := s.curVref } := by
      simp [extend, hmin, hspans.maxFound, hs.ne']
    rw [hextend]
    refine ⟨by simp [hmin], hspans.maxFound, ?_, ?_⟩
    · intro s' hs'
      exact hspans.yMin s' (by simpa [hrun] using hs')
    · intro s' hs'
      rw [List.getLast?_concat, Option.mem_some_iff] at hs'
      rw [hs']

/-- Below the default, a sample without a margin forgets the run. -/
theorem Spans.restart (hspans : Spans h run) (hlt : s.curVref.lt defVref = true)
    (hs : s.totalMargin = 0) : Spans (h.add defVref s) [] := by
  have hminFound : (h.restart defVref s).minFound = false := by
    cases hmin : h.minFound <;> simp [Height.restart, hlt, hs, hmin]
  have hmaxFound : (h.restart defVref s).maxFound = false := by
    rw [Height.restart]
    split
    · exact hspans.maxFound
    · exact hspans.maxFound
  have hadd : h.add defVref s = h.restart defVref s := by
    simp [Height.add, extend, hminFound, hs]
  rw [hadd]
  exact ⟨hminFound, hmaxFound, by simp, by simp⟩

/-- Above the default, a sample without a margin ends the search. -/
theorem Spans.ended (hspans : Spans h run) (hrun : run ≠ []) (hlt : s.curVref.lt defVref = false)
    (hs : s.totalMargin = 0) : Ended (h.add defVref s) run := by
  have hmin : h.minFound = true := by
    rw [hspans.minFound, List.isEmpty_eq_false_iff.mpr hrun, Bool.not_false]
  have hadd : h.add defVref s = { h with maxFound := true } := by
    rw [Height.add, restart_of_not_lt hlt]
    simp [extend, hmin, hspans.maxFound, hs]
  rw [hadd]
  exact ⟨hmin, rfl, hspans.yMin, hspans.yMax⟩

theorem Ended.add (hended : Ended h run) (hlt : s.curVref.lt defVref = false) :
    h.add defVref s = h := by
  rw [Height.add, restart_of_not_lt hlt]
  simp [extend, hended.minFound, hended.maxFound]

/-- Below the default, the run is the last one. -/
theorem spans_below {samples : List Sample} (hlt : ∀ s ∈ samples, s.curVref.lt defVref = true)
    (hnonneg : ∀ s ∈ samples, 0 ≤ s.totalMargin) :
    Spans (samples.foldl (Height.add defVref) {})
      (samples.rtakeWhile fun s => s.totalMargin ≠ 0) := by
  induction samples using List.reverseRecOn with
  | nil => exact spans_nil
  | append_singleton samples s ih =>
    obtain ⟨hlts, hlt⟩ : (∀ s ∈ samples, s.curVref.lt defVref = true) ∧
        s.curVref.lt defVref = true := by simpa [or_imp, forall_and] using hlt
    obtain ⟨hnonnegs, hnonneg⟩ : (∀ s ∈ samples, 0 ≤ s.totalMargin) ∧ 0 ≤ s.totalMargin := by
      simpa [or_imp, forall_and] using hnonneg
    have hspans := ih hlts hnonnegs
    rw [List.foldl_concat]
    by_cases hs : s.totalMargin = 0
    · rw [List.rtakeWhile_concat_neg _ _ _ (by simp [hs])]
      exact hspans.restart hlt hs
    · rw [List.rtakeWhile_concat_pos _ _ _ (by simp [hs])]
      exact hspans.add (by omega) defVref

theorem foldl_add_of_ended : ∀ {samples : List Sample} {h : Height}, Ended h run →
    (∀ s ∈ samples, s.curVref.lt defVref = false) → samples.foldl (Height.add defVref) h = h
  | [], _, _, _ => rfl
  | s :: samples, h, hended, hlt => by
    obtain ⟨hs, hsamples⟩ := List.forall_mem_cons.mp hlt
    rw [List.foldl_cons, hended.add hs, foldl_add_of_ended hended hsamples]

/-- From the default on, the run goes to the first sample without a margin. -/
theorem foldl_above : ∀ {samples run : List Sample} {h : Height}, Spans h run → run ≠ [] →
    (∀ s ∈ samples, s.curVref.lt defVref = false) → (∀ s ∈ samples, 0 ≤ s.totalMargin) →
    (∀ s ∈ (run ++ samples.takeWhile fun s => s.totalMargin ≠ 0).head?,
      (samples.foldl (Height.add defVref) h).yMin = s.curVref) ∧
    ∀ s ∈ (run ++ samples.takeWhile fun s => s.totalMargin ≠ 0).getLast?,
      (samples.foldl (Height.add defVref) h).yMax = s.curVref
  | [], run, h, hspans, _, _, _ => by
    rw [List.takeWhile_nil, List.append_nil]
    exact ⟨hspans.yMin, hspans.yMax⟩
  | s :: samples, run, h, hspans, hrun, hlt, hnonneg => by
    obtain ⟨hlt, hlts⟩ := List.forall_mem_cons.mp hlt
    obtain ⟨hnonneg, hnonnegs⟩ := List.forall_mem_cons.mp hnonneg
    rw [List.foldl_cons]
    by_cases hs : s.totalMargin = 0
    · have hended := hspans.ended hrun hlt hs
      rw [foldl_add_of_ended hended hlts, List.takeWhile_cons_of_neg (by simp [hs]),
        List.append_nil]
      exact ⟨hended.yMin, hended.yMax⟩
    · have habove := foldl_above (hspans.add (by omega : 0 < s.totalMargin) defVref)
        (by simp) hlts hnonnegs
      rw [List.takeWhile_cons_of_pos (by simp [hs])]
      simpa only [List.append_assoc, List.singleton_append] using habove

end Height

/-- The maximal run of consecutive samples with a margin around the first one at the default. -/
structure DefaultRun (defVref : FloatValue) (samples run : List Sample) (d : Sample) : Prop where
  split : ∃ before after, samples = before ++ run ++ after ∧
    (∀ s ∈ before.getLast?, s.totalMargin = 0) ∧ (∀ s ∈ after.head?, s.totalMargin = 0) ∧
    ∀ s ∈ before, s.atDefault defVref = false
  margin : ∀ s ∈ run, s.totalMargin ≠ 0
  default : run.find? (Sample.atDefault defVref) = some d

/-- Ascending references are below the default before its first sample and not below it after. -/
theorem sides_of_ascending {defVref : FloatValue} {before after : List Sample} {d : Sample}
    (hasc : (before ++ d :: after).Pairwise fun s t => s.curVref.le t.curVref)
    (hd : d.atDefault defVref = true) (hbefore : ∀ s ∈ before, s.atDefault defVref = false) :
    (∀ s ∈ before, s.curVref.lt defVref = true) ∧
      ∀ s ∈ d :: after, s.curVref.lt defVref = false := by
  obtain ⟨rfl, -⟩ : d.curVref = defVref ∧ d.curVref ≠ .nan := FloatValue.eq_iff.mp hd
  obtain ⟨-, hafter, hacross⟩ := List.pairwise_append.mp hasc
  refine ⟨fun s hs => ?_, fun s hs => ?_⟩
  · exact FloatValue.lt_of_le_of_ne (hacross s hs d List.mem_cons_self) (hbefore s hs)
  · rcases List.mem_cons.mp hs with rfl | hs
    · exact FloatValue.lt_irrefl _
    · exact FloatValue.not_lt_of_le ((List.pairwise_cons.mp hafter).1 s hs)

theorem getLast?_rdropWhile {α : Type} {p : α → Bool} {l : List α} {a : α}
    (h : a ∈ (l.rdropWhile p).getLast?) : ¬p a := by
  have hne : l.rdropWhile p ≠ [] := by
    intro hnil
    simp [hnil] at h
  rw [List.getLast?_eq_some_getLast hne, Option.mem_some_iff] at h
  exact h ▸ List.rdropWhile_last_not p l hne

/-- The window that the two flags find. -/
theorem exists_defaultRun {defVref : FloatValue} {samples : List Sample} {d : Sample}
    (hnonneg : ∀ s ∈ samples, 0 ≤ s.totalMargin)
    (hasc : samples.Pairwise fun s t => s.curVref.le t.curVref)
    (hd : samples.find? (Sample.atDefault defVref) = some d) (hmargin : d.totalMargin ≠ 0) :
    ∃ run, DefaultRun defVref samples run d ∧
      (∀ s ∈ run.head?, (samples.foldl (Height.add defVref) {}).yMin = s.curVref) ∧
      ∀ s ∈ run.getLast?, (samples.foldl (Height.add defVref) {}).yMax = s.curVref := by
  obtain ⟨hdefault, before, after, rfl, hnot⟩ := List.find?_eq_some_iff_append.mp hd
  have hbefore : ∀ s ∈ before, s.atDefault defVref = false := by simpa using hnot
  obtain ⟨hbelow, habove⟩ := sides_of_ascending hasc hdefault hbefore
  have hspans := Height.spans_below hbelow
    fun s hs => hnonneg s (List.mem_append_left _ hs)
  -- the default sample has a margin, so it belongs to the run that reaches it
  have hpos : 0 < d.totalMargin := by
    have := hnonneg d (by simp)
    omega
  have hfound := Height.foldl_above (hspans.add hpos defVref) (by simp)
    (fun s hs => habove s (List.mem_cons_of_mem _ hs))
    fun s hs => hnonneg s (by simp [hs])
  rw [← List.foldl_cons, ← List.foldl_append] at hfound
  refine ⟨_, ⟨⟨before.rdropWhile fun s => s.totalMargin ≠ 0,
    after.dropWhile fun s => s.totalMargin ≠ 0, ?_, ?_, ?_, ?_⟩, ?_, ?_⟩, hfound⟩
  · conv_lhs => rw [← List.rdropWhile_append_rtakeWhile (p := fun s : Sample => s.totalMargin ≠ 0)
      (l := before), ← List.takeWhile_append_dropWhile (p := fun s : Sample => s.totalMargin ≠ 0)
      (l := after)]
    simp only [List.append_assoc, List.nil_append, List.cons_append]
  · intro s hs
    have hlast := getLast?_rdropWhile hs
    simpa using hlast
  · intro s hs
    have hhead := List.head?_dropWhile_not (fun s : Sample => decide (s.totalMargin ≠ 0)) after
    rw [Option.mem_def.mp hs] at hhead
    simpa using hhead
  · exact fun s hs => hbefore s ((List.rdropWhile_prefix _ _).mem hs)
  · intro s hs
    rcases List.mem_append.mp hs with hs | hs
    · rcases List.mem_append.mp hs with hs | hs
      · simpa using List.mem_rtakeWhile_imp hs
      · rw [List.mem_singleton.mp hs]
        exact hmargin
    · simpa using List.mem_takeWhile_imp hs
  · refine List.find?_eq_some_iff_append.mpr ⟨hdefault, _, _, List.append_assoc _ _ _, ?_⟩
    intro s hs
    simp [hbefore s ((List.rtakeWhile_suffix _ _).mem hs)]

/-- The height is the run of margins around the default reference. -/
theorem DDR.marginLoop_window (ddr : DDR) {baseName unitString : String} {defVref : FloatValue}
    {read : Row → Except Py.Error Sample} (hread : ddr.reader baseName unitString = .ok read)
    {marginData : List Row} {samples : List Sample}
    (hsamples : Py.mapExcept read marginData = .ok samples)
    (hnonneg : ∀ s ∈ samples, 0 ≤ s.leftMarg ∧ 0 ≤ s.rightMarg)
    (hasc : samples.Pairwise fun s t => s.curVref.le t.curVref) {d : Sample}
    (hd : samples.find? (Sample.atDefault defVref) = some d) (hmargin : d.totalMargin ≠ 0) :
    ∃ m run, ddr.marginLoop baseName unitString defVref marginData = .ok m ∧
      DefaultRun defVref samples run d ∧ run.head?.map (·.curVref) = some m.height.yMin ∧
      run.getLast?.map (·.curVref) = some m.height.yMax ∧
      m.window.margin = d.totalMargin := by
  have htotal : ∀ s ∈ samples, 0 ≤ s.totalMargin := fun s hs =>
    add_nonneg (hnonneg s hs).1 (hnonneg s hs).2
  obtain ⟨run, hrun, hmin, hmax⟩ := exists_defaultRun htotal hasc hd hmargin
  have hne : run ≠ [] := by
    rintro rfl
    simpa using hrun.default
  refine ⟨samples.foldl (Margins.add defVref) {}, run, ?_, hrun, ?_, ?_, ?_⟩
  · rw [marginLoop, hread, Py.ok_bind, foldlM_add, hsamples]
    rfl
  · rw [foldl_height, List.head?_eq_some_head hne, Option.map_some,
      hmin _ (List.head?_eq_some_head hne)]
  · rw [foldl_height, List.getLast?_eq_some_getLast hne, Option.map_some,
      hmax _ (List.getLast?_eq_some_getLast hne)]
  · rw [foldl_window, foldl_add_defaultMargin, hd]
    rfl

/-- A row of a read scan of nibble 0, whose margins are scaled when it is read. -/
def nibbleRow (curVref : FloatValue) (marg : ℤ) : Row where
  entries := [("config.vrefp", .float curVref), ("read_rise_00_left", .int marg),
    ("read_rise_00_right", .int marg)]
  nodup := (by decide : ["config.vrefp", "read_rise_00_left", "read_rise_00_right"].Nodup)

def nibbleSample (curVref : FloatValue) (marg : ℤ) : Sample :=
  ⟨curVref, marg, marg * 2, marg, marg * 2⟩

/-- Margins around the reference 3, and an island on each side. -/
def islands : List (FloatValue × ℤ) :=
  [(.finite 0, 5), (.finite 1, 0), (.finite 2, 3), (.finite 3, 4), (.finite 4, 2), (.finite 5, 0),
    (.finite 6, 7)]

theorem mapExcept_islands : Py.mapExcept (readGen5ReadSample (.int 2) "read_rise_00")
      (islands.map fun e => nibbleRow e.1 e.2) =
    .ok (islands.map fun e => nibbleSample e.1 e.2) := by
  have hread : ∀ curVref marg, readGen5ReadSample (.int 2) "read_rise_00"
      (nibbleRow curVref marg) = .ok (nibbleSample curVref marg) := fun _ _ => rfl
  simp only [islands, List.map_cons, List.map_nil, Py.mapExcept, hread]

theorem DDR.marginLoop_window_islands : ∃ m run,
    DDR.marginLoop ⟨true, [.int 2], []⟩ "read_rise_00" "" (.finite 3)
      (islands.map fun e => nibbleRow e.1 e.2) = .ok m ∧
    DefaultRun (.finite 3) (islands.map fun e => nibbleSample e.1 e.2) run
      (nibbleSample (.finite 3) 4) ∧
    run.head?.map (·.curVref) = some (.finite 2) ∧ m.height.yMin = .finite 2 ∧
    run.getLast?.map (·.curVref) = some (.finite 4) ∧ m.height.yMax = .finite 4 ∧
    m.window.margin = 8 := by
  have hreader : DDR.reader ⟨true, [.int 2], []⟩ "read_rise_00" "" =
      .ok (readGen5ReadSample (.int 2) "read_rise_00") := by
    rw [DDR.reader]
    exact if_neg (by decide)
  have hdefault : (islands.map fun e => nibbleSample e.1 e.2).find? (Sample.atDefault (.finite 3)) =
      some (nibbleSample (.finite 3) 4) := by
    simp [islands, nibbleSample, Sample.atDefault]
  obtain ⟨m, run, hm, hrun, hmin, hmax, hmargin⟩ :=
    DDR.marginLoop_window ⟨true, [.int 2], []⟩ hreader mapExcept_islands
      (by simp [islands, nibbleSample])
      (by simp [islands, nibbleSample, FloatValue.le, FloatValue.lt]; norm_num) hdefault (by decide)
  have hheight : m.height = ⟨true, true, .finite 2, .finite 4⟩ := by
    rw [DDR.marginLoop, hreader, Py.ok_bind, foldlM_add, mapExcept_islands] at hm
    rw [← Except.ok.inj hm]
    decide
  rw [hheight] at hmin hmax
  exact ⟨m, run, hm, hrun, hmin, by rw [hheight], hmax, by rw [hheight], hmargin⟩

end Chipscopy.Ddr
