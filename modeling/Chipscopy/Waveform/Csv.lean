import Chipscopy.Lib.Decimal
import Chipscopy.Lib.Hex
import Chipscopy.Lib.Method
import Chipscopy.Waveform.GetData

/-! Export of samples as comma separated values

    A header row names the columns and a second row their radix. Then comes a row for each sample,
    with the values of the probes as hexadecimal numbers. A column that tells the gaps is there on
    request; the radix row does not know of it. -/

namespace Chipscopy.Waveform

open ILAWaveform

/-! ### Hexadecimal texts -/

/-- `__bin_reversed_to_hex__`. -/
def binReversedToHexTable : List (String × Char) := [
  ("0", '0'), ("1", '1'),
  ("00", '0'), ("10", '1'), ("01", '2'), ("11", '3'),
  ("000", '0'), ("100", '1'), ("010", '2'), ("110", '3'),
  ("001", '4'), ("101", '5'), ("011", '6'), ("111", '7'),
  ("0000", '0'), ("1000", '1'), ("0100", '2'), ("1100", '3'),
  ("0010", '4'), ("1010", '5'), ("0110", '6'), ("1110", '7'),
  ("0001", '8'), ("1001", '9'), ("0101", 'A'), ("1101", 'B'),
  ("0011", 'C'), ("1011", 'D'), ("0111", 'E'), ("1111", 'F')]

/-- `__bin_reversed_to_hex__[key]`. -/
def binReversedToHexChar (key : List Char) : Except Py.Error Char :=
  match Py.lookup (String.ofList key) binReversedToHexTable with
  | some c => .ok c
  | none => .error (.keyError (String.ofList key))

def binReversedToHex (binValue : List Char) : Except Py.Error (List Char) :=
  Py.mapExcept (fun k => binReversedToHexChar (Py.segment binValue (4 * k) (4 * k + 4)))
    (List.range ((binValue.length + 3) / 4)).reverse

def binReversedToHexValues (binValues : List (List Char)) : Except Py.Error (List (List Char)) :=
  Py.mapExcept binReversedToHex binValues

/-- A key of at most four bits. -/
theorem binReversedToHexChar_bits (a b c d : Bool) :
    binReversedToHexChar [Bits.bitChar a] = .ok (Bits.hexChar (Bits.ofBits [a])) ∧
      binReversedToHexChar [Bits.bitChar a, Bits.bitChar b] =
        .ok (Bits.hexChar (Bits.ofBits [a, b])) ∧
      binReversedToHexChar [Bits.bitChar a, Bits.bitChar b, Bits.bitChar c] =
        .ok (Bits.hexChar (Bits.ofBits [a, b, c])) ∧
      binReversedToHexChar [Bits.bitChar a, Bits.bitChar b, Bits.bitChar c, Bits.bitChar d] =
        .ok (Bits.hexChar (Bits.ofBits [a, b, c, d])) := by
  cases a <;> cases b <;> cases c <;> cases d <;> exact ⟨rfl, rfl, rfl, rfl⟩

theorem segment_add {α : Type} (l : List α) (k : ℕ) : Py.segment l (4 * (k + 1)) (4 * (k + 1) + 4) =
    Py.segment (l.drop 4) (4 * k) (4 * k + 4) := by
  have hshift : 4 * (k + 1) = 4 + 4 * k := by omega
  rw [Py.segment, Py.segment, List.drop_take, List.drop_take, List.drop_drop, hshift,
    Nat.add_sub_cancel_left, Nat.add_sub_cancel_left]

/-- Each slice of four bits is a digit. -/
theorem binReversedToHexChar_segment : ∀ (bs : List Bool) (k : ℕ), k < (Bits.nibbles bs).length →
    binReversedToHexChar (Py.segment (bs.map Bits.bitChar) (4 * k) (4 * k + 4)) =
      .ok (Bits.hexChar ((Bits.nibbles bs).getD k 0))
  | [], k, hk => by simp [Bits.nibbles] at hk
  | [a], 0, _ => (binReversedToHexChar_bits a a a a).1
  | [a, b], 0, _ => (binReversedToHexChar_bits a b a a).2.1
  | [a, b, c], 0, _ => (binReversedToHexChar_bits a b c a).2.2.1
  | a :: b :: c :: d :: bs, 0, _ => (binReversedToHexChar_bits a b c d).2.2.2
  | [a], k + 1, hk => by simp [Bits.nibbles] at hk
  | [a, b], k + 1, hk => by simp [Bits.nibbles] at hk
  | [a, b, c], k + 1, hk => by simp [Bits.nibbles] at hk
  | a :: b :: c :: d :: bs, k + 1, hk => by
    rw [segment_add]
    exact binReversedToHexChar_segment bs k (by simpa [Bits.nibbles] using hk)

/-- The digits of a value, the highest first. -/
def hexOfBits (bs : List Bool) : List Char := ((Bits.nibbles bs).map Bits.hexChar).reverse

theorem binReversedToHex_bits (bs : List Bool) :
    binReversedToHex (bs.map Bits.bitChar) = .ok (hexOfBits bs) := by
  have hlength := Bits.length_nibbles bs
  rw [binReversedToHex, List.length_map, ← hlength]
  have hok : Py.mapExcept (fun k => binReversedToHexChar
      (Py.segment (bs.map Bits.bitChar) (4 * k) (4 * k + 4)))
      (List.range (Bits.nibbles bs).length).reverse = .ok
        ((List.range (Bits.nibbles bs).length).reverse.map fun k =>
          Bits.hexChar ((Bits.nibbles bs).getD k 0)) := by
    refine Py.mapExcept_eq_ok fun k hk => binReversedToHexChar_segment bs k ?_
    exact List.mem_range.mp (List.mem_reverse.mp hk)
  rw [hok, List.map_reverse, hexOfBits]
  congr 2
  refine List.ext_getElem (by simp) fun k hk hk' => ?_
  have hk : k < (Bits.nibbles bs).length := by simpa using hk
  rw [List.getElem_map, List.getElem_map, List.getElem_range, List.getD_eq_getElem _ _ hk]

theorem length_hexOfBits (bs : List Bool) : (hexOfBits bs).length = (bs.length + 3) / 4 := by
  rw [hexOfBits, List.length_reverse, List.length_map, Bits.length_nibbles]

/-! ### Rows -/

/-- `",".join(cells)`. -/
def join (cells : List (List Char)) : List Char := [','].intercalate cells

/-- An optional integer in a text. -/
def optionText : Option ℤ → String
  | some n => toString n
  | none => "None"

def ILAWaveformProbe.busRangeStr (p : ILAWaveformProbe) : String :=
  if p.isBus = false then ""
  else if p.busLeftIndex = p.busRightIndex then "[" ++ optionText p.busLeftIndex ++ "]"
  else "[" ++ optionText p.busLeftIndex ++ ":" ++ optionText p.busRightIndex ++ "]"

namespace WaveformWriterCSV

def makeProbeNames (probes : List ILAWaveformProbe) : List (List Char) :=
  probes.map fun p => (p.name ++ p.busRangeStr).toList

def headerRow (includeGap : Bool) (probes : List ILAWaveformProbe) : List Char :=
  "Sample in Buffer,Sample in Window,TRIGGER,".toList ++ (if includeGap then "GAP,".toList else []) ++
    join (makeProbeNames probes)

def radixRow (probes : List ILAWaveformProbe) : List Char :=
  "Radix - UNSIGNED,UNSIGNED,UNSIGNED,".toList ++ join (List.replicate probes.length "HEX".toList)

/-- `init`. -/
def init (includeGap : Bool) (probes : List ILAWaveformProbe) : List Char :=
  headerRow includeGap probes ++ '\n' :: radixRow probes ++ ['\n']

def makeValuesUnknown (inValues : List (List Char)) (unknownCh : Char) : List (List Char) :=
  inValues.map fun val => List.replicate val.length unknownCh

/-- `write_sample`, after the text that was written before. -/
def writeSample (includeGap : Bool) (text : List Char) (r : SampleRecord) :
    Except Py.Error (List Char) := do
  let hexValues ← binReversedToHexValues r.probeBinaryReversedValues
  let hexValues := if r.isGap then makeValuesUnknown hexValues 'X' else hexValues
  let trigMark := if r.isTrigger then "1".toList else "0".toList
  let gapValue := if r.isGap then "1".toList else "0".toList
  let start := (toString r.samplePosition).toList ++ ',' :: (toString r.sampleInWindowIndex).toList ++
    ',' :: trigMark ++ [',']
  if includeGap then .ok (text ++ (start ++ gapValue ++ ',' :: join hexValues ++ ['\n']))
  else .ok (text ++ (start ++ join hexValues ++ ['\n']))

end WaveformWriterCSV

/-- Start of the error for unknown names. -/
def exportBadNames : String := "export_waveform() called with non-existent probe_name"

/-- `export_waveform_to_stream` with the format CSV. -/
def exportWaveformToCsv (wf : ILAWaveform) (probeNames : List String) (startWindowIdx : ℤ)
    (windowCount : Option ℤ) (startSampleIdx : ℤ) (sampleCount : Option ℤ) (includeGap : Bool) :
    Except Py.Error (List Char) := do
  let probes ← selectProbes wf exportBadNames probeNames
  wf.exportWaveform probes (WaveformWriterCSV.writeSample includeGap)
    (WaveformWriterCSV.init includeGap probes) startWindowIdx windowCount startSampleIdx sampleCount
    "export_waveform()"

/-! ### What a table is -/

/-- Cells of a row. -/
def columns (row : List Char) : List (List Char) := row.splitOn ','

/-- A cell of a probe: a hexadecimal number of its bits, or X for a gap. -/
def ShowsValue (wf : ILAWaveform) (i : ℕ) (p : ILAWaveformProbe) (cell : List Char) : Prop :=
  cell.length = (p.length + 3) / 4 ∧
    if wf.gapAt i then ∀ c ∈ cell, c = 'X' else Bits.hexNumber? cell = some (wf.probeValue p i)

/-- A row of a sample. With no probes there is one more cell, an empty one. -/
def ShowsSample (wf : ILAWaveform) (probes : List ILAWaveformProbe) (includeGap : Bool) (i : ℕ)
    (row : List Char) : Prop :=
  ∃ cells, columns row =
      [(toString i).toList, (toString (i % wf.windowSize)).toList,
        if wf.triggerAt i then ['1'] else ['0']] ++
      (if includeGap then [if wf.gapAt i then ['1'] else ['0']] else []) ++
      (if cells = [] then [[]] else cells) ∧
    List.Forall₂ (ShowsValue wf i) probes cells

/-- Rows of equal length that show the exported samples, with values that `get_data` returns. -/
structure Agrees (wf : ILAWaveform) (probes : List ILAWaveformProbe) (includeGap : Bool)
    (sw ss : ℤ) (wc sc : Option ℤ) (r : SampleRange) (header radix : List Char)
    (rows : List (List Char)) : Prop where
  radix_length : (columns radix).length = (columns header).length
  row_length : ∀ row ∈ rows, (columns row).length = (columns header).length
  samples : List.Forall₂ (ShowsSample wf probes includeGap) (wf.exportedSamples r) rows
  getData : ∀ p ∈ probes, ∀ key, wf.probes.get? key = some p → 0 < p.length → ∃ result,
    getWaveformDataValues wf [key] sw wc ss sc ⟨false, false, false⟩ = .ok result ∧
      result.column p.name = (wf.exportedSamples r).map (wf.probeValue p)

/-! ### Cells of a row -/

theorem columns_join {cells : List (List Char)} (h : ∀ cell ∈ cells, ',' ∉ cell) :
    columns (join cells) = if cells = [] then [[]] else cells := by
  split_ifs with hnil
  · subst hnil
    rfl
  · exact List.splitOn_intercalate ',' h hnil

theorem columns_cons {cell : List Char} (h : ',' ∉ cell) (row : List Char) :
    columns (cell ++ ',' :: row) = cell :: columns row :=
  List.splitOn_append_cons_self_of_not_mem h row

theorem comma_notMem_toString_nat (n : ℕ) : ',' ∉ (toString n).toList := by
  have hrepr : toString n = Nat.repr n := rfl
  rw [hrepr, Nat.toList_repr]
  intro h
  obtain ⟨d, hd, heq⟩ := Py.exists_of_mem_toDigits h
  interval_cases d <;> exact absurd heq (by decide)

theorem comma_notMem_toString_int (n : ℤ) : ',' ∉ (toString n).toList := by
  cases n with
  | ofNat n => exact comma_notMem_toString_nat n
  | negSucc n =>
    rw [Py.toList_toString_negSucc]
    intro h
    rcases List.mem_cons.mp h with h | h
    · cases h
    · obtain ⟨d, hd, heq⟩ := Py.exists_of_mem_toDigits h
      interval_cases d <;> exact absurd heq (by decide)

theorem comma_notMem_optionText (n : Option ℤ) : ',' ∉ (optionText n).toList := by
  cases n with
  | some n => exact comma_notMem_toString_int n
  | none => decide

theorem comma_notMem_busRangeStr (p : ILAWaveformProbe) : ',' ∉ p.busRangeStr.toList := by
  have hleft := comma_notMem_optionText p.busLeftIndex
  have hright := comma_notMem_optionText p.busRightIndex
  rw [ILAWaveformProbe.busRangeStr]
  split_ifs
  · decide
  · simp [hleft]
  · simp [hleft, hright]

theorem length_orEmpty (cells : List (List Char)) :
    (if cells = [] then [[]] else cells).length = max 1 cells.length := by
  cases cells with
  | nil => rfl
  | cons cell cells => simp

variable {wf : ILAWaveform} {probes : List ILAWaveformProbe} {includeGap : Bool}

open WaveformWriterCSV

theorem columns_headerRow (hnames : ∀ p ∈ probes, ',' ∉ p.name.toList) :
    columns (headerRow includeGap probes) =
      ["Sample in Buffer".toList, "Sample in Window".toList, "TRIGGER".toList] ++
        (if includeGap then ["GAP".toList] else []) ++
          if makeProbeNames probes = [] then [[]] else makeProbeNames probes := by
  have hcells : ∀ cell ∈ makeProbeNames probes, ',' ∉ cell := by
    intro cell hcell
    obtain ⟨p, hp, rfl⟩ := List.mem_map.mp hcell
    rw [String.toList_append, List.mem_append, not_or]
    exact ⟨hnames p hp, comma_notMem_busRangeStr p⟩
  have hrow : headerRow includeGap probes =
      "Sample in Buffer".toList ++ ',' :: ("Sample in Window".toList ++ ',' ::
        ("TRIGGER".toList ++ ',' :: ((if includeGap then "GAP,".toList else []) ++
          join (makeProbeNames probes)))) := rfl
  have hgap : columns ((if includeGap then "GAP,".toList else []) ++ join (makeProbeNames probes)) =
      (if includeGap then ["GAP".toList] else []) ++
        if makeProbeNames probes = [] then [[]] else makeProbeNames probes := by
    cases includeGap with
    | false => exact columns_join hcells
    | true =>
      rw [if_pos rfl, if_pos rfl, ← columns_join hcells]
      have hcomma : ',' ∉ "GAP".toList := by decide
      exact columns_cons hcomma _
  rw [hrow, columns_cons (by decide), columns_cons (by decide), columns_cons (by decide), hgap]
  rfl

theorem columns_radixRow (probes : List ILAWaveformProbe) : columns (radixRow probes) =
    ["Radix - UNSIGNED".toList, "UNSIGNED".toList, "UNSIGNED".toList] ++
      if List.replicate probes.length "HEX".toList = [] then [[]]
      else List.replicate probes.length "HEX".toList := by
  have hcells : ∀ cell ∈ List.replicate probes.length "HEX".toList, ',' ∉ cell := by
    intro cell hcell
    rw [List.eq_of_mem_replicate hcell]
    decide
  have hrow : radixRow probes = "Radix - UNSIGNED".toList ++ ',' :: ("UNSIGNED".toList ++ ',' ::
      ("UNSIGNED".toList ++ ',' :: join (List.replicate probes.length "HEX".toList))) := rfl
  rw [hrow, columns_cons (by decide), columns_cons (by decide), columns_cons (by decide),
    columns_join hcells]
  rfl

/-- Cells of the probes in one sample. -/
def hexCells (wf : ILAWaveform) (probes : List ILAWaveformProbe) (i : ℕ) : List (List Char) :=
  probes.map fun p =>
    if wf.gapAt i then List.replicate ((p.length + 3) / 4) 'X' else hexOfBits (wf.probeBits p i)

/-- The row of one sample. -/
def dataRow (wf : ILAWaveform) (probes : List ILAWaveformProbe) (includeGap : Bool) (i : ℕ) :
    List Char :=
  (toString i).toList ++ ',' :: ((toString (i % wf.windowSize)).toList ++ ',' ::
    ((if wf.triggerAt i then ['1'] else ['0']) ++ ',' ::
      ((if includeGap then (if wf.gapAt i then ['1'] else ['0']) ++ [','] else []) ++
        join (hexCells wf probes i))))

theorem writeSample_recordAt (text : List Char) (i : ℕ) :
    writeSample includeGap text (wf.recordAt probes i) =
      .ok (text ++ (dataRow wf probes includeGap i ++ ['\n'])) := by
  have hhex : binReversedToHexValues (wf.recordAt probes i).probeBinaryReversedValues =
      .ok (probes.map fun p => hexOfBits (wf.probeBits p i)) := by
    have hvalues : (wf.recordAt probes i).probeBinaryReversedValues =
      probes.map fun p => (wf.probeBits p i).map Bits.bitChar := rfl
    rw [hvalues, binReversedToHexValues, Py.mapExcept_map]
    exact Py.mapExcept_eq_ok fun p _ => binReversedToHex_bits _
  have hcells : (if (wf.recordAt probes i).isGap then
      makeValuesUnknown (probes.map fun p => hexOfBits (wf.probeBits p i)) 'X'
      else probes.map fun p => hexOfBits (wf.probeBits p i)) = hexCells wf probes i := by
    have hgap : (wf.recordAt probes i).isGap = wf.gapAt i := rfl
    rw [hgap, hexCells]
    cases wf.gapAt i with
    | false => rfl
    | true =>
      rw [if_pos rfl, makeValuesUnknown, List.map_map]
      refine List.map_congr_left fun p _ => ?_
      rw [Function.comp_apply, length_hexOfBits, length_probeBits, if_pos rfl]
  have htrigger : (if (wf.recordAt probes i).isTrigger then "1".toList else "0".toList) =
      if wf.triggerAt i then ['1'] else ['0'] := by
    simp [ILAWaveform.recordAt]
  have hgap : (if (wf.recordAt probes i).isGap then "1".toList else "0".toList) =
      if wf.gapAt i then ['1'] else ['0'] := rfl
  rw [writeSample, hhex, Py.ok_bind]
  dsimp only
  rw [hcells, htrigger, hgap, dataRow]
  cases includeGap with
  | false => simp [ILAWaveform.recordAt]
  | true => simp [ILAWaveform.recordAt]

theorem columns_dataRow (wf : ILAWaveform) (probes : List ILAWaveformProbe) (includeGap : Bool)
    (i : ℕ) : columns (dataRow wf probes includeGap i) =
      [(toString i).toList, (toString (i % wf.windowSize)).toList,
        if wf.triggerAt i then ['1'] else ['0']] ++
      (if includeGap then [if wf.gapAt i then ['1'] else ['0']] else []) ++
      (if hexCells wf probes i = [] then [[]] else hexCells wf probes i) := by
  have hflag : ∀ b : Prop, [Decidable b] → ',' ∉ if b then ['1'] else ['0'] := by
    intro b _
    split_ifs <;> decide
  have hcells : ∀ cell ∈ hexCells wf probes i, ',' ∉ cell := by
    intro cell hcell
    obtain ⟨p, -, rfl⟩ := List.mem_map.mp hcell
    split_ifs
    · intro h
      cases List.eq_of_mem_replicate h
    · intro h
      obtain ⟨d, hd, heq⟩ := List.mem_map.mp (List.mem_reverse.mp h)
      have hlt := Bits.nibbles_lt _ d hd
      interval_cases d <;> exact absurd heq (by decide)
  have hgap : columns ((if includeGap then (if wf.gapAt i then ['1'] else ['0']) ++ [','] else []) ++
      join (hexCells wf probes i)) =
      (if includeGap then [if wf.gapAt i then ['1'] else ['0']] else []) ++
        if hexCells wf probes i = [] then [[]] else hexCells wf probes i := by
    cases includeGap with
    | false => exact columns_join hcells
    | true =>
      rw [if_pos rfl, if_pos rfl, ← columns_join hcells, List.append_assoc]
      exact columns_cons (hflag _) _
  rw [dataRow, columns_cons (comma_notMem_toString_nat i),
    columns_cons (comma_notMem_toString_nat _), columns_cons (hflag _), hgap]
  rfl

theorem showsSample_dataRow (wf : ILAWaveform) (probes : List ILAWaveformProbe) (includeGap : Bool)
    (i : ℕ) : ShowsSample wf probes includeGap i (dataRow wf probes includeGap i) := by
  refine ⟨hexCells wf probes i, columns_dataRow wf probes includeGap i, ?_⟩
  rw [hexCells, List.forall₂_map_right_iff, List.forall₂_same]
  intro p _
  rw [ShowsValue]
  split_ifs with hgap
  · exact ⟨List.length_replicate, fun c hc => List.eq_of_mem_replicate hc⟩
  · refine ⟨by rw [length_hexOfBits, length_probeBits], ?_⟩
    exact Bits.hexNumber_nibbles _

/-! ### The table -/

/-- The text of an export is the two header rows and the rows of the exported samples. -/
theorem exportWaveformToCsv_eq (hwf : wf.Framed) {names : List String}
    (hsel : selectProbes wf exportBadNames names = .ok probes) (hin : wf.ProbesInside probes)
    {sw ss : ℤ} {wc sc : Option ℤ} {r : SampleRange}
    (hr : wf.checkRange "export_waveform()" sw wc ss sc = .ok r) :
    exportWaveformToCsv wf names sw wc ss sc includeGap =
      .ok (headerRow includeGap probes ++ '\n' :: radixRow probes ++ '\n' ::
        ((wf.exportedSamples r).map (dataRow wf probes includeGap)).flatMap (· ++ ['\n'])) := by
  have hrun := wf.exportWaveform_eq (writeSample includeGap) hwf hin (init includeGap probes) hr
  rw [Py.foldlM_eq_ok (g := fun text i => text ++ (dataRow wf probes includeGap i ++ ['\n'])) _
    fun text i _ => writeSample_recordAt text i] at hrun
  rw [exportWaveformToCsv, hsel, Py.ok_bind, hrun, List.foldl_append_eq_append, init,
    List.flatMap_map]
  simp [List.flatMap_def]

theorem checkRange_caller {caller caller' : String} {sw ss : ℤ} {wc sc : Option ℤ} {r : SampleRange}
    (h : wf.checkRange caller sw wc ss sc = .ok r) : wf.checkRange caller' sw wc ss sc = .ok r := by
  simp only [ILAWaveform.checkRange] at h ⊢
  split_ifs at h ⊢
  exact h

/-- `get_data` of one probe. -/
theorem getData_single (hwf : wf.Framed) {key : String} {p : ILAWaveformProbe}
    (hkey : wf.probes.get? key = some p) (hin : wf.ProbesInside [p]) (hpos : 0 < p.length)
    {sw ss : ℤ} {wc sc : Option ℤ} {r : SampleRange}
    (hr : wf.checkRange "export_waveform()" sw wc ss sc = .ok r) : ∃ result,
    getWaveformDataValues wf [key] sw wc ss sc ⟨false, false, false⟩ = .ok result ∧
      result.column p.name = (wf.exportedSamples r).map (wf.probeValue p) := by
  have hsel : selectProbes wf getDataBadNames [key] = .ok [p] := by
    simp [selectProbes, hkey]
  obtain ⟨result, hresult, hcolumns⟩ := getWaveformDataValues_columns hwf hsel hin
    (by simpa using hpos) ⟨false, false, false⟩ (checkRange_caller hr)
  refine ⟨result, hresult, ?_⟩
  rw [hcolumns]
  exact flatMap_valuesUnder_eq_map (by simp [PseudoProbes.names])
    (fun i => List.mem_append_right _ List.mem_cons_self) _

/-- An export to CSV agrees with `get_data` exactly if no gap column was asked for. -/
theorem exportWaveformToCsv_agrees_iff (hwf : wf.Framed) (names : List String)
    (hsel : selectProbes wf exportBadNames names = .ok probes) (hin : wf.ProbesInside probes)
    (hnames : ∀ p ∈ probes, ',' ∉ p.name.toList) {sw ss : ℤ} {wc sc : Option ℤ} {r : SampleRange}
    (hr : wf.checkRange "export_waveform()" sw wc ss sc = .ok r) (includeGap : Bool) :
    (∃ rows, exportWaveformToCsv wf names sw wc ss sc includeGap =
        .ok (headerRow includeGap probes ++ '\n' :: radixRow probes ++ '\n' ::
          rows.flatMap (· ++ ['\n'])) ∧
      Agrees wf probes includeGap sw ss wc sc r (headerRow includeGap probes) (radixRow probes)
        rows) ↔ includeGap = false := by
  have hheader : (columns (headerRow includeGap probes)).length =
      3 + (if includeGap then 1 else 0) + max 1 probes.length := by
    rw [columns_headerRow hnames, List.length_append, List.length_append, length_orEmpty,
      makeProbeNames, List.length_map]
    cases includeGap <;> rfl
  have hradix : (columns (radixRow probes)).length = 3 + max 1 probes.length := by
    rw [columns_radixRow, List.length_append, length_orEmpty, List.length_replicate]
    rfl
  have hrow : ∀ i, (columns (dataRow wf probes includeGap i)).length =
      3 + (if includeGap then 1 else 0) + max 1 probes.length := by
    intro i
    rw [columns_dataRow, List.length_append, List.length_append, length_orEmpty, hexCells,
      List.length_map]
    cases includeGap <;> rfl
  constructor
  · rintro ⟨rows, -, hagrees⟩
    have hlength := hagrees.radix_length
    rw [hheader, hradix] at hlength
    cases includeGap with
    | false => rfl
    | true =>
      rw [if_pos rfl] at hlength
      omega
  · rintro rfl
    refine ⟨_, exportWaveformToCsv_eq hwf hsel hin hr, ⟨?_, fun row hmem => ?_, ?_,
      fun p hp key hkey hpos => getData_single hwf hkey (fun q hq => ?_) hpos hr⟩⟩
    · rw [hheader, hradix]
      rfl
    · obtain ⟨i, -, rfl⟩ := List.mem_map.mp hmem
      rw [hrow, hheader]
    · rw [List.forall₂_map_right_iff, List.forall₂_same]
      exact fun i _ => showsSample_dataRow wf probes false i
    · rw [List.mem_singleton.mp hq]
      exact hin p hp

/-- The probe of `twoWindows`. -/
def fiveBits : ILAWaveformProbe :=
  ⟨"p", "probe0", [⟨8, 2⟩, ⟨0, 3⟩], true, some 4, some 0, .hex, none⟩

theorem exportWaveformToCsv_agrees_twoWindows :
    ∃ rows, exportWaveformToCsv twoWindows ["p"] 0 none 1 (some 1) false =
        .ok (headerRow false [fiveBits] ++ '\n' :: radixRow [fiveBits] ++ '\n' ::
          rows.flatMap (· ++ ['\n'])) ∧
      Agrees twoWindows [fiveBits] false 0 1 none (some 1) ⟨0, 2, 1, 1⟩
        (headerRow false [fiveBits]) (radixRow [fiveBits]) rows :=
  (exportWaveformToCsv_agrees_iff ⟨by decide, by decide, by decide, by decide⟩ ["p"] rfl
    (by simp [ILAWaveform.ProbesInside, twoWindows, fiveBits]) (by simp [fiveBits]) rfl false).mpr rfl

/-- The gap column has a header and values, and no radix. -/
theorem not_exportWaveformToCsv_agrees_gap :
    ¬ ∃ rows, exportWaveformToCsv twoWindows ["p"] 0 none 1 (some 1) true =
        .ok (headerRow true [fiveBits] ++ '\n' :: radixRow [fiveBits] ++ '\n' ::
          rows.flatMap (· ++ ['\n'])) ∧
      Agrees twoWindows [fiveBits] true 0 1 none (some 1) ⟨0, 2, 1, 1⟩
        (headerRow true [fiveBits]) (radixRow [fiveBits]) rows := by
  rintro ⟨rows, -, hagrees⟩
  have hlength := hagrees.radix_length
  revert hlength
  decide

end Chipscopy.Waveform
