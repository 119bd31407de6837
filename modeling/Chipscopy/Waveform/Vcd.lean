import Chipscopy.Lib.ValueChange
import Chipscopy.Waveform.Csv

/-! Export of samples as a value change dump

    The writer declares a variable for every probe, for the trigger, the window and the gap, and
    writes what has changed from one sample to the next. It compares the digits of the values, with
    those of a gap replaced by `x`, and leaves out the zeros in front of a value. -/

namespace Chipscopy.Waveform

/-- Date and time of a dump. -/
structure Timestamp where
  year : ℕ
  month : ℕ
  day : ℕ
  hour : ℕ
  minute : ℕ
  second : ℕ
  deriving DecidableEq, Repr

def twoDigits (n : ℕ) : List Char :=
  List.replicate (2 - (Nat.toDigits 10 n).length) '0' ++ Nat.toDigits 10 n

/-- `"{:%Y-%m-%d %H:%M:%S}"`. -/
def Timestamp.format (t : Timestamp) : List Char :=
  Nat.toDigits 10 t.year ++ '-' :: twoDigits t.month ++ '-' :: twoDigits t.day ++
    ' ' :: twoDigits t.hour ++ ':' :: twoDigits t.minute ++ ':' :: twoDigits t.second

/-- Position of the last occurrence. -/
def rfind (c : Char) : List Char → Option ℕ
  | [] => none
  | a :: as =>
    match rfind c as with
    | some i => some (i + 1)
    | none => if a = c then some 0 else none

/-! ### Identifier codes -/

/-- `range(ord("!"), ord("~"))`. -/
def varChars : List Char := (List.range' 33 93).map Char.ofNat

/-- `_generate_vars`. -/
def generateVars : List (List Char) :=
  varChars.map (fun x => [x]) ++
    (varChars.flatMap fun xx => varChars.map fun yy => [xx, yy]) ++
    varChars.flatMap fun xxx => varChars.flatMap fun yyy => varChars.map fun zzz => [xxx, yyy, zzz]

/-! ### The writer -/

structure WaveformWriterVCD where
  probes : List ILAWaveformProbe
  includeGap : Bool
  values : List (Option (List Char))
  triggerVar : List Char
  windowVar : List Char
  gapVar : List Char
  vars : List (List Char)
  prevSampleIsTrigger : Option Bool := none
  prevWindowIndex : Option ℕ := none
  prevSampleIsGap : Option Bool := none
  /-- What has been written to the stream. -/
  text : List Char := []
  deriving DecidableEq

namespace WaveformWriterVCD

def write (w : WaveformWriterVCD) (msg : List Char) : WaveformWriterVCD :=
  { w with text := w.text ++ msg }

/-- One entry of `make_probe_names`. -/
def makeProbeName (p : ILAWaveformProbe) : List Char :=
  p.name.toList ++ ' ' :: p.busRangeStr.toList

/-- `f"$var reg {width} {var} {name} $end\n"`. -/
def definition (width : ℕ) (var name : List Char) : List Char :=
  "$var reg ".toList ++ Nat.toDigits 10 width ++ ' ' :: var ++ ' ' :: name ++ " $end\n".toList

def writeVariableDefinitions (w : WaveformWriterVCD) : WaveformWriterVCD :=
  let w := (w.probes.zip w.vars).foldl
    (fun w e => w.write (definition e.1.length e.2 (makeProbeName e.1))) w
  let w := w.write (definition 1 w.triggerVar "_TRIGGER".toList ++
    definition 1 w.windowVar "_WINDOW".toList)
  if w.includeGap then w.write (definition 1 w.gapVar "_GAP".toList) else w

/-- The codes are taken when the definitions are written. -/
def init (probes : List ILAWaveformProbe) (includeGap : Bool) (version : String)
    (now : Timestamp) : WaveformWriterVCD :=
  let codes := generateVars.take (probes.length + 3)
  let w : WaveformWriterVCD := {
    probes, includeGap
    values := List.replicate probes.length none
    triggerVar := codes.getD 0 []
    windowVar := codes.getD 1 []
    gapVar := codes.getD 2 []
    vars := codes.drop 3 }
  let hdr1 := "$date\n        ".toList ++ now.format ++ "\n$end\n".toList
  let hdr2 := "$version\n        ChipScoPy Version ".toList ++ version.toList ++
    "\n$end\n".toList ++ "$timescale\n        1ps\n$end\n$scope module dut $end\n".toList
  ((w.write (hdr1 ++ hdr2)).writeVariableDefinitions).write
    "$upscope $end\n$enddefinitions $end\n".toList

/-- `is_gap and reversed_value[0] == "x"`. -/
def startsUnknown (isGap : Bool) (reversedValue : List Char) : Except Py.Error Bool :=
  if isGap then (Py.index reversedValue 0).map (· == 'x') else .ok false

/-- `write_value`; the flag is `time_written`. -/
def writeValue (r : SampleRecord) (var reversedValue : List Char)
    (s : WaveformWriterVCD × Bool) : Except Py.Error (WaveformWriterVCD × Bool) :=
  let w := if s.2 then s.1 else s.1.write ('#' :: Nat.toDigits 10 r.samplePosition ++ ['\n'])
  if reversedValue.length = 1 then .ok (w.write (reversedValue ++ var ++ ['\n']), true)
  else do
    let unknown ← startsUnknown r.isGap reversedValue
    let value := if unknown then reversedValue
      else (reversedValue.take ((rfind '1' reversedValue).getD 0 + 1)).reverse
    return (w.write ('b' :: value ++ ' ' :: var ++ ['\n']), true)

/-- The digit of a flag. -/
def flag (b : Bool) : List Char := if b then ['1'] else ['0']

def writeTrigger (r : SampleRecord) (s : WaveformWriterVCD × Bool) :
    Except Py.Error (WaveformWriterVCD × Bool) :=
  if some r.isTrigger = s.1.prevSampleIsTrigger then .ok s
  else (writeValue r s.1.triggerVar (flag r.isTrigger) s).map fun s =>
    ({ s.1 with prevSampleIsTrigger := some r.isTrigger }, s.2)

def writeWindow (r : SampleRecord) (s : WaveformWriterVCD × Bool) :
    Except Py.Error (WaveformWriterVCD × Bool) :=
  if some r.windowIndex = s.1.prevWindowIndex then .ok s
  else (writeValue r s.1.windowVar (flag (r.windowIndex % 2 != 0)) s).map fun s =>
    ({ s.1 with prevWindowIndex := some r.windowIndex }, s.2)

def writeGap (r : SampleRecord) (s : WaveformWriterVCD × Bool) :
    Except Py.Error (WaveformWriterVCD × Bool) :=
  if s.1.includeGap = false ∨ some r.isGap = s.1.prevSampleIsGap then .ok s
  else (writeValue r s.1.gapVar (flag r.isGap) s).map fun s =>
    ({ s.1 with prevSampleIsGap := some r.isGap }, s.2)

/-- One round of the loop over the values of the probes. -/
def writeProbe (r : SampleRecord) (s : WaveformWriterVCD × Bool) (e : List Char × ℕ) :
    Except Py.Error (WaveformWriterVCD × Bool) := do
  let value ← Py.index s.1.values e.2
  if some e.1 = value then return s
  else
    let w := { s.1 with values := s.1.values.set e.2 (some e.1) }
    let var ← Py.index w.vars e.2
    writeValue r var e.1 (w, s.2)

def writeSample (w : WaveformWriterVCD) (r : SampleRecord) : Except Py.Error WaveformWriterVCD := do
  let s := if r.isLastSample then
    (w.write ('#' :: Nat.toDigits 10 r.samplePosition ++ ['\n']), true) else (w, false)
  let s ← writeTrigger r s
  let s ← writeWindow r s
  let s ← writeGap r s
  let values := if r.isGap then WaveformWriterCSV.makeValuesUnknown r.probeBinaryReversedValues 'x'
    else r.probeBinaryReversedValues
  let s ← values.zipIdx.foldlM (writeProbe r) s
  return s.1

end WaveformWriterVCD

/-- `export_waveform_to_stream` in the format `"VCD"`: the text that was written. -/
def exportVcd (wf : ILAWaveform) (probeNames : List String) (startWindowIdx : ℤ)
    (windowCount : Option ℤ) (startSampleIdx : ℤ) (sampleCount : Option ℤ) (includeGap : Bool)
    (version : String) (now : Timestamp) : Except Py.Error (List Char) := do
  let probes ← selectProbes wf exportBadNames probeNames
  let w ← wf.exportWaveform probes WaveformWriterVCD.writeSample
    (.init probes includeGap version now) startWindowIdx windowCount startSampleIdx sampleCount
    "export_waveform()"
  return w.text

end Chipscopy.Waveform
