import Chipscopy.Lib.Bits

/-! Waveforms

    A waveform keeps its samples in one buffer: window after window, every window with room for
    `windowSize` samples, also the last one when it is not full, and a whole number of bytes for
    every sample. A probe names the stretches of sample bits it is made of. -/

namespace Chipscopy.Waveform

inductive ILAProbeRadix
  | bin | enum | hex | signed | unsigned
  deriving DecidableEq, Repr

structure ILABitRange where
  index : ℕ
  length : ℕ
  deriving DecidableEq, Repr

/-- An `Enum` class: its name, and its member names with their values, aliases included. -/
structure EnumMeta where
  name : String
  members : List (String × ℤ)
  deriving DecidableEq, Repr

structure ILAWaveformProbe where
  name : String
  map : String
  mapRange : List ILABitRange
  isBus : Bool
  busLeftIndex : Option ℤ := none
  busRightIndex : Option ℤ := none
  displayRadix : ILAProbeRadix := .hex
  enumDef : Option EnumMeta := none
  deriving DecidableEq, Repr

/-- Number of bits of a probe. -/
def ILAWaveformProbe.length (p : ILAWaveformProbe) : ℕ := (p.mapRange.map (·.length)).sum

structure ILAWaveform where
  width : ℕ
  sampleCount : ℕ
  triggerPosition : List ℤ
  windowSize : ℕ
  probes : Py.Dict String ILAWaveformProbe
  data : List UInt8
  gapIndex : Option ℕ := none
  deriving DecidableEq

namespace ILAWaveform

/-- Bytes from one sample to the next, where the division is defined. -/
def stride (wf : ILAWaveform) : ℕ :=
  wf.data.length / (wf.triggerPosition.length * wf.windowSize)

def bytesPerSample (wf : ILAWaveform) : Except Py.Error ℕ :=
  if wf.triggerPosition.length = 0 then .error (.assertionError "")
  else if wf.windowSize = 0 then .error (.assertionError "")
  else .ok wf.stride

def getWindowCount (wf : ILAWaveform) : ℕ := wf.triggerPosition.length

/-- `set_sample`: the sample may have more bytes than those of the waveform, and is no gap. -/
def setSample (wf : ILAWaveform) (sampleIndex : ℕ) (sample : List UInt8) :
    Except Py.Error ILAWaveform := do
  let sampleByteCount ← wf.bytesPerSample
  let copyByteCount := min sampleByteCount sample.length
  let start := sampleByteCount * sampleIndex
  let data := Py.setSlice wf.data start (start + copyByteCount : ℕ) (sample.take copyByteCount)
  if wf.gapIndex.getD 0 = 0 then return { wf with data }
  else
    let gapByteIndex := wf.width / 8
    let mask := UInt8.ofNat (0xFF ^^^ 1 <<< (wf.width % 8))
    let byte ← Py.index data (start + gapByteIndex : ℕ)
    return { wf with data := data.set (start + gapByteIndex) (byte &&& mask) }

/-- The formula of the documentation of `data`. -/
def getBitValue (data : List UInt8) (bytesPerSample sampleIndex dataBitIndex : ℕ) : Bool :=
  let byteValue := (data.getD (sampleIndex * bytesPerSample + dataBitIndex / 8) 0).toNat
  let mask := 1 <<< (dataBitIndex &&& 0x7)
  byteValue &&& mask != 0

/-- A waveform whose buffer holds its samples: a window with a trigger position for every sample,
    and samples wide enough for the data bits, with the gap bit in their last byte. -/
structure Framed (wf : ILAWaveform) : Prop where
  windowSize_pos : 0 < wf.windowSize
  sampleCount_le : wf.sampleCount ≤ wf.triggerPosition.length * wf.windowSize
  width_le : wf.width ≤ 8 * wf.stride
  gap : ∀ g ∈ wf.gapIndex, g ≠ 0 → g / 8 + 1 = wf.stride

end ILAWaveform

theorem getBitValue_eq_bit (data : List UInt8) (b i j : ℕ) :
    ILAWaveform.getBitValue data b i j = Bits.bit data (8 * (i * b) + j) := by
  have hdiv : (8 * (i * b) + j) / 8 = i * b + j / 8 := by omega
  have hmod : (8 * (i * b) + j) % 8 = j % 8 := by omega
  have hmask : j &&& 0x7 = j % 8 := Nat.and_two_pow_sub_one_eq_mod j 3
  rw [ILAWaveform.getBitValue, hmask, Bits.and_shiftLeft_bne_zero, Bits.bit, hdiv, hmod]

namespace ILAWaveform

variable {wf : ILAWaveform}

theorem Framed.bytesPerSample_eq (h : wf.Framed) (hcount : 0 < wf.sampleCount) :
    wf.bytesPerSample = .ok wf.stride := by
  have hlen : wf.triggerPosition.length ≠ 0 := fun h0 => by
    have := h.sampleCount_le
    rw [h0, Nat.zero_mul] at this
    omega
  rw [bytesPerSample, if_neg hlen, if_neg h.windowSize_pos.ne']

/-- The bytes of a sample lie in the buffer. -/
theorem Framed.sample_le (h : wf.Framed) {i : ℕ} (hi : i < wf.sampleCount) :
    (i + 1) * wf.stride ≤ wf.data.length :=
  calc (i + 1) * wf.stride ≤ wf.triggerPosition.length * wf.windowSize * wf.stride :=
        Nat.mul_le_mul_right _ (hi.trans_le h.sampleCount_le)
    _ ≤ wf.data.length := Nat.mul_div_le _ _

end ILAWaveform

end Chipscopy.Waveform
