import Chipscopy.Lib.PowersOfTwo
import Chipscopy.Upload.External

/-! Sizing the external memory

    How many bytes a capture needs, and how many samples of each window fit into given bytes. A
    window holds a power of two of samples, each of whole 64 byte blocks. The two sizes are adjoint
    as long as one sample of every window fits; where it does not, the second still answers one. -/

namespace Chipscopy.Upload

def roundUpToPowerOfTwo (num : ℕ) : ℕ := if num = 0 then 1 else 1 <<< (num - 1).size

def roundDownToPowerOfTwo (num : ℕ) : ℕ := if num = 0 then 1 else 1 <<< (num.size - 1)

section Sizes

variable (dataWidth : ℕ)

/-- One bit of the record type; samples stand on raw data words. -/
def oneSampleByteCount : ℕ :=
  calculateDataSampleByteCount externalTraceDataAlignmentBitCount (dataWidth + 1)

def calculateExternalTraceByteCount (sampleCount windowCount : ℕ) : ℕ :=
  let oneWindowSampleCount := roundUpToPowerOfTwo sampleCount
  let oneWindowByteCount := oneWindowSampleCount * oneSampleByteCount dataWidth
  oneWindowByteCount * windowCount

def calculateExternalTraceOneWindowSampleCount (byteCount windowCount : ℕ) : Except Py.Error ℕ :=
  if windowCount = 0 then .error .zeroDivisionError
  else
    let oneWindowByteCount := byteCount / oneSampleByteCount dataWidth / windowCount
    .ok (roundDownToPowerOfTwo oneWindowByteCount)

/-- A power of two of samples whose bytes fit. -/
def Fits (byteCount windowCount n : ℕ) : Prop :=
  n.isPowerOfTwo ∧ calculateExternalTraceByteCount dataWidth n windowCount ≤ byteCount

/-- The sample count is the greatest that fits, and not positive where none fits; the bytes of
    every positive sample count hold as many samples of each window. -/
structure SizedConsistently (byteCount windowCount : ℕ) : Prop where
  greatest : (∃ n, Fits dataWidth byteCount windowCount n) →
    ∃ n, calculateExternalTraceOneWindowSampleCount dataWidth byteCount windowCount = .ok n ∧
      IsGreatest {n | Fits dataWidth byteCount windowCount n} n
  noneFits : (¬ ∃ n, Fits dataWidth byteCount windowCount n) →
    ∃ n, calculateExternalTraceOneWindowSampleCount dataWidth byteCount windowCount = .ok n ∧ ¬ 0 < n
  holds : ∀ s, 1 ≤ s → ∃ n, calculateExternalTraceOneWindowSampleCount dataWidth
    (calculateExternalTraceByteCount dataWidth s windowCount) windowCount = .ok n ∧ s ≤ n

end Sizes

variable {dataWidth byteCount windowCount n : ℕ}

/-! ### Rounding -/

theorem roundUpToPowerOfTwo_eq (num : ℕ) : roundUpToPowerOfTwo num = PowersOfTwo.above num := by
  rw [roundUpToPowerOfTwo, PowersOfTwo.above]
  split
  · next h => rw [h]; rfl
  · rfl

/-- The bit length of zero is zero as well. -/
theorem roundDownToPowerOfTwo_eq (num : ℕ) :
    roundDownToPowerOfTwo num = PowersOfTwo.below num := by
  rw [roundDownToPowerOfTwo, PowersOfTwo.below]
  split
  · next h => rw [h]; rfl
  · rfl

/-! ### Bytes and samples -/

theorem oneSampleByteCount_pos : 0 < oneSampleByteCount dataWidth := by
  simp only [oneSampleByteCount, calculateDataSampleByteCount, externalTraceDataAlignmentBitCount]
  omega

theorem byteCount_of_isPowerOfTwo (hn : n.isPowerOfTwo) :
    calculateExternalTraceByteCount dataWidth n windowCount =
      n * oneSampleByteCount dataWidth * windowCount := by
  rw [calculateExternalTraceByteCount, roundUpToPowerOfTwo_eq, PowersOfTwo.above_eq hn]

/-- The bytes of `n` samples fit exactly if `n` is at most the quotient the code rounds down. -/
theorem fits_iff (hw : 1 ≤ windowCount) : Fits dataWidth byteCount windowCount n ↔
    n.isPowerOfTwo ∧ n ≤ byteCount / oneSampleByteCount dataWidth / windowCount := by
  refine and_congr_right fun hn => ?_
  rw [byteCount_of_isPowerOfTwo hn, Nat.le_div_iff_mul_le hw,
    Nat.le_div_iff_mul_le oneSampleByteCount_pos, Nat.mul_right_comm]

/-- Something fits if one sample of each window does. -/
theorem exists_fits_iff (hw : 1 ≤ windowCount) : (∃ n, Fits dataWidth byteCount windowCount n) ↔
    windowCount * oneSampleByteCount dataWidth ≤ byteCount := by
  have hone : Nat.isPowerOfTwo 1 := ⟨0, rfl⟩
  have hfits : Fits dataWidth byteCount windowCount 1 ↔
      windowCount * oneSampleByteCount dataWidth ≤ byteCount := by
    rw [Fits, byteCount_of_isPowerOfTwo hone, Nat.one_mul, Nat.mul_comm windowCount]
    exact and_iff_right hone
  rw [← hfits]
  constructor
  · rintro ⟨n, hn⟩
    obtain ⟨hpow, hle⟩ := (fits_iff hw).mp hn
    exact (fits_iff hw).mpr ⟨hone, (Nat.pos_of_isPowerOfTwo hpow).trans_le hle⟩
  · exact fun h => ⟨1, h⟩

theorem oneWindowSampleCount_eq (hw : 1 ≤ windowCount) :
    calculateExternalTraceOneWindowSampleCount dataWidth byteCount windowCount =
      .ok (PowersOfTwo.below (byteCount / oneSampleByteCount dataWidth / windowCount)) := by
  rw [calculateExternalTraceOneWindowSampleCount, if_neg (by omega), ← roundDownToPowerOfTwo_eq]

/-- The sample count is always positive. -/
theorem oneWindowSampleCount_pos (hw : 1 ≤ windowCount)
    (hn : calculateExternalTraceOneWindowSampleCount dataWidth byteCount windowCount = .ok n) :
    0 < n := by
  rw [oneWindowSampleCount_eq hw] at hn
  obtain rfl := Except.ok.inj hn
  exact Nat.pos_of_isPowerOfTwo (PowersOfTwo.below_isPowerOfTwo _)

theorem oneWindowSampleCount_isGreatest (hw : 1 ≤ windowCount)
    (hfits : ∃ n, Fits dataWidth byteCount windowCount n) :
    IsGreatest {n | Fits dataWidth byteCount windowCount n}
      (PowersOfTwo.below (byteCount / oneSampleByteCount dataWidth / windowCount)) := by
  have hpos : 0 < byteCount / oneSampleByteCount dataWidth / windowCount := by
    obtain ⟨n, hn⟩ := hfits
    obtain ⟨hpow, hle⟩ := (fits_iff hw).mp hn
    exact (Nat.pos_of_isPowerOfTwo hpow).trans_le hle
  constructor
  · exact (fits_iff hw).mpr ⟨PowersOfTwo.below_isPowerOfTwo _, PowersOfTwo.below_le hpos⟩
  · intro m hm
    obtain ⟨hpow, hle⟩ := (fits_iff hw).mp hm
    exact (PowersOfTwo.le_below_iff hpow hpos).mpr hle

/-- The bytes for a sample count give back the power of two they were made for. -/
theorem oneWindowSampleCount_byteCount (hw : 1 ≤ windowCount) (s : ℕ) :
    calculateExternalTraceOneWindowSampleCount dataWidth
      (calculateExternalTraceByteCount dataWidth s windowCount) windowCount =
        .ok (PowersOfTwo.above s) := by
  have hbytes : calculateExternalTraceByteCount dataWidth s windowCount =
      PowersOfTwo.above s * oneSampleByteCount dataWidth * windowCount := by
    rw [calculateExternalTraceByteCount, roundUpToPowerOfTwo_eq]
  have hquot : PowersOfTwo.above s * oneSampleByteCount dataWidth * windowCount /
      oneSampleByteCount dataWidth / windowCount = PowersOfTwo.above s := by
    rw [Nat.div_div_eq_div_mul, Nat.mul_assoc]
    exact Nat.mul_div_cancel _ (Nat.mul_pos oneSampleByteCount_pos hw)
  rw [oneWindowSampleCount_eq hw, hbytes, hquot,
    PowersOfTwo.below_eq (PowersOfTwo.above_isPowerOfTwo s)]

/-- The two sizes are consistent exactly where one sample of every window fits. -/
theorem sizedConsistently_iff (hw : 1 ≤ windowCount) :
    SizedConsistently dataWidth byteCount windowCount ↔
      windowCount * oneSampleByteCount dataWidth ≤ byteCount := by
  constructor
  · intro h
    by_contra hnot
    obtain ⟨n, hn, hzero⟩ := h.noneFits ((exists_fits_iff hw).not.mpr hnot)
    exact hzero (oneWindowSampleCount_pos hw hn)
  · intro h
    have hfits := (exists_fits_iff hw).mpr h
    refine ⟨fun _ => ?_, fun hnone => absurd hfits hnone, fun s _ => ?_⟩
    · exact ⟨_, oneWindowSampleCount_eq hw, oneWindowSampleCount_isGreatest hw hfits⟩
    · exact ⟨_, oneWindowSampleCount_byteCount hw s, PowersOfTwo.le_above s⟩

theorem sizedConsistently_iff_twoWindows :
    1 ≤ 2 ∧ (SizedConsistently 600 1000 2 ↔ 2 * oneSampleByteCount 600 ≤ 1000) :=
  ⟨by decide, sizedConsistently_iff (by decide)⟩

/-- No bytes hold no sample, but the code answers one. -/
theorem not_sizedConsistently_noBytes : ¬ SizedConsistently 8 0 1 := by
  intro h
  have hnone : ¬ ∃ n, Fits 8 0 1 n := by
    rintro ⟨n, hn, hle⟩
    rw [byteCount_of_isPowerOfTwo hn] at hle
    have hn := Nat.pos_of_isPowerOfTwo hn
    simp only [oneSampleByteCount, calculateDataSampleByteCount,
      externalTraceDataAlignmentBitCount] at hle
    omega
  obtain ⟨n, hn, hzero⟩ := h.noneFits hnone
  obtain rfl : 1 = n := Except.ok.inj hn
  exact hzero (by decide)

end Chipscopy.Upload
