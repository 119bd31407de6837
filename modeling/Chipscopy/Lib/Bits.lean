import Chipscopy.Lib.Records

/-! Bits of byte buffers and of binary numerals

    A buffer numbers its bits from the least significant bit of its first byte, so bit `i` lies in
    byte `i / 8`. A binary numeral is written most significant digit first; reversed, its character
    at position `i` is bit `i` of the number, and bits read that way are the number again. -/

namespace Bits

/-- Bit of a buffer. -/
def bit (bs : List UInt8) (i : ℕ) : Bool := (bs.getD (i / 8) 0).toNat.testBit (i % 8)

/-- `int.from_bytes(bs, "little")`. -/
def fromBytes : List UInt8 → ℕ
  | [] => 0
  | b :: bs => b.toNat + 256 * fromBytes bs

/-- Number of a list of bits, least significant first. -/
def ofBits : List Bool → ℕ
  | [] => 0
  | b :: bs => b.toNat + 2 * ofBits bs

theorem testBit_fromBytes : ∀ (bs : List UInt8) (i : ℕ), (fromBytes bs).testBit i = bit bs i
  | [], i => by simp [fromBytes, bit]
  | b :: bs, i => by
    have hb : b.toNat < 2 ^ 8 := b.toNat_lt
    have hsum : fromBytes (b :: bs) = 2 ^ 8 * fromBytes bs + b.toNat := by
      rw [fromBytes]
      omega
    rw [hsum, Nat.testBit_two_pow_mul_add _ hb]
    split
    · next hi => simp [bit, Nat.div_eq_of_lt hi, Nat.mod_eq_of_lt hi]
    · next hi =>
      have hdiv : i / 8 = (i - 8) / 8 + 1 := by omega
      have hmod : i % 8 = (i - 8) % 8 := by omega
      rw [testBit_fromBytes bs, bit, bit, hdiv, hmod, List.getD_cons_succ]

theorem testBit_ofBits : ∀ (bs : List Bool) (i : ℕ), (ofBits bs).testBit i = bs.getD i false
  | [], i => by simp [ofBits]
  | b :: bs, 0 => by cases b <;> simp [ofBits, Nat.testBit_zero, Nat.add_mod]
  | b :: bs, i + 1 => by
    have hhalf : (ofBits (b :: bs)) / 2 = ofBits bs := by
      rw [ofBits]
      cases b <;> simp
      omega
    rw [Nat.testBit_succ, hhalf, testBit_ofBits bs i, List.getD_cons_succ]

/-- A number is made of its bits. -/
theorem ofBits_map_testBit {n width : ℕ} (h : n < 2 ^ width) :
    ofBits ((List.range width).map n.testBit) = n := by
  refine Nat.eq_of_testBit_eq fun i => ?_
  rw [testBit_ofBits, List.getD_eq_getElem?_getD, List.getElem?_map]
  rcases Nat.lt_or_ge i width with hi | hi
  · rw [List.getElem?_range hi]
    rfl
  · rw [List.getElem?_eq_none (by simpa using hi),
      Nat.testBit_lt_two_pow (h.trans_le (Nat.pow_le_pow_right (by decide) hi))]
    rfl

/-- Testing a bit with a mask. -/
theorem and_shiftLeft_bne_zero (n i : ℕ) : (n &&& 1 <<< i != 0) = n.testBit i := by
  rw [Nat.one_shiftLeft, Nat.and_two_pow]
  cases n.testBit i <;> simp

/-- A buffer with one bit stored. -/
def assign (bs : List UInt8) (i : ℕ) (b : Bool) : List UInt8 :=
  let mask := UInt8.ofNat (1 <<< (i % 8))
  let byte := bs.getD (i / 8) 0
  bs.set (i / 8) (if b then byte ||| mask else byte &&& ~~~mask)

@[simp] theorem length_assign (bs : List UInt8) (i : ℕ) (b : Bool) :
    (assign bs i b).length = bs.length := List.length_set

/-- One bit of a byte with a bit stored. -/
theorem testBit_assignByte (byte : UInt8) (b : Bool) {r s : ℕ} (hr : r < 8) (hs : s < 8) :
    (if b then byte ||| UInt8.ofNat (1 <<< r) else byte &&& ~~~UInt8.ofNat (1 <<< r)).toNat.testBit s =
      if s = r then b else byte.toNat.testBit s := by
  have hmask : (UInt8.ofNat (1 <<< r)).toNat = 2 ^ r := by
    rw [Nat.one_shiftLeft]
    exact UInt8.toNat_ofNat_of_lt' (Nat.pow_lt_pow_right (by decide) hr)
  cases b
  · have hnot : (~~~UInt8.ofNat (1 <<< r)).toNat.testBit s = !(2 ^ r).testBit s := by
      rw [← UInt8.toNat_toBitVec, UInt8.toBitVec_not, BitVec.testBit_toNat, BitVec.getLsbD_not,
        decide_eq_true hs, Bool.true_and, ← BitVec.testBit_toNat, UInt8.toNat_toBitVec, hmask]
    simp only [Bool.false_eq_true, if_false, UInt8.toNat_and, Nat.testBit_and, hnot,
      Nat.testBit_two_pow]
    by_cases h : r = s <;> simp [h, eq_comm]
  · simp only [if_true, UInt8.toNat_or, Nat.testBit_or, hmask, Nat.testBit_two_pow]
    by_cases h : r = s <;> simp [h, eq_comm]

/-- The stored bit is the one that changes. -/
theorem bit_assign {bs : List UInt8} {i : ℕ} (hi : i / 8 < bs.length) (b : Bool) (j : ℕ) :
    bit (assign bs i b) j = if j = i then b else bit bs j := by
  rw [bit, assign, List.getD_eq_getElem?_getD, List.getElem?_set]
  by_cases hbyte : i / 8 = j / 8
  · rw [if_pos hbyte, if_pos hi, Option.getD_some, testBit_assignByte _ _ (Nat.mod_lt _ (by decide))
      (Nat.mod_lt _ (by decide)), bit, hbyte]
    exact if_congr (by omega) rfl rfl
  · rw [if_neg hbyte, if_neg (by rintro rfl; exact hbyte rfl), bit, List.getD_eq_getElem?_getD]

/-- A bit inside a segment of a buffer. -/
theorem bit_segment (data : List UInt8) {a b j : ℕ} (hj : j < 8 * b) :
    bit (Py.segment data a (a + b)) j = bit data (8 * a + j) := by
  have hdiv : (8 * a + j) / 8 = a + j / 8 := by omega
  have hmod : (8 * a + j) % 8 = j % 8 := by omega
  rw [bit, bit, hdiv, hmod, List.getD_eq_getElem?_getD, List.getD_eq_getElem?_getD,
    Py.getElem?_segment, if_pos (by omega)]

/-- A segment has no bits behind its last byte. -/
theorem bit_segment_of_le (data : List UInt8) {a b j : ℕ} (hj : 8 * b ≤ j) :
    bit (Py.segment data a (a + b)) j = false := by
  have hbyte : ¬ a + j / 8 < a + b := by omega
  rw [bit, List.getD_eq_getElem?_getD, Py.getElem?_segment, if_neg hbyte]
  exact Nat.zero_testBit _

theorem bit_take (data : List UInt8) {n j : ℕ} (hj : j < 8 * n) :
    bit (data.take n) j = bit data j := by
  have hlt : j / 8 < n := by omega
  rw [bit, bit, List.getD_eq_getElem?_getD, List.getD_eq_getElem?_getD, List.getElem?_take,
    if_pos hlt]

/-- A bit of a record. -/
theorem bit_flatten {m : ℕ} {rows : List (List UInt8)} (h : Records.Rows m rows) {i j : ℕ}
    (hj : j < 8 * m) {row : List UInt8} (hi : rows[i]? = some row) :
    bit rows.flatten (8 * (i * m) + j) = bit row j := by
  have hdiv : (8 * (i * m) + j) / 8 = i * m + j / 8 := by omega
  have hmod : (8 * (i * m) + j) % 8 = j % 8 := by omega
  rw [bit, bit, hdiv, hmod, List.getD_eq_getElem?_getD, List.getD_eq_getElem?_getD,
    h.getElem?_flatten (by omega) hi]

/-! ### Binary numerals -/

/-- Digit of a bit. -/
def bitChar (b : Bool) : Char := if b then '1' else '0'

/-- `f"{n:0{width}b}"`. -/
def formatBin (width n : ℕ) : List Char :=
  List.replicate (width - (Nat.toDigits 2 n).length) '0' ++ Nat.toDigits 2 n

/-- `int(s, 2)` of a string of digits. -/
def parseBin (s : List Char) : Except Py.Error ℕ :=
  if s ≠ [] ∧ ∀ c ∈ s, c = '0' ∨ c = '1' then .ok (Nat.ofDigitChars 2 s 0)
  else .error (.valueError s!"invalid literal for int() with base 2: '{String.ofList s}'")

theorem reverse_toDigits (n : ℕ) : (Nat.toDigits 2 n).reverse =
    (List.range (Nat.toDigits 2 n).length).map fun i => bitChar (n.testBit i) := by
  induction n using Nat.strongRecOn with
  | _ n ih =>
    rw [Nat.toDigits_eq_if (by decide)]
    split
    · next hn => interval_cases n <;> rfl
    · next hn =>
      have hlow : Nat.digitChar (n % 2) = bitChar (n.testBit 0) := by
        rw [Nat.testBit_zero]
        rcases Nat.mod_two_eq_zero_or_one n with h | h <;> rw [h] <;> rfl
      have hhigh : (fun i => bitChar (n.testBit (i + 1))) = fun i => bitChar ((n / 2).testBit i) := by
        funext i
        rw [Nat.testBit_succ]
      rw [List.reverse_append, List.length_append, List.length_singleton, List.range_succ_eq_map,
        List.map_cons, List.map_map, ih (n / 2) (by omega)]
      simp only [List.reverse_singleton, List.singleton_append, hlow]
      exact congrArg _ (congrArg (List.map · _) hhigh.symm)

theorem le_length_formatBin (width n : ℕ) : width ≤ (formatBin width n).length := by
  rw [formatBin, List.length_append, List.length_replicate]
  omega

/-- Reversed, a padded numeral has bit `i` at position `i`. -/
theorem reverse_formatBin (width n : ℕ) : (formatBin width n).reverse =
    (List.range (formatBin width n).length).map fun i => bitChar (n.testBit i) := by
  have hzero : ∀ i, bitChar (n.testBit ((Nat.toDigits 2 n).length + i)) = '0' := fun i => by
    have hn : n < 2 ^ (Nat.toDigits 2 n).length :=
      (Nat.length_toDigits_le_iff (by decide) Nat.length_toDigits_pos).mp le_rfl
    rw [Nat.testBit_lt_two_pow (hn.trans_le (Nat.pow_le_pow_right (by decide) (by omega)))]
    rfl
  rw [formatBin, List.reverse_append, List.reverse_replicate, reverse_toDigits, List.length_append,
    List.length_replicate, Nat.add_comm, List.range_add, List.map_append, List.map_map]
  refine congrArg _ (List.eq_replicate_iff.mpr ⟨by simp, fun c hc => ?_⟩).symm
  obtain ⟨i, -, rfl⟩ := List.mem_map.mp hc
  exact hzero i

/-- A stretch of the reversed numeral inside its width. -/
theorem segment_reverse_formatBin (n : ℕ) {width index length : ℕ} (h : index + length ≤ width) :
    Py.segment (formatBin width n).reverse index (index + length) =
      (List.range length).map fun j => bitChar (n.testBit (index + j)) := by
  have hlen := le_length_formatBin width n
  rw [Py.segment, reverse_formatBin]
  refine List.ext_getElem (by simp; omega) fun i hi _ => ?_
  simp

theorem ofDigitChars_reverse_bits : ∀ (bs : List Bool),
    Nat.ofDigitChars 2 (bs.map bitChar).reverse 0 = ofBits bs
  | [] => rfl
  | b :: bs => by
    rw [List.map_cons, List.reverse_cons, Nat.ofDigitChars_append, ofDigitChars_reverse_bits bs,
      ofBits, Nat.ofDigitChars_cons, Nat.ofDigitChars_nil]
    cases b <;> simp [bitChar]
    omega

/-- Bits written as digits are read back. -/
theorem parseBin_reverse_bits {bs : List Bool} (h : bs ≠ []) :
    parseBin (bs.map bitChar).reverse = .ok (ofBits bs) := by
  have hdigits : ∀ c ∈ (bs.map bitChar).reverse, c = '0' ∨ c = '1' := by
    intro c hc
    obtain ⟨b, -, rfl⟩ := List.mem_map.mp (List.mem_reverse.mp hc)
    cases b
    · exact Or.inl rfl
    · exact Or.inr rfl
  rw [parseBin, if_pos ⟨by simpa using h, hdigits⟩, ofDigitChars_reverse_bits]

end Bits
