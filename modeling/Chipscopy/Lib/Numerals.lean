import Chipscopy.Lib.Bits

/-! Strings of binary digits

    Digits are read most significant first. Dropping the first digits leaves the number modulo a
    power of two, and two strings of one length that stand for one number are the same string. -/

namespace Bits

/-- Only the characters `0` and `1`. -/
def Binary (s : List Char) : Prop := ∀ ch ∈ s, ch = '0' ∨ ch = '1'

theorem binary_nil : Binary [] := by simp [Binary]

@[simp] theorem binary_cons {ch : Char} {s : List Char} :
    Binary (ch :: s) ↔ (ch = '0' ∨ ch = '1') ∧ Binary s := by
  simp [Binary]

@[simp] theorem binary_append {s t : List Char} : Binary (s ++ t) ↔ Binary s ∧ Binary t := by
  simp [Binary, or_imp, forall_and]

theorem Binary.drop {s : List Char} (h : Binary s) (k : ℕ) : Binary (s.drop k) :=
  fun ch hch => h ch (List.mem_of_mem_drop hch)

/-- The number of a string read after the number `init`. -/
theorem ofDigitChars_init (s : List Char) (init : ℕ) :
    Nat.ofDigitChars 2 s init = 2 ^ s.length * init + Nat.ofDigitChars 2 s 0 := by
  induction s generalizing init with
  | nil => simp
  | cons ch s ih =>
    rw [Nat.ofDigitChars_cons, Nat.ofDigitChars_cons, ih, ih (2 * 0 + _), List.length_cons]
    ring

theorem ofDigitChars_append_zero (s t : List Char) : Nat.ofDigitChars 2 (s ++ t) 0 =
    2 ^ t.length * Nat.ofDigitChars 2 s 0 + Nat.ofDigitChars 2 t 0 := by
  rw [Nat.ofDigitChars_append, ofDigitChars_init]

theorem Binary.number_cons {s : List Char} {ch : Char} (h : ch = '0' ∨ ch = '1') :
    Nat.ofDigitChars 2 (ch :: s) 0 =
      2 ^ s.length * (if ch = '1' then 1 else 0) + Nat.ofDigitChars 2 s 0 := by
  rw [Nat.ofDigitChars_cons, ofDigitChars_init]
  rcases h with rfl | rfl <;> simp

theorem Binary.number_lt {s : List Char} (h : Binary s) :
    Nat.ofDigitChars 2 s 0 < 2 ^ s.length := by
  induction s with
  | nil => simp
  | cons ch s ih =>
    obtain ⟨hch, hs⟩ := binary_cons.mp h
    have hlt := ih hs
    rw [Binary.number_cons hch, List.length_cons, pow_succ]
    split <;> omega

theorem Binary.number_drop {s : List Char} (h : Binary s) (k : ℕ) :
    Nat.ofDigitChars 2 (s.drop k) 0 = Nat.ofDigitChars 2 s 0 % 2 ^ (s.length - k) := by
  have hsplit := ofDigitChars_append_zero (s.take k) (s.drop k)
  have hlt := (h.drop k).number_lt
  rw [List.take_append_drop] at hsplit
  rw [hsplit, List.length_drop] at *
  rw [Nat.mul_add_mod, Nat.mod_eq_of_lt hlt]

/-- Strings of one length are told apart by their numbers. -/
theorem Binary.eq_of_number_eq {s t : List Char} (hs : Binary s) (ht : Binary t)
    (hlen : s.length = t.length)
    (hnum : Nat.ofDigitChars 2 s 0 = Nat.ofDigitChars 2 t 0) : s = t := by
  induction s generalizing t with
  | nil => simpa [eq_comm] using hlen
  | cons a s ih =>
    rcases t with - | ⟨b, t⟩
    · simp at hlen
    · have hlen' : s.length = t.length := by simpa using hlen
      obtain ⟨ha, hs'⟩ := binary_cons.mp hs
      obtain ⟨hb, ht'⟩ := binary_cons.mp ht
      have hlts := hs'.number_lt
      have hltt := ht'.number_lt
      rw [Binary.number_cons ha, Binary.number_cons hb, hlen'] at hnum
      rw [hlen'] at hlts
      rcases ha with rfl | rfl <;> rcases hb with rfl | rfl <;> simp at hnum
      · rw [ih hs' ht' hlen' hnum]
      · omega
      · omega
      · rw [ih hs' ht' hlen' hnum]

/-! ### Formatted numbers -/

theorem binary_formatBin (width n : ℕ) : Binary (formatBin width n) := by
  intro ch hch
  have hrev : ch ∈ (formatBin width n).reverse := by simpa using hch
  rw [reverse_formatBin] at hrev
  obtain ⟨i, -, rfl⟩ := List.mem_map.mp hrev
  cases n.testBit i <;> simp [bitChar]

theorem number_formatBin (width n : ℕ) : Nat.ofDigitChars 2 (formatBin width n) 0 = n := by
  rw [formatBin, Nat.ofDigitChars_append, Nat.ofDigitChars_replicate_zero, Nat.mul_zero,
    Nat.ofDigitChars_toDigits (by decide) (by decide)]

theorem length_formatBin_eq_iff {width n : ℕ} (hwidth : 0 < width) :
    (formatBin width n).length = width ↔ n < 2 ^ width := by
  rw [formatBin, List.length_append, List.length_replicate,
    ← Nat.length_toDigits_le_iff (by decide) hwidth]
  omega

/-- `f"{n:0{width}b}"`, where the sign takes one of the places. -/
def formatSigned (width : ℕ) (n : ℤ) : List Char :=
  if n < 0 then '-' :: formatBin (width - 1) n.natAbs else formatBin width n.natAbs

/-- `s.strip(chars)`. -/
def strip (chars : List Char) (s : List Char) : List Char :=
  (s.dropWhile (· ∈ chars)).rdropWhile (· ∈ chars)

end Bits
