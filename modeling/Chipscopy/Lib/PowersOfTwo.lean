import Mathlib

/-! Powers of two around a number

    The bit length of a number gives the greatest power of two below it and the least one above
    it. Both are stated as adjunctions with the embedding of the powers of two. -/

namespace PowersOfTwo

/-- Greatest power of two not above a positive number. -/
def below (n : ℕ) : ℕ := 1 <<< (n.size - 1)

/-- Least power of two not below a number. -/
def above (n : ℕ) : ℕ := 1 <<< (n - 1).size

theorem below_isPowerOfTwo (n : ℕ) : (below n).isPowerOfTwo := ⟨n.size - 1, Nat.one_shiftLeft _⟩

theorem above_isPowerOfTwo (n : ℕ) : (above n).isPowerOfTwo := ⟨(n - 1).size, Nat.one_shiftLeft _⟩

theorem le_below_iff {m n : ℕ} (hm : m.isPowerOfTwo) (hn : 0 < n) : m ≤ below n ↔ m ≤ n := by
  obtain ⟨k, rfl⟩ := hm
  have hsize : 0 < n.size := Nat.size_pos.mpr hn
  rw [below, Nat.one_shiftLeft, Nat.pow_le_pow_iff_right (by decide), ← Nat.lt_size]
  omega

theorem above_le_iff {m n : ℕ} (hm : m.isPowerOfTwo) : above n ≤ m ↔ n ≤ m := by
  obtain ⟨k, rfl⟩ := hm
  have hpos : 0 < 2 ^ k := Nat.two_pow_pos k
  rw [above, Nat.one_shiftLeft, Nat.pow_le_pow_iff_right (by decide), Nat.size_le]
  omega

theorem below_le {n : ℕ} (hn : 0 < n) : below n ≤ n :=
  (le_below_iff (below_isPowerOfTwo n) hn).mp le_rfl

theorem le_above (n : ℕ) : n ≤ above n := (above_le_iff (above_isPowerOfTwo n)).mp le_rfl

/-- A power of two is the least one above itself. -/
theorem above_eq {m : ℕ} (hm : m.isPowerOfTwo) : above m = m :=
  le_antisymm ((above_le_iff hm).mpr le_rfl) (le_above m)

/-- A power of two is the greatest one below itself. -/
theorem below_eq {m : ℕ} (hm : m.isPowerOfTwo) : below m = m :=
  have hpos : 0 < m := Nat.pos_of_isPowerOfTwo hm
  le_antisymm (below_le hpos) ((le_below_iff hm hpos).mpr le_rfl)

end PowersOfTwo
