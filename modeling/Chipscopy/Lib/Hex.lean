import Chipscopy.Lib.Bits

/-! Hexadecimal digits

    Bits that start with the lowest one are read in groups of four, of which the last may be shorter,
    and each group is a digit of the number. Cells that are joined by a separator are found again
    if it is in none of them. -/

namespace Bits

/-! ### Digits of bits -/

/-- Values of groups of four bits, the lowest first. -/
def nibbles : List Bool → List ℕ
  | [] => []
  | a :: b :: c :: d :: bs => ofBits [a, b, c, d] :: nibbles bs
  | bs => [ofBits bs]

theorem length_nibbles : ∀ bs : List Bool, (nibbles bs).length = (bs.length + 3) / 4
  | [] => by simp [nibbles]
  | [_] => by simp [nibbles]
  | [_, _] => by simp [nibbles]
  | [_, _, _] => by simp [nibbles]
  | _ :: _ :: _ :: _ :: bs => by
    rw [nibbles, List.length_cons, length_nibbles bs]
    simp only [List.length_cons]
    omega

theorem ofDigits_nibbles : ∀ bs : List Bool, Nat.ofDigits 16 (nibbles bs) = ofBits bs
  | [] => by simp [nibbles, ofBits]
  | [a] => by simp [nibbles]
  | [a, b] => by simp [nibbles]
  | [a, b, c] => by simp [nibbles]
  | a :: b :: c :: d :: bs => by
    rw [nibbles, Nat.ofDigits_cons, ofDigits_nibbles bs]
    simp only [ofBits]
    push_cast
    ring

theorem nibbles_lt : ∀ (bs : List Bool), ∀ d ∈ nibbles bs, d < 16
  | [] => by simp [nibbles]
  | [a] => by cases a <;> decide
  | [a, b] => by cases a <;> cases b <;> decide
  | [a, b, c] => by cases a <;> cases b <;> cases c <;> decide
  | a :: b :: c :: d :: bs => by
    refine List.forall_mem_cons.mpr ⟨?_, nibbles_lt bs⟩
    cases a <;> cases b <;> cases c <;> cases d <;> decide

/-- The digits 0 to 9 and A to F. -/
def hexChar (d : ℕ) : Char := "0123456789ABCDEF".toList.getD d '0'

/-- The value of a digit, of either case. -/
def hexDigit? (c : Char) : Option ℕ :=
  if '0' ≤ c ∧ c ≤ '9' then some (c.toNat - '0'.toNat)
  else if 'A' ≤ c ∧ c ≤ 'F' then some (c.toNat - 'A'.toNat + 10)
  else if 'a' ≤ c ∧ c ≤ 'f' then some (c.toNat - 'a'.toNat + 10)
  else none

theorem hexDigit_hexChar : ∀ d < 16, hexDigit? (hexChar d) = some d := by decide

/-- The number that a text of hexadecimal digits stands for. -/
def hexNumber? (s : List Char) : Option ℕ :=
  s.foldlM (fun n c => (hexDigit? c).map (16 * n + ·)) 0

theorem hexNumber_reverse_map : ∀ {ds : List ℕ}, (∀ d ∈ ds, d < 16) →
    hexNumber? (ds.map hexChar).reverse = some (Nat.ofDigits 16 ds)
  | [], _ => rfl
  | d :: ds, h => by
    obtain ⟨hd, hds⟩ := List.forall_mem_cons.mp h
    rw [List.map_cons, List.reverse_cons, hexNumber?, List.foldlM_append, ← hexNumber?,
      hexNumber_reverse_map hds, Nat.ofDigits_cons]
    simp [hexDigit_hexChar d hd, Nat.add_comm]

/-- The digits of bits make their number. -/
theorem hexNumber_nibbles (bs : List Bool) :
    hexNumber? ((nibbles bs).map hexChar).reverse = some (ofBits bs) := by
  rw [hexNumber_reverse_map (nibbles_lt bs), ofDigits_nibbles]

end Bits
