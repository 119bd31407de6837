import Chipscopy.Lib.Bits

/-! Integers as bytes

    An integer of any sign is masked as in two's complement: the low bits are those of the residue
    modulo a power of two. A number is written as so many bytes, in either order, and read back. -/

namespace Bits

/-- The residue modulo `2 ^ k`. -/
theorem toNat_emod_lt (n : ℤ) (k : ℕ) : (n % 2 ^ k).toNat < 2 ^ k := by
  have hlt := Int.emod_lt_of_pos n (show (0 : ℤ) < 2 ^ k by positivity)
  have hcast : (2 : ℤ) ^ k = ((2 ^ k : ℕ) : ℤ) := by push_cast; rfl
  omega

theorem natCast_toNat_emod (n : ℤ) (k : ℕ) : ((n % 2 ^ k).toNat : ℤ) = n % 2 ^ k :=
  Int.toNat_of_nonneg (Int.emod_nonneg n (by positivity))

/-- Residue of a negative integer. -/
theorem toNat_negSucc_emod (a k : ℕ) :
    ((Int.negSucc a) % 2 ^ k).toNat = 2 ^ k - (a % 2 ^ k + 1) := by
  have hpow : 0 < 2 ^ k := Nat.two_pow_pos k
  have hlt : a % 2 ^ k < 2 ^ k := Nat.mod_lt a hpow
  have hcast : (2 : ℤ) ^ k = ((2 ^ k : ℕ) : ℤ) := by push_cast; rfl
  have hmod : (a : ℤ) % ((2 ^ k : ℕ) : ℤ) = ((a % 2 ^ k : ℕ) : ℤ) := (Int.natCast_emod a _).symm
  rw [hcast, Int.negSucc_emod a (by exact_mod_cast hpow), hmod]
  omega

/-- A mask below `2 ^ k` keeps only bits below `k`. -/
theorem land_natCast (n : ℤ) {m k : ℕ} (hm : m < 2 ^ k) :
    n.land m = (((n % 2 ^ k).toNat &&& m : ℕ) : ℤ) := by
  have hbit : ∀ i, m.testBit i = true → i < k := by
    intro i hi
    by_contra hk
    have hle : 2 ^ k ≤ 2 ^ i := Nat.pow_le_pow_right (by decide) (not_lt.mp hk)
    rw [Nat.testBit_lt_two_pow (hm.trans_le hle)] at hi
    exact nomatch hi
  cases n with
  | ofNat a =>
    have hmod : ((Int.ofNat a) % 2 ^ k).toNat = a % 2 ^ k := by
      rw [Int.ofNat_eq_natCast]
      exact_mod_cast Int.toNat_natCast (a % 2 ^ k)
    rw [hmod]
    refine congrArg Int.ofNat (Nat.eq_of_testBit_eq fun i => ?_)
    rw [Nat.testBit_and, Nat.testBit_and, Nat.testBit_mod_two_pow]
    cases hi : m.testBit i with
    | false => simp
    | true => simp [hbit i hi]
  | negSucc a =>
    have hlt : a % 2 ^ k < 2 ^ k := Nat.mod_lt a (Nat.two_pow_pos k)
    have hldiff (i : ℕ) : (Nat.ldiff m a).testBit i = (m.testBit i && !a.testBit i) :=
      Nat.testBit_ldiff m a i
    rw [toNat_negSucc_emod]
    refine congrArg Int.ofNat (Nat.eq_of_testBit_eq fun i => (hldiff i).trans ?_)
    rw [Nat.testBit_and, Nat.testBit_two_pow_sub_succ hlt, Nat.testBit_mod_two_pow]
    cases hi : m.testBit i with
    | false => simp
    | true => simp [hbit i hi]

/-- `n & ((1 << size) - 1)`. -/
theorem land_mask (n : ℤ) (size : ℕ) :
    n.land ((1 : ℤ) <<< size - 1) = ((n % 2 ^ size).toNat : ℤ) := by
  have hmask : (1 : ℤ) <<< size - 1 = ((2 ^ size - 1 : ℕ) : ℤ) := by
    rw [Int.shiftLeft_eq]
    push_cast [Nat.one_le_two_pow]
    ring
  rw [hmask, land_natCast n (Nat.sub_lt (Nat.two_pow_pos size) Nat.one_pos),
    Nat.and_two_pow_sub_one_eq_mod, Nat.mod_eq_of_lt (toNat_emod_lt n size)]

/-! ### Numbers as bytes -/

/-- So many bytes of a number, least significant first. -/
def littleEndian : ℕ → ℕ → List UInt8
  | 0, _ => []
  | length + 1, n => UInt8.ofNat n :: littleEndian length (n / 256)

@[simp] theorem length_littleEndian : ∀ length n : ℕ, (littleEndian length n).length = length
  | 0, _ => rfl
  | length + 1, n => congrArg Nat.succ (length_littleEndian length (n / 256))

theorem fromBytes_littleEndian : ∀ length n : ℕ,
    fromBytes (littleEndian length n) = n % 256 ^ length
  | 0, n => (Nat.mod_one n).symm
  | length + 1, n => by
    have hbyte : (UInt8.ofNat n).toNat = n % 256 := UInt8.toNat_ofNat'
    rw [littleEndian, fromBytes, fromBytes_littleEndian length, hbyte, pow_succ' 256 length,
      Nat.mod_mul]

theorem littleEndian_eq_map : ∀ length n : ℕ,
    littleEndian length n = (List.range length).map fun i => UInt8.ofNat (n / 256 ^ i)
  | 0, _ => rfl
  | length + 1, n => by
    rw [littleEndian, littleEndian_eq_map length, List.range_succ_eq_map, List.map_cons,
      List.map_map, pow_zero, Nat.div_one]
    congr 1
    refine List.map_congr_left fun i _ => ?_
    rw [Function.comp_apply, pow_succ', Nat.div_div_eq_div_mul]

theorem fromBytes_lt : ∀ bs : List UInt8, fromBytes bs < 256 ^ bs.length
  | [] => Nat.one_pos
  | b :: bs => by
    have hb : b.toNat < 256 := b.toNat_lt
    have hbs := fromBytes_lt bs
    rw [fromBytes, List.length_cons, pow_succ']
    omega

/-- A buffer is the bytes of its number. -/
theorem littleEndian_fromBytes : ∀ bs : List UInt8, littleEndian bs.length (fromBytes bs) = bs
  | [] => rfl
  | b :: bs => by
    have hb : b.toNat < 256 := b.toNat_lt
    have hdiv : (b.toNat + 256 * fromBytes bs) / 256 = fromBytes bs := by omega
    have hmod : UInt8.ofNat (b.toNat + 256 * fromBytes bs) = b := by
      refine UInt8.toNat_inj.mp ?_
      rw [UInt8.toNat_ofNat']
      omega
    rw [List.length_cons, littleEndian, fromBytes, hdiv, hmod, littleEndian_fromBytes bs]

/-- One byte more at the end. -/
theorem fromBytes_append_singleton : ∀ (bs : List UInt8) (b : UInt8),
    fromBytes (bs ++ [b]) = fromBytes bs ||| b.toNat <<< (bs.length * 8)
  | bs, b => by
    have hpow : 256 ^ bs.length = 2 ^ (bs.length * 8) := by
      rw [Nat.mul_comm, pow_mul]
      norm_num
    have hlt : fromBytes bs < 2 ^ (bs.length * 8) := hpow ▸ fromBytes_lt bs
    have hsum : ∀ cs : List UInt8,
        fromBytes (cs ++ [b]) = fromBytes cs + 256 ^ cs.length * b.toNat := by
      intro cs
      induction cs with
      | nil => simp [fromBytes]
      | cons c cs ih =>
        rw [List.cons_append, fromBytes, fromBytes, ih, List.length_cons, pow_succ']
        ring
    rw [hsum, hpow, Nat.or_comm, ← Nat.shiftLeft_add_eq_or_of_lt hlt, Nat.shiftLeft_eq,
      Nat.add_comm, Nat.mul_comm]

/-- `(n & (0xFF << (i * 8))) >> (i * 8)` of an integer of any sign. -/
theorem land_byte (n : ℤ) {i k : ℕ} (hi : i < k) :
    (n.land ((0xFF : ℤ) <<< (i * 8))) >>> (i * 8) =
      ((UInt8.ofNat ((n % 2 ^ (8 * k)).toNat / 256 ^ i)).toNat : ℤ) := by
  have hpow : 256 ^ i = 2 ^ (i * 8) := by
    rw [Nat.mul_comm, pow_mul]
    norm_num
  have hmask : ((0xFF : ℤ) <<< (i * 8)) = ((255 <<< (i * 8) : ℕ) : ℤ) := by
    rw [Int.shiftLeft_eq, Nat.shiftLeft_eq]
    push_cast
    rfl
  have hlt : 255 <<< (i * 8) < 2 ^ (8 * k) := by
    rw [Nat.shiftLeft_eq]
    calc 255 * 2 ^ (i * 8) < 2 ^ 8 * 2 ^ (i * 8) :=
          Nat.mul_lt_mul_of_pos_right (by decide) (Nat.two_pow_pos _)
      _ = 2 ^ (8 + i * 8) := (pow_add 2 8 (i * 8)).symm
      _ ≤ 2 ^ (8 * k) := Nat.pow_le_pow_right (by decide) (by omega)
  rw [hmask, land_natCast n hlt]
  refine congrArg Int.ofNat (?_ : (_ &&& _) >>> _ = _)
  rw [Nat.shiftRight_and_distrib, Nat.shiftLeft_shiftRight, Nat.shiftRight_eq_div_pow, ← hpow,
    UInt8.toNat_ofNat', show 255 = 2 ^ 8 - 1 from rfl, Nat.and_two_pow_sub_one_eq_mod]

/-- Order of the bytes of a number in memory. -/
inductive ByteOrder
  | little
  | big
  deriving DecidableEq, Repr

/-- `n.to_bytes(length, byteorder)`. -/
def toBytes (n length : ℕ) (byteorder : ByteOrder) : Except Py.Error (List UInt8) :=
  if n < 256 ^ length then
    .ok (match byteorder with
      | .little => littleEndian length n
      | .big => (littleEndian length n).reverse)
  else .error (.overflowError "int too big to convert")

theorem toBytes_little {n length : ℕ} (h : n < 256 ^ length) :
    toBytes n length .little = .ok (littleEndian length n) := if_pos h

end Bits
