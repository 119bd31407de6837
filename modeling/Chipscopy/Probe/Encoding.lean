import Chipscopy.Lib.Numerals
import Chipscopy.Probe.Value

/-! Compare values as match characters

    An integer is written in two's complement, but a negative one without the leading zeros, so
    that those below `-2^(w-1)` come out too short. A name is looked up after the test for a
    hexadecimal string, and a member is checked only against an enum class. -/

namespace Chipscopy.Probe

open Waveform (EnumMeta)

/-- Number of an integer, of an enum member or of the name of one. -/
def number? (enumDef : Option EnumMeta) : Value → Option ℤ
  | .int n => some n
  | .member _ value => some value
  | .str s => enumDef.bind fun enumDef => Py.lookup s enumDef.members

/-- `w` characters, each `0` or `1`, that stand for a number modulo `2 ^ w`. -/
structure Denotes (w : ℕ) (v : ℤ) (chars : List Char) : Prop where
  length_eq : chars.length = w
  binary : Bits.Binary chars
  number_eq : (Nat.ofDigitChars 2 chars 0 : ℤ) = v % 2 ^ w

theorem Denotes.eq_of_emod_eq {w : ℕ} {v v' : ℤ} {chars chars' : List Char} (h : Denotes w v chars)
    (h' : Denotes w v' chars') (hmod : v % 2 ^ w = v' % 2 ^ w) : chars = chars' := by
  refine h.binary.eq_of_number_eq h'.binary (h.length_eq.trans h'.length_eq.symm) ?_
  have hnum := h.number_eq.trans (hmod.trans h'.number_eq.symm)
  exact_mod_cast hnum

/-! ### Integers -/

/-- Match characters of an integer. -/
def intChars (w : ℕ) (n : ℤ) : List Char :=
  if n ≥ 0 then Bits.formatBin w n.toNat else (bin (2 ^ w + n)).drop 2

/-- From the least negative number of `w` bits to the greatest without sign. The second case is
    written `0`. -/
def Fits (w : ℕ) (v : ℤ) : Prop := (-2 ^ (w - 1) ≤ v ∨ w = 1 ∧ v = -2) ∧ v < 2 ^ w

theorem binary_toDigits (n : ℕ) : Bits.Binary (Nat.toDigits 2 n) := by
  have h := Bits.binary_formatBin 0 n
  rwa [Bits.formatBin, Nat.zero_sub, List.replicate_zero, List.nil_append] at h

theorem length_toDigits_eq_iff {w n : ℕ} (hw : 0 < w) (hn : n < 2 ^ w) :
    (Nat.toDigits 2 n).length = w ↔ 2 ^ (w - 1) ≤ n ∨ w = 1 ∧ n = 0 := by
  have hle : (Nat.toDigits 2 n).length ≤ w := (Nat.length_toDigits_le_iff (by decide) hw).mpr hn
  by_cases hw1 : w = 1
  · subst hw1
    have hpos : 0 < (Nat.toDigits 2 n).length := Nat.length_toDigits_pos
    rw [Nat.sub_self, pow_zero]
    omega
  · have hshort : (Nat.toDigits 2 n).length ≤ w - 1 ↔ n < 2 ^ (w - 1) :=
      Nat.length_toDigits_le_iff (by decide) (by omega)
    have hpow : 1 ≤ 2 ^ (w - 1) := Nat.one_le_two_pow
    omega

theorem drop_bin_natCast (n : ℕ) : (bin n).drop 2 = Nat.toDigits 2 n := by
  rw [bin, if_neg (by omega), List.nil_append, Int.natAbs_natCast, List.drop_succ_cons,
    List.drop_succ_cons, List.drop_zero]

theorem denotes_formatBin_iff {w n : ℕ} (hw : 0 < w) :
    Denotes w n (Bits.formatBin w n) ↔ n < 2 ^ w := by
  constructor
  · intro h
    exact (Bits.length_formatBin_eq_iff hw).mp h.length_eq
  · intro h
    refine ⟨(Bits.length_formatBin_eq_iff hw).mpr h, Bits.binary_formatBin w n, ?_⟩
    rw [Bits.number_formatBin, Int.emod_eq_of_lt (by omega) (by exact_mod_cast h)]

theorem denotes_toDigits_iff {w n : ℕ} {v : ℤ} (hw : 0 < w) (hv : v < 0) (hn : (n : ℤ) = 2 ^ w + v) :
    Denotes w v (Nat.toDigits 2 n) ↔ 2 ^ (w - 1) ≤ n ∨ w = 1 ∧ n = 0 := by
  have hlt : n < 2 ^ w := by
    have : (n : ℤ) < 2 ^ w := by omega
    exact_mod_cast this
  rw [← length_toDigits_eq_iff hw hlt]
  constructor
  · exact Denotes.length_eq
  · intro h
    refine ⟨h, binary_toDigits n, ?_⟩
    have hmod : v % 2 ^ w = (2 ^ w + v) % 2 ^ w := by simp
    rw [Nat.ofDigitChars_toDigits (by decide) (by decide), hmod, ← hn,
      Int.emod_eq_of_lt (by omega) (by exact_mod_cast hlt)]

theorem denotes_intChars_iff {w : ℕ} {v : ℤ} (hw : 0 < w) :
    Denotes w v (intChars w v) ↔ Fits w v := by
  have hpow : (2 : ℤ) ^ w = 2 * 2 ^ (w - 1) := by
    rw [← pow_succ', Nat.sub_add_cancel hw]
  have hpos : (1 : ℤ) ≤ 2 ^ (w - 1) := by
    exact_mod_cast Nat.one_le_two_pow
  rw [intChars, Fits]
  by_cases hv : v ≥ 0
  · obtain ⟨n, rfl⟩ := Int.eq_ofNat_of_zero_le hv
    rw [if_pos hv, Int.toNat_natCast, denotes_formatBin_iff hw]
    have hcast : (n : ℤ) < 2 ^ w ↔ n < 2 ^ w := by exact_mod_cast Iff.rfl
    omega
  · rw [if_neg hv]
    by_cases hsum : 2 ^ w + v < 0
    · -- `bin` writes a sign, and what is left of `-0b` is the letter.
      have hb : 'b' ∈ (bin (2 ^ w + v)).drop 2 := by simp [bin, hsum]
      constructor
      · intro h
        rcases h.binary 'b' hb with h | h <;> simp at h
      · omega
    · obtain ⟨n, hn⟩ := Int.eq_ofNat_of_zero_le (not_lt.mp hsum)
      have hcast : (2 : ℤ) ^ (w - 1) ≤ n ↔ 2 ^ (w - 1) ≤ n := by exact_mod_cast Iff.rfl
      rw [hn, drop_bin_natCast, denotes_toDigits_iff hw (by omega) hn.symm, ← hcast]
      constructor
      · rintro (h | ⟨rfl, rfl⟩)
        · omega
        · norm_num at *
          omega
      · rintro ⟨h | ⟨rfl, rfl⟩, -⟩
        · omega
        · norm_num at *
          omega

/-! ### Hexadecimal strings -/

/-- Lower case, without underscores. -/
def bare (chars : List Char) : List Char := (chars.map Char.toLower).filter (· ≠ '_')

def hexDigit? (ch : Char) : Option ℕ :=
  ['0', '1', '2', '3', '4', '5', '6', '7', '8', '9', 'a', 'b', 'c', 'd', 'e', 'f'].idxOf? ch

/-- Number of hexadecimal digits, none if one of them is a don't care. -/
def hexNumber? (digits : List Char) : Option ℕ :=
  digits.foldlM (fun n ch => (hexDigit? ch).map (16 * n + ·)) 0

def bitsOf (ch : Char) : List Char := (probeValueHexToBin ch).getD []

/-- The don't care and the sixteen digits. -/
def HexChar (ch : Char) : Prop := ch ∈ validHexChars ∧ ch ≠ '_'

/-- The table of match characters, digit by digit. -/
theorem bitsOf_table : ∀ ch ∈ validHexChars, ch = '_' ∨
    probeValueHexToBin ch = some (bitsOf ch) ∧ (bitsOf ch).length = 4 ∧
      (ch = 'x' ∧ (∀ bit ∈ bitsOf ch, bit = 'x') ∧ hexDigit? ch = none ∨
        (∀ bit ∈ bitsOf ch, bit = '0' ∨ bit = '1') ∧
          hexDigit? ch = some (Nat.ofDigitChars 2 (bitsOf ch) 0)) := by
  simp only [validHexChars, List.forall_mem_cons]
  simp [bitsOf, probeValueHexToBin, hexDigit?, List.idxOf?, List.findIdx?_cons,
    Nat.ofDigitChars_cons]

theorem HexChar.length_bits {ch : Char} (h : HexChar ch) : (bitsOf ch).length = 4 := by
  rcases bitsOf_table ch h.1 with h' | ⟨-, hlen, -⟩
  · exact absurd h' h.2
  · exact hlen

theorem HexChar.cases {ch : Char} (h : HexChar ch) : ch = 'x' ∧ hexDigit? ch = none ∨
    Bits.Binary (bitsOf ch) ∧ hexDigit? ch = some (Nat.ofDigitChars 2 (bitsOf ch) 0) := by
  rcases bitsOf_table ch h.1 with h' | ⟨-, -, ⟨hx, -, hnone⟩ | hdigit⟩
  · exact absurd h' h.2
  · exact Or.inl ⟨hx, hnone⟩
  · exact Or.inr hdigit

theorem length_flatMap_bits {digits : List Char} (h : ∀ ch ∈ digits, HexChar ch) :
    (digits.flatMap bitsOf).length = 4 * digits.length := by
  induction digits with
  | nil => rfl
  | cons ch digits ih =>
    rw [List.flatMap_cons, List.length_append, (h ch List.mem_cons_self).length_bits,
      ih fun ch hch => h ch (List.mem_cons_of_mem _ hch), List.length_cons]
    omega

/-- The don't care digits are the ones without a number. -/
theorem hexNumber_bits {digits : List Char} (h : ∀ ch ∈ digits, HexChar ch) (n : ℕ) :
    'x' ∈ digits ∧ digits.foldlM (fun n ch => (hexDigit? ch).map (16 * n + ·)) n = none ∨
      Bits.Binary (digits.flatMap bitsOf) ∧
        digits.foldlM (fun n ch => (hexDigit? ch).map (16 * n + ·)) n =
          some (Nat.ofDigitChars 2 (digits.flatMap bitsOf) n) := by
  induction digits generalizing n with
  | nil => exact Or.inr ⟨Bits.binary_nil, by simp⟩
  | cons ch digits ih =>
    have hch := h ch List.mem_cons_self
    have hdigits : ∀ ch ∈ digits, HexChar ch := fun ch hch => h ch (List.mem_cons_of_mem _ hch)
    rcases hch.cases with ⟨rfl, hnone⟩ | ⟨hbits, hsome⟩
    · exact Or.inl ⟨List.mem_cons_self, by simp [hnone]⟩
    · have hnum : Nat.ofDigitChars 2 ((ch :: digits).flatMap bitsOf) n =
          Nat.ofDigitChars 2 (digits.flatMap bitsOf)
            (16 * n + Nat.ofDigitChars 2 (bitsOf ch) 0) := by
        rw [List.flatMap_cons, Nat.ofDigitChars_append, Bits.ofDigitChars_init (bitsOf ch),
          hch.length_bits]
        norm_num
      rw [hnum]
      rcases ih hdigits (16 * n + Nat.ofDigitChars 2 (bitsOf ch) 0) with
        ⟨hmem, hfold⟩ | ⟨hbinary, hfold⟩
      · exact Or.inl ⟨List.mem_cons_of_mem _ hmem, by simpa [hsome] using hfold⟩
      · refine Or.inr ⟨?_, by simpa [hsome] using hfold⟩
        rw [List.flatMap_cons, Bits.binary_append]
        exact ⟨hbits, hbinary⟩

/-- A don't care digit keeps one of its bits when fewer than four are dropped. -/
theorem x_mem_drop {digits : List Char} {k : ℕ} (h : ∀ ch ∈ digits, HexChar ch) (hk : k < 4)
    (hx : 'x' ∈ digits) : 'x' ∈ (digits.flatMap bitsOf).drop k := by
  rcases digits with - | ⟨ch, digits⟩
  · simp at hx
  · rw [List.flatMap_cons, List.drop_append_of_le_length
      (by rw [(h ch List.mem_cons_self).length_bits]; omega), List.mem_append]
    rcases List.mem_cons.mp hx with rfl | hx
    · left
      interval_cases k <;> simp [bitsOf, probeValueHexToBin]
    · exact Or.inr (List.mem_flatMap.mpr ⟨'x', hx, by simp [bitsOf, probeValueHexToBin]⟩)

theorem denotes_hex_iff {digits : List Char} {w : ℕ} {v : ℤ} (h : ∀ ch ∈ digits, HexChar ch)
    (hlen : digits.length = (w + 3) / 4) :
    Denotes w v ((digits.flatMap bitsOf).drop (4 * digits.length - w)) ↔
      ∃ m, hexNumber? digits = some m ∧ (m : ℤ) % 2 ^ w = v % 2 ^ w := by
  have hbits := length_flatMap_bits h
  have hdrop : ((digits.flatMap bitsOf).drop (4 * digits.length - w)).length = w := by
    rw [List.length_drop, hbits]
    omega
  rcases hexNumber_bits h 0 with ⟨hx, hnone⟩ | ⟨hbinary, hsome⟩
  · constructor
    · intro hd
      rcases hd.binary 'x' (x_mem_drop h (by omega) hx) with h' | h' <;> simp at h'
    · rintro ⟨m, hm, -⟩
      rw [hexNumber?, hnone] at hm
      cases hm
  · have hnum := hbinary.number_drop (4 * digits.length - w)
    rw [hbits, show 4 * digits.length - (4 * digits.length - w) = w by omega] at hnum
    have hcast : (Nat.ofDigitChars 2 ((digits.flatMap bitsOf).drop (4 * digits.length - w)) 0 : ℤ) =
        (Nat.ofDigitChars 2 (digits.flatMap bitsOf) 0 : ℤ) % 2 ^ w := by
      rw [hnum]
      push_cast
      rfl
    constructor
    · intro hd
      exact ⟨_, hsome, hcast.symm.trans hd.number_eq⟩
    · rintro ⟨m, hm, hmod⟩
      obtain rfl : Nat.ofDigitChars 2 (digits.flatMap bitsOf) 0 = m := by
        simpa [hexNumber?, hsome] using hm
      exact ⟨hdrop, hbinary.drop _, hcast.trans hmod⟩

theorem hexToBinStr_eq {hexValue : List Char} {w : ℕ}
    (h : ∀ ch ∈ bare hexValue, HexChar ch) (hw : w ≤ 4 * (bare hexValue).length) :
    hexToBinStr hexValue w = .ok (((bare hexValue).flatMap bitsOf).drop
      (4 * (bare hexValue).length - w)) := by
  have hgroups : Py.mapExcept hexCharToBin (hexValue.map Char.toLower) =
      .ok ((hexValue.map Char.toLower).map bitsOf) := by
    refine Py.mapExcept_eq_ok fun ch hch => ?_
    by_cases hne : ch = '_'
    · subst hne
      rfl
    · have hmem : ch ∈ bare hexValue := List.mem_filter.mpr ⟨hch, by simpa using hne⟩
      rcases bitsOf_table ch (h ch hmem).1 with h' | ⟨hsome, -⟩
      · exact absurd h' hne
      · rw [hexCharToBin, hsome]
  have hflat : ((hexValue.map Char.toLower).map bitsOf).flatten =
      (bare hexValue).flatMap bitsOf := by
    rw [bare]
    induction hexValue.map Char.toLower with
    | nil => rfl
    | cons ch l ih =>
      by_cases hne : ch = '_'
      · subst hne
        simpa [bitsOf, probeValueHexToBin] using ih
      · simpa [hne] using ih
  have hlen := length_flatMap_bits h
  rw [hexToBinStr, hgroups, Py.ok_bind]
  simp only [hflat, hlen]
  rw [← Nat.cast_sub hw, ← hlen, Py.slice_natCast _ le_rfl, List.take_length,
    Nat.min_eq_left (by omega)]
  rfl

/-! ### Accepted values -/

/-- Operators and numbers of a value list. -/
def pairs : List Value → List (Value × Value)
  | op :: number :: rest => (op, number) :: pairs rest
  | _ => []

section

variable {probe : ILAProbe} {enumDef : Option EnumMeta}

theorem verifyPairs_mem : ∀ {valueList : List Value},
    verifyPairs probe enumDef valueList = .ok () →
    ∀ {op number : Value}, (op, number) ∈ pairs valueList →
      verifyValuePair probe enumDef op number = .ok ()
  | [], _, _, _, hmem => by simp [pairs] at hmem
  | [_], _, _, _, hmem => by simp [pairs] at hmem
  | op' :: number' :: rest, h, op, number, hmem => by
    obtain ⟨⟨⟩, hpair, hrest⟩ := Py.bind_eq_ok h
    rcases List.mem_cons.mp hmem with heq | hmem
    · obtain ⟨rfl, rfl⟩ := Prod.mk.inj heq
      exact hpair
    · exact verifyPairs_mem hrest hmem

theorem verifyProbeValue_mem {valueList : List Value} {isTrigger : Bool} {op number : Value}
    (h : verifyProbeValue probe enumDef valueList isTrigger = .ok ())
    (hmem : (op, number) ∈ pairs valueList) :
    verifyValuePair probe enumDef op number = .ok () := by
  rw [verifyProbeValue] at h
  split_ifs at h
  exact verifyPairs_mem h hmem

theorem verifyOneHexValue_ok {op s : String} (h : verifyOneHexValue probe op s = .ok ()) :
    (∀ ch ∈ bare (s.toList.drop 2), HexChar ch) ∧
      (bare (s.toList.drop 2)).length = (probe.bitWidth + 3) / 4 := by
  simp only [verifyOneHexValue] at h
  split_ifs at h with hempty hvalid hlen
  refine ⟨fun ch hch => ⟨hvalid ch hch, ?_⟩, not_not.mp hlen⟩
  simpa using (List.mem_filter.mp hch).2

theorem verifyValuePair_hex {op : Value} {s : String} (hhex : isHexStr (.str s) probe.bitWidth)
    (h : verifyValuePair probe enumDef op (.str s) = .ok ()) :
    (∀ ch ∈ bare (s.toList.drop 2), HexChar ch) ∧
      (bare (s.toList.drop 2)).length = (probe.bitWidth + 3) / 4 := by
  rcases op with n | ⟨cls, value⟩ | op
  · cases h
  · cases h
  · simp only [verifyValuePair, hhex, if_true] at h
    split_ifs at h
    exact verifyOneHexValue_ok h

theorem toBinStr_number {val : Value} {w : ℕ} {v : ℤ} (hv : number? enumDef val = some v)
    (hhex : isHexStr val w = false) : toBinStr val w enumDef = .ok (intChars w v) := by
  have hplain : plain val false enumDef = .ok (.inl v) := by
    rcases val with n | ⟨cls, value⟩ | s
    · cases hv
      rfl
    · cases hv
      rfl
    · rcases enumDef with - | enumDef
      · cases hv
      · have hlookup : Py.lookup s enumDef.members = some v := hv
        simp [plain, hlookup]
  simp only [toBinStr, hhex, hplain, Py.ok_bind, intChars]
  split_ifs <;> rfl

theorem toBinStr_hex {s : String} {w : ℕ} (hhex : isHexStr (.str s) w) :
    toBinStr (.str s) w enumDef = hexToBinStr (s.toList.drop 2) w := by
  have hplain : plain (.str s) true enumDef = .ok (.inr s) := by
    rcases enumDef with - | enumDef <;> rfl
  simp only [toBinStr, hhex, hplain, Py.ok_bind, if_true]

end

/-- `to_bin_str` writes the number of a value in `w` bits, and a number that is not negative fits
    in them. -/
def ExactlyEncoded (w : ℕ) (enumDef : Option EnumMeta) (val : Value) (v : ℤ) : Prop :=
  (∃ chars, toBinStr val w enumDef = .ok chars ∧ Denotes w v chars) ∧ (0 ≤ v → v < 2 ^ w)

/-- The number fits, or the name is written like a hexadecimal string that stands for it. -/
def Encodable (w : ℕ) (v : ℤ) (val : Value) : Prop :=
  if isHexStr val w then
    (∃ m, hexNumber? (bare (val.format.toList.drop 2)) = some m ∧
      (m : ℤ) % 2 ^ w = v % 2 ^ w) ∧ (0 ≤ v → v < 2 ^ w)
  else Fits w v

theorem exactlyEncoded_iff {probe : ILAProbe} {enumDef : Option EnumMeta} {valueList : List Value}
    {isTrigger : Bool} {op val : Value} {v : ℤ} (hw : 1 ≤ probe.bitWidth)
    (h : verifyProbeValue probe enumDef valueList isTrigger = .ok ())
    (hmem : (op, val) ∈ pairs valueList) (hv : number? enumDef val = some v) :
    ExactlyEncoded probe.bitWidth enumDef val v ↔ Encodable probe.bitWidth v val := by
  rw [ExactlyEncoded, Encodable]
  rcases hhex : isHexStr val probe.bitWidth
  · rw [toBinStr_number hv hhex, if_neg (by simp)]
    constructor
    · rintro ⟨⟨chars, hchars, hd⟩, -⟩
      cases hchars
      exact (denotes_intChars_iff hw).mp hd
    · intro hfits
      exact ⟨⟨_, rfl, (denotes_intChars_iff hw).mpr hfits⟩, fun _ => hfits.2⟩
  · rcases val with n | ⟨cls, value⟩ | s
    · cases hhex
    · cases hhex
    · obtain ⟨hdigits, hlen⟩ := verifyValuePair_hex hhex (verifyProbeValue_mem h hmem)
      rw [toBinStr_hex hhex, hexToBinStr_eq hdigits (by omega), if_pos rfl]
      refine and_congr_left fun _ => ?_
      rw [Value.format, ← denotes_hex_iff hdigits hlen]
      constructor
      · rintro ⟨chars, hchars, hd⟩
        cases hchars
        exact hd
      · intro hd
        exact ⟨_, rfl, hd⟩

/-- Encoded values that are equal modulo `2 ^ w` have the same match characters. -/
theorem ExactlyEncoded.toBinStr_eq {w : ℕ} {enumDef : Option EnumMeta} {val val' : Value}
    {v v' : ℤ} (h : ExactlyEncoded w enumDef val v) (h' : ExactlyEncoded w enumDef val' v')
    (hmod : v % 2 ^ w = v' % 2 ^ w) : toBinStr val w enumDef = toBinStr val' w enumDef := by
  obtain ⟨⟨chars, hchars, hd⟩, -⟩ := h
  obtain ⟨⟨chars', hchars', hd'⟩, -⟩ := h'
  rw [hchars, hchars', hd.eq_of_emod_eq hd' hmod]

/-- Which accepted integers, members and names are written exactly. -/
theorem toBinStr_exact (probe : ILAProbe) (enumDef : Option EnumMeta) (hw : 1 ≤ probe.bitWidth) :
    (∀ valueList isTrigger, verifyProbeValue probe enumDef valueList isTrigger = .ok () →
      ∀ op val v, (op, val) ∈ pairs valueList → number? enumDef val = some v →
        (ExactlyEncoded probe.bitWidth enumDef val v ↔ Encodable probe.bitWidth v val)) ∧
    ∀ val val' v v', ExactlyEncoded probe.bitWidth enumDef val v →
      ExactlyEncoded probe.bitWidth enumDef val' v' →
      v % 2 ^ probe.bitWidth = v' % 2 ^ probe.bitWidth →
        toBinStr val probe.bitWidth enumDef = toBinStr val' probe.bitWidth enumDef :=
  ⟨fun _ _ h _ _ _ hmem hv => exactlyEncoded_iff hw h hmem hv,
    fun _ _ _ _ h h' hmod => h.toBinStr_eq h' hmod⟩

/-- The least number of four bits. -/
theorem toBinStr_exact_least :
    ExactlyEncoded 4 none (.int (-8)) (-8) :=
  ((toBinStr_exact ⟨"p", 4⟩ none (by decide)).1 [.str "==", .int (-8)] true (by decide) (.str "==")
    (.int (-8)) (-8) (by simp [pairs]) rfl).mpr (by simp [Encodable, isHexStr, Fits])

/-- `-15` passes the check of a four bit probe and is written `1`. -/
theorem not_toBinStr_exact_short : ¬ ∀ (probe : ILAProbe) (enumDef : Option EnumMeta)
    (valueList : List Value) (isTrigger : Bool) (op val : Value) (v : ℤ), 1 ≤ probe.bitWidth →
    verifyProbeValue probe enumDef valueList isTrigger = .ok () → (op, val) ∈ pairs valueList →
    number? enumDef val = some v → ExactlyEncoded probe.bitWidth enumDef val v := by
  intro h
  obtain ⟨⟨chars, hchars, hd⟩, -⟩ := h ⟨"p", 4⟩ none [.str "==", .int (-15)] true (.str "==")
    (.int (-15)) (-15) (by decide) (by decide) (by simp [pairs]) rfl
  have hone : toBinStr (.int (-15)) 4 none = .ok ['1'] := by decide
  obtain rfl : ['1'] = chars := Except.ok.inj (hone.symm.trans hchars)
  exact absurd hd.length_eq (by decide)

end Chipscopy.Probe
