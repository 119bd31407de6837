import Chipscopy.Probe.Encoding

/-! Accepted strings as match characters

    A checked string is a hexadecimal one, the name of an enum member or a bit string. Each
    hexadecimal digit becomes four match characters, of which the first digit may have some to
    spare; a bit string stands for itself. But with an enum class at hand every string that is not
    written like a hexadecimal one is looked up as a name. -/

namespace Chipscopy.Probe

open Waveform (EnumMeta)

def dropUnderscores (chars : List Char) : List Char := chars.filter (· ≠ '_')

/-- Match characters of a hexadecimal string, four for each digit. -/
def hexBits (s : String) : List Char := (bare (s.toList.drop 2)).flatMap bitsOf

/-- What the match characters of an accepted string stand for. Nothing but zeros and don't cares of
    the first hexadecimal digit is left out. -/
def StandsFor (w : ℕ) (enumDef : Option EnumMeta) (s : String) (chars : List Char) : Prop :=
  if isHexStr (.str s) w then
    ∃ spare, hexBits s = spare ++ chars ∧ ∀ ch ∈ spare, ch = '0' ∨ ch = 'x'
  else
    match number? enumDef (.str s) with
    | some v => Denotes w v chars
    | none => chars = dropUnderscores s.toList

/-- `to_bin_str` writes a string as `w` match characters that stand for it. -/
def Converts (w : ℕ) (enumDef : Option EnumMeta) (s : String) : Prop :=
  ∃ chars, toBinStr (.str s) w enumDef = .ok chars ∧ (dropUnderscores chars).length = w ∧
    (∀ ch ∈ dropUnderscores chars, ch ∈ matchBitValues) ∧
    StandsFor w enumDef s (dropUnderscores chars)

/-- A hexadecimal string; or the name of a member whose value fits in the bits of the probe; or a
    bit string for a probe without an enum class. -/
def Convertible (w : ℕ) (enumDef : Option EnumMeta) (s : String) : Prop :=
  isHexStr (.str s) w ∨
    match number? enumDef (.str s) with
    | some v => 1 ≤ w ∧ Fits w v
    | none => enumDef = none

theorem dropUnderscores_of_notMem {chars : List Char} (h : '_' ∉ chars) :
    dropUnderscores chars = chars := by
  refine List.filter_eq_self.mpr fun ch hch => ?_
  simp only [ne_eq, decide_not, Bool.not_eq_eq_eq_not, Bool.not_true, decide_eq_false_iff_not]
  rintro rfl
  exact h hch

theorem Denotes.mem_matchBitValues {w : ℕ} {v : ℤ} {chars : List Char} (h : Denotes w v chars) :
    ∀ ch ∈ chars, ch ∈ matchBitValues := by
  intro ch hch
  rcases h.binary ch hch with rfl | rfl <;> decide

/-! ### Hexadecimal strings -/

/-- Characters of a digit: all of them match characters. -/
theorem HexChar.bits_mem {ch : Char} (h : HexChar ch) :
    ∀ bit ∈ bitsOf ch, bit = '0' ∨ bit = '1' ∨ bit = 'x' := by
  rcases bitsOf_table ch h.1 with h' | ⟨-, -, ⟨-, hx, -⟩ | ⟨hbits, -⟩⟩
  · exact absurd h' h.2
  · exact fun bit hbit => .inr (.inr (hx bit hbit))
  · exact fun bit hbit => (hbits bit hbit).imp_right .inl

/-- The bits of a digit above its bit length are zeros or don't cares. -/
theorem bits_above_bitLen : ∀ ch ∈ validHexChars, ch = '_' ∨
    ∀ bit ∈ (bitsOf ch).take (4 - getHexCharBitLen ch), bit = '0' ∨ bit = 'x' := by
  simp only [validHexChars, List.forall_mem_cons]
  simp [bitsOf, probeValueHexToBin, getHexCharBitLen]

theorem hexBits_mem {digits : List Char} (h : ∀ ch ∈ digits, HexChar ch) :
    ∀ bit ∈ digits.flatMap bitsOf, bit ∈ matchBitValues ∧ bit ≠ '_' := by
  intro bit hbit
  obtain ⟨ch, hch, hbit⟩ := List.mem_flatMap.mp hbit
  rcases (h ch hch).bits_mem bit hbit with rfl | rfl | rfl <;> decide

/-- An accepted hexadecimal string has no more bits than the probe, but for its first digit. -/
theorem verifyOneHexValue_bitLen {probe : ILAProbe} {op s : String}
    (h : verifyOneHexValue probe op s = .ok ()) : bare (s.toList.drop 2) ≠ [] ∧
      ((bare (s.toList.drop 2)).length - 1) * 4 +
        getHexCharBitLen ((bare (s.toList.drop 2)).headD 'x') ≤ probe.bitWidth := by
  simp only [verifyOneHexValue] at h
  split_ifs at h with hempty hvalid hlen hbits
  exact ⟨fun hnil => hempty (List.length_eq_zero_iff.mpr hnil), not_lt.mp hbits⟩

/-- What is dropped from the front of an accepted hexadecimal string. -/
theorem hexBits_spare {digits : List Char} {w : ℕ} (h : ∀ ch ∈ digits, HexChar ch)
    (hne : digits ≠ [])
    (hbits : (digits.length - 1) * 4 + getHexCharBitLen (digits.headD 'x') ≤ w) :
    ∀ bit ∈ (digits.flatMap bitsOf).take (4 * digits.length - w), bit = '0' ∨ bit = 'x' := by
  rcases digits with _ | ⟨ch, digits⟩
  · exact absurd rfl hne
  · have hch := h ch List.mem_cons_self
    rw [List.length_cons, List.headD_cons] at hbits
    have hle : 4 * (digits.length + 1) - w ≤ 4 - getHexCharBitLen ch := by omega
    intro bit hbit
    rw [List.flatMap_cons, List.length_cons,
      List.take_append_of_le_length (by rw [hch.length_bits]; omega)] at hbit
    rcases bits_above_bitLen ch hch.1 with hbad | habove
    · exact absurd hbad hch.2
    · exact habove bit ((List.take_subset_take_left _ hle) hbit)

section Accepted

variable {probe : ILAProbe} {enumDef : Option EnumMeta} {op : Value} {s : String}

theorem verifyValuePair_hexValue (hhex : isHexStr (.str s) probe.bitWidth)
    (h : verifyValuePair probe enumDef op (.str s) = .ok ()) :
    ∃ op, verifyOneHexValue probe op s = .ok () := by
  rcases op with n | ⟨cls, value⟩ | op
  · cases h
  · cases h
  · simp only [verifyValuePair, hhex, if_true] at h
    split_ifs at h
    exact ⟨op, h⟩

/-- A string that is not the name of a member goes on to the check of bit strings. -/
theorem bitString_of_notName {op : String} (h : (do
      let isName ← (Except.ok false : Except Py.Error Bool)
      if isName then .ok () else verifyBitString probe op s) = .ok ()) :
    verifyBitString probe op s = .ok () := by
  obtain ⟨isName, hname, h⟩ := Py.bind_eq_ok h
  obtain rfl := Except.ok.inj hname
  rwa [if_neg (by simp)] at h

theorem verifyValuePair_bitString (hhex : isHexStr (.str s) probe.bitWidth = false)
    (hname : number? enumDef (.str s) = none)
    (h : verifyValuePair probe enumDef op (.str s) = .ok ()) :
    ∃ op, verifyBitString probe op s = .ok () := by
  rcases op with n | ⟨cls, value⟩ | op
  · cases h
  · cases h
  · refine ⟨op, ?_⟩
    by_cases hop : op ∈ matchOperators
    · simp only [verifyValuePair, hhex, hop, not_true, Bool.false_eq_true, if_false] at h
      rcases enumDef with _ | enumDef
      · exact bitString_of_notName h
      · have hlookup : Py.lookup s enumDef.members = none := hname
        simp only [isValidEnumStr, hlookup] at h
        exact bitString_of_notName h
    · simp only [verifyValuePair, hop, not_false_eq_true, if_true, reduceCtorEq] at h

/-- An accepted bit string has one match character for each bit. -/
theorem verifyBitString_ok {op : String} (h : verifyBitString probe op s = .ok ()) :
    (dropUnderscores s.toList).length = probe.bitWidth ∧
      ∀ ch ∈ dropUnderscores s.toList, ch ∈ matchBitValues := by
  simp only [verifyBitString] at h
  split at h
  · cases h
  · next hchars =>
    split at h
    · cases h
    · next hlen =>
      refine ⟨?_, fun ch hch => not_not.mp hchars ch (List.mem_filter.mp hch).1⟩
      have hcount : s.toList.length =
          s.toList.count '_' + (dropUnderscores s.toList).length := by
        rw [List.length_eq_countP_add_countP (· == '_'), dropUnderscores, ← List.countP_eq_length_filter]
        simp [List.count]
      omega

theorem converts_hex (hhex : isHexStr (.str s) probe.bitWidth)
    (h : verifyValuePair probe enumDef op (.str s) = .ok ()) :
    Converts probe.bitWidth enumDef s := by
  obtain ⟨op, hvalue⟩ := verifyValuePair_hexValue hhex h
  obtain ⟨hdigits, hlen⟩ := verifyOneHexValue_ok hvalue
  obtain ⟨hne, hbits⟩ := verifyOneHexValue_bitLen hvalue
  have hmem := hexBits_mem hdigits
  set k := 4 * (bare (s.toList.drop 2)).length - probe.bitWidth with hk
  have hchars : toBinStr (.str s) probe.bitWidth enumDef = .ok ((hexBits s).drop k) := by
    rw [toBinStr_hex hhex, hexToBinStr_eq hdigits (by omega), hexBits]
  have hplain : dropUnderscores ((hexBits s).drop k) = (hexBits s).drop k :=
    dropUnderscores_of_notMem fun hunder =>
      (hmem '_' (List.mem_of_mem_drop hunder)).2 rfl
  refine ⟨_, hchars, ?_, ?_, ?_⟩
  · rw [hplain, List.length_drop, hexBits, length_flatMap_bits hdigits]
    omega
  · rw [hplain]
    exact fun ch hch => (hmem ch (List.mem_of_mem_drop hch)).1
  · rw [hplain, StandsFor, if_pos hhex]
    exact ⟨(hexBits s).take k, (List.take_append_drop k _).symm, hexBits_spare hdigits hne hbits⟩

/-- What is written for an integer: at least one character, and no underscore. -/
theorem intChars_written (w : ℕ) (v : ℤ) : intChars w v ≠ [] ∧ '_' ∉ intChars w v := by
  have hbinary : ∀ {digits : List Char}, Bits.Binary digits → '_' ∉ digits := by
    intro digits h hmem
    rcases h '_' hmem with h | h <;> simp at h
  have hdigits : ∀ n : ℕ, Nat.toDigits 2 n ≠ [] := fun n hnil =>
    (Nat.length_toDigits_pos).ne' (List.length_eq_zero_iff.mpr hnil)
  rw [intChars]
  split
  · refine ⟨fun hnil => ?_, hbinary (Bits.binary_formatBin w v.toNat)⟩
    rw [Bits.formatBin, List.append_eq_nil_iff] at hnil
    exact hdigits _ hnil.2
  · by_cases hneg : 2 ^ w + v < 0
    · have hdrop : (bin (2 ^ w + v)).drop 2 = 'b' :: Nat.toDigits 2 (2 ^ w + v).natAbs := by
        rw [bin, if_pos hneg]
        rfl
      rw [hdrop]
      refine ⟨List.cons_ne_nil _ _, fun hmem => ?_⟩
      rcases List.mem_cons.mp hmem with h | h
      · simp at h
      · exact hbinary (binary_toDigits _) h
    · obtain ⟨n, hn⟩ := Int.eq_ofNat_of_zero_le (not_lt.mp hneg)
      rw [hn, drop_bin_natCast]
      exact ⟨hdigits n, hbinary (binary_toDigits n)⟩

theorem converts_name_iff {v : ℤ} (hhex : isHexStr (.str s) probe.bitWidth = false)
    (hname : number? enumDef (.str s) = some v) :
    Converts probe.bitWidth enumDef s ↔ 1 ≤ probe.bitWidth ∧ Fits probe.bitWidth v := by
  have hstands : ∀ chars, StandsFor probe.bitWidth enumDef s chars ↔
      Denotes probe.bitWidth v chars := by
    intro chars
    rw [StandsFor, if_neg (by simp [hhex])]
    simp only [hname]
  obtain ⟨hne, hunder⟩ := intChars_written probe.bitWidth v
  have hwritten : Converts probe.bitWidth enumDef s ↔
      Denotes probe.bitWidth v (intChars probe.bitWidth v) := by
    constructor
    · rintro ⟨chars, hchars, -, -, hd⟩
      obtain rfl := Except.ok.inj ((toBinStr_number hname hhex).symm.trans hchars)
      rw [dropUnderscores_of_notMem hunder] at hd
      exact (hstands _).mp hd
    · intro hd
      refine ⟨_, toBinStr_number hname hhex, ?_⟩
      rw [dropUnderscores_of_notMem hunder]
      exact ⟨hd.length_eq, hd.mem_matchBitValues, (hstands _).mpr hd⟩
  rw [hwritten]
  rcases Nat.eq_zero_or_pos probe.bitWidth with hzero | hpos
  · refine iff_of_false (fun hd => hne ?_) (by omega)
    exact List.length_eq_zero_iff.mp (hd.length_eq.trans hzero)
  · exact (denotes_intChars_iff hpos).trans (and_iff_right hpos).symm

theorem converts_bitString_iff (hhex : isHexStr (.str s) probe.bitWidth = false)
    (hname : number? enumDef (.str s) = none)
    (h : verifyValuePair probe enumDef op (.str s) = .ok ()) :
    Converts probe.bitWidth enumDef s ↔ enumDef = none := by
  have hstands : ∀ chars, StandsFor probe.bitWidth enumDef s chars ↔
      chars = dropUnderscores s.toList := by
    intro chars
    rw [StandsFor, if_neg (by simp [hhex])]
    simp only [hname]
  obtain ⟨op, hvalue⟩ := verifyValuePair_bitString hhex hname h
  obtain ⟨hlen, hchars⟩ := verifyBitString_ok hvalue
  rcases enumDef with _ | enumDef
  · refine iff_of_true ⟨s.toList, ?_, hlen, hchars, (hstands _).mpr rfl⟩ rfl
    simp only [toBinStr, hhex, plain, Py.ok_bind]
    rfl
  · refine iff_of_false ?_ (by simp)
    rintro ⟨chars, hwritten, -⟩
    have hlookup : Py.lookup s enumDef.members = none := hname
    simp only [toBinStr, hhex, plain, hlookup] at hwritten
    cases hwritten

/-- Which accepted strings are converted. -/
theorem converts_iff {valueList : List Value} {isTrigger : Bool}
    (h : verifyProbeValue probe enumDef valueList isTrigger = .ok ())
    (hmem : (op, .str s) ∈ pairs valueList) :
    Converts probe.bitWidth enumDef s ↔ Convertible probe.bitWidth enumDef s := by
  have hpair := verifyProbeValue_mem h hmem
  rw [Convertible]
  rcases hhex : isHexStr (.str s) probe.bitWidth
  · rw [or_iff_right (by simp)]
    rcases hname : number? enumDef (.str s) with _ | v
    · exact converts_bitString_iff hhex hname hpair
    · exact converts_name_iff hhex hname
  · exact iff_of_true (converts_hex hhex hpair) (.inl rfl)

end Accepted

theorem converts_iff_hex : Converts 6 none "0x2_x" ↔ Convertible 6 none "0x2_x" := by
  have hok : verifyProbeValue ⟨"p", 6⟩ none [.str "==", .str "0x2_x"] true = .ok () := by
    simp [verifyProbeValue, verifyPairs, verifyValuePair, matchOperators, isHexStr,
      verifyOneHexValue, validHexChars, getHexCharBitLen]
    rfl
  exact @converts_iff ⟨"p", 6⟩ none (.str "==") "0x2_x" _ true hok (by simp [pairs])

theorem verifyBitString_one : verifyBitString ⟨"p", 1⟩ "==" "1" = .ok () := by
  have hchars : ∀ ch ∈ "1".toList, ch ∈ matchBitValues := by
    intro ch hch
    obtain rfl := List.mem_singleton.mp hch
    decide
  simp only [verifyBitString]
  rw [if_neg (not_not.mpr hchars), if_neg (by decide), if_neg (by decide)]

/-- With an enum class, an accepted bit string is looked up as the name of a member. -/
theorem not_converts_bitString :
    verifyProbeValue ⟨"p", 1⟩ (some ⟨"State", [("IDLE", 0)]⟩) [.str "==", .str "1"] true = .ok () ∧
      ¬ Converts 1 (some ⟨"State", [("IDLE", 0)]⟩) "1" := by
  constructor
  · simp [verifyProbeValue, verifyPairs, verifyValuePair, matchOperators, isHexStr, isValidEnumStr,
      Py.lookup]
    rw [Py.ok_bind, if_neg (by simp), verifyBitString_one, Py.ok_bind]
  · rintro ⟨chars, hchars, -⟩
    have herror : toBinStr (.str "1") 1 (some ⟨"State", [("IDLE", 0)]⟩) = .error (.keyError "1") := by
      decide
    rw [herror] at hchars
    cases hchars

end Chipscopy.Probe
