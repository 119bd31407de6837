import Chipscopy.Probe.Encoding
import Chipscopy.Tsm.Number

/-! Basic trigger values and numbers of the state machine

    Both sides check a value on their own and write it as match characters. They agree on
    hexadecimal strings and on integers that are not negative. A negative member is written in two's
    complement by the one and with a sign by the other, and a bit string on a probe with an enum
    class is looked up as a name and not found. -/

namespace Chipscopy.Tsm

open Waveform (EnumMeta)
open Probe (Value bare number? isHexStr hexNumber? toBinStr intChars Denotes bitLength pairs
  verifyProbeValue verifyValuePair hexToBinStr HexChar bitsOf)

/-- Match characters that are the same, underscores and case aside, one for each bit. -/
def SameMatch (w : ℕ) (chars chars' : List Char) : Prop :=
  bare chars = bare chars' ∧ (bare chars).length = w

/-- One value written both ways: the text of the state machine follows the type character. -/
inductive SameValue (w : ℕ) (enumDef : Option EnumMeta) : Value → List Char → List Char → Prop
  | int {n : ℤ} {text : List Char} (h : IntLiteral.int 10 (Bits.strip ['_'] text) = .ok n) :
    SameValue w enumDef (.int n) ['U'] text
  | member {cls : EnumMeta} {value : ℤ} {text : List Char}
    (h : Py.lookup (String.ofList text) cls.members = some value) :
    SameValue w enumDef (.member cls value) ['E'] text
  | name {s : String} {value : ℤ} {text : List Char} (h : number? enumDef (.str s) = some value)
    (htext : String.ofList text = s) : SameValue w enumDef (.str s) ['E'] text
  | hex {s : String} {text : List Char} (h : isHexStr (.str s) w)
    (htext : bare (s.toList.drop 2) = bare text) : SameValue w enumDef (.str s) ['H'] text
  | bits {s : String} {text : List Char} (h : isHexStr (.str s) w = false)
    (hname : number? enumDef (.str s) = none) (htext : bare s.toList = bare text) :
    SameValue w enumDef (.str s) ['B'] text

/-- Hexadecimal strings, bit strings of a probe without enum class, and values with a number that
    is not negative, unless their name is written like another hexadecimal number. -/
def Translatable (w : ℕ) (enumDef : Option EnumMeta) (val : Value) (typeCh : List Char) : Prop :=
  if typeCh = ['H'] then True
  else if typeCh = ['B'] then enumDef = none
  else 1 ≤ w ∧ ∃ v, number? enumDef val = some v ∧ 0 ≤ v ∧
    (isHexStr val w → ∃ m, hexNumber? (bare (val.format.toList.drop 2)) = some m ∧
      (m : ℤ) % 2 ^ w = v % 2 ^ w)

/-! ### Characters -/

theorem bare_eq_self {s : List Char} (h : ∀ ch ∈ s, ch = '0' ∨ ch = '1' ∨ ch = 'x' ∨ ch = 'b') :
    bare s = s := by
  induction s with
  | nil => rfl
  | cons ch s ih =>
    have hs := ih fun c hc => h c (List.mem_cons_of_mem _ hc)
    rw [bare] at hs ⊢
    rcases h ch List.mem_cons_self with rfl | rfl | rfl | rfl <;> simpa using hs

theorem bare_of_binary {s : List Char} (h : Bits.Binary s) : bare s = s :=
  bare_eq_self fun ch hch => by
    rcases h ch hch with h | h <;> simp [h]

theorem toLower_toLower (c : Char) : c.toLower.toLower = c.toLower := by
  simp only [Char.toLower]
  split
  · split
    · next hupper hlower =>
      simp only [UInt32.le_iff_toNat_le, UInt32.toNat_add, seval] at hupper hlower
      omega
    · rfl
  · rfl

theorem bare_bare (s : List Char) : bare (bare s) = bare s := by
  induction s with
  | nil => rfl
  | cons ch s ih =>
    by_cases h : ch.toLower = '_'
    · simpa [bare, h] using ih
    · simpa [bare, h, toLower_toLower] using ih

theorem mem_intChars {w : ℕ} {v : ℤ} {ch : Char} (h : ch ∈ intChars w v) :
    ch = '0' ∨ ch = '1' ∨ ch = 'x' ∨ ch = 'b' := by
  rw [intChars] at h
  split_ifs at h with hv
  · rcases Bits.binary_formatBin _ _ ch h with h | h <;> simp [h]
  · have hdigits : ∀ n : ℕ, ch ∈ Nat.toDigits 2 n → ch = '0' ∨ ch = '1' := fun n hn =>
      Probe.binary_toDigits n ch hn
    rw [Probe.bin] at h
    split_ifs at h
    · rw [List.singleton_append, List.drop_succ_cons, List.drop_succ_cons, List.drop_zero] at h
      rcases List.mem_cons.mp h with rfl | h
      · simp
      · rcases hdigits _ h with h | h <;> simp [h]
    · rw [List.nil_append, List.drop_succ_cons, List.drop_succ_cons, List.drop_zero] at h
      rcases hdigits _ h with h | h <;> simp [h]

theorem mem_hexBits {digits : List Char} (h : ∀ ch ∈ digits, HexChar ch) {ch : Char}
    (hch : ch ∈ digits.flatMap bitsOf) : ch = '0' ∨ ch = '1' ∨ ch = 'x' ∨ ch = 'b' := by
  obtain ⟨digit, hdigit, hbit⟩ := List.mem_flatMap.mp hch
  rcases Probe.bitsOf_table digit (h digit hdigit).1 with h' | ⟨-, -, ⟨-, hx, -⟩ | ⟨hbits, -⟩⟩
  · exact absurd h' (h digit hdigit).2
  · simp [hx ch hbit]
  · rcases hbits ch hbit with h' | h' <;> simp [h']

/-- A sign is written by the state machine only. -/
theorem not_sameMatch_negative {w : ℕ} {v : ℤ} {chars : List Char}
    (h : ∀ ch ∈ chars, ch = '0' ∨ ch = '1' ∨ ch = 'x' ∨ ch = 'b') (hv : v < 0) :
    ¬ SameMatch w chars (Bits.formatSigned w v) := by
  intro hsame
  have hminus : '-' ∈ bare (Bits.formatSigned w v) := by
    rw [bare, Bits.formatSigned, if_pos hv]
    exact List.mem_filter.mpr ⟨List.mem_map.mpr ⟨'-', List.mem_cons_self, rfl⟩, by decide⟩
  rw [← hsame.1, bare_eq_self h] at hminus
  rcases h '-' hminus with h | h | h | h <;> simp at h

/-! ### Numbers without an error -/

section

variable {name : String} {w : ℕ} {op value : String} {enumDef : Option EnumMeta}
  {valueWidth : ℤ} {typeCh number chars : List Char}

theorem verifyTsmNumber_ok (hsplit : splitValueStr w value = .ok (valueWidth, typeCh, number))
    (h : verifyTsmNumber name w op enumDef value = .ok (chars, [])) :
    ∃ bits, verifyTyped name w op enumDef typeCh number = .ok (bits, []) ∧
      ∀ bits', bits = some bits' → bits' = chars := by
  by_cases hprefix : prefixErrors name w op value valueWidth = []
  · simp only [verifyTsmNumber, hsplit, Py.ok_bind, hprefix, ne_eq, not_true_eq_false, if_false,
      List.nil_append] at h
    obtain ⟨⟨bits, errors⟩, htyped, hrest⟩ := Py.bind_eq_ok h
    rcases bits with - | bits
    · obtain rfl : errors = [] := congrArg Prod.snd (Except.ok.inj hrest)
      exact ⟨none, htyped, by simp⟩
    · obtain rfl : errors = [] := congrArg Prod.snd (Except.ok.inj hrest)
      refine ⟨some bits, htyped, ?_⟩
      rintro _ ⟨⟩
      exact congrArg Prod.fst (Except.ok.inj hrest)
  · simp [verifyTsmNumber, hsplit, Py.ok_bind, hprefix, pure, Except.pure] at h

theorem verifyIntValue_ok {v : ℤ} {text : String} {bits : Option (List Char)}
    (h : verifyIntValue name w v text = (bits, [])) :
    v.natAbs < 2 ^ w ∧ bits = some (Bits.formatSigned w v) := by
  simp only [verifyIntValue] at h
  split_ifs at h with hlen
  · simp at h
  · obtain ⟨rfl, -⟩ := Prod.mk.inj h
    exact ⟨Nat.size_le.mp (not_lt.mp hlen), rfl⟩

theorem verifyIntText_ok {v : ℤ} {bits : Option (List Char)}
    (hv : IntLiteral.int 10 (Bits.strip ['_'] number) = .ok v)
    (h : verifyTyped name w op enumDef ['U'] number = .ok (bits, [])) :
    v.natAbs < 2 ^ w ∧ bits = some (Bits.formatSigned w v) := by
  simp only [verifyTyped, if_true, verifyIntText, hv, Py.ok_bind] at h
  exact verifyIntValue_ok (Except.ok.inj h)

theorem verifyEnumValue_ok {bits : Option (List Char)}
    (h : verifyTyped name w op enumDef ['E'] number = .ok (bits, [])) :
    ∃ v, number? enumDef (.str (String.ofList number)) = some v ∧ v.natAbs < 2 ^ w ∧
      bits = some (Bits.formatSigned w v) := by
  simp only [verifyTyped, if_neg (show ['E'] ≠ ['U'] by simp), if_true, Except.ok.injEq] at h
  rcases enumDef with - | enumDef
  · simp [verifyEnumValue] at h
  · rcases hlookup : Py.lookup (String.ofList number) enumDef.members with - | v
    · simp [verifyEnumValue, hlookup] at h
    · simp only [verifyEnumValue, hlookup] at h
      exact ⟨v, hlookup, verifyIntValue_ok h⟩

theorem verifyHexValue_ok {bits : Option (List Char)} (hdigits : ∀ ch ∈ bare number, HexChar ch)
    (hlen : (bare number).length = (w + 3) / 4)
    (h : verifyTyped name w op enumDef ['H'] number = .ok (bits, [])) :
    bits = some (((bare number).flatMap bitsOf).drop (4 * (bare number).length - w)) := by
  simp only [verifyTyped, if_neg (show ['H'] ≠ ['U'] by simp),
    if_neg (show ['H'] ≠ ['E'] by simp), if_true, verifyHexValue] at h
  have hbits : hexToBinStr (bare number) w =
      .ok (((bare number).flatMap bitsOf).drop (4 * (bare number).length - w)) := by
    rw [Probe.hexToBinStr_eq (by rwa [bare_bare]) (by rw [bare_bare]; omega), bare_bare]
  rw [show (number.map Char.toLower).filter (· ≠ '_') = bare number from rfl, hbits] at h
  by_cases hempty : (bare number).length = 0
  · simp [hempty] at h
  · rw [if_neg hempty, if_neg (not_not.mpr fun ch hch => (hdigits ch hch).1)] at h
    exact (congrArg Prod.fst (Except.ok.inj h)).symm

theorem verifyBinValue_ok {bits : Option (List Char)}
    (h : verifyTyped name w op enumDef ['B'] number = .ok (bits, [])) :
    bits = some (bare number) ∧ (bare number).length = w := by
  simp only [verifyTyped, if_neg (show ['B'] ≠ ['U'] by simp),
    if_neg (show ['B'] ≠ ['E'] by simp), if_neg (show ['B'] ≠ ['H'] by simp), if_true,
    Except.ok.injEq, verifyBinValue] at h
  rw [show (number.map Char.toLower).filter (· ≠ '_') = bare number from rfl] at h
  split_ifs at h with hbad hlen
  all_goals simp only [Prod.mk.injEq, List.append_eq_nil_iff, List.cons_ne_nil, false_and,
    and_false] at h
  all_goals exact ⟨h.1.symm, not_not.mp hlen⟩

end

/-! ### Agreement -/

/-- `to_bin_str` and the state machine write a value the same. -/
def Agrees (w : ℕ) (enumDef : Option EnumMeta) (val : Value) (chars' : List Char) : Prop :=
  ∃ chars, toBinStr val w enumDef = .ok chars ∧ SameMatch w chars chars'

section

variable {w : ℕ} {enumDef : Option EnumMeta}

theorem formatSigned_eq_intChars {v : ℤ} (hv : 0 ≤ v) : Bits.formatSigned w v = intChars w v := by
  obtain ⟨n, rfl⟩ := Int.eq_ofNat_of_zero_le hv
  rw [Bits.formatSigned, if_neg (by omega), intChars, if_pos (by omega), Int.natAbs_natCast,
    Int.toNat_natCast]

theorem natAbs_lt_iff {v : ℤ} (hv : 0 ≤ v) : v.natAbs < 2 ^ w ↔ v < 2 ^ w := by
  obtain ⟨n, rfl⟩ := Int.eq_ofNat_of_zero_le hv
  rw [Int.natAbs_natCast]
  exact_mod_cast Iff.rfl

theorem denotes_formatSigned {v : ℤ} (hw : 1 ≤ w) (hv : 0 ≤ v) (hlt : v.natAbs < 2 ^ w) :
    Denotes w v (Bits.formatSigned w v) := by
  rw [formatSigned_eq_intChars hv, Probe.denotes_intChars_iff hw]
  have hpow : (0 : ℤ) < 2 ^ (w - 1) := by positivity
  exact ⟨Or.inl (by omega), (natAbs_lt_iff hv).mp hlt⟩

theorem sameMatch_denotes_iff {v : ℤ} {chars chars' : List Char} (h' : Denotes w v chars')
    (hchars : ∀ ch ∈ chars, ch = '0' ∨ ch = '1' ∨ ch = 'x' ∨ ch = 'b') :
    SameMatch w chars chars' ↔ Denotes w v chars := by
  rw [SameMatch, bare_eq_self hchars, bare_of_binary h'.binary]
  constructor
  · rintro ⟨rfl, -⟩
    exact h'
  · intro h
    exact ⟨h.eq_of_emod_eq h' rfl, h.length_eq⟩

/-- An integer, a member or a name, and the number of the state machine. -/
theorem agrees_number_iff {val : Value} {v : ℤ} (hv : number? enumDef val = some v)
    (hlt : v.natAbs < 2 ^ w)
    (hhex : isHexStr val w → (∀ ch ∈ bare (val.format.toList.drop 2), HexChar ch) ∧
      (bare (val.format.toList.drop 2)).length = (w + 3) / 4) :
    Agrees w enumDef val (Bits.formatSigned w v) ↔
      1 ≤ w ∧ ∃ v, number? enumDef val = some v ∧ 0 ≤ v ∧
        (isHexStr val w → ∃ m, hexNumber? (bare (val.format.toList.drop 2)) = some m ∧
          (m : ℤ) % 2 ^ w = v % 2 ^ w) := by
  obtain ⟨chars, hchars, hmem, hdenotes⟩ : ∃ chars, toBinStr val w enumDef = .ok chars ∧
      (∀ ch ∈ chars, ch = '0' ∨ ch = '1' ∨ ch = 'x' ∨ ch = 'b') ∧
      (1 ≤ w → 0 ≤ v → (Denotes w v chars ↔
        (isHexStr val w → ∃ m, hexNumber? (bare (val.format.toList.drop 2)) = some m ∧
          (m : ℤ) % 2 ^ w = v % 2 ^ w))) := by
    rcases hx : isHexStr val w
    · refine ⟨_, Probe.toBinStr_number hv hx, fun ch => mem_intChars, fun hw hpos => ?_⟩
      rw [← formatSigned_eq_intChars hpos]
      simp [denotes_formatSigned hw hpos hlt]
    · rcases val with n | ⟨cls, value⟩ | s
      · cases hx
      · cases hx
      · obtain ⟨hdigits, hlen⟩ := hhex hx
        rw [Value.format] at hdigits hlen ⊢
        refine ⟨_, (Probe.toBinStr_hex hx).trans (Probe.hexToBinStr_eq hdigits (by omega)),
          fun ch hch => mem_hexBits hdigits (List.mem_of_mem_drop hch), fun _ _ => ?_⟩
        rw [Probe.denotes_hex_iff hdigits hlen]
        simp
  have hagree : Agrees w enumDef val (Bits.formatSigned w v) ↔
      SameMatch w chars (Bits.formatSigned w v) := by
    simp [Agrees, hchars]
  have hnumber : (∃ v, number? enumDef val = some v ∧ 0 ≤ v ∧
      (isHexStr val w → ∃ m, hexNumber? (bare (val.format.toList.drop 2)) = some m ∧
        (m : ℤ) % 2 ^ w = v % 2 ^ w)) ↔ 0 ≤ v ∧
      (isHexStr val w → ∃ m, hexNumber? (bare (val.format.toList.drop 2)) = some m ∧
        (m : ℤ) % 2 ^ w = v % 2 ^ w) := by
    simp [hv]
  rw [hagree, hnumber]
  by_cases hpos : 0 ≤ v
  · by_cases hw : 1 ≤ w
    · rw [sameMatch_denotes_iff (denotes_formatSigned hw hpos hlt) hmem, hdenotes hw hpos]
      simp [hw, hpos]
    · -- Zero bits: the number 0 is written with one digit.
      obtain rfl : w = 0 := by omega
      obtain rfl : v = 0 := by simpa using hlt
      refine iff_of_false (fun hsame => ?_) fun h => hw h.1
      have hlen := hsame.2
      rw [hsame.1] at hlen
      simp [Bits.formatSigned, Bits.formatBin, bare] at hlen
  · exact iff_of_false (not_sameMatch_negative hmem (not_le.mp hpos)) fun h => hpos h.2.1

end

theorem verifyValuePair_member {probe : Probe.ILAProbe} {enumDef cls : EnumMeta} {op : Value}
    {value : ℤ} (h : verifyValuePair probe (some enumDef) op (.member cls value) = .ok ()) :
    cls = enumDef := by
  rcases op with n | ⟨cls', value'⟩ | op
  · cases h
  · cases h
  · simp only [verifyValuePair] at h
    split_ifs at h
    by_contra hne
    simp [Probe.verifyEnumValue, hne] at h

theorem agrees_iff {probe : Probe.ILAProbe} {enumDef : Option EnumMeta} {valueList : List Value}
    {isTrigger : Bool} {op name value : String} {val : Value} {valueWidth : ℤ}
    {typeCh number chars : List Char}
    (hok : verifyProbeValue probe enumDef valueList isTrigger = .ok ())
    (hmem : (.str op, val) ∈ pairs valueList)
    (hsplit : splitValueStr probe.bitWidth value = .ok (valueWidth, typeCh, number))
    (hsame : SameValue probe.bitWidth enumDef val typeCh number)
    (htsm : verifyTsmNumber name probe.bitWidth op enumDef value = .ok (chars, [])) :
    Agrees probe.bitWidth enumDef val chars ↔
      Translatable probe.bitWidth enumDef val typeCh := by
  have hpair := Probe.verifyProbeValue_mem hok hmem
  obtain ⟨bits, htyped, hchars⟩ := verifyTsmNumber_ok hsplit htsm
  cases hsame with
  | @int n _ h =>
    obtain ⟨hlt, hbits⟩ := verifyIntText_ok h htyped
    obtain rfl := hchars _ hbits
    rw [agrees_number_iff (v := n) rfl hlt (by simp [isHexStr])]
    simp [Translatable]
  | @member cls v _ h =>
    obtain ⟨v', hv', hlt, hbits⟩ := verifyEnumValue_ok htyped
    obtain rfl := hchars _ hbits
    obtain rfl : v' = v := by
      rcases enumDef with - | enumDef
      · cases hv'
      · obtain rfl := verifyValuePair_member hpair
        exact Option.some.inj (hv'.symm.trans h)
    rw [agrees_number_iff (v := v') rfl hlt (by simp [isHexStr])]
    simp [Translatable]
  | @name s v _ h htext =>
    obtain ⟨v', hv', hlt, hbits⟩ := verifyEnumValue_ok htyped
    obtain rfl := hchars _ hbits
    rw [htext] at hv'
    rw [agrees_number_iff hv' hlt fun hhex => Probe.verifyValuePair_hex hhex hpair]
    simp [Translatable]
  | @hex s _ h htext =>
    obtain ⟨hdigits, hlen⟩ := Probe.verifyValuePair_hex h hpair
    have hbits := verifyHexValue_ok (htext ▸ hdigits) (htext ▸ hlen) htyped
    obtain rfl := hchars _ hbits
    refine iff_of_true ⟨_, (Probe.toBinStr_hex h).trans (Probe.hexToBinStr_eq hdigits (by omega)), ?_⟩
      (by simp [Translatable])
    have hbare : bare (((bare number).flatMap bitsOf).drop
        (4 * (bare number).length - probe.bitWidth)) = ((bare number).flatMap bitsOf).drop
        (4 * (bare number).length - probe.bitWidth) :=
      bare_eq_self fun ch hch => mem_hexBits (htext ▸ hdigits) (List.mem_of_mem_drop hch)
    rw [SameMatch, htext]
    refine ⟨rfl, ?_⟩
    rw [hbare, List.length_drop, Probe.length_flatMap_bits (htext ▸ hdigits)]
    rw [htext] at hlen
    omega
  | @bits s _ h hname htext =>
    obtain ⟨hbits, hlen⟩ := verifyBinValue_ok htyped
    obtain rfl := hchars _ hbits
    rcases enumDef with - | enumDef
    · refine iff_of_true ⟨s.toList, by simp [toBinStr, Probe.plain, h, Py.ok_bind], ?_⟩
        (by simp [Translatable])
      rw [SameMatch, htext, bare_bare]
      exact ⟨rfl, hlen⟩
    · have hlookup : Py.lookup s enumDef.members = none := hname
      refine iff_of_false (fun hagree => ?_) (by simp [Translatable])
      obtain ⟨chars, hto, -⟩ := hagree
      simp [toBinStr, Probe.plain, h, hlookup, Py.error_bind] at hto

/-- `5` and `4'u5`. -/
theorem agrees_five : Agrees 4 none (.int 5) ['0', '1', '0', '1'] := by
  have hok : verifyProbeValue ⟨"p", 4⟩ none [.str "==", .int 5] true = .ok () := by decide
  have hsplit : splitValueStr 4 "4'u5" = .ok (4, ['U'], ['5']) := by decide
  have htsm : verifyTsmNumber "p" 4 "==" none "4'u5" = .ok (['0', '1', '0', '1'], []) := by decide
  exact (agrees_iff hok (by simp [pairs]) hsplit (.int (n := 5) (by decide)) htsm).mpr
    (by simp [Translatable, number?, isHexStr])

/-- An enum class with a negative member. -/
def signedEnum : EnumMeta := { name := "level", members := [("low", -1), ("high", 1)] }

/-- The member -1 is `1111` for a probe of four bits and `-001` in the state machine. -/
theorem not_agrees_negative : ¬ ∀ (probe : Probe.ILAProbe) (enumDef : Option EnumMeta)
    (valueList : List Value) (isTrigger : Bool) (op name value : String) (val : Value)
    (valueWidth : ℤ) (typeCh number chars : List Char),
    verifyProbeValue probe enumDef valueList isTrigger = .ok () →
    (Value.str op, val) ∈ pairs valueList →
    splitValueStr probe.bitWidth value = .ok (valueWidth, typeCh, number) →
    SameValue probe.bitWidth enumDef val typeCh number →
    verifyTsmNumber name probe.bitWidth op enumDef value = .ok (chars, []) →
      Agrees probe.bitWidth enumDef val chars := by
  intro h
  obtain ⟨chars, hchars, hsame⟩ := h ⟨"p", 4⟩ (some signedEnum)
    [.str "==", .member signedEnum (-1)] true "==" "p" "4'elow" (.member signedEnum (-1)) 4 ['E']
    ['l', 'o', 'w'] ['-', '0', '0', '1'] (by decide) (by simp [pairs]) (by decide)
    (.member (by decide)) (by decide)
  have hto : toBinStr (.member signedEnum (-1)) 4 (some signedEnum) = .ok ['1', '1', '1', '1'] := by
    decide
  obtain rfl := Except.ok.inj (hto.symm.trans hchars)
  exact absurd hsame.1 (by decide)

end Chipscopy.Tsm
