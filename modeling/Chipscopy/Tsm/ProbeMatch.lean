import Chipscopy.Probe.StringValues
import Chipscopy.Tsm.NumberAgreement
import Chipscopy.Tsm.Split

/-! Compares of a probe with a number

    A compare is written `probe op number` or `number op probe`. The visitor keeps the operator as
    it is written, with a flag for the second order, and the operator of the match is asked for when
    the mapper adds the match. With its sides exchanged `<` is `>`, but the table has `>=` for it:
    the match of a compare with the number first is right unless the two are equal. -/

namespace Chipscopy.Tsm

open Waveform (EnumMeta)
open Mapping (MatchOp Signal Cell specified bitHolds portNumber valueNumber)
open Probe (bare number? hexNumber? HexChar bitsOf Denotes)

namespace CompareOp

def text : CompareOp → String
  | .eq => "=="
  | .neq => "!="
  | .gt => ">"
  | .lt => "<"
  | .ge => ">="
  | .le => "<="

/-- `a op b` for unsigned integers. -/
def compares : CompareOp → ℕ → ℕ → Prop
  | .eq, a, b => a = b
  | .neq, a, b => a ≠ b
  | .gt, a, b => b < a
  | .lt, a, b => a < b
  | .ge, a, b => b ≤ a
  | .le, a, b => a ≤ b

/-- Replacing the operator by the table is exchanging its sides, unless they are equal. -/
theorem compares_reverse_iff (op : CompareOp) (n v : ℕ) :
    ((reverseCompareOperator op).compares v n ↔ op.compares n v) ↔
      op = .eq ∨ op = .neq ∨ n ≠ v := by
  cases op <;> simp only [reverseCompareOperator, compares, reduceCtorEq, true_or, or_true,
    false_or, eq_comm, ne_eq]
  all_goals omega

end CompareOp

/-! ### The visitor -/

/-- A probe with the number of its bits. -/
structure TsmProbe extends ILAProbe where
  bitWidth : ℕ
  deriving DecidableEq

structure ProbeMatchContext where
  identifier : String
  compareOp : CompareOp
  probeNumber : String
  /-- The first child is not the identifier. -/
  numberFirst : Bool

/-- Result of the visit; an undefined probe is none. -/
structure ProbeMatch where
  probe : Option TsmProbe
  compareOp : CompareOp
  compareValue : List Char
  reverseOrder : Bool
  deriving DecidableEq

/-- The compare of a probe, with the messages reported. -/
def visitProbeMatch (probes : List (String × TsmProbe)) (probeEnumDefs : List (String × EnumMeta))
    (ctx : ProbeMatchContext) : Except Py.Error (ProbeMatch × List String) :=
  match Py.lookup ctx.identifier probes with
  | none =>
    .ok (⟨none, ctx.compareOp, ['x', 'x', 'x'], ctx.numberFirst⟩,
      [s!"Undefined probe: \"{ctx.identifier}\""])
  | some probe => do
    let enumDef := Py.lookup ctx.identifier probeEnumDefs
    let (binaryNumber, errors) ← verifyTsmNumber ctx.identifier probe.bitWidth ctx.compareOp.text
      enumDef ctx.probeNumber
    return (⟨some probe, ctx.compareOp, binaryNumber, ctx.numberFirst⟩, errors)

def ProbeMatch.matchUnit? (found : ProbeMatch) : Option ILATsmMatchUnit :=
  found.probe.map fun probe =>
    { probe := probe.toILAProbe, compareOp := found.compareOp, compareValue := found.compareValue,
      reverseOrder := found.reverseOrder }

/-! ### Numbers and probe values -/

/-- The unsigned integer that a number of the language stands for: an integer or a member that is
    not negative, hexadecimal digits or bits without a don't care. -/
def unsigned? (bitWidth : ℕ) (enumDef : Option EnumMeta) (text : String) : Option ℕ :=
  match splitValueStr bitWidth text with
  | .error _ => none
  | .ok (_, typeCh, number) =>
    if typeCh = ['U'] then (IntLiteral.int 10 (Bits.strip ['_'] number)).toOption.bind Int.toNat?
    else if typeCh = ['E'] then (number? enumDef (.str (String.ofList number))).bind Int.toNat?
    else if typeCh = ['H'] then hexNumber? (bare number)
    else if typeCh = ['B'] ∧ ∀ ch ∈ bare number, ch = '0' ∨ ch = '1' then
      some (Nat.ofDigitChars 2 (bare number) 0)
    else none

/-- Value of a range of port bits. -/
def segmentValue (port : ℕ → Signal) (seq : MapPortSeq) : ℕ :=
  Bits.ofBits ((List.range seq.width).map fun k : ℕ => (port seq.portIdx (seq.lowIdx + k)).2)

/-- The characters of a string of `w` bits and the number it stands for. -/
structure Spells (w : ℕ) (chars : List Char) (n : ℕ) : Prop where
  length_eq : chars.length = w
  binary : Bits.Binary chars
  number_eq : Nat.ofDigitChars 2 chars 0 = n

section

variable {name op value : String} {w n : ℕ} {enumDef : Option EnumMeta} {valueWidth : ℤ}
  {typeCh number chars : List Char}

theorem prefixErrors_ne_nil (h : valueWidth ≤ 0 ∨ valueWidth ≠ w) :
    prefixErrors name w op value valueWidth ≠ [] := by
  simp [prefixErrors, h]

/-- Without an error the probe has a bit. -/
theorem verifyTsmNumber_pos (hsplit : splitValueStr w value = .ok (valueWidth, typeCh, number))
    (h : verifyTsmNumber name w op enumDef value = .ok (chars, [])) : 0 < w := by
  by_contra hw
  have hprefix : prefixErrors name w op value valueWidth ≠ [] := by
    refine prefixErrors_ne_nil ?_
    by_cases hwidth : valueWidth ≤ 0
    · exact .inl hwidth
    · exact .inr (by omega)
  simp [verifyTsmNumber, hsplit, Py.ok_bind, hprefix, pure, Except.pure] at h

theorem spells_formatSigned {v : ℤ} (hw : 0 < w) (hv : v.toNat? = some n)
    (hlt : v.natAbs < 2 ^ w) : Spells w (Bits.formatSigned w v) n := by
  obtain rfl : v = (n : ℤ) := by
    rcases v with m | m
    · exact congrArg Int.ofNat (Option.some.inj hv)
    · cases hv
  rw [Int.natAbs_natCast] at hlt
  rw [Bits.formatSigned, if_neg (by omega), Int.natAbs_natCast]
  exact ⟨(Bits.length_formatBin_eq_iff hw).mpr hlt, Bits.binary_formatBin w n,
    Bits.number_formatBin w n⟩

/-- Hexadecimal digits, of which the first may have more bits than are left. -/
theorem spells_hexDigits {digits : List Char} (hdigits : ∀ ch ∈ digits, HexChar ch)
    (hne : digits ≠ []) (hlen : digits.length = (w + 3) / 4)
    (hbits : (digits.length - 1) * 4 + Probe.getHexCharBitLen (digits.headD 'x') ≤ w)
    (hn : hexNumber? digits = some n) :
    Spells w ((digits.flatMap bitsOf).drop (4 * digits.length - w)) n := by
  have hspare := Probe.hexBits_spare hdigits hne hbits
  have hlength := Probe.length_flatMap_bits hdigits
  rcases Probe.hexNumber_bits hdigits 0 with ⟨-, hnone⟩ | ⟨hbinary, hsome⟩
  · rw [hexNumber?, hnone] at hn
    cases hn
  · obtain rfl : Nat.ofDigitChars 2 (digits.flatMap bitsOf) 0 = n := by
      rw [hexNumber?, hsome] at hn
      exact Option.some.inj hn
    refine ⟨by rw [List.length_drop, hlength]; omega, hbinary.drop _, ?_⟩
    -- Only zeros are dropped.
    have hzeros : (digits.flatMap bitsOf).take (4 * digits.length - w) =
        List.replicate (4 * digits.length - w) '0' := by
      refine List.eq_replicate_iff.mpr ⟨by rw [List.length_take, hlength]; omega, fun bit hbit => ?_⟩
      rcases hspare bit hbit with h | h
      · exact h
      · rcases hbinary bit (List.mem_of_mem_take hbit) with h' | h' <;> simp [h'] at h
    conv_rhs => rw [← List.take_append_drop (4 * digits.length - w) (digits.flatMap bitsOf)]
    rw [hzeros, Nat.ofDigitChars_append, Nat.ofDigitChars_replicate_zero, Nat.mul_zero]

theorem verifyHexValue_fits {bits : Option (List Char)}
    (h : verifyTyped name w op enumDef ['H'] number = .ok (bits, [])) :
    bare number ≠ [] ∧ (∀ ch ∈ bare number, HexChar ch) ∧
      (bare number).length = (w + 3) / 4 ∧ ((bare number).length - 1) * 4 +
        Probe.getHexCharBitLen ((bare number).headD 'x') ≤ w := by
  simp only [verifyTyped, if_neg (show ['H'] ≠ ['U'] by simp),
    if_neg (show ['H'] ≠ ['E'] by simp), if_true, verifyHexValue] at h
  rw [show (number.map Char.toLower).filter (· ≠ '_') = bare number from rfl] at h
  by_cases hempty : (bare number).length = 0
  · rw [if_pos hempty] at h
    cases congrArg Prod.snd (Except.ok.inj h)
  by_cases hvalid : ∀ ch ∈ bare number, ch ∈ Probe.validHexChars
  swap
  · rw [if_neg hempty, if_pos hvalid] at h
    cases congrArg Prod.snd (Except.ok.inj h)
  rw [if_neg hempty, if_neg (not_not.mpr hvalid)] at h
  obtain ⟨hlen, hbits⟩ : (bare number).length = (w + 3) / 4 ∧ ((bare number).length - 1) * 4 +
      Probe.getHexCharBitLen ((bare number).headD 'x') ≤ w := by
    cases hconv : Probe.hexToBinStr (bare number) w with
    | error e => rw [hconv] at h; cases h
    | ok chars =>
      rw [hconv] at h
      have herrors := congrArg Prod.snd (Except.ok.inj h)
      have hlength := (List.append_eq_nil_iff.mp herrors).1
      by_cases hlen : (bare number).length = (w + 3) / 4
      · by_cases hbits : ((bare number).length - 1) * 4 +
            Probe.getHexCharBitLen ((bare number).headD 'x') ≤ w
        · exact ⟨hlen, hbits⟩
        · rw [if_neg (not_not.mpr hlen), if_pos (not_le.mp hbits)] at hlength
          cases hlength
      · rw [if_pos hlen] at hlength
        cases hlength
  refine ⟨fun hnil => hempty (by simp [hnil]), fun ch hch => ⟨hvalid ch hch, ?_⟩, hlen, hbits⟩
  rintro rfl
  exact absurd (List.mem_filter.mp hch).2 (by simp)

/-- A number without an error is written as the bits of the unsigned integer it stands for. -/
theorem verifyTsmNumber_spells (hn : unsigned? w enumDef value = some n)
    (h : verifyTsmNumber name w op enumDef value = .ok (chars, [])) : Spells w chars n := by
  rcases hsplit : splitValueStr w value with e | ⟨valueWidth, typeCh, number⟩
  · simp [unsigned?, hsplit] at hn
  have hw := verifyTsmNumber_pos hsplit h
  obtain ⟨bits, htyped, hchars⟩ := verifyTsmNumber_ok hsplit h
  simp only [unsigned?, hsplit] at hn
  by_cases hU : typeCh = ['U']
  · subst hU
    rw [if_pos rfl] at hn
    cases hv : IntLiteral.int 10 (Bits.strip ['_'] number) with
    | error e => rw [hv] at hn; cases hn
    | ok v =>
      rw [hv] at hn
      obtain ⟨hlt, hbits⟩ := verifyIntText_ok hv htyped
      rw [← hchars _ hbits]
      exact spells_formatSigned hw hn hlt
  by_cases hE : typeCh = ['E']
  · subst hE
    rw [if_neg hU, if_pos rfl] at hn
    obtain ⟨v, hv, hlt, hbits⟩ := verifyEnumValue_ok htyped
    rw [hv] at hn
    rw [← hchars _ hbits]
    exact spells_formatSigned hw hn hlt
  by_cases hH : typeCh = ['H']
  · subst hH
    rw [if_neg hU, if_neg hE, if_pos rfl] at hn
    obtain ⟨hne, hdigits, hlen, hbits⟩ := verifyHexValue_fits htyped
    rw [← hchars _ (verifyHexValue_ok hdigits hlen htyped)]
    exact spells_hexDigits hdigits hne hlen hbits hn
  by_cases hB : typeCh = ['B'] ∧ ∀ ch ∈ bare number, ch = '0' ∨ ch = '1'
  · obtain ⟨rfl, hbinary⟩ := hB
    rw [if_neg hU, if_neg hE, if_neg hH, if_pos ⟨rfl, hbinary⟩] at hn
    obtain ⟨hbits, hlen⟩ := verifyBinValue_ok htyped
    rw [← hchars _ hbits]
    exact ⟨hlen, hbinary, Option.some.inj hn⟩
  · rw [if_neg hU, if_neg hE, if_neg hH, if_neg hB] at hn
    cases hn

end

/-! ### The match of a compare -/

theorem charNumber_append (l : List Char) (ch : Char) :
    charNumber (l ++ [ch]) = charNumber l + 2 ^ l.length * (ch == '1').toNat := by
  induction l with
  | nil => simp [charNumber]
  | cons c l ih =>
    rw [List.cons_append, charNumber, ih, charNumber, List.length_cons, pow_succ]
    ring

/-- A string read from its last character. -/
theorem charNumber_reverse {chars : List Char} (h : Bits.Binary chars) :
    charNumber chars.reverse = Nat.ofDigitChars 2 chars 0 := by
  induction chars with
  | nil => rfl
  | cons ch chars ih =>
    obtain ⟨hch, hchars⟩ := Bits.binary_cons.mp h
    rw [List.reverse_cons, charNumber_append, ih hchars, Bits.Binary.number_cons hch,
      List.length_reverse]
    rcases hch with rfl | rfl <;> simp [add_comm]

theorem portNumber_specified (sig : Signal) {l : List Char} (h : Binary l) (pos : ℤ) :
    portNumber (specified sig pos l) =
      Bits.ofBits ((List.range l.length).map fun k : ℕ => (sig (pos + k)).2) := by
  induction l generalizing pos with
  | nil => rfl
  | cons ch l ih =>
    obtain ⟨hch, hl⟩ := List.forall_mem_cons.mp h
    rw [specified_binary_cons sig pos l hch, portNumber, ih hl, List.length_cons,
      List.range_succ_eq_map, List.map_cons, List.map_map, Bits.ofBits]
    simp [Function.comp_def, add_assoc, add_comm (1 : ℤ)]

/-- Bits of zeros and ones are all equal exactly if the numbers are. -/
theorem all_bitHolds_iff {cells : List Cell} (h : ∀ c ∈ cells, c.ch = '0' ∨ c.ch = '1') :
    (cells.all fun c => bitHolds c.ch c.prev c.cur) = true ↔
      portNumber cells = valueNumber cells := by
  induction cells with
  | nil => simp [portNumber, valueNumber]
  | cons c cells ih =>
    obtain ⟨hc, hcells⟩ := List.forall_mem_cons.mp h
    rw [List.all_cons, Bool.and_eq_true, ih hcells, portNumber, valueNumber]
    rcases c with ⟨ch, prev, cur⟩
    dsimp only at hc
    rcases hc with rfl | rfl <;> cases cur <;> simp [bitHolds] <;> omega

theorem holds_compares (op : CompareOp) {cells : List Cell}
    (h : ∀ c ∈ cells, c.ch = '0' ∨ c.ch = '1') : op.toMatchOp.holds cells = true ↔
      op.compares (portNumber cells) (valueNumber cells) := by
  have heq := all_bitHolds_iff h
  cases op with
  | eq => exact heq
  | neq =>
    rw [CompareOp.toMatchOp, MatchOp.holds, Bool.not_eq_true', ← Bool.not_eq_true, heq]
    rfl
  | _ => simp [CompareOp.toMatchOp, MatchOp.holds, CompareOp.compares]

theorem mem_specified (sig : Signal) {l : List Char} (h : Binary l) (pos : ℤ) :
    ∀ c ∈ specified sig pos l, c.ch = '0' ∨ c.ch = '1' := by
  induction l generalizing pos with
  | nil => simp [specified]
  | cons ch l ih =>
    obtain ⟨hch, hl⟩ := List.forall_mem_cons.mp h
    rw [specified_binary_cons sig pos l hch]
    exact List.forall_mem_cons.mpr ⟨hch, ih hl _⟩

/-- The match of a compare on one range of bits compares their value with the number. -/
theorem holds_single (port : ℕ → Signal) (o : LogicOp) (name : String) {mu : ILATsmMatchUnit}
    {seq : MapPortSeq} {n : ℕ} (hmap : mu.probe.map = [seq])
    (hvalue : Spells seq.width mu.compareValue n) :
    (addProbeValueToPorts mu mu.probe.map { name := name, op := o.toConditionOp }).holds port =
      true ↔ mu.getCompareOperator.compares (segmentValue port seq) n := by
  have hbinary : Binary mu.compareValue.reverse := fun ch hch =>
    hvalue.binary ch (List.mem_reverse.mp hch)
  have hlen : mu.compareValue.length = totalWidth mu.probe.map := by
    simpa [hmap, totalWidth] using hvalue.length_eq
  have hmem : ∀ ch ∈ mu.compareValue, ch ∈ Mapping.matchBitValues := by
    intro ch hch
    rcases hvalue.binary ch hch with rfl | rfl <;> simp [Mapping.matchBitValues]
  have hpieces : mu.pieces = [(seq, mu.compareValue.reverse)] := by
    rw [ILATsmMatchUnit.pieces, hmap, chunks, chunks,
      List.take_of_length_le (by rw [List.length_reverse, hvalue.length_eq])]
  have hport : portNumber (pieceCells port (seq, mu.compareValue.reverse)) =
      segmentValue port seq := by
    rw [pieceCells, portNumber_specified _ hbinary, List.length_reverse, hvalue.length_eq]
    rfl
  have hnumber : valueNumber (pieceCells port (seq, mu.compareValue.reverse)) = n := by
    rw [pieceCells, valueNumber_specified _ _ hbinary, charNumber_reverse hvalue.binary,
      hvalue.number_eq]
  rw [holds_addProbeValueToPorts port o name hlen hmem, hpieces]
  have hcompare := holds_compares mu.getCompareOperator
    (mem_specified (port seq.portIdx) hbinary seq.lowIdx)
  rw [← hport, ← hnumber, pieceCells, ← hcompare]
  cases o <;> simp [LogicOp.join, pieceCells]

section

variable {probes : List (String × TsmProbe)} {probeEnumDefs : List (String × EnumMeta)}
  {ctx : ProbeMatchContext} {probe : TsmProbe} {seq : MapPortSeq} {found : ProbeMatch}
  {mu : ILATsmMatchUnit} {n : ℕ}

/-- The match unit of a compare of a defined probe without an error. -/
theorem visitProbeMatch_ok (hprobe : Py.lookup ctx.identifier probes = some probe)
    (hnumber : unsigned? probe.bitWidth (Py.lookup ctx.identifier probeEnumDefs)
      ctx.probeNumber = some n)
    (hvisit : visitProbeMatch probes probeEnumDefs ctx = .ok (found, []))
    (hunit : found.matchUnit? = some mu) :
    mu.probe = probe.toILAProbe ∧ mu.compareOp = ctx.compareOp ∧
      mu.reverseOrder = ctx.numberFirst ∧ Spells probe.bitWidth mu.compareValue n := by
  simp only [visitProbeMatch, hprobe] at hvisit
  obtain ⟨⟨chars, errors⟩, hverify, hfound⟩ := Py.bind_eq_ok hvisit
  obtain ⟨rfl, rfl⟩ := Prod.mk.inj (Except.ok.inj hfound)
  obtain rfl := Option.some.inj hunit
  exact ⟨rfl, rfl, rfl, verifyTsmNumber_spells hnumber hverify⟩

/-- A compare with the number first keeps its meaning unless an order is asked of equal values. -/
theorem reversed_compare_iff (hfirst : ctx.numberFirst = true)
    (hprobe : Py.lookup ctx.identifier probes = some probe) (hmap : probe.map = [seq])
    (hwidth : seq.width = probe.bitWidth)
    (hnumber : unsigned? probe.bitWidth (Py.lookup ctx.identifier probeEnumDefs)
      ctx.probeNumber = some n)
    (hvisit : visitProbeMatch probes probeEnumDefs ctx = .ok (found, []))
    (hunit : found.matchUnit? = some mu) (o : LogicOp) (name : String) (port : ℕ → Signal) :
    ((addProbeValueToPorts mu mu.probe.map { name := name, op := o.toConditionOp }).holds port =
        true ↔ ctx.compareOp.compares n (segmentValue port seq)) ↔
      ctx.compareOp = .eq ∨ ctx.compareOp = .neq ∨ n ≠ segmentValue port seq := by
  obtain ⟨hmu, hop, hreverse, hvalue⟩ := visitProbeMatch_ok hprobe hnumber hvisit hunit
  have hseq : mu.probe.map = [seq] := by rw [hmu, hmap]
  rw [holds_single port o name hseq (hwidth ▸ hvalue), ILATsmMatchUnit.getCompareOperator, hreverse,
    hfirst, if_pos rfl, hop]
  exact CompareOp.compares_reverse_iff ctx.compareOp n (segmentValue port seq)

end

/-! ### A compare of four bits -/

/-- A probe on the lowest four bits of port 0. -/
def fourBits : TsmProbe where
  name := "p"
  map := [{ portIdx := 0, highIdx := 3, lowIdx := 0 }]
  bitWidth := 4

/-- The value 4 on the lowest four bits of every port. -/
def showsFour : ℕ → Signal := fun _ k => (false, k == 2)

/-- The unit for a compare of `fourBits` with the number 4. -/
def fourUnit (compareOp : CompareOp) : ILATsmMatchUnit where
  probe := fourBits.toILAProbe
  compareOp := compareOp
  compareValue := ['0', '1', '0', '0']
  reverseOrder := true

/-- `4'u4 == p`. -/
theorem reversed_compare_eq :
    (addProbeValueToPorts (fourUnit .eq) (fourUnit .eq).probe.map
      { name := "tc0", op := LogicOp.and.toConditionOp }).holds showsFour = true ↔
      CompareOp.eq.compares 4 (segmentValue showsFour ⟨0, 3, 0, by decide⟩) :=
  (@reversed_compare_iff [("p", fourBits)] [] ⟨"p", .eq, "4'u4", true⟩ fourBits ⟨0, 3, 0, by decide⟩
    ⟨some fourBits, .eq, ['0', '1', '0', '0'], true⟩ (fourUnit .eq) 4 rfl rfl rfl rfl (by decide)
    (by decide) rfl .and "tc0" showsFour).mpr (.inl rfl)

/-- `4'u4 < p` holds where `p` is 4. -/
theorem not_reversed_compare_less : ¬ ∀ (probes : List (String × TsmProbe))
    (probeEnumDefs : List (String × EnumMeta)) (ctx : ProbeMatchContext) (probe : TsmProbe)
    (seq : MapPortSeq) (found : ProbeMatch) (mu : ILATsmMatchUnit) (n : ℕ),
    ctx.numberFirst = true → Py.lookup ctx.identifier probes = some probe → probe.map = [seq] →
    seq.width = probe.bitWidth →
    unsigned? probe.bitWidth (Py.lookup ctx.identifier probeEnumDefs) ctx.probeNumber = some n →
    visitProbeMatch probes probeEnumDefs ctx = .ok (found, []) → found.matchUnit? = some mu →
    ∀ (o : LogicOp) (name : String) (port : ℕ → Signal),
      (addProbeValueToPorts mu mu.probe.map { name := name, op := o.toConditionOp }).holds port =
        true ↔ ctx.compareOp.compares n (segmentValue port seq) := by
  intro h
  have hholds := h [("p", fourBits)] [] ⟨"p", .lt, "4'u4", true⟩ fourBits ⟨0, 3, 0, by decide⟩
    ⟨some fourBits, .lt, ['0', '1', '0', '0'], true⟩ (fourUnit .lt) 4 rfl rfl rfl rfl (by decide)
    (by decide) rfl .and "tc0" showsFour
  have htrue : (addProbeValueToPorts (fourUnit .lt) (fourUnit .lt).probe.map
      { name := "tc0", op := LogicOp.and.toConditionOp }).holds showsFour = true := by decide
  have hless : 4 < segmentValue showsFour ⟨0, 3, 0, by decide⟩ := hholds.mp htrue
  exact absurd hless (by decide)

end Chipscopy.Tsm
