import Chipscopy.Api.Patg
import Chipscopy.Lib.BitFields
import Chipscopy.Lib.IntLiteral

/-! Reading an instruction of a traffic generator

    A text of 103 digits is the number of an instruction. The fields follow each other without a gap
    from the first bit to the last, so each is found again, and a number of 411 bits is the one that
    its fields are packed into. -/

namespace Chipscopy.Api.Patg

namespace PATGInstruction

/-- Entries of the packing. -/
abbrev Entry := Field × String × ℕ × ℕ

def Entry.width (e : Entry) : ℕ := e.2.2.1
def Entry.bitShift (e : Entry) : ℕ := e.2.2.2

/-- The loop of `unpack_from_string`. -/
def setFields (i : PATGInstruction) (bigInt : ℤ) : PATGInstruction where
  value := instructionPacking.foldl (fun value (field, _, width, bitShift) =>
    Function.update value field ((bigInt >>> bitShift).land ((1 : ℤ) <<< width - 1))) i.value
  addrIncrBy := i.addrIncrBy

def unpackFromString (i : PATGInstruction) (memStr : String) : Except Py.Error PATGInstruction :=
  if memStr.length ≠ 103 then
    .error (.valueError ("Memory string must be 103 hexadecimal characters long representing 411 " ++
      "bits. Zero pad if necessary."))
  else do
    let bigInt ← IntLiteral.int 16 memStr.toList
    (i.setFields bigInt).validate
    .ok (i.setFields bigInt)

/-- Fields within their widths. -/
def Fits (i : PATGInstruction) : Prop :=
  ∀ e ∈ instructionPacking, 0 ≤ i.value e.1 ∧ i.value e.1 < 2 ^ Entry.width e

/-- A text of 103 hexadecimal digits and its number. -/
def HexForm (memStr : String) (word : ℕ) : Prop :=
  memStr.length = 103 ∧ Bits.hexNumber? memStr.toList = some word

/-! ### The packing -/

theorem tiles : BitFields.Tiles Entry.width Entry.bitShift 0 instructionPacking 411 := by decide

theorem nodup_fields : (instructionPacking.map (·.1)).Nodup := by decide

theorem exists_entry (field : Field) : ∃ e ∈ instructionPacking, e.1 = field := by
  have hall : field ∈ instructionPacking.map (·.1) := by
    cases field
    all_goals decide
  obtain ⟨e, he, hfield⟩ := List.mem_map.mp hall
  exact ⟨e, he, hfield⟩

/-- Two entries of one field are the same. -/
theorem entry_unique {e e' : Entry} (he : e ∈ instructionPacking) (he' : e' ∈ instructionPacking)
    (h : e.1 = e'.1) : e = e' :=
  List.inj_on_of_nodup_map nodup_fields he he' h

/-- The number of a field that is packed. -/
def fieldNumber (i : PATGInstruction) (e : Entry) : ℕ := (i.value e.1 % 2 ^ e.width).toNat

theorem fieldNumber_lt (i : PATGInstruction) (e : Entry) : i.fieldNumber e < 2 ^ e.width :=
  Bits.toNat_emod_lt _ _

theorem packStruct_eq_pack (i : PATGInstruction) :
    i.packStruct = BitFields.pack Entry.width Entry.bitShift i.fieldNumber instructionPacking := by
  have hterm : ∀ (word : ℕ) (e : Entry),
      (word ||| ((i.value e.1).land ((1 : ℤ) <<< e.width - 1)).toNat <<< e.bitShift) =
        word ||| (i.fieldNumber e % 2 ^ e.width) <<< e.bitShift := by
    intro word e
    rw [Bits.land_mask, Int.toNat_natCast, Nat.mod_eq_of_lt (i.fieldNumber_lt e), fieldNumber]
  rw [BitFields.pack]
  exact congrArg (fun f => instructionPacking.foldl f 0)
    (funext fun word => funext fun e => hterm word e)

theorem validate_eq_ok_iff (i : PATGInstruction) : i.validate = .ok () ↔ i.Fits := by
  rw [validate, Py.forM_eq_ok_iff, Fits]
  refine forall₂_congr fun e _ => ?_
  constructor
  · intro h
    by_contra hout
    have hcheck : ¬ (0 ≤ i.value e.1 ∧ i.value e.1 < 2 ^ e.2.2.1) := hout
    dsimp only at h
    rw [if_neg hcheck] at h
    cases h
  · intro hin
    exact if_pos hin

/-! ### Fields of a number -/

theorem foldl_update {new : Entry → ℤ} {entries : List Entry} (hnodup : (entries.map (·.1)).Nodup)
    (value : Field → ℤ) {e : Entry} (he : e ∈ entries) :
    entries.foldl (fun value e => Function.update value e.1 (new e)) value e.1 = new e := by
  have hkeep : ∀ (entries : List Entry) (value : Field → ℤ), e.1 ∉ entries.map (·.1) →
      entries.foldl (fun value e => Function.update value e.1 (new e)) value e.1 = value e.1 := by
    intro entries
    induction entries with
    | nil => simp
    | cons d entries ih =>
      intro value hnot
      obtain ⟨hne, hrest⟩ : ¬ e.1 = d.1 ∧ e.1 ∉ entries.map (·.1) := by simpa using hnot
      rw [List.foldl_cons, ih _ hrest, Function.update_of_ne hne]
  induction entries generalizing value with
  | nil => simp at he
  | cons d entries ih =>
    rw [List.map_cons, List.nodup_cons] at hnodup
    rcases List.mem_cons.mp he with rfl | hmem
    · rw [List.foldl_cons, hkeep entries _ hnodup.1, Function.update_self]
    · rw [List.foldl_cons, ih hnodup.2 _ hmem]

theorem setFields_value (i : PATGInstruction) (word : ℕ) {e : Entry} (he : e ∈ instructionPacking) :
    (i.setFields word).value e.1 = BitFields.extract Entry.width Entry.bitShift word e := by
  have hfield := @foldl_update
    (fun e => ((word : ℤ) >>> e.bitShift).land ((1 : ℤ) <<< e.width - 1)) instructionPacking
    nodup_fields i.value e he
  have hshift : (word : ℤ) >>> e.bitShift = ((word >>> e.bitShift : ℕ) : ℤ) := rfl
  have hmod : ((word >>> e.bitShift : ℕ) : ℤ) % 2 ^ e.width =
      ((word >>> e.bitShift % 2 ^ e.width : ℕ) : ℤ) := by push_cast; rfl
  rw [Bits.land_mask, hshift, hmod, Int.toNat_natCast] at hfield
  exact hfield

theorem setFields_fits (i : PATGInstruction) (word : ℕ) : (i.setFields word).Fits := by
  intro e he
  rw [setFields_value i word he]
  exact ⟨Int.natCast_nonneg _, by exact_mod_cast BitFields.extract_lt word e⟩

theorem unpackFromString_eq {memStr : String} {word : ℕ} (h : HexForm memStr word)
    (i : PATGInstruction) : i.unpackFromString memStr = .ok (i.setFields word) := by
  obtain ⟨hlen, hnumber⟩ := h
  have hne : memStr.toList ≠ [] := by
    intro hnil
    rw [← String.length_toList, hnil] at hlen
    cases hlen
  have hint := IntLiteral.int_hexNumber hne hnumber
  have hfits := (validate_eq_ok_iff _).mpr (i.setFields_fits word)
  rw [unpackFromString, if_neg (not_not.mpr hlen), hint, Py.ok_bind, hfits, Py.ok_bind]

/-! ### Round trips -/

/-- The number of an instruction has the fields of the instruction. -/
theorem setFields_packStruct {i : PATGInstruction} (hfits : i.Fits) (j : PATGInstruction) :
    (j.setFields i.packStruct).value = i.value := by
  funext field
  obtain ⟨e, he, rfl⟩ := exists_entry field
  obtain ⟨hlow, hhigh⟩ := hfits e he
  rw [setFields_value j _ he, packStruct_eq_pack, BitFields.extract_pack _ tiles.pairwise he,
    Nat.mod_eq_of_lt (i.fieldNumber_lt e), fieldNumber, Int.emod_eq_of_lt hlow hhigh,
    Int.toNat_of_nonneg hlow]

/-- The fields of a number pack to the number. -/
theorem packStruct_setFields {word : ℕ} (h : word < 2 ^ 411) (j : PATGInstruction) :
    (j.setFields word).packStruct = word := by
  have hnumbers : ∀ e ∈ instructionPacking, (j.setFields word).fieldNumber e =
      BitFields.extract Entry.width Entry.bitShift word e := by
    intro e he
    obtain ⟨hlow, hhigh⟩ := j.setFields_fits word e he
    rw [fieldNumber, Int.emod_eq_of_lt hlow hhigh, setFields_value j word he, Int.toNat_natCast]
  rw [packStruct_eq_pack, BitFields.pack_congr hnumbers]
  exact BitFields.pack_extract (fun bit hbit => tiles.cover (Nat.zero_le _) hbit) h

theorem hexForm_formatHex {word : ℕ} (h : word < 2 ^ 411) :
    HexForm (String.ofList (IntLiteral.formatHex 103 word)) word ∧
      HexForm (String.ofList ((IntLiteral.formatHex 103 word).map Char.toUpper)) word := by
  have hlt : word < 16 ^ 103 := IntLiteral.lt_sixteen_pow h (by decide)
  have hlen := IntLiteral.length_formatHex (by decide : 0 < 103) hlt
  constructor
  · refine ⟨?_, ?_⟩
    · rw [String.length_ofList, hlen]
    · rw [String.toList_ofList, IntLiteral.hexNumber_formatHex]
  · refine ⟨?_, ?_⟩
    · rw [String.length_ofList, List.length_map, hlen]
    · rw [String.toList_ofList, IntLiteral.hexNumber_upper]

/-- Packing and reading are inverse to each other, and every bit is in one field. -/
theorem packing_roundTrip :
    (∀ i : PATGInstruction, i.Fits → ∀ memStr, HexForm memStr i.packStruct → ∀ j : PATGInstruction,
      ∃ k, j.unpackFromString memStr = .ok k ∧ k.value = i.value) ∧
    (∀ i : PATGInstruction,
      HexForm (String.ofList (IntLiteral.formatHex 103 i.packStruct)) i.packStruct ∧
      HexForm (String.ofList ((IntLiteral.formatHex 103 i.packStruct).map Char.toUpper))
        i.packStruct) ∧
    (∀ memStr word, HexForm memStr word → word < 2 ^ 411 → ∀ j : PATGInstruction,
      ∃ k, j.unpackFromString memStr = .ok k ∧ k.packStruct = word) ∧
    (∀ bit < 411, ∃! e : Entry, e ∈ instructionPacking ∧
      e.bitShift ≤ bit ∧ bit < e.bitShift + e.width) ∧
    ∀ e ∈ instructionPacking, Entry.bitShift e + Entry.width e ≤ 411 := by
  refine ⟨?_, ?_, ?_, ?_, ?_⟩
  · intro i hfits memStr hform j
    exact ⟨_, unpackFromString_eq hform j, setFields_packStruct hfits j⟩
  · intro i
    exact hexForm_formatHex i.packStruct_lt
  · intro memStr word hform hword j
    exact ⟨_, unpackFromString_eq hform j, packStruct_setFields hword j⟩
  · intro bit hbit
    exact tiles.existsUnique (Nat.zero_le _) hbit
  · intro e he
    exact (tiles.bounds e he).2

/-- A write of sixteen beats with the highest bit set. -/
def burst : PATGInstruction where
  value
    | .transactionType => 1
    | .axiLen => 15
    | .axiSize => 6
    | .wdataPatValue => 0x100
    | .user11thBit => 1
    | _ => 0
  addrIncrBy := none

def burstMem : String :=
  "4000000000004000000000000000000000000000000000000000" ++
    "00000000000000000000000000000000000000800003f000000"

theorem packing_roundTrip_burst : HexForm burstMem burst.packStruct ∧
    ∃ k, defaults.unpackFromString burstMem = .ok k ∧ k.value = burst.value := by
  have hform : HexForm burstMem burst.packStruct := by
    rw [HexForm]
    decide +kernel
  have hfits : burst.Fits := by
    rw [Fits]
    decide
  exact ⟨hform, packing_roundTrip.1 burst hfits _ hform defaults⟩

end PATGInstruction

end Chipscopy.Api.Patg
