import Chipscopy.Api.Memory

/-! Programming a traffic generator

    An instruction is packed into one number of 411 bits, cut into words and written into the
    instruction memory, either through the memory of the device, where each instruction has a place
    of sixteen words, or word by word through the debug hub. The words are those up to the highest
    bit that is set, so an instruction may have fewer than thirteen. -/

namespace Chipscopy.Api.Patg

def maxTgInstructions : ℕ := 511
def dbgHubCtrl : ℕ := 0x20000000
def dbgHubPreamble : ℕ := 0x0002800F
def numWordsPerWideInstruction : ℕ := 13

/-- Fields that are packed. -/
inductive Field
  | axiUser | axiRegion | axiQos | axiProt | axiCache | axiLock | axiBurst | axiSize | axiLen
  | axiIdType | txnCount | transactionType | numberOfBytesPerTransaction | axiAddrOffset | highAddr
  | baseAddr | seed | addressPattern | loopAddress | loop | lastInstruction | infiniteTransaction
  | startDelay | loopCount | infiniteLoop | loopStart | destId | dataIntegrity | wdataPatValue
  | loopAddrIncrBy | instIdValue | expResp | user10Bit | lastWriteRead | user11thBit
  deriving DecidableEq, Repr

/-- Name, width and position of each field. -/
def instructionPacking : List (Field × String × ℕ × ℕ) :=
  [(.axiUser, "axi_user", 4, 0),
   (.axiRegion, "axi_region", 4, 4),
   (.axiQos, "axi_qos", 4, 8),
   (.axiProt, "axi_prot", 3, 12),
   (.axiCache, "axi_cache", 4, 15),
   (.axiLock, "axi_lock", 2, 19),
   (.axiBurst, "axi_burst", 2, 21),
   (.axiSize, "axi_size", 3, 23),
   (.axiLen, "axi_len", 8, 26),
   (.axiIdType, "axi_id_type", 1, 34),
   (.txnCount, "txn_count", 16, 35),
   (.transactionType, "transaction_type", 2, 51),
   (.numberOfBytesPerTransaction, "number_of_bytes_per_transaction", 48, 53),
   (.axiAddrOffset, "axi_addr_offset", 48, 101),
   (.highAddr, "high_addr", 48, 149),
   (.baseAddr, "base_addr", 48, 197),
   (.seed, "seed", 48, 245),
   (.addressPattern, "address_pattern", 2, 293),
   (.loopAddress, "loop_address", 9, 295),
   (.loop, "loop", 1, 304),
   (.lastInstruction, "last_instruction", 1, 305),
   (.infiniteTransaction, "infinite_transaction", 1, 306),
   (.startDelay, "start_delay", 16, 307),
   (.loopCount, "loop_count", 16, 323),
   (.infiniteLoop, "infinite_loop", 1, 339),
   (.loopStart, "loop_start", 1, 340),
   (.destId, "dest_id", 12, 341),
   (.dataIntegrity, "data_integrity", 1, 353),
   (.wdataPatValue, "wdata_pat_value", 9, 354),
   (.loopAddrIncrBy, "loop_addr_incr_by", 16, 363),
   (.instIdValue, "inst_id_value", 16, 379),
   (.expResp, "exp_resp", 3, 395),
   (.user10Bit, "user_10_bit", 10, 398),
   (.lastWriteRead, "last_write_read", 2, 408),
   (.user11thBit, "user_11th_bit", 1, 410)]

/-- Attributes of an instruction. The address increment is a number or `AUTO_INCR`. -/
structure PATGInstruction where
  value : Field → ℤ
  addrIncrBy : Option ℤ

namespace PATGInstruction

/-- The default arguments, with `DataPatterns.ADDRESS_AS_DATA` as the pattern. -/
def defaults : PATGInstruction where
  value
    | .wdataPatValue => 0x100
    | _ => 0
  addrIncrBy := none

/-- `f"{n:08X}"`. -/
def formatHex (n : ℤ) : String :=
  let digits := (Nat.toDigits 16 n.natAbs).map Char.toUpper
  let sign := if n < 0 then ['-'] else []
  String.ofList (sign ++ List.replicate (8 - (sign.length + digits.length)) '0' ++ digits)

def validate (i : PATGInstruction) : Except Py.Error Unit :=
  instructionPacking.forM fun (field, name, bitWidth, _) =>
    if 0 ≤ i.value field ∧ i.value field < 2 ^ bitWidth then .ok ()
    else .error (.valueError
      s!"{name}: 0x{formatHex (i.value field)} is restricted to {bitWidth} bits")

/-- `_initialize`. The random patterns are looked for in the address offset. -/
def initializeFields (i : PATGInstruction) : PATGInstruction :=
  if i.value .numberOfBytesPerTransaction = 0 ∧
      (i.value .transactionType = 1 ∨ i.value .transactionType = 0) then
    let bytes : ℤ :=
      if i.value .axiAddrOffset = 0b10 ∨ i.value .axiAddrOffset = 0b11 then 0
      else match i.addrIncrBy with
        | none =>
          if i.value .axiBurst = 0 ∧ i.value .axiLock = 0 then 2 ^ (i.value .axiSize).toNat
          else 2 ^ (i.value .axiSize).toNat * (i.value .axiLen + 1)
        | some _ => i.value .loopAddrIncrBy
    { i with value := Function.update i.value .numberOfBytesPerTransaction bytes }
  else i

/-- The constructor. -/
def new (i : PATGInstruction) : Except Py.Error PATGInstruction := do
  i.validate
  .ok i.initializeFields

def isPhaseDone (i : PATGInstruction) : Bool := i.value .axiUser == 1

/-- The number that `pack_struct` leaves. -/
def packStruct (i : PATGInstruction) : ℕ :=
  instructionPacking.foldl (fun word (field, _, width, bitShift) =>
    word ||| ((i.value field).land ((1 : ℤ) <<< width - 1)).toNat <<< bitShift) 0

end PATGInstruction

/-- The loop of `chop_instruction`. -/
def chop (veryWideInstructionWord : ℕ) : List ℕ :=
  if veryWideInstructionWord > 0 then
    (veryWideInstructionWord &&& 0xFFFFFFFF) :: chop (veryWideInstructionWord >>> 32)
  else []
termination_by veryWideInstructionWord
decreasing_by
  rw [Nat.shiftRight_eq_div_pow]
  omega

/-- The words of an instruction. -/
def PATGInstruction.chopInstruction (i : PATGInstruction) : List ℕ := chop i.packStruct

inductive PATGTriggerInterfaceMode
  | axi4Lite
  | dim
  deriving DecidableEq, Repr

structure PATG where
  triggerBa : ℕ
  tgIdx : ℕ
  interfaceMode : PATGTriggerInterfaceMode
  instructions : List PATGInstruction
  length_le : instructions.length ≤ maxTgInstructions

namespace PATG

def instrBramBa (tg : PATG) : ℕ :=
  match tg.interfaceMode with
  | .dim => ((tg.tgIdx <<< 16) + 0x8000) >>> 2
  | .axi4Lite => tg.triggerBa + 0x8000

def softResetAddress (tg : PATG) : ℕ :=
  match tg.interfaceMode with
  | .dim => (((tg.tgIdx <<< 16) + 0x4000) >>> 2) ||| dbgHubCtrl
  | .axi4Lite => tg.triggerBa + 0x4000

/-- The constructor. It adds the end of the phase where the list does not have it. -/
def new (triggerBaseAddress tgIdx : ℕ) (interfaceMode : PATGTriggerInterfaceMode)
    (instructions : Option (List PATGInstruction)) : Except Py.Error PATG :=
  let given := instructions.getD []
  if h : given.length > maxTgInstructions - 1 then
    .error (.valueError
      s!"Number of instructions exceeds maximum of {maxTgInstructions} (spare one for phase done)")
  else do
    let phaseDone ← PATGInstruction.new { PATGInstruction.defaults with
      value := Function.update PATGInstruction.defaults.value .axiUser 1 }
    if (given.getLast?.map PATGInstruction.isPhaseDone).getD false then
      .ok {
        triggerBa := triggerBaseAddress
        tgIdx := tgIdx
        interfaceMode := interfaceMode
        instructions := given
        length_le := by
          rw [maxTgInstructions] at h ⊢
          omega }
    else
      .ok {
        triggerBa := triggerBaseAddress
        tgIdx := tgIdx
        interfaceMode := interfaceMode
        instructions := given ++ [phaseDone]
        length_le := by
          rw [maxTgInstructions] at h ⊢
          rw [List.length_append, List.length_singleton]
          omega }

end PATG

/-- Words by number. -/
abbrev WordMemory := ℕ → ℕ

/-- `device.memory_write` of words. Addresses are below `2 ^ 53`, so that they are not rounded. -/
def memoryWrite (m : WordMemory) (address : ℕ) (words : List ℕ) : Except Py.Error WordMemory :=
  if words = [] then .error .indexError
  else .ok fun n => if address / 4 ≤ n then
    ((words[n - address / 4]?).map (· % 2 ^ 32)).getD (m n) else m n

/-- The words of a memory of bytes. -/
def wordsOf (m : Memory.ByteMemory) : WordMemory := fun n => Bits.fromBytes (Memory.get m (4 * n : ℕ) 4)

theorem rows_wordBytes (words : List ℕ) :
    Records.Rows 4 (words.map fun w : ℕ => Memory.valueBytes .w w) := by
  intro row hrow
  obtain ⟨w, -, rfl⟩ := List.mem_map.mp hrow
  exact Bits.length_littleEndian _ _

theorem fromBytes_wordBytes (w : ℕ) : Bits.fromBytes (Memory.valueBytes .w w) = w % 2 ^ 32 := by
  have hmod : ((w : ℤ) % 2 ^ 32).toNat = w % 2 ^ 32 := by
    exact_mod_cast Int.toNat_natCast (w % 2 ^ 32)
  have hsize : Memory.valueBytes .w w = Bits.littleEndian 4 ((w : ℤ) % 2 ^ 32).toNat := rfl
  rw [hsize, Bits.fromBytes_littleEndian, hmod]
  exact Nat.mod_mod w _

/-- The words after a write of words are those of the bytes after the write of `api/memory.py`. -/
theorem memoryWrite_refines (m : Memory.ByteMemory) {address : ℕ} (h : address < 2 ^ 53)
    (words : List ℕ) :
    memoryWrite (wordsOf m) address words =
      (Memory.memoryWrite m address (words.map fun w : ℕ => (w : ℤ)) .w).map wordsOf := by
  rcases eq_or_ne words [] with rfl | hne
  · rw [List.map_nil, Memory.memoryWrite_nil]
    rfl
  have hne' : (words.map fun w : ℕ => (w : ℤ)) ≠ [] := fun hnil => hne (List.map_eq_nil_iff.mp hnil)
  let rows := words.map fun w : ℕ => Memory.valueBytes .w w
  have hrows : Records.Rows 4 rows := rows_wordBytes words
  have hbytes : Memory.bytesOf .w (words.map fun w : ℕ => (w : ℤ)) = rows.flatten := by
    rw [Memory.bytesOf, List.flatMap_map, List.flatMap_def]
  have hlen : rows.flatten.length = 4 * words.length := by
    rw [hrows.length_flatten, List.length_map, Nat.mul_comm]
  have hpad : Memory.padding rows.flatten = [] := by
    rw [Memory.padding, hlen, Nat.mul_mod_right]
    rfl
  rw [Memory.memoryWrite_eq m _ hne', Memory.wordAlign_natCast h, hbytes, hpad, List.append_nil,
    memoryWrite, if_neg hne]
  refine congrArg Except.ok (funext fun n => ?_)
  change _ = Bits.fromBytes (Memory.get (Memory.set m (address / 4 * 4 : ℕ) rows.flatten) (4 * n : ℕ) 4)
  rcases Nat.lt_or_ge n (address / 4) with hbefore | hstart
  · rw [if_neg (not_le.mpr hbefore), Memory.get_set_of_disjoint _ (.inl (by omega))]
    rfl
  · rw [if_pos hstart]
    rcases Nat.lt_or_ge (n - address / 4) words.length with hin | hafter
    · have hplace : ((4 * n : ℕ) : ℤ) = (address / 4 * 4 : ℕ) + ((n - address / 4) * 4 : ℕ) := by
        omega
      have hrow : rows[n - address / 4]? = some (Memory.valueBytes .w words[n - address / 4]) := by
        rw [List.getElem?_map, List.getElem?_eq_getElem hin]
        rfl
      have hsegment := hrows.segment_row (Nat.le_refl 4) hrow
      rw [List.take_of_length_le (hrows _ (List.mem_of_getElem? hrow)).le] at hsegment
      rw [hplace, Memory.get_set_segment _ _ (by omega), hsegment, fromBytes_wordBytes,
        List.getElem?_eq_getElem hin]
      rfl
    · rw [List.getElem?_eq_none hafter, Memory.get_set_of_disjoint _ (.inr (by omega))]
      rfl

namespace PATG

variable (hub : WordMemory → List ℕ → WordMemory)

/-- `_soft_reset`. -/
def softReset (tg : PATG) (m : WordMemory) : Except Py.Error WordMemory :=
  match tg.interfaceMode with
  | .dim => .ok (hub (hub m [dbgHubPreamble, tg.softResetAddress, 0x1, 0x0])
      [dbgHubPreamble, tg.softResetAddress, 0x1, 0x1])
  | .axi4Lite => do
    let m ← memoryWrite m tg.softResetAddress [0x0]
    memoryWrite m tg.softResetAddress [0x1]

/-- One round of the loop of `program` for AXI4-Lite. -/
def writeInstruction (tg : PATG) (m : WordMemory) (e : PATGInstruction × ℕ) :
    Except Py.Error WordMemory :=
  memoryWrite m (tg.instrBramBa + 0x40 * e.2) e.1.chopInstruction

/-- The command for a word. -/
def iramCommand (tg : PATG) (e : ℕ × ℕ) : List ℕ :=
  let wordAddr := tg.instrBramBa + e.2
  let wordAddr := if e.2 = 0 then wordAddr ||| dbgHubCtrl else wordAddr
  [dbgHubPreamble, wordAddr, 0x1, e.1]

/-- `write_tg_iram`, where each command goes to the trigger base address. -/
def writeTgIram (tg : PATG) (iramWords : List ℕ) (m : WordMemory) : WordMemory :=
  (iramWords.zipIdx.map tg.iramCommand).foldl hub m

def program (tg : PATG) (m : WordMemory) : Except Py.Error WordMemory := do
  let m ← tg.softReset hub m
  match tg.interfaceMode with
  | .axi4Lite => tg.instructions.zipIdx.foldlM tg.writeInstruction m
  | .dim => .ok (tg.writeTgIram hub (tg.instructions.flatMap PATGInstruction.chopInstruction) m)

/-- What is written through AXI4-Lite: the address and the words of each write. -/
def axiWrites (tg : PATG) : List (ℕ × List ℕ) :=
  [(tg.softResetAddress, [0x0]), (tg.softResetAddress, [0x1])] ++
    tg.instructions.zipIdx.map fun e => (tg.instrBramBa + 0x40 * e.2, e.1.chopInstruction)

theorem program_eq_axiWrites {tg : PATG} (hmode : tg.interfaceMode = .axi4Lite) (m : WordMemory) :
    tg.program hub m = tg.axiWrites.foldlM (fun m w => memoryWrite m w.1 w.2) m := by
  have hloop : ∀ m, (tg.instructions.zipIdx.map fun e =>
      (tg.instrBramBa + 0x40 * e.2, e.1.chopInstruction)).foldlM
        (fun m w => memoryWrite m w.1 w.2) m =
        tg.instructions.zipIdx.foldlM tg.writeInstruction m :=
    fun m => List.foldlM_map
  rw [program, softReset, hmode, axiWrites, List.foldlM_append]
  simp only [hloop, List.foldlM_cons, List.foldlM_nil, bind_pure]

theorem foldlM_memoryWrite_refines : ∀ (writes : List (ℕ × List ℕ)) (m : Memory.ByteMemory),
    (∀ w ∈ writes, w.1 < 2 ^ 53) →
    writes.foldlM (fun m w => memoryWrite m w.1 w.2) (wordsOf m) =
      (writes.foldlM (fun m w => Memory.memoryWrite m w.1 (w.2.map fun n : ℕ => (n : ℤ)) .w) m).map
        wordsOf
  | [], _, _ => rfl
  | w :: writes, m, h => by
    obtain ⟨hw, hrest⟩ := List.forall_mem_cons.mp h
    rw [List.foldlM_cons, List.foldlM_cons, memoryWrite_refines m hw]
    cases Memory.memoryWrite m w.1 (w.2.map fun n : ℕ => (n : ℤ)) .w with
    | error e => rfl
    | ok m' => exact foldlM_memoryWrite_refines writes m' hrest

/-- Below `2 ^ 53` the words are those of the bytes that `api/memory.py` writes. -/
theorem program_refines {tg : PATG} (hmode : tg.interfaceMode = .axi4Lite)
    (hbase : tg.triggerBa + 0x10000 ≤ 2 ^ 53) (m : Memory.ByteMemory) :
    tg.program hub (wordsOf m) = (tg.axiWrites.foldlM
      (fun m w => Memory.memoryWrite m w.1 (w.2.map fun n : ℕ => (n : ℤ)) .w) m).map wordsOf := by
  rw [program_eq_axiWrites hub hmode]
  refine foldlM_memoryWrite_refines _ m fun w hw => ?_
  have hreset : tg.softResetAddress < 2 ^ 53 := by
    rw [softResetAddress, hmode]
    dsimp only
    omega
  rcases List.mem_append.mp hw with hw | hw
  · simp only [List.mem_cons, List.not_mem_nil, or_false] at hw
    rcases hw with rfl | rfl <;> exact hreset
  · obtain ⟨⟨i, k⟩, he, rfl⟩ := List.mem_map.mp hw
    have hk := (List.mem_zipIdx he).2.1
    have hle := tg.length_le
    rw [maxTgInstructions] at hle
    rw [instrBramBa, hmode]
    dsimp only
    omega

/-! ### The instruction memory -/

/-- Word of the instruction memory. -/
def word (tg : PATG) (m : WordMemory) (index : ℕ) : ℕ :=
  match tg.interfaceMode with
  | .axi4Lite => m (tg.instrBramBa / 4 + index)
  | .dim => m ((tg.instrBramBa + index) % dbgHubCtrl)

/-- Every instruction is in its place, whatever the memory held. -/
def Programmed (tg : PATG) : Prop :=
  ∀ m, ∃ m', tg.program hub m = .ok m' ∧
    ∀ k i, tg.instructions[k]? = some i → ∀ j < numWordsPerWideInstruction,
      tg.word m' (16 * k + j) = (i.packStruct >>> (32 * j)) % 2 ^ 32

/-- A command sets the word whose address is left without the control bits. -/
def HubWrites : Prop :=
  ∀ m address value, hub m [dbgHubPreamble, address, 0x1, value] =
    Function.update m (address % dbgHubCtrl) value

end PATG

/-! ### Words of an instruction -/

/-- An instruction that needs all words. -/
def PATGInstruction.Full (i : PATGInstruction) : Prop := 2 ^ (32 * 12) ≤ i.packStruct

theorem chop_eq_digits (n : ℕ) : chop n = Nat.digits (2 ^ 32) n := by
  induction n using chop.induct with
  | case1 n hpos ih =>
    have hword : n &&& 0xFFFFFFFF = n % 2 ^ 32 := Nat.and_two_pow_sub_one_eq_mod n 32
    rw [chop, if_pos hpos, ih, hword, Nat.shiftRight_eq_div_pow,
      Nat.digits_def' (by norm_num) hpos]
  | case2 n hzero =>
    have hn : n = 0 := by omega
    rw [chop, if_neg hzero, hn, Nat.digits_zero]

/-- Fields that end below a bound fill a word below it. -/
theorem PATGInstruction.foldl_fields_lt (i : PATGInstruction) {bound : ℕ} :
    ∀ (fields : List (Field × String × ℕ × ℕ)) (word : ℕ),
      (∀ e ∈ fields, e.2.2.1 + e.2.2.2 ≤ bound) → word < 2 ^ bound →
      fields.foldl (fun word (field, _, width, bitShift) =>
        word ||| ((i.value field).land ((1 : ℤ) <<< width - 1)).toNat <<< bitShift) word <
          2 ^ bound
  | [], _, _, hword => hword
  | e :: fields, word, hfields, hword => by
    obtain ⟨he, hrest⟩ := List.forall_mem_cons.mp hfields
    refine foldl_fields_lt i fields _ hrest (Nat.or_lt_two_pow hword ?_)
    rw [Bits.land_mask, Int.toNat_natCast, Nat.shiftLeft_eq]
    calc _ < 2 ^ e.2.2.1 * 2 ^ e.2.2.2 :=
          Nat.mul_lt_mul_of_pos_right (Bits.toNat_emod_lt _ _) (Nat.two_pow_pos _)
      _ = 2 ^ (e.2.2.1 + e.2.2.2) := (pow_add _ _ _).symm
      _ ≤ 2 ^ bound := Nat.pow_le_pow_right (by decide) he

/-- Fields end at bit 411. -/
theorem PATGInstruction.packStruct_lt (i : PATGInstruction) : i.packStruct < 2 ^ 411 :=
  i.foldl_fields_lt instructionPacking 0 (by decide) (pow_pos two_pos _)

namespace PATGInstruction

theorem length_chopInstruction_le (i : PATGInstruction) : i.chopInstruction.length ≤ 13 := by
  rw [chopInstruction, chop_eq_digits, Nat.digits_length_le_iff (by norm_num), ← pow_mul]
  exact i.packStruct_lt.trans_le (pow_le_pow_right₀ one_le_two (by omega))

theorem getD_chopInstruction (i : PATGInstruction) (j : ℕ) :
    i.chopInstruction.getD j 0 = (i.packStruct >>> (32 * j)) % 2 ^ 32 := by
  rw [chopInstruction, chop_eq_digits, Nat.getD_digits _ _ (by norm_num),
    Nat.shiftRight_eq_div_pow, pow_mul]

theorem Full.length {i : PATGInstruction} (h : i.Full) : i.chopInstruction.length = 13 := by
  refine le_antisymm i.length_chopInstruction_le ?_
  rw [chopInstruction, chop_eq_digits]
  refine Nat.succ_le_of_lt ((Nat.lt_digits_length_iff (by norm_num) _).mpr ?_)
  rw [← pow_mul]
  exact h

theorem length_of_not_full {i : PATGInstruction} (h : ¬ i.Full) : i.chopInstruction.length ≤ 12 := by
  rw [chopInstruction, chop_eq_digits, Nat.digits_length_le_iff (by norm_num), ← pow_mul]
  exact not_le.mp h

theorem getElem?_chopInstruction {i : PATGInstruction} {j : ℕ} (hj : j < i.chopInstruction.length) :
    i.chopInstruction[j]? = some ((i.packStruct >>> (32 * j)) % 2 ^ 32) := by
  rw [← i.getD_chopInstruction j, List.getD_eq_getElem _ _ hj, List.getElem?_eq_getElem hj]

end PATGInstruction

/-! ### AXI4-Lite -/

/-- Words at their places, sixteen for each instruction. -/
def image (instructions : List PATGInstruction) (index : ℕ) : Option ℕ :=
  (instructions[index / 16]?).bind fun i => i.chopInstruction[index % 16]?

theorem image_cons_of_lt {i : PATGInstruction} {instructions : List PATGInstruction} {index : ℕ}
    (h : index < 16) : image (i :: instructions) index = i.chopInstruction[index]? := by
  rw [image, Nat.div_eq_of_lt h, Nat.mod_eq_of_lt h]
  rfl

theorem image_cons_add (i : PATGInstruction) (instructions : List PATGInstruction) (index : ℕ) :
    image (i :: instructions) (index + 16) = image instructions index := by
  rw [image, Nat.add_div_right _ (by decide), Nat.add_mod_right]
  rfl

theorem mem_chop_lt {i : PATGInstruction} {w : ℕ} (h : w ∈ i.chopInstruction) : w < 2 ^ 32 := by
  rw [PATGInstruction.chopInstruction, chop_eq_digits] at h
  exact Nat.digits_lt_base (by norm_num) h

theorem memoryWrite_chop (m : WordMemory) (address : ℕ) {i : PATGInstruction}
    (h : i.chopInstruction ≠ []) :
    memoryWrite m address i.chopInstruction = .ok fun n => if address / 4 ≤ n then
      (i.chopInstruction[n - address / 4]?).getD (m n) else m n := by
  rw [memoryWrite, if_neg h]
  congr
  funext n
  cases hw : i.chopInstruction[n - address / 4]? with
  | none => rfl
  | some w => rw [Option.map_some, Nat.mod_eq_of_lt (mem_chop_lt (List.mem_of_getElem? hw))]

namespace PATG

variable {hub : WordMemory → List ℕ → WordMemory} {tg : PATG}

/-- After the loop each word is the one at its place, or the old one where there is none. -/
theorem foldlM_writeInstruction : ∀ (instructions : List PATGInstruction) (k : ℕ)
    (m : WordMemory), (∀ i ∈ instructions, i.chopInstruction ≠ []) →
    ∃ m', (instructions.zipIdx k).foldlM tg.writeInstruction m = .ok m' ∧
      ∀ n, m' n = if tg.instrBramBa / 4 + 16 * k ≤ n then
        (image instructions (n - (tg.instrBramBa / 4 + 16 * k))).getD (m n) else m n
  | [], _, m, _ => ⟨m, rfl, fun n => by simp [image]⟩
  | i :: instructions, k, m, h => by
    obtain ⟨hi, hrest⟩ := List.forall_mem_cons.mp h
    have hwrite := memoryWrite_chop m (tg.instrBramBa + 0x40 * k) hi
    have hplace : (tg.instrBramBa + 0x40 * k) / 4 = tg.instrBramBa / 4 + 16 * k := by omega
    rw [hplace] at hwrite
    obtain ⟨m', hrun, hm'⟩ := foldlM_writeInstruction instructions (k + 1) _ hrest
    refine ⟨m', ?_, fun n => ?_⟩
    · rw [List.zipIdx_cons, List.foldlM_cons, writeInstruction, hwrite, Py.ok_bind]
      exact hrun
    · rw [hm']
      have hlen := i.length_chopInstruction_le
      rcases Nat.lt_or_ge n (tg.instrBramBa / 4 + 16 * k) with hbefore | hstart
      · rw [if_neg (by omega), if_neg (by omega), if_neg (by omega)]
      · rcases Nat.lt_or_ge n (tg.instrBramBa / 4 + 16 * (k + 1)) with hown | hlater
        · rw [if_neg (by omega), if_pos hstart, if_pos hstart, image_cons_of_lt (by omega)]
        · have hindex : n - (tg.instrBramBa / 4 + 16 * k) =
              n - (tg.instrBramBa / 4 + 16 * (k + 1)) + 16 := by omega
          rw [if_pos hlater, if_pos hstart, if_pos hstart, hindex, image_cons_add,
            List.getElem?_eq_none (by omega)]
          rfl

/-- An instruction that packs to zero has no word to write. -/
theorem foldlM_writeInstruction_error : ∀ (instructions : List PATGInstruction) (k : ℕ)
    (m m' : WordMemory), (instructions.zipIdx k).foldlM tg.writeInstruction m = .ok m' →
    ∀ i ∈ instructions, i.chopInstruction ≠ []
  | [], _, _, _, _ => List.forall_mem_nil _
  | i :: instructions, k, m, m', h => by
    rw [List.zipIdx_cons, List.foldlM_cons] at h
    obtain ⟨m₁, hwrite, hrest⟩ := Py.bind_eq_ok h
    refine List.forall_mem_cons.mpr ⟨fun hnil => ?_, foldlM_writeInstruction_error _ _ _ _ hrest⟩
    rw [writeInstruction, memoryWrite, if_pos hnil] at hwrite
    exact nomatch hwrite

/-! ### Debug hub -/

/-- Two words of the instruction memory have two addresses. -/
theorem dimAddress_inj {base i j : ℕ} (hi : i < dbgHubCtrl) (hj : j < dbgHubCtrl)
    (h : (base + i) % dbgHubCtrl = (base + j) % dbgHubCtrl) : i = j := by
  have hmod : i ≡ j [MOD dbgHubCtrl] := Nat.ModEq.add_left_cancel' base h
  rwa [Nat.ModEq, Nat.mod_eq_of_lt hi, Nat.mod_eq_of_lt hj] at hmod

theorem or_ctrl_mod (n : ℕ) : (n ||| dbgHubCtrl) % dbgHubCtrl = n % dbgHubCtrl := by
  have hpow : dbgHubCtrl = 2 ^ 29 := rfl
  rw [hpow, Nat.or_mod_two_pow, Nat.mod_self, Nat.or_zero]

theorem hub_iramCommand (hhub : HubWrites hub) (m : WordMemory) (e : ℕ × ℕ) :
    hub m (tg.iramCommand e) =
      Function.update m ((tg.instrBramBa + e.2) % dbgHubCtrl) e.1 := by
  rw [iramCommand, hhub]
  split_ifs
  · rw [or_ctrl_mod]
  · rfl

/-- Words are written one after the other. -/
theorem foldl_hub (hhub : HubWrites hub) : ∀ (words : List ℕ) (k : ℕ) (m : WordMemory),
    k + words.length ≤ dbgHubCtrl → ∀ i < dbgHubCtrl,
    ((words.zipIdx k).map tg.iramCommand).foldl hub m ((tg.instrBramBa + i) % dbgHubCtrl) =
      if k ≤ i then (words[i - k]?).getD (m ((tg.instrBramBa + i) % dbgHubCtrl))
      else m ((tg.instrBramBa + i) % dbgHubCtrl)
  | [], _, _, _, _, _ => by simp
  | w :: words, k, m, hlen, i, hi => by
    rw [List.length_cons] at hlen
    have ih := foldl_hub hhub words (k + 1)
      (Function.update m ((tg.instrBramBa + k) % dbgHubCtrl) w) (by omega) i hi
    rw [List.zipIdx_cons, List.map_cons, List.foldl_cons, hub_iramCommand hhub, ih,
      Function.update_apply]
    have hsame : (tg.instrBramBa + i) % dbgHubCtrl = (tg.instrBramBa + k) % dbgHubCtrl ↔ i = k :=
      ⟨dimAddress_inj hi (by omega), fun h => by rw [h]⟩
    rcases lt_trichotomy i k with hlt | rfl | hgt
    · rw [if_neg (not_le.mpr (hlt.trans (Nat.lt_succ_self k))),
        if_neg (fun h => hlt.ne (hsame.mp h)), if_neg (not_le.mpr hlt)]
    · rw [if_neg (by omega), if_pos rfl, if_pos (le_refl i), Nat.sub_self]
      rfl
    · have hsub : i - k = i - (k + 1) + 1 := by omega
      rw [if_pos (by omega), if_neg (fun h => hgt.ne' (hsame.mp h)), if_pos (by omega), hsub,
        List.getElem?_cons_succ]

/-! ### Programming -/

theorem memoryWrite_single (m : WordMemory) (address value : ℕ) :
    ∃ m', memoryWrite m address [value] = .ok m' ∧ ∀ n, address / 4 < n → m' n = m n := by
  refine ⟨_, if_neg (List.cons_ne_nil _ _), fun n hn => ?_⟩
  rw [if_pos hn.le, List.getElem?_eq_none (by rw [List.length_singleton]; omega)]
  rfl

/-- The soft reset does not touch the instruction memory. -/
theorem softReset_spec (hhub : HubWrites hub) (m : WordMemory) :
    ∃ m', tg.softReset hub m = .ok m' ∧
      ∀ index < 16 * maxTgInstructions, tg.word m' index = tg.word m index := by
  cases hmode : tg.interfaceMode with
  | axi4Lite =>
    obtain ⟨m₁, hm₁, hsame₁⟩ := memoryWrite_single m tg.softResetAddress 0x0
    obtain ⟨m₂, hm₂, hsame₂⟩ := memoryWrite_single m₁ tg.softResetAddress 0x1
    refine ⟨m₂, ?_, fun index _ => ?_⟩
    · rw [softReset, hmode]
      dsimp only
      rw [hm₁, Py.ok_bind, hm₂]
    · have hbelow : tg.softResetAddress / 4 < tg.instrBramBa / 4 + index := by
        rw [softResetAddress, instrBramBa, hmode]
        dsimp only
        omega
      rw [word, word, hmode]
      dsimp only
      rw [hsame₂ _ hbelow, hsame₁ _ hbelow]
  | dim =>
    have hreset : tg.softResetAddress % dbgHubCtrl = (tg.tgIdx * 0x4000 + 0x1000) % dbgHubCtrl := by
      rw [softResetAddress, hmode]
      dsimp only
      rw [or_ctrl_mod, Nat.shiftLeft_eq, Nat.shiftRight_eq_div_pow]
      congr 1
      omega
    have hbase : tg.instrBramBa = tg.tgIdx * 0x4000 + 0x2000 := by
      rw [instrBramBa, hmode]
      dsimp only
      rw [Nat.shiftLeft_eq, Nat.shiftRight_eq_div_pow]
      omega
    refine ⟨_, by rw [softReset, hmode], fun index hindex => ?_⟩
    have hne : (tg.instrBramBa + index) % dbgHubCtrl ≠ tg.softResetAddress % dbgHubCtrl := by
      intro heq
      have hsum : tg.instrBramBa + index = tg.tgIdx * 0x4000 + 0x1000 + (0x1000 + index) := by omega
      rw [hsum, hreset] at heq
      have hzero := dimAddress_inj (j := 0) (by rw [maxTgInstructions] at hindex; rw [dbgHubCtrl]; omega)
        (by decide) heq
      omega
    rw [word, word, hmode]
    dsimp only
    rw [hhub, hhub, Function.update_of_ne hne, Function.update_of_ne hne]

/-- The word that the loop writes to a place. -/
def written (tg : PATG) (index : ℕ) : Option ℕ :=
  match tg.interfaceMode with
  | .axi4Lite => image tg.instructions index
  | .dim => (tg.instructions.flatMap PATGInstruction.chopInstruction)[index]?

/-- The memory of the device has an instruction with no word refused. -/
def Writable (tg : PATG) : Prop :=
  tg.interfaceMode = .axi4Lite → ∀ i ∈ tg.instructions, i.chopInstruction ≠ []

theorem length_words_le (instructions : List PATGInstruction) :
    (instructions.flatMap PATGInstruction.chopInstruction).length ≤ 13 * instructions.length := by
  induction instructions with
  | nil => exact Nat.zero_le _
  | cons i instructions ih =>
    have hi := i.length_chopInstruction_le
    rw [List.flatMap_cons, List.length_append, List.length_cons]
    omega

theorem program_spec (hhub : HubWrites hub) (hwritable : tg.Writable) (m : WordMemory) :
    ∃ m', tg.program hub m = .ok m' ∧
      ∀ index < 16 * maxTgInstructions,
        tg.word m' index = (tg.written index).getD (tg.word m index) := by
  obtain ⟨m₁, hreset, hsame⟩ := tg.softReset_spec hhub m
  cases hmode : tg.interfaceMode with
  | axi4Lite =>
    obtain ⟨m₂, hrun, hm₂⟩ := foldlM_writeInstruction tg.instructions 0 m₁ (hwritable hmode)
    refine ⟨m₂, ?_, fun index hindex => ?_⟩
    · rw [program, hreset, Py.ok_bind, hmode]
      exact hrun
    · rw [← hsame index hindex, word, word, written, hmode]
      dsimp only
      rw [hm₂, Nat.mul_zero, Nat.add_zero, if_pos (Nat.le_add_right _ _), Nat.add_sub_cancel_left]
  | dim =>
    have hlen := length_words_le tg.instructions
    have hle := tg.length_le
    rw [maxTgInstructions] at hle
    refine ⟨_, by rw [program, hreset, Py.ok_bind, hmode], fun index hindex => ?_⟩
    have hctrl : 16 * maxTgInstructions ≤ dbgHubCtrl := by decide
    have hrun := @foldl_hub hub tg hhub
      (tg.instructions.flatMap PATGInstruction.chopInstruction) 0 m₁
      (by rw [dbgHubCtrl]; omega) index (hindex.trans_le hctrl)
    rw [if_pos (Nat.zero_le index), Nat.sub_zero] at hrun
    rw [← hsame index hindex, word, word, written, hmode]
    exact hrun

theorem writable_of_program {m m' : WordMemory} (h : tg.program hub m = .ok m') : tg.Writable := by
  intro hmode
  rw [program] at h
  obtain ⟨m₁, -, hrun⟩ := Py.bind_eq_ok h
  rw [hmode] at hrun
  exact foldlM_writeInstruction_error _ _ _ _ hrun

/-- An instruction memory that holds what is expected does not keep an old word. -/
theorem programmed_iff_written (hhub : HubWrites hub) :
    tg.Programmed hub ↔ tg.Writable ∧
      ∀ k i, tg.instructions[k]? = some i → ∀ j < numWordsPerWideInstruction,
        tg.written (16 * k + j) = some ((i.packStruct >>> (32 * j)) % 2 ^ 32) := by
  have hplace {k j : ℕ} {i : PATGInstruction} (hk : tg.instructions[k]? = some i)
      (hj : j < numWordsPerWideInstruction) : 16 * k + j < 16 * maxTgInstructions := by
    have hlt := (List.getElem?_eq_some_iff.mp hk).1
    have hle := tg.length_le
    rw [numWordsPerWideInstruction] at hj
    omega
  constructor
  · intro h
    have hwritable : tg.Writable := by
      obtain ⟨m', hm', -⟩ := h fun _ => 0
      exact writable_of_program hm'
    refine ⟨hwritable, fun k i hk j hj => ?_⟩
    let expected := (i.packStruct >>> (32 * j)) % 2 ^ 32
    obtain ⟨m', hm', hall⟩ := h fun _ => expected + 1
    obtain ⟨m'', hm'', hspec⟩ := tg.program_spec hhub hwritable fun _ => expected + 1
    obtain rfl := Except.ok.inj (hm'.symm.trans hm'')
    have hword := hspec _ (hplace hk hj)
    rw [hall k i hk j hj] at hword
    have hold : tg.word (fun _ => expected + 1) (16 * k + j) = expected + 1 := by
      rw [word]
      cases tg.interfaceMode with
      | axi4Lite => rfl
      | dim => rfl
    cases hw : tg.written (16 * k + j) with
    | none =>
      rw [hw, hold] at hword
      exact absurd hword (Nat.lt_succ_self _).ne
    | some w =>
      rw [hw] at hword
      exact congrArg some hword.symm
  · rintro ⟨hwritable, h⟩ m
    obtain ⟨m', hm', hspec⟩ := tg.program_spec hhub hwritable m
    refine ⟨m', hm', fun k i hk j hj => ?_⟩
    rw [hspec _ (hplace hk hj), h k i hk j hj]
    rfl

/-- All words are needed, and through the hub there is one instruction at most. -/
def Complete (tg : PATG) : Prop :=
  (∀ i ∈ tg.instructions, i.Full) ∧ (tg.interfaceMode = .dim → tg.instructions.length ≤ 1)

theorem written_axi (hmode : tg.interfaceMode = .axi4Lite) {k j : ℕ} {i : PATGInstruction}
    (hk : tg.instructions[k]? = some i) (hj : j < numWordsPerWideInstruction) :
    tg.written (16 * k + j) = i.chopInstruction[j]? := by
  rw [numWordsPerWideInstruction] at hj
  have hdiv : (16 * k + j) / 16 = k := by omega
  have hmod : (16 * k + j) % 16 = j := by omega
  rw [written, hmode]
  dsimp only
  rw [image, hdiv, hmod, hk]
  rfl

/-- The last word of every place is written. -/
theorem not_programmed_of_not_full (hhub : HubWrites hub) {i : PATGInstruction} {k : ℕ}
    (hk : tg.instructions[k]? = some i)
    (hplace : tg.written (16 * k + 12) = i.chopInstruction[12]?) (hfull : ¬ i.Full) :
    ¬ tg.Programmed hub := by
  intro h
  have hword := ((programmed_iff_written hhub).mp h).2 k i hk 12 (by decide)
  rw [hplace, List.getElem?_eq_none (PATGInstruction.length_of_not_full hfull)] at hword
  exact nomatch hword

/-- Two instructions written without a gap do not reach the end of the second place. -/
theorem length_le_one_of_programmed (hhub : HubWrites hub) (hmode : tg.interfaceMode = .dim)
    (h : tg.Programmed hub) : tg.instructions.length ≤ 1 := by
  by_contra hmore
  have hlt : tg.instructions.length - 1 < tg.instructions.length := by omega
  have hword := ((programmed_iff_written hhub).mp h).2 _ _ (List.getElem?_eq_getElem hlt) 12
    (by decide)
  rw [written, hmode] at hword
  have hindex := (List.getElem?_eq_some_iff.mp hword).1
  have hlen := length_words_le tg.instructions
  omega

theorem written_single (hmode : tg.interfaceMode = .dim) {i : PATGInstruction}
    (hsingle : tg.instructions = [i]) (j : ℕ) :
    tg.written (16 * 0 + j) = i.chopInstruction[j]? := by
  rw [written, hmode, hsingle, Nat.mul_zero, Nat.zero_add]
  dsimp only
  rw [List.flatMap_singleton]

theorem exists_single (hone : tg.instructions.length ≤ 1) {k : ℕ} {i : PATGInstruction}
    (hk : tg.instructions[k]? = some i) : k = 0 ∧ tg.instructions = [i] := by
  obtain ⟨hlt, hi⟩ := List.getElem?_eq_some_iff.mp hk
  obtain rfl : k = 0 := by omega
  obtain ⟨a, ha⟩ := List.length_eq_one_iff.mp (show tg.instructions.length = 1 by omega)
  refine ⟨rfl, ?_⟩
  rw [ha] at hk ⊢
  rw [Option.some.inj hk]

theorem written_of_one_or_axi (hone : tg.interfaceMode = .dim → tg.instructions.length ≤ 1)
    {k j : ℕ} {i : PATGInstruction} (hk : tg.instructions[k]? = some i)
    (hj : j < numWordsPerWideInstruction) :
    tg.written (16 * k + j) = i.chopInstruction[j]? := by
  cases hmode : tg.interfaceMode with
  | axi4Lite => exact written_axi hmode hk hj
  | dim =>
    obtain ⟨rfl, hsingle⟩ := exists_single (hone hmode) hk
    exact written_single hmode hsingle j

/-- The memory is as expected only if all words are needed, and through the hub only for one
    instruction. The words are those of `program_refines`, which bounds the base address. -/
theorem programmed_iff (hub : WordMemory → List ℕ → WordMemory) (hhub : HubWrites hub)
    (tg : PATG) : tg.Programmed hub ↔ tg.Complete := by
  constructor
  · intro h
    have hone := fun hmode => length_le_one_of_programmed hhub hmode h
    refine ⟨fun i hi => ?_, hone⟩
    obtain ⟨k, hk⟩ := List.mem_iff_getElem?.mp hi
    by_contra hfull
    exact not_programmed_of_not_full hhub hk (written_of_one_or_axi hone hk (by decide)) hfull h
  · rintro ⟨hfull, hone⟩
    refine (programmed_iff_written hhub).mpr ⟨fun _ i hi hnil => ?_, fun k i hk j hj => ?_⟩
    · have hlen := (hfull i hi).length
      rw [hnil] at hlen
      exact nomatch hlen
    · rw [written_of_one_or_axi hone hk hj]
      refine PATGInstruction.getElem?_chopInstruction ?_
      rw [(hfull i (List.mem_of_getElem? hk)).length]
      exact hj

/-- A hub that does what its commands say. -/
def plainHub (m : WordMemory) : List ℕ → WordMemory
  | [_, address, _, value] => Function.update m (address % dbgHubCtrl) value
  | _ => m

/-- One instruction with its highest bit set. -/
def highest : PATG where
  triggerBa := 0x20100000000
  tgIdx := 0
  interfaceMode := .dim
  instructions := [{ PATGInstruction.defaults with
    value := Function.update PATGInstruction.defaults.value .user11thBit 1 }]
  length_le := by decide

theorem programmed_iff_highest : highest.Programmed plainHub ↔ highest.Complete :=
  programmed_iff plainHub (fun _ _ _ => rfl) highest

/-- The instruction that ends a phase has no word for the highest bits. -/
theorem not_programmed_phaseDone :
    ∃ tg, PATG.new 0x20100000000 0 .axi4Lite none = .ok tg ∧ ¬ tg.Programmed plainHub := by
  refine ⟨_, rfl, ?_⟩
  refine not_programmed_of_not_full (k := 0) (fun _ _ _ => rfl) rfl (written_axi rfl rfl (by decide)) ?_
  rw [PATGInstruction.Full]
  decide +kernel

end PATG

end Chipscopy.Api.Patg
