import Chipscopy.Lib.Bits
import Chipscopy.Lib.Slots

/-! Registers of a Jtag device

    A register that supports SLRs is read once for every SLR of the device. The handler of a reply
    puts the bytes at the index of the SLR into the list `data`, which it extends for an index
    behind its end, and decodes the fields into the list `fields` the same way. Both lists have the
    right entries only when the replies for new SLRs come in the order of the SLRs. -/

namespace Chipscopy.Client

/-- A name for a value of a field. -/
structure RegEnum where
  value : ℤ
  name : String
  deriving DecidableEq

/-- A field of the definition; one without bits is left out of the register. -/
structure RegField where
  name : String
  bits : List ℕ
  enums : List RegEnum
  deriving DecidableEq

/-- Decoded field of a register. -/
structure DataField where
  bitRange : String
  name : String
  value : Option ℕ
  enums : Option (Py.Dict ℤ RegEnum)

structure JtagRegister where
  supportsSlrs : Bool
  definition : List RegField
  data : List (List UInt8) := []
  fields : List (Py.Dict String DataField) := [.empty]

/-! ### Names and values of fields -/

/-- First and last bit, joined by a separator. -/
def RegField.bitRange (field : RegField) (separator : String) : String :=
  if field.bits.length > 1 then
    s!"{field.bits.headD 0}{separator}{field.bits.getLastD 0}"
  else toString (field.bits.headD 0)

def fieldCount (definition : List RegField) (name : String) : ℕ :=
  definition.countP fun field => field.bits ≠ [] ∧ field.name = name

/-- Fields of one name have their bits in the name. -/
def fieldName (definition : List RegField) (field : RegField) : String :=
  if fieldCount definition field.name > 1 then field.name ++ "_" ++ field.bitRange "_"
  else field.name

def RegField.dataEnums (field : RegField) : Option (Py.Dict ℤ RegEnum) :=
  if field.enums = [] then none
  else some (field.enums.foldl (fun enums e => enums.set e.value e) .empty)

/-- The bits of a field from the bytes of a register, most significant bit first. -/
def readBits (data : List UInt8) (bits : List ℕ) : Except Py.Error ℕ :=
  bits.foldlM (fun value b => do
    let byte ← Py.index data ((b / 8 : ℕ) : ℤ)
    return (value <<< 1) ||| ((byte.toNat >>> (b % 8)) &&& 1)) 0

/-- Without bytes a field has no value. -/
def readValue (data : List UInt8) (bits : List ℕ) : Except Py.Error (Option ℕ) :=
  if data = [] then .ok none else (readBits data bits).map some

/-- A decoded field with its value, if there is one. -/
def dataField (definition : List RegField) (field : RegField) (value : Option ℕ) : DataField where
  bitRange := field.bitRange ":"
  name := fieldName definition field
  value := value
  enums := field.dataEnums

/-! ### Replies -/

namespace JtagRegister

/-- One field of the second pass of `parse_fields`. -/
def parseField (slrIndex : ℕ) (reg : JtagRegister) (field : RegField) :
    Except Py.Error JtagRegister :=
  if field.bits = [] then .ok reg
  else do
    let data ← Py.index reg.data slrIndex
    let value ← readValue data field.bits
    let fields ← Py.index reg.fields slrIndex
    return { reg with
      fields := reg.fields.set slrIndex
        (fields.set (fieldName reg.definition field) (dataField reg.definition field value)) }

def parseFields (reg : JtagRegister) (slrIndex : ℕ) : Except Py.Error JtagRegister :=
  reg.definition.foldlM (parseField slrIndex)
    { reg with fields := Slots.store reg.fields slrIndex .empty }

/-- The reply of an SLR; there are no results with an error. -/
def doneUpdate (reg : JtagRegister) (slr : ℕ) (results : Option (List UInt8)) :
    Except Py.Error JtagRegister :=
  match results with
  | none => .ok reg
  | some results => parseFields { reg with data := Slots.store reg.data slr results } slr

/-- The SLRs that `update_regs` asks for. -/
def requestedSlrs (reg : JtagRegister) (slrCount : ℕ) : List ℕ :=
  if reg.supportsSlrs ∧ slrCount > 1 then List.range slrCount else [0]

/-- Replies with the bytes of the SLRs, in the order in which they arrive. -/
def receive (replies : ℕ → List UInt8) (reg : JtagRegister) (order : List ℕ) :
    Except Py.Error JtagRegister :=
  order.foldlM (fun reg slr => reg.doneUpdate slr (some (replies slr))) reg

end JtagRegister

/-! ### What the replies hold -/

/-- The number with these bits, most significant bit first. -/
def fieldValue (data : List UInt8) (bits : List ℕ) : ℕ :=
  Bits.ofBits (bits.map (Bits.bit data)).reverse

/-- The fields of a register with these bytes; without bytes the fields have no value. -/
def decodedFields (definition : List RegField) (data : List UInt8) : Py.Dict String DataField :=
  (definition.filter (·.bits ≠ [])).foldl (fun fields field =>
    fields.set (fieldName definition field) (dataField definition field
      (if data = [] then none else some (fieldValue data field.bits)))) .empty

/-- No bytes at all, or all those that have a bit of a field. -/
def CoversFields (definition : List RegField) (data : List UInt8) : Prop :=
  data = [] ∨ ∀ field ∈ definition, ∀ b ∈ field.bits, b / 8 < data.length

section

variable {data : List UInt8} {bits : List ℕ} {definition : List RegField} {field : RegField}

theorem readBit {byte : UInt8} {b : ℕ} (h : data[b / 8]? = some byte) (value : ℕ) :
    (value <<< 1) ||| ((byte.toNat >>> (b % 8)) &&& 1) = (Bits.bit data b).toNat + 2 * value := by
  have hbit : (byte.toNat >>> (b % 8)) &&& 1 = (Bits.bit data b).toNat := by
    rw [Bits.bit, List.getD_eq_getElem?_getD, h, Option.getD_some, Nat.and_one_is_mod,
      Nat.testBit_eq_decide_div_mod_eq, Nat.shiftRight_eq_div_pow]
    rcases Nat.mod_two_eq_zero_or_one (byte.toNat / 2 ^ (b % 8)) with hr | hr <;> simp [hr]
  have hlt : (Bits.bit data b).toNat < 2 ^ 1 := Bool.toNat_lt _
  rw [hbit, ← Nat.shiftLeft_add_eq_or_of_lt hlt, Nat.shiftLeft_eq]
  omega

/-- The value is read exactly if the bytes have all the bits. -/
theorem readBits_eq_ok_iff {value : ℕ} : readBits data bits = .ok value ↔
    (∀ b ∈ bits, b / 8 < data.length) ∧ value = fieldValue data bits := by
  induction bits using List.reverseRecOn generalizing value with
  | nil => simp [readBits, fieldValue, Bits.ofBits, pure, Except.pure, eq_comm]
  | append_singleton bits b ih =>
    have hvalue : fieldValue data (bits ++ [b]) =
        (Bits.bit data b).toNat + 2 * fieldValue data bits := by
      simp [fieldValue, Bits.ofBits]
    rw [hvalue, readBits, List.foldlM_append, ← readBits]
    constructor
    · intro h
      obtain ⟨before, hbefore, hlast⟩ := Py.bind_eq_ok h
      obtain ⟨hbits, rfl⟩ := ih.mp hbefore
      rw [List.foldlM_cons] at hlast
      obtain ⟨_, hstep, hnil⟩ := Py.bind_eq_ok hlast
      obtain ⟨byte, hbyte, hread⟩ := Py.bind_eq_ok hstep
      have hget := Py.index_natCast_eq_ok_iff.mp hbyte
      cases hnil
      refine ⟨?_, (Except.ok.inj hread).symm.trans (readBit hget _)⟩
      intro c hc
      rcases List.mem_append.mp hc with hc | hc
      · exact hbits c hc
      · rw [List.mem_singleton.mp hc]
        exact (List.getElem?_eq_some_iff.mp hget).1
    · rintro ⟨hbits, rfl⟩
      have hlt : b / 8 < data.length := hbits b (by simp)
      have hbefore : readBits data bits = .ok (fieldValue data bits) :=
        ih.mpr ⟨fun c hc => hbits c (List.mem_append_left _ hc), rfl⟩
      have hget := List.getElem?_eq_getElem hlt
      rw [hbefore, Py.ok_bind, List.foldlM_cons, Py.index_natCast hget, ← readBit hget]
      rfl

theorem readValue_eq_ok_iff {value : Option ℕ} : readValue data bits = .ok value ↔
    (data = [] ∨ ∀ b ∈ bits, b / 8 < data.length) ∧
      value = if data = [] then none else some (fieldValue data bits) := by
  rw [readValue]
  by_cases hempty : data = []
  · simp [hempty, eq_comm]
  · simp only [hempty, if_false, false_or]
    cases hread : readBits data bits with
    | error e =>
      refine iff_of_false (fun h => by cases h) fun h => ?_
      rw [readBits_eq_ok_iff.mpr ⟨h.1, rfl⟩] at hread
      cases hread
    | ok n =>
      obtain ⟨hcover, rfl⟩ := readBits_eq_ok_iff.mp hread
      rw [and_iff_right hcover]
      simp [Except.map, eq_comm]

end

/-! ### One reply -/

namespace JtagRegister

variable {reg reg' : JtagRegister} {slr : ℕ} {data : List UInt8} {l : List RegField}

/-- The fields of an SLR replaced. -/
def setFields (reg : JtagRegister) (slr : ℕ) (fields : Py.Dict String DataField) : JtagRegister :=
  { reg with fields := reg.fields.set slr fields }

@[simp] theorem setFields_data (fields : Py.Dict String DataField) :
    (reg.setFields slr fields).data = reg.data := rfl

@[simp] theorem setFields_definition (fields : Py.Dict String DataField) :
    (reg.setFields slr fields).definition = reg.definition := rfl

theorem setFields_setFields (fields fields' : Py.Dict String DataField) :
    (reg.setFields slr fields).setFields slr fields' = reg.setFields slr fields' := by
  simp [setFields]

theorem getElem?_setFields {fields fields' : Py.Dict String DataField}
    (h : reg.fields[slr]? = some fields) :
    (reg.setFields slr fields').fields[slr]? = some fields' :=
  List.getElem?_set_self (List.getElem?_eq_some_iff.mp h).1

theorem setFields_self {fields : Py.Dict String DataField} (h : reg.fields[slr]? = some fields) :
    reg.setFields slr fields = reg := by
  obtain ⟨hlt, rfl⟩ := List.getElem?_eq_some_iff.mp h
  rw [setFields, List.set_getElem_self]

/-- Decoded fields added to the dictionary of an SLR. -/
def addFields (definition : List RegField) (data : List UInt8)
    (fields : Py.Dict String DataField) (l : List RegField) : Py.Dict String DataField :=
  (l.filter (·.bits ≠ [])).foldl (fun fields field =>
    fields.set (fieldName definition field) (dataField definition field
      (if data = [] then none else some (fieldValue data field.bits)))) fields

theorem parseField_eq_ok_iff {field : RegField} {fields : Py.Dict String DataField}
    (hdata : reg.data[slr]? = some data) (hfields : reg.fields[slr]? = some fields) :
    parseField slr reg field = .ok reg' ↔ CoversFields [field] data ∧
      reg' = reg.setFields slr (addFields reg.definition data fields [field]) := by
  by_cases hbits : field.bits = []
  · rw [parseField, if_pos hbits]
    have hnone : addFields reg.definition data fields [field] = fields := by
      simp [addFields, hbits]
    simp [CoversFields, hbits, hnone, setFields_self hfields, eq_comm]
  have hone : addFields reg.definition data fields [field] =
      fields.set (fieldName reg.definition field) (dataField reg.definition field
        (if data = [] then none else some (fieldValue data field.bits))) := by
    simp [addFields, hbits]
  have hcovers : CoversFields [field] data ↔ data = [] ∨ ∀ b ∈ field.bits, b / 8 < data.length := by
    simp [CoversFields]
  rw [parseField, if_neg hbits, Py.index_natCast hdata, Py.ok_bind, Py.index_natCast hfields, hone,
    hcovers]
  constructor
  · intro h
    obtain ⟨value, hvalue, h⟩ := Py.bind_eq_ok h
    obtain ⟨hcover, rfl⟩ := readValue_eq_ok_iff.mp hvalue
    exact ⟨hcover, (Except.ok.inj h).symm⟩
  · rintro ⟨hcover, rfl⟩
    rw [readValue_eq_ok_iff.mpr ⟨hcover, rfl⟩]
    rfl

theorem coversFields_cons {field : RegField} :
    CoversFields (field :: l) data ↔ CoversFields [field] data ∧ CoversFields l data := by
  by_cases hempty : data = [] <;> simp [CoversFields, hempty]

/-- The second pass, where the bytes and the dictionary of the SLR are at its index. -/
theorem foldlM_parseField_iff {fields : Py.Dict String DataField}
    (hdata : reg.data[slr]? = some data) (hfields : reg.fields[slr]? = some fields) :
    l.foldlM (parseField slr) reg = .ok reg' ↔ CoversFields l data ∧
      reg' = reg.setFields slr (addFields reg.definition data fields l) := by
  induction l generalizing reg fields with
  | nil =>
    have hnone : addFields reg.definition data fields [] = fields := rfl
    rw [hnone, setFields_self hfields]
    simp [CoversFields, pure, Except.pure, eq_comm]
  | cons field l ih =>
    have hsplit : addFields reg.definition data (addFields reg.definition data fields [field]) l =
        addFields reg.definition data fields (field :: l) := by
      rw [addFields, addFields, addFields, ← List.foldl_append, ← List.filter_append]
      rfl
    rw [List.foldlM_cons, coversFields_cons]
    constructor
    · intro h
      obtain ⟨reg₁, hfield, h⟩ := Py.bind_eq_ok h
      obtain ⟨hcover, rfl⟩ := (parseField_eq_ok_iff hdata hfields).mp hfield
      obtain ⟨hrest, rfl⟩ := (ih (by simpa using hdata) (getElem?_setFields hfields)).mp h
      refine ⟨⟨hcover, hrest⟩, ?_⟩
      rw [setFields_setFields, setFields_definition, hsplit]
    · rintro ⟨⟨hcover, hrest⟩, rfl⟩
      rw [(parseField_eq_ok_iff hdata hfields).mpr ⟨hcover, rfl⟩, Py.ok_bind]
      refine (ih (by simpa using hdata) (getElem?_setFields hfields)).mpr ⟨hrest, ?_⟩
      rw [setFields_setFields, setFields_definition, hsplit]

/-- Without bytes or a dictionary at the index, only a pass over fields without bits ends. -/
theorem foldlM_parseField_missing (hnone : reg.data[slr]? = none ∨ reg.fields[slr]? = none)
    (h : l.foldlM (parseField slr) reg = .ok reg') :
    (∀ field ∈ l, field.bits = []) ∧ reg' = reg := by
  induction l with
  | nil => exact ⟨by simp, (Except.ok.inj h).symm⟩
  | cons field l ih =>
    rw [List.foldlM_cons] at h
    obtain ⟨reg₁, hfield, h⟩ := Py.bind_eq_ok h
    by_cases hbits : field.bits = []
    · rw [parseField, if_pos hbits] at hfield
      obtain rfl := Except.ok.inj hfield
      obtain ⟨hrest, hreg⟩ := ih h
      exact ⟨List.forall_mem_cons.mpr ⟨hbits, hrest⟩, hreg⟩
    · rw [parseField, if_neg hbits] at hfield
      obtain ⟨data, hdata, hfield⟩ := Py.bind_eq_ok hfield
      obtain ⟨value, -, hfield⟩ := Py.bind_eq_ok hfield
      obtain ⟨fields, hfields, -⟩ := Py.bind_eq_ok hfield
      rw [Py.index_natCast_eq_ok_iff] at hdata hfields
      rcases hnone with hnone | hnone
      · rw [hnone] at hdata
        cases hdata
      · rw [hnone] at hfields
        cases hfields

/-- A register with the bytes of an SLR and its decoded fields. -/
def stored (reg : JtagRegister) (slr : ℕ) (data : List UInt8) : JtagRegister :=
  { reg with
    data := Slots.store reg.data slr data
    fields := Slots.store reg.fields slr (decodedFields reg.definition data) }

theorem doneUpdate_eq_ok_iff (hdata : slr ≤ reg.data.length) (hfields : slr ≤ reg.fields.length) :
    reg.doneUpdate slr (some data) = .ok reg' ↔
      CoversFields reg.definition data ∧ reg' = reg.stored slr data := by
  rw [doneUpdate, parseFields]
  rw [foldlM_parseField_iff (Slots.getElem?_store_self hdata) (Slots.getElem?_store_self hfields)]
  refine and_congr_right fun _ => ?_
  have hstore : (Slots.store reg.fields slr Py.Dict.empty).set slr
      (decodedFields reg.definition data) =
        Slots.store reg.fields slr (decodedFields reg.definition data) :=
    Slots.set_store hfields
  rw [setFields, stored, ← hstore]
  rfl

/-- What a reply leaves, when its handler does not raise. -/
theorem doneUpdate_ok (h : reg.doneUpdate slr (some data) = .ok reg') :
    CoversFields reg.definition data ∧ reg'.definition = reg.definition ∧
      reg'.data = Slots.store reg.data slr data ∧
      reg'.fields.length = Slots.grow reg.fields.length slr := by
  by_cases hin : slr ≤ reg.data.length ∧ slr ≤ reg.fields.length
  · obtain ⟨hcover, rfl⟩ := (doneUpdate_eq_ok_iff hin.1 hin.2).mp h
    exact ⟨hcover, rfl, rfl, Slots.length_store⟩
  · rw [doneUpdate, parseFields] at h
    have hmissing : (Slots.store reg.data slr data)[slr]? = none ∨
        (Slots.store reg.fields slr Py.Dict.empty)[slr]? = none := by
      rw [List.getElem?_eq_none_iff, List.getElem?_eq_none_iff, Slots.length_store,
        Slots.length_store, Slots.grow, Slots.grow]
      split <;> split <;> omega
    obtain ⟨hbits, rfl⟩ := foldlM_parseField_missing hmissing h
    refine ⟨.inr fun field hfield b hb => ?_, rfl, rfl, Slots.length_store⟩
    rw [hbits field hfield] at hb
    cases hb

/-! ### All replies -/

section

variable {replies : ℕ → List UInt8} {order : List ℕ} {n : ℕ}

/-- What the replies leave, when no handler raises. -/
theorem receive_ok (h : reg.receive replies order = .ok reg') :
    (∀ slr ∈ order, CoversFields reg.definition (replies slr)) ∧
      reg'.data = Slots.fill replies reg.data order ∧
      reg'.fields.length = order.foldl Slots.grow reg.fields.length := by
  induction order generalizing reg with
  | nil =>
    obtain rfl := Except.ok.inj h
    exact ⟨by simp, rfl, rfl⟩
  | cons slr order ih =>
    rw [receive, List.foldlM_cons] at h
    obtain ⟨reg₁, hreply, h⟩ := Py.bind_eq_ok h
    obtain ⟨hcover, hdef, hdata, hlen⟩ := doneUpdate_ok hreply
    obtain ⟨hcovers, hdatas, hlens⟩ := ih h
    rw [hdef] at hcovers
    rw [hdata] at hdatas
    rw [hlen] at hlens
    exact ⟨List.forall_mem_cons.mpr ⟨hcover, hcovers⟩, hdatas, hlens⟩

/-- Replies in order, with all bytes. -/
theorem receive_inOrder (hdata : Slots.InOrder reg.data.length order)
    (hfields : Slots.InOrder reg.fields.length order)
    (hcover : ∀ slr ∈ order, CoversFields reg.definition (replies slr)) :
    ∃ reg', reg.receive replies order = .ok reg' ∧
      reg'.data = Slots.fill replies reg.data order ∧
      reg'.fields = Slots.fill (fun slr => decodedFields reg.definition (replies slr)) reg.fields
        order := by
  induction order generalizing reg with
  | nil => exact ⟨reg, rfl, rfl, rfl⟩
  | cons slr order ih =>
    obtain ⟨hslr, hdata⟩ := hdata
    obtain ⟨hslr', hfields⟩ := hfields
    obtain ⟨hfirst, hcover⟩ := List.forall_mem_cons.mp hcover
    obtain ⟨reg', hrun, hdata', hfields'⟩ := @ih (reg.stored slr (replies slr))
      (by rwa [stored, Slots.length_store]) (by rwa [stored, Slots.length_store]) hcover
    refine ⟨reg', ?_, hdata', hfields'⟩
    rw [receive, List.foldlM_cons, (doneUpdate_eq_ok_iff hslr hslr').mpr ⟨hfirst, rfl⟩]
    exact hrun

/-- The replies of all SLRs leave their bytes and fields at their indices exactly if the replies for
    SLRs behind the ends of the lists come in order, and all have the bytes of the fields. -/
theorem receive_iff (hslrs : reg.supportsSlrs = true) (hn : 1 ≤ n)
    (horder : order.Perm (reg.requestedSlrs n)) :
    (∃ reg', reg.receive replies order = .ok reg' ∧ ∀ i < n, reg'.data[i]? = some (replies i) ∧
        reg'.fields[i]? = some (decodedFields reg.definition (replies i))) ↔
      (order.filter (reg.data.length ≤ ·)).Pairwise (· < ·) ∧
        (order.filter (reg.fields.length ≤ ·)).Pairwise (· < ·) ∧
        ∀ i < n, CoversFields reg.definition (replies i) := by
  have hrequested : reg.requestedSlrs n = List.range n := by
    rw [requestedSlrs]
    by_cases hone : n > 1
    · rw [if_pos ⟨hslrs, hone⟩]
    · obtain rfl : n = 1 := by omega
      simp
  rw [hrequested] at horder
  have hmem : ∀ i, i ∈ order ↔ i < n := fun i => by rw [horder.mem_iff, List.mem_range]
  have hremaining := Slots.remaining_of_perm horder
  rw [← Slots.inOrder_iff (hremaining _), ← Slots.inOrder_iff (hremaining _)]
  constructor
  · rintro ⟨reg', hrun, hslots⟩
    obtain ⟨hcover, hdata, hlen⟩ := receive_ok hrun
    obtain ⟨hlast, hlast'⟩ := hslots (n - 1) (by omega)
    have hdataLt := (List.getElem?_eq_some_iff.mp hlast).1
    have hfieldsLt := (List.getElem?_eq_some_iff.mp hlast').1
    rw [hdata, Slots.length_fill] at hdataLt
    rw [hlen] at hfieldsLt
    exact ⟨Slots.inOrder_of_length (hremaining _) (by omega),
      Slots.inOrder_of_length (hremaining _) (by omega), fun i hi => hcover i ((hmem i).mpr hi)⟩
  · rintro ⟨hdata, hfields, hcover⟩
    obtain ⟨reg', hrun, hdata', hfields'⟩ := receive_inOrder hdata hfields
      fun i hi => hcover i ((hmem i).mp hi)
    refine ⟨reg', hrun, fun i hi => ?_⟩
    rw [hdata', hfields']
    exact ⟨Slots.getElem?_fill hdata (.inl ((hmem i).mpr hi)),
      Slots.getElem?_fill (f := fun i => decodedFields reg.definition (replies i)) hfields
        (.inl ((hmem i).mpr hi))⟩

end

/-! ### Two SLRs -/

/-- A register of eight bits with one field. -/
def eightBits : JtagRegister where
  supportsSlrs := true
  definition := [⟨"STATUS", [3, 2, 1, 0], []⟩]

/-- The replies in the order of the SLRs. -/
theorem receive_ascending : ∃ reg',
    eightBits.receive (fun slr => [UInt8.ofNat slr]) [0, 1] = .ok reg' ∧
    ∀ i < 2, reg'.data[i]? = some [UInt8.ofNat i] ∧
      reg'.fields[i]? = some (decodedFields eightBits.definition [UInt8.ofNat i]) :=
  (@receive_iff eightBits (fun slr => [UInt8.ofNat slr]) [0, 1] 2 rfl (by decide) (by decide)).mpr
    ⟨by decide, by decide, fun i _ => .inr (by simp [eightBits])⟩

/-- The handler of the first reply raises when it is that of SLR 1. -/
theorem not_receive_descending : ¬ ∀ (reg : JtagRegister) (n : ℕ) (replies : ℕ → List UInt8)
    (order : List ℕ), reg.supportsSlrs = true → 1 ≤ n → order.Perm (reg.requestedSlrs n) →
    (∀ i < n, CoversFields reg.definition (replies i)) →
    ∃ reg', reg.receive replies order = .ok reg' ∧ ∀ i < n, reg'.data[i]? = some (replies i) ∧
      reg'.fields[i]? = some (decodedFields reg.definition (replies i)) := by
  intro h
  obtain ⟨reg', hrun, -⟩ := h eightBits 2 (fun slr => [UInt8.ofNat slr]) [1, 0] rfl (by decide)
    (by decide) fun i _ => .inr (by simp [eightBits])
  have herror : eightBits.receive (fun slr => [UInt8.ofNat slr]) [1, 0] = .error .indexError := rfl
  rw [herror] at hrun
  cases hrun

end JtagRegister

end Chipscopy.Client
