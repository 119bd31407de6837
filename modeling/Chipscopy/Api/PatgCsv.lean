import Chipscopy.Api.PatgPacking

/-! Instructions of a traffic generator from rows

    A row is loaded cell by cell into an instruction that the constructor made, and nothing is
    computed or checked afterwards. The constructor has by then put in the number of bytes of the
    default instruction, so a row without that number keeps one byte, a row with a zero keeps the
    zero, and a number that is too wide stays. -/

namespace Chipscopy.Api.Patg

/-! ### Cells -/

/-- Attributes that are loaded are numbers or texts. -/
inductive CsvValue
  | int (n : ℤ)
  | text (s : String)
  deriving DecidableEq, Repr

/-- Characters outside ASCII whose upper case is in ASCII. -/
def upperSpecial : List (Char × String) :=
  [('ı', "I"), ('ſ', "S"), ('ß', "SS"), ('ﬀ', "FF"), ('ﬁ', "FI"), ('ﬂ', "FL"), ('ﬃ', "FFI"),
    ('ﬄ', "FFL"), ('ﬅ', "ST"), ('ﬆ', "ST")]

/-- `str.upper`, as far as a comparison with a word of ASCII can tell. -/
def upper (s : String) : String :=
  String.ofList (s.toList.flatMap fun c => match Py.lookup c upperSpecial with
    | some t => t.toList
    | none => [c.toUpper])

def getValueAsNum (specifier : String) : Except Py.Error CsvValue :=
  let start := (specifier.toList.take 2).map Char.toLower
  if start = ['0', 'x'] then (IntLiteral.int 16 specifier.toList).map .int
  else if start = ['0', 'b'] then (IntLiteral.int 2 specifier.toList).map .int
  else if specifier = "" then .ok (.int 0)
  else match IntLiteral.int 10 specifier.toList with
    | .ok n => .ok (.int n)
    | .error _ => .ok (.text specifier)

/-- An attribute and the value that it gets. -/
inductive Assignment
  | field (field : Field) (value : CsvValue)
  | addrIncrBy (value : CsvValue)
  deriving DecidableEq, Repr

def readCmd (value : String) : Except Py.Error (List Assignment) :=
  if upper value = "READ" then .ok [.field .transactionType (.int 0)]
  else if upper value = "WRITE" then .ok [.field .transactionType (.int 1)]
  else if upper value = "WAIT" then .ok [.field .transactionType (.int 2)]
  else if upper value = "PHASE_DONE" then .ok [.field .axiUser (.int 1)]
  else .error (.valueError s!"Unsupported cmd: {value}")

def readDataIntegrity (value : String) : Except Py.Error (List Assignment) := do
  match ← getValueAsNum value with
  | .int n => .ok [.field .dataIntegrity (.int n)]
  | .text s =>
    if upper s = "ENABLED" then .ok [.field .dataIntegrity (.int 1)]
    else if upper s = "DISABLED" then .ok [.field .dataIntegrity (.int 0)]
    else .error (.valueError s!"Unsupported data_integrity: {s}")

def readWdataPatValue (value : String) : Except Py.Error (List Assignment) := do
  match ← getValueAsNum value with
  | .int n => .ok [.field .wdataPatValue (.int n)]
  | .text _ => .error (.valueError s!"Unsupported wdata_pattern: {value}")

/-- The identifier is counted up or a constant. -/
def readAxiId (value : String) : Except Py.Error (List Assignment) := do
  match ← getValueAsNum value with
  | .int n => .ok [.field .axiIdType (.int 0), .field .instIdValue (.int n)]
  | .text s =>
    if upper s = "AUTO_INCR" then .ok [.field .axiIdType (.int 1)]
    else .error (.valueError s!"Unsupported axi_id: {value}")

def readExpResp (value : String) : Except Py.Error (List Assignment) :=
  if upper value = "" then .ok [.field .expResp (.int 0b000)]
  else if upper value = "OKAY" then .ok [.field .expResp (.int 0b100)]
  else if upper value = "EXOKAY" then .ok [.field .expResp (.int 0b101)]
  else if upper value = "SLVERR" then .ok [.field .expResp (.int 0b110)]
  else if upper value = "DECERR" then .ok [.field .expResp (.int 0b111)]
  else .error (.valueError s!"Unsupported exp_resp: {value}")

/-- The value of a column without rules of its own. -/
def readPlain (assign : CsvValue → Assignment) (value : String) :
    Except Py.Error (List Assignment) := do
  let v ← getValueAsNum value
  .ok [assign v]

/-- What one cell sets. Attributes that are no fields have no column. -/
def readCell (key value : String) : Except Py.Error (List Assignment) :=
  if key ∈ ["TG_NUM", "wdata_pattern"] then .ok []
  else if key = "addr_incr_by" then readPlain .addrIncrBy value
  else if key = "cmd" then readCmd value
  else if key = "data_integrity" then readDataIntegrity value
  else if key = "wdata_pat_value" then readWdataPatValue value
  else if key = "axi_id" then readAxiId value
  else if key = "exp_resp" then readExpResp value
  else if key = "txn_count/loop_count/wait_option" then readPlain (.field .txnCount) value
  else if key = "start_delay/loop_operation" then readPlain (.field .startDelay) value
  else match instructionPacking.find? fun e => e.2.1 = key with
    | some e => readPlain (.field e.1) value
    | none => .error (.valueError s!"Unsupported field in CSV: {key}")

/-! ### Instructions -/

/-- Attributes of an instruction while nothing is known of their types. -/
structure CsvInstruction where
  value : Field → CsvValue
  addrIncrBy : CsvValue

namespace CsvInstruction

def ofInstruction (i : PATGInstruction) : CsvInstruction where
  value field := .int (i.value field)
  addrIncrBy := match i.addrIncrBy with
    | none => .text "AUTO_INCR"
    | some n => .int n

/-- The numbers. Of an increment that is another text it only counts that it is not `AUTO_INCR`. -/
def toInstruction (i : CsvInstruction) : PATGInstruction where
  value field := match i.value field with
    | .int n => n
    | .text _ => 0
  addrIncrBy := match i.addrIncrBy with
    | .int n => some n
    | .text s => if s = "AUTO_INCR" then none else some 0

/-- `setattr`. -/
def set (i : CsvInstruction) : Assignment → CsvInstruction
  | .field f v => ⟨Function.update i.value f v, i.addrIncrBy⟩
  | .addrIncrBy v => ⟨i.value, v⟩

def loadCell (i : CsvInstruction) (cell : String × String) : Except Py.Error CsvInstruction := do
  let assignments ← readCell cell.1 cell.2
  .ok (assignments.foldl set i)

/-- The loop of `load_from_csv`. -/
def loadFromCsv (i : CsvInstruction) (csvData : Py.Dict String String) :
    Except Py.Error CsvInstruction :=
  csvData.entries.foldlM loadCell i

/-- `_validate`, where a text has no hexadecimal form for the message. -/
def validate (i : CsvInstruction) : Except Py.Error Unit :=
  instructionPacking.forM fun (field, name, bitWidth, _) => match i.value field with
    | .int n =>
      if 0 ≤ n ∧ n < 2 ^ bitWidth then .ok ()
      else .error (.valueError
        s!"{name}: 0x{PATGInstruction.formatHex n} is restricted to {bitWidth} bits")
    | .text _ => .error (.valueError "Unknown format code 'X' for object of type 'str'")

/-- The constructor with these arguments. -/
def construct (args : CsvInstruction) : Except Py.Error PATGInstruction := do
  args.validate
  .ok args.toInstruction.initializeFields

/-- `pack_struct`, where a text cannot be masked. -/
def packStruct (i : CsvInstruction) : Except Py.Error ℕ :=
  instructionPacking.foldlM (fun word (field, _, width, bitShift) => match i.value field with
    | .int n => .ok (word ||| (n.land ((1 : ℤ) <<< width - 1)).toNat <<< bitShift)
    | .text _ => .error (.typeError "unsupported operand type(s) for &: 'str' and 'int'")) 0

end CsvInstruction

/-- `PATGInstruction()` and `load_from_csv(row)`. -/
def fromRow (row : Py.Dict String String) : Except Py.Error CsvInstruction := do
  let i ← PATGInstruction.new PATGInstruction.defaults
  (CsvInstruction.ofInstruction i).loadFromCsv row

/-- The arguments that a row names, with the default arguments for the others. -/
def arguments (row : Py.Dict String String) : Except Py.Error CsvInstruction :=
  (CsvInstruction.ofInstruction PATGInstruction.defaults).loadFromCsv row

/-! ### Agreement -/

/-- A number within a width. -/
def CsvValue.Fits (width : ℕ) : CsvValue → Prop
  | .int n => 0 ≤ n ∧ n < 2 ^ width
  | .text _ => False

instance (width : ℕ) : DecidablePred (CsvValue.Fits width)
  | .int n => inferInstanceAs (Decidable (0 ≤ n ∧ n < 2 ^ width))
  | .text _ => inferInstanceAs (Decidable False)

/-- The increment is not packed and not checked. -/
def Assignment.Fits : Assignment → Prop
  | .field f v => ∀ e ∈ instructionPacking, e.1 = f → v.Fits e.2.2.1
  | .addrIncrBy _ => True

instance : DecidablePred Assignment.Fits
  | .field f v =>
    inferInstanceAs (Decidable (∀ e ∈ instructionPacking, e.1 = f → v.Fits e.2.2.1))
  | .addrIncrBy _ => inferInstanceAs (Decidable True)

/-- A cell that sets values which the constructor accepts. -/
def CellFits (cell : String × String) : Prop :=
  ∃ assignments, readCell cell.1 cell.2 = .ok assignments ∧ ∀ a ∈ assignments, a.Fits

/-- A row that fits gives the word of the constructor, and another one is refused. -/
def Agrees (row : Py.Dict String String) : Prop :=
  ((∀ cell ∈ row.entries, CellFits cell) → ∃ i args j word, fromRow row = .ok i ∧
    arguments row = .ok args ∧ args.construct = .ok j ∧
    i.packStruct = .ok word ∧ word = j.packStruct) ∧
  ((∃ cell ∈ row.entries, ¬ CellFits cell) → ∃ msg, fromRow row = .error (.valueError msg))

/-- Names of columns. -/
def IsColumn (key : String) : Prop :=
  key ∈ ["TG_NUM", "wdata_pattern", "addr_incr_by", "cmd", "axi_id",
    "txn_count/loop_count/wait_option", "start_delay/loop_operation"] ∨
    key ∈ instructionPacking.map fun e => e.2.1

instance : DecidablePred IsColumn := fun _ => inferInstanceAs (Decidable (_ ∨ _))

/-! ### Where they agree -/

/-- A numeral with a prefix and no digits that belong to it. -/
def Malformed (value : String) : Prop := ∃ e, getValueAsNum value = .error e

def IsText (value : String) : Prop := getValueAsNum value = .ok (.text value)

/-- Cells that the loader itself refuses. -/
def Unsupported (key value : String) : Prop :=
  (key = "cmd" ∧ upper value ∉ ["READ", "WRITE", "WAIT", "PHASE_DONE"]) ∨
  (key = "exp_resp" ∧ upper value ∉ ["", "OKAY", "EXOKAY", "SLVERR", "DECERR"]) ∨
  (key ∉ ["TG_NUM", "wdata_pattern", "cmd", "exp_resp"] ∧ Malformed value) ∨
  (key = "data_integrity" ∧ IsText value ∧ upper value ∉ ["ENABLED", "DISABLED"]) ∨
  (key = "wdata_pat_value" ∧ IsText value) ∨
  (key = "axi_id" ∧ IsText value ∧ upper value ≠ "AUTO_INCR")

namespace PATGInstruction

/-- A read or a write. -/
def Transfers (i : PATGInstruction) : Prop :=
  i.value .transactionType = 1 ∨ i.value .transactionType = 0

/-- The address offset has the number of a random pattern. -/
def Random (i : PATGInstruction) : Prop :=
  i.value .axiAddrOffset = 0b10 ∨ i.value .axiAddrOffset = 0b11

/-- Arguments of which the constructor makes no bytes. -/
def NoBytes (i : PATGInstruction) : Prop :=
  ¬ i.Transfers ∨ i.Random ∨ (i.addrIncrBy ≠ none ∧ i.value .loopAddrIncrBy = 0)

/-- Arguments of which the constructor makes one byte. -/
def OneByte (i : PATGInstruction) : Prop :=
  i.Transfers ∧ ¬ i.Random ∧
    ((i.addrIncrBy = none ∧ i.value .axiSize = 0 ∧
        ((i.value .axiBurst = 0 ∧ i.value .axiLock = 0) ∨ i.value .axiLen = 0)) ∨
      (i.addrIncrBy ≠ none ∧ i.value .loopAddrIncrBy = 1))

end PATGInstruction

/-- The number of bytes is given, or it is the one that the loader leaves. -/
def CountAgrees (row : Py.Dict String String) (args : PATGInstruction) : Prop :=
  if "number_of_bytes_per_transaction" ∈ row.keys then
    args.value .numberOfBytesPerTransaction = 0 → args.NoBytes
  else args.OneByte

/-- The loader refuses a cell, or every cell fits and the number of bytes agrees. -/
def Loadable (row : Py.Dict String String) : Prop :=
  (∃ cell ∈ row.entries, Unsupported cell.1 cell.2) ∨
    ((∀ cell ∈ row.entries, CellFits cell) ∧
      ∃ args, arguments row = .ok args ∧ CountAgrees row args.toInstruction)

/-! ### Reading a cell -/

theorem int_valueError {base : ℕ} {s : List Char} {e : Py.Error}
    (h : IntLiteral.int base s = .error e) : ∃ msg, e = .valueError msg := by
  rw [IntLiteral.int] at h
  split at h
  · cases h
  · exact ⟨_, (Except.error.inj h).symm⟩

theorem getValueAsNum_valueError {value : String} {e : Py.Error}
    (h : getValueAsNum value = .error e) : ∃ msg, e = .valueError msg := by
  have hmap : ∀ base, (IntLiteral.int base value.toList).map CsvValue.int = .error e →
      ∃ msg, e = .valueError msg := by
    intro base hbase
    cases hint : IntLiteral.int base value.toList with
    | ok n =>
      rw [hint] at hbase
      cases hbase
    | error e' =>
      rw [hint] at hbase
      obtain rfl := Except.error.inj hbase
      exact int_valueError hint
  simp only [getValueAsNum] at h
  split_ifs at h
  · exact hmap 16 h
  · exact hmap 2 h
  · split at h
    · cases h
    · cases h

/-- A text is the cell itself. -/
theorem getValueAsNum_text {value s : String} (h : getValueAsNum value = .ok (.text s)) :
    s = value := by
  have hmap : ∀ base, (IntLiteral.int base value.toList).map CsvValue.int ≠ .ok (.text s) := by
    intro base hbase
    cases hint : IntLiteral.int base value.toList with
    | ok n =>
      rw [hint] at hbase
      cases hbase
    | error e' =>
      rw [hint] at hbase
      cases hbase
  simp only [getValueAsNum] at h
  split_ifs at h
  · exact absurd h (hmap 16)
  · exact absurd h (hmap 2)
  · cases h
  · split at h
    · cases h
    · cases h
      rfl

/-- A number, a text or a numeral that cannot be read. -/
theorem getValueAsNum_cases (value : String) :
    (∃ n, getValueAsNum value = .ok (.int n)) ∨ IsText value ∨ Malformed value := by
  cases h : getValueAsNum value with
  | error e => exact .inr (.inr ⟨e, h⟩)
  | ok v =>
    cases v with
    | int n => exact .inl ⟨n, rfl⟩
    | text s =>
      obtain rfl := getValueAsNum_text h
      exact .inr (.inl h)

section Readers

variable {value : String} {n : ℤ}

theorem not_text_of_int (h : getValueAsNum value = .ok (.int n)) : ¬ IsText value := by
  intro htext
  rw [IsText, h] at htext
  cases htext

theorem not_malformed_of_ok {v : CsvValue} (h : getValueAsNum value = .ok v) :
    ¬ Malformed value := by
  rintro ⟨e, he⟩
  rw [h] at he
  cases he

theorem readCmd_error_iff :
    (∃ e, readCmd value = .error e) ↔ upper value ∉ ["READ", "WRITE", "WAIT", "PHASE_DONE"] := by
  unfold readCmd
  split_ifs with hread hwrite hwait hdone
  all_goals simp [*]

theorem readExpResp_error_iff : (∃ e, readExpResp value = .error e) ↔
    upper value ∉ ["", "OKAY", "EXOKAY", "SLVERR", "DECERR"] := by
  unfold readExpResp
  split_ifs with hnone hokay hexokay hslverr hdecerr
  all_goals simp [*]

theorem readPlain_error_iff {assign : CsvValue → Assignment} :
    (∃ e, readPlain assign value = .error e) ↔ Malformed value := by
  rw [readPlain, Malformed]
  cases h : getValueAsNum value with
  | error e => simp [Py.error_bind]
  | ok v => simp [Py.ok_bind]

theorem readDataIntegrity_error_iff : (∃ e, readDataIntegrity value = .error e) ↔
    Malformed value ∨ (IsText value ∧ upper value ∉ ["ENABLED", "DISABLED"]) := by
  rcases getValueAsNum_cases value with ⟨n, h⟩ | h | h
  · simp [readDataIntegrity, h, Py.ok_bind, not_text_of_int h, not_malformed_of_ok h]
  · have hnot := not_malformed_of_ok h
    have hvalue : getValueAsNum value = .ok (.text value) := h
    rw [readDataIntegrity, hvalue, Py.ok_bind]
    dsimp only
    split_ifs with henabled hdisabled
    all_goals simp [*]
  · obtain ⟨e, he⟩ := h
    simp [readDataIntegrity, he, Py.error_bind, Malformed]

theorem readWdataPatValue_error_iff :
    (∃ e, readWdataPatValue value = .error e) ↔ Malformed value ∨ IsText value := by
  rcases getValueAsNum_cases value with ⟨n, h⟩ | h | h
  · simp [readWdataPatValue, h, Py.ok_bind, not_text_of_int h, not_malformed_of_ok h]
  · have hvalue : getValueAsNum value = .ok (.text value) := h
    simp [readWdataPatValue, hvalue, Py.ok_bind, h]
  · obtain ⟨e, he⟩ := h
    simp [readWdataPatValue, he, Py.error_bind, Malformed]

theorem readAxiId_error_iff : (∃ e, readAxiId value = .error e) ↔
    Malformed value ∨ (IsText value ∧ upper value ≠ "AUTO_INCR") := by
  rcases getValueAsNum_cases value with ⟨n, h⟩ | h | h
  · simp [readAxiId, h, Py.ok_bind, not_text_of_int h, not_malformed_of_ok h]
  · have hnot := not_malformed_of_ok h
    have hvalue : getValueAsNum value = .ok (.text value) := h
    rw [readAxiId, hvalue, Py.ok_bind]
    dsimp only
    split_ifs with hauto
    all_goals simp [*]
  · obtain ⟨e, he⟩ := h
    simp [readAxiId, he, Py.error_bind, Malformed]

end Readers

/-- The column of a field that has no rules of its own. -/
theorem readCell_field {key : String} (hcolumn : IsColumn key)
    (hskip : key ∉ ["TG_NUM", "wdata_pattern"]) (hincr : key ≠ "addr_incr_by") (hcmd : key ≠ "cmd")
    (hintegrity : key ≠ "data_integrity") (hpattern : key ≠ "wdata_pat_value")
    (hid : key ≠ "axi_id") (hresp : key ≠ "exp_resp")
    (hcount : key ≠ "txn_count/loop_count/wait_option")
    (hdelay : key ≠ "start_delay/loop_operation") :
    ∃ e ∈ instructionPacking, e.2.1 = key ∧
      ∀ value, readCell key value = readPlain (.field e.1) value := by
  have hname : ∃ e ∈ instructionPacking, e.2.1 = key := by
    rcases hcolumn with hspecial | hfield
    · simp only [List.mem_cons, List.not_mem_nil, or_false, not_or] at hspecial hskip
      rcases hspecial with h | h | h | h | h | h | h
      · exact absurd h hskip.1
      · exact absurd h hskip.2
      · exact absurd h hincr
      · exact absurd h hcmd
      · exact absurd h hid
      · exact absurd h hcount
      · exact absurd h hdelay
    · exact List.mem_map.mp hfield
  obtain ⟨e₀, he₀, hkey₀⟩ := hname
  cases hfind : instructionPacking.find? (fun e => e.2.1 = key) with
  | none =>
    have hnone := List.find?_eq_none.mp hfind e₀ he₀
    exact absurd hkey₀ (by simpa using hnone)
  | some e =>
    refine ⟨e, List.mem_of_find?_eq_some hfind, by simpa using List.find?_some hfind, fun value => ?_⟩
    rw [readCell, if_neg hskip, if_neg hincr, if_neg hcmd, if_neg hintegrity, if_neg hpattern,
      if_neg hid, if_neg hresp, if_neg hcount, if_neg hdelay, hfind]

/-- The loader refuses the cells that it does not know. -/
theorem readCell_error_iff {key : String} (hcolumn : IsColumn key) (value : String) :
    (∃ e, readCell key value = .error e) ↔ Unsupported key value := by
  by_cases hskip : key ∈ ["TG_NUM", "wdata_pattern"]
  · rw [readCell, if_pos hskip]
    simp only [List.mem_cons, List.not_mem_nil, or_false] at hskip
    rcases hskip with rfl | rfl
    all_goals simp [Unsupported]
  rcases eq_or_ne key "addr_incr_by" with rfl | hincr
  · have hread : readCell "addr_incr_by" value = readPlain .addrIncrBy value := by simp [readCell]
    rw [hread, readPlain_error_iff]
    simp [Unsupported]
  rcases eq_or_ne key "cmd" with rfl | hcmd
  · have hread : readCell "cmd" value = readCmd value := by simp [readCell]
    rw [hread, readCmd_error_iff]
    simp [Unsupported]
  rcases eq_or_ne key "data_integrity" with rfl | hintegrity
  · have hread : readCell "data_integrity" value = readDataIntegrity value := by simp [readCell]
    rw [hread, readDataIntegrity_error_iff]
    simp [Unsupported]
  rcases eq_or_ne key "wdata_pat_value" with rfl | hpattern
  · have hread : readCell "wdata_pat_value" value = readWdataPatValue value := by simp [readCell]
    rw [hread, readWdataPatValue_error_iff]
    simp [Unsupported]
  rcases eq_or_ne key "axi_id" with rfl | hid
  · have hread : readCell "axi_id" value = readAxiId value := by simp [readCell]
    rw [hread, readAxiId_error_iff]
    simp [Unsupported]
  rcases eq_or_ne key "exp_resp" with rfl | hresp
  · have hread : readCell "exp_resp" value = readExpResp value := by simp [readCell]
    rw [hread, readExpResp_error_iff]
    simp [Unsupported]
  rcases eq_or_ne key "txn_count/loop_count/wait_option" with rfl | hcount
  · have hread : readCell "txn_count/loop_count/wait_option" value =
        readPlain (.field .txnCount) value := by simp [readCell]
    rw [hread, readPlain_error_iff]
    simp [Unsupported]
  rcases eq_or_ne key "start_delay/loop_operation" with rfl | hdelay
  · have hread : readCell "start_delay/loop_operation" value =
        readPlain (.field .startDelay) value := by simp [readCell]
    rw [hread, readPlain_error_iff]
    simp [Unsupported]
  obtain ⟨e, -, -, hread⟩ := readCell_field hcolumn hskip hincr hcmd hintegrity hpattern hid hresp
    hcount hdelay
  rw [hread]
  refine readPlain_error_iff.trans ?_
  have hkeys : key ∉ ["TG_NUM", "wdata_pattern", "cmd", "exp_resp"] := by
    simp only [List.mem_cons, List.not_mem_nil, or_false, not_or] at hskip ⊢
    exact ⟨hskip.1, hskip.2, hcmd, hresp⟩
  simp [Unsupported, hkeys, hcmd, hintegrity, hpattern, hid, hresp]

/-! ### What a cell sets -/

/-- The value that a field gets. -/
def Assignment.assigns (f : Field) : Assignment → Option CsvValue
  | .field g v => if g = f then some v else none
  | .addrIncrBy _ => none

/-- Everything that is set has the property, and errors are of one kind. -/
def Reads (P : Assignment → Prop) : Except Py.Error (List Assignment) → Prop
  | .ok assignments => ∀ a ∈ assignments, P a
  | .error e => ∃ msg, e = .valueError msg

theorem reads_bind {P : Assignment → Prop} {value : String}
    {read : CsvValue → Except Py.Error (List Assignment)} (h : ∀ v, Reads P (read v)) :
    Reads P (getValueAsNum value >>= read) := by
  cases hvalue : getValueAsNum value with
  | error e => exact getValueAsNum_valueError hvalue
  | ok v => exact h v

theorem reads_refused {P : Assignment → Prop} (msg : String) :
    Reads P (.error (.valueError msg)) := ⟨msg, rfl⟩

theorem reads_plain {P : Assignment → Prop} {assign : CsvValue → Assignment}
    (h : ∀ v, P (assign v)) (value : String) : Reads P (readPlain assign value) :=
  reads_bind fun v => by simpa [Reads] using h v

/-- The number of bytes has one column. -/
def OthersKeepBytes (key : String) (a : Assignment) : Prop :=
  key ≠ "number_of_bytes_per_transaction" → a.assigns .numberOfBytesPerTransaction = none

theorem reads_ite {P : Assignment → Prop} {p : Prop} [Decidable p]
    {a b : Except Py.Error (List Assignment)} (ha : Reads P a) (hb : Reads P b) :
    Reads P (if p then a else b) := by
  split
  · exact ha
  · exact hb

/-- Another field than the number of bytes is set. -/
theorem reads_other {f : Field} (hf : f ≠ .numberOfBytesPerTransaction) (key : String)
    (v : CsvValue) : Reads (OthersKeepBytes key) (.ok [.field f v]) := by
  simp [Reads, OthersKeepBytes, Assignment.assigns, hf]

section Readers

variable (key value : String)

theorem readCmd_reads : Reads (OthersKeepBytes key) (readCmd value) := by
  rw [readCmd]
  refine reads_ite (reads_other (by decide) key _) ?_
  refine reads_ite (reads_other (by decide) key _) ?_
  refine reads_ite (reads_other (by decide) key _) ?_
  exact reads_ite (reads_other (by decide) key _) (reads_refused _)

theorem readDataIntegrity_reads : Reads (OthersKeepBytes key) (readDataIntegrity value) := by
  refine reads_bind fun v => ?_
  cases v with
  | int n => exact reads_other (by decide) key _
  | text s =>
    refine reads_ite (reads_other (by decide) key _) ?_
    exact reads_ite (reads_other (by decide) key _) (reads_refused _)

theorem readWdataPatValue_reads : Reads (OthersKeepBytes key) (readWdataPatValue value) := by
  refine reads_bind fun v => ?_
  cases v with
  | int n => exact reads_other (by decide) key _
  | text s => exact reads_refused _

theorem readAxiId_reads : Reads (OthersKeepBytes key) (readAxiId value) := by
  refine reads_bind fun v => ?_
  cases v with
  | int n => simp [Reads, OthersKeepBytes, Assignment.assigns]
  | text s => exact reads_ite (reads_other (by decide) key _) (reads_refused _)

theorem readExpResp_reads : Reads (OthersKeepBytes key) (readExpResp value) := by
  rw [readExpResp]
  refine reads_ite (reads_other (by decide) key _) ?_
  refine reads_ite (reads_other (by decide) key _) ?_
  refine reads_ite (reads_other (by decide) key _) ?_
  refine reads_ite (reads_other (by decide) key _) ?_
  exact reads_ite (reads_other (by decide) key _) (reads_refused _)

theorem readCell_reads : Reads (OthersKeepBytes key) (readCell key value) := by
  have hplain : ∀ f : Field, f ≠ .numberOfBytesPerTransaction →
      Reads (OthersKeepBytes key) (readPlain (.field f) value) := by
    intro f hf
    exact reads_plain (fun v => by simp [OthersKeepBytes, Assignment.assigns, hf]) value
  rw [readCell]
  refine reads_ite (by simp [Reads]) ?_
  refine reads_ite (reads_plain (fun v => by simp [OthersKeepBytes, Assignment.assigns]) value) ?_
  refine reads_ite (readCmd_reads key value) ?_
  refine reads_ite (readDataIntegrity_reads key value) ?_
  refine reads_ite (readWdataPatValue_reads key value) ?_
  refine reads_ite (readAxiId_reads key value) ?_
  refine reads_ite (readExpResp_reads key value) ?_
  refine reads_ite (hplain _ (by decide)) ?_
  refine reads_ite (hplain _ (by decide)) ?_
  cases hfind : instructionPacking.find? fun e => e.2.1 = key with
  | none => exact reads_refused _
  | some e =>
    refine reads_plain (fun v hkey => ?_) value
    have hne : ¬ e.1 = .numberOfBytesPerTransaction := by
      intro hfield
      have hentry : (.numberOfBytesPerTransaction, "number_of_bytes_per_transaction", 48, 53) ∈
          instructionPacking := by decide
      obtain rfl := PATGInstruction.entry_unique (List.mem_of_find?_eq_some hfind) hentry hfield
      exact hkey (Eq.symm (by simpa using List.find?_some hfind))
    simp [Assignment.assigns, hne]

end Readers

theorem readCell_valueError {key value : String} {e : Py.Error}
    (h : readCell key value = .error e) : ∃ msg, e = .valueError msg := by
  have hreads := readCell_reads key value
  rwa [h] at hreads

theorem readCell_keeps {key value : String} {assignments : List Assignment}
    (h : readCell key value = .ok assignments) : ∀ a ∈ assignments, OthersKeepBytes key a := by
  have hreads := readCell_reads key value
  rwa [h] at hreads

theorem readCell_bytes {value : String} {assignments : List Assignment}
    (h : readCell "number_of_bytes_per_transaction" value = .ok assignments) :
    ∃ v, assignments = [.field .numberOfBytesPerTransaction v] := by
  have hread : readCell "number_of_bytes_per_transaction" value =
      readPlain (.field .numberOfBytesPerTransaction) value := rfl
  rw [hread, readPlain] at h
  obtain ⟨v, -, hv⟩ := Py.bind_eq_ok h
  exact ⟨v, (Except.ok.inj hv).symm⟩

/-! ### Loading a row -/

/-- Everything that a row sets. -/
def assigned (row : Py.Dict String String) : List Assignment :=
  row.entries.flatMap fun cell => (readCell cell.1 cell.2).toOption.getD []

/-- A row of cells that can be read. -/
def Readable (row : Py.Dict String String) : Prop :=
  ∀ cell ∈ row.entries, ∃ assignments, readCell cell.1 cell.2 = .ok assignments

theorem loadFromCsv_ok {row : Py.Dict String String} (h : Readable row) (i : CsvInstruction) :
    i.loadFromCsv row = .ok ((assigned row).foldl CsvInstruction.set i) := by
  have hloop := @Py.foldlM_eq_ok _ _ _ CsvInstruction.loadCell
    (fun i cell => ((readCell cell.1 cell.2).toOption.getD []).foldl CsvInstruction.set i)
    row.entries i fun i cell hcell => by
      obtain ⟨assignments, hread⟩ := h cell hcell
      rw [CsvInstruction.loadCell, hread, Py.ok_bind]
      rfl
  rw [CsvInstruction.loadFromCsv, hloop, assigned, List.foldl_flatMap]

/-- A cell that cannot be read stops the loading. -/
theorem loadFromCsv_error {row : Py.Dict String String} (h : ¬ Readable row) (i : CsvInstruction) :
    ∃ msg, i.loadFromCsv row = .error (.valueError msg) := by
  have hloop : ∀ (cells : List (String × String)) (i : CsvInstruction),
      (¬ ∀ cell ∈ cells, ∃ assignments, readCell cell.1 cell.2 = .ok assignments) →
      ∃ msg, cells.foldlM CsvInstruction.loadCell i = .error (.valueError msg) := by
    intro cells
    induction cells with
    | nil => simp
    | cons cell cells ih =>
      intro i hnot
      rw [List.foldlM_cons, CsvInstruction.loadCell]
      cases hread : readCell cell.1 cell.2 with
      | error e =>
        obtain ⟨msg, rfl⟩ := readCell_valueError hread
        exact ⟨msg, rfl⟩
      | ok assignments =>
        refine ih _ fun hall => hnot ?_
        exact List.forall_mem_cons.mpr ⟨⟨assignments, hread⟩, hall⟩
  exact hloop row.entries i h

theorem foldl_set_value (assignments : List Assignment) (i : CsvInstruction) (f : Field) :
    (assignments.foldl CsvInstruction.set i).value f =
      ((assignments.filterMap (Assignment.assigns f)).getLast?).getD (i.value f) := by
  induction assignments using List.reverseRecOn with
  | nil => rfl
  | append_singleton assignments a ih =>
    rw [List.foldl_append, List.foldl_cons, List.foldl_nil, List.filterMap_append]
    cases a with
    | addrIncrBy v => simpa [CsvInstruction.set, Assignment.assigns] using ih
    | field g v =>
      rcases eq_or_ne g f with rfl | hne
      · simp [CsvInstruction.set, Assignment.assigns]
      · simpa [CsvInstruction.set, Assignment.assigns, hne, Function.update_of_ne hne.symm] using ih

/-- The number of bytes is set by a row with its column only. -/
theorem assigns_bytes_iff {row : Py.Dict String String} (h : Readable row) :
    (assigned row).filterMap (Assignment.assigns .numberOfBytesPerTransaction) ≠ [] ↔
      "number_of_bytes_per_transaction" ∈ row.keys := by
  constructor
  · intro hne
    by_contra hkey
    refine hne (List.filterMap_eq_nil_iff.mpr fun a ha => ?_)
    obtain ⟨cell, hcell, hmem⟩ := List.mem_flatMap.mp ha
    obtain ⟨assignments, hread⟩ := h cell hcell
    rw [hread] at hmem
    refine readCell_keeps hread a hmem fun hname => hkey ?_
    exact List.mem_map.mpr ⟨cell, hcell, hname⟩
  · intro hkey hnil
    obtain ⟨⟨key, value⟩, hcell, hname⟩ := List.mem_map.mp hkey
    obtain rfl : key = "number_of_bytes_per_transaction" := hname
    obtain ⟨assignments, hread⟩ := h _ hcell
    obtain ⟨v, rfl⟩ := readCell_bytes hread
    have hmem : Assignment.field .numberOfBytesPerTransaction v ∈ assigned row :=
      List.mem_flatMap.mpr ⟨_, hcell, by rw [hread]; exact List.mem_singleton_self _⟩
    have hnone := List.filterMap_eq_nil_iff.mp hnil _ hmem
    simp [Assignment.assigns] at hnone

/-! ### Values that fit -/

namespace CsvInstruction

/-- Every field is a number within its width. -/
def Fits (i : CsvInstruction) : Prop := ∀ e ∈ instructionPacking, (i.value e.1).Fits e.2.2.1

instance (i : CsvInstruction) : Decidable i.Fits :=
  inferInstanceAs (Decidable (∀ e ∈ instructionPacking, (i.value e.1).Fits e.2.2.1))

theorem set_fits {i : CsvInstruction} (hi : i.Fits) {a : Assignment} (ha : a.Fits) :
    (i.set a).Fits := by
  intro e he
  cases a with
  | addrIncrBy v => exact hi e he
  | field f v =>
    rcases eq_or_ne e.1 f with rfl | hne
    · simpa [set] using ha e he rfl
    · simpa [set, Function.update_of_ne hne] using hi e he

theorem foldl_set_fits {assignments : List Assignment} (h : ∀ a ∈ assignments, a.Fits)
    {i : CsvInstruction} (hi : i.Fits) : (assignments.foldl set i).Fits := by
  induction assignments generalizing i with
  | nil => exact hi
  | cons a assignments ih =>
    obtain ⟨ha, hrest⟩ := List.forall_mem_cons.mp h
    exact ih hrest (set_fits hi ha)

variable {i : CsvInstruction} (hi : i.Fits)

include hi

/-- A field that fits is a number. -/
theorem Fits.value_eq {e : PATGInstruction.Entry} (he : e ∈ instructionPacking) :
    i.value e.1 = .int (i.toInstruction.value e.1) := by
  have hfit := hi e he
  rw [toInstruction]
  cases hv : i.value e.1 with
  | int n => simp [hv]
  | text s =>
    rw [hv] at hfit
    exact hfit.elim

theorem Fits.toInstruction : i.toInstruction.Fits := by
  intro e he
  have hfit := hi e he
  rw [Fits.value_eq hi he] at hfit
  exact hfit

theorem Fits.validate : i.validate = .ok () := by
  rw [CsvInstruction.validate, Py.forM_eq_ok_iff]
  intro e he
  have hin := Fits.toInstruction hi e he
  dsimp only
  rw [Fits.value_eq hi he]
  exact if_pos hin

theorem Fits.construct : i.construct = .ok i.toInstruction.initializeFields := by
  rw [CsvInstruction.construct, Fits.validate hi, Py.ok_bind]

theorem Fits.packStruct : i.packStruct = .ok i.toInstruction.packStruct := by
  refine Py.foldlM_eq_ok 0 fun word e he => ?_
  dsimp only
  rw [Fits.value_eq hi he]

omit hi

end CsvInstruction

namespace PATGInstruction

/-- Two instructions with one word have the same fields. -/
theorem packStruct_inj {i j : PATGInstruction} (hi : i.Fits) (hj : j.Fits) :
    i.packStruct = j.packStruct ↔ i.value = j.value := by
  constructor
  · intro h
    rw [← setFields_packStruct hi i, h, setFields_packStruct hj i]
  · intro h
    rw [packStruct, packStruct, h]

/-- The number of bytes that the constructor computes. -/
def byteCount (i : PATGInstruction) : ℤ :=
  if i.value .axiAddrOffset = 0b10 ∨ i.value .axiAddrOffset = 0b11 then 0
  else match i.addrIncrBy with
    | none =>
      if i.value .axiBurst = 0 ∧ i.value .axiLock = 0 then 2 ^ (i.value .axiSize).toNat
      else 2 ^ (i.value .axiSize).toNat * (i.value .axiLen + 1)
    | some _ => i.value .loopAddrIncrBy

theorem initializeFields_of_zero {i : PATGInstruction}
    (hzero : i.value .numberOfBytesPerTransaction = 0) (h : i.Transfers) :
    i.initializeFields.value =
      Function.update i.value .numberOfBytesPerTransaction i.byteCount := by
  rw [initializeFields, if_pos ⟨hzero, h⟩]
  rfl

theorem initializeFields_of_ne {i : PATGInstruction}
    (h : ¬ (i.value .numberOfBytesPerTransaction = 0 ∧ i.Transfers)) : i.initializeFields = i :=
  if_neg h

section Count

variable {i : PATGInstruction} (hi : i.Fits)

include hi

theorem Fits.bounds {field : Field} {name : String} {width shift : ℕ}
    (h : (field, name, width, shift) ∈ instructionPacking) :
    0 ≤ i.value field ∧ i.value field < 2 ^ width := hi _ h

theorem byteCount_eq_zero_iff : i.byteCount = 0 ↔
    i.Random ∨ (i.addrIncrBy ≠ none ∧ i.value .loopAddrIncrBy = 0) := by
  have hlen := (Fits.bounds hi (by decide : (.axiLen, "axi_len", 8, 26) ∈ instructionPacking)).1
  have hpow : (2 : ℤ) ^ (i.value .axiSize).toNat ≠ 0 := by positivity
  rw [byteCount, Random]
  by_cases hrandom : i.value .axiAddrOffset = 0b10 ∨ i.value .axiAddrOffset = 0b11
  · rw [if_pos hrandom]
    simp [hrandom]
  · rw [if_neg hrandom]
    cases hincr : i.addrIncrBy with
    | some n => simp [hrandom]
    | none =>
      have hproduct : 2 ^ (i.value .axiSize).toNat * (i.value .axiLen + 1) ≠ 0 :=
        mul_ne_zero hpow (by omega)
      dsimp only
      by_cases hsingle : i.value .axiBurst = 0 ∧ i.value .axiLock = 0
      · rw [if_pos hsingle]
        simp [hrandom]
      · rw [if_neg hsingle]
        simpa [hrandom] using hproduct

theorem byteCount_eq_one_iff : i.byteCount = 1 ↔ ¬ i.Random ∧
    ((i.addrIncrBy = none ∧ i.value .axiSize = 0 ∧
        ((i.value .axiBurst = 0 ∧ i.value .axiLock = 0) ∨ i.value .axiLen = 0)) ∨
      (i.addrIncrBy ≠ none ∧ i.value .loopAddrIncrBy = 1)) := by
  have hlen := (Fits.bounds hi (by decide : (.axiLen, "axi_len", 8, 26) ∈ instructionPacking)).1
  have hsize := (Fits.bounds hi (by decide : (.axiSize, "axi_size", 3, 23) ∈ instructionPacking)).1
  have hone : (2 : ℤ) ^ (i.value .axiSize).toNat = 1 ↔ i.value .axiSize = 0 := by
    constructor
    · intro hpow
      by_contra hne
      have hlt := one_lt_pow₀ (by decide : (1 : ℤ) < 2) (by omega : (i.value .axiSize).toNat ≠ 0)
      omega
    · intro hzero
      simp [hzero]
  rw [byteCount, Random]
  by_cases hrandom : i.value .axiAddrOffset = 0b10 ∨ i.value .axiAddrOffset = 0b11
  · rw [if_pos hrandom]
    simp [hrandom]
  · rw [if_neg hrandom]
    cases hincr : i.addrIncrBy with
    | some n => simp [hrandom]
    | none =>
      dsimp only
      by_cases hsingle : i.value .axiBurst = 0 ∧ i.value .axiLock = 0
      · rw [if_pos hsingle, hone]
        simp [hrandom, hsingle]
      · have hproduct : 2 ^ (i.value .axiSize).toNat * (i.value .axiLen + 1) = 1 ↔
            i.value .axiSize = 0 ∧ i.value .axiLen = 0 := by
          rw [← hone]
          constructor
          · intro hmul
            have hpos : (1 : ℤ) ≤ 2 ^ (i.value .axiSize).toNat := one_le_pow₀ (by decide)
            have hle := le_mul_of_one_le_right (zero_le_one.trans hpos)
              (by omega : 1 ≤ i.value .axiLen + 1)
            have hpow : (2 : ℤ) ^ (i.value .axiSize).toNat = 1 := by omega
            rw [hpow, one_mul] at hmul
            exact ⟨hpow, by omega⟩
          · rintro ⟨hpow, hzero⟩
            rw [hpow, hzero]
            decide
        rw [if_neg hsingle, hproduct]
        simp [hrandom, hsingle]

/-- Sixteen bits are enough for the computed number. -/
theorem byteCount_bounds : 0 ≤ i.byteCount ∧ i.byteCount < 2 ^ 48 := by
  have hlen := Fits.bounds hi (by decide : (.axiLen, "axi_len", 8, 26) ∈ instructionPacking)
  have hsize := Fits.bounds hi (by decide : (.axiSize, "axi_size", 3, 23) ∈ instructionPacking)
  have hincr := Fits.bounds hi
    (by decide : (.loopAddrIncrBy, "loop_addr_incr_by", 16, 363) ∈ instructionPacking)
  have hpos : (1 : ℤ) ≤ 2 ^ (i.value .axiSize).toNat := one_le_pow₀ (by decide)
  have hpow : (2 : ℤ) ^ (i.value .axiSize).toNat ≤ 2 ^ 7 :=
    pow_le_pow_right₀ (by decide) (by omega)
  rw [byteCount]
  split_ifs with hrandom
  · exact ⟨le_refl 0, by positivity⟩
  all_goals
    split
    · first
      | exact ⟨by omega, by omega⟩
      | exact ⟨by nlinarith, by nlinarith⟩
    · exact ⟨hincr.1, by omega⟩

theorem initializeFields_fits : i.initializeFields.Fits := by
  by_cases hcount : i.value .numberOfBytesPerTransaction = 0 ∧ i.Transfers
  · intro e he
    rw [initializeFields_of_zero hcount.1 hcount.2]
    rcases eq_or_ne e.1 .numberOfBytesPerTransaction with hbytes | hne
    · have hentry : (.numberOfBytesPerTransaction, "number_of_bytes_per_transaction", 48, 53) ∈
          instructionPacking := by decide
      obtain rfl := entry_unique he hentry hbytes
      rw [Function.update_self]
      exact byteCount_bounds hi
    · rw [Function.update_of_ne hne]
      exact hi e he
  · rw [initializeFields_of_ne hcount]
    exact hi

end Count

theorem new_defaults : new defaults = .ok defaults.initializeFields := by
  have hfits : defaults.Fits := by
    unfold Fits
    decide
  rw [new, (validate_eq_ok_iff _).mpr hfits, Py.ok_bind]

/-- The constructor makes one byte of its default arguments. -/
theorem initializeFields_defaults : defaults.initializeFields.value =
    Function.update defaults.value .numberOfBytesPerTransaction 1 :=
  initializeFields_of_zero rfl (.inr rfl)

end PATGInstruction

/-! ### Rows that fit -/

/-- The instruction that is loaded. -/
def loaded (row : Py.Dict String String) : CsvInstruction :=
  (assigned row).foldl CsvInstruction.set
    (CsvInstruction.ofInstruction PATGInstruction.defaults.initializeFields)

/-- The arguments of the constructor. -/
def named (row : Py.Dict String String) : CsvInstruction :=
  (assigned row).foldl CsvInstruction.set (CsvInstruction.ofInstruction PATGInstruction.defaults)

section Row

variable {row : Py.Dict String String}

theorem fromRow_ok (h : Readable row) : fromRow row = .ok (loaded row) := by
  rw [fromRow, PATGInstruction.new_defaults, Py.ok_bind, loadFromCsv_ok h]
  rfl

theorem fromRow_error (h : ¬ Readable row) : ∃ msg, fromRow row = .error (.valueError msg) := by
  rw [fromRow, PATGInstruction.new_defaults, Py.ok_bind]
  exact loadFromCsv_error h _

theorem arguments_ok (h : Readable row) : arguments row = .ok (named row) := loadFromCsv_ok h _

theorem readable_of_fits (h : ∀ cell ∈ row.entries, CellFits cell) : Readable row :=
  fun cell hcell => (h cell hcell).imp fun _ hread => hread.1

theorem assigned_fits (h : ∀ cell ∈ row.entries, CellFits cell) : ∀ a ∈ assigned row, a.Fits := by
  intro a ha
  obtain ⟨cell, hcell, hmem⟩ := List.mem_flatMap.mp ha
  obtain ⟨assignments, hread, hfits⟩ := h cell hcell
  rw [hread] at hmem
  exact hfits a hmem

theorem loaded_fits (h : ∀ cell ∈ row.entries, CellFits cell) : (loaded row).Fits :=
  CsvInstruction.foldl_set_fits (assigned_fits h) (by decide)

theorem named_fits (h : ∀ cell ∈ row.entries, CellFits cell) : (named row).Fits :=
  CsvInstruction.foldl_set_fits (assigned_fits h) (by decide)

/-- Only the number of bytes comes from the constructor before the loading. -/
theorem loaded_value_of_ne {f : Field} (hne : f ≠ .numberOfBytesPerTransaction) :
    (loaded row).toInstruction.value f = (named row).toInstruction.value f := by
  have hstart : PATGInstruction.defaults.initializeFields.value f = PATGInstruction.defaults.value f := by
    rw [PATGInstruction.initializeFields_defaults, Function.update_of_ne hne]
  rw [CsvInstruction.toInstruction, CsvInstruction.toInstruction, loaded, named]
  dsimp only
  rw [foldl_set_value, foldl_set_value]
  dsimp only [CsvInstruction.ofInstruction]
  rw [hstart]

theorem loaded_bytes_of_mem (h : Readable row)
    (hkey : "number_of_bytes_per_transaction" ∈ row.keys) :
    (loaded row).toInstruction.value .numberOfBytesPerTransaction =
      (named row).toInstruction.value .numberOfBytesPerTransaction := by
  have hset := List.getLast?_isSome.mpr ((assigns_bytes_iff h).mpr hkey)
  obtain ⟨v, hv⟩ := Option.isSome_iff_exists.mp hset
  rw [CsvInstruction.toInstruction, CsvInstruction.toInstruction, loaded, named]
  dsimp only
  rw [foldl_set_value, foldl_set_value, hv]
  rfl

theorem loaded_bytes_of_notMem (h : Readable row)
    (hkey : "number_of_bytes_per_transaction" ∉ row.keys) :
    (loaded row).toInstruction.value .numberOfBytesPerTransaction = 1 ∧
      (named row).toInstruction.value .numberOfBytesPerTransaction = 0 := by
  have hnone := not_not.mp fun hne => hkey ((assigns_bytes_iff h).mp hne)
  rw [CsvInstruction.toInstruction, CsvInstruction.toInstruction, loaded, named]
  dsimp only
  rw [foldl_set_value, foldl_set_value, hnone]
  dsimp only [CsvInstruction.ofInstruction, List.getLast?_nil, Option.getD_none]
  rw [PATGInstruction.initializeFields_defaults, Function.update_self]
  exact ⟨rfl, rfl⟩

/-- The number of bytes decides. -/
theorem countAgrees_iff (hfit : ∀ cell ∈ row.entries, CellFits cell) :
    (loaded row).toInstruction.packStruct = (named row).toInstruction.initializeFields.packStruct ↔
      CountAgrees row (named row).toInstruction := by
  have hreadable := readable_of_fits hfit
  have hnamed := (named_fits hfit).toInstruction
  rw [PATGInstruction.packStruct_inj (loaded_fits hfit).toInstruction
    (PATGInstruction.initializeFields_fits hnamed)]
  let p := (named row).toInstruction
  let count := (loaded row).toInstruction.value .numberOfBytesPerTransaction
  have hvalue : (loaded row).toInstruction.value =
      Function.update p.value .numberOfBytesPerTransaction count := by
    refine (Function.eq_update_iff.mpr ⟨rfl, fun f hne => ?_⟩)
    exact loaded_value_of_ne hne
  have hcomputed (hzero : p.value .numberOfBytesPerTransaction = 0) (htransfers : p.Transfers) :
      (loaded row).toInstruction.value = p.initializeFields.value ↔ count = p.byteCount := by
    rw [hvalue, PATGInstruction.initializeFields_of_zero hzero htransfers]
    exact (Function.update_injective _ _).eq_iff
  have hkept (hother : ¬ (p.value .numberOfBytesPerTransaction = 0 ∧ p.Transfers)) :
      (loaded row).toInstruction.value = p.initializeFields.value ↔
        count = p.value .numberOfBytesPerTransaction := by
    rw [hvalue, PATGInstruction.initializeFields_of_ne hother]
    exact Function.update_eq_self_iff
  by_cases hkey : "number_of_bytes_per_transaction" ∈ row.keys
  · have hcount : count = p.value .numberOfBytesPerTransaction := loaded_bytes_of_mem hreadable hkey
    rw [CountAgrees, if_pos hkey]
    by_cases hother : p.value .numberOfBytesPerTransaction = 0 ∧ p.Transfers
    · rw [hcomputed hother.1 hother.2, hcount, hother.1, eq_comm,
        PATGInstruction.byteCount_eq_zero_iff hnamed]
      constructor
      · intro h _
        exact .inr h
      · intro h
        exact (h rfl).resolve_left (not_not.mpr hother.2)
    · refine iff_of_true ((hkept hother).mpr hcount) fun hzero => .inl fun htransfers => ?_
      exact hother ⟨hzero, htransfers⟩
  · obtain ⟨hone, hzero⟩ := loaded_bytes_of_notMem hreadable hkey
    have hcount : count = 1 := hone
    rw [CountAgrees, if_neg hkey]
    by_cases htransfers : p.Transfers
    · rw [hcomputed hzero htransfers, hcount, eq_comm, PATGInstruction.byteCount_eq_one_iff hnamed]
      exact ⟨fun h => ⟨htransfers, h⟩, fun h => h.2⟩
    · refine iff_of_false (fun h => ?_) fun h => htransfers h.1
      have hsame := (hkept fun hboth => htransfers hboth.2).mp h
      rw [hcount] at hsame
      exact absurd (hsame.trans hzero) (by decide)

/-- The word of a row that fits. -/
theorem agrees_of_fits_iff (hfit : ∀ cell ∈ row.entries, CellFits cell) :
    Agrees row ↔ CountAgrees row (named row).toInstruction := by
  have hreadable := readable_of_fits hfit
  rw [← countAgrees_iff hfit]
  constructor
  · intro h
    obtain ⟨i, args, j, word, hi, hargs, hj, hword, heq⟩ := h.1 hfit
    obtain rfl := Except.ok.inj ((fromRow_ok hreadable).symm.trans hi)
    obtain rfl := Except.ok.inj ((arguments_ok hreadable).symm.trans hargs)
    obtain rfl := Except.ok.inj ((named_fits hfit).construct.symm.trans hj)
    obtain rfl := Except.ok.inj ((loaded_fits hfit).packStruct.symm.trans hword)
    exact heq
  · intro h
    refine ⟨fun _ => ?_, fun ⟨cell, hcell, hnot⟩ => absurd (hfit cell hcell) hnot⟩
    exact ⟨_, _, _, _, fromRow_ok hreadable, arguments_ok hreadable, (named_fits hfit).construct,
      (loaded_fits hfit).packStruct, h⟩

end Row

/-- A row is loaded as the constructor would make it exactly if the loader itself refuses one of its
    cells, or its cells fit and the number of bytes is the one that the constructor computes. -/
theorem agrees_iff_loadable (row : Py.Dict String String)
    (hcolumns : ∀ key ∈ row.keys, IsColumn key) :
    Agrees row ↔ Loadable row := by
  have hcolumn : ∀ cell ∈ row.entries, IsColumn cell.1 := fun cell hcell =>
    hcolumns _ (List.mem_map.mpr ⟨cell, hcell, rfl⟩)
  by_cases hreadable : Readable row
  · have hsupported : ¬ ∃ cell ∈ row.entries, Unsupported cell.1 cell.2 := by
      rintro ⟨cell, hcell, hbad⟩
      obtain ⟨assignments, hread⟩ := hreadable cell hcell
      obtain ⟨e, he⟩ := (readCell_error_iff (hcolumn cell hcell) cell.2).mpr hbad
      rw [hread] at he
      cases he
    rw [Loadable, or_iff_right hsupported]
    by_cases hfit : ∀ cell ∈ row.entries, CellFits cell
    · rw [agrees_of_fits_iff hfit, and_iff_right hfit, arguments_ok hreadable]
      constructor
      · intro h
        exact ⟨_, rfl, h⟩
      · rintro ⟨args, hargs, h⟩
        obtain rfl := Except.ok.inj hargs
        exact h
    · refine iff_of_false (fun h => ?_) fun h => hfit h.1
      obtain ⟨msg, hmsg⟩ := h.2 (by simpa using hfit)
      rw [fromRow_ok hreadable] at hmsg
      cases hmsg
  · have hbad : ∃ cell ∈ row.entries, Unsupported cell.1 cell.2 ∧ ¬ CellFits cell := by
      simp only [Readable, not_forall] at hreadable
      obtain ⟨cell, hcell, hnot⟩ := hreadable
      cases hread : readCell cell.1 cell.2 with
      | ok assignments => exact absurd ⟨assignments, hread⟩ hnot
      | error e =>
        refine ⟨cell, hcell, (readCell_error_iff (hcolumn cell hcell) cell.2).mp ⟨e, hread⟩, ?_⟩
        rintro ⟨assignments, hok, -⟩
        exact hnot ⟨assignments, hok⟩
    obtain ⟨cell, hcell, hunsupported, hnot⟩ := hbad
    refine iff_of_true ⟨fun hfit => absurd (hfit cell hcell) hnot, fun _ => ?_⟩
      (.inl ⟨cell, hcell, hunsupported⟩)
    exact fromRow_error hreadable

/-- A row with a number of bytes. -/
def readRow : Py.Dict String String :=
  Py.Dict.empty.update [("cmd", "read"), ("number_of_bytes_per_transaction", "0x40")]

theorem agrees_iff_loadable_readRow : Agrees readRow ↔ Loadable readRow :=
  agrees_iff_loadable readRow (by decide)

/-- A write of four bytes. -/
def writeRow : Py.Dict String String := Py.Dict.empty.update [("cmd", "WRITE"), ("axi_size", "2")]

/-- The loader leaves the number of bytes of the default instruction. -/
theorem not_agrees_writeRow : ¬ Agrees writeRow := by
  have hfit : ∀ cell ∈ writeRow.entries, CellFits cell := by
    have hcmd : CellFits ("cmd", "WRITE") := ⟨_, rfl, by decide⟩
    have hsize : CellFits ("axi_size", "2") := ⟨_, rfl, by decide⟩
    intro cell hcell
    have hmem : cell = ("cmd", "WRITE") ∨ cell = ("axi_size", "2") := by
      simpa [writeRow, Py.Dict.update, Py.Dict.set, Py.Dict.empty, Py.store] using hcell
    rcases hmem with rfl | rfl
    · exact hcmd
    · exact hsize
  rw [agrees_of_fits_iff hfit, CountAgrees, if_neg (by decide)]
  rintro ⟨-, -, ⟨-, hsize, -⟩ | ⟨hincr, -⟩⟩
  · exact absurd hsize (by decide)
  · exact hincr rfl

end Chipscopy.Api.Patg
