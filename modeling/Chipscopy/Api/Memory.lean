import Chipscopy.Lib.Bytes
import Chipscopy.Lib.Float

/-! Memory writes and reads of any access size

    Values are split into bytes, padded to whole words and written from the word that holds the
    address. A read takes the bytes of as many words from there and joins them again. -/

namespace Chipscopy.Api.Memory

open Bits Records

def wordSize : ℕ := 4

/-- The `size` of an access. -/
inductive AccessSize
  | b | h | w | d
  deriving DecidableEq, Repr

def AccessSize.bytesPerWord : AccessSize → ℕ
  | .b => 1
  | .h => 2
  | .w => 4
  | .d => 8

/-- What the memory service holds. -/
abbrev ByteMemory := ℤ → UInt8

/-- `mem.get`. -/
def get (m : ByteMemory) (address : ℤ) (size : ℕ) : List UInt8 :=
  (List.range size).map fun i : ℕ => m (address + i)

/-- `mem.set`. -/
def set (m : ByteMemory) (address : ℤ) (bytes : List UInt8) : ByteMemory := fun a =>
  if address ≤ a then bytes.getD (a - address).toNat (m a) else m a

/-- Pieces of four, `l[i : i + 4] for i in range(0, len(l), 4)`. -/
def chunks {α : Type} (l : List α) : List (List α) :=
  (addresses 0 l.length wordSize).map fun i => Py.segment l i (i + wordSize)

/-- A number in the format `B`. -/
def packByte (n : ℤ) : Except Py.Error UInt8 :=
  if 0 ≤ n ∧ n < 256 then .ok (UInt8.ofNat n.toNat) else .error .structError

/-- `struct.pack("<BBBB", *chunk)`. -/
def packBytes (chunk : List ℤ) : Except Py.Error (List UInt8) :=
  if chunk.length = 4 then Py.mapExcept packByte chunk else .error .structError

/-- `struct.Struct("<I").pack(word)`. -/
def packWord (word : ℕ) : Except Py.Error (List UInt8) :=
  if word < 2 ^ 32 then .ok (littleEndian 4 word) else .error .structError

/-- `struct.Struct("<I").unpack(chunk)[0]`. -/
def unpackWord (chunk : List UInt8) : Except Py.Error ℕ :=
  if chunk.length = 4 then .ok (fromBytes chunk) else .error .structError

def wordsFromBytes (buf : List UInt8) : Except Py.Error (List ℕ) :=
  Py.mapExcept unpackWord (chunks buf)

/-- `buf[start : start + WORD_SIZE] = s.pack(word)`, and `start` moves on. -/
def putWord (s : List UInt8 × ℕ) (word : ℕ) : Except Py.Error (List UInt8 × ℕ) := do
  let bytes ← packWord word
  .ok (Py.setSegment s.1 s.2 (s.2 + wordSize) bytes, s.2 + wordSize)

/-- `bytes_from_words`. The last word fills a buffer that is longer. -/
def bytesFromWords (words : List ℕ) (wordCount : ℕ := 0) : Except Py.Error (List UInt8) := do
  let wordCount := if wordCount = 0 then words.length else wordCount
  let count := min words.length wordCount
  let s ← (words.take count).foldlM putWord (List.replicate (wordCount * wordSize) 0, 0)
  let s ← (List.range (wordCount - count)).foldlM (fun s _ => do
    let last ← Py.index words (-1)
    putWord s last) s
  .ok s.1

/-- `int(address / WORD_SIZE) * WORD_SIZE`. -/
def wordAlign (address : ℤ) : Except Py.Error ℤ := do
  let quotient ← Py.trueDiv address wordSize
  .ok (Py.truncate quotient * wordSize)

def mrd (m : ByteMemory) (address : ℤ) (size : ℕ := 1) : Except Py.Error (List ℕ) := do
  let address ← wordAlign address
  wordsFromBytes (get m address (size * wordSize))

def mwr (m : ByteMemory) (address : ℤ) (words : List ℕ) (size : ℕ := 1) : Except Py.Error ByteMemory := do
  let size := max size words.length
  let buf ← bytesFromWords words size
  let address ← wordAlign address
  .ok (set m address (buf.take (size * wordSize)))

/-- `(val & (0xFF << (i * 8))) >> (i * 8)`. -/
def byteValue (val : ℤ) (i : ℕ) : ℤ := (val.land ((0xFF : ℤ) <<< (i * 8))) >>> (i * 8)

def memoryWrite (m : ByteMemory) (address : ℤ) (values : List ℤ) (size : AccessSize) :
    Except Py.Error ByteMemory := do
  let byteValueList := values.flatMap fun val => (List.range size.bytesPerWord).map (byteValue val)
  let requiredPaddingBytes := ((4 - (byteValueList.length : ℤ)) % 4).toNat
  let byteValueList := byteValueList ++ List.replicate requiredPaddingBytes 0
  let packedWordList ← Py.mapExcept packBytes (chunks byteValueList)
  let intWordList ← Py.mapExcept unpackWord packedWordList
  mwr m address intWordList

/-- Variables of the last loop of `memory_read`. -/
structure ReadState where
  result : List ℕ
  wordIndex : ℕ
  byteIndex : ℕ

/-- One round: `result[word_index] |= the_byte << shift_left_amount`. -/
def readByte (bytesPerWord : ℕ) (s : ReadState) (theByte : UInt8) : Except Py.Error ReadState := do
  let shiftLeftAmount := s.byteIndex % bytesPerWord * 8
  let word ← Py.index s.result s.wordIndex
  .ok {
    result := s.result.set s.wordIndex (word ||| theByte.toNat <<< shiftLeftAmount)
    wordIndex := if (s.byteIndex + 1) % bytesPerWord = 0 then s.wordIndex + 1 else s.wordIndex
    byteIndex := s.byteIndex + 1 }

def memoryRead (m : ByteMemory) (address : ℤ) (num : ℕ) (size : AccessSize) :
    Except Py.Error (List ℕ) := do
  let bytesToRead := num * size.bytesPerWord
  let wordsToRead := bytesToRead / 4
  let wordsToRead := if bytesToRead % 4 ≠ 0 then wordsToRead + 1 else wordsToRead
  let wordsRead ← mrd m address wordsToRead
  let bytes ← Py.mapExcept (fun word => toBytes word 4 .little) wordsRead
  if wordsRead = [] then .error (.typeError "'NoneType' object is not iterable")
  else
    let s ← (bytes.flatten.take bytesToRead).foldlM (readByte size.bytesPerWord)
      { result := List.replicate num 0, wordIndex := 0, byteIndex := 0 }
    .ok s.result

/-! ### Bytes and words -/

/-- The bytes of a value, least significant first. -/
def valueBytes (size : AccessSize) (value : ℤ) : List UInt8 :=
  littleEndian size.bytesPerWord (value % 2 ^ (8 * size.bytesPerWord)).toNat

/-- The bytes of all values. -/
def bytesOf (size : AccessSize) (values : List ℤ) : List UInt8 := values.flatMap (valueBytes size)

/-- Zeros up to a whole word. -/
def padding (bytes : List UInt8) : List UInt8 := List.replicate ((4 - bytes.length % 4) % 4) 0

theorem map_byteValue (size : AccessSize) (value : ℤ) :
    (List.range size.bytesPerWord).map (byteValue value) =
      (valueBytes size value).map fun b => (b.toNat : ℤ) := by
  rw [valueBytes, littleEndian_eq_map, List.map_map]
  exact List.map_congr_left fun i hi => land_byte value (List.mem_range.mp hi)

theorem rows_valueBytes (size : AccessSize) (values : List ℤ) :
    Rows size.bytesPerWord (values.map (valueBytes size)) := by
  intro row hrow
  obtain ⟨value, -, rfl⟩ := List.mem_map.mp hrow
  exact length_littleEndian _ _

theorem length_bytesOf (size : AccessSize) (values : List ℤ) :
    (bytesOf size values).length = values.length * size.bytesPerWord := by
  rw [bytesOf, List.flatMap_def]
  exact (rows_valueBytes size values).length_flatten.trans (by rw [List.length_map])

/-- Padded bytes are whole words. -/
theorem exists_rows (bytes : List UInt8) :
    ∃ rows, bytes ++ padding bytes = rows.flatten ∧ Rows 4 rows ∧
      rows.length = bytes.length / 4 + if bytes.length % 4 ≠ 0 then 1 else 0 := by
  let count := bytes.length / 4 + if bytes.length % 4 ≠ 0 then 1 else 0
  have hlen : (bytes ++ padding bytes).length = count * 4 := by
    change _ = (_ + _) * 4
    rw [List.length_append, padding, List.length_replicate]
    split_ifs <;> omega
  exact ⟨split 4 count (bytes ++ padding bytes), (flatten_split hlen).symm,
    rows_split hlen.ge, length_split _ _ _⟩

/-- Whole words are cut where they were joined. -/
theorem chunks_flatten {α : Type} {rows : List (List α)} (h : Rows 4 rows) :
    chunks rows.flatten = rows := by
  have hsplit := h.split_flatten
  rw [chunks, wordSize, addresses_eq (by decide) h.length_flatten]
  conv_rhs => rw [← hsplit, split]
  refine List.ext_getElem (by simp) fun i hi hi' => ?_
  simp [Nat.mul_comm]

theorem packBytes_map {row : List UInt8} (h : row.length = 4) :
    packBytes (row.map fun b => (b.toNat : ℤ)) = .ok row := by
  rw [packBytes, if_pos (by rw [List.length_map, h]), Py.mapExcept_map]
  have hbyte : ∀ b ∈ row, packByte (b.toNat : ℤ) = .ok (id b) := by
    intro b _
    have hb : b.toNat < 256 := b.toNat_lt
    rw [packByte, if_pos ⟨by omega, by omega⟩, Int.toNat_natCast, UInt8.ofNat_toNat]
    rfl
  rw [Py.mapExcept_eq_ok hbyte, List.map_id]

theorem unpackWord_row {row : List UInt8} (h : row.length = 4) :
    unpackWord row = .ok (fromBytes row) := if_pos h

theorem fromBytes_row_lt {row : List UInt8} (h : row.length = 4) : fromBytes row < 2 ^ 32 := by
  have hlt := fromBytes_lt row
  rwa [h] at hlt

theorem packWord_row {row : List UInt8} (h : row.length = 4) :
    packWord (fromBytes row) = .ok row := by
  have hrow := littleEndian_fromBytes row
  rw [h] at hrow
  rw [packWord, if_pos (fromBytes_row_lt h), hrow]

theorem toBytes_row {row : List UInt8} (h : row.length = 4) :
    toBytes (fromBytes row) 4 .little = .ok row := by
  have hrow := littleEndian_fromBytes row
  rw [h] at hrow
  rw [toBytes_little (fromBytes_row_lt h), hrow]

/-- Words are put one after the other. -/
theorem foldlM_putWord : ∀ {rows : List (List UInt8)} (done rest : List UInt8), Rows 4 rows →
    rows.length * 4 = rest.length →
    (rows.map fromBytes).foldlM putWord (done ++ rest, done.length) =
      .ok (done ++ rows.flatten, done.length + rows.length * 4)
  | [], done, rest, _, hlen => by
    rw [List.length_nil, Nat.zero_mul] at hlen
    rw [List.length_eq_zero_iff.mp hlen.symm]
    rfl
  | row :: rows, done, rest, h, hlen => by
    have hrow : row.length = 4 := h row List.mem_cons_self
    rw [List.length_cons, Nat.succ_mul] at hlen
    have hput : putWord (done ++ rest, done.length) (fromBytes row) =
        .ok ((done ++ row) ++ rest.drop 4, (done ++ row).length) := by
      rw [putWord, packWord_row hrow]
      simp [Py.setSegment, wordSize, hrow, Py.ok_bind, List.drop_append]
    have hrest := foldlM_putWord (done ++ row) (rest.drop 4) h.tail (by
      rw [List.length_drop]
      omega)
    rw [List.map_cons, List.foldlM_cons, hput, Py.ok_bind, hrest, List.append_assoc,
      List.flatten_cons, List.length_append, List.length_cons, hrow]
    congr 2
    omega

theorem bytesFromWords_rows {rows : List (List UInt8)} (h : Rows 4 rows) (hne : rows ≠ []) :
    bytesFromWords (rows.map fromBytes) rows.length = .ok rows.flatten := by
  have hpos : rows.length ≠ 0 := fun hzero => hne (List.length_eq_zero_iff.mp hzero)
  have hput := foldlM_putWord [] (List.replicate (rows.length * 4) 0) h (by
    rw [List.length_replicate])
  rw [List.nil_append, List.nil_append] at hput
  rw [bytesFromWords]
  simp only [if_neg hpos, List.length_map, Nat.min_self, Nat.sub_self]
  rw [List.take_of_length_le (by rw [List.length_map])]
  exact (congrArg (· >>= _) hput).trans rfl

/-- The words of a write are the padded bytes of the values. -/
theorem exists_words (size : AccessSize) (values : List ℤ) :
    ∃ rows, bytesOf size values ++ padding (bytesOf size values) = rows.flatten ∧ Rows 4 rows ∧
      rows.length = values.length * size.bytesPerWord / 4 +
        (if values.length * size.bytesPerWord % 4 ≠ 0 then 1 else 0) ∧
      ∀ m address, memoryWrite m address values size = mwr m address (rows.map fromBytes) := by
  obtain ⟨rows, hflat, hrows, hlen⟩ := exists_rows (bytesOf size values)
  rw [length_bytesOf] at hlen
  refine ⟨rows, hflat, hrows, hlen, fun m address => ?_⟩
  let cast (b : UInt8) : ℤ := b.toNat
  have hvalues : (values.flatMap fun val => (List.range size.bytesPerWord).map (byteValue val)) =
      (bytesOf size values).map cast := by
    rw [bytesOf, List.map_flatMap]
    exact List.flatMap_congr fun value _ => map_byteValue size value
  have hpad : List.replicate ((4 - (((bytesOf size values).map cast).length : ℤ)) % 4).toNat 0 =
      (padding (bytesOf size values)).map cast := by
    rw [padding, List.map_replicate, List.length_map]
    congr 1
    omega
  have hpacked : Py.mapExcept packBytes (chunks (rows.flatten.map cast)) = .ok rows := by
    have hrows' : Rows 4 (rows.map (List.map cast)) := by
      intro row hrow
      obtain ⟨r, hr, rfl⟩ := List.mem_map.mp hrow
      rw [List.length_map, hrows r hr]
    have hpack : ∀ row ∈ rows, packBytes (row.map cast) = .ok (id row) :=
      fun row hrow => packBytes_map (hrows row hrow)
    rw [List.map_flatten, chunks_flatten hrows', Py.mapExcept_map, Py.mapExcept_eq_ok hpack,
      List.map_id]
  have hunpacked : Py.mapExcept unpackWord rows = .ok (rows.map fromBytes) :=
    Py.mapExcept_eq_ok fun row hrow => unpackWord_row (hrows row hrow)
  rw [memoryWrite]
  simp only [hvalues, hpad]
  rw [← List.map_append, hflat, hpacked, Py.ok_bind, hunpacked, Py.ok_bind]

theorem wordCount_pos {values : List ℤ} (hne : values ≠ []) (size : AccessSize) :
    0 < values.length * size.bytesPerWord / 4 +
      if values.length * size.bytesPerWord % 4 ≠ 0 then 1 else 0 := by
  have hbytes : 0 < size.bytesPerWord := by cases size <;> decide
  have hprod := Nat.mul_pos (List.length_pos_iff.mpr hne) hbytes
  split_ifs <;> omega

/-- A write stores the padded bytes of the values from the aligned address on. -/
theorem memoryWrite_eq (m : ByteMemory) (address : ℤ) {values : List ℤ} (hne : values ≠ [])
    (size : AccessSize) :
    memoryWrite m address values size = (wordAlign address).map fun a =>
      set m a (bytesOf size values ++ padding (bytesOf size values)) := by
  obtain ⟨rows, hflat, hrows, hlen, hwrite⟩ := exists_words size values
  have hcount : 0 < rows.length := hlen ▸ wordCount_pos hne size
  have hsize : max 1 (rows.map fromBytes).length = rows.length := by
    rw [List.length_map]
    omega
  have htake : rows.flatten.take (rows.length * wordSize) = rows.flatten :=
    List.take_of_length_le hrows.length_flatten.le
  rw [hwrite, mwr]
  simp only [hsize]
  rw [bytesFromWords_rows hrows (List.length_pos_iff.mp hcount), Py.ok_bind, hflat, htake]
  cases wordAlign address with
  | error e => rfl
  | ok a => rfl

/-! ### Reading back -/

theorem length_get (m : ByteMemory) (address : ℤ) (size : ℕ) : (get m address size).length = size := by
  rw [get, List.length_map, List.length_range]

theorem get_set (m : ByteMemory) (address : ℤ) (bytes : List UInt8) :
    get (set m address bytes) address bytes.length = bytes := by
  refine List.ext_getElem (length_get _ _ _) fun i hi hi' => ?_
  simp [get, set, hi']

/-- One value is joined from its bytes. -/
theorem foldlM_readByte_row {k : ℕ} (hk : 0 < k) (result after : List ℕ) :
    ∀ (bytes before : List UInt8), before.length + bytes.length = k → bytes ≠ [] →
      bytes.foldlM (readByte k)
        { result := result ++ fromBytes before :: after
          wordIndex := result.length
          byteIndex := result.length * k + before.length } =
      .ok {
        result := result ++ fromBytes (before ++ bytes) :: after
        wordIndex := result.length + 1
        byteIndex := (result.length + 1) * k }
  | [], _, _, hne => absurd rfl hne
  | byte :: bytes, before, hlen, _ => by
    have hlt : before.length < k := by
      rw [List.length_cons] at hlen
      omega
    have hmod : (result.length * k + before.length) % k = before.length := by
      rw [Nat.mul_comm, Nat.mul_add_mod, Nat.mod_eq_of_lt hlt]
    have hindex : Py.index (result ++ fromBytes before :: after) (result.length : ℤ) =
        .ok (fromBytes before) := Py.index_natCast (by simp)
    have hround : readByte k
        { result := result ++ fromBytes before :: after
          wordIndex := result.length
          byteIndex := result.length * k + before.length } byte = .ok {
        result := result ++ fromBytes (before ++ [byte]) :: after
        wordIndex := if (result.length * k + before.length + 1) % k = 0 then result.length + 1
          else result.length
        byteIndex := result.length * k + before.length + 1 } := by
      rw [readByte]
      simp only [hmod, hindex, Py.ok_bind]
      rw [fromBytes_append_singleton, List.set_append_right _ _ (Nat.le_refl _), Nat.sub_self]
      rfl
    rw [List.foldlM_cons, hround, Py.ok_bind]
    cases bytes with
    | nil =>
      have hlast : before.length + 1 = k := hlen
      have hend : result.length * k + before.length + 1 = (result.length + 1) * k := by
        rw [Nat.succ_mul, Nat.add_assoc, hlast]
      rw [hend, if_pos (Nat.mul_mod_left _ _)]
      rfl
    | cons b bytes =>
      have hlen' : (before ++ [byte]).length = before.length + 1 := by
        rw [List.length_append, List.length_singleton]
      have hrest : (before ++ [byte]).length + (b :: bytes).length = k := by
        rw [hlen', ← hlen, List.length_cons (a := byte)]
        omega
      have hmore : (result.length * k + before.length + 1) % k ≠ 0 := by
        have hlt' : before.length + 1 < k := by
          rw [hlen', List.length_cons] at hrest
          omega
        rw [Nat.add_assoc, Nat.mul_comm, Nat.mul_add_mod, Nat.mod_eq_of_lt hlt']
        exact Nat.succ_ne_zero _
      have ih := foldlM_readByte_row hk result after (b :: bytes) (before ++ [byte]) hrest
        (List.cons_ne_nil _ _)
      rw [hlen', ← Nat.add_assoc, List.append_assoc, List.singleton_append] at ih
      rw [if_neg hmore]
      exact ih

/-- All values are joined from their bytes. -/
theorem foldlM_readByte {k : ℕ} (hk : 0 < k) : ∀ {rows : List (List UInt8)} (result : List ℕ),
    Rows k rows →
    rows.flatten.foldlM (readByte k)
      { result := result ++ List.replicate rows.length 0
        wordIndex := result.length
        byteIndex := result.length * k } =
    .ok {
      result := result ++ rows.map fromBytes
      wordIndex := result.length + rows.length
      byteIndex := (result.length + rows.length) * k }
  | [], _, _ => rfl
  | row :: rows, result, h => by
    have hlen : ([] : List UInt8).length + row.length = k := by
      rw [List.length_nil, Nat.zero_add, h row List.mem_cons_self]
    have hne : row ≠ [] := by
      rintro rfl
      exact absurd hlen hk.ne
    have hrow := foldlM_readByte_row hk result (List.replicate rows.length 0) row [] hlen hne
    have hrest := foldlM_readByte hk (result ++ [fromBytes row]) h.tail
    rw [List.append_assoc, List.append_assoc, List.length_append, List.length_singleton,
      Nat.add_assoc, Nat.add_comm 1] at hrest
    rw [List.flatten_cons, List.foldlM_append]
    exact (congrArg (· >>= _) hrow).trans hrest

/-- Bytes of the values that lie at the aligned address are read as the values. -/
theorem memoryRead_eq {m : ByteMemory} {address a : ℤ} (halign : wordAlign address = .ok a)
    (size : AccessSize) {values : List ℤ} (hne : values ≠ [])
    (hget : get m a (bytesOf size values ++ padding (bytesOf size values)).length =
      bytesOf size values ++ padding (bytesOf size values)) :
    memoryRead m address values.length size =
      .ok (values.map fun value => (value % 2 ^ (8 * size.bytesPerWord)).toNat) := by
  obtain ⟨rows, hflat, hrows, hlen, -⟩ := exists_words size values
  have hbytes : 0 < size.bytesPerWord := by cases size <;> decide
  have hrowsNe : rows.map fromBytes ≠ [] := by
    have hpos : 0 < rows.length := hlen ▸ wordCount_pos hne size
    exact fun hnil => List.length_pos_iff.mp hpos (List.map_eq_nil_iff.mp hnil)
  have hcount : (if values.length * size.bytesPerWord % 4 ≠ 0 then
      values.length * size.bytesPerWord / 4 + 1 else values.length * size.bytesPerWord / 4) =
      rows.length := by
    rw [hlen]
    split_ifs <;> rfl
  have hmrd : mrd m address rows.length = .ok (rows.map fromBytes) := by
    rw [hflat, hrows.length_flatten] at hget
    rw [mrd, halign, Py.ok_bind, wordSize, hget, wordsFromBytes, chunks_flatten hrows]
    exact Py.mapExcept_eq_ok fun row hrow => unpackWord_row (hrows row hrow)
  have hwords : Py.mapExcept (fun word => toBytes word 4 .little) (rows.map fromBytes) =
      .ok rows := by
    have hrow : ∀ row ∈ rows, toBytes (fromBytes row) 4 .little = .ok (id row) :=
      fun row hrow => toBytes_row (hrows row hrow)
    rw [Py.mapExcept_map, Py.mapExcept_eq_ok hrow, List.map_id]
  have htake : rows.flatten.take (values.length * size.bytesPerWord) =
      (values.map (valueBytes size)).flatten := by
    rw [← hflat, ← length_bytesOf, List.take_left, bytesOf, List.flatMap_def]
  have hloop := foldlM_readByte hbytes [] (rows_valueBytes size values)
  have hvalue : ∀ value : ℤ, fromBytes (valueBytes size value) =
      (value % 2 ^ (8 * size.bytesPerWord)).toNat := by
    intro value
    have hpow : 256 ^ size.bytesPerWord = 2 ^ (8 * size.bytesPerWord) := by
      rw [pow_mul]
      norm_num
    rw [valueBytes, fromBytes_littleEndian, hpow, Nat.mod_eq_of_lt (toNat_emod_lt _ _)]
  rw [memoryRead]
  simp only [hcount, hmrd, Py.ok_bind, hwords, if_neg hrowsNe, htake]
  rw [List.nil_append, List.length_map, List.length_nil, Nat.zero_mul] at hloop
  refine (congrArg (· >>= _) hloop).trans ?_
  change Except.ok ([] ++ _) = _
  rw [List.nil_append, List.map_map]
  exact congrArg _ (List.map_congr_left fun value _ => hvalue value)

theorem wordAlign_ok {address : ℤ} (h : |address| < 2 ^ 1026 - 2 ^ 972) :
    ∃ a, wordAlign address = .ok a := by
  obtain ⟨q, hq⟩ := Py.trueDiv_four_ok h
  exact ⟨_, by rw [wordAlign, wordSize, Nat.cast_ofNat, hq, Py.ok_bind]⟩

/-- Values that were written are read back. -/
theorem memoryRead_memoryWrite (m : ByteMemory) (address : ℤ)
    (haddress : |address| < 2 ^ 1026 - 2 ^ 972) (values : List ℤ) (hne : values ≠ [])
    (size : AccessSize) :
    ∃ m', memoryWrite m address values size = .ok m' ∧
      memoryRead m' address values.length size =
        .ok (values.map fun value => (value % 2 ^ (8 * size.bytesPerWord)).toNat) := by
  obtain ⟨a, ha⟩ := wordAlign_ok haddress
  refine ⟨_, by rw [memoryWrite_eq m address hne, ha]; rfl, ?_⟩
  exact memoryRead_eq ha size hne (get_set m a _)

theorem memoryRead_memoryWrite_halves :
    ∃ m', memoryWrite (fun _ => 0) 6 [-1, 70000, 3] .h = .ok m' ∧
      memoryRead m' 6 3 .h = .ok [65535, 4464, 3] :=
  memoryRead_memoryWrite _ 6 (by decide +kernel) [-1, 70000, 3] (by decide) .h

/-- No float is large enough for the quotient of some addresses. -/
theorem not_memoryRead_memoryWrite_huge :
    ¬ ∃ m', memoryWrite (fun _ => 0) (2 ^ 1026) [0] .w = .ok m' ∧
      memoryRead m' (2 ^ 1026) 1 .w = .ok [0] := by
  rintro ⟨m', hwrite, -⟩
  rw [memoryWrite_eq _ _ (by decide), wordAlign, wordSize, Nat.cast_ofNat,
    Py.trueDiv_four_overflow] at hwrite
  exact nomatch hwrite

/-! ### What a write changes -/

/-- The memory after a call, which does not write when it raises. -/
def after (m : ByteMemory) : Except Py.Error ByteMemory → ByteMemory
  | .ok m' => m'
  | .error _ => m

/-- Only the addressed bytes change, to those of the values, whatever the memory held. -/
def WritesOnly (address : ℕ) (values : List ℤ) (size : AccessSize) : Prop :=
  ∀ m, (∀ a : ℤ, a < address ∨ address + values.length * size.bytesPerWord ≤ a →
      after m (memoryWrite m address values size) a = m a) ∧
    get (after m (memoryWrite m address values size)) address
      (values.length * size.bytesPerWord) = bytesOf size values

/-- A word address below `2 ^ 53` is rounded down. -/
theorem wordAlign_natCast {address : ℕ} (h : address < 2 ^ 53) :
    wordAlign address = .ok ((address / 4 * 4 : ℕ) : ℤ) := by
  rw [wordAlign, wordSize, Nat.cast_ofNat, Py.trueDiv_four h, Py.ok_bind, Py.truncate_div_four]
  push_cast
  rfl

theorem after_memoryWrite {address : ℕ} (h : address < 2 ^ 53) {values : List ℤ}
    (hne : values ≠ []) (size : AccessSize) (m : ByteMemory) :
    after m (memoryWrite m address values size) =
      set m (address / 4 * 4 : ℕ) (bytesOf size values ++ padding (bytesOf size values)) := by
  rw [memoryWrite_eq m _ hne, wordAlign_natCast h]
  rfl

/-- There is no last word to fill the buffer with. -/
theorem memoryWrite_nil (m : ByteMemory) (address : ℤ) (size : AccessSize) :
    memoryWrite m address [] size = .error .indexError := by
  cases size
  all_goals rfl

theorem set_of_lt {m : ByteMemory} {address a : ℤ} {bytes : List UInt8} (h : a < address) :
    set m address bytes a = m a := if_neg (not_le.mpr h)

theorem set_of_le {m : ByteMemory} {address a : ℤ} {bytes : List UInt8}
    (h : address + bytes.length ≤ a) : set m address bytes a = m a := by
  rw [set, if_pos (by omega), List.getD_eq_default _ _ (by omega)]

theorem set_natCast {m : ByteMemory} {address : ℤ} {bytes : List UInt8} {i : ℕ} {b : UInt8}
    (h : bytes[i]? = some b) : set m address bytes (address + i) = b := by
  rw [set, if_pos (by omega), show (address + i - address).toNat = i by omega,
    List.getD_eq_getElem?_getD, h]
  rfl

/-- A stretch of what was written. -/
theorem get_set_segment (m : ByteMemory) (address : ℤ) {bytes : List UInt8} {i size : ℕ}
    (h : i + size ≤ bytes.length) :
    get (set m address bytes) (address + i) size = Py.segment bytes i (i + size) := by
  refine List.ext_getElem? fun j => ?_
  rw [Py.getElem?_segment, get, List.getElem?_map]
  rcases Nat.lt_or_ge j size with hj | hj
  · have hbyte : bytes[i + j]? = some bytes[i + j] := List.getElem?_eq_getElem (by omega)
    rw [List.getElem?_range hj, if_pos (by omega), hbyte, Option.map_some, add_assoc,
      ← Nat.cast_add, set_natCast hbyte]
  · rw [List.getElem?_eq_none (by rw [List.length_range]; exact hj), if_neg (by omega)]
    rfl

/-- A stretch beside it. -/
theorem get_set_of_disjoint (m : ByteMemory) {address a : ℤ} {bytes : List UInt8} {size : ℕ}
    (h : a + size ≤ address ∨ address + bytes.length ≤ a) :
    get (set m address bytes) a size = get m a size := by
  refine List.map_congr_left fun i hi => ?_
  have hlt := List.mem_range.mp hi
  rcases h with hbefore | hafter
  · exact set_of_lt (by omega)
  · exact set_of_le (by omega)

/-- Whole words at a word address. -/
theorem writesOnly_of_aligned {address : ℕ} (h : address < 2 ^ 53) {values : List ℤ}
    (hne : values ≠ []) {size : AccessSize} (haddress : address % 4 = 0)
    (hlength : values.length * size.bytesPerWord % 4 = 0) : WritesOnly address values size := by
  intro m
  have hsame : address / 4 * 4 = address := by omega
  have hpad : padding (bytesOf size values) = [] := by
    rw [padding, length_bytesOf, hlength]
    rfl
  rw [after_memoryWrite h hne, hsame, hpad, List.append_nil]
  refine ⟨fun a ha => ?_, ?_⟩
  · rcases ha with hbefore | hafter
    · exact set_of_lt hbefore
    · refine set_of_le ?_
      rw [length_bytesOf]
      push_cast
      exact hafter
  · rw [← length_bytesOf]
    exact get_set m address _

/-- Below the address when it is inside a word. -/
theorem not_writesOnly_of_address {address : ℕ} (h : address < 2 ^ 53) {values : List ℤ}
    (hne : values ≠ []) {size : AccessSize} (haddress : address % 4 ≠ 0) :
    ¬ WritesOnly address values size := by
  intro hwrites
  obtain ⟨b, hb⟩ : ∃ b, (bytesOf size values ++ padding (bytesOf size values))[0]? = some b := by
    have hpos : 0 < (bytesOf size values).length := by
      rw [length_bytesOf]
      exact Nat.mul_pos (List.length_pos_iff.mpr hne) (by cases size <;> decide)
    exact ⟨_, List.getElem?_eq_getElem (by rw [List.length_append]; omega)⟩
  have hout := (hwrites fun _ => b + 1).1 (address / 4 * 4 : ℕ) (.inl (by omega))
  rw [after_memoryWrite h hne] at hout
  have hin := @set_natCast (fun _ => b + 1) (address / 4 * 4 : ℕ) _ _ _ hb
  rw [Nat.cast_zero, add_zero, hout] at hin
  have hval := congrArg UInt8.toNat hin
  have hlt : b.toNat < 256 := b.toNat_lt
  rw [UInt8.toNat_add] at hval
  change (b.toNat + 1) % 256 = b.toNat at hval
  omega

/-- Above the last value when it ends inside a word. -/
theorem not_writesOnly_of_length {address : ℕ} (h : address < 2 ^ 53) {values : List ℤ}
    {size : AccessSize} (haddress : address % 4 = 0)
    (hlength : values.length * size.bytesPerWord % 4 ≠ 0) : ¬ WritesOnly address values size := by
  intro hwrites
  have hne : values ≠ [] := by
    rintro rfl
    exact hlength (by rw [List.length_nil, Nat.zero_mul])
  have hsame : address / 4 * 4 = address := by omega
  have hzero : (bytesOf size values ++ padding (bytesOf size values))[
      values.length * size.bytesPerWord]? = some 0 := by
    rw [← length_bytesOf, List.getElem?_append_right (Nat.le_refl _), Nat.sub_self, padding,
      List.getElem?_replicate, length_bytesOf, if_pos (by omega)]
  have hout := (hwrites fun _ => 1).1 (address + (values.length * size.bytesPerWord : ℕ))
    (.inr (by push_cast; exact le_rfl))
  rw [after_memoryWrite h hne, hsame, set_natCast hzero] at hout
  exact absurd hout (by decide)

theorem writesOnly_nil (address : ℕ) (size : AccessSize) : WritesOnly address [] size := by
  intro m
  rw [memoryWrite_nil]
  refine ⟨fun _ _ => rfl, ?_⟩
  rw [List.length_nil, Nat.zero_mul]
  rfl

/-- Only nothing at all, and whole words at a word address. -/
theorem writesOnly_iff (address : ℕ) (h : address < 2 ^ 53) (values : List ℤ)
    (size : AccessSize) :
    WritesOnly address values size ↔
      values = [] ∨ address % 4 = 0 ∧ values.length * size.bytesPerWord % 4 = 0 := by
  constructor
  · intro hwrites
    by_contra hcond
    rw [not_or, not_and_or] at hcond
    obtain ⟨hne, haddress | hlength⟩ := hcond
    · exact not_writesOnly_of_address h hne haddress hwrites
    · by_cases haddress : address % 4 = 0
      · exact not_writesOnly_of_length h haddress hlength hwrites
      · exact not_writesOnly_of_address h hne haddress hwrites
  · rintro (rfl | ⟨haddress, hlength⟩)
    · exact writesOnly_nil address size
    · rcases eq_or_ne values [] with rfl | hne
      · exact writesOnly_nil address size
      · exact writesOnly_of_aligned h hne haddress hlength

theorem writesOnly_iff_doubleWord :
    WritesOnly 16 [-1] .d ↔ [-1] = ([] : List ℤ) ∨ 16 % 4 = 0 ∧ 1 * 8 % 4 = 0 :=
  writesOnly_iff 16 (by decide) [-1] .d

/-- One byte at address zero clears the three above it. -/
theorem not_writesOnly_byte : ¬ WritesOnly 0 [1] .b :=
  not_writesOnly_of_length (by decide) (by decide) (by decide)

end Chipscopy.Api.Memory
