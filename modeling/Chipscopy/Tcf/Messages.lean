import Chipscopy.Tcf.Stream

/-! Messages of a TCF channel

    The transmitter writes messages one after the other, and the reader thread takes them from the
    stream. Whatever has arrived, the messages that were read are the first ones that were written,
    and the stream is closed only where the transmitter closed it. -/

namespace Chipscopy.Tcf

open Arrivals

/-! ### Messages -/

structure Message where
  type : Char
  token : Option String := none
  service : Option String := none
  name : Option String := none
  data : Option (List UInt8) := none
  deriving DecidableEq, Repr

def utf8 (s : String) : List UInt8 := s.toUTF8.data.toList

/-- A text and its end. A text that is empty is left out with its end. -/
def writeText (zeroCopy : Bool) (text : Option String) : List UInt8 :=
  match text with
  | none => []
  | some s => if s = "" then [] else write zeroCopy (utf8 s) ++ writeByte (.byte 0)

/-- One round of `__write_output`. Blocks may become usable at any time, so each call of `write`
    has its own answer of `isZeroCopySupported`. -/
def writeMessage (zeroCopy : ℕ → Bool) (msg : Message) : List UInt8 :=
  write (zeroCopy 0) (utf8 (String.singleton msg.type)) ++ writeByte (.byte 0) ++
    (match msg.token with
      | none => []
      | some id => write (zeroCopy 1) (utf8 id) ++ writeByte (.byte 0)) ++
    writeText (zeroCopy 2) msg.service ++ writeText (zeroCopy 3) msg.name ++
    write (zeroCopy 4) (msg.data.getD []) ++ writeByte .eom

/-- What the transmitter writes in the end. -/
def writeEnd : List UInt8 := writeByte .eos ++ writeByte .eom

/-! ### The reader thread -/

/-- `n > 0` -/
def Datum.isPositive : Datum → Bool
  | .byte b => b ≠ 0
  | _ => false

def readBytesRound (stop : Datum) (buf : List UInt8) : Reader (List UInt8 ⊕ List UInt8) := do
  let n ← read
  if n.isPositive = false ∧ n = stop then pure (.inr buf)
  else
    match n with
    | .eom => raise (.ioError "Unexpected end of message")
    | .eos => raise (.ioError "Communication channel is closed by remote peer")
    | .byte b => pure (.inl (buf ++ [b]))

def readBytes (stop : Datum) : Reader (List UInt8) := loop (readBytesRound stop) []

def decodeUtf8 (bytes : List UInt8) : Reader String :=
  match String.fromUTF8? ⟨bytes.toArray⟩ with
  | some s => pure s
  | none => raise .unicode

def readString : Reader String := readBytes (.byte 0) >>= decodeUtf8

def error {α : Type} : Reader α := raise (.ioError "Protocol syntax error")

/-- A message behind its type. -/
def readFields (type : Char) : Reader Message :=
  if type = 'C' then do
    let token ← readString
    let service ← readString
    let name ← readString
    let data ← readBytes .eom
    pure { type, token, service, name, data }
  else if type = 'P' ∨ type = 'R' ∨ type = 'N' then do
    let token ← readString
    let data ← readBytes .eom
    pure { type, token, data }
  else if type = 'E' then do
    let service ← readString
    let name ← readString
    let data ← readBytes .eom
    pure { type, service, name, data }
  else if type = 'F' then do
    let data ← readBytes .eom
    pure { type, data }
  else error

/-- The report at the end of a stream, unless it cannot be read or says nothing. -/
def readReport : Reader (Option (List UInt8)) := do
  match ← attempt (readBytes .eom) with
  | none => pure none
  | some report => pure (if report = [] ∨ report = [0] then none else some report)

def readMessageRound (_ : Unit) : Reader (Unit ⊕ (Message ⊕ Option (List UInt8))) := do
  match ← read with
  | .eom => pure (.inl ())
  | .eos => do
    let report ← readReport
    pure (.inr (.inr report))
  | .byte n => do
    match ← read with
    | .byte b =>
      if b = 0 then do
        let msg ← readFields (Char.ofNat n.toNat)
        pure (.inr (.inl msg))
      else error
    | _ => error

/-- The next message, or the report at the end. -/
def readMessage : Reader (Message ⊕ Option (List UInt8)) := loop readMessageRound ()

/-- What the thread hands to the channel, and how it ends. -/
def run (s : Input ℕ UInt8) :
    List Message × Except (Stop ReadError) (Option (List UInt8)) := items readMessage s

theorem advances_readBytesRound (stop : Datum) (buf : List UInt8) :
    Advances (readBytesRound stop buf) := by
  refine advances_read.bind fun n => ?_
  split_ifs
  · exact Steady.pure _
  · cases n
    · exact Steady.pure _
    · exact (Advances.raise _).steady
    · exact (Advances.raise _).steady

theorem advances_readBytes (stop : Datum) : Advances (readBytes stop) :=
  Advances.loop (advances_readBytesRound stop) []

theorem advances_readString : Advances readString := by
  refine (advances_readBytes _).bind fun bytes => ?_
  rw [decodeUtf8]
  cases String.fromUTF8? ⟨bytes.toArray⟩
  · exact (Advances.raise _).steady
  · exact Steady.pure _

theorem steady_readFields (type : Char) : Steady (readFields type) := by
  have hstring := advances_readString.steady
  have hdata := (advances_readBytes .eom).steady
  rw [readFields]
  split_ifs
  · exact hstring.bind fun _ => hstring.bind fun _ => hstring.bind fun _ =>
      hdata.bind fun _ => Steady.pure _
  · exact hstring.bind fun _ => hdata.bind fun _ => Steady.pure _
  · exact hstring.bind fun _ => hstring.bind fun _ => hdata.bind fun _ => Steady.pure _
  · exact hdata.bind fun _ => Steady.pure _
  · exact (Advances.raise _).steady

theorem steady_readReport : Steady readReport := by
  refine (advances_readBytes .eom).steady.attempt.bind fun report => ?_
  cases report <;> exact Steady.pure _

theorem advances_readMessageRound (u : Unit) : Advances (readMessageRound u) := by
  refine advances_read.bind fun n => ?_
  cases n with
  | eom => exact Steady.pure _
  | eos => exact steady_readReport.bind fun _ => Steady.pure _
  | byte n =>
    refine advances_read.steady.bind fun b => ?_
    cases b with
    | eom => exact (Advances.raise _).steady
    | eos => exact (Advances.raise _).steady
    | byte b =>
      dsimp only
      split_ifs
      · exact (steady_readFields _).bind fun _ => Steady.pure _
      · exact (Advances.raise _).steady

theorem advances_readMessage : Advances readMessage :=
  Advances.loop advances_readMessageRound ()

/-! ### Bytes and texts -/

/-- Marks that may end a sequence of bytes, and bytes that do not. -/
def Ends (stop : Datum) (buf : List UInt8) : Prop :=
  stop = .eom ∨ stop = .byte 0 ∧ (0 : UInt8) ∉ buf

theorem Ends.tail {stop : Datum} {b : UInt8} {buf : List UInt8} (h : Ends stop (b :: buf)) :
    Ends stop buf := h.imp_right (And.imp_right (mt (List.mem_cons_of_mem b)))

variable {stop : Datum} {acc buf : List UInt8}

theorem reads_inl (acc : List UInt8) {k k' : ℕ} {frame : List UInt8} {b : UInt8}
    (h : Ends stop (b :: buf)) (hread : Reads read k frame (.byte b) k') :
    Reads (readBytesRound stop acc) k frame (.inl (acc ++ [b])) k' := by
  have hgo : ¬ ((Datum.byte b).isPositive = false ∧ .byte b = stop) := by
    rintro ⟨hzero, rfl⟩
    rcases h with h | ⟨hb, hnot⟩
    · cases h
    · obtain rfl := Datum.byte.inj hb
      exact hnot (List.mem_cons_self ..)
  rw [← List.append_nil frame]
  refine hread.bind ?_
  rw [if_neg hgo]
  exact Reads.pure

theorem reads_inr (h : Ends stop buf) :
    Reads (readBytesRound stop acc) 0 (writeByte stop) (.inr acc) 0 := by
  have hend : stop.isPositive = false := by
    rcases h with rfl | ⟨rfl, -⟩ <;> rfl
  rw [← List.append_nil (writeByte stop)]
  refine (reads_writeByte stop).bind ?_
  rw [if_pos ⟨hend, rfl⟩]
  exact Reads.pure

/-- Bytes that are escaped one by one. -/
theorem reads_plainBytes (h : Ends stop buf) :
    Reads (loop (readBytesRound stop) acc) 0
      (buf.flatMap (fun n => n :: if n = ESC then [0] else []) ++ writeByte stop) (acc ++ buf)
      0 := by
  induction buf generalizing acc with
  | nil =>
    rw [List.append_nil]
    exact Reads.loop_inr (advances_readBytesRound stop) (reads_inr h)
  | cons b buf ih =>
    have hbyte : (b :: if b = ESC then [0] else []) = writeByte (.byte b) := by
      rw [writeByte]
      split_ifs with hb
      · rw [hb]
      · rfl
    rw [List.flatMap_cons, hbyte, List.append_assoc, List.append_cons acc b buf]
    exact Reads.loop_inl (advances_readBytesRound stop) (reads_inl acc h (reads_writeByte _))
      (ih h.tail)

/-- The bytes of a block. -/
theorem reads_blockBytes (h : Ends stop buf) (acc : List UInt8) :
    Reads (loop (readBytesRound stop) acc) buf.length (buf ++ writeByte stop) (acc ++ buf) 0 := by
  induction buf generalizing acc with
  | nil =>
    rw [List.append_nil]
    exact Reads.loop_inr (advances_readBytesRound stop) (reads_inr h)
  | cons b buf ih =>
    have hfirst := reads_inl acc h (reads_inBlock (k := buf.length) b)
    have hall := Reads.loop_inl (advances_readBytesRound stop) hfirst (ih h.tail _)
    rw [List.append_cons acc b buf]
    exact hall

/-- The longest block that the reader takes as one. -/
def blockLimit : ℕ := 2 ^ (7 * sizeRounds)

theorem lt_blockLimit {n : ℕ} (h : n < 2 ^ 7) : n < blockLimit :=
  h.trans_le (Nat.pow_le_pow_right Nat.two_pos (Nat.le_mul_of_pos_right 7 (Nat.succ_pos _)))

theorem reads_bytes (zeroCopy : Bool) (acc : List UInt8) (h : Ends stop buf)
    (hlimit : buf.length < blockLimit) :
    Reads (loop (readBytesRound stop) acc) 0 (write zeroCopy buf ++ writeByte stop)
      (acc ++ buf) 0 := by
  rw [write]
  split_ifs with hblock
  · obtain ⟨b, tail, rfl⟩ := List.exists_cons_of_length_pos (Nat.zero_lt_of_lt hblock.1)
    have hfirst := reads_inl acc h (reads_block hlimit b)
    have hall := Reads.loop_inl (advances_readBytesRound stop) hfirst
      (reads_blockBytes h.tail (acc ++ [b]))
    simpa using hall
  · exact reads_plainBytes h

/-- A text whose end can be found. -/
def IsText (s : String) : Prop := (0 : UInt8) ∉ utf8 s ∧ (utf8 s).length < blockLimit

/-- A text that is not left out. -/
def IsName (text : Option String) : Prop := ∃ s, text = some s ∧ s ≠ "" ∧ IsText s

theorem decodeUtf8_utf8 (s : String) : decodeUtf8 (utf8 s) = pure s := by
  have hbytes : (⟨(utf8 s).toArray⟩ : ByteArray) = s.toByteArray := rfl
  rw [decodeUtf8, hbytes, String.fromUTF8?, dif_pos s.isValidUTF8]
  rfl

theorem reads_text (zeroCopy : Bool) {text : String} (h : IsText text) :
    Reads readString 0 (write zeroCopy (utf8 text) ++ writeByte (.byte 0)) text 0 := by
  have hbytes := reads_bytes zeroCopy [] (.inr ⟨rfl, h.1⟩) h.2
  rw [← List.append_nil (_ ++ writeByte (.byte 0))]
  refine hbytes.bind ?_
  rw [List.nil_append, decodeUtf8_utf8]
  exact Reads.pure

theorem reads_name (zeroCopy : Bool) {text : Option String} (h : IsName text) :
    ∃ s, text = some s ∧ Reads readString 0 (writeText zeroCopy text) s 0 := by
  obtain ⟨s, rfl, hne, hs⟩ := h
  refine ⟨s, rfl, ?_⟩
  rw [writeText, if_neg hne]
  exact reads_text zeroCopy hs

/-! ### Messages -/

/-- Messages as the channel sends them. -/
inductive Message.Sendable : Message → Prop
  | command {id : String} {service name : Option String} {data : Option (List UInt8)} :
    IsText id → IsName service → IsName name → (data.getD []).length < blockLimit →
      Sendable { type := 'C', token := id, service, name, data }
  | reply {type : Char} {id : String} {data : Option (List UInt8)} :
    type = 'P' ∨ type = 'R' ∨ type = 'N' → IsText id → (data.getD []).length < blockLimit →
      Sendable { type, token := id, data }
  | event {service name : Option String} {data : Option (List UInt8)} :
    IsName service → IsName name → (data.getD []).length < blockLimit →
      Sendable { type := 'E', service, name, data }
  | congestion {data : Option (List UInt8)} : (data.getD []).length < blockLimit →
      Sendable { type := 'F', data }

/-- The same message behind the stream, where data are never missing. -/
def Message.received (msg : Message) : Message := { msg with data := some (msg.data.getD []) }

theorem reads_data (zeroCopy : Bool) {data : List UInt8} (h : data.length < blockLimit) :
    Reads (readBytes .eom) 0 (write zeroCopy data ++ writeByte .eom) data 0 :=
  reads_bytes zeroCopy [] (.inl rfl) h

/-- The fields of a message. -/
theorem reads_fields (zeroCopy : ℕ → Bool) {msg : Message} (h : msg.Sendable) :
    Reads (readFields msg.type) 0
      ((match msg.token with
        | none => []
        | some id => write (zeroCopy 1) (utf8 id) ++ writeByte (.byte 0)) ++
        (writeText (zeroCopy 2) msg.service ++ (writeText (zeroCopy 3) msg.name ++
          (write (zeroCopy 4) (msg.data.getD []) ++ writeByte .eom)))) msg.received 0 := by
  cases h with
  | command hid hservice hname hdata =>
    obtain ⟨service, rfl, hservice⟩ := reads_name (zeroCopy 2) hservice
    obtain ⟨name, rfl, hname⟩ := reads_name (zeroCopy 3) hname
    rw [readFields, if_pos rfl]
    refine (reads_text (zeroCopy 1) hid).bind (hservice.bind (hname.bind ?_))
    rw [← List.append_nil (_ ++ writeByte .eom)]
    exact (reads_data (zeroCopy 4) hdata).bind Reads.pure
  | reply htype hid hdata =>
    have hfirst : ∀ type : Char, type = 'P' ∨ type = 'R' ∨ type = 'N' → type ≠ 'C' := by
      rintro type (rfl | rfl | rfl) <;> decide
    rw [readFields, if_neg (hfirst _ htype), if_pos htype]
    refine (reads_text (zeroCopy 1) hid).bind ?_
    rw [← List.append_nil (_ ++ writeByte .eom)]
    exact (reads_data (zeroCopy 4) hdata).bind Reads.pure
  | event hservice hname hdata =>
    obtain ⟨service, rfl, hservice⟩ := reads_name (zeroCopy 2) hservice
    obtain ⟨name, rfl, hname⟩ := reads_name (zeroCopy 3) hname
    have hkind : ¬ ('E' = 'C') ∧ ¬ ('E' = 'P' ∨ 'E' = 'R' ∨ 'E' = 'N') := by decide
    rw [readFields, if_neg hkind.1, if_neg hkind.2, if_pos rfl]
    refine hservice.bind (hname.bind ?_)
    rw [← List.append_nil (_ ++ writeByte .eom)]
    exact (reads_data (zeroCopy 4) hdata).bind Reads.pure
  | congestion hdata =>
    have hkind : ¬ ('F' = 'C') ∧ ¬ ('F' = 'P' ∨ 'F' = 'R' ∨ 'F' = 'N') ∧ ¬ ('F' = 'E') := by decide
    rw [readFields, if_neg hkind.1, if_neg hkind.2.1, if_neg hkind.2.2, if_pos rfl,
      ← List.append_nil (_ ++ writeByte .eom)]
    exact (reads_data (zeroCopy 4) hdata).bind Reads.pure

/-- The type of a message is one byte, which is no escape. -/
theorem Message.Sendable.type_eq {msg : Message} (h : msg.Sendable) :
    ∃ n : UInt8, Char.ofNat n.toNat = msg.type ∧ n ≠ ESC ∧
      ∀ zeroCopy, write zeroCopy (utf8 (String.singleton msg.type)) = [n] := by
  have htype : ∀ type : Char, type ∈ ['C', 'P', 'R', 'N', 'E', 'F'] → ∃ n : UInt8,
      Char.ofNat n.toNat = type ∧ n ≠ ESC ∧ utf8 (String.singleton type) = [n] := by
    intro type htype
    simp only [List.mem_cons, List.not_mem_nil, or_false] at htype
    rcases htype with rfl | rfl | rfl | rfl | rfl | rfl
    · exact ⟨67, by decide, by decide, by decide⟩
    · exact ⟨80, by decide, by decide, by decide⟩
    · exact ⟨82, by decide, by decide, by decide⟩
    · exact ⟨78, by decide, by decide, by decide⟩
    · exact ⟨69, by decide, by decide, by decide⟩
    · exact ⟨70, by decide, by decide, by decide⟩
  have hmem : msg.type ∈ ['C', 'P', 'R', 'N', 'E', 'F'] := by
    simp only [List.mem_cons, List.not_mem_nil, or_false]
    cases h with
    | command => exact .inl rfl
    | reply htype => rcases htype with rfl | rfl | rfl <;> simp
    | event => simp
    | congestion => simp
  obtain ⟨n, hchar, hesc, hbytes⟩ := htype _ hmem
  refine ⟨n, hchar, hesc, fun zeroCopy => ?_⟩
  rw [hbytes, write, if_neg fun hlong => absurd hlong.1 (by simp), List.flatMap_cons, if_neg hesc]
  rfl

/-- A message that was written is read back. -/
theorem reads_message (zeroCopy : ℕ → Bool) {msg : Message} (h : msg.Sendable) :
    Reads readMessage 0 (writeMessage zeroCopy msg) (.inl msg.received) 0 := by
  obtain ⟨n, hchar, hesc, htype⟩ := h.type_eq
  have hfields := reads_fields zeroCopy h
  rw [← hchar] at hfields
  refine Reads.loop_inr advances_readMessageRound ?_
  rw [writeMessage, htype]
  simp only [List.append_assoc]
  refine (reads_plain hesc).bind ((reads_writeByte (.byte 0)).bind ?_)
  dsimp only
  rw [if_pos rfl, ← List.append_nil (_ ++ (writeText _ _ ++ _))]
  exact hfields.bind Reads.pure

/-- The end of the stream is read back, without a report. -/
theorem reads_end : Reads readMessage 0 writeEnd (.inr none) 0 := by
  have hreport : Reads readReport 0 (writeByte .eom) none 0 := by
    have hbytes := @reads_bytes .eom [] false [] (.inl rfl) (Nat.two_pow_pos _)
    rw [← List.append_nil (writeByte .eom)]
    exact hbytes.attempt.bind Reads.pure
  refine Reads.loop_inr advances_readMessageRound ?_
  rw [writeEnd, ← List.append_nil (writeByte .eom)]
  exact (reads_writeByte .eos).bind (hreport.bind Reads.pure)

/-! ### Streams of messages -/

/-- What the transmitter writes, each field as a block or not. -/
def frames (msgs : List ((ℕ → Bool) × Message)) : List (List UInt8) :=
  msgs.map fun p => writeMessage p.1 p.2

/-- Whatever has arrived, and in whatever pieces, the messages that were read are those that have
    arrived as a whole, each once and in their order, and the reader waits for the others. Where
    everything has arrived it has read all messages, and the end of the stream. -/
theorem run_written {msgs : List ((ℕ → Bool) × Message)} (h : ∀ p ∈ msgs, p.2.Sendable) {n : ℕ}
    {s : Input ℕ UInt8} (hs : s.Holds 0 (((frames msgs).flatten ++ writeEnd).take n)) :
    run s =
      if n < ((frames msgs).flatten ++ writeEnd).length then
        ((msgs.take (whole n (frames msgs))).map fun p => p.2.received, .error .waits)
      else (msgs.map fun p => p.2.received, .ok none) := by
  let pairs := msgs.map fun p => (writeMessage p.1 p.2, p.2.received)
  have hfst : pairs.map Prod.fst = frames msgs := List.map_map
  have hsnd : pairs.map Prod.snd = msgs.map fun p => p.2.received := List.map_map
  have hreads : ∀ p ∈ pairs, Reads readMessage 0 p.1 (.inl p.2) 0 := by
    intro p hp
    obtain ⟨q, hq, rfl⟩ := List.mem_map.mp hp
    exact reads_message q.1 (h q hq)
  rw [← hfst] at hs ⊢
  rw [← hsnd]
  split_ifs with hn
  · rw [run, items_of_take advances_readMessage hreads reads_end hn hs, List.map_take, hsnd,
      List.map_take]
  · rw [List.take_of_length_le (Nat.le_of_not_lt hn), ← List.append_nil writeEnd] at hs
    exact items_of_end advances_readMessage hreads reads_end hs

/-- An event, and a result of which a part is still to come. -/
def cutMessages : List ((ℕ → Bool) × Message) :=
  [(fun _ => false,
      { type := 'E', service := some "Locator", name := some "Hello", data := some [91, 93] }),
    (fun _ => true, { type := 'R', token := some "7", data := some [3, 0] })]

def cutInput : Input ℕ UInt8 where
  state := 0
  buf := []
  arrivals := [some (((frames cutMessages).flatten ++ writeEnd).take 9),
    some ((((frames cutMessages).flatten ++ writeEnd).take 25).drop 9)]

theorem run_written_cut : run cutInput =
    ([{ type := 'E', service := some "Locator", name := some "Hello", data := some [91, 93] }],
      .error .waits) := by
  have hsendable : ∀ p ∈ cutMessages, p.2.Sendable := by
    intro p hp
    rcases List.mem_cons.mp hp with rfl | hp
    · exact .event ⟨_, rfl, by decide, by decide, lt_blockLimit (by decide)⟩
        ⟨_, rfl, by decide, by decide, lt_blockLimit (by decide)⟩ (lt_blockLimit (by decide))
    · obtain rfl := List.mem_singleton.mp hp
      exact .reply (.inr (.inl rfl)) ⟨by decide, lt_blockLimit (by decide)⟩
        (lt_blockLimit (by decide))
  have hholds : cutInput.Holds 0 (((frames cutMessages).flatten ++ writeEnd).take 25) :=
    ⟨rfl, [_, _], rfl, rfl⟩
  exact (run_written hsendable hholds).trans rfl

end Chipscopy.Tcf
