import Chipscopy.Lib.Records

/-! Reading memory in chunks

    A read is split into requests of at most 32 KiB, eight of which may be outstanding. The server
    answers them in any order, and every answer is written to its place in one buffer. A request
    counts words, so what a read asks for is a whole number of words. -/

namespace Chipscopy.Client

open Records

def chunkByteSize : ℕ := 0x8000

/-- A `run_sequence` request, with the offset that its token carries. -/
structure ReadRequest where
  addr : ℕ
  size : ℕ
  dataOffset : ℕ
  deriving DecidableEq, Repr

/-- `get_request_sequence`. -/
def getRequestSequence (address offset totalReadSize : ℕ) : List ReadRequest :=
  let endAddr := address + totalReadSize
  ((addresses address endAddr chunkByteSize).zip
    (addresses offset (offset + totalReadSize) chunkByteSize)).map fun (addr, bufferOffset) =>
      let rSize := if addr + chunkByteSize < endAddr then chunkByteSize else endAddr - addr
      { addr := addr, size := rSize / 4, dataOffset := bufferOffset }

/-- What the done callback can be given: an error of the server, or one of the reader. -/
inductive ReadError (ε : Type)
  | server (e : ε)
  | index
  deriving DecidableEq, Repr

/-- Variables of a call, the requests that are not sent yet, and the calls of its done callback. -/
structure ReadState (ε : Type) where
  data : List UInt8
  seqIt : List ReadRequest
  localPending : List ReadRequest := []
  allRequestsSent : Bool := false
  err : Option (ReadError ε) := none
  doneCalls : List (Option (ReadError ε)) := []

namespace ReadState

variable {ε : Type}

def readDone (s : ReadState ε) : ReadState ε := { s with doneCalls := s.doneCalls ++ [s.err] }

/-- The loop that fills the window of outstanding requests. -/
def sendRequests (s : ReadState ε) : List ReadRequest → ReadState ε
  | [] =>
    if s.localPending.length < 8 then { s with seqIt := [], allRequestsSent := true }
    else { s with seqIt := [] }
  | c :: cs =>
    if s.localPending.length < 8 then
      sendRequests { s with localPending := s.localPending ++ [c] } cs
    else { s with seqIt := c :: cs }

def requestData (s : ReadState ε) : ReadState ε :=
  if s.err.isSome then s.readDone else s.sendRequests s.seqIt

/-- `receive_data` for the token of a request, with an error or the bytes of the result. -/
def receiveData (readEnd : ℕ) (s : ReadState ε) (c : ReadRequest)
    (reply : Except ε (List UInt8)) : ReadState ε :=
  let s := { s with localPending := s.localPending.erase c }
  if s.err.isSome then s
  else
    let s := match reply with
      | .error e => { s with err := some (.server e) }
      | .ok rData =>
        if c.dataOffset + rData.length > readEnd then { s with err := some .index }
        else
          { s with data := Py.setSegment s.data c.dataOffset (c.dataOffset + rData.length) rData }
    if s.allRequestsSent ∧ s.localPending = [] then s.readDone else s.requestData

end ReadState

/-- The call itself, up to its return. -/
def readBytes (ε : Type) (address : ℕ) (data : List UInt8) (offset : ℕ) (byteSize : Option ℕ) :
    Except Py.Error (ReadState ε) :=
  let totalReadSize := byteSize.getD data.length
  if (totalReadSize : ℤ) > (data.length : ℤ) - offset then .error .indexError
  else
    let s : ReadState ε := { data := data, seqIt := getRequestSequence address offset totalReadSize }
    .ok s.requestData

/-! ### Runs -/

/-- The bytes stored from an address. -/
def storedBytes (memory : ℕ → UInt8) (addr count : ℕ) : List UInt8 :=
  (List.range count).map fun k => memory (addr + k)

/-- A server that answers a request with an error, or with the stored words. -/
def answer {ε : Type} (memory : ℕ → UInt8) (c : ReadRequest) : Option ε → Except ε (List UInt8)
  | some e => .error e
  | none => .ok (storedBytes memory c.addr (4 * c.size))

/-- States after any number of answers, in any order; the answers tell their errors. -/
inductive Run {ε : Type} (memory : ℕ → UInt8) (readEnd : ℕ) (start : ReadState ε) :
    List (Option ε) → ReadState ε → Prop
  | start : Run memory readEnd start [] start
  | answered {outcomes s} (h : Run memory readEnd start outcomes s) {c : ReadRequest}
    (hc : c ∈ s.localPending) (outcome : Option ε) :
    Run memory readEnd start (outcomes ++ [outcome])
      (s.receiveData readEnd c (answer memory c outcome))

/-- The error that came first. -/
def firstError {ε : Type} (outcomes : List (Option ε)) : Option (ReadError ε) :=
  (outcomes.filterMap id).head?.map .server

/-! ### Requests of a read -/

/-- The request for chunk `k`. -/
def chunkRequest (address offset byteSize k : ℕ) : ReadRequest where
  addr := address + k * chunkByteSize
  size := min chunkByteSize (byteSize - k * chunkByteSize) / 4
  dataOffset := offset + k * chunkByteSize

theorem addresses_add (start len : ℕ) {step : ℕ} :
    addresses start (start + len) step =
      (List.range ((len + step - 1) / step)).map fun k => start + k * step := by
  refine List.ext_getElem? fun k => ?_
  rw [addresses, Nat.add_sub_cancel_left]
  by_cases hk : k < (len + step - 1) / step
  · simp [hk, Nat.mul_comm]
  · simp [Nat.le_of_not_lt hk]

theorem getRequestSequence_eq (address offset byteSize : ℕ) :
    getRequestSequence address offset byteSize =
      (List.range ((byteSize + 0x7fff) / 0x8000)).map (chunkRequest address offset byteSize) := by
  have hcount : (byteSize + chunkByteSize - 1) / chunkByteSize = (byteSize + 0x7fff) / 0x8000 := rfl
  rw [getRequestSequence, addresses_add, addresses_add, List.zip_map', List.map_map, hcount]
  refine List.map_congr_left fun k hk => ?_
  rw [List.mem_range] at hk
  have hsize : (if address + k * chunkByteSize + chunkByteSize < address + byteSize
      then chunkByteSize else address + byteSize - (address + k * chunkByteSize)) =
      min chunkByteSize (byteSize - k * chunkByteSize) := by
    rcases Nat.lt_or_ge (address + k * chunkByteSize + chunkByteSize) (address + byteSize) with h | h
    · rw [if_pos h]
      omega
    · rw [if_neg (Nat.not_lt.mpr h)]
      omega
  rw [Function.comp_apply, chunkRequest, ← hsize]

/-- Item `j` of the buffer lies where the answer to a request is written. -/
def Covers (c : ReadRequest) (j : ℕ) : Prop := c.dataOffset ≤ j ∧ j < c.dataOffset + 4 * c.size

instance (c : ReadRequest) (j : ℕ) : Decidable (Covers c j) :=
  inferInstanceAs (Decidable (_ ∧ _))

/-- The requests ask for every whole word of the read. -/
theorem covers_iff (address offset byteSize j : ℕ) :
    (∃ c ∈ getRequestSequence address offset byteSize, Covers c j) ↔
      offset ≤ j ∧ j < offset + byteSize / 4 * 4 := by
  rw [getRequestSequence_eq]
  constructor
  · rintro ⟨c, hc, hlo, hhi⟩
    obtain ⟨k, hk, rfl⟩ := List.mem_map.mp hc
    rw [List.mem_range] at hk
    simp only [chunkRequest, chunkByteSize] at hlo hhi
    omega
  · rintro ⟨hlo, hhi⟩
    refine ⟨chunkRequest address offset byteSize ((j - offset) / 0x8000),
      List.mem_map.mpr ⟨_, List.mem_range.mpr ?_, rfl⟩, ?_, ?_⟩
    · omega
    · simp only [chunkRequest, chunkByteSize]
      omega
    · simp only [chunkRequest, chunkByteSize]
      omega

/-- An answer stands in the buffer as its bytes stand in the memory. -/
theorem addr_of_mem {address offset byteSize : ℕ} {c : ReadRequest}
    (hc : c ∈ getRequestSequence address offset byteSize) {j : ℕ} (hj : c.dataOffset ≤ j) :
    c.addr + (j - c.dataOffset) = address + (j - offset) := by
  rw [getRequestSequence_eq] at hc
  obtain ⟨k, -, rfl⟩ := List.mem_map.mp hc
  simp only [chunkRequest] at hj ⊢
  omega

theorem end_le_of_mem {address offset byteSize : ℕ} {c : ReadRequest}
    (hc : c ∈ getRequestSequence address offset byteSize) :
    c.dataOffset + 4 * c.size ≤ offset + byteSize := by
  rw [getRequestSequence_eq] at hc
  obtain ⟨k, hk, rfl⟩ := List.mem_map.mp hc
  rw [List.mem_range] at hk
  simp only [chunkRequest, chunkByteSize]
  omega

/-! ### What the answers leave -/

variable {ε : Type}

theorem sendRequests_eq : ∀ (cs : List ReadRequest) (s : ReadState ε), s.localPending.length ≤ 8 →
    s.sendRequests cs =
      { s with
        localPending := s.localPending ++ cs.take (8 - s.localPending.length)
        seqIt := cs.drop (8 - s.localPending.length)
        allRequestsSent := s.allRequestsSent || decide (s.localPending.length + cs.length < 8) }
  | [], s, _ => by
    by_cases hroom : s.localPending.length < 8
    · simp [ReadState.sendRequests, hroom]
    · simp [ReadState.sendRequests, hroom]
  | c :: cs, s, hle => by
    by_cases hroom : s.localPending.length < 8
    · have hsub : 8 - s.localPending.length = 8 - (s.localPending.length + 1) + 1 := by omega
      have hcount : s.localPending.length + 1 + cs.length = s.localPending.length + (cs.length + 1) := by
        omega
      rw [ReadState.sendRequests, if_pos hroom, sendRequests_eq cs _ (by simp; omega)]
      simp [hsub, hcount]
    · have hfull : s.localPending.length = 8 := by omega
      simp [ReadState.sendRequests, hfull]

/-- Where an answer was received the memory is in the buffer, elsewhere what was there. -/
structure Written (memory : ℕ → UInt8) (address offset : ℕ) (data : List UInt8)
    (received : List ReadRequest) (now : List UInt8) : Prop where
  length_eq : now.length = data.length
  inside : ∀ c ∈ received, ∀ j, Covers c j → now[j]? = some (memory (address + (j - offset)))
  outside : ∀ j, (∀ c ∈ received, ¬ Covers c j) → now[j]? = data[j]?

@[simp] theorem length_storedBytes (memory : ℕ → UInt8) (addr count : ℕ) :
    (storedBytes memory addr count).length = count := by
  simp [storedBytes]

theorem getElem?_storedBytes (memory : ℕ → UInt8) (addr : ℕ) {count k : ℕ} (hk : k < count) :
    (storedBytes memory addr count)[k]? = some (memory (addr + k)) := by
  simp [storedBytes, hk]

/-- One more answer. -/
theorem Written.answered {memory : ℕ → UInt8} {address offset byteSize : ℕ} {data now : List UInt8}
    {received : List ReadRequest} (h : Written memory address offset data received now)
    (hroom : offset + byteSize ≤ data.length) {c : ReadRequest}
    (hc : c ∈ getRequestSequence address offset byteSize) :
    Written memory address offset data (received ++ [c])
      (Py.setSegment now c.dataOffset (c.dataOffset + 4 * c.size)
        (storedBytes memory c.addr (4 * c.size))) := by
  have hend := end_le_of_mem hc
  have hlen := h.length_eq
  have hget : ∀ j, (Py.setSegment now c.dataOffset (c.dataOffset + 4 * c.size)
      (storedBytes memory c.addr (4 * c.size)))[j]? =
      if Covers c j then (storedBytes memory c.addr (4 * c.size))[j - c.dataOffset]? else now[j]? := by
    intro j
    have hfits : c.dataOffset + (storedBytes memory c.addr (4 * c.size)).length ≤ now.length := by
      rw [length_storedBytes]
      omega
    have hset := Py.getElem?_setSegment hfits j
    rw [length_storedBytes] at hset
    rw [hset]
    rfl
  constructor
  · rw [Py.length_setSegment (Nat.le_add_right _ _) (by omega) (by simp), hlen]
  · intro d hd j hj
    rw [hget]
    by_cases hcj : Covers c j
    · obtain ⟨hlo, hhi⟩ := hcj
      rw [if_pos ⟨hlo, hhi⟩, getElem?_storedBytes _ _ (by omega), addr_of_mem hc hlo]
    · rw [if_neg hcj]
      rcases List.mem_append.mp hd with hd | hd
      · exact h.inside d hd j hj
      · rw [List.mem_singleton.mp hd] at hj
        exact absurd hj hcj
  · intro j hj
    rw [hget, if_neg (hj c (by simp))]
    exact h.outside j fun d hd => hj d (List.mem_append_left _ hd)

/-- A read without errors: every request is received, outstanding or not sent. -/
structure Reading (memory : ℕ → UInt8) (address offset byteSize : ℕ) (data : List UInt8)
    (received : List ReadRequest) (outcomes : List (Option ε)) (s : ReadState ε) : Prop where
  perm : (received ++ s.localPending ++ s.seqIt).Perm (getRequestSequence address offset byteSize)
  written : Written memory address offset data received s.data
  window : s.localPending.length ≤ 8
  sent : s.allRequestsSent = true → s.seqIt = []
  full : s.allRequestsSent = false → s.localPending.length = 8
  noError : s.err = none
  outcomes : ∀ o ∈ outcomes, o = none
  doneCalls : s.doneCalls = if s.localPending = [] then [none] else []

/-- A read that was given up: the callback has run, with the first error. -/
structure Failed (outcomes : List (Option ε)) (s : ReadState ε) : Prop where
  window : s.localPending.length ≤ 8
  first : ∃ e, firstError outcomes = some e ∧ s.err = some e
  doneCalls : s.doneCalls = [firstError outcomes]

theorem firstError_eq_none {outcomes : List (Option ε)} (h : ∀ o ∈ outcomes, o = none) :
    firstError outcomes = none := by
  have hnil : outcomes.filterMap id = [] :=
    List.filterMap_eq_nil_iff.mpr fun o ho => by rw [h o ho]; rfl
  rw [firstError, hnil]
  rfl

theorem firstError_append_some {outcomes : List (Option ε)} (h : ∀ o ∈ outcomes, o = none) (e : ε) :
    firstError (outcomes ++ [some e]) = some (.server e) := by
  have hnil : outcomes.filterMap id = [] :=
    List.filterMap_eq_nil_iff.mpr fun o ho => by rw [h o ho]; rfl
  rw [firstError, List.filterMap_append, hnil]
  rfl

theorem firstError_append {outcomes : List (Option ε)} {e : ReadError ε}
    (h : firstError outcomes = some e) (o : Option ε) : firstError (outcomes ++ [o]) = some e := by
  rw [firstError, List.filterMap_append]
  rw [firstError] at h
  cases hos : outcomes.filterMap id with
  | nil =>
    rw [hos] at h
    exact nomatch h
  | cons a as =>
    rw [hos] at h
    exact h

section Runs

variable {memory : ℕ → UInt8} {address offset byteSize : ℕ} {data : List UInt8}
  {received : List ReadRequest} {outcomes : List (Option ε)} {s : ReadState ε} {c : ReadRequest}

/-- Requests are sent until eight are outstanding or none is left. -/
theorem Reading.sendRequests (hperm : (received ++ s.localPending ++ s.seqIt).Perm
      (getRequestSequence address offset byteSize))
    (hwritten : Written memory address offset data received s.data)
    (hwindow : s.localPending.length ≤ 8) (hsent : s.allRequestsSent = true → s.seqIt = [])
    (hnone : s.err = none) (hall : ∀ o ∈ outcomes, o = none) (hcalls : s.doneCalls = [])
    (hwait : s.localPending ≠ [] ∨ s.seqIt ≠ []) :
    Reading memory address offset byteSize data received outcomes (s.sendRequests s.seqIt) := by
  rw [sendRequests_eq _ _ hwindow]
  constructor
  · have hsplit : received ++ (s.localPending ++ s.seqIt.take (8 - s.localPending.length)) ++
        s.seqIt.drop (8 - s.localPending.length) = received ++ s.localPending ++ s.seqIt := by
      simp
    rw [hsplit]
    exact hperm
  · exact hwritten
  · simp
    omega
  · intro hdone
    simp only [Bool.or_eq_true, decide_eq_true_eq] at hdone
    rcases hdone with hdone | hdone
    · simp [hsent hdone]
    · exact List.drop_eq_nil_of_le (by omega)
  · intro hdone
    simp only [Bool.or_eq_false_iff, decide_eq_false_iff_not] at hdone
    rw [List.length_append, List.length_take]
    omega
  · exact hnone
  · exact hall
  · have hne : s.localPending ++ s.seqIt.take (8 - s.localPending.length) ≠ [] := by
      intro hnil
      obtain ⟨hpending, htake⟩ := List.append_eq_nil_iff.mp hnil
      rcases hwait with hwait | hwait
      · exact hwait hpending
      · simp [hpending] at htake
        exact hwait htake
    rw [if_neg hne]
    exact hcalls

/-- An answer with bytes. -/
theorem Reading.answered (h : Reading memory address offset byteSize data received outcomes s)
    (hroom : offset + byteSize ≤ data.length) (hc : c ∈ s.localPending) :
    Reading memory address offset byteSize data (received ++ [c]) (outcomes ++ [none])
      (s.receiveData (offset + byteSize) c (answer memory c none)) := by
  have hmem : c ∈ getRequestSequence address offset byteSize :=
    h.perm.mem_iff.mp (by simp [hc])
  have hend := end_le_of_mem hmem
  have hlen : (s.localPending.erase c).length + 1 = s.localPending.length := by
    rw [List.length_erase_of_mem hc]
    have := List.length_pos_of_mem hc
    omega
  have hwindow := h.window
  have hperm : (received ++ [c] ++ s.localPending.erase c ++ s.seqIt).Perm
      (getRequestSequence address offset byteSize) := by
    refine List.Perm.trans (List.Perm.append_right _ ?_) h.perm
    rw [List.append_assoc]
    exact List.Perm.append_left _ (List.perm_cons_erase hc).symm
  have hcalls : s.doneCalls = [] := by
    rw [h.doneCalls, if_neg (List.ne_nil_of_mem hc)]
  have hall : ∀ o ∈ outcomes ++ [none], o = none := by
    intro o ho
    rcases List.mem_append.mp ho with ho | ho
    · exact h.outcomes o ho
    · exact List.mem_singleton.mp ho
  have hwritten := h.written.answered hroom hmem
  have hfit : ¬ c.dataOffset + 4 * c.size > offset + byteSize := by omega
  simp only [ReadState.receiveData, answer, h.noError, Option.isSome_none, Bool.false_eq_true,
    if_false, if_neg hfit, length_storedBytes]
  split_ifs with hdone
  · obtain ⟨hsent, hnil⟩ := hdone
    constructor
    · exact hperm
    · exact hwritten
    · simp [ReadState.readDone, hnil]
    · exact h.sent
    · intro hnot
      exact absurd (hsent.symm.trans hnot) (by decide)
    · rfl
    · exact hall
    · simp [ReadState.readDone, hnil, hcalls]
  · simp only [ReadState.requestData, Option.isSome_none, Bool.false_eq_true, if_false]
    refine Reading.sendRequests hperm hwritten (by simp; omega) h.sent rfl hall hcalls ?_
    left
    intro (hnil : s.localPending.erase c = [])
    rcases hsent : s.allRequestsSent with _ | _
    · have hfull := h.full hsent
      rw [hnil, List.length_nil] at hlen
      omega
    · exact hdone ⟨hsent, hnil⟩

/-- An answer with an error. -/
theorem Reading.failed (h : Reading memory address offset byteSize data received outcomes s)
    (hc : c ∈ s.localPending) (readEnd : ℕ) (e : ε) :
    Failed (outcomes ++ [some e]) (s.receiveData readEnd c (answer memory c (some e))) := by
  have hfirst := firstError_append_some h.outcomes e
  have hcalls : s.doneCalls = [] := by
    rw [h.doneCalls, if_neg (List.ne_nil_of_mem hc)]
  have hwindow : (s.localPending.erase c).length ≤ 8 :=
    (List.length_erase_le).trans h.window
  simp only [ReadState.receiveData, answer, h.noError, Option.isSome_none, Bool.false_eq_true,
    if_false, ReadState.requestData, Option.isSome_some, if_true, ite_self]
  exact ⟨hwindow, ⟨_, hfirst, rfl⟩, by simp [ReadState.readDone, hcalls, hfirst]⟩

/-- Answers after the error leave only the window. -/
theorem Failed.answered (h : Failed outcomes s) (readEnd : ℕ) (c : ReadRequest)
    (reply : Except ε (List UInt8)) (o : Option ε) :
    Failed (outcomes ++ [o]) (s.receiveData readEnd c reply) := by
  obtain ⟨e, hfirst, herr⟩ := h.first
  have hnext := firstError_append hfirst o
  simp only [ReadState.receiveData, herr, Option.isSome_some, if_true]
  refine ⟨(List.length_erase_le).trans h.window, ⟨e, hnext, rfl⟩, ?_⟩
  rw [hnext, ← hfirst]
  exact h.doneCalls

/-! ### Runs of a read -/

theorem getRequestSequence_ne_nil (hsize : 1 ≤ byteSize) :
    getRequestSequence address offset byteSize ≠ [] := by
  rw [getRequestSequence_eq, Ne, List.map_eq_nil_iff, List.range_eq_nil]
  omega

/-- The state in which a read returns to its caller. -/
def ReadState.first (ε : Type) (address : ℕ) (data : List UInt8) (offset byteSize : ℕ) :
    ReadState ε :=
  ReadState.requestData { data := data, seqIt := getRequestSequence address offset byteSize }

theorem readBytes_eq (hroom : offset + byteSize ≤ data.length) :
    readBytes ε address data offset (some byteSize) = .ok (.first ε address data offset byteSize) := by
  have hfit : ¬ (byteSize : ℤ) > (data.length : ℤ) - offset := by omega
  rw [readBytes, Option.getD_some, if_neg hfit]
  rfl

theorem reading_first (hsize : 1 ≤ byteSize) :
    Reading memory address offset byteSize data [] [] (.first ε address data offset byteSize) := by
  have hnone : ¬ (none : Option (ReadError ε)).isSome = true := by simp
  rw [ReadState.first, ReadState.requestData, if_neg hnone]
  refine Reading.sendRequests ?_ ⟨rfl, by simp, by simp⟩ (Nat.zero_le 8) ?_ rfl (by simp) rfl
    (.inr (getRequestSequence_ne_nil hsize))
  · rw [List.nil_append, List.nil_append]
  · rintro ⟨⟩

/-- After any answers a read goes on without errors, or it was given up. -/
theorem run_reading_or_failed (hsize : 1 ≤ byteSize) (hroom : offset + byteSize ≤ data.length)
    (h : Run memory (offset + byteSize) (.first ε address data offset byteSize) outcomes s) :
    (∃ received, Reading memory address offset byteSize data received outcomes s) ∨
      Failed outcomes s := by
  induction h with
  | start => exact .inl ⟨[], reading_first hsize⟩
  | answered _ hc outcome ih =>
    rcases ih with ⟨received, h⟩ | h
    · cases outcome with
      | none => exact .inl ⟨_, h.answered hroom hc⟩
      | some e => exact .inr (h.failed hc _ e)
    · exact .inr (h.answered _ _ _ _)

/-- A read without errors comes to its end, whichever request is answered next. -/
theorem Reading.exists_run {start : ReadState ε} (hroom : offset + byteSize ≤ data.length) (n : ℕ)
    (h : Reading memory address offset byteSize data received outcomes s)
    (hrun : Run memory (offset + byteSize) start outcomes s)
    (hn : s.localPending.length + s.seqIt.length = n) :
    ∃ received' outcomes' s', s'.localPending = [] ∧
      Reading memory address offset byteSize data received' outcomes' s' ∧
      Run memory (offset + byteSize) start outcomes' s' := by
  induction n generalizing received outcomes s with
  | zero => exact ⟨received, outcomes, s, List.length_eq_zero_iff.mp (by omega), h, hrun⟩
  | succ n ih =>
    cases hpending : s.localPending with
    | nil => exact ⟨received, outcomes, s, hpending, h, hrun⟩
    | cons c cs =>
      have hc : c ∈ s.localPending := by simp [hpending]
      have hnext := h.answered hroom hc
      have hcount := hnext.perm.length_eq
      have hbefore := h.perm.length_eq
      simp only [List.length_append, List.length_singleton] at hcount hbefore
      exact ih hnext (hrun.answered hc none) (by omega)

/-- All answers are received: every request of the read is. -/
theorem Reading.complete (h : Reading memory address offset byteSize data received outcomes s)
    (hdone : s.localPending = []) : received.Perm (getRequestSequence address offset byteSize) := by
  have hsent : s.seqIt = [] := by
    rcases hall : s.allRequestsSent with _ | _
    · have hfull := h.full hall
      rw [hdone] at hfull
      exact nomatch hfull
    · exact h.sent hall
  have hperm := h.perm
  rwa [hdone, hsent, List.append_nil, List.append_nil] at hperm

/-- A complete read has copied the whole words. -/
theorem Reading.getElem?_data (h : Reading memory address offset byteSize data received outcomes s)
    (hdone : s.localPending = []) (j : ℕ) :
    s.data[j]? = if offset ≤ j ∧ j < offset + byteSize / 4 * 4
      then some (memory (address + (j - offset))) else data[j]? := by
  have hcovers := covers_iff address offset byteSize j
  have hmem : ∀ c, c ∈ received ↔ c ∈ getRequestSequence address offset byteSize :=
    fun c => (h.complete hdone).mem_iff
  split_ifs with hj
  · obtain ⟨c, hc, hcj⟩ := hcovers.mpr hj
    exact h.written.inside c ((hmem c).mpr hc) j hcj
  · refine h.written.outside j fun c hc hcj => hj (hcovers.mp ⟨c, (hmem c).mp hc, hcj⟩)

/-- Requests that are outstanding or not sent. -/
def ReadState.open (s : ReadState ε) : ℕ := s.localPending.length + s.seqIt.length

theorem open_sendRequests : ∀ (cs : List ReadRequest) (s : ReadState ε),
    (s.sendRequests cs).open = s.localPending.length + cs.length
  | [], s => by
    rw [ReadState.sendRequests]
    split_ifs <;> rfl
  | c :: cs, s => by
    rw [ReadState.sendRequests]
    split_ifs
    · rw [open_sendRequests cs, List.length_append, List.length_singleton, List.length_cons]
      omega
    · rfl

theorem open_receiveData (readEnd : ℕ) (hc : c ∈ s.localPending) (reply : Except ε (List UInt8)) :
    (s.receiveData readEnd c reply).open + 1 = s.open := by
  have hrequest : ∀ t : ReadState ε, t.requestData.open = t.open := by
    intro t
    rw [ReadState.requestData]
    split_ifs
    · rfl
    · exact open_sendRequests _ t
  have hlen : (s.localPending.erase c).length + s.seqIt.length + 1 = s.open := by
    rw [List.length_erase_of_mem hc, ReadState.open]
    have := List.length_pos_of_mem hc
    omega
  rw [← hlen]
  cases reply with
  | error e =>
    simp only [ReadState.receiveData]
    split_ifs
    · rfl
    · rfl
    · rw [hrequest, ReadState.open]
  | ok rData =>
    simp only [ReadState.receiveData]
    split_ifs
    · rfl
    · rfl
    · rw [hrequest, ReadState.open]
    · rfl
    · rw [hrequest, ReadState.open]

/-- Every answer closes a request, so a run ends. -/
theorem run_length_add_open {start : ReadState ε} {readEnd : ℕ}
    (h : Run memory readEnd start outcomes s) : outcomes.length + s.open = start.open := by
  induction h with
  | start => exact Nat.zero_add _
  | @answered _ _ _ c hc outcome ih =>
    have hopen := open_receiveData readEnd hc (answer memory c outcome)
    rw [List.length_append, List.length_singleton]
    omega

end Runs

/-! ### What a read delivers -/

/-- In every run at most eight requests are outstanding, the callback runs once, with the first
    error, and without errors the buffer holds the bytes that were asked for. -/
def Delivers (ε : Type) (memory : ℕ → UInt8) (address : ℕ) (data : List UInt8)
    (offset byteSize : ℕ) : Prop :=
  ∃ start, readBytes ε address data offset (some byteSize) = .ok start ∧
    ∀ outcomes s, Run memory (offset + byteSize) start outcomes s →
      s.localPending.length ≤ 8 ∧
      (s.doneCalls = [] ∨ s.doneCalls = [firstError outcomes]) ∧
      (s.localPending = [] → s.doneCalls = [firstError outcomes] ∧
        (firstError outcomes = none → s.data =
          data.take offset ++ storedBytes memory address byteSize ++ data.drop (offset + byteSize)))

/-- The bytes behind the last whole word are in the buffer already. -/
def TailStands (memory : ℕ → UInt8) (address : ℕ) (data : List UInt8) (offset byteSize : ℕ) : Prop :=
  ∀ j, byteSize / 4 * 4 ≤ j → j < byteSize → data[offset + j]? = some (memory (address + j))

theorem getElem?_delivered (memory : ℕ → UInt8) (address : ℕ) {data : List UInt8}
    {offset byteSize : ℕ} (hroom : offset + byteSize ≤ data.length) (j : ℕ) :
    (data.take offset ++ storedBytes memory address byteSize ++ data.drop (offset + byteSize))[j]? =
      if offset ≤ j ∧ j < offset + byteSize
        then some (memory (address + (j - offset))) else data[j]? := by
  have hfits : offset + (storedBytes memory address byteSize).length ≤ data.length := by
    simpa using hroom
  have hset := Py.getElem?_setSegment hfits j
  rw [length_storedBytes] at hset
  rw [← Py.setSegment, hset]
  split_ifs with hj
  · exact getElem?_storedBytes _ _ (by omega)
  · rfl

/-- A read delivers unless its last bytes make no whole word. -/
theorem readBytes_delivers_iff (ε : Type) (memory : ℕ → UInt8) (address : ℕ) (data : List UInt8)
    (offset byteSize : ℕ) (hsize : 1 ≤ byteSize) (hroom : offset + byteSize ≤ data.length) :
    Delivers ε memory address data offset byteSize ↔
      TailStands memory address data offset byteSize := by
  have hstart : readBytes ε address data offset (some byteSize) =
      .ok (.first ε address data offset byteSize) := readBytes_eq hroom
  constructor
  · rintro ⟨start, hok, hdeliver⟩ j hlo hhi
    obtain rfl : ReadState.first ε address data offset byteSize = start :=
      Except.ok.inj (hstart.symm.trans hok)
    have hfirst : Reading memory address offset byteSize data [] []
        (.first ε address data offset byteSize) := reading_first hsize
    obtain ⟨received, outcomes, s, hdone, hread, hrun⟩ := hfirst.exists_run hroom _ Run.start rfl
    obtain ⟨-, -, hend⟩ := hdeliver outcomes s hrun
    have hdata := (hend hdone).2 (firstError_eq_none hread.outcomes)
    have hread' := hread.getElem?_data hdone (offset + j)
    rw [hdata, getElem?_delivered _ _ hroom, if_pos ⟨by omega, by omega⟩,
      if_neg (fun h => by omega), Nat.add_sub_cancel_left] at hread'
    exact hread'.symm
  · intro htail
    refine ⟨_, hstart, fun outcomes s hrun => ?_⟩
    rcases run_reading_or_failed hsize hroom hrun with ⟨received, h⟩ | h
    · have hnone := firstError_eq_none h.outcomes
      have hcalls := h.doneCalls
      refine ⟨h.window, ?_, fun hdone => ⟨?_, fun _ => List.ext_getElem? fun j => ?_⟩⟩
      · rw [hcalls, hnone]
        split_ifs
        · exact .inr rfl
        · exact .inl rfl
      · rw [hcalls, if_pos hdone, hnone]
      · rw [h.getElem?_data hdone, getElem?_delivered _ _ hroom]
        by_cases hwhole : offset ≤ j ∧ j < offset + byteSize / 4 * 4
        · rw [if_pos hwhole, if_pos ⟨hwhole.1, by omega⟩]
        · rw [if_neg hwhole]
          split_ifs with hj
          · have htail' := htail (j - offset) (by omega) (by omega)
            rwa [Nat.add_sub_cancel' hj.1] at htail'
          · rfl
    · obtain ⟨e, hfirst, -⟩ := h.first
      refine ⟨h.window, .inr h.doneCalls, fun _ => ⟨h.doneCalls, fun hnone => ?_⟩⟩
      rw [hfirst] at hnone
      exact nomatch hnone

/-- A read of two words. -/
theorem readBytes_delivers_words :
    (1 ≤ 8 ∧ 4 + 8 ≤ (List.replicate 16 (0 : UInt8)).length) ∧
      Delivers String (fun a => UInt8.ofNat a) 0x100 (List.replicate 16 0) 4 8 := by
  refine ⟨by decide, (readBytes_delivers_iff _ _ _ _ 4 8 (by decide) (by decide)).mpr ?_⟩
  intro j hlo hhi
  omega

/-- The last byte of five is not read. -/
theorem readBytes_partialWord :
    ¬ Delivers String (fun _ => 1) 0 (List.replicate 5 0) 0 5 := by
  rintro ⟨start, hok, hdeliver⟩
  obtain rfl : ReadState.first String 0 (List.replicate 5 0) 0 5 = start :=
    Except.ok.inj ((readBytes_eq (by decide)).symm.trans hok)
  have hrun : Run (fun _ => 1) (0 + 5) (ReadState.first String 0 (List.replicate 5 0) 0 5) []
      (ReadState.first String 0 (List.replicate 5 0) 0 5) := Run.start
  have hrun' := hrun.answered (c := ⟨0, 1, 0⟩) (by decide) none
  have hend := ((hdeliver _ _ hrun').2.2 (by decide)).2 (by decide)
  exact absurd hend (by decide)

end Chipscopy.Client
