import Chipscopy.Client.ReadBytes

/-! Writing memory in chunks

    A write is split like a read, into requests of at most 32 KiB with the bytes themselves, eight
    of which may be outstanding. Requests are sent in the order of the addresses, so that what was
    sent at any time is a prefix of the bytes, and the first error is the end of sending. -/

namespace Chipscopy.Client

open Records

/-- A `run_sequence` request, with the offset that its token carries. -/
structure WriteRequest where
  addr : ℕ
  data : List UInt8
  dataOffset : ℕ
  deriving DecidableEq, Repr

/-- `get_send_sequence`. -/
def getSendSequence (address : ℕ) (data : List UInt8) (offset totalWriteSize : ℕ) :
    List WriteRequest :=
  let endAddr := address + totalWriteSize
  ((addresses address endAddr chunkByteSize).zip
    (addresses offset (offset + totalWriteSize) chunkByteSize)).map fun (addr, bufferOffset) =>
      let wSize := if addr + chunkByteSize < endAddr then chunkByteSize else endAddr - addr
      { addr := addr
        data := Py.segment data bufferOffset (bufferOffset + wSize)
        dataOffset := bufferOffset + wSize }

/-- Variables of a call, the requests that are not sent yet, and the calls of its done callback.
    What was sent is kept for statements only. -/
structure WriteState (ε : Type) where
  seqIt : List WriteRequest
  localPending : List WriteRequest := []
  allSent : Bool := false
  err : Option ε := none
  doneCalls : List (Option ε) := []
  sent : List WriteRequest := []

namespace WriteState

variable {ε : Type}

def writeDone (s : WriteState ε) : WriteState ε := { s with doneCalls := s.doneCalls ++ [s.err] }

/-- The loop that fills the window of outstanding requests. -/
def sendRequests (s : WriteState ε) : List WriteRequest → WriteState ε
  | [] =>
    if s.localPending.length < 8 ∧ s.allSent = false then { s with seqIt := [], allSent := true }
    else { s with seqIt := [] }
  | c :: cs =>
    if s.localPending.length < 8 ∧ s.allSent = false then
      sendRequests { s with localPending := s.localPending ++ [c], sent := s.sent ++ [c] } cs
    else { s with seqIt := c :: cs }

def sendData (s : WriteState ε) : WriteState ε :=
  if s.err.isSome then s.writeDone else s.sendRequests s.seqIt

/-- `send_confirmation` for the token of a request, with an error or without one. -/
def sendConfirmation (s : WriteState ε) (c : WriteRequest) (error : Option ε) : WriteState ε :=
  let s := { s with localPending := s.localPending.erase c }
  if s.err.isSome then s
  else
    let s := { s with err := error }
    if s.localPending ≠ [] ∨ s.allSent = false then s.sendData else s.writeDone

end WriteState

/-- The call itself, up to its return. -/
def writeBytes (ε : Type) (address : ℕ) (data : List UInt8) (offset : ℕ) (byteSize : Option ℕ) :
    Except Py.Error (WriteState ε) :=
  let totalWriteSize := byteSize.getD data.length
  if (totalWriteSize : ℤ) > (data.length : ℤ) - offset then .error .indexError
  else
    let s : WriteState ε := { seqIt := getSendSequence address data offset totalWriteSize }
    .ok s.sendData

namespace WriteBytes

/-! ### Runs -/

/-- States after any number of answers, in any order. -/
inductive Run {ε : Type} (start : WriteState ε) :
    List (WriteRequest × Option ε) → WriteState ε → Prop
  | start : Run start [] start
  | answered {answers s} (h : Run start answers s) {c : WriteRequest} (hc : c ∈ s.localPending)
    (error : Option ε) : Run start (answers ++ [(c, error)]) (s.sendConfirmation c error)

/-- The error that came first. -/
def firstError {ε : Type} (answers : List (WriteRequest × Option ε)) : Option ε :=
  (answers.filterMap (·.2)).head?

/-- The bytes of requests, each with the address it is for. -/
def placed (requests : List WriteRequest) : List (UInt8 × ℕ) :=
  requests.flatMap fun c => c.data.zipIdx c.addr

/-- The bytes of a write, each with the address it is for. -/
def wanted (address : ℕ) (data : List UInt8) (offset byteSize : ℕ) : List (UInt8 × ℕ) :=
  (Py.segment data offset (offset + byteSize)).zipIdx address

/-- What holds after any answers. Bytes are sent once, each to its own address. -/
structure Delivered {ε : Type} (address : ℕ) (data : List UInt8) (offset byteSize : ℕ)
    (answers : List (WriteRequest × Option ε)) (s : WriteState ε) : Prop where
  window : s.localPending.length ≤ 8
  bytes : placed s.sent <+: wanted address data offset byteSize
  answered : (answers.map (·.1) ++ s.localPending).Perm s.sent
  done : s.doneCalls = [] ∨ s.doneCalls = [firstError answers]
  finished : s.localPending = [] → s.doneCalls = [firstError answers]
  complete : s.doneCalls = [none] → placed s.sent = wanted address data offset byteSize ∧
    (answers.map (·.1)).Perm s.sent ∧ ∀ a ∈ answers, a.2 = none
  noMore : ∀ c ∈ s.localPending, ∀ error, firstError (answers ++ [(c, error)]) ≠ none →
    (s.sendConfirmation c error).sent = s.sent

/-! ### Requests of a write -/

/-- The request for chunk `k`. -/
def chunkRequest (address : ℕ) (data : List UInt8) (offset byteSize k : ℕ) : WriteRequest where
  addr := address + k * chunkByteSize
  data := Py.segment data (offset + k * chunkByteSize)
    (offset + min ((k + 1) * chunkByteSize) byteSize)
  dataOffset := offset + min ((k + 1) * chunkByteSize) byteSize

theorem getSendSequence_eq (address : ℕ) (data : List UInt8) (offset byteSize : ℕ) :
    getSendSequence address data offset byteSize =
      (List.range ((byteSize + 0x7fff) / 0x8000)).map
        (chunkRequest address data offset byteSize) := by
  have hcount : (byteSize + chunkByteSize - 1) / chunkByteSize = (byteSize + 0x7fff) / 0x8000 := rfl
  rw [getSendSequence, addresses_add, addresses_add, List.zip_map', List.map_map, hcount]
  refine List.map_congr_left fun k hk => ?_
  rw [List.mem_range] at hk
  have hend : offset + k * chunkByteSize +
      (if address + k * chunkByteSize + chunkByteSize < address + byteSize
        then chunkByteSize else address + byteSize - (address + k * chunkByteSize)) =
      offset + min ((k + 1) * chunkByteSize) byteSize := by
    rcases Nat.lt_or_ge (address + k * chunkByteSize + chunkByteSize) (address + byteSize) with h | h
    · rw [if_pos h]
      simp only [chunkByteSize] at h ⊢
      omega
    · rw [if_neg (Nat.not_lt.mpr h)]
      simp only [chunkByteSize] at h ⊢
      omega
  rw [Function.comp_apply, chunkRequest, ← hend]

theorem segment_append {α : Type} (l : List α) {a b c : ℕ} (hab : a ≤ b) (hbc : b ≤ c)
    (hb : b ≤ l.length) : Py.segment l a b ++ Py.segment l b c = Py.segment l a c := by
  refine List.ext_getElem? fun i => ?_
  have hlen : (Py.segment l a b).length = b - a := by
    rw [Py.length_segment, Nat.min_eq_left hb]
  rcases Nat.lt_or_ge i (b - a) with hi | hi
  · rw [List.getElem?_append_left (by omega), Py.getElem?_segment, Py.getElem?_segment,
      if_pos (by omega), if_pos (by omega)]
  · rw [List.getElem?_append_right (by omega), Py.getElem?_segment, Py.getElem?_segment, hlen]
    have hindex : b + (i - (b - a)) = a + i := by omega
    rw [hindex]

/-- The first chunks of a write are its first bytes. -/
theorem placed_chunks (address : ℕ) (data : List UInt8) (offset byteSize : ℕ)
    (hroom : offset + byteSize ≤ data.length) (n : ℕ)
    (hn : n ≤ (byteSize + 0x7fff) / 0x8000) :
    placed ((List.range n).map (chunkRequest address data offset byteSize)) =
      (Py.segment data offset (offset + min (n * chunkByteSize) byteSize)).zipIdx address := by
  induction n with
  | zero => simp [placed, Py.segment]
  | succ n ih =>
    have hfull : min (n * chunkByteSize) byteSize = n * chunkByteSize := by
      simp only [chunkByteSize]
      omega
    have hlen : (Py.segment data offset (offset + n * chunkByteSize)).length =
        n * chunkByteSize := by
      rw [Py.length_segment]
      omega
    have hnext : n * chunkByteSize ≤ min ((n + 1) * chunkByteSize) byteSize := by
      simp only [chunkByteSize]
      omega
    have hsplit := segment_append data (Nat.le_add_right offset (n * chunkByteSize))
      (Nat.add_le_add_left hnext offset) (by omega)
    have hlast : placed [chunkRequest address data offset byteSize n] =
        (Py.segment data (offset + n * chunkByteSize)
          (offset + min ((n + 1) * chunkByteSize) byteSize)).zipIdx
            (address + n * chunkByteSize) := by
      simp [placed, chunkRequest]
    have happend : ∀ as bs : List WriteRequest, placed (as ++ bs) = placed as ++ placed bs :=
      fun as bs => List.flatMap_append
    rw [List.range_succ, List.map_append, List.map_singleton, happend, ih (by omega), hlast,
      ← hsplit, List.zipIdx_append, hfull, hlen]

/-- What is sent of a write, in the order of its requests, is a prefix of its bytes. -/
theorem placed_before {address : ℕ} {data : List UInt8} {offset byteSize : ℕ}
    (hroom : offset + byteSize ≤ data.length) {sent rest : List WriteRequest}
    (h : sent ++ rest = getSendSequence address data offset byteSize) :
    placed sent <+: wanted address data offset byteSize ∧
      (rest = [] → placed sent = wanted address data offset byteSize) := by
  have hall : placed (getSendSequence address data offset byteSize) =
      wanted address data offset byteSize := by
    rw [getSendSequence_eq, placed_chunks address data offset byteSize hroom _ (Nat.le_refl _),
      wanted]
    have hsize : min ((byteSize + 0x7fff) / 0x8000 * chunkByteSize) byteSize = byteSize := by
      simp only [chunkByteSize]
      omega
    rw [hsize]
  have happend : placed (sent ++ rest) = placed sent ++ placed rest := List.flatMap_append
  rw [← h, happend] at hall
  constructor
  · exact ⟨placed rest, hall⟩
  · rintro rfl
    simpa [placed] using hall

/-! ### What the answers leave -/

section Runs

variable {ε : Type} {address offset byteSize : ℕ} {data : List UInt8}
  {answers : List (WriteRequest × Option ε)} {s : WriteState ε} {c : WriteRequest}

/-- A write without errors: every request is answered, outstanding or not sent. -/
structure Writing (requests : List WriteRequest) (answers : List (WriteRequest × Option ε))
    (s : WriteState ε) : Prop where
  perm : (answers.map (·.1) ++ s.localPending).Perm s.sent
  sequence : s.sent ++ s.seqIt = requests
  window : s.localPending.length ≤ 8
  allSent : s.allSent = true → s.seqIt = []
  full : s.allSent = false → s.localPending.length = 8
  noError : s.err = none
  answers : ∀ a ∈ answers, a.2 = none
  doneCalls : s.doneCalls = if s.localPending = [] then [none] else []

/-- A write that was given up: the callback has run, with the first error. -/
structure Failed (requests : List WriteRequest) (answers : List (WriteRequest × Option ε))
    (s : WriteState ε) : Prop where
  perm : (answers.map (·.1) ++ s.localPending).Perm s.sent
  sequence : s.sent ++ s.seqIt = requests
  window : s.localPending.length ≤ 8
  first : ∃ e, firstError answers = some e ∧ s.err = some e
  doneCalls : s.doneCalls = [firstError answers]

theorem firstError_eq_none (h : ∀ a ∈ answers, a.2 = none) : firstError answers = none := by
  have hnil : answers.filterMap (·.2) = [] := List.filterMap_eq_nil_iff.mpr h
  rw [firstError, hnil]
  rfl

theorem firstError_append_of_none (h : firstError answers = none) (a : WriteRequest × Option ε) :
    firstError (answers ++ [a]) = a.2 := by
  have hnil : answers.filterMap (·.2) = [] := List.head?_eq_none_iff.mp h
  rw [firstError, List.filterMap_append, hnil]
  rcases a with ⟨c, _ | e⟩
  · rfl
  · rfl

theorem firstError_append_of_some {e : ε} (h : firstError answers = some e)
    (a : WriteRequest × Option ε) : firstError (answers ++ [a]) = some e := by
  rw [firstError] at h ⊢
  rw [List.filterMap_append, List.head?_append, h]
  rfl

/-- The loop sends the first requests that fit into the window. -/
theorem sendRequests_spec : ∀ (cs : List WriteRequest) (s : WriteState ε), s.allSent = false →
    s.localPending.length ≤ 8 → ∃ now later,
      s.sendRequests cs = { s with
        localPending := s.localPending ++ now
        sent := s.sent ++ now
        seqIt := later
        allSent := decide (s.localPending.length + now.length < 8) } ∧
      now ++ later = cs ∧ s.localPending.length + now.length ≤ 8 ∧
      (s.localPending.length + now.length < 8 → later = [])
  | [], s, hall, hle => by
    refine ⟨[], [], ?_, rfl, hle, fun _ => rfl⟩
    rw [WriteState.sendRequests]
    split_ifs with hroom
    · simp [hroom.1]
    · have hfull : ¬ s.localPending.length < 8 := fun h => hroom ⟨h, hall⟩
      simp [hfull, hall]
  | c :: cs, s, hall, hle => by
    rw [WriteState.sendRequests]
    split_ifs with hroom
    · obtain ⟨now, later, heq, hsplit, hlen, hlater⟩ := sendRequests_spec cs
        { s with localPending := s.localPending ++ [c], sent := s.sent ++ [c] } hall
        (by simp; omega)
      simp only [List.length_append, List.length_singleton] at hlen hlater
      refine ⟨c :: now, later, ?_, by rw [← hsplit]; rfl, by simp; omega, ?_⟩
      · have hcount : s.localPending.length + 1 + now.length =
            s.localPending.length + (now.length + 1) := by omega
        rw [heq]
        simp [hcount]
      · intro hlt
        exact hlater (by simpa [Nat.add_assoc, Nat.add_comm 1] using hlt)
    · have hfull : ¬ s.localPending.length < 8 := fun h => hroom ⟨h, hall⟩
      refine ⟨[], c :: cs, ?_, rfl, hle, fun hlt => absurd hlt hfull⟩
      simp [hfull, hall]

/-- Requests are sent until eight are outstanding or none is left. -/
theorem Writing.sendData {requests : List WriteRequest}
    (hperm : (answers.map (·.1) ++ s.localPending).Perm s.sent)
    (hsequence : s.sent ++ s.seqIt = requests) (hwindow : s.localPending.length ≤ 8)
    (hsent : s.allSent = true → s.seqIt = []) (hnone : s.err = none)
    (hall : ∀ a ∈ answers, a.2 = none) (hcalls : s.doneCalls = [])
    (hwait : s.localPending ≠ [] ∨ s.seqIt ≠ []) : Writing requests answers s.sendData := by
  have heq : s.sendData = s.sendRequests s.seqIt := by
    rw [WriteState.sendData, hnone]
    rfl
  rw [heq]
  cases hdone : s.allSent with
  | true =>
    have hnil := hsent hdone
    have hstop : s.sendRequests s.seqIt = s := by
      rw [hnil, WriteState.sendRequests, if_neg (by simp [hdone]), ← hnil]
    rw [hstop]
    have hne : s.localPending ≠ [] := hwait.resolve_right (not_not.mpr hnil)
    refine ⟨hperm, hsequence, hwindow, fun _ => hnil, fun h => ?_, hnone, hall, ?_⟩
    · exact absurd (hdone.symm.trans h) (by decide)
    · rw [if_neg hne]
      exact hcalls
  | false =>
    obtain ⟨now, later, hsend, hsplit, hlen, hlater⟩ := sendRequests_spec s.seqIt s hdone hwindow
    rw [hsend]
    refine ⟨?_, ?_, ?_, ?_, ?_, hnone, hall, ?_⟩
    · simpa [List.append_assoc] using hperm.append_right now
    · simpa [List.append_assoc, hsplit] using hsequence
    · simpa using hlen
    · intro hlt
      exact hlater (by simpa using hlt)
    · intro hfull
      simp only [decide_eq_false_iff_not, List.length_append] at hfull ⊢
      omega
    · have hne : s.localPending ++ now ≠ [] := by
        intro hnil
        obtain ⟨hpending, hnow⟩ := List.append_eq_nil_iff.mp hnil
        rcases hwait with hwait | hwait
        · exact hwait hpending
        · subst hnow
          refine hwait ?_
          rw [← hsplit, hlater (by simp [hpending])]
          rfl
      simp [hne, hcalls]

theorem perm_erase {sent : List WriteRequest} (error : Option ε)
    (h : (answers.map (·.1) ++ s.localPending).Perm sent) (hc : c ∈ s.localPending) :
    ((answers ++ [(c, error)]).map (·.1) ++ s.localPending.erase c).Perm sent := by
  refine List.Perm.trans ?_ h
  rw [List.map_append, List.append_assoc]
  exact List.Perm.append_left _ (List.perm_cons_erase hc).symm

/-- An answer without an error. -/
theorem Writing.answered {requests : List WriteRequest} (h : Writing requests answers s)
    (hc : c ∈ s.localPending) :
    Writing requests (answers ++ [(c, none)]) (s.sendConfirmation c none) := by
  have hlen : (s.localPending.erase c).length + 1 = s.localPending.length := by
    rw [List.length_erase_of_mem hc]
    have := List.length_pos_of_mem hc
    omega
  have hwindow := h.window
  have hperm := perm_erase none h.perm hc
  have hcalls : s.doneCalls = [] := by
    rw [h.doneCalls, if_neg (List.ne_nil_of_mem hc)]
  have hall : ∀ a ∈ answers ++ [(c, none)], a.2 = none := by
    intro a ha
    rcases List.mem_append.mp ha with ha | ha
    · exact h.answers a ha
    · rw [List.mem_singleton.mp ha]
  simp only [WriteState.sendConfirmation, h.noError, Option.isSome_none, Bool.false_eq_true, if_false]
  split_ifs with hmore
  · refine Writing.sendData hperm h.sequence (by simp; omega) h.allSent rfl hall hcalls ?_
    left
    rcases hmore with hmore | hmore
    · exact hmore
    · have hfull := h.full hmore
      intro (hnil : s.localPending.erase c = [])
      rw [hnil, List.length_nil] at hlen
      omega
  · simp only [not_or, not_not, Bool.not_eq_false] at hmore
    obtain ⟨hnil, hsent⟩ := hmore
    refine ⟨hperm, h.sequence, ?_, h.allSent, fun hnot => ?_, rfl, hall, ?_⟩
    · simp [WriteState.writeDone, hnil]
    · exact absurd (hsent.symm.trans hnot) (by decide)
    · simp [WriteState.writeDone, hnil, hcalls]

/-- The answer with the first error. -/
theorem Writing.failed {requests : List WriteRequest} (h : Writing requests answers s)
    (hc : c ∈ s.localPending) (e : ε) :
    Failed requests (answers ++ [(c, some e)]) (s.sendConfirmation c (some e)) ∧
      (s.sendConfirmation c (some e)).sent = s.sent := by
  have hfirst : firstError (answers ++ [(c, some e)]) = some e :=
    firstError_append_of_none (firstError_eq_none h.answers) _
  have hcalls : s.doneCalls = [] := by
    rw [h.doneCalls, if_neg (List.ne_nil_of_mem hc)]
  have heq : s.sendConfirmation c (some e) =
      { s with localPending := s.localPending.erase c, err := some e, doneCalls := [some e] } := by
    simp only [WriteState.sendConfirmation, h.noError, Option.isSome_none, Bool.false_eq_true,
      if_false, WriteState.sendData, Option.isSome_some, if_true, ite_self, WriteState.writeDone,
      hcalls, List.nil_append]
  rw [heq]
  refine ⟨⟨perm_erase _ h.perm hc, h.sequence, List.length_erase_le.trans h.window,
    ⟨e, hfirst, rfl⟩, ?_⟩, rfl⟩
  rw [hfirst]

/-- Answers after the error leave only the window. -/
theorem Failed.answered {requests : List WriteRequest} (h : Failed requests answers s)
    (hc : c ∈ s.localPending) (error : Option ε) :
    Failed requests (answers ++ [(c, error)]) (s.sendConfirmation c error) ∧
      (s.sendConfirmation c error).sent = s.sent := by
  obtain ⟨e, hfirst, herr⟩ := h.first
  have hnext := firstError_append_of_some hfirst (c, error)
  have heq : s.sendConfirmation c error = { s with localPending := s.localPending.erase c } := by
    simp only [WriteState.sendConfirmation, herr, Option.isSome_some, if_true]
  rw [heq]
  refine ⟨⟨perm_erase _ h.perm hc, h.sequence, List.length_erase_le.trans h.window,
    ⟨e, hnext, herr⟩, ?_⟩, rfl⟩
  rw [hnext, ← hfirst]
  exact h.doneCalls

/-! ### Runs of a write -/

theorem getSendSequence_ne_nil (hsize : 1 ≤ byteSize) :
    getSendSequence address data offset byteSize ≠ [] := by
  rw [getSendSequence_eq, Ne, List.map_eq_nil_iff, List.range_eq_nil]
  omega

theorem writeBytes_eq (hroom : offset + byteSize ≤ data.length) :
    writeBytes ε address data offset (some byteSize) =
      .ok (WriteState.sendData { seqIt := getSendSequence address data offset byteSize }) := by
  have hfit : ¬ (byteSize : ℤ) > (data.length : ℤ) - offset := by omega
  rw [writeBytes, Option.getD_some, if_neg hfit]

/-- After any answers a write goes on without errors, or it was given up. -/
theorem run_writing_or_failed (hsize : 1 ≤ byteSize)
    (h : Run (WriteState.sendData
      { seqIt := getSendSequence address data offset byteSize }) answers s) :
    Writing (getSendSequence address data offset byteSize) answers s ∨
      Failed (getSendSequence address data offset byteSize) answers s := by
  induction h with
  | start =>
    left
    refine Writing.sendData (List.Perm.refl _) rfl (Nat.zero_le 8) ?_ rfl (by simp) rfl
      (.inr (getSendSequence_ne_nil hsize))
    intro hsent
    exact nomatch hsent
  | answered _ hc error ih =>
    rcases ih with h | h
    · cases error with
      | none => exact .inl (h.answered hc)
      | some e => exact .inr (h.failed hc e).1
    · exact .inr (h.answered hc error).1

theorem Writing.delivered (hroom : offset + byteSize ≤ data.length)
    (h : Writing (getSendSequence address data offset byteSize) answers s) :
    Delivered address data offset byteSize answers s := by
  have hfirst := firstError_eq_none h.answers
  obtain ⟨hplaced, hwhole⟩ := placed_before hroom h.sequence
  refine ⟨h.window, hplaced, h.perm, ?_, fun hnil => ?_, fun hdone => ?_, fun c hc error herror => ?_⟩
  · rw [h.doneCalls, hfirst]
    split_ifs
    · exact .inr rfl
    · exact .inl rfl
  · rw [h.doneCalls, if_pos hnil, hfirst]
  · have hnil : s.localPending = [] := by
      by_contra hne
      rw [h.doneCalls, if_neg hne] at hdone
      exact nomatch hdone
    have hsent : s.seqIt = [] := by
      rcases hall : s.allSent with _ | _
      · have hfull := h.full hall
        rw [hnil] at hfull
        exact nomatch hfull
      · exact h.allSent hall
    refine ⟨hwhole hsent, ?_, h.answers⟩
    have hperm := h.perm
    rwa [hnil, List.append_nil] at hperm
  · cases error with
    | none => exact absurd (firstError_append_of_none hfirst (c, none)) herror
    | some e => exact (h.failed hc e).2

theorem Failed.delivered (hroom : offset + byteSize ≤ data.length)
    (h : Failed (getSendSequence address data offset byteSize) answers s) :
    Delivered address data offset byteSize answers s := by
  obtain ⟨e, hfirst, -⟩ := h.first
  refine ⟨h.window, (placed_before hroom h.sequence).1, h.perm, .inr h.doneCalls,
    fun _ => h.doneCalls, fun hdone => ?_, fun c hc error _ => (h.answered hc error).2⟩
  rw [h.doneCalls, hfirst] at hdone
  exact nomatch hdone

end Runs

/-- A write sends every byte once, to its own address, and calls back once. -/
theorem writeBytes_delivered (ε : Type) (address : ℕ) (data : List UInt8) {offset byteSize : ℕ}
    (hsize : 1 ≤ byteSize) (hroom : offset + byteSize ≤ data.length) :
    ∃ start, writeBytes ε address data offset (some byteSize) = .ok start ∧
      ∀ answers s, Run start answers s → Delivered address data offset byteSize answers s := by
  refine ⟨_, writeBytes_eq hroom, fun answers s hrun => ?_⟩
  rcases run_writing_or_failed hsize hrun with h | h
  · exact h.delivered hroom
  · exact h.delivered hroom

/-- Three bytes from the middle of a buffer. -/
theorem writeBytes_delivered_three :
    ∃ start, writeBytes String 16 [1, 2, 3, 4, 5] 1 (some 3) = .ok start ∧
      ∀ answers s, Run start answers s → Delivered 16 [1, 2, 3, 4, 5] 1 3 answers s :=
  writeBytes_delivered String 16 [1, 2, 3, 4, 5] (by decide) (by decide)

end WriteBytes

end Chipscopy.Client
