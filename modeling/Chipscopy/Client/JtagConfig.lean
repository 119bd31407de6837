import Chipscopy.Lib.Python
import Chipscopy.Lib.Machine

/-! Configuring a device with a file

    The file is streamed in chunks of 16 KiB while at most eight commands are pending, the end of
    the configuration follows the last chunk, and the children of the target are asked for when the
    end is confirmed. Each reply may be the first with an error. An empty file has no chunk that
    the end could follow. -/

namespace Chipscopy.Client.JtagConfig

def chunkSize : ℕ := 0x4000

/-- Commands to the server; data carries how many data commands went before it. -/
inductive Command
  | configBegin
  | configData (index : ℕ) (data : List UInt8)
  | configEnd
  | getChildren
  deriving DecidableEq, Repr

def Command.isData : Command → Bool
  | .configData _ _ => true
  | _ => false

/-- Variables of a call, the pending tokens of the node and whether it has its request. What was
    sent and how the request was completed are kept for statements only. -/
structure ConfigState (ε : Type) where
  file : List UInt8
  totalSize : ℕ
  totalSent : ℕ
  totalProgress : ℕ
  err : Option ε
  pending : List Command
  request : Bool
  dataSent : List (List UInt8)
  ends : ℕ
  completions : List (Option ε)
  raised : List Py.Error

namespace ConfigState

variable {ε : Type}

def addPending (s : ConfigState ε) (c : Command) : ConfigState ε :=
  { s with pending := s.pending ++ [c] }

def removePending (s : ConfigState ε) (c : Command) : ConfigState ε :=
  { s with pending := s.pending.erase c }

/-- `set_exception` or `set_result` of the request of the node, which is gone once it is
    complete. -/
def complete (s : ConfigState ε) : ConfigState ε :=
  if s.request then { s with completions := s.completions ++ [s.err], request := false }
  else
    let method := if s.err.isSome then "set_exception" else "set_result"
    { s with raised :=
        s.raised ++ [.attributeError s!"'NoneType' object has no attribute '{method}'"] }

/-- `config_done`. The first error is kept. -/
def configDone (s : ConfigState ε) (token : Option Command) (error : Option ε) : ConfigState ε :=
  let s := match token with
    | some c => s.removePending c
    | none => s
  { s with err := s.err <|> error }.complete

/-- One round of the loop of `send_data`. -/
def sendChunk (s : ConfigState ε) : ConfigState ε :=
  let data := s.file.take chunkSize
  let s : ConfigState ε := { s.addPending (.configData s.dataSent.length data) with
    file := s.file.drop chunkSize
    totalSent := s.totalSent + data.length
    dataSent := s.dataSent ++ [data] }
  if s.totalSent ≥ s.totalSize then { s.addPending .configEnd with ends := s.ends + 1 } else s

/-- The loop of `send_data`, at most so many rounds. -/
def sendChunks : ℕ → ConfigState ε → ConfigState ε
  | 0, s => s
  | rounds + 1, s =>
    if s.pending.length < 8 ∧ s.totalSent < s.totalSize then sendChunks rounds s.sendChunk else s

/-- `send_data`. Every round of the loop adds a token, so that there are at most eight. -/
def sendData (s : ConfigState ε) : ConfigState ε :=
  if s.err.isSome then s.configDone none s.err else s.sendChunks 8

def configStarted (s : ConfigState ε) (error : Option ε) : ConfigState ε :=
  { s.removePending .configBegin with err := error }.sendData

/-- `config_progress` for the token of a data command. -/
def configProgress (s : ConfigState ε) (c : Command) (dataSize : ℕ) (error : Option ε) :
    ConfigState ε :=
  let s := s.removePending c
  if s.err.isSome then s
  else
    match error with
    | some e => { s with err := some e }.configDone (some c) (some e)
    | none =>
      let s := { s with totalProgress := s.totalProgress + dataSize }
      if s.request then s.sendData
      else { s with raised :=
        s.raised ++ [.attributeError "'NoneType' object has no attribute 'set_progress'"] }

/-- `config_wait_for_dpc_ready`. -/
def configWaitForDpcReady (s : ConfigState ε) (error : Option ε) : ConfigState ε :=
  let s := s.removePending .configEnd
  { s with err := s.err <|> error }.addPending .getChildren

/-- The call itself, up to its return. -/
def config (ε : Type) (file : List UInt8) : ConfigState ε where
  file := file
  totalSize := file.length
  totalSent := 0
  totalProgress := 0
  err := none
  pending := [.configBegin]
  request := true
  dataSent := []
  ends := 0
  completions := []
  raised := []

/-- The reply to a pending command. -/
structure Reply (ε : Type) where
  command : Command
  error : Option ε

def step (s : ConfigState ε) (reply : Reply ε) : Option (ConfigState ε) :=
  if reply.command ∈ s.pending then
    match reply.command with
    | .configBegin => some (s.configStarted reply.error)
    | .configData _ data => some (s.configProgress reply.command data.length reply.error)
    | .configEnd => some (s.configWaitForDpcReady reply.error)
    | .getChildren => some (s.configDone (some .getChildren) reply.error)
  else none

/-! ### Runs -/

/-- The error that came first. -/
def firstError (replies : List (Reply ε)) : Option ε := (replies.filterMap (·.error)).head?

/-- What holds after any replies. -/
structure Delivered (file : List UInt8) (replies : List (Reply ε)) (s : ConfigState ε) : Prop where
  bytes : s.dataSent.flatten <+: file
  window : s.pending.countP Command.isData ≤ 8
  ends : s.ends ≤ 1 ∧ (0 < s.ends → s.dataSent.flatten = file)
  done : s.completions = [] ∨ s.completions = [firstError replies]
  finished : s.pending = [] → s.completions = [firstError replies]
  whole : s.completions = [none] → s.dataSent.flatten = file

/-- Data is not refused once the request is complete without an error. -/
def Timely (s : ConfigState ε) (reply : Reply ε) : Prop :=
  reply.command.isData = true → reply.error.isSome = true →
    s.request = true ∨ s.err.isSome = true

instance (s : ConfigState ε) (reply : Reply ε) : Decidable (s.Timely reply) :=
  inferInstanceAs (Decidable (_ → _ → _))

section Replies

variable {file : List UInt8} {replies : List (Reply ε)} {reply : Reply ε} {s s' : ConfigState ε}

theorem firstError_append_of_none (h : firstError replies = none) (reply : Reply ε) :
    firstError (replies ++ [reply]) = reply.error := by
  have hnil : replies.filterMap (·.error) = [] := List.head?_eq_none_iff.mp h
  rw [firstError, List.filterMap_append, hnil]
  rcases reply with ⟨command, _ | e⟩
  · rfl
  · rfl

theorem firstError_append_of_some {e : ε} (h : firstError replies = some e) (reply : Reply ε) :
    firstError (replies ++ [reply]) = some e := by
  rw [firstError] at h ⊢
  rw [List.filterMap_append, List.head?_append, h]
  rfl

/-- Pending commands other than data. -/
def control (s : ConfigState ε) : List Command := s.pending.filter fun c => !c.isData

theorem control_addPending (s : ConfigState ε) (c : Command) :
    (s.addPending c).control = s.control ++ if c.isData then [] else [c] := by
  rw [control, addPending, List.filter_append, ← control]
  cases hc : c.isData with
  | false => simp [hc]
  | true => simp [hc]

theorem countP_addPending (s : ConfigState ε) (c : Command) :
    (s.addPending c).pending.countP Command.isData =
      s.pending.countP Command.isData + if c.isData then 1 else 0 := by
  rw [addPending, List.countP_append, List.countP_singleton]

/-- The file is sent in order, and the end follows its last chunk. -/
structure Streamed (file : List UInt8) (s : ConfigState ε) : Prop where
  content : s.dataSent.flatten ++ s.file = file
  totalSize : s.totalSize = file.length
  totalSent : s.totalSent = s.dataSent.flatten.length
  window : s.pending.countP Command.isData ≤ 8
  ends : s.ends = if s.file = [] then 1 else 0

/-- No error so far, and the request is not complete. -/
structure Ongoing (file : List UInt8) (replies : List (Reply ε)) (s : ConfigState ε) : Prop
    extends Streamed file s where
  err : s.err = none
  request : s.request = true
  completions : s.completions = []
  noError : firstError replies = none
  phase : (s.file ≠ [] ∧ s.pending = [.configBegin]) ∨
    (s.file ≠ [] ∧ s.control = [] ∧ s.pending.length = 8) ∨
    (s.file = [] ∧ (s.control = [.configEnd] ∨ s.control = [.getChildren]))

/-- Complete without an error. -/
structure Succeeded (file : List UInt8) (replies : List (Reply ε)) (s : ConfigState ε) : Prop
    extends Streamed file s where
  err : s.err = none
  request : s.request = false
  completions : s.completions = [none]
  noError : firstError replies = none
  sent : s.file = []
  control : s.control = []

/-- The end of the configuration was refused; the children are still asked for. -/
structure Failing (file : List UInt8) (replies : List (Reply ε)) (s : ConfigState ε) : Prop
    extends Streamed file s where
  err : s.err.isSome = true
  request : s.request = true
  completions : s.completions = []
  first : firstError replies = s.err
  control : s.control = [.getChildren]

/-- Complete with the first error. -/
structure Failed (file : List UInt8) (replies : List (Reply ε)) (s : ConfigState ε) : Prop
    extends Streamed file s where
  err : s.err.isSome = true
  request : s.request = false
  completions : s.completions = [s.err]
  first : firstError replies = s.err
  begun : Command.configBegin ∉ s.pending

/-- Where a call can be. -/
def Inv (file : List UInt8) (replies : List (Reply ε)) (s : ConfigState ε) : Prop :=
  s.Ongoing file replies ∨ s.Succeeded file replies ∨ s.Failing file replies ∨
    s.Failed file replies

theorem Streamed.delivered_bytes (h : s.Streamed file) :
    s.dataSent.flatten <+: file ∧ (s.file = [] → s.dataSent.flatten = file) ∧
      s.ends ≤ 1 ∧ (0 < s.ends → s.dataSent.flatten = file) := by
  have hall : s.file = [] → s.dataSent.flatten = file := by
    intro hnil
    have hcontent := h.content
    rwa [hnil, List.append_nil] at hcontent
  refine ⟨⟨s.file, h.content⟩, hall, ?_, fun hpos => ?_⟩
  · rw [h.ends]
    split_ifs
    · exact Nat.le_refl 1
    · exact Nat.zero_le 1
  · refine hall ?_
    by_contra hne
    rw [h.ends, if_neg hne] at hpos
    exact Nat.lt_irrefl 0 hpos

theorem control_ne_nil (h : s.control ≠ []) : s.pending ≠ [] := by
  intro hnil
  refine h ?_
  rw [control, hnil]
  rfl

theorem Inv.delivered (h : s.Inv file replies) : s.Delivered file replies := by
  rcases h with h | h | h | h
  · obtain ⟨hdelivered, -, hends⟩ := h.delivered_bytes
    refine ⟨hdelivered, h.window, hends, .inl h.completions, fun hnil => ?_, fun hdone => ?_⟩
    · exfalso
      rcases h.phase with ⟨-, hbegin⟩ | ⟨-, -, hfull⟩ | ⟨-, hend | hend⟩
      · rw [hnil] at hbegin
        exact nomatch hbegin
      · rw [hnil] at hfull
        exact nomatch hfull
      · exact control_ne_nil (by rw [hend]; exact List.cons_ne_nil _ _) hnil
      · exact control_ne_nil (by rw [hend]; exact List.cons_ne_nil _ _) hnil
    · rw [h.completions] at hdone
      exact nomatch hdone
  · obtain ⟨hdelivered, hwhole, hends⟩ := h.delivered_bytes
    have hcalls : s.completions = [firstError replies] := by rw [h.completions, h.noError]
    exact ⟨hdelivered, h.window, hends, .inr hcalls, fun _ => hcalls, fun _ => hwhole h.sent⟩
  · obtain ⟨hdelivered, -, hends⟩ := h.delivered_bytes
    refine ⟨hdelivered, h.window, hends, .inl h.completions, fun hnil => ?_, fun hdone => ?_⟩
    · exact absurd hnil (control_ne_nil (by rw [h.control]; exact List.cons_ne_nil _ _))
    · rw [h.completions] at hdone
      exact nomatch hdone
  · obtain ⟨hdelivered, -, hends⟩ := h.delivered_bytes
    have hcalls : s.completions = [firstError replies] := by rw [h.completions, h.first]
    refine ⟨hdelivered, h.window, hends, .inr hcalls, fun _ => hcalls, fun hdone => ?_⟩
    have herr := h.err
    rw [h.completions] at hdone
    rw [List.singleton_inj.mp hdone] at herr
    exact nomatch herr

/-! ### Sending -/

theorem Streamed.lt_iff (h : s.Streamed file) : s.totalSent < s.totalSize ↔ s.file ≠ [] := by
  have hlen := congrArg List.length h.content
  rw [List.length_append] at hlen
  rw [h.totalSize, h.totalSent, ← List.length_pos_iff]
  omega

/-- What a round of the loop leaves as it is. -/
structure SameCall (s s' : ConfigState ε) : Prop where
  err : s'.err = s.err
  request : s'.request = s.request
  completions : s'.completions = s.completions

theorem sendChunk_spec (h : s.Streamed file) (hfile : s.file ≠ []) (hroom : s.pending.length < 8)
    (hcontrol : s.control = []) :
    s.sendChunk.Streamed file ∧ s.SameCall s.sendChunk ∧
      ((s.sendChunk.file ≠ [] ∧ s.sendChunk.control = [] ∧
          s.sendChunk.pending.length = s.pending.length + 1) ∨
        (s.sendChunk.file = [] ∧ s.sendChunk.control = [.configEnd])) := by
  let data := s.file.take chunkSize
  let s₁ : ConfigState ε := { s.addPending (.configData s.dataSent.length data) with
    file := s.file.drop chunkSize
    totalSent := s.totalSent + data.length
    dataSent := s.dataSent ++ [data] }
  have heq : s.sendChunk =
      if s₁.totalSent ≥ s₁.totalSize then { s₁.addPending .configEnd with ends := s₁.ends + 1 }
      else s₁ := rfl
  have hcontent : s₁.dataSent.flatten ++ s₁.file = file := by
    change (s.dataSent ++ [data]).flatten ++ s.file.drop chunkSize = file
    rw [List.flatten_append, List.flatten_singleton, List.append_assoc, List.take_append_drop]
    exact h.content
  have hsent : s₁.totalSent = s₁.dataSent.flatten.length := by
    change s.totalSent + data.length = (s.dataSent ++ [data]).flatten.length
    rw [List.flatten_append, List.flatten_singleton, List.length_append, h.totalSent]
  have hcontrol₁ : s₁.control = [] := by
    exact (s.control_addPending _).trans (by rw [hcontrol]; rfl)
  have hwindow : s₁.pending.countP Command.isData ≤ 8 := by
    have hle : s.pending.countP Command.isData ≤ s.pending.length := List.countP_le_length
    refine (s.countP_addPending _).trans_le ?_
    simp only [Command.isData, if_true]
    omega
  have hends : s.ends = 0 := by rw [h.ends, if_neg hfile]
  have hlen := congrArg List.length hcontent
  rw [List.length_append] at hlen
  have hdone : s₁.totalSent ≥ s₁.totalSize ↔ s₁.file = [] := by
    have hsize : s₁.totalSize = file.length := h.totalSize
    rw [hsize, hsent, ← List.length_eq_zero_iff]
    omega
  rw [heq]
  split_ifs with hfull
  · have hnil := hdone.mp hfull
    refine ⟨⟨hcontent, h.totalSize, hsent, ?_, ?_⟩, ⟨rfl, rfl, rfl⟩, .inr ⟨hnil, ?_⟩⟩
    · exact (s₁.countP_addPending .configEnd).trans_le (by simpa [Command.isData] using hwindow)
    · change s.ends + 1 = if s₁.file = [] then 1 else 0
      rw [hends, if_pos hnil]
    · exact (s₁.control_addPending .configEnd).trans (by rw [hcontrol₁]; rfl)
  · have hne : s₁.file ≠ [] := fun hnil => hfull (hdone.mpr hnil)
    refine ⟨⟨hcontent, h.totalSize, hsent, hwindow, ?_⟩, ⟨rfl, rfl, rfl⟩, .inl ⟨hne, hcontrol₁, ?_⟩⟩
    · change s.ends = if s₁.file = [] then 1 else 0
      rw [hends, if_neg hne]
    · change (s.pending ++ [_]).length = _
      rw [List.length_append, List.length_singleton]

theorem sendChunks_spec : ∀ (rounds : ℕ) {s : ConfigState ε}, s.Streamed file → s.file ≠ [] →
    s.control = [] → s.pending.length ≤ 8 → 8 ≤ s.pending.length + rounds →
    (s.sendChunks rounds).Streamed file ∧ s.SameCall (s.sendChunks rounds) ∧
      (((s.sendChunks rounds).file ≠ [] ∧ (s.sendChunks rounds).control = [] ∧
          (s.sendChunks rounds).pending.length = 8) ∨
        ((s.sendChunks rounds).file = [] ∧ (s.sendChunks rounds).control = [.configEnd]))
  | 0, s, h, hfile, hcontrol, hle, hge =>
    ⟨h, ⟨rfl, rfl, rfl⟩, .inl ⟨hfile, hcontrol, Nat.le_antisymm hle hge⟩⟩
  | rounds + 1, s, h, hfile, hcontrol, hle, hge => by
    rw [sendChunks]
    split_ifs with hmore
    · obtain ⟨hstreamed, hsame, hnext⟩ := sendChunk_spec h hfile hmore.1 hcontrol
      rcases hnext with ⟨hfile', hcontrol', hlen⟩ | ⟨hnil, hend⟩
      · obtain ⟨hstreamed', hsame', hphase⟩ := sendChunks_spec rounds hstreamed hfile' hcontrol'
          (by omega) (by omega)
        exact ⟨hstreamed', ⟨hsame'.err.trans hsame.err, hsame'.request.trans hsame.request,
          hsame'.completions.trans hsame.completions⟩, hphase⟩
      · have hstop : s.sendChunk.sendChunks rounds = s.sendChunk := by
          cases rounds with
          | zero => rfl
          | succ rounds =>
            rw [sendChunks, if_neg]
            exact fun hlt => hstreamed.lt_iff.mp hlt.2 hnil
        rw [hstop]
        exact ⟨hstreamed, hsame, .inr ⟨hnil, hend⟩⟩
    · have hfull : s.pending.length = 8 := by
        by_contra hne
        exact hmore ⟨by omega, h.lt_iff.mpr hfile⟩
      exact ⟨h, ⟨rfl, rfl, rfl⟩, .inl ⟨hfile, hcontrol, hfull⟩⟩

/-- Without an error data is sent until eight commands are pending or the end is. -/
theorem Ongoing.sendData (h : s.Streamed file) (herr : s.err = none) (hrequest : s.request = true)
    (hcompletions : s.completions = []) (hnone : firstError replies = none)
    (hlen : s.pending.length ≤ 8 ∨ s.file = [])
    (hcontrol : (s.file ≠ [] ∧ s.control = []) ∨
      (s.file = [] ∧ (s.control = [.configEnd] ∨ s.control = [.getChildren]))) :
    s.sendData.Ongoing file replies := by
  have heq : s.sendData = s.sendChunks 8 := by
    rw [ConfigState.sendData, herr]
    rfl
  rw [heq]
  rcases hcontrol with ⟨hfile, hcontrol⟩ | ⟨hnil, hcontrol⟩
  · obtain ⟨hstreamed, hsame, hphase⟩ := sendChunks_spec 8 h hfile hcontrol
      (hlen.resolve_right hfile) (Nat.le_add_left 8 _)
    refine ⟨hstreamed, hsame.err.trans herr, hsame.request.trans hrequest,
      hsame.completions.trans hcompletions, hnone, .inr ?_⟩
    rcases hphase with hphase | ⟨hnil, hend⟩
    · exact .inl hphase
    · exact .inr ⟨hnil, .inl hend⟩
  · have hstop : s.sendChunks 8 = s := by
      rw [sendChunks, if_neg]
      exact fun hlt => h.lt_iff.mp hlt.2 hnil
    rw [hstop]
    exact ⟨h, herr, hrequest, hcompletions, hnone, .inr (.inr ⟨hnil, hcontrol⟩)⟩

/-! ### One reply -/

theorem control_removePending (s : ConfigState ε) (c : Command) :
    (s.removePending c).control = s.control.erase c := List.erase_filter.symm

theorem mem_control {c : Command} : c ∈ s.control ↔ c ∈ s.pending ∧ c.isData = false := by
  rw [control, List.mem_filter, Bool.not_eq_true']

theorem Streamed.removePending (h : s.Streamed file) (c : Command) :
    (s.removePending c).Streamed file :=
  ⟨h.content, h.totalSize, h.totalSent,
    (List.erase_sublist.countP_le).trans h.window, h.ends⟩

theorem Streamed.addPending (h : s.Streamed file) {c : Command} (hc : c.isData = false) :
    (s.addPending c).Streamed file := by
  refine ⟨h.content, h.totalSize, h.totalSent, ?_, h.ends⟩
  rw [countP_addPending, hc]
  exact h.window

theorem control_removeData {c : Command} (hc : c.isData = true) :
    (s.removePending c).control = s.control := by
  rw [control_removePending]
  refine List.erase_of_not_mem fun hmem => ?_
  rw [(mem_control.mp hmem).2] at hc
  exact nomatch hc

theorem step_eq (hmem : reply.command ∈ s.pending) :
    s.step reply = match reply.command with
      | .configBegin => some (s.configStarted reply.error)
      | .configData _ data => some (s.configProgress reply.command data.length reply.error)
      | .configEnd => some (s.configWaitForDpcReady reply.error)
      | .getChildren => some (s.configDone (some .getChildren) reply.error) := if_pos hmem

theorem mem_of_step (h : s.step reply = some s') : reply.command ∈ s.pending := by
  by_contra hmem
  rw [step, if_neg hmem] at h
  exact nomatch h

theorem complete_eq (h : s.request = true) :
    s.complete = { s with completions := s.completions ++ [s.err], request := false } := if_pos h

theorem configDone_eq (h : s.request = true) {c : Command} {error err : Option ε}
    (herr : (s.err <|> error) = err) :
    s.configDone (some c) error = { s.removePending c with
      err := err, completions := s.completions ++ [err], request := false } := by
  subst herr
  exact complete_eq (s := { s.removePending c with err := s.err <|> error }) h

/-- The first error completes the request. -/
theorem failed_of_first (h : s.Streamed file) (hcompletions : s.completions = []) {e : ε}
    (hfirst : firstError replies = some e) (hbegun : Command.configBegin ∉ s.pending) :
    Failed file replies
      { s with err := some e, completions := s.completions ++ [some e], request := false } := by
  refine ⟨⟨h.content, h.totalSize, h.totalSent, h.window, h.ends⟩, rfl, rfl, ?_, hfirst, hbegun⟩
  rw [hcompletions]
  rfl

/-- Before the begin is confirmed nothing else is pending. -/
theorem Ongoing.pending_begin (h : s.Ongoing file replies) (hmem : Command.configBegin ∈ s.pending) :
    s.file ≠ [] ∧ s.pending = [.configBegin] := by
  have hcontrol : Command.configBegin ∈ s.control := mem_control.mpr ⟨hmem, rfl⟩
  rcases h.phase with hphase | ⟨-, hnil, -⟩ | ⟨-, hend | hend⟩
  · exact hphase
  · rw [hnil] at hcontrol
    exact nomatch hcontrol
  · rw [hend] at hcontrol
    simp at hcontrol
  · rw [hend] at hcontrol
    simp at hcontrol

theorem Ongoing.configStarted (h : s.Ongoing file replies)
    (hmem : Command.configBegin ∈ s.pending) (error : Option ε) :
    (s.configStarted error).Inv file (replies ++ [⟨.configBegin, error⟩]) := by
  obtain ⟨hfile, hpending⟩ := h.pending_begin hmem
  have hnil : (s.removePending .configBegin).pending = [] := by simp [removePending, hpending]
  have hfirst := firstError_append_of_none h.noError ⟨.configBegin, error⟩
  have hstreamed := h.removePending .configBegin
  cases error with
  | none =>
    left
    refine Ongoing.sendData
      ⟨hstreamed.content, hstreamed.totalSize, hstreamed.totalSent, hstreamed.window,
        hstreamed.ends⟩ rfl h.request h.completions hfirst (.inl ?_) (.inl ⟨hfile, ?_⟩)
    · change (s.removePending .configBegin).pending.length ≤ 8
      simp [hnil]
    · change (s.removePending .configBegin).pending.filter _ = []
      rw [hnil]
      rfl
  | some e =>
    right; right; right
    have heq : s.configStarted (some e) = { s.removePending .configBegin with
        err := some e, completions := s.completions ++ [some e], request := false } := by
      exact complete_eq (s := { s.removePending .configBegin with err := some e }) h.request
    rw [heq]
    refine failed_of_first (s := s.removePending .configBegin) hstreamed h.completions hfirst ?_
    rw [hnil]
    exact List.not_mem_nil

/-- A confirmation of data. -/
theorem Ongoing.configProgress (h : s.Ongoing file replies) {c : Command} (hc : c.isData = true)
    (hmem : c ∈ s.pending) (dataSize : ℕ) (error : Option ε) :
    (s.configProgress c dataSize error).Inv file (replies ++ [⟨c, error⟩]) := by
  have hfirst := firstError_append_of_none h.noError ⟨c, error⟩
  have hstreamed := h.removePending c
  have hcontrol := s.control_removeData hc
  have hbegun : Command.configBegin ∉ s.pending := by
    intro hbegin
    have hpending := (h.pending_begin hbegin).2
    rw [hpending] at hmem
    rw [List.mem_singleton.mp hmem] at hc
    exact nomatch hc
  have herr : (s.removePending c).err.isSome = false := by
    change s.err.isSome = false
    rw [h.err]
    rfl
  have hrequest : (s.removePending c).request = true := h.request
  cases error with
  | none =>
    left
    have heq : s.configProgress c dataSize none =
        { s.removePending c with totalProgress := s.totalProgress + dataSize }.sendData := by
      rw [ConfigState.configProgress]
      dsimp only
      rw [if_neg (by rw [herr]; exact Bool.false_ne_true), if_pos hrequest]
      rfl
    rw [heq]
    refine Ongoing.sendData ⟨hstreamed.content, hstreamed.totalSize, hstreamed.totalSent,
      hstreamed.window, hstreamed.ends⟩ h.err h.request h.completions hfirst ?_ ?_
    · rcases h.phase with ⟨-, hpending⟩ | ⟨-, -, hfull⟩ | ⟨hnil, -⟩
      · exact absurd (hpending ▸ List.mem_cons_self) hbegun
      · left
        exact List.length_erase_le.trans hfull.le
      · exact .inr hnil
    · change (s.file ≠ [] ∧ (s.removePending c).control = []) ∨ (s.file = [] ∧
        ((s.removePending c).control = _ ∨ (s.removePending c).control = _))
      rw [hcontrol]
      rcases h.phase with ⟨-, hpending⟩ | ⟨hfile, hnil, -⟩ | hend
      · exact absurd (hpending ▸ List.mem_cons_self) hbegun
      · exact .inl ⟨hfile, hnil⟩
      · exact .inr hend
  | some e =>
    right; right; right
    have heq : s.configProgress c dataSize (some e) = { (s.removePending c).removePending c with
        err := some e, completions := s.completions ++ [some e], request := false } := by
      rw [ConfigState.configProgress]
      dsimp only
      rw [if_neg (by rw [herr]; exact Bool.false_ne_true)]
      exact complete_eq (s := { (s.removePending c).removePending c with err := some e }) h.request
    rw [heq]
    refine failed_of_first (s := (s.removePending c).removePending c) (hstreamed.removePending c)
      h.completions hfirst ?_
    exact fun hbegin => hbegun (List.mem_of_mem_erase (List.mem_of_mem_erase hbegin))

/-- With only one control command pending, the commands that remain after it. -/
theorem control_remove_single {c : Command} (h : s.control = [c]) :
    (s.removePending c).control = [] := by
  rw [control_removePending, h, List.erase_cons_head]

theorem Ongoing.control_of_mem (h : s.Ongoing file replies) {c : Command} (hc : c.isData = false)
    (hbegin : c ≠ .configBegin) (hmem : c ∈ s.pending) : s.file = [] ∧ s.control = [c] := by
  have hcontrol : c ∈ s.control := mem_control.mpr ⟨hmem, hc⟩
  rcases h.phase with ⟨-, hpending⟩ | ⟨-, hnil, -⟩ | ⟨hnil, hend | hend⟩
  · rw [hpending] at hmem
    exact absurd (List.mem_singleton.mp hmem) hbegin
  · rw [hnil] at hcontrol
    exact nomatch hcontrol
  · rw [hend] at hcontrol
    exact ⟨hnil, List.mem_singleton.mp hcontrol ▸ hend⟩
  · rw [hend] at hcontrol
    exact ⟨hnil, List.mem_singleton.mp hcontrol ▸ hend⟩

/-- The confirmation of the end. -/
theorem Ongoing.configWaitForDpcReady (h : s.Ongoing file replies)
    (hmem : Command.configEnd ∈ s.pending) (error : Option ε) :
    (s.configWaitForDpcReady error).Inv file (replies ++ [⟨.configEnd, error⟩]) := by
  obtain ⟨hnil, hcontrol⟩ := h.control_of_mem rfl (by decide) hmem
  have hfirst := firstError_append_of_none h.noError ⟨.configEnd, error⟩
  have hstreamed := (h.removePending .configEnd).addPending (c := .getChildren) rfl
  have hchildren : ((s.removePending .configEnd).addPending .getChildren).control =
      [.getChildren] := by
    rw [control_addPending, control_remove_single hcontrol]
    rfl
  have herr : (s.configWaitForDpcReady error).err = error := by
    change (s.err <|> error) = error
    rw [h.err]
    rfl
  have hall : (s.configWaitForDpcReady error).Streamed file :=
    ⟨hstreamed.content, hstreamed.totalSize, hstreamed.totalSent, hstreamed.window,
      hstreamed.ends⟩
  cases error with
  | none =>
    left
    exact ⟨hall, herr, h.request, h.completions, hfirst, .inr (.inr ⟨hnil, .inr hchildren⟩)⟩
  | some e =>
    right; right; left
    exact ⟨hall, by rw [herr]; rfl, h.request, h.completions, hfirst.trans herr.symm, hchildren⟩

/-- The children of the target, the last reply of a call without errors. -/
theorem Ongoing.configDone (h : s.Ongoing file replies)
    (hmem : Command.getChildren ∈ s.pending) (error : Option ε) :
    (s.configDone (some .getChildren) error).Inv file (replies ++ [⟨.getChildren, error⟩]) := by
  obtain ⟨hnil, hcontrol⟩ := h.control_of_mem rfl (by decide) hmem
  have hfirst := firstError_append_of_none h.noError ⟨.getChildren, error⟩
  have hstreamed := h.removePending .getChildren
  have heq := configDone_eq (c := .getChildren) h.request
    (show (s.err <|> error) = error by rw [h.err]; rfl)
  rw [heq]
  cases error with
  | none =>
    right; left
    refine ⟨⟨hstreamed.content, hstreamed.totalSize, hstreamed.totalSent, hstreamed.window,
      hstreamed.ends⟩, rfl, rfl, ?_, hfirst, hnil, control_remove_single hcontrol⟩
    change s.completions ++ [none] = [none]
    rw [h.completions]
    rfl
  | some e =>
    right; right; right
    refine failed_of_first (s := s.removePending .getChildren) hstreamed h.completions hfirst ?_
    intro hbegin
    have hpending := (h.pending_begin (List.mem_of_mem_erase hbegin)).2
    rw [hpending] at hmem
    exact nomatch List.mem_singleton.mp hmem

/-! ### Replies after an error or the end -/

theorem Succeeded.isData (h : s.Succeeded file replies) {c : Command} (hmem : c ∈ s.pending) :
    c.isData = true := by
  by_contra hc
  have hcontrol := mem_control.mpr ⟨hmem, eq_false_of_ne_true hc⟩
  rw [h.control] at hcontrol
  exact nomatch hcontrol

/-- A late confirmation of data finds no request to report its progress to. -/
theorem Succeeded.configProgress (h : s.Succeeded file replies) {c : Command}
    (hc : c.isData = true) (dataSize : ℕ) :
    (s.configProgress c dataSize none).Succeeded file (replies ++ [⟨c, none⟩]) := by
  have hstreamed := h.removePending c
  have heq : s.configProgress c dataSize none = { s.removePending c with
      totalProgress := s.totalProgress + dataSize
      raised := s.raised ++
        [.attributeError "'NoneType' object has no attribute 'set_progress'"] } := by
    have herr : (s.removePending c).err = none := h.err
    have hrequest : (s.removePending c).request = false := h.request
    rw [ConfigState.configProgress]
    dsimp only
    rw [herr, hrequest]
    rfl
  rw [heq]
  exact ⟨⟨hstreamed.content, hstreamed.totalSize, hstreamed.totalSent, hstreamed.window,
    hstreamed.ends⟩, h.err, h.request, h.completions,
    firstError_append_of_none h.noError _, h.sent, (s.control_removeData hc).trans h.control⟩

/-- No later error is the first. -/
theorem firstError_append_of_isSome {err : Option ε} (h : firstError replies = err)
    (herr : err.isSome = true) (reply : Reply ε) : firstError (replies ++ [reply]) = err := by
  obtain ⟨e, rfl⟩ := Option.isSome_iff_exists.mp herr
  exact firstError_append_of_some h reply

theorem Failed.later (h : s.Failed file replies) (reply : Reply ε) :
    s.Failed file (replies ++ [reply]) :=
  ⟨h.toStreamed, h.err, h.request, h.completions,
    firstError_append_of_isSome h.first h.err reply, h.begun⟩

theorem Failed.removePending (h : s.Failed file replies) (c : Command) :
    (s.removePending c).Failed file replies :=
  ⟨h.toStreamed.removePending c, h.err, h.request, h.completions, h.first,
    fun hbegin => h.begun (List.mem_of_mem_erase hbegin)⟩

theorem or_of_isSome {a b : Option ε} (h : a.isSome = true) : (a <|> b) = a := by
  cases a with
  | none => exact nomatch h
  | some e => rfl

theorem configProgress_of_isSome (h : s.err.isSome = true) (c : Command) (dataSize : ℕ)
    (error : Option ε) : s.configProgress c dataSize error = s.removePending c := if_pos h

theorem Failed.configWaitForDpcReady (h : s.Failed file replies) (error : Option ε) :
    (s.configWaitForDpcReady error).Failed file replies := by
  have hstreamed := (h.toStreamed.removePending .configEnd).addPending (c := .getChildren) rfl
  have heq : s.configWaitForDpcReady error =
      (s.removePending .configEnd).addPending .getChildren := by
    rw [ConfigState.configWaitForDpcReady, or_of_isSome (a := (s.removePending .configEnd).err) h.err]
  rw [heq]
  refine ⟨hstreamed, h.err, h.request, h.completions, h.first, ?_⟩
  intro hbegin
  rcases List.mem_append.mp hbegin with hold | hnew
  · exact h.begun (List.mem_of_mem_erase hold)
  · exact nomatch List.mem_singleton.mp hnew

theorem Failed.configDone (h : s.Failed file replies) (error : Option ε) :
    (s.configDone (some .getChildren) error).Failed file replies := by
  have hrest := h.removePending .getChildren
  rw [ConfigState.configDone, or_of_isSome hrest.err, complete,
    if_neg (by rw [hrest.request]; exact Bool.false_ne_true)]
  exact ⟨⟨hrest.content, hrest.totalSize, hrest.totalSent, hrest.window, hrest.ends⟩, hrest.err,
    hrest.request, hrest.completions, hrest.first, hrest.begun⟩

theorem Failing.mem_cases (h : s.Failing file replies) {c : Command} (hmem : c ∈ s.pending) :
    c.isData = true ∨ c = .getChildren := by
  rcases hc : c.isData with - | -
  · right
    have hcontrol := mem_control.mpr ⟨hmem, hc⟩
    rw [h.control] at hcontrol
    exact List.mem_singleton.mp hcontrol
  · exact .inl rfl

theorem Failing.removeData (h : s.Failing file replies) {c : Command} (hc : c.isData = true)
    (error : Option ε) : (s.removePending c).Failing file (replies ++ [⟨c, error⟩]) :=
  ⟨h.toStreamed.removePending c, h.err, h.request, h.completions,
    firstError_append_of_isSome h.first h.err _, (s.control_removeData hc).trans h.control⟩

/-- A refused end is reported with the children. -/
theorem Failing.configDone (h : s.Failing file replies) (error : Option ε) :
    (s.configDone (some .getChildren) error).Failed file
      (replies ++ [⟨.getChildren, error⟩]) := by
  obtain ⟨e, he⟩ := Option.isSome_iff_exists.mp h.err
  have hfirst := firstError_append_of_some (h.first.trans he) ⟨.getChildren, error⟩
  have heq := configDone_eq (c := .getChildren) h.request
    (show (s.err <|> error) = some e by rw [he]; rfl)
  rw [heq]
  refine failed_of_first (s := s.removePending .getChildren) (h.toStreamed.removePending _)
    h.completions hfirst ?_
  intro hbegin
  have hcontrol : Command.configBegin ∈ s.control :=
    mem_control.mpr ⟨List.mem_of_mem_erase hbegin, rfl⟩
  rw [h.control] at hcontrol
  exact nomatch List.mem_singleton.mp hcontrol

theorem Succeeded.step (h : s.Succeeded file replies) (htimely : s.Timely reply)
    (hstep : s.step reply = some s') : s'.Inv file (replies ++ [reply]) := by
  have hmem := mem_of_step hstep
  have hdata := h.isData hmem
  rw [step_eq hmem] at hstep
  rcases reply with ⟨c, error⟩
  cases c with
  | configData index data =>
    obtain rfl := Option.some.inj hstep
    cases error with
    | none => exact .inr (.inl (h.configProgress rfl _))
    | some e =>
      exfalso
      rcases htimely rfl rfl with hrequest | herr
      · rw [h.request] at hrequest
        exact nomatch hrequest
      · rw [h.err] at herr
        exact nomatch herr
  | configBegin => exact nomatch hdata
  | configEnd => exact nomatch hdata
  | getChildren => exact nomatch hdata

theorem Failed.step (h : s.Failed file replies) (hstep : s.step reply = some s') :
    s'.Failed file (replies ++ [reply]) := by
  have hmem := mem_of_step hstep
  rw [step_eq hmem] at hstep
  rcases reply with ⟨c, error⟩
  cases c with
  | configBegin => exact absurd hmem h.begun
  | configData index data =>
    obtain rfl := Option.some.inj hstep
    dsimp only
    rw [configProgress_of_isSome h.err]
    exact (h.later _).removePending _
  | configEnd =>
    obtain rfl := Option.some.inj hstep
    exact (h.later _).configWaitForDpcReady error
  | getChildren =>
    obtain rfl := Option.some.inj hstep
    exact (h.later _).configDone error

/-- One reply. -/
theorem Inv.step (h : s.Inv file replies) (htimely : s.Timely reply)
    (hstep : s.step reply = some s') : s'.Inv file (replies ++ [reply]) := by
  have hmem := mem_of_step hstep
  rcases h with h | h | h | h
  · rw [step_eq hmem] at hstep
    rcases reply with ⟨c, error⟩
    cases c with
    | configBegin =>
      obtain rfl := Option.some.inj hstep
      exact h.configStarted hmem error
    | configData index data =>
      obtain rfl := Option.some.inj hstep
      exact h.configProgress rfl hmem _ error
    | configEnd =>
      obtain rfl := Option.some.inj hstep
      exact h.configWaitForDpcReady hmem error
    | getChildren =>
      obtain rfl := Option.some.inj hstep
      exact h.configDone hmem error
  · exact h.step htimely hstep
  · rw [step_eq hmem] at hstep
    rcases reply with ⟨c, error⟩
    rcases h.mem_cases hmem with hdata | hchildren
    · cases c with
      | configData index data =>
        obtain rfl := Option.some.inj hstep
        dsimp only
        rw [configProgress_of_isSome h.err]
        exact .inr (.inr (.inl (h.removeData rfl error)))
      | configBegin => exact nomatch hdata
      | configEnd => exact nomatch hdata
      | getChildren => exact nomatch hdata
    · obtain rfl : c = .getChildren := hchildren
      obtain rfl := Option.some.inj hstep
      exact .inr (.inr (.inr (h.configDone error)))
  · exact .inr (.inr (.inr (h.step hstep)))

theorem inv_config (hfile : file ≠ []) : (config ε file).Inv file [] :=
  .inl ⟨⟨rfl, rfl, rfl, Nat.zero_le 8, (if_neg hfile).symm⟩, rfl, rfl, rfl, rfl, .inl ⟨hfile, rfl⟩⟩

end Replies

/-- A file with a byte, and no data that is refused after the call has succeeded. -/
theorem config_delivered (file : List UInt8) (hfile : file ≠ []) (replies : List (Reply ε))
    (hreplies : Machine.EachStep step Timely (config ε file) replies) {s : ConfigState ε}
    (hrun : Machine.runTo step (config ε file) replies = some s) : s.Delivered file replies := by
  have hinv := Machine.runTo_history (I := fun replies s => s.Inv file replies)
    (fun h hC hstep => h.step hC hstep) replies (inv_config hfile) hreplies hrun
  exact hinv.delivered

/-- The end is refused before the data is confirmed. -/
def refusedEnd : List (Reply String) :=
  [⟨.configBegin, none⟩, ⟨.configEnd, some "busy"⟩, ⟨.configData 0 [1, 2, 3], none⟩,
    ⟨.getChildren, none⟩]

theorem config_delivered_refusedEnd :
    ∃ s, Machine.runTo step (config String [1, 2, 3]) refusedEnd = some s ∧
      s.Delivered [1, 2, 3] refusedEnd :=
  ⟨_, rfl, config_delivered [1, 2, 3] (by decide) refusedEnd (by decide) rfl⟩

/-- No reply completes the request for an empty file. -/
theorem not_config_delivered_empty :
    ∃ s, Machine.runTo step (config String []) [⟨.configBegin, none⟩] = some s ∧
      ¬ s.Delivered [] [⟨.configBegin, none⟩] :=
  ⟨_, rfl, fun h => nomatch h.finished rfl⟩

end ConfigState

end Chipscopy.Client.JtagConfig
