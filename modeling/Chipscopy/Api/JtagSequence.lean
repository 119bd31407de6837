import Chipscopy.Lib.Bytes
import Chipscopy.Lib.Frames

/-! Framing of a JTAG sequence

    A sequence is a list of commands and one buffer with the data of all its shifts, so that the
    server finds the data of a shift only by the sizes of the shifts before it. A shift of a
    constant has no data there and says so with an option. The reply is one buffer as well. -/

namespace Chipscopy.Api.Jtag

open Bits

inductive JtagState
  | reset | idle
  | drSelect | drCapture | drShift | drExit1 | drPause | drExit2 | drUpdate
  | irSelect | irCapture | irShift | irExit1 | irPause | irExit2 | irUpdate
  deriving DecidableEq, Repr

/-- Data to shift. -/
inductive Data
  | int (n : ℤ)
  | buffer (bytes : List UInt8)
  deriving DecidableEq, Repr

structure JtagPadding where
  size : ℕ
  value : Data
  deriving DecidableEq, Repr

/-- `value` is there when no data is, and then holds `tdi`. -/
structure ShiftOptions where
  state : Option JtagState
  value : Option (Option ℤ)
  deriving DecidableEq, Repr

inductive Command
  | shift (shiftType : Char) (capture : Bool) (size : ℕ) (options : ShiftOptions)
  | state (state : JtagState) (count : ℕ)
  deriving DecidableEq, Repr

/-- The paddings in force. -/
structure Paddings where
  irPrefix : JtagPadding := ⟨0, .int 0⟩
  irPostfix : JtagPadding := ⟨0, .int 0⟩
  drPrefix : JtagPadding := ⟨0, .int 0⟩
  drPostfix : JtagPadding := ⟨0, .int 0⟩
  deriving DecidableEq, Repr

structure JtagSequence extends Paddings where
  commands : List Command := []
  data : List UInt8 := []
  deriving DecidableEq, Repr

/-- Arguments of `ir_shift` and `dr_shift`. -/
structure ShiftArgs where
  data : Option Data := none
  tdi : Option ℤ := none
  size : ℕ
  capture : Bool := true
  endState : Option JtagState := some .reset
  deriving DecidableEq, Repr

/-- Arguments of `shift`. -/
structure Shift extends ShiftArgs where
  shiftType : String := "dr"
  deriving DecidableEq, Repr

/-- Shift of a padding, which is not captured. -/
def paddingShift (shiftType : String) (padding : JtagPadding) (endState : Option JtagState) :
    Shift where
  shiftType := shiftType
  data := some padding.value
  size := padding.size
  capture := false
  endState := endState

/-- `-(size // -8)`. -/
def ceilBytes (size : ℕ) : ℕ := (-((size : ℤ).fdiv (-8))).toNat

namespace JtagSequence

def clear (s : JtagSequence) : JtagSequence := { s with commands := [], data := [] }

variable (byteorder : ByteOrder)

/-- The sequence is as it was when `shift` raises. -/
def shift (a : Shift) (s : JtagSequence) : Except Py.Error JtagSequence :=
  if a.data.isSome ∧ a.tdi.isSome then
    .error (.valueError "Cannot use data and tdi shift arguments simultaneously.")
  else if a.shiftType ≠ "dr" ∧ a.shiftType ≠ "ir" then
    .error (.valueError "Valid shift_type values are \"ir\" and \"dr\".")
  else
    let command (value : Option (Option ℤ)) : Command :=
      .shift a.shiftType.front a.capture a.size { state := a.endState, value := value }
    match a.data with
    | some (.buffer bytes) => .ok { s with
        data := s.data ++ bytes.take (ceilBytes a.size)
        commands := s.commands ++ [command none] }
    | some (.int n) => do
      let truncatedData := n.land ((1 : ℤ) <<< a.size - 1)
      let bytes ← toBytes truncatedData.toNat (ceilBytes a.size) byteorder
      .ok { s with data := s.data ++ bytes, commands := s.commands ++ [command none] }
    | none => .ok { s with commands := s.commands ++ [command (some a.tdi)] }

/-- The sequence after a call, and what the call raised. -/
abbrev Outcome := JtagSequence × Option Py.Error

/-- The next statement of a method. -/
def next (o : Outcome) (f : JtagSequence → Except Py.Error JtagSequence) : Outcome :=
  match o with
  | (s, some e) => (s, some e)
  | (s, none) =>
    match f s with
    | .ok s' => (s', none)
    | .error e => (s, some e)

/-- `ir_shift` and `dr_shift`: a shift between its paddings. -/
def paddedShift (shiftType : String) (shiftState : JtagState) (pre post : JtagPadding)
    (a : ShiftArgs) (s : JtagSequence) : Outcome :=
  let o : Outcome := (s, none)
  let o := if pre.size ≠ 0 then
      next o (shift byteorder (paddingShift shiftType pre (some shiftState)))
    else o
  let o := next o (shift byteorder { a with
    shiftType := shiftType
    endState := if post.size ≠ 0 then some shiftState else a.endState })
  if post.size ≠ 0 then next o (shift byteorder (paddingShift shiftType post a.endState)) else o

def irShift (a : ShiftArgs) (s : JtagSequence) : Outcome :=
  paddedShift byteorder "ir" .irShift s.irPrefix s.irPostfix a s

def drShift (a : ShiftArgs) (s : JtagSequence) : Outcome :=
  paddedShift byteorder "dr" .drShift s.drPrefix s.drPostfix a s

def setState (state : JtagState) (count : ℕ) (s : JtagSequence) : JtagSequence :=
  { s with commands := s.commands ++ [.state state count] }

/-- `run`, where `sequence` has the commands carried out and answers with the captured bytes. -/
def run (sequence : List Command → List UInt8 → List UInt8) (s : JtagSequence) :
    List (List UInt8) :=
  let seqResult := sequence s.commands s.data
  (s.commands.foldl (fun (result, index) command =>
    match command with
    | .shift _ true size _ =>
      let sizeInBytes := ceilBytes size
      (result ++ [Py.segment seqResult index (index + sizeInBytes)], index + sizeInBytes)
    | _ => (result, index)) ([], 0)).1

end JtagSequence

/-- Calls of the methods that change a sequence. -/
inductive Call
  | setIrPrefix (padding : JtagPadding)
  | setIrPostfix (padding : JtagPadding)
  | setDrPrefix (padding : JtagPadding)
  | setDrPostfix (padding : JtagPadding)
  | shift (a : Shift)
  | irShift (a : ShiftArgs)
  | drShift (a : ShiftArgs)
  | setState (state : JtagState) (count : ℕ)
  deriving DecidableEq, Repr

def Call.perform (byteorder : ByteOrder) (s : JtagSequence) : Call → JtagSequence.Outcome
  | .setIrPrefix padding => ({ s with irPrefix := padding }, none)
  | .setIrPostfix padding => ({ s with irPostfix := padding }, none)
  | .setDrPrefix padding => ({ s with drPrefix := padding }, none)
  | .setDrPostfix padding => ({ s with drPostfix := padding }, none)
  | .shift a => JtagSequence.next (s, none) (JtagSequence.shift byteorder a)
  | .irShift a => s.irShift byteorder a
  | .drShift a => s.drShift byteorder a
  | .setState state count => (s.setState state count, none)

/-- A sequence after some calls, of which some may have raised. -/
def performAll (byteorder : ByteOrder) (calls : List Call) (s : JtagSequence) : JtagSequence :=
  calls.foldl (fun s call => (call.perform byteorder s).1) s

/-! ### What the calls ask for -/

/-- `shift` does not raise. -/
def Shift.accepted (a : Shift) : Bool :=
  !(a.data.isSome && a.tdi.isSome) && (a.shiftType == "dr" || a.shiftType == "ir")

/-- A shift between its paddings. -/
def padded (shiftType : String) (shiftState : JtagState) (pre post : JtagPadding)
    (a : ShiftArgs) : List Shift :=
  (if pre.size ≠ 0 then [paddingShift shiftType pre (some shiftState)] else []) ++
    { a with
      shiftType := shiftType
      endState := if post.size ≠ 0 then some shiftState else a.endState } ::
      if post.size ≠ 0 then [paddingShift shiftType post a.endState] else []

/-- Shifts that a call asks for. -/
def Call.shifts (p : Paddings) : Call → List Shift
  | .shift a => [a]
  | .irShift a => padded "ir" .irShift p.irPrefix p.irPostfix a
  | .drShift a => padded "dr" .drShift p.drPrefix p.drPostfix a
  | _ => []

/-- Paddings after a call. -/
def Call.paddings (p : Paddings) : Call → Paddings
  | .setIrPrefix padding => { p with irPrefix := padding }
  | .setIrPostfix padding => { p with irPostfix := padding }
  | .setDrPrefix padding => { p with drPrefix := padding }
  | .setDrPostfix padding => { p with drPostfix := padding }
  | _ => p

/-- Commands of a call other than its shifts. -/
def Call.states : Call → List Command
  | .setState state count => [.state state count]
  | _ => []

/-- Shifts of all calls, in order; a call that raises stops at the shift that is not accepted. -/
def shiftsOf : Paddings → List Call → List Shift
  | _, [] => []
  | p, call :: calls =>
    (call.shifts p).takeWhile Shift.accepted ++ shiftsOf (call.paddings p) calls

/-- A buffer has a byte for every eight bits. -/
def Shift.LongEnough (a : Shift) : Prop :=
  ∀ bytes, a.data = some (.buffer bytes) → ceilBytes a.size ≤ bytes.length

/-- Bytes of data that a command stands for, if it has no value. -/
def Command.dataBytes? : Command → Option ℕ
  | .shift _ _ size ⟨_, none⟩ => some (ceilBytes size)
  | _ => none

def Command.captures : Command → Bool
  | .shift _ capture _ _ => capture
  | .state _ _ => false

/-- Bytes that a command captures. -/
def Command.captureBytes? : Command → Option ℕ
  | .shift _ capture size _ => if capture then some (ceilBytes size) else none
  | .state _ _ => none

def Command.endState? : Command → Option JtagState
  | .shift _ _ _ options => options.state
  | .state _ _ => none

/-- Size and data of a shift that has data. -/
def Shift.data? (a : Shift) : Option (ℕ × Data) := a.data.map (a.size, ·)

/-- Bytes that a shift captures. -/
def Shift.captureBytes? (a : Shift) : Option ℕ := if a.capture then some (ceilBytes a.size) else none

/-- Bytes that stand for the data of a shift. -/
def Recovers : ℕ × Data → List UInt8 → Prop
  | (size, .int n), bytes => bytes.length = ceilBytes size ∧ (fromBytes bytes : ℤ) = n % 2 ^ size
  | (size, .buffer buffer), bytes => bytes.length = ceilBytes size ∧ bytes <+: buffer

/-- One shift between at most one before and one after it. -/
def PaddedRun (shiftType : Char) (shiftState : JtagState) (pre post : JtagPadding) (a : ShiftArgs)
    (run : List Command) : Prop :=
  ∃ before main after, run = before ++ main :: after ∧
    before.length = (if pre.size ≠ 0 then 1 else 0) ∧
    after.length = (if post.size ≠ 0 then 1 else 0) ∧
    (∀ c ∈ run, ∃ capture size options, c = .shift shiftType capture size options) ∧
    (∀ c ∈ before ++ after, c.captures = false) ∧ main.captures = a.capture ∧
    (∀ c ∈ run.dropLast, c.endState? = some shiftState) ∧
    ∀ c ∈ run.getLast?, c.endState? = a.endState

/-- The streams of a sequence fit together. -/
structure Framed (shifts : List Shift) (s : JtagSequence) : Prop where
  data : ∃ pieces, Frames.cut (s.commands.filterMap Command.dataBytes?) s.data = (pieces, []) ∧
    List.Forall₂ Recovers (shifts.filterMap Shift.data?) pieces
  run : ∀ sequence, (s.run sequence).length = (shifts.filterMap Shift.captureBytes?).length ∧
    (s.run sequence).flatten = (sequence s.commands s.data).take
      (shifts.filterMap Shift.captureBytes?).sum ∧
    ((shifts.filterMap Shift.captureBytes?).sum ≤ (sequence s.commands s.data).length →
      (s.run sequence).map List.length = shifts.filterMap Shift.captureBytes?)
  ir : ∀ a, (s.irShift .little a).2 = none →
    ∃ run, (s.irShift .little a).1.commands = s.commands ++ run ∧
      PaddedRun 'i' .irShift s.irPrefix s.irPostfix a run
  dr : ∀ a, (s.drShift .little a).2 = none →
    ∃ run, (s.drShift .little a).1.commands = s.commands ++ run ∧
      PaddedRun 'd' .drShift s.drPrefix s.drPostfix a run

/-! ### One shift -/

theorem ceilBytes_eq (size : ℕ) : ceilBytes size = (size + 7) / 8 := by
  have hfdiv : (size : ℤ).fdiv (-8) = -(size : ℤ) / 8 := by
    rw [← Int.neg_fdiv_neg, neg_neg, Int.fdiv_eq_ediv_of_nonneg _ (by decide)]
  rw [ceilBytes, hfdiv]
  omega

theorem lt_pow_ceilBytes (n : ℤ) (size : ℕ) : (n % 2 ^ size).toNat < 256 ^ ceilBytes size := by
  refine (toNat_emod_lt n size).trans_le ?_
  rw [show (256 : ℕ) = 2 ^ 8 from rfl, ← pow_mul, ceilBytes_eq]
  exact Nat.pow_le_pow_right (by decide) (by omega)

/-- Command of a shift. -/
def Shift.command (a : Shift) : Command :=
  .shift a.shiftType.front a.capture a.size
    { state := a.endState, value := if a.data.isSome then none else some a.tdi }

/-- Bytes of its data. -/
def Shift.payload (a : Shift) : List UInt8 :=
  match a.data with
  | some (.buffer bytes) => bytes.take (ceilBytes a.size)
  | some (.int n) => littleEndian (ceilBytes a.size) (n % 2 ^ a.size).toNat
  | none => []

namespace JtagSequence

def record (s : JtagSequence) (shifts : List Shift) : JtagSequence :=
  { s with
    commands := s.commands ++ shifts.map Shift.command
    data := s.data ++ shifts.flatMap Shift.payload }

theorem record_nil (s : JtagSequence) : s.record [] = s := by
  rw [record, List.map_nil, List.flatMap_nil, List.append_nil, List.append_nil]

theorem record_append (s : JtagSequence) (as bs : List Shift) :
    s.record (as ++ bs) = (s.record as).record bs := by
  rw [record, record, record, List.map_append, List.flatMap_append, List.append_assoc,
    List.append_assoc]

theorem shift_accepted {a : Shift} (h : a.accepted = true) (s : JtagSequence) :
    s.shift .little a = .ok (s.record [a]) := by
  rw [Shift.accepted, Bool.and_eq_true, Bool.not_eq_true', Bool.and_eq_false_iff] at h
  obtain ⟨hone, htype⟩ := h
  have hone' : ¬(a.data.isSome = true ∧ a.tdi.isSome = true) := by
    rintro ⟨hdata, htdi⟩
    rcases hone with hnone | hnone
    · rw [hdata] at hnone
      exact nomatch hnone
    · rw [htdi] at hnone
      exact nomatch hnone
  have htype' : ¬(a.shiftType ≠ "dr" ∧ a.shiftType ≠ "ir") := by
    rintro ⟨hdr, hir⟩
    rcases Bool.or_eq_true_iff.mp htype with h | h
    · exact hdr (beq_iff_eq.mp h)
    · exact hir (beq_iff_eq.mp h)
  rw [shift, if_neg hone', if_neg htype', record, List.map_singleton, List.flatMap_singleton]
  rcases hdata : a.data with - | n | bytes
  · simp [Shift.command, Shift.payload, hdata]
  · have hbytes := toBytes_little (lt_pow_ceilBytes n a.size)
    simp only [land_mask, Int.toNat_natCast, hbytes, Py.ok_bind]
    simp [Shift.command, Shift.payload, hdata]
  · simp [Shift.command, Shift.payload, hdata]

theorem shift_rejected {a : Shift} (h : a.accepted = false) (s : JtagSequence) :
    ∃ e, s.shift .little a = .error e := by
  rw [Shift.accepted, Bool.and_eq_false_iff, Bool.not_eq_false', Bool.and_eq_true] at h
  rw [shift]
  rcases h with hboth | htype
  · exact ⟨_, if_pos hboth⟩
  · have htype' : a.shiftType ≠ "dr" ∧ a.shiftType ≠ "ir" := by
      obtain ⟨hdr, hir⟩ := Bool.or_eq_false_iff.mp htype
      exact ⟨beq_eq_false_iff_ne.mp hdr, beq_eq_false_iff_ne.mp hir⟩
    split_ifs
    · exact ⟨_, rfl⟩
    · exact ⟨_, rfl⟩

/-! ### Several shifts -/

/-- Shifts one after the other, up to one that raises. -/
def attempt (shifts : List Shift) (o : Outcome) : Outcome :=
  shifts.foldl (fun o a => next o (shift .little a)) o

theorem attempt_error (shifts : List Shift) (s : JtagSequence) (e : Py.Error) :
    attempt shifts (s, some e) = (s, some e) := by
  induction shifts with
  | nil => rfl
  | cons a shifts ih => exact ih

theorem attempt_spec : ∀ (shifts : List Shift) (s : JtagSequence),
    (attempt shifts (s, none)).1 = s.record (shifts.takeWhile Shift.accepted) ∧
      ((attempt shifts (s, none)).2 = none → shifts.takeWhile Shift.accepted = shifts)
  | [], s => ⟨s.record_nil.symm, fun _ => rfl⟩
  | a :: shifts, s => by
    cases h : a.accepted with
    | true =>
      have hnext : attempt (a :: shifts) (s, none) = attempt shifts (s.record [a], none) := by
        rw [attempt, List.foldl_cons, next, shift_accepted h]
        rfl
      obtain ⟨hfst, hsnd⟩ := attempt_spec shifts (s.record [a])
      rw [hnext, List.takeWhile_cons_of_pos h]
      refine ⟨?_, fun hnone => by rw [hsnd hnone]⟩
      rw [hfst, ← record_append]
      rfl
    | false =>
      obtain ⟨e, he⟩ := s.shift_rejected h
      have hnext : attempt (a :: shifts) (s, none) = (s, some e) := by
        rw [attempt, List.foldl_cons, next, he]
        exact attempt_error shifts s e
      rw [hnext, List.takeWhile_cons_of_neg (by rw [h]; exact Bool.false_ne_true), record_nil]
      exact ⟨rfl, fun hnone => nomatch hnone⟩

theorem paddedShift_eq (shiftType : String) (shiftState : JtagState) (pre post : JtagPadding)
    (a : ShiftArgs) (s : JtagSequence) :
    s.paddedShift .little shiftType shiftState pre post a =
      attempt (padded shiftType shiftState pre post a) (s, none) := by
  rw [paddedShift, attempt, padded]
  split_ifs
  · rfl
  · rfl
  · rfl
  · rfl

end JtagSequence

/-- A call records its shifts, sets its padding and adds its states. -/
theorem Call.perform_fst (s : JtagSequence) (call : Call) :
    (call.perform .little s).1 =
      let t := s.record ((call.shifts s.toPaddings).takeWhile Shift.accepted)
      { t with toPaddings := call.paddings s.toPaddings, commands := t.commands ++ call.states } := by
  cases call with
  | setIrPrefix padding => simp [perform, shifts, paddings, states, JtagSequence.record]
  | setIrPostfix padding => simp [perform, shifts, paddings, states, JtagSequence.record]
  | setDrPrefix padding => simp [perform, shifts, paddings, states, JtagSequence.record]
  | setDrPostfix padding => simp [perform, shifts, paddings, states, JtagSequence.record]
  | setState state count =>
    simp [perform, shifts, paddings, states, JtagSequence.record, JtagSequence.setState]
  | shift a =>
    have h := (JtagSequence.attempt_spec [a] s).1
    simp only [states, paddings, List.append_nil]
    exact h
  | irShift a =>
    have h := (JtagSequence.attempt_spec (padded "ir" .irShift s.irPrefix s.irPostfix a) s).1
    rw [← JtagSequence.paddedShift_eq] at h
    simp only [states, paddings, List.append_nil]
    exact h
  | drShift a =>
    have h := (JtagSequence.attempt_spec (padded "dr" .drShift s.drPrefix s.drPostfix a) s).1
    rw [← JtagSequence.paddedShift_eq] at h
    simp only [states, paddings, List.append_nil]
    exact h

/-! ### The two streams -/

/-- The streams of a sequence are those of the shifts it has recorded. -/
structure Recorded (shifts : List Shift) (s : JtagSequence) : Prop where
  widths : s.commands.filterMap Command.dataBytes? =
    (shifts.filterMap Shift.data?).map fun d => ceilBytes d.1
  captures : s.commands.filterMap Command.captureBytes? = shifts.filterMap Shift.captureBytes?
  data : s.data = shifts.flatMap Shift.payload

theorem Shift.dataBytes?_command (a : Shift) :
    a.command.dataBytes? = a.data?.map fun d => ceilBytes d.1 := by
  rw [Shift.command, Shift.data?]
  rcases a.data with - | data
  · rfl
  · rfl

theorem Recorded.record {shifts : List Shift} {s : JtagSequence} (h : Recorded shifts s)
    (more : List Shift) : Recorded (shifts ++ more) (s.record more) where
  widths := by
    change (s.commands ++ more.map Shift.command).filterMap _ = _
    have hmore : more.filterMap (Command.dataBytes? ∘ Shift.command) =
        (more.filterMap Shift.data?).map fun d => ceilBytes d.1 := by
      rw [List.map_filterMap]
      exact List.filterMap_congr fun a _ => a.dataBytes?_command
    rw [List.filterMap_append, h.widths, List.filterMap_map, hmore, List.filterMap_append,
      List.map_append]
  captures := by
    change (s.commands ++ more.map Shift.command).filterMap _ = _
    rw [List.filterMap_append, h.captures, List.filterMap_map, List.filterMap_append]
    rfl
  data := by
    change s.data ++ more.flatMap Shift.payload = _
    rw [h.data, List.flatMap_append]

theorem Recorded.perform {shifts : List Shift} {s : JtagSequence} (h : Recorded shifts s)
    (call : Call) :
    Recorded (shifts ++ (call.shifts s.toPaddings).takeWhile Shift.accepted)
        (call.perform .little s).1 ∧
      (call.perform .little s).1.toPaddings = call.paddings s.toPaddings := by
  have hrecord := h.record ((call.shifts s.toPaddings).takeWhile Shift.accepted)
  rw [call.perform_fst]
  have hstates : call.states.filterMap Command.dataBytes? = [] ∧
      call.states.filterMap Command.captureBytes? = [] := by
    cases call
    all_goals exact ⟨rfl, rfl⟩
  refine ⟨⟨?_, ?_, hrecord.data⟩, rfl⟩
  · dsimp only
    rw [List.filterMap_append, hstates.1, List.append_nil]
    exact hrecord.widths
  · dsimp only
    rw [List.filterMap_append, hstates.2, List.append_nil]
    exact hrecord.captures

theorem Recorded.performAll : ∀ (calls : List Call) {shifts : List Shift} {s : JtagSequence},
    Recorded shifts s → Recorded (shifts ++ shiftsOf s.toPaddings calls)
      (performAll .little calls s)
  | [], shifts, s, h => by
    rw [shiftsOf, List.append_nil]
    exact h
  | call :: calls, shifts, s, h => by
    obtain ⟨hcall, hpaddings⟩ := h.perform call
    have hrest := Recorded.performAll calls hcall
    rw [hpaddings, List.append_assoc] at hrest
    exact hrest

/-- The payload of a shift that has data. -/
theorem Shift.recovers {a : Shift} (hlong : a.LongEnough) {d : ℕ × Data} (hd : a.data? = some d) :
    Recovers d a.payload ∧ a.payload.length = ceilBytes d.1 := by
  rw [Shift.data?] at hd
  obtain ⟨data, hdata, rfl⟩ := Option.map_eq_some_iff.mp hd
  rw [Shift.payload, hdata]
  cases data with
  | int n =>
    have hlen := length_littleEndian (ceilBytes a.size) (n % 2 ^ a.size).toNat
    have hvalue : (fromBytes (littleEndian (ceilBytes a.size) (n % 2 ^ a.size).toNat) : ℤ) =
        n % 2 ^ a.size := by
      rw [fromBytes_littleEndian, Nat.mod_eq_of_lt (lt_pow_ceilBytes n a.size),
        natCast_toNat_emod]
    exact ⟨⟨hlen, hvalue⟩, hlen⟩
  | buffer bytes =>
    have hlen : (bytes.take (ceilBytes a.size)).length = ceilBytes a.size := by
      rw [List.length_take, Nat.min_eq_left (hlong bytes hdata)]
    exact ⟨⟨hlen, List.take_prefix _ _⟩, hlen⟩

theorem Shift.payload_of_none {a : Shift} (h : a.data? = none) : a.payload = [] := by
  rw [Shift.data?, Option.map_eq_none_iff] at h
  rw [Shift.payload, h]

/-- The joined payloads are cut again by the sizes of the shifts that have data. -/
theorem exists_pieces : ∀ {shifts : List Shift}, (∀ a ∈ shifts, a.LongEnough) →
    ∃ pieces, shifts.flatMap Shift.payload = pieces.flatten ∧
      (shifts.filterMap Shift.data?).map (fun d => ceilBytes d.1) = pieces.map List.length ∧
      List.Forall₂ Recovers (shifts.filterMap Shift.data?) pieces
  | [], _ => ⟨[], rfl, rfl, .nil⟩
  | a :: shifts, h => by
    obtain ⟨hlong, hrest⟩ := List.forall_mem_cons.mp h
    obtain ⟨pieces, hflat, hlens, hall⟩ := exists_pieces hrest
    rw [List.flatMap_cons, hflat]
    cases hd : a.data? with
    | none =>
      rw [a.payload_of_none hd, List.filterMap_cons_none hd]
      exact ⟨pieces, rfl, hlens, hall⟩
    | some d =>
      obtain ⟨hrecovers, hlen⟩ := Shift.recovers hlong hd
      rw [List.filterMap_cons_some hd]
      refine ⟨a.payload :: pieces, rfl, ?_, hall.cons hrecovers⟩
      rw [List.map_cons, List.map_cons, hlens, hlen]

/-- The loop of `run` cuts the reply by the sizes of the shifts that capture. -/
theorem run_loop (reply : List UInt8) : ∀ (commands : List Command) (result : List (List UInt8))
    (index : ℕ), (commands.foldl (fun (result, index) command =>
      match command with
      | .shift _ true size _ =>
        let sizeInBytes := ceilBytes size
        (result ++ [Py.segment reply index (index + sizeInBytes)], index + sizeInBytes)
      | _ => (result, index)) (result, index)).1 =
    result ++ (Frames.cut (commands.filterMap Command.captureBytes?) (reply.drop index)).1
  | [], result, index => by simp [Frames.cut]
  | .state state count :: commands, result, index => run_loop reply commands result index
  | .shift shiftType false size options :: commands, result, index =>
    run_loop reply commands result index
  | .shift shiftType true size options :: commands, result, index => by
    have hsome : (Command.shift shiftType true size options).captureBytes? =
      some (ceilBytes size) := rfl
    have hpiece : Py.segment reply index (index + ceilBytes size) =
        (reply.drop index).take (ceilBytes size) := by
      rw [Py.segment, List.drop_take, Nat.add_sub_cancel_left]
    refine (run_loop reply commands _ _).trans ?_
    rw [List.filterMap_cons_some hsome, Frames.cut, List.drop_drop, hpiece, List.append_assoc,
      List.singleton_append]

theorem JtagSequence.run_eq (sequence : List Command → List UInt8 → List UInt8)
    (s : JtagSequence) : s.run sequence =
      (Frames.cut (s.commands.filterMap Command.captureBytes?)
        (sequence s.commands s.data)).1 := run_loop _ s.commands [] 0

/-! ### Padded shifts -/

theorem padded_run (shiftType : String) (shiftState : JtagState) (pre post : JtagPadding)
    (a : ShiftArgs) :
    PaddedRun shiftType.front shiftState pre post a
      ((padded shiftType shiftState pre post a).map Shift.command) := by
  simp only [PaddedRun, padded]
  split_ifs
  · refine ⟨[_], _, [_], rfl, rfl, rfl, ?_, ?_, rfl, ?_, ?_⟩
    all_goals simp [Shift.command, paddingShift, Command.captures, Command.endState?]
  · refine ⟨[_], _, [], rfl, rfl, rfl, ?_, ?_, rfl, ?_, ?_⟩
    all_goals simp [Shift.command, paddingShift, Command.captures, Command.endState?]
  · refine ⟨[], _, [_], rfl, rfl, rfl, ?_, ?_, rfl, ?_, ?_⟩
    all_goals simp [Shift.command, paddingShift, Command.captures, Command.endState?]
  · refine ⟨[], _, [], rfl, rfl, rfl, ?_, ?_, rfl, ?_, ?_⟩
    all_goals simp [Shift.command, Command.endState?]

theorem paddedShift_run (shiftType : String) (shiftState : JtagState) (pre post : JtagPadding)
    (a : ShiftArgs) (s : JtagSequence)
    (h : (s.paddedShift .little shiftType shiftState pre post a).2 = none) :
    ∃ run, (s.paddedShift .little shiftType shiftState pre post a).1.commands = s.commands ++ run ∧
      PaddedRun shiftType.front shiftState pre post a run := by
  rw [JtagSequence.paddedShift_eq] at h ⊢
  obtain ⟨hfst, hsnd⟩ := JtagSequence.attempt_spec (padded shiftType shiftState pre post a) s
  rw [hfst, hsnd h]
  exact ⟨_, rfl, padded_run shiftType shiftState pre post a⟩

theorem Recorded.framed {shifts : List Shift} {s : JtagSequence} (h : Recorded shifts s)
    (hlong : ∀ a ∈ shifts, a.LongEnough) : Framed shifts s where
  data := by
    obtain ⟨pieces, hflat, hlens, hall⟩ := exists_pieces hlong
    refine ⟨pieces, ?_, hall⟩
    have hcut := Frames.cut_flatten pieces []
    rw [List.append_nil] at hcut
    rw [h.widths, hlens, h.data, hflat, hcut]
  run sequence := by
    rw [s.run_eq, h.captures]
    exact ⟨Frames.length_cut _ _, Frames.flatten_cut _ _, Frames.map_length_cut _⟩
  ir a ha := paddedShift_run "ir" .irShift s.irPrefix s.irPostfix a s ha
  dr a ha := paddedShift_run "dr" .drShift s.drPrefix s.drPostfix a s ha

/-- The streams fit together after any calls, whatever paddings they set. -/
theorem performAll_framed (s : JtagSequence) (calls : List Call)
    (hlong : ∀ a ∈ shiftsOf s.toPaddings calls, a.LongEnough) :
    Framed (shiftsOf s.toPaddings calls) (performAll .little calls s.clear) := by
  have hclear : Recorded [] s.clear := ⟨rfl, rfl, rfl⟩
  have hrecorded := hclear.performAll calls
  exact hrecorded.framed hlong

instance (a : Shift) : Decidable a.LongEnough :=
  match h : a.data with
  | some (.buffer bytes) => decidable_of_iff (ceilBytes a.size ≤ bytes.length) ⟨
      fun hle bytes' h' => by
        rw [h] at h'
        rw [← Data.buffer.inj (Option.some.inj h')]
        exact hle, fun hall => hall bytes h⟩
  | some (.int _) => .isTrue fun _ h' => by
      rw [h] at h'
      exact nomatch h'
  | none => .isTrue fun _ h' => by
      rw [h] at h'
      exact nomatch h'

/-- A padded instruction of a negative number, a constant and a buffer. -/
def threeShifts : List Call :=
  [.setIrPrefix ⟨3, .int 7⟩, .irShift { data := some (.int (-2)), size := 6 },
    .drShift { tdi := some 1, size := 12, endState := some .idle },
    .drShift { data := some (.buffer [1, 2, 3]), size := 17, capture := false }]

theorem performAll_framed_threeShifts :
    Framed (shiftsOf {} threeShifts) (performAll .little threeShifts (JtagSequence.clear {})) :=
  performAll_framed {} threeShifts (by decide)

end Chipscopy.Api.Jtag
