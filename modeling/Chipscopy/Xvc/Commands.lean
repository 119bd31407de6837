import Chipscopy.Lib.Bytes
import Chipscopy.Lib.Float
import Chipscopy.Lib.Stream
import Chipscopy.Lib.Python

/-! Commands of an XVC server

    A command is its name, a colon and its fields. The server reads the name byte by byte and takes
    each other field with one call of `recv`. What it executes and how many bytes it took for it is
    kept in a log. -/

namespace Chipscopy.Xvc

open Stream Bits

def ascii (text : List Char) : List UInt8 := text.map fun c => UInt8.ofNat c.toNat

/-! ### Fields -/

/-- `buf[size - 1 :: -1]` is what arrived, last byte first. -/
def getUintLe (cut : ℕ → ℕ) (size : ℕ) : Reader ℕ := do
  let buf ← recv cut size
  return (buf.take size).reverse.foldl (fun value byte => (value <<< 8) ||| byte.toNat) 0

def setUintLe (value : ℤ) : ℕ → List UInt8
  | 0 => []
  | size + 1 => UInt8.ofNat (value.land 0xFF).toNat :: setUintLe (value >>> 8) size

def getUleb128Loop (cut : ℕ → ℕ) (value b : ℕ) (sock : List UInt8) : Option (ℕ × List UInt8) :=
  match _h : recv cut 1 sock with
  | none => none
  | some (c, rest) =>
    let n := (c.headD 0).toNat
    let value := value ||| ((n &&& 0x7F) <<< b)
    if n &&& 0x80 = 0 then some (value, rest) else getUleb128Loop cut value (b + 7) rest
termination_by sock.length
decreasing_by
  obtain ⟨hne, rfl, -⟩ := recv_eq_some _h
  have := List.length_pos_iff.mpr hne
  rw [List.length_append]
  omega

def getUleb128 (cut : ℕ → ℕ) : Reader ℕ := getUleb128Loop cut 0 0

def writeUleb128Loop (value : ℕ) : List UInt8 :=
  if value = 0 then []
  else
    let p := if value ≥ 0x80 then (value &&& 0x7F) ||| 0x80 else value &&& 0x7F
    UInt8.ofNat p :: writeUleb128Loop (value >>> 7)
termination_by value
decreasing_by
  rw [Nat.shiftRight_eq_div_pow]
  exact Nat.div_lt_self (by omega) (by norm_num)

def writeUleb128 (value : ℕ) : List UInt8 :=
  if value = 0 then [0] else writeUleb128Loop value

/-- The name of a command, up to its colon. -/
def getCmd (cut : ℕ → ℕ) (cmdName : List UInt8) (sock : List UInt8) :
    Option (List UInt8 × List UInt8) :=
  match _h : recv cut 1 sock with
  | none => none
  | some (c, rest) =>
    if c = ascii [':'] then some (cmdName, rest) else getCmd cut (cmdName ++ c) rest
termination_by sock.length
decreasing_by
  obtain ⟨hne, rfl, -⟩ := recv_eq_some _h
  have := List.length_pos_iff.mpr hne
  rw [List.length_append]
  omega

/-! ### Commands -/

inductive Command
  | mwr (flags addr : ℕ) (payload : List UInt8)
  | mrd (flags addr numBytes : ℕ)
  | stop
  | getinfo
  | capabilities
  | configure (configs : List UInt8)
  | settck (period : ℕ)
  | shift (numBits : ℕ) (tms tdi : List UInt8)
  | error
  deriving DecidableEq

/-- `int((num_bits + 7) / 8)`. -/
def vectorLength (numBits : ℕ) : ℕ :=
  match Py.trueDiv (numBits + 7 : ℕ) (2 ^ 3 : ℕ) with
  | .ok quotient => (Py.truncate quotient).toNat
  | .error _ => 0

/-- `process_mwr` up to its call of the handler. -/
def mwrArguments (cut : ℕ → ℕ) : Reader Command := do
  let flags ← getUleb128 cut
  let addr ← getUleb128 cut
  let numBytes ← getUleb128 cut
  let payload ← recv cut numBytes
  return .mwr flags addr payload

def mrdArguments (cut : ℕ → ℕ) : Reader Command := do
  let flags ← getUleb128 cut
  let addr ← getUleb128 cut
  let numBytes ← getUleb128 cut
  return .mrd flags addr numBytes

def settckArguments (cut : ℕ → ℕ) : Reader Command := do
  let period ← getUintLe cut 4
  return .settck period

def shiftArguments (cut : ℕ → ℕ) : Reader Command := do
  let numBits ← getUintLe cut 4
  let numBytes := vectorLength numBits
  let tms ← recv cut numBytes
  let tdi ← recv cut numBytes
  return .shift numBits tms tdi

/-- The table of `process`, where `process_configure` is missing. -/
def dispatch (cut : ℕ → ℕ) : List (List UInt8 × Reader Command) :=
  [(ascii ['m', 'w', 'r'], mwrArguments cut),
   (ascii ['m', 'r', 'd'], mrdArguments cut),
   (ascii ['s', 't', 'o', 'p'], pure .stop),
   (ascii ['g', 'e', 't', 'i', 'n', 'f', 'o'], pure .getinfo),
   (ascii ['c', 'a', 'p', 'a', 'b', 'i', 'l', 'i', 't', 'i', 'e', 's'], pure .capabilities),
   (ascii ['s', 'e', 't', 't', 'c', 'k'], settckArguments cut),
   (ascii ['s', 'h', 'i', 'f', 't'], shiftArguments cut),
   (ascii ['e', 'r', 'r', 'o', 'r'], pure .error)]

/-! ### Execution -/

/-- The methods of the handler on its state. An exception is its text. -/
structure Methods (σ : Type) where
  writeMem : σ → ℕ → ℕ → List UInt8 → σ × Option String
  readMem : σ → ℕ → ℕ → ℕ → σ × Except String (List UInt8)
  shift : σ → ℕ → List UInt8 → List UInt8 → σ × List UInt8
  setTck : σ → ℕ → σ × ℤ
  setConfig : σ → List UInt8 → σ
  capabilities : σ → List (List UInt8)

structure Server (σ : Type) where
  handler : σ
  pendingError : String := ""
  running : Bool := true
  sent : List UInt8 := []

def maxPacketLen : ℕ := 4096

/-- A command with its arguments, to its reply. -/
def execute {σ : Type} (methods : Methods σ) (server : Server σ) : Command → Server σ
  | .mwr flags addr payload =>
    let server :=
      if server.pendingError = "" then
        match methods.writeMem server.handler flags addr payload with
        | (handler, none) => { server with handler := handler }
        | (handler, some e) => { server with handler := handler, pendingError := e }
      else server
    { server with sent := server.sent ++ if server.pendingError = "" then [0] else [1] }
  | .mrd flags addr numBytes =>
    let (server, data) :=
      if server.pendingError = "" then
        match methods.readMem server.handler flags addr numBytes with
        | (handler, .ok data) => ({ server with handler := handler }, data)
        | (handler, .error e) => ({ server with handler := handler, pendingError := e }, [])
      else (server, [])
    let data := if data.length < numBytes then List.replicate numBytes 0 else data
    { server with sent := server.sent ++ data ++ if server.pendingError = "" then [0] else [1] }
  | .stop => { server with sent := server.sent ++ [0], running := false }
  | .getinfo =>
    let reply := "xvcServer_v1.1:" ++ toString maxPacketLen ++ "\n"
    { server with sent := server.sent ++ reply.toUTF8.toList }
  | .capabilities =>
    let reply := (ascii [',']).intercalate (methods.capabilities server.handler)
    { server with sent := server.sent ++ (writeUleb128 reply.length ++ reply) }
  | .configure configs =>
    { server with
      handler := methods.setConfig server.handler configs
      sent := server.sent ++ [0] }
  | .settck period =>
    let (handler, period) := methods.setTck server.handler period
    { server with handler := handler, sent := server.sent ++ setUintLe period 4 }
  | .shift numBits tms tdi =>
    let (handler, tdo) := methods.shift server.handler numBits tms tdi
    { server with handler := handler, sent := server.sent ++ tdo }
  | .error =>
    let message := server.pendingError.toUTF8.toList
    { server with
      pendingError := ""
      sent := server.sent ++ (writeUleb128 message.length ++ message) }

/-- `process_default`. -/
def executeDefault {σ : Type} (server : Server σ) : Server σ :=
  { server with pendingError := "Unhandled command", sent := server.sent ++ [1] }

/-- What was executed, none for `process_default`, and the bytes that were taken for it. -/
structure Executed where
  command : Option Command
  consumed : ℕ
  deriving DecidableEq

/-- `process`. A name that is no text raises. -/
def process {σ : Type} (cut : ℕ → ℕ) (methods : Methods σ) (server : Server σ)
    (cmd : List UInt8) : Reader (Option Command × Server σ) :=
  match Py.lookup cmd (dispatch cut) with
  | some arguments => do
    let command ← arguments
    return (some command, execute methods server command)
  | none =>
    if (String.fromUTF8? ⟨cmd.toArray⟩).isSome then pure (none, executeDefault server)
    else fun _ => none

/-! ### Reading takes bytes away -/

theorem getUleb128Loop_none {cut : ℕ → ℕ} {value b : ℕ} {sock : List UInt8}
    (h : recv cut 1 sock = none) : getUleb128Loop cut value b sock = none := by
  rw [getUleb128Loop]
  split
  · rfl
  next c rest hrecv => cases hrecv.symm.trans h

theorem getUleb128Loop_some {cut : ℕ → ℕ} {value b : ℕ} {sock c rest : List UInt8}
    (h : recv cut 1 sock = some (c, rest)) : getUleb128Loop cut value b sock =
      if (c.headD 0).toNat &&& 0x80 = 0 then
        some (value ||| (((c.headD 0).toNat &&& 0x7F) <<< b), rest)
      else getUleb128Loop cut (value ||| (((c.headD 0).toNat &&& 0x7F) <<< b)) (b + 7) rest := by
  rw [getUleb128Loop]
  split
  next hrecv => cases hrecv.symm.trans h
  next c' rest' hrecv =>
    obtain ⟨rfl, rfl⟩ := Prod.mk.inj (Option.some.inj (hrecv.symm.trans h))
    rfl

theorem getCmd_none {cut : ℕ → ℕ} {cmdName sock : List UInt8} (h : recv cut 1 sock = none) :
    getCmd cut cmdName sock = none := by
  rw [getCmd]
  split
  · rfl
  next c rest hrecv => cases hrecv.symm.trans h

theorem getCmd_some {cut : ℕ → ℕ} {cmdName sock c rest : List UInt8}
    (h : recv cut 1 sock = some (c, rest)) : getCmd cut cmdName sock =
      if c = ascii [':'] then some (cmdName, rest) else getCmd cut (cmdName ++ c) rest := by
  rw [getCmd]
  split
  next hrecv => cases hrecv.symm.trans h
  next c' rest' hrecv =>
    obtain ⟨rfl, rfl⟩ := Prod.mk.inj (Option.some.inj (hrecv.symm.trans h))
    rfl

theorem length_of_recv_one {cut : ℕ → ℕ} {sock c rest : List UInt8}
    (h : recv cut 1 sock = some (c, rest)) : rest.length < sock.length := by
  obtain ⟨hne, rfl, -⟩ := recv_eq_some h
  have := List.length_pos_iff.mpr hne
  rw [List.length_append]
  omega

theorem shrinks_getUleb128 (cut : ℕ → ℕ) : Shrinks (getUleb128 cut) := by
  have hloop : ∀ (k value b : ℕ) (sock rest : List UInt8) (a : ℕ), sock.length = k →
      getUleb128Loop cut value b sock = some (a, rest) → rest.length ≤ sock.length := by
    intro k
    induction k using Nat.strong_induction_on with
    | h k ih =>
      rintro value b sock rest a rfl h
      rcases hrecv : recv cut 1 sock with _ | ⟨c, rest'⟩
      · rw [getUleb128Loop_none hrecv] at h
        cases h
      · have hlen := length_of_recv_one hrecv
        rw [getUleb128Loop_some hrecv] at h
        split_ifs at h
        · obtain ⟨-, rfl⟩ := Prod.mk.inj (Option.some.inj h)
          exact hlen.le
        · exact (ih rest'.length hlen _ _ rest' rest a rfl h).trans hlen.le
  exact fun sock a rest h => hloop sock.length 0 0 sock rest a rfl h

theorem length_of_getCmd {cut : ℕ → ℕ} : ∀ (k : ℕ) {cmdName sock cmd rest : List UInt8},
    sock.length = k → getCmd cut cmdName sock = some (cmd, rest) → rest.length < sock.length := by
  intro k
  induction k using Nat.strong_induction_on with
  | h k ih =>
    rintro cmdName sock cmd rest rfl h
    rcases hrecv : recv cut 1 sock with _ | ⟨c, rest'⟩
    · rw [getCmd_none hrecv] at h
      cases h
    · have hlen := length_of_recv_one hrecv
      rw [getCmd_some hrecv] at h
      split_ifs at h
      · obtain ⟨-, rfl⟩ := Prod.mk.inj (Option.some.inj h)
        exact hlen
      · exact (ih rest'.length hlen rfl h).trans hlen

/-- No entry of the table gives bytes back. -/
theorem shrinks_dispatch (cut : ℕ → ℕ) : ∀ entry ∈ dispatch cut, Shrinks entry.2 := by
  have huleb := shrinks_getUleb128 cut
  have huint : Shrinks (getUintLe cut 4) := (Shrinks.recv cut 4).bind fun buf => .pure _
  simp only [dispatch, List.forall_mem_cons, List.not_mem_nil, false_implies, implies_true,
    and_true]
  refine ⟨?_, ?_, .pure _, .pure _, .pure _, ?_, ?_, .pure _⟩
  · exact huleb.bind fun _ => huleb.bind fun _ => huleb.bind fun _ =>
      (Shrinks.recv cut _).bind fun _ => .pure _
  · exact huleb.bind fun _ => huleb.bind fun _ => huleb.bind fun _ => .pure _
  · exact huint.bind fun _ => .pure _
  · exact huint.bind fun _ => (Shrinks.recv cut _).bind fun _ =>
      (Shrinks.recv cut _).bind fun _ => .pure _

theorem mem_of_lookup {κ υ : Type} [DecidableEq κ] {k : κ} {v : υ} : ∀ {es : List (κ × υ)},
    Py.lookup k es = some v → (k, v) ∈ es
  | [], h => by cases h
  | e :: es, h => by
    rw [Py.lookup] at h
    split_ifs at h with hk
    · rw [← hk, ← Option.some.inj h]
      exact List.mem_cons_self
    · exact List.mem_cons_of_mem _ (mem_of_lookup h)

theorem shrinks_process {σ : Type} (cut : ℕ → ℕ) (methods : Methods σ) (server : Server σ)
    (cmd : List UInt8) : Shrinks (process cut methods server cmd) := by
  rcases hlookup : Py.lookup cmd (dispatch cut) with _ | arguments
  · rintro sock a rest h
    simp only [process, hlookup] at h
    split_ifs at h
    exact Shrinks.pure _ sock a rest h
  · have hshrinks := shrinks_dispatch cut _ (mem_of_lookup hlookup)
    rintro sock a rest h
    simp only [process, hlookup] at h
    exact (hshrinks.bind fun _ => .pure _) sock a rest h

/-- `run` on one connection, until `stop` or an exception. -/
def serve {σ : Type} (cut : ℕ → ℕ) (methods : Methods σ) (server : Server σ)
    (sock : List UInt8) : Server σ × List Executed :=
  if server.running then
    match _hcmd : getCmd cut [] sock with
    | none => (server, [])
    | some (cmd, rest) =>
      if cmd = [] then serve cut methods server rest
      else
        match _hprocess : process cut methods server cmd rest with
        | none => (server, [])
        | some ((command, server'), rest') =>
          let (server, log) := serve cut methods server' rest'
          (server, { command := command, consumed := sock.length - rest'.length } :: log)
  else (server, [])
termination_by sock.length
decreasing_by
  · exact length_of_getCmd _ rfl _hcmd
  · exact (shrinks_process cut methods server cmd rest _ rest' _hprocess).trans_lt
      (length_of_getCmd _ rfl _hcmd)

end Chipscopy.Xvc
