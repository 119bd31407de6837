import Chipscopy.Xvc.Dispatch
import Chipscopy.Xvc.Framing

/-! Sessions with a tree of memory handlers

    A client that sends commands to a tree of handlers sees one byte for each address. A write ends
    with the first stretch, a read has to end where the handlers let it, and an access that is
    refused goes unnoticed, as the text of its exception is empty. -/

namespace Chipscopy.Xvc

open Fuel

/-! ### The server over a tree -/

/-- `str(e)`. `NotImplementedError()` has no text. -/
def MemError.text : MemError → String
  | .notImplemented => ""
  | .negativeCount => "negative count"

def defaultCapabilities : List (List UInt8) :=
  [ascii ['m', 'e', 'm', 'o', 'r', 'y'], ascii ['s', 't', 'o', 'p'],
    "idcode=0x4CA8093".toUTF8.toList, "idcode2=1".toUTF8.toList]

def capabilities (idcode idcode2 : ℕ) : List (List UInt8) :=
  defaultCapabilities ++
    (if idcode ≠ 0 then [("idcode=" ++ toString idcode).toUTF8.toList] else []) ++
    (if idcode2 ≠ 0 then [("idcode2=" ++ toString idcode2).toUTF8.toList] else [])

section Methods

variable {ι : Type} (idcode idcode2 : ℕ) (self : Handler ι)

/-- The methods of `XVCHandler` and `XVCMemHandler`. No command of the table sets a configuration.
    A loop without fuel has no answer, so whatever is said of it is said for enough fuel. -/
def handlerMethods [DecidableEq ι] (fuel : ℕ) : Methods (Heap ι) where
  writeMem heap _ addr data :=
    match writeMem fuel heap self addr data with
    | some (heap, e) => (heap, e.map MemError.text)
    | none => (heap, none)
  readMem heap _ addr numBytes :=
    match readMem heap fuel self addr numBytes with
    | some (.ok data) => (heap, .ok data)
    | some (.error e) => (heap, .error e.text)
    | none => (heap, .ok [])
  shift heap _ _ tdi := (heap, tdi)
  setTck heap period := (heap, period)
  setConfig heap _ := heap
  capabilities _ := capabilities idcode idcode2

/-! ### One byte for each address -/

/-- The byte that a command stores at an address. -/
def Command.stored (x : ℤ) : Command → Option UInt8
  | .mwr _ addr payload =>
    if (self.resolve addr).isSome ∧ addr ≤ x then
      (payload.take (self.stretch addr payload.length))[(x - addr).toNat]?
    else none
  | _ => none

/-- The bytes after a command. -/
def Command.store (bytes : ℤ → UInt8) (c : Command) (x : ℤ) : UInt8 :=
  (c.stored self x).getD (bytes x)

/-- The documented reply, without an error. -/
def Command.reply (bytes : ℤ → UInt8) : Command → List UInt8
  | .mrd _ addr numBytes => Handler.span bytes addr numBytes ++ [0]
  | .getinfo => ("xvcServer_v1.1:" ++ toString maxPacketLen ++ "\n").toUTF8.toList
  | .capabilities =>
    let reply := (ascii [',']).intercalate (Xvc.capabilities idcode idcode2)
    writeUleb128 reply.length ++ reply
  | .settck period => setUintLe period 4
  | .shift _ _ tdi => tdi
  | _ => [0]

/-- The replies one after the other. -/
def replies : (ℤ → UInt8) → List Command → List UInt8
  | _, [] => []
  | bytes, c :: cs => c.reply idcode idcode2 bytes ++ replies (c.store self bytes) cs

/-- The last command that stores something at an address decides. -/
theorem foldl_store (cs : List Command) (bytes : ℤ → UInt8) (x : ℤ) :
    cs.foldl (Command.store self) bytes x =
      (cs.reverse.findSome? (·.stored self x)).getD (bytes x) := by
  induction cs using List.reverseRecOn with
  | nil => rfl
  | append_singleton cs c ih =>
    rw [List.foldl_append, List.foldl_cons, List.foldl_nil, Command.store, ih, List.reverse_concat,
      List.findSome?_cons]
    cases c.stored self x <;> rfl

/-- A read that the handlers answer byte by byte, whatever they hold. -/
def Command.Ends : Command → Prop
  | .mrd _ addr n => ∀ heap, Handler.ReadsThrough heap self addr n
  | _ => True

/-! ### One command -/

variable {self} [DecidableEq ι] {heap : Heap ι} {addr : ℤ} {data : List UInt8}

open Handler

/-- Bytes that all have a place are stored at their addresses, and nowhere else. -/
theorem byteAt_writeBytes (htree : self.Tree)
    (hall : ∀ i < data.length, self.resolve (addr + i) ≠ none) (x : ℤ) :
    Handler.byteAt (writeBytes self heap addr data).1 self x =
      (if addr ≤ x then data[(x - addr).toNat]? else none).getD (Handler.byteAt heap self x) := by
  induction data generalizing heap addr with
  | nil => simp [writeBytes]
  | cons d data ih =>
    have hfirst := hall 0 (Nat.succ_pos _)
    rw [Nat.cast_zero, add_zero] at hfirst
    obtain ⟨⟨id, key⟩, hloc⟩ := Option.ne_none_iff_exists'.mp hfirst
    have hput : Handler.byteAt (heap.put id key d) self x =
        if x = addr then d else Handler.byteAt heap self x := by
      rw [Handler.byteAt, Handler.byteAt, Heap.put]
      split_ifs with hx
      · rw [hx, hloc]
        simp
      · rcases hx' : self.resolve x with _ | ⟨id', key'⟩
        · rfl
        · have hne : (id', key') ≠ (id, key) := fun heq =>
            hx (resolve_injective self htree (hx'.trans (congrArg some heq)) hloc)
          by_cases hid : id' = id
          · subst hid
            have hkey : key' ≠ key := fun hkey => hne (by rw [hkey])
            simp [Function.update_of_ne hkey]
          · simp [Function.update_of_ne hid]
    rw [writeBytes_cons_some hloc, ih fun i hi => ?_, hput]
    · rcases lt_trichotomy x addr with hlt | rfl | hgt
      · rw [if_neg (by omega), if_neg (by omega), if_neg (by omega)]
      · rw [if_neg (by omega), if_pos rfl, if_pos le_rfl, Int.sub_self]
        rfl
      · have hsucc : (x - addr).toNat = (x - (addr + 1)).toNat + 1 := by omega
        rw [if_pos (by omega), if_neg (by omega), if_pos (by omega), hsucc,
          List.getElem?_cons_succ]
    · have := hall (i + 1) (Nat.succ_lt_succ hi)
      rwa [Nat.cast_succ, add_comm (i : ℤ) 1, ← add_assoc] at this

theorem writeBytes_error (self : Handler ι) (heap : Heap ι) (addr : ℤ) (data : List UInt8) :
    (writeBytes self heap addr data).2 = none ∨
      (writeBytes self heap addr data).2 = some .notImplemented := by
  induction data generalizing heap addr with
  | nil => exact .inl rfl
  | cons d data ih =>
    rcases hloc : self.resolve addr with _ | ⟨id, key⟩
    · rw [writeBytes_cons_none hloc]
      exact .inr rfl
    · rw [writeBytes_cons_some hloc]
      exact ih _ _

/-- What a write leaves. Its exception has no text. -/
theorem byteAt_of_writes (htree : self.Tree) (flags : ℕ) {addr : ℕ}
    {out : Heap ι × Option MemError} (h : Writes heap self addr data out) :
    (out.2.map MemError.text).getD "" = "" ∧ Handler.byteAt out.1 self =
      (Command.mwr flags addr data).store self (Handler.byteAt heap self) := by
  obtain rfl := Yields.unique (fun fuel out h => writeLoop_persists fuel _ _ _ _ _ _ out h) h
    (writes_stretch heap self htree addr data)
  refine ⟨?_, funext fun x => ?_⟩
  · rcases writeBytes_error self heap addr (data.take (self.stretch addr data.length))
      with herr | herr
    · rw [herr]
      rfl
    · rw [herr]
      rfl
  · rw [Command.store, Command.stored]
    rcases hloc : self.resolve addr with _ | ⟨id, key⟩
    · rw [if_neg (by simp)]
      cases data.take (self.stretch addr data.length) with
      | nil => rfl
      | cons d data => rw [writeBytes_cons_none hloc]; rfl
    · rw [byteAt_writeBytes htree fun i hi => ?_]
      · simp
      · rw [List.length_take] at hi
        rw [resolve_stretch self htree hloc (n := data.length) (by omega)]
        exact Option.some_ne_none _

/-- Without a pending error a command does to the bytes what it says, and no error comes up. -/
theorem execute_handlerMethods (htree : self.Tree) {c : Command} (hends : c.Ends self)
    {server : Server (Heap ι)} (hpending : server.pendingError = "") :
    ∃ heap, Handler.byteAt heap self = c.store self (Handler.byteAt server.handler self) ∧
      ∃ fuel₀, ∀ fuel ≥ fuel₀, execute (handlerMethods idcode idcode2 self fuel) server c =
        { server with
          handler := heap
          running := server.running && c ≠ .stop
          sent := server.sent ++ c.reply idcode idcode2 (Handler.byteAt server.handler self) } := by
  obtain ⟨handler, pendingError, running, sent⟩ := server
  obtain rfl : pendingError = "" := hpending
  cases c with
  | mwr flags addr payload =>
    obtain ⟨fuel₀, hwrite⟩ := writes_stretch handler self htree addr payload
    obtain ⟨htext, hbytes⟩ := byteAt_of_writes htree flags ⟨fuel₀, hwrite⟩
    generalize writeBytes self handler addr _ = out at hwrite htext hbytes
    obtain ⟨heap, e⟩ := out
    refine ⟨heap, hbytes, fuel₀, fun fuel hfuel => ?_⟩
    have hwrite : writeMem fuel handler self addr payload = some (heap, e) :=
      Persists.le (fun fuel out h => writeLoop_persists fuel _ _ _ _ _ _ out h) hfuel hwrite
    simp only [execute, handlerMethods, hwrite]
    cases e with
    | none => simp [Command.reply]
    | some e =>
      have htext : e.text = "" := htext
      simp [htext, Command.reply]
  | mrd flags addr n =>
    obtain ⟨fuel₀, hreads⟩ := (reads_iff handler self htree addr n).mpr (hends handler)
    refine ⟨handler, rfl, fuel₀, fun fuel hfuel => ?_⟩
    have hreads : readMem handler fuel self addr n =
        some (.ok (span (Handler.byteAt handler self) addr n)) :=
      Persists.le (fun fuel out h => readLoop_persists handler fuel _ _ _ _ _ out h) hfuel hreads
    simp only [execute, handlerMethods, hreads]
    simp [Command.reply]
  | error =>
    have hempty : writeUleb128 0 = [0] := if_pos rfl
    exact ⟨handler, rfl, 0, fun fuel _ => by simp [execute, Command.reply, hempty]⟩
  | _ => exact ⟨handler, rfl, 0, fun fuel _ => by simp [execute, handlerMethods, Command.reply]⟩

theorem executeAll_handlerMethods (htree : self.Tree) {cs : List Command}
    (hends : ∀ c ∈ cs, c.Ends self) :
    ∀ {server : Server (Heap ι)}, server.pendingError = "" →
    ∃ heap, Handler.byteAt heap self =
        cs.foldl (Command.store self) (Handler.byteAt server.handler self) ∧
      ∃ fuel₀, ∀ fuel ≥ fuel₀, executeAll (handlerMethods idcode idcode2 self fuel) server cs =
        { server with
          handler := heap
          running := server.running && .stop ∉ cs
          sent := server.sent ++
            replies idcode idcode2 self (Handler.byteAt server.handler self) cs } := by
  induction cs with
  | nil =>
    intro server _
    exact ⟨server.handler, rfl, 0, fun fuel _ => by simp [executeAll, replies]⟩
  | cons c cs ih =>
    intro server hpending
    obtain ⟨hc, hcs⟩ := List.forall_mem_cons.mp hends
    obtain ⟨heap₁, hbytes₁, fuel₁, hfirst⟩ :=
      execute_handlerMethods idcode idcode2 htree hc hpending
    obtain ⟨heap, hbytes, fuel₂, hrest⟩ := @ih hcs
      { server with
        handler := heap₁
        running := server.running && c ≠ .stop
        sent := server.sent ++
          c.reply idcode idcode2 (Handler.byteAt server.handler self) } hpending
    refine ⟨heap, by rw [hbytes, hbytes₁, List.foldl_cons], max fuel₁ fuel₂, fun fuel hfuel => ?_⟩
    have hfirst := hfirst fuel (le_trans (le_max_left _ _) hfuel)
    have hrest := hrest fuel (le_trans (le_max_right _ _) hfuel)
    rw [executeAll, List.foldl_cons, hfirst, ← executeAll, hrest, replies, hbytes₁]
    simp [Bool.and_assoc, eq_comm, not_or]

/-- Whatever the client sends, the replies are those of single bytes, where a read returns what the
    last write before it stored, and after the session the handlers hold these bytes. -/
theorem serve_session {cut : ℕ → ℕ} (hcut : ∀ k, 0 < cut k) (htree : self.Tree) {cs : List Command}
    (hwf : ∀ c ∈ cs, c.WellFormed) (hdelivered : Delivered cut cs)
    (hends : ∀ c ∈ cs, c.Ends self) (heap : Heap ι) :
    ∃ heap', (∀ x, Handler.byteAt heap' self x =
        (cs.reverse.findSome? (·.stored self x)).getD (Handler.byteAt heap self x)) ∧
      ∃ fuel₀, ∀ fuel ≥ fuel₀,
        serve cut (handlerMethods idcode idcode2 self fuel) { handler := heap }
            (cs.flatMap Command.bytes) =
          ({ handler := heap'
             running := .stop ∉ cs
             sent := replies idcode idcode2 self (Handler.byteAt heap self) cs },
            cs.map fun c => { command := some c, consumed := c.bytes.length }) := by
  obtain ⟨heap', hbytes, fuel₀, hall⟩ := executeAll_handlerMethods idcode idcode2 htree hends
    (show ({ handler := heap } : Server (Heap ι)).pendingError = "" from rfl)
  refine ⟨heap', fun x => by rw [hbytes, foldl_store], fuel₀, fun fuel hfuel => ?_⟩
  have hserve := (faithful_iff hcut (handlerMethods idcode idcode2 self fuel)
    (show ({ handler := heap } : Server (Heap ι)).running = true from rfl) hwf).mpr hdelivered
  rw [hserve, hall fuel hfuel]
  simp

end Methods

/-- A write over the end of the first handler, and what the two handlers hold then. -/
def exampleSession : List Command :=
  [.mwr 0 20 [1, 2, 3, 4, 5, 6], .mrd 0 20 4, .mrd 0 24 2, .stop]

theorem serve_session_twoHandlers : Handler.exampleHandler.Tree ∧ ∃ fuel₀, ∀ fuel ≥ fuel₀,
    (serve (· + 1) (handlerMethods 0 0 Handler.exampleHandler fuel) { handler := fun _ _ => 0 }
      (exampleSession.flatMap Command.bytes)).1.sent = [0, 1, 2, 3, 4, 0, 0, 0, 0, 0] := by
  have hnext : Handler.exampleHandler.next? 20 = some (.mk 16 8 (some 1) []) := rfl
  have hnext' : Handler.exampleHandler.next? 24 = some (.mk 24 8 (some 2) []) := rfl
  have hends : ∀ c ∈ exampleSession, c.Ends Handler.exampleHandler := by
    simp only [exampleSession, List.forall_mem_cons, List.not_mem_nil, false_implies, implies_true,
      and_true]
    exact ⟨trivial, fun heap => .inside hnext (by decide) (by decide) (.last rfl),
      fun heap => .inside hnext' (by decide) (by decide) (.last rfl), trivial⟩
  have hdelivered : Delivered (· + 1) exampleSession :=
    ⟨⟨List.cons_ne_nil 1 _, Nat.le_succ_of_le (Nat.le_add_right 6 _)⟩, nofun, trivial, nofun,
      trivial, nofun, trivial, fun _ => rfl, trivial⟩
  have hwf : ∀ c ∈ exampleSession, c.WellFormed := by
    simp only [exampleSession, List.forall_mem_cons, List.not_mem_nil, false_implies, implies_true,
      and_true]
    exact ⟨trivial, trivial, trivial, trivial⟩
  obtain ⟨heap', -, fuel₀, hserve⟩ := serve_session 0 0 Nat.succ_pos Handler.tree_example hwf
    hdelivered hends fun _ _ => 0
  refine ⟨Handler.tree_example, fuel₀, fun fuel hfuel => ?_⟩
  have hzero : Handler.byteAt (fun _ _ => 0) Handler.exampleHandler = fun _ => 0 := by
    funext x
    rw [Handler.byteAt]
    split <;> rfl
  have hstretch : Handler.exampleHandler.stretch 20 6 = 4 := by
    rw [Handler.stretch_next hnext, Handler.stretch_last rfl]
    decide
  have hresolve : Handler.exampleHandler.resolve 20 = some (1, 4) := by
    rw [Handler.resolve_of_at? (show _ = some (.mk 16 8 (some 1) []) from rfl),
      Handler.resolve_of_none rfl]
    rfl
  rw [hserve fuel hfuel, hzero]
  simp [exampleSession, replies, Command.reply, Handler.span, Command.store, Command.stored,
    hresolve, hstretch, List.range_succ]

end Chipscopy.Xvc
