import Chipscopy.Lib.Fuel
import Chipscopy.Lib.Python

/-! Memory handlers of an XVC server

    A handler passes an access on to the handlers below it, by address, and answers for the rest
    itself. The loops of reads and writes keep the address the access started at, and with it the
    handler they met first. -/

namespace Chipscopy.Xvc

/-- A handler with its sub-handlers. Memory handlers name the dictionary that holds their bytes. -/
inductive Handler (ι : Type) where
  | mk (addr : ℤ) (length : ℕ) (mem : Option ι) (subHandlers : List (Handler ι))

/-- The dictionaries, with zero for a missing key. -/
abbrev Heap (ι : Type) := ι → ℤ → UInt8

inductive MemError
  | notImplemented
  | negativeCount
  deriving DecidableEq, Repr

namespace Handler

variable {ι : Type}

def addr : Handler ι → ℤ
  | mk addr _ _ _ => addr

def length : Handler ι → ℕ
  | mk _ length _ _ => length

def mem : Handler ι → Option ι
  | mk _ _ mem _ => mem

def subHandlers : Handler ι → List (Handler ι)
  | mk _ _ _ subHandlers => subHandlers

def stop (handler : Handler ι) : ℤ := handler.addr + handler.length

def isValidAddr (handler : Handler ι) (addr : ℤ) : Prop :=
  handler.addr ≤ addr ∧ addr < handler.stop

instance (handler : Handler ι) (addr : ℤ) : Decidable (handler.isValidAddr addr) :=
  inferInstanceAs (Decidable (_ ∧ _))

/-- A handler without memory reads zeros, `bytes(num_bytes)`. -/
def getMem (heap : Heap ι) (handler : Handler ι) (addr numBytes : ℤ) :
    Except MemError (List UInt8) :=
  match handler.mem with
  | some id => .ok ((List.range numBytes.toNat).map fun i : ℕ => heap id (addr + i))
  | none => if numBytes < 0 then .error .negativeCount else .ok (List.replicate numBytes.toNat 0)

end Handler

section Model

variable {ι : Type} [DecidableEq ι]

/-- `self.mem[addr] = d`. -/
def Heap.put (heap : Heap ι) (id : ι) (addr : ℤ) (d : UInt8) : Heap ι :=
  Function.update heap id (Function.update (heap id) addr d)

/-- Bytes from an address on. -/
def Heap.putAll (id : ι) : Heap ι → ℤ → List UInt8 → Heap ι
  | heap, _, [] => heap
  | heap, addr, d :: data => Heap.putAll id (heap.put id addr d) (addr + 1) data

def Handler.setMem (heap : Heap ι) (handler : Handler ι) (addr : ℤ) (data : List UInt8) :
    Heap ι × Option MemError :=
  match handler.mem with
  | some id => (heap.putAll id addr data, none)
  | none => (heap, some .notImplemented)

/-- Loop of `read_mem`, with the handlers its iterator still holds. -/
def readLoop (heap : Heap ι) : ℕ → Handler ι → ℤ → ℤ → List (Handler ι) → List UInt8 →
    Option (Except MemError (List UInt8))
  | 0, _, _, _, _, _ => none
  | fuel + 1, self, addr, numBytes, handlers, data =>
    if data.length < numBytes then
      let curAddr := addr + data.length
      match handlers.dropWhile fun handler => handler.stop ≤ addr with
      | [] => some ((self.getMem heap curAddr (numBytes - data.length)).map (data ++ ·))
      | handler :: handlers =>
        if handler.isValidAddr curAddr then
          let locAddr := curAddr - handler.addr
          let length := min (numBytes - data.length) (handler.length - locAddr)
          match readLoop heap fuel handler locAddr length handler.subHandlers [] with
          | some (.ok bytes) =>
            readLoop heap fuel self addr numBytes (handler :: handlers) (data ++ bytes)
          | out => out
        else
          let length := min (handler.addr - addr) (numBytes - data.length)
          match self.getMem heap curAddr length with
          | .ok bytes => readLoop heap fuel self addr numBytes (handler :: handlers) (data ++ bytes)
          | .error e => some (.error e)
    else some (.ok data)

def readMem (heap : Heap ι) (fuel : ℕ) (self : Handler ι) (addr numBytes : ℤ) :
    Option (Except MemError (List UInt8)) :=
  readLoop heap fuel self addr numBytes self.subHandlers []

/-- Loop of `write_mem`. The heap keeps what was written before an exception. -/
def writeLoop : ℕ → Heap ι → Handler ι → ℤ → List UInt8 → List (Handler ι) → ℤ →
    Option (Heap ι × Option MemError)
  | 0, _, _, _, _, _, _ => none
  | fuel + 1, heap, self, addr, data, handlers, offset =>
    if offset < data.length then
      match handlers.dropWhile fun handler => handler.stop ≤ addr with
      | [] =>
        let length := data.length - offset
        some (self.setMem heap (addr + offset) (Py.slice data offset length))
      | handler :: handlers =>
        if handler.isValidAddr addr then
          let length := min (data.length - offset) (handler.length - (addr - handler.addr))
          match writeLoop fuel heap handler (addr - handler.addr) (Py.slice data offset length)
            handler.subHandlers 0 with
          | some (heap, none) =>
            writeLoop fuel heap self addr data (handler :: handlers) (offset + length)
          | out => out
        else
          let length := min (handler.addr - addr) (data.length - offset)
          match self.setMem heap (addr + offset) (Py.slice data offset length) with
          | (heap, none) =>
            writeLoop fuel heap self addr data (handler :: handlers) (offset + length)
          | out => some out
    else some (heap, none)

def writeMem (fuel : ℕ) (heap : Heap ι) (self : Handler ι) (addr : ℤ) (data : List UInt8) :
    Option (Heap ι × Option MemError) :=
  writeLoop fuel heap self addr data self.subHandlers 0

end Model

/-! ### The handler of an address -/

namespace Handler

variable {ι : Type}

/-- The sub-handler at an address. -/
def at? (self : Handler ι) (x : ℤ) : Option (Handler ι) :=
  self.subHandlers.find? fun handler => handler.isValidAddr x

/-- The first sub-handler that ends behind an address. -/
def next? (self : Handler ι) (addr : ℤ) : Option (Handler ι) :=
  self.subHandlers.find? fun handler => addr < handler.stop

theorem sizeOf_lt {self handler : Handler ι} (h : handler ∈ self.subHandlers) :
    sizeOf handler < sizeOf self := by
  cases self with
  | mk addr length mem subHandlers =>
    have hlist : sizeOf handler < sizeOf subHandlers := List.sizeOf_lt_of_mem h
    rw [mk.sizeOf_spec]
    omega

theorem mem_of_at? {self handler : Handler ι} {x : ℤ} (h : self.at? x = some handler) :
    handler ∈ self.subHandlers := List.mem_of_find?_eq_some h

theorem mem_of_next? {self handler : Handler ι} {addr : ℤ} (h : self.next? addr = some handler) :
    handler ∈ self.subHandlers := List.mem_of_find?_eq_some h

/-- Dictionary and key of an address, none for a handler without memory. -/
def resolve (self : Handler ι) (x : ℤ) : Option (ι × ℤ) :=
  match _h : self.at? x with
  | some handler => resolve handler (x - handler.addr)
  | none => self.mem.map (·, x)
termination_by sizeOf self
decreasing_by exact sizeOf_lt (mem_of_at? _h)

/-- Induction over the handlers of a tree. -/
theorem tree_induction {P : Handler ι → Prop}
    (step : ∀ self, (∀ handler ∈ self.subHandlers, P handler) → P self) (self : Handler ι) :
    P self :=
  step self fun handler _hmem => tree_induction step handler
termination_by sizeOf self
decreasing_by exact sizeOf_lt _hmem

/-- A dictionary of the handler or of one below. -/
inductive Owns : Handler ι → ι → Prop
  | self {handler : Handler ι} {id : ι} (h : handler.mem = some id) : Owns handler id
  | sub {handler sub : Handler ι} {id : ι} (hsub : sub ∈ handler.subHandlers) (h : Owns sub id) :
    Owns handler id

/-- Sub-handlers ascend without a common address, and no two handlers share a dictionary. -/
inductive Tree : Handler ι → Prop
  | mk {self : Handler ι}
    (ascending : self.subHandlers.Pairwise fun handler later => handler.stop ≤ later.addr)
    (apart : self.subHandlers.Pairwise fun handler later => ∀ id, Owns handler id → ¬ Owns later id)
    (own : ∀ handler ∈ self.subHandlers, ∀ id, Owns handler id → self.mem ≠ some id)
    (subs : ∀ handler ∈ self.subHandlers, Tree handler) : Tree self

variable {self handler : Handler ι} {x addr : ℤ}

theorem resolve_of_at? (h : self.at? x = some handler) :
    self.resolve x = handler.resolve (x - handler.addr) := by
  rw [resolve]
  split
  next other hother =>
    obtain rfl := Option.some.inj (hother.symm.trans h)
    rfl
  next hnone => cases hnone.symm.trans h

theorem resolve_of_none (h : self.at? x = none) : self.resolve x = self.mem.map (·, x) := by
  rw [resolve]
  split
  next other hother => cases hother.symm.trans h
  next => rfl

namespace Tree

theorem ascending (h : self.Tree) :
    self.subHandlers.Pairwise fun handler later => handler.stop ≤ later.addr := by
  cases h
  assumption

theorem sub (h : self.Tree) (hmem : handler ∈ self.subHandlers) : handler.Tree := by
  cases h with
  | mk _ _ _ subs => exact subs handler hmem

end Tree

theorem addr_le_stop (handler : Handler ι) : handler.addr ≤ handler.stop := by
  rw [stop]
  omega

/-- Of ascending handlers the first that ends behind an address is the only one it can be in. -/
theorem find?_isValidAddr : ∀ {handlers : List (Handler ι)},
    (handlers.Pairwise fun handler later => handler.stop ≤ later.addr) → ∀ x,
    (handlers.find? fun handler => handler.isValidAddr x) =
      (handlers.find? fun handler => x < handler.stop).filter fun handler => handler.addr ≤ x
  | [], _, _ => rfl
  | handler :: handlers, h, x => by
    have ih := find?_isValidAddr h.of_cons x
    rw [List.find?_cons, List.find?_cons]
    by_cases hstop : x < handler.stop
    · by_cases haddr : handler.addr ≤ x
      · simp only [isValidAddr, hstop, haddr, and_self, decide_true, Option.filter_some, if_true]
      · have hnone : (handlers.find? fun later => later.isValidAddr x) = none := by
          refine List.find?_eq_none.mpr fun later hlater => ?_
          have hle := List.rel_of_pairwise_cons h hlater
          have := handler.addr_le_stop
          rw [decide_eq_true_eq]
          rintro ⟨hfrom, -⟩
          omega
        simp only [isValidAddr, hstop, haddr, and_true, decide_true, decide_false,
          Option.filter_some, Bool.false_eq_true, if_false]
        exact hnone
    · simp only [isValidAddr, hstop, and_false, decide_false]
      exact ih

theorem at?_of_next? (h : self.Tree) (hnext : self.next? x = some handler)
    (haddr : handler.addr ≤ x) : self.at? x = some handler := by
  rw [at?, find?_isValidAddr h.ascending, ← next?, hnext, Option.filter_some, if_pos (by simpa)]

theorem at?_of_next?_gap (h : self.Tree) (hnext : self.next? x = some handler)
    (haddr : x < handler.addr) : self.at? x = none := by
  rw [at?, find?_isValidAddr h.ascending, ← next?, hnext, Option.filter_some, if_neg (by simpa)]

theorem at?_of_next?_none (h : self.Tree) (hnext : self.next? x = none) : self.at? x = none := by
  rw [at?, find?_isValidAddr h.ascending, ← next?, hnext]
  rfl

/-- Up to its end the same handler is the next one. -/
theorem next?_of_le (hnext : self.next? addr = some handler) (hle : addr ≤ x)
    (hstop : x < handler.stop) : self.next? x = some handler := by
  obtain ⟨-, passed, rest, hsplit, hpassed⟩ := List.find?_eq_some_iff_append.mp hnext
  refine List.find?_eq_some_iff_append.mpr ⟨decide_eq_true hstop, passed, rest, hsplit, ?_⟩
  rintro other hother
  have hbefore := hpassed other hother
  simp only [Bool.not_eq_eq_eq_not, Bool.not_true, decide_eq_false_iff_not] at hbefore ⊢
  omega

/-- Behind the last handler there is none. -/
theorem next?_eq_none_of_le (hnext : self.next? addr = none) (hle : addr ≤ x) :
    self.next? x = none := by
  refine List.find?_eq_none.mpr fun handler hmem => ?_
  have hbefore := List.find?_eq_none.mp hnext handler hmem
  simp only [decide_eq_true_eq] at hbefore ⊢
  omega

theorem lt_stop_of_next? (hnext : self.next? addr = some handler) : addr < handler.stop :=
  of_decide_eq_true (List.find?_some (p := fun h : Handler ι => decide (addr < h.stop)) hnext)

/-- The inner loops stop at the first handler that ends behind the address. -/
theorem next?_eq_head? (self : Handler ι) (addr : ℤ) : self.next? addr =
    (self.subHandlers.dropWhile fun handler => handler.stop ≤ addr).head? := by
  rw [next?, ← List.find?_not_eq_head?_dropWhile]
  refine congrArg (List.find? · self.subHandlers) (funext fun handler => ?_)
  simp only [← decide_not, not_le]

/-- There they stay. -/
theorem dropWhile_dropWhile {handlers rest : List (Handler ι)}
    (h : (handlers.dropWhile fun handler => handler.stop ≤ addr) = handler :: rest) :
    ((handler :: rest).dropWhile fun handler => handler.stop ≤ addr) = handler :: rest := by
  rw [← h, List.dropWhile_idempotent]

end Handler

end Chipscopy.Xvc
