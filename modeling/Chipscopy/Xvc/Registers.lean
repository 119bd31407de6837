import Chipscopy.Api.Memory

/-! Registers of an XVC server

    A register handler keeps its registers by address. A read or a write goes through them once and
    fills or skips what lies between. An access that starts inside a register is refused by the
    address test of the register, since that test is true only up to the register's first byte. -/

namespace Chipscopy.Xvc

open Api.Memory (wordAlign)

/-- `_value` has `length` bytes from the constructor on. -/
structure XVCRegister where
  addr : ℤ
  value : List UInt8
  readable : Bool := true
  writable : Bool := true
  deriving DecidableEq, Repr

def XVCRegister.length (reg : XVCRegister) : ℕ := reg.value.length

inductive XVCError
  | unwritable (reg : XVCRegister)
  | py (e : Py.Error)
  deriving DecidableEq

/-- First address behind a register. -/
def XVCRegister.stop (reg : XVCRegister) : ℤ := reg.addr + reg.length

/-- `self.addr >= addr < self.addr + self.length`. -/
def XVCRegister.validAddr (reg : XVCRegister) (addr : ℤ) : Prop := reg.addr ≥ addr ∧ addr < reg.stop

instance (reg : XVCRegister) (addr : ℤ) : Decidable (reg.validAddr addr) :=
  inferInstanceAs (Decidable (_ ∧ _))

/-- `read_reg` of a plain register is empty. -/
def XVCRegister.getReg (reg : XVCRegister) (addr : ℤ) (length : ℕ) : List UInt8 :=
  let length := min length reg.length
  if ¬ reg.validAddr addr ∨ ¬ reg.readable then List.replicate length 0
  else if reg.value = [] then List.replicate length 0
  else
    let offset := addr - reg.addr
    Py.slice reg.value offset (offset + length)

/-- `value[i] = b`. -/
def setItem (value : List UInt8) (i : ℤ) (b : UInt8) : Except Py.Error (List UInt8) :=
  let index := if i < 0 then i + value.length else i
  if 0 ≤ index ∧ index < value.length then .ok (value.set index.toNat b) else .error .indexError

/-- The bytes from an offset on, and how many were set. -/
def XVCRegister.setValue (reg : XVCRegister) (offset : ℤ) (data : List UInt8) :
    Except Py.Error (XVCRegister × ℤ) :=
  if reg.value = [] then .ok (reg, reg.length)
  else do
    let length := min (data.length : ℤ) (reg.length - offset)
    let value ← (List.range length.toNat).foldlM
      (fun value (i : ℕ) => setItem value (offset + i) (data.getD i 0)) reg.value
    return ({ reg with value := value }, length)

/-- `write_reg` of a plain register does nothing. -/
def XVCRegister.setReg (reg : XVCRegister) (addr : ℤ) (data : List UInt8) :
    Except XVCError (XVCRegister × ℤ) :=
  if ¬ reg.validAddr addr ∨ ¬ reg.writable then .error (.unwritable reg)
  else match reg.setValue (addr - reg.addr) data with
    | .ok res => .ok res
    | .error e => .error (.py e)

/-! ### What a register stores -/

theorem foldlM_setItem (data : List UInt8) : ∀ (k : ℕ) (value : List UInt8), k ≤ data.length →
    k ≤ value.length → (List.range k).foldlM
      (fun value (i : ℕ) => setItem value (0 + (i : ℤ)) (data.getD i 0)) value =
      .ok (data.take k ++ value.drop k)
  | 0, value, _, _ => by simp [pure, Except.pure]
  | k + 1, value, hdata, hvalue => by
    have hlen : (data.take k ++ value.drop k).length = value.length := by
      simp only [List.length_append, List.length_take, List.length_drop]
      omega
    have hset : (data.take k ++ value.drop k).set k (data.getD k 0) =
        data.take (k + 1) ++ value.drop (k + 1) := by
      rw [List.set_append_right _ _ (by simp), List.length_take, Nat.min_eq_left (by omega),
        Nat.sub_self, List.drop_eq_getElem_cons (show k < value.length by omega),
        List.set_cons_zero, List.take_succ_eq_append_getElem (show k < data.length by omega),
        List.append_assoc, List.singleton_append, List.getD_eq_getElem _ _ (by omega)]
    have hitem : setItem (data.take k ++ value.drop k) (0 + (k : ℤ)) (data.getD k 0) =
        .ok (data.take (k + 1) ++ value.drop (k + 1)) := by
      have hindex : ¬ (k : ℤ) < 0 := by omega
      simp only [setItem, zero_add, hlen, if_neg hindex]
      rw [if_pos (by omega), Int.toNat_natCast, hset]
    rw [List.range_succ, List.foldlM_append, foldlM_setItem data k value (by omega) (by omega),
      Py.ok_bind, List.foldlM_cons, hitem]
    rfl

theorem length_pos {reg : XVCRegister} (hpos : reg.value ≠ []) : 0 < reg.length :=
  List.length_pos_iff.mpr hpos

theorem validAddr_start {reg : XVCRegister} (hpos : reg.value ≠ []) : reg.validAddr reg.addr :=
  ⟨le_rfl, by
    have := length_pos hpos
    rw [XVCRegister.stop]
    omega⟩

/-- A plain register is set from its first byte on. -/
theorem setReg_start {reg : XVCRegister} (hpos : reg.value ≠ []) (hwritable : reg.writable)
    (data : List UInt8) : reg.setReg reg.addr data =
      .ok ({ reg with value := data.take reg.length ++ reg.value.drop data.length },
        (min data.length reg.length : ℕ)) := by
  have hvalid := validAddr_start hpos
  have hmin : min (data.length : ℤ) (reg.length - 0) = (min data.length reg.length : ℕ) := by
    omega
  have htake : data.take (min data.length reg.length) = data.take reg.length := by
    rw [List.take_eq_take_iff]
    omega
  have hdrop : reg.value.drop (min data.length reg.length) = reg.value.drop data.length := by
    rcases le_total data.length reg.length with h | h
    · rw [Nat.min_eq_left h]
    · rw [Nat.min_eq_right h,
        List.drop_of_length_le (show reg.value.length ≤ reg.length from le_rfl),
        List.drop_of_length_le (show reg.value.length ≤ data.length from h)]
  have hfold := foldlM_setItem data (min data.length reg.length) reg.value (Nat.min_le_left _ _)
    (Nat.min_le_right _ _)
  have hset : reg.setValue 0 data =
      .ok ({ reg with value := data.take reg.length ++ reg.value.drop data.length },
        (min data.length reg.length : ℕ)) := by
    simp only [XVCRegister.setValue, if_neg hpos, hmin, Int.toNat_natCast]
    rw [hfold, htake, hdrop]
    rfl
  rw [XVCRegister.setReg, if_neg (by simp [hvalid, hwritable]), sub_self, hset]

theorem getReg_start {reg : XVCRegister} (hpos : reg.value ≠ []) (hreadable : reg.readable)
    (n : ℕ) : reg.getReg reg.addr n = reg.value.take n := by
  have hvalid := validAddr_start hpos
  have hslice : Py.slice reg.value ((0 : ℕ) : ℤ) ((min n reg.length : ℕ) : ℤ) =
      Py.segment reg.value 0 (min n reg.length) :=
    Py.slice_eq_segment _ (Nat.zero_le _) (Nat.min_le_right _ _)
  rw [XVCRegister.getReg]
  simp only [hvalid, hreadable, not_true_eq_false, or_self, if_false, hpos, sub_self, zero_add]
  rw [Nat.cast_zero] at hslice
  rw [hslice, Py.segment, List.drop_zero, List.take_eq_take_iff, XVCRegister.length]
  omega

/-- Inside a register the address test fails. -/
theorem not_validAddr_inside {reg : XVCRegister} {addr : ℤ} (h : reg.addr < addr) :
    ¬ reg.validAddr addr := fun hvalid => absurd hvalid.1 (not_le.mpr h)

theorem length_getReg {reg : XVCRegister} {addr : ℤ} (haddr : reg.addr ≤ addr)
    (hstop : addr < reg.stop) (n : ℕ) : (reg.getReg addr n).length = min n reg.length := by
  have hpos : reg.value ≠ [] := by
    rintro h
    rw [XVCRegister.stop, XVCRegister.length, h, List.length_nil] at hstop
    omega
  by_cases hreg : ¬ reg.validAddr addr ∨ ¬ reg.readable
  · rw [XVCRegister.getReg]
    simp only [if_pos hreg, List.length_replicate]
  · obtain ⟨hvalid, hreadable⟩ := not_or.mp hreg
    obtain rfl : reg.addr = addr := le_antisymm haddr (not_not.mp hvalid).1
    rw [getReg_start hpos (not_not.mp hreadable), List.length_take, XVCRegister.length]

/-- A register that accepts data says how much of it. -/
theorem setReg_ok {reg reg' : XVCRegister} {addr k : ℤ} {data : List UInt8}
    (haddr : reg.addr ≤ addr) (hstop : addr < reg.stop) (h : reg.setReg addr data = .ok (reg', k)) :
    k = (min data.length reg.length : ℕ) := by
  have hpos : reg.value ≠ [] := by
    rintro h
    rw [XVCRegister.stop, XVCRegister.length, h, List.length_nil] at hstop
    omega
  by_cases hreg : ¬ reg.validAddr addr ∨ ¬ reg.writable
  · rw [XVCRegister.setReg, if_pos hreg] at h
    cases h
  · obtain ⟨hvalid, hwritable⟩ := not_or.mp hreg
    obtain rfl : reg.addr = addr := le_antisymm haddr (not_not.mp hvalid).1
    rw [setReg_start hpos (not_not.mp hwritable)] at h
    cases h
    rfl

/-! ### The loops over the registers -/

/-- Loop of `get_mem`. A register that ends before the address is passed for good. -/
def getMemLoop : List XVCRegister → ℤ → ℕ → List UInt8
  | [], _, numBytes => List.replicate numBytes 0
  | reg :: regs, addr, numBytes =>
    if numBytes = 0 then []
    else if reg.stop ≤ addr then getMemLoop regs addr numBytes
    else if reg.addr ≤ addr ∧ addr < reg.stop then
      let data := reg.getReg addr numBytes
      data ++ getMemLoop (reg :: regs) (addr + data.length) (numBytes - data.length)
    else
      let length := min (reg.addr - addr).toNat numBytes
      List.replicate length 0 ++ getMemLoop (reg :: regs) (addr + length) (numBytes - length)
termination_by regs _ numBytes => (numBytes, regs.length)
decreasing_by
  · simp only [List.length_cons, Prod.lex_def, lt_add_iff_pos_right, Nat.lt_irrefl, zero_lt_one,
      and_self, or_true]
  · rename_i hn hstop hin
    have hlen := length_getReg hin.1 hin.2 numBytes
    have hreg : 0 < reg.length := by
      rw [XVCRegister.stop] at hstop
      omega
    exact Prod.Lex.left _ _ (by omega)
  · rename_i hn hstop hin
    exact Prod.Lex.left _ _ (by omega)

/-- Loop of `set_mem`. What was stored stays when a register refuses. -/
def setMemLoop : List XVCRegister → ℤ → List UInt8 → List XVCRegister × Option XVCError
  | [], _, _ => ([], none)
  | reg :: regs, addr, data =>
    if data = [] then (reg :: regs, none)
    else if reg.stop ≤ addr then
      let (regs, error) := setMemLoop regs addr data
      (reg :: regs, error)
    else if reg.addr ≤ addr ∧ addr < reg.stop then
      match _hset : reg.setReg addr (data.take (min data.length reg.length)) with
      | .error e => (reg :: regs, some e)
      | .ok (reg', numBytes) =>
        setMemLoop (reg' :: regs) (addr + numBytes) (data.drop numBytes.toNat)
    else
      let numBytes := min (reg.addr - addr).toNat data.length
      setMemLoop (reg :: regs) (addr + numBytes) (data.drop numBytes)
termination_by regs _ data => (data.length, regs.length)
decreasing_by
  · simp only [List.length_cons, Prod.lex_def, lt_add_iff_pos_right, Nat.lt_irrefl, zero_lt_one,
      and_self, or_true]
  · rename_i hn hstop hin
    have hk := setReg_ok hin.1 hin.2 _hset
    have hdata := List.length_pos_iff.mpr hn
    have hreg : 0 < reg.length := by
      rw [XVCRegister.stop] at hstop
      omega
    rw [List.length_take] at hk
    exact Prod.Lex.left _ _ (by rw [List.length_drop]; omega)
  · rename_i hn hstop hin
    have hdata := List.length_pos_iff.mpr hn
    exact Prod.Lex.left _ _ (by rw [List.length_drop]; omega)

/-- Registers of a handler, by address. -/
def getMem (registers : List XVCRegister) (addr : ℤ) (numBytes : ℕ) :
    Except Py.Error (List UInt8) := do
  let addr ← wordAlign addr
  return getMemLoop registers addr numBytes

def setMem (registers : List XVCRegister) (addr : ℤ) (data : List UInt8) :
    List XVCRegister × Option XVCError :=
  match wordAlign addr with
  | .ok addr => setMemLoop registers addr data
  | .error e => (registers, some (.py e))

theorem getMem_ok {addr start : ℤ} (h : wordAlign addr = .ok start) (registers : List XVCRegister)
    (numBytes : ℕ) :
    getMem registers addr numBytes = .ok (getMemLoop registers start numBytes) := by
  rw [getMem, h]
  rfl

theorem setMem_ok {addr start : ℤ} (h : wordAlign addr = .ok start) (registers : List XVCRegister)
    (data : List UInt8) : setMem registers addr data = setMemLoop registers start data := by
  delta setMem
  rw [h]

end Chipscopy.Xvc
