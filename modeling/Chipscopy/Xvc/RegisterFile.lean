import Chipscopy.Xvc.Registers

/-! Bytes of a register file

    What a handler's registers store is a byte for each address they cover. Reads and writes that
    start at no address inside a register go through the registers byte by byte; any other one is
    refused or reads zeros. -/

namespace Chipscopy.Xvc

open Api.Memory (wordAlign)

/-- Registers with plain read and write access, by address and apart. -/
structure RegisterFile (registers : List XVCRegister) : Prop where
  sorted : registers.Pairwise fun reg reg' => reg.stop ≤ reg'.addr
  positive : ∀ reg ∈ registers, reg.value ≠ []
  readable : ∀ reg ∈ registers, reg.readable
  writable : ∀ reg ∈ registers, reg.writable

def XVCRegister.Covers (reg : XVCRegister) (x : ℤ) : Prop := reg.addr ≤ x ∧ x < reg.stop

instance (reg : XVCRegister) (x : ℤ) : Decidable (reg.Covers x) :=
  inferInstanceAs (Decidable (_ ∧ _))

/-- The byte stored for an address, zero where no register is. -/
def byteAt (registers : List XVCRegister) (x : ℤ) : UInt8 :=
  match registers.find? fun reg => reg.Covers x with
  | some reg => reg.value.getD (x - reg.addr).toNat 0
  | none => 0

def readBytes (registers : List XVCRegister) (addr : ℤ) (numBytes : ℕ) : List UInt8 :=
  (List.range numBytes).map fun i : ℕ => byteAt registers (addr + i)

/-- A register with the bytes of a write that fall on it. -/
def patched (addr : ℤ) (data : List UInt8) (reg : XVCRegister) : XVCRegister where
  addr := reg.addr
  value := reg.value.mapIdx fun i b =>
    if addr ≤ reg.addr + i then data.getD (reg.addr + i - addr).toNat b else b
  readable := reg.readable
  writable := reg.writable

/-- No register has an address strictly inside. -/
def Outside (registers : List XVCRegister) (addr : ℤ) : Prop :=
  ∀ reg ∈ registers, reg.stop ≤ addr ∨ addr ≤ reg.addr

instance (registers : List XVCRegister) (addr : ℤ) : Decidable (Outside registers addr) :=
  inferInstanceAs (Decidable (∀ reg ∈ registers, _))

/-- An access from outside starts at the first byte of the register it meets. -/
theorem Outside.start_eq {reg : XVCRegister} {registers : List XVCRegister} {addr : ℤ}
    (h : Outside (reg :: registers) addr) (hin : reg.addr ≤ addr ∧ addr < reg.stop) :
    reg.addr = addr := by
  rcases h reg List.mem_cons_self with hle | hle
  · omega
  · exact le_antisymm hin.1 hle

namespace RegisterFile

variable {reg : XVCRegister} {registers : List XVCRegister}

theorem of_cons (h : RegisterFile (reg :: registers)) : RegisterFile registers where
  sorted := h.sorted.of_cons
  positive r hr := h.positive r (List.mem_cons_of_mem _ hr)
  readable r hr := h.readable r (List.mem_cons_of_mem _ hr)
  writable r hr := h.writable r (List.mem_cons_of_mem _ hr)

theorem stop_le (h : RegisterFile (reg :: registers)) : ∀ r ∈ registers, reg.stop ≤ r.addr :=
  fun _ hr => List.rel_of_pairwise_cons h.sorted hr

theorem lt_stop (h : RegisterFile registers) : ∀ r ∈ registers, r.addr < r.stop := fun r hr => by
  have := length_pos (h.positive r hr)
  rw [XVCRegister.stop]
  omega

/-- What the register file says of a register does not depend on the bytes in it. -/
theorem head (h : RegisterFile (reg :: registers)) {reg' : XVCRegister}
    (haddr : reg'.addr = reg.addr) (hlen : reg'.length = reg.length)
    (hreadable : reg'.readable = reg.readable) (hwritable : reg'.writable = reg.writable) :
    RegisterFile (reg' :: registers) where
  sorted := List.pairwise_cons.mpr ⟨fun r hr => by
    rw [XVCRegister.stop, haddr, hlen]
    exact h.stop_le r hr, h.sorted.of_cons⟩
  positive := List.forall_mem_cons.mpr ⟨by
    have := length_pos (h.positive reg List.mem_cons_self)
    rw [← hlen] at this
    exact List.length_pos_iff.mp this, h.of_cons.positive⟩
  readable := List.forall_mem_cons.mpr
    ⟨hreadable ▸ h.readable reg List.mem_cons_self, h.of_cons.readable⟩
  writable := List.forall_mem_cons.mpr
    ⟨hwritable ▸ h.writable reg List.mem_cons_self, h.of_cons.writable⟩

end RegisterFile

@[simp] theorem length_patched (addr : ℤ) (data : List UInt8) (reg : XVCRegister) :
    (patched addr data reg).length = reg.length := by
  simp only [XVCRegister.length, patched, List.length_mapIdx]

@[simp] theorem stop_patched (addr : ℤ) (data : List UInt8) (reg : XVCRegister) :
    (patched addr data reg).stop = reg.stop := by
  simp only [XVCRegister.stop, length_patched]
  rfl

theorem RegisterFile.patched {registers : List XVCRegister} (h : RegisterFile registers) (addr : ℤ)
    (data : List UInt8) : RegisterFile (registers.map (patched addr data)) where
  sorted := List.pairwise_map.mpr (h.sorted.imp fun hle => by
    rw [stop_patched]
    exact hle)
  positive := List.forall_mem_map.mpr fun reg hreg => by
    have := length_pos (h.positive reg hreg)
    rw [← length_patched addr data] at this
    exact List.length_pos_iff.mp this
  readable := List.forall_mem_map.mpr h.readable
  writable := List.forall_mem_map.mpr h.writable

theorem getElem?_patched (addr : ℤ) (data : List UInt8) (reg : XVCRegister) (i : ℕ) :
    (patched addr data reg).value[i]? = reg.value[i]?.map fun b =>
      if addr ≤ reg.addr + i then data.getD (reg.addr + i - addr).toNat b else b := by
  simp only [Chipscopy.Xvc.patched, List.getElem?_mapIdx]

theorem byteAt_cons (reg : XVCRegister) (registers : List XVCRegister) (x : ℤ) :
    byteAt (reg :: registers) x =
      if reg.Covers x then reg.value.getD (x - reg.addr).toNat 0 else byteAt registers x := by
  by_cases h : reg.Covers x
  · simp only [byteAt, List.find?_cons, h, decide_true, if_true]
  · simp only [byteAt, List.find?_cons, h, decide_false, if_false]

theorem byteAt_eq_zero {registers : List XVCRegister} {x : ℤ}
    (h : ∀ reg ∈ registers, ¬ reg.Covers x) : byteAt registers x = 0 := by
  induction registers with
  | nil => rfl
  | cons reg registers ih =>
    rw [byteAt_cons, if_neg (h reg List.mem_cons_self)]
    exact ih fun r hr => h r (List.mem_cons_of_mem _ hr)

theorem readBytes_add (registers : List XVCRegister) (addr : ℤ) (k n : ℕ) :
    readBytes registers addr (k + n) =
      readBytes registers addr k ++ readBytes registers (addr + k) n := by
  simp only [readBytes, List.range_add, List.map_append, List.map_map, Function.comp_def,
    Nat.cast_add, add_assoc]

theorem readBytes_eq_zero {registers : List XVCRegister} {addr : ℤ} {n : ℕ}
    (h : ∀ reg ∈ registers, reg.stop ≤ addr ∨ addr + n ≤ reg.addr) :
    readBytes registers addr n = List.replicate n 0 := by
  rw [readBytes, List.eq_replicate_iff, List.length_map, List.length_range]
  refine ⟨rfl, fun b hb => ?_⟩
  obtain ⟨i, hi, rfl⟩ := List.mem_map.mp hb
  refine byteAt_eq_zero fun reg hreg hcovers => ?_
  have hi := List.mem_range.mp hi
  rcases h reg hreg with hle | hle
  · have := hcovers.2
    omega
  · have := hcovers.1
    omega

theorem readBytes_start (reg : XVCRegister) (registers : List XVCRegister) (n : ℕ)
    (hn : n ≤ reg.length) : readBytes (reg :: registers) reg.addr n = reg.value.take n := by
  refine List.ext_getElem? fun i => ?_
  rcases Nat.lt_or_ge i n with hi | hi
  · have hcovers : reg.Covers (reg.addr + i) := ⟨by omega, by
      rw [XVCRegister.stop]
      omega⟩
    have hoffset : (reg.addr + i - reg.addr).toNat = i := by omega
    have hlt : i < reg.value.length := by
      rw [← XVCRegister.length]
      omega
    rw [readBytes, List.getElem?_map, List.getElem?_range hi, Option.map_some, byteAt_cons,
      if_pos hcovers, hoffset, List.getElem?_take_of_lt hi, List.getD_eq_getElem _ _ hlt,
      List.getElem?_eq_getElem hlt]
  · rw [List.getElem?_eq_none (by rw [readBytes, List.length_map, List.length_range]; exact hi),
      List.getElem?_eq_none (by rw [List.length_take]; omega)]

/-- Addresses behind a register are those of the registers that follow. -/
theorem readBytes_behind (reg : XVCRegister) (registers : List XVCRegister) {addr : ℤ}
    (h : reg.stop ≤ addr) (n : ℕ) :
    readBytes (reg :: registers) addr n = readBytes registers addr n := by
  refine List.map_congr_left fun i _ => ?_
  rw [byteAt_cons, if_neg fun hcovers => ?_]
  have := hcovers.2
  omega

/-- A read that starts outside the registers is bytewise. -/
theorem getMemLoop_eq (registers : List XVCRegister) (addr : ℤ) (numBytes : ℕ)
    (h : RegisterFile registers) (hout : numBytes ≠ 0 → Outside registers addr) :
    getMemLoop registers addr numBytes = readBytes registers addr numBytes := by
  induction registers, addr, numBytes using getMemLoop.induct with
  | case1 addr numBytes =>
    rw [getMemLoop, readBytes_eq_zero fun reg hreg => absurd hreg List.not_mem_nil]
  | case2 reg registers addr =>
    rw [getMemLoop, if_pos rfl]
    rfl
  | case3 reg registers addr numBytes hn hstop ih =>
    rw [getMemLoop, if_neg hn, if_pos hstop, readBytes_behind reg registers hstop]
    exact ih h.of_cons fun _ r hr => hout hn r (List.mem_cons_of_mem _ hr)
  | case4 reg registers addr numBytes hn hstop hin data ih =>
    obtain rfl := (hout hn).start_eq hin
    have hdata : data = reg.value.take numBytes :=
      getReg_start (h.positive reg List.mem_cons_self) (h.readable reg List.mem_cons_self) numBytes
    have hlen : data.length = min numBytes reg.length := by
      rw [hdata, List.length_take, XVCRegister.length]
    have hrest := ih h fun hleft r hr => by
      rcases List.mem_cons.mp hr with rfl | hr
      · left
        rw [XVCRegister.stop]
        omega
      · right
        have hle := h.stop_le r hr
        rw [XVCRegister.stop] at hle
        omega
    have hsplit : numBytes = data.length + (numBytes - data.length) := by omega
    have hstart : readBytes (reg :: registers) reg.addr data.length = data := by
      rw [readBytes_start reg registers data.length (by omega), hdata, List.length_take,
        List.take_eq_take_iff]
      omega
    rw [getMemLoop, if_neg hn, if_neg hstop, if_pos hin]
    conv_rhs => rw [hsplit, readBytes_add, hstart, ← hrest]
  | case5 reg registers addr numBytes hn hstop hin length ih =>
    have hgap : addr < reg.addr := by omega
    have hrest := ih h fun hleft r hr => by
      right
      rcases List.mem_cons.mp hr with rfl | hr
      · omega
      · have hle := h.stop_le r hr
        have := h.lt_stop reg List.mem_cons_self
        omega
    have hsplit : numBytes = length + (numBytes - length) := by omega
    have hzero : readBytes (reg :: registers) addr length = List.replicate length 0 :=
      readBytes_eq_zero fun r hr => by
        right
        rcases List.mem_cons.mp hr with rfl | hr
        · omega
        · have hle := h.stop_le r hr
          have := h.lt_stop reg List.mem_cons_self
          omega
    rw [getMemLoop, if_neg hn, if_neg hstop, if_neg hin]
    conv_rhs => rw [hsplit, readBytes_add, hzero, ← hrest]

/-! ### Writes -/

/-- A patched register is told by its bytes. -/
theorem patched_eq {addr : ℤ} {data : List UInt8} {reg reg' : XVCRegister}
    (haddr : reg'.addr = reg.addr) (hlen : reg'.length = reg.length)
    (hreadable : reg'.readable = reg.readable) (hwritable : reg'.writable = reg.writable)
    (h : ∀ (i : ℕ) b, reg.value[i]? = some b → reg'.value[i]? = some
      (if addr ≤ reg.addr + i then data.getD (reg.addr + i - addr).toNat b else b)) :
    patched addr data reg = reg' := by
  have hvalue : (patched addr data reg).value = reg'.value := by
    refine List.ext_getElem? fun i => ?_
    rw [getElem?_patched]
    rcases hb : reg.value[i]? with _ | b
    · have hi := List.getElem?_eq_none_iff.mp hb
      rw [Option.map_none, List.getElem?_eq_none (by rw [← XVCRegister.length, hlen]; exact hi)]
    · rw [Option.map_some, h i b hb]
  cases reg'
  simp only [patched, XVCRegister.mk.injEq] at hvalue haddr hreadable hwritable ⊢
  exact ⟨haddr.symm, hvalue, hreadable.symm, hwritable.symm⟩

/-- A write with no byte for a register leaves it. -/
theorem patched_eq_self {addr : ℤ} {data : List UInt8} {reg : XVCRegister}
    (h : ∀ i < reg.length, addr ≤ reg.addr + i → addr + data.length ≤ reg.addr + i) :
    patched addr data reg = reg :=
  patched_eq rfl rfl rfl rfl fun i b hb => by
    obtain ⟨hi, -⟩ := List.getElem?_eq_some_iff.mp hb
    rw [hb]
    split_ifs with hle
    · have := h i hi hle
      rw [List.getD_eq_default _ _ (by omega)]
    · rfl

theorem patched_nil (addr : ℤ) (reg : XVCRegister) : patched addr [] reg = reg :=
  patched_eq_self fun i _ hle => by
    rw [List.length_nil]
    omega

theorem patched_behind {addr : ℤ} {reg : XVCRegister} (h : reg.stop ≤ addr) (data : List UInt8) :
    patched addr data reg = reg :=
  patched_eq_self fun i hi hle => by
    rw [XVCRegister.stop] at h
    omega

/-- Bytes before a register do not matter to it. -/
theorem patched_drop {addr : ℤ} {k : ℕ} {reg : XVCRegister} (h : addr + k ≤ reg.addr)
    (data : List UInt8) : patched (addr + k) (data.drop k) reg = patched addr data reg :=
  patched_eq rfl (length_patched _ _ _) rfl rfl fun i b hb => by
    have hoffset : (reg.addr + i - addr).toNat = k + (reg.addr + i - (addr + k)).toNat := by omega
    rw [getElem?_patched, hb, Option.map_some, if_pos (by omega), if_pos (by omega), hoffset,
      List.getD_eq_getElem?_getD, List.getD_eq_getElem?_getD, List.getElem?_drop]

theorem map_patched_drop {addr : ℤ} {k : ℕ} {registers : List XVCRegister}
    (h : ∀ reg ∈ registers, addr + k ≤ reg.addr) (data : List UInt8) :
    registers.map (patched (addr + k) (data.drop k)) = registers.map (patched addr data) :=
  List.map_congr_left fun reg hreg => patched_drop (h reg hreg) data

/-- What a register stores of a write to its first byte is the write on its bytes. -/
theorem patched_start (reg : XVCRegister) (data : List UInt8) : patched reg.addr data reg =
    { reg with value := data.take reg.length ++ reg.value.drop data.length } := by
  refine patched_eq rfl ?_ rfl rfl fun i b hb => ?_
  · simp only [XVCRegister.length, List.length_append, List.length_take, List.length_drop]
    omega
  · obtain ⟨hi, -⟩ := List.getElem?_eq_some_iff.mp hb
    have hoffset : (reg.addr + i - reg.addr).toNat = i := by omega
    rw [if_pos (by omega), hoffset]
    rcases Nat.lt_or_ge i data.length with hlt | hge
    · rw [List.getElem?_append_left (by rw [List.length_take, XVCRegister.length]; omega),
        List.getElem?_take_of_lt (show i < reg.length from hi), List.getD_eq_getElem _ _ hlt,
        List.getElem?_eq_getElem hlt]
    · rw [List.getElem?_append_right (by rw [List.length_take]; omega), List.getElem?_drop,
        List.getD_eq_default _ _ hge, List.length_take, XVCRegister.length, ← hb]
      congr 1
      omega

/-- The loop hands over no more bytes than the register has. -/
theorem setReg_patched {reg : XVCRegister} (hpos : reg.value ≠ []) (hwritable : reg.writable)
    (data : List UInt8) : reg.setReg reg.addr (data.take (min data.length reg.length)) =
      .ok (patched reg.addr data reg, (min data.length reg.length : ℕ)) := by
  have htake : data.take (min data.length reg.length) = data.take reg.length := by
    rw [List.take_eq_take_iff]
    omega
  have hdrop : reg.value.drop (min reg.length data.length) = reg.value.drop data.length := by
    rcases le_total data.length reg.length with h | h
    · rw [Nat.min_eq_right h]
    · rw [Nat.min_eq_left h,
        List.drop_of_length_le (show reg.value.length ≤ reg.length from le_rfl),
        List.drop_of_length_le (show reg.value.length ≤ data.length from h)]
  have hmin : min (min reg.length data.length) reg.length = min data.length reg.length := by omega
  rw [htake, setReg_start hpos hwritable, patched_start, List.length_take, hdrop, hmin,
    List.take_take, Nat.min_self]

/-- A write that starts outside the registers is bytewise. -/
theorem setMemLoop_eq (registers : List XVCRegister) (addr : ℤ) (data : List UInt8)
    (h : RegisterFile registers) (hout : data ≠ [] → Outside registers addr) :
    setMemLoop registers addr data = (registers.map (patched addr data), none) := by
  induction registers, addr, data using setMemLoop.induct with
  | case1 addr data => rw [setMemLoop, List.map_nil]
  | case2 reg registers addr =>
    rw [setMemLoop, if_pos rfl, funext (patched_nil addr)]
    exact congrArg (·, none) (List.map_id _).symm
  | case3 reg registers addr data hn hstop out error hloop ih =>
    rw [setMemLoop, if_neg hn, if_pos hstop, List.map_cons, patched_behind hstop,
      ih h.of_cons fun _ r hr => hout hn r (List.mem_cons_of_mem _ hr)]
  | case4 reg registers addr data hn hstop hin e hset =>
    obtain rfl := (hout hn).start_eq hin
    rw [setReg_patched (h.positive reg List.mem_cons_self)
      (h.writable reg List.mem_cons_self)] at hset
    cases hset
  | case5 reg registers addr data hn hstop hin reg' numBytes hset ih =>
    obtain rfl := (hout hn).start_eq hin
    have hstored := hset
    rw [setReg_patched (h.positive reg List.mem_cons_self)
      (h.writable reg List.mem_cons_self)] at hstored
    obtain ⟨rfl, rfl⟩ := Prod.mk.inj (Except.ok.inj hstored)
    have hrest := ih (h.head rfl (length_patched _ _ _) rfl rfl) fun hleft r hr => by
      have hlong := List.length_pos_iff.mpr hleft
      rw [List.length_drop] at hlong
      rcases List.mem_cons.mp hr with rfl | hr
      · left
        rw [stop_patched, XVCRegister.stop]
        omega
      · right
        have hle := h.stop_le r hr
        rw [XVCRegister.stop] at hle
        omega
    have hreg : patched (reg.addr + (min data.length reg.length : ℕ))
        (data.drop (min data.length reg.length)) (patched reg.addr data reg) =
        patched reg.addr data reg := by
      rcases le_total data.length reg.length with hle | hle
      · rw [Nat.min_eq_left hle, List.drop_length, patched_nil]
      · rw [Nat.min_eq_right hle]
        exact patched_behind (by rw [stop_patched, XVCRegister.stop]) _
    have hregs : ∀ r ∈ registers, reg.addr + (min data.length reg.length : ℕ) ≤ r.addr := by
      rintro r hr
      have hle := h.stop_le r hr
      rw [XVCRegister.stop] at hle
      omega
    rw [Int.toNat_natCast, List.map_cons, hreg, map_patched_drop hregs] at hrest
    rw [setMemLoop, if_neg hn, if_neg hstop, if_pos hin]
    split
    next e herror => cases hset.symm.trans herror
    next reg' k hok =>
      cases hset.symm.trans hok
      exact hrest
  | case6 reg registers addr data hn hstop hin numBytes ih =>
    have hgap : addr < reg.addr := by omega
    have hbehind : ∀ r ∈ reg :: registers, reg.addr ≤ r.addr := fun r hr => by
      rcases List.mem_cons.mp hr with rfl | hr
      · rfl
      · have hle := h.stop_le r hr
        have := h.lt_stop reg List.mem_cons_self
        omega
    rw [setMemLoop, if_neg hn, if_neg hstop, if_neg hin, ih h fun hleft r hr => ?_,
      map_patched_drop fun r hr => ?_]
    · have := hbehind r hr
      omega
    · right
      have hlong := List.length_pos_iff.mpr hleft
      rw [List.length_drop] at hlong
      have := hbehind r hr
      omega

/-- A register that is met behind its first byte refuses the write. -/
theorem setMemLoop_inside {registers : List XVCRegister} {addr : ℤ} {data : List UInt8}
    (h : RegisterFile registers) (hdata : data ≠ []) (hin : ¬ Outside registers addr) :
    (setMemLoop registers addr data).2 ≠ none := by
  induction registers with
  | nil => exact absurd (fun reg hreg => absurd hreg List.not_mem_nil) hin
  | cons reg registers ih =>
    by_cases hstop : reg.stop ≤ addr
    · rw [setMemLoop, if_neg hdata, if_pos hstop]
      exact ih h.of_cons fun hout => hin (List.forall_mem_cons.mpr ⟨.inl hstop, hout⟩)
    · have haddr : reg.addr < addr := by
        by_contra hle
        refine hin (List.forall_mem_cons.mpr ⟨.inr (not_lt.mp hle), fun r hr => .inr ?_⟩)
        have := h.stop_le r hr
        omega
      have hset : ∀ bytes, reg.setReg addr bytes = .error (.unwritable reg) := fun bytes =>
        if_pos (.inl (not_validAddr_inside haddr))
      rw [setMemLoop, if_neg hdata, if_neg hstop, if_pos ⟨haddr.le, not_le.mp hstop⟩]
      split
      next e herror => exact Option.some_ne_none e
      next reg' k hok => cases (hset _).symm.trans hok

/-- The last byte of a register tells a write from the same write at a later address. -/
theorem patched_ne {a b : ℤ} {reg : XVCRegister} (hpos : reg.value ≠ []) (hab : a < b)
    (h : a < reg.stop) : ∃ data, patched a data reg ≠ patched b data reg := by
  have hlen := length_pos hpos
  rw [XVCRegister.stop] at h
  obtain ⟨c, hc⟩ : ∃ c, reg.value[reg.length - 1]? = some c :=
    ⟨_, List.getElem?_eq_getElem (show reg.length - 1 < reg.value.length by
      rw [← XVCRegister.length]
      omega)⟩
  set k := (reg.addr + (reg.length - 1 : ℕ) - a).toNat with hk
  refine ⟨List.replicate k c ++ [c + 1], fun heq => ?_⟩
  have hnew : (patched a (List.replicate k c ++ [c + 1]) reg).value[reg.length - 1]? =
      some (c + 1) := by
    rw [getElem?_patched, hc, Option.map_some, if_pos (by omega), ← hk, List.getD_eq_getElem?_getD,
      List.getElem?_append_right (by rw [List.length_replicate]), List.length_replicate,
      Nat.sub_self]
    rfl
  have hold : (patched b (List.replicate k c ++ [c + 1]) reg).value[reg.length - 1]? = some c := by
    rw [getElem?_patched, hc, Option.map_some]
    split_ifs with hle
    · have hlt : (reg.addr + (reg.length - 1 : ℕ) - b).toNat < k := by omega
      rw [List.getD_eq_getElem?_getD, List.getElem?_append_left (by rwa [List.length_replicate]),
        List.getElem?_replicate_of_lt hlt]
      rfl
    · rfl
  rw [heq, hold, Option.some_inj] at hnew
  have := congrArg UInt8.toNat hnew
  simp only [UInt8.toNat_add, UInt8.toNat_one] at this
  omega

/-! ### Accesses -/

/-- Reads return the stored bytes, writes store theirs where a register is and do not raise, and
    a read returns what was written there. -/
def Bytewise (registers : List XVCRegister) (addr : ℤ) : Prop :=
  (∀ n, getMem registers addr n = .ok (readBytes registers addr n)) ∧
  (∀ data, setMem registers addr data = (registers.map (patched addr data), none)) ∧
  ∀ data, getMem (setMem registers addr data).1 addr data.length =
    .ok (data.mapIdx fun i b => if ∃ reg ∈ registers, reg.Covers (addr + i) then b else 0)

theorem byteAt_patched {addr : ℤ} {data : List UInt8} {i : ℕ} {b : UInt8} (hb : data[i]? = some b)
    (registers : List XVCRegister) : byteAt (registers.map (patched addr data)) (addr + i) =
      if ∃ reg ∈ registers, reg.Covers (addr + i) then b else 0 := by
  induction registers with
  | nil =>
    rw [if_neg fun ⟨reg, hreg, _⟩ => absurd hreg List.not_mem_nil]
    rfl
  | cons reg registers ih =>
    have hpatched : (patched addr data reg).Covers (addr + i) ↔ reg.Covers (addr + i) := by
      simp only [XVCRegister.Covers, stop_patched]
      rfl
    rw [List.map_cons, byteAt_cons]
    by_cases hcovers : reg.Covers (addr + i)
    · rw [if_pos (hpatched.mpr hcovers), if_pos ⟨reg, List.mem_cons_self, hcovers⟩]
      obtain ⟨hle, hlt⟩ := hcovers
      rw [XVCRegister.stop] at hlt
      obtain ⟨k, hk⟩ := Int.le.dest hle
      have hoffset : (addr + i - (patched addr data reg).addr).toNat = k := by
        rw [show (patched addr data reg).addr = reg.addr from rfl]
        omega
      have hdata : (reg.addr + k - addr).toNat = i := by omega
      obtain ⟨c, hc⟩ : ∃ c, reg.value[k]? = some c :=
        ⟨_, List.getElem?_eq_getElem (show k < reg.value.length by
          rw [← XVCRegister.length]
          omega)⟩
      rw [hoffset, List.getD_eq_getElem?_getD, getElem?_patched, hc, Option.map_some,
        if_pos (by omega), hdata, List.getD_eq_getElem?_getD, hb]
      rfl
    · have hexists : (∃ r ∈ reg :: registers, r.Covers (addr + i)) ↔
          ∃ r ∈ registers, r.Covers (addr + i) := by
        simp only [List.exists_mem_cons_iff, hcovers, false_or]
      rw [if_neg fun h => hcovers (hpatched.mp h), ih, if_congr hexists rfl rfl]

/-- Written bytes are read where a register is. -/
theorem readBytes_patched (registers : List XVCRegister) (addr : ℤ) (data : List UInt8) :
    readBytes (registers.map (patched addr data)) addr data.length =
      data.mapIdx fun i b => if ∃ reg ∈ registers, reg.Covers (addr + i) then b else 0 := by
  refine List.ext_getElem? fun i => ?_
  rw [List.getElem?_mapIdx]
  rcases hi : data[i]? with _ | b
  · have hlen := List.getElem?_eq_none_iff.mp hi
    rw [List.getElem?_eq_none (by rw [readBytes, List.length_map, List.length_range]; exact hlen)]
    rfl
  · obtain ⟨hlt, -⟩ := List.getElem?_eq_some_iff.mp hi
    rw [readBytes, List.getElem?_map, List.getElem?_range hlt, Option.map_some, Option.map_some,
      byteAt_patched hi]

/-- Two addresses that no register ends behind read and write the same. -/
theorem readBytes_eq_of_behind {registers : List XVCRegister} {a b : ℤ}
    (h : ∀ reg ∈ registers, reg.stop ≤ min a b) (n : ℕ) :
    readBytes registers a n = readBytes registers b n := by
  rw [readBytes_eq_zero fun reg hreg => .inl ((h reg hreg).trans (min_le_left a b)),
    readBytes_eq_zero fun reg hreg => .inl ((h reg hreg).trans (min_le_right a b))]

/-- An access is bytewise if it starts at no address inside a register, and is one that the
    alignment through a float keeps or has all registers behind it. -/
theorem bytewise_iff {registers : List XVCRegister} (h : RegisterFile registers) (addr : ℤ) :
    Bytewise registers addr ↔ ∃ start, wordAlign addr = .ok start ∧ ∀ reg ∈ registers,
      reg.stop ≤ min addr start ∨ (start = addr ∧ addr ≤ reg.addr) := by
  constructor
  · rintro ⟨hread, hwrite, -⟩
    obtain ⟨e, halign⟩ | ⟨start, halign⟩ :
        (∃ e, wordAlign addr = .error e) ∨ ∃ start, wordAlign addr = .ok start := by
      cases wordAlign addr
      · exact .inl ⟨_, rfl⟩
      · exact .inr ⟨_, rfl⟩
    · have hfail := hread 0
      rw [getMem, halign, Py.error_bind] at hfail
      exact absurd hfail (by simp only [reduceCtorEq, not_false_eq_true])
    · have hloop : ∀ data, setMemLoop registers start data =
          (registers.map (patched addr data), none) := fun data => by
        rw [← hwrite data, setMem_ok halign]
      clear hwrite hread
      refine ⟨start, halign, fun reg hreg => ?_⟩
      have hout : Outside registers start := by
        by_contra hin
        refine setMemLoop_inside h (List.cons_ne_nil 0 []) hin ?_
        rw [hloop]
      have hsame : ∀ data, patched start data reg = patched addr data reg := fun data => by
        have hmaps := hloop data
        rw [setMemLoop_eq registers start data h fun _ => hout] at hmaps
        exact List.map_inj_left.mp (congrArg Prod.fst hmaps) reg hreg
      rcases lt_trichotomy addr start with hlt | rfl | hlt
      · left
        by_contra hstop
        obtain ⟨data, hne⟩ := patched_ne (h.positive reg hreg) hlt (by omega)
        exact hne (hsame data).symm
      · rw [min_self]
        exact (hout reg hreg).imp_right fun hle => ⟨rfl, hle⟩
      · left
        by_contra hstop
        obtain ⟨data, hne⟩ := patched_ne (h.positive reg hreg) hlt (by omega)
        exact hne (hsame data)
  · rintro ⟨start, halign, hregs⟩
    have hout : Outside registers start := fun reg hreg => by
      rcases hregs reg hreg with hle | ⟨rfl, hle⟩
      · exact .inl (hle.trans (min_le_right _ _))
      · exact .inr hle
    have hsame : start = addr ∨ ∀ reg ∈ registers, reg.stop ≤ min addr start := by
      by_cases heq : start = addr
      · exact .inl heq
      · exact .inr fun reg hreg => (hregs reg hreg).resolve_right fun hmeet => heq hmeet.1
    have hwrite : ∀ data, setMem registers addr data = (registers.map (patched addr data), none) :=
      fun data => by
        rw [setMem_ok halign, setMemLoop_eq registers start data h fun _ => hout]
        rcases hsame with heq | hbehind
        · rw [heq]
        · refine congrArg (·, none) (List.map_congr_left fun reg hreg => ?_)
          have hle := hbehind reg hreg
          rw [patched_behind (hle.trans (min_le_right _ _)),
            patched_behind (hle.trans (min_le_left _ _))]
    have hread : ∀ file : List XVCRegister, RegisterFile file → Outside file start →
        (start = addr ∨ ∀ reg ∈ file, reg.stop ≤ min addr start) →
        ∀ n, getMem file addr n = .ok (readBytes file addr n) := fun file hfile hout hsame n => by
      rw [getMem_ok halign, getMemLoop_eq file start n hfile fun _ => hout]
      rcases hsame with heq | hbehind
      · rw [heq]
      · rw [readBytes_eq_of_behind hbehind]
    refine ⟨hread registers h hout hsame, hwrite, fun data => ?_⟩
    rw [hwrite data, hread _ (h.patched addr data), readBytes_patched]
    · refine List.forall_mem_map.mpr fun reg hreg => ?_
      rw [stop_patched]
      exact hout reg hreg
    · refine hsame.imp_right fun hbehind => List.forall_mem_map.mpr fun reg hreg => ?_
      rw [stop_patched]
      exact hbehind reg hreg

/-! ### Examples of accesses -/

theorem wordAlign_natCast {a : ℕ} (h : a < 2 ^ 53) : wordAlign a = .ok (a / 4 * 4 : ℕ) := by
  rw [wordAlign, Api.Memory.wordSize, Nat.cast_ofNat, Py.trueDiv_four h, Py.ok_bind,
    Py.truncate_div_four]
  rfl

/-- Two registers of six and of four bytes. -/
def exampleRegisters : List XVCRegister :=
  [{ addr := 8, value := [1, 2, 3, 4, 5, 6] }, { addr := 16, value := [7, 8, 9, 10] }]

theorem registerFile_example : RegisterFile exampleRegisters where
  sorted := by decide
  positive := by decide
  readable := by decide
  writable := by decide

/-- An access from the gap before both. -/
theorem bytewise_iff_gap : RegisterFile exampleRegisters ∧ Bytewise exampleRegisters 4 :=
  ⟨registerFile_example, (bytewise_iff registerFile_example 4).mpr
    ⟨4, wordAlign_natCast (by norm_num), by decide⟩⟩

/-- A write to the second word of the first register is refused. -/
theorem not_bytewise_secondWord : RegisterFile exampleRegisters ∧
    (∀ reg ∈ exampleRegisters, 4 ∣ reg.addr) ∧ ¬ Bytewise exampleRegisters 12 := by
  have halign : wordAlign 12 = .ok 12 := wordAlign_natCast (by norm_num)
  have hin : ¬ Outside exampleRegisters 12 := by decide
  refine ⟨registerFile_example, by decide, fun h => ?_⟩
  refine setMemLoop_inside registerFile_example (List.cons_ne_nil 0 []) hin ?_
  rw [← setMem_ok halign, h.2.1 [0]]

end Chipscopy.Xvc
