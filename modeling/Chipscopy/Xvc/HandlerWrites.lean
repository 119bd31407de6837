import Chipscopy.Xvc.HandlerReads

/-! Writes through a tree of handlers

    `write_mem` takes its slices up to a length instead of up to an offset and a length. After the
    first slice there is nothing in the others, so the bytes behind it are not written. -/

namespace Chipscopy.Xvc.Handler

open Fuel

variable {ι : Type} [DecidableEq ι] {heap : Heap ι} {self handler : Handler ι} {addr offset : ℤ}
  {handlers rest : List (Handler ι)} {data : List UInt8} {out : Heap ι × Option MemError}

/-! ### The loop round by round -/

theorem writeLoop_done (h : data.length ≤ offset) (fuel : ℕ) :
    writeLoop (fuel + 1) heap self addr data handlers offset = some (heap, none) := by
  simp only [writeLoop, if_neg (not_lt.mpr h)]

theorem writeLoop_last (h : offset < data.length)
    (hdrop : (handlers.dropWhile fun handler => handler.stop ≤ addr) = []) (fuel : ℕ) :
    writeLoop (fuel + 1) heap self addr data handlers offset =
      some (self.setMem heap (addr + offset) (Py.slice data offset (data.length - offset))) := by
  simp only [writeLoop, if_pos h, hdrop]

theorem writeLoop_inside (h : offset < data.length)
    (hdrop : (handlers.dropWhile fun handler => handler.stop ≤ addr) = handler :: rest)
    (hvalid : handler.isValidAddr addr) {length : ℤ}
    (hlength : length = min (data.length - offset) (handler.length - (addr - handler.addr)))
    (fuel : ℕ) : writeLoop (fuel + 1) heap self addr data handlers offset =
      match writeMem fuel heap handler (addr - handler.addr) (Py.slice data offset length) with
      | some (heap, none) =>
        writeLoop fuel heap self addr data (handler :: rest) (offset + length)
      | out => out := by
  subst hlength
  rw [writeLoop, if_pos h, hdrop]
  exact if_pos hvalid

theorem writeLoop_gap (h : offset < data.length)
    (hdrop : (handlers.dropWhile fun handler => handler.stop ≤ addr) = handler :: rest)
    (hvalid : ¬ handler.isValidAddr addr) {length : ℤ}
    (hlength : length = min (handler.addr - addr) (data.length - offset)) (fuel : ℕ) :
    writeLoop (fuel + 1) heap self addr data handlers offset =
      match self.setMem heap (addr + offset) (Py.slice data offset length) with
      | (heap, none) => writeLoop fuel heap self addr data (handler :: rest) (offset + length)
      | out => some out := by
  subst hlength
  rw [writeLoop, if_pos h, hdrop]
  exact if_neg hvalid

theorem writeLoop_persists : ∀ (fuel : ℕ) (heap : Heap ι) (self : Handler ι) (addr : ℤ)
    (data : List UInt8) (handlers : List (Handler ι)) (offset : ℤ) (out : Heap ι × Option MemError),
    writeLoop fuel heap self addr data handlers offset = some out →
    writeLoop (fuel + 1) heap self addr data handlers offset = some out := by
  intro fuel
  induction fuel with
  | zero =>
    rintro heap self addr data handlers offset out h
    cases h
  | succ fuel ih =>
    rintro heap self addr data handlers offset out h
    rcases lt_or_ge offset data.length with hlt | hge
    · rcases hdrop : handlers.dropWhile fun handler => handler.stop ≤ addr with _ | ⟨handler, rest⟩
      · rwa [writeLoop_last hlt hdrop] at h ⊢
      · by_cases hvalid : handler.isValidAddr addr
        · rw [writeLoop_inside hlt hdrop hvalid rfl] at h ⊢
          rcases hsub : writeMem fuel heap handler (addr - handler.addr) (Py.slice data offset
            (min (data.length - offset) (handler.length - (addr - handler.addr))))
            with _ | ⟨heap', _ | e⟩
          · rw [hsub] at h
            cases h
          · rw [hsub] at h
            rw [writeMem, ih _ _ _ _ _ _ _ hsub]
            exact ih _ _ _ _ _ _ _ h
          · rw [hsub] at h
            rw [writeMem, ih _ _ _ _ _ _ _ hsub]
            exact h
        · rw [writeLoop_gap hlt hdrop hvalid rfl] at h ⊢
          rcases hown : self.setMem heap (addr + offset) (Py.slice data offset
            (min (handler.addr - addr) (data.length - offset))) with ⟨heap', _ | e⟩
          · rw [hown] at h
            exact ih _ _ _ _ _ _ _ h
          · rw [hown] at h
            exact h
    · rwa [writeLoop_done hge] at h ⊢

/-- `write_mem` ends so. -/
def Writes (heap : Heap ι) (self : Handler ι) (addr : ℤ) (data : List UInt8)
    (out : Heap ι × Option MemError) : Prop :=
  Yields (fun fuel => writeMem fuel heap self addr data) out

def WriteLoops (heap : Heap ι) (self : Handler ι) (addr : ℤ) (data : List UInt8)
    (handlers : List (Handler ι)) (offset : ℤ) (out : Heap ι × Option MemError) : Prop :=
  Yields (fun fuel => writeLoop fuel heap self addr data handlers offset) out

theorem writeLoops_done (h : data.length ≤ offset) :
    WriteLoops heap self addr data handlers offset (heap, none) :=
  (yields_succ rfl (writeLoop_done h)).mpr (yields_const.mpr rfl)

theorem writeLoops_last (h : offset < data.length)
    (hdrop : (handlers.dropWhile fun handler => handler.stop ≤ addr) = []) :
    WriteLoops heap self addr data handlers offset
      (self.setMem heap (addr + offset) (Py.slice data offset (data.length - offset))) :=
  (yields_succ rfl (writeLoop_last h hdrop)).mpr (yields_const.mpr rfl)

theorem writeLoops_inside (h : offset < data.length)
    (hdrop : (handlers.dropWhile fun handler => handler.stop ≤ addr) = handler :: rest)
    (hvalid : handler.isValidAddr addr) {length : ℤ}
    (hlength : length = min (data.length - offset) (handler.length - (addr - handler.addr)))
    (slice : Heap ι × Option MemError)
    (hslice : Writes heap handler (addr - handler.addr) (Py.slice data offset length) slice)
    (hrest : slice.2 = none →
      WriteLoops slice.1 self addr data (handler :: rest) (offset + length) out)
    (hraised : slice.2 ≠ none → out = slice) :
    WriteLoops heap self addr data handlers offset out := by
  refine (yields_succ rfl (writeLoop_inside h hdrop hvalid hlength)).mpr ?_
  rcases slice with ⟨heap', _ | e⟩
  · obtain ⟨fuel, hsub, hloop⟩ := Yields.both
      (fun fuel out h => writeLoop_persists fuel _ _ _ _ _ _ out h)
      (fun fuel out h => writeLoop_persists fuel _ _ _ _ _ _ out h) hslice (hrest rfl)
    have hwrite : writeMem fuel heap handler (addr - handler.addr) (Py.slice data offset length) =
      some (heap', none) := hsub
    refine ⟨fuel, ?_⟩
    simp only [hwrite]
    exact hloop
  · obtain ⟨fuel, hsub⟩ := hslice
    obtain rfl := hraised (Option.some_ne_none e)
    refine ⟨fuel, ?_⟩
    simp only [hsub]

theorem writeLoops_gap (h : offset < data.length)
    (hdrop : (handlers.dropWhile fun handler => handler.stop ≤ addr) = handler :: rest)
    (hvalid : ¬ handler.isValidAddr addr) {length : ℤ}
    (hlength : length = min (handler.addr - addr) (data.length - offset))
    (slice : Heap ι × Option MemError)
    (hslice : self.setMem heap (addr + offset) (Py.slice data offset length) = slice)
    (hrest : slice.2 = none →
      WriteLoops slice.1 self addr data (handler :: rest) (offset + length) out)
    (hraised : slice.2 ≠ none → out = slice) :
    WriteLoops heap self addr data handlers offset out := by
  refine (yields_succ rfl (writeLoop_gap h hdrop hvalid hlength)).mpr ?_
  rcases slice with ⟨heap', _ | e⟩
  · obtain ⟨fuel, hloop⟩ := hrest rfl
    refine ⟨fuel, ?_⟩
    simp only [hslice]
    exact hloop
  · obtain rfl := hraised (Option.some_ne_none e)
    refine ⟨0, ?_⟩
    simp only [hslice]

/-! ### Rounds that write nothing -/

theorem slice_empty {data : List UInt8} {a b : ℤ} (hb : 0 ≤ b) (hab : b ≤ a) :
    Py.slice data a b = [] := by
  obtain ⟨b, rfl⟩ := Int.eq_ofNat_of_zero_le hb
  obtain ⟨a, rfl⟩ := Int.eq_ofNat_of_zero_le (hb.trans hab)
  rw [Py.slice, Py.sliceIndex_natCast_eq_min, Py.sliceIndex_natCast_eq_min,
    List.drop_eq_nil_iff, List.length_take]
  omega

theorem slice_take {data : List UInt8} {k : ℕ} (hk : k ≤ data.length) :
    Py.slice data 0 k = data.take k := by
  have := Py.slice_eq_segment data (Nat.zero_le k) hk
  rwa [Py.segment, List.drop_zero, Nat.cast_zero] at this

theorem writes_nil (heap : Heap ι) (self : Handler ι) (addr : ℤ) :
    Writes heap self addr [] (heap, none) := writeLoops_done le_rfl

/-- The handler of the first byte takes no byte behind its end. -/
theorem writeLoops_inside_rest (heap : Heap ι) (hdrop : ((handler :: rest).dropWhile fun handler =>
    handler.stop ≤ addr) = handler :: rest) (hvalid : handler.isValidAddr addr)
    (data : List UInt8) (self : Handler ι) {offset : ℤ} (hoffset : handler.stop - addr ≤ offset ∨
      data.length ≤ offset) :
    WriteLoops heap self addr data (handler :: rest) offset (heap, none) := by
  obtain ⟨haddr, hstop⟩ := hvalid
  induction hk : (data.length - offset).toNat using Nat.strong_induction_on generalizing offset with
  | h k ih =>
    rcases lt_or_ge offset data.length with hlt | hge
    · have hlength : handler.length - (addr - handler.addr) = handler.stop - addr := by
        rw [stop]
        omega
      refine writeLoops_inside hlt hdrop ⟨haddr, hstop⟩ rfl (heap, none) ?_ (fun _ => ?_)
        fun h => absurd rfl h
      · rw [slice_empty (by omega) (by omega)]
        exact writes_nil heap handler _
      · exact ih _ (by omega) (by omega) rfl
    · exact writeLoops_done hge

/-- Nor does the memory before the handler that is met. -/
theorem writeLoops_gap_rest (heap : Heap ι) (hdrop : ((handler :: rest).dropWhile fun handler =>
    handler.stop ≤ addr) = handler :: rest) (haddr : addr < handler.addr)
    (data : List UInt8) {self : Handler ι} {id : ι} (hmem : self.mem = some id) {offset : ℤ}
    (hoffset : handler.addr - addr ≤ offset ∨ data.length ≤ offset) :
    WriteLoops heap self addr data (handler :: rest) offset (heap, none) := by
  induction hk : (data.length - offset).toNat using Nat.strong_induction_on generalizing offset with
  | h k ih =>
    rcases lt_or_ge offset data.length with hlt | hge
    · refine writeLoops_gap hlt hdrop (fun hvalid => absurd hvalid.1 (not_le.mpr haddr)) rfl
        (heap, none) ?_ (fun _ => ?_) fun h => absurd rfl h
      · rw [slice_empty (by omega) (by omega), setMem, hmem]
        rfl
      · exact ih _ (by omega) (by omega) rfl
    · exact writeLoops_done hge

/-! ### Single bytes -/

/-- What is written for an address on its own. -/
def writeByte (heap : Heap ι) (self : Handler ι) (x : ℤ) (d : UInt8) : Heap ι × Option MemError :=
  match self.resolve x with
  | some (id, key) => (heap.put id key d, none)
  | none => (heap, some .notImplemented)

/-- The bytes one after the other, up to an exception. -/
def writeBytes (self : Handler ι) : Heap ι → ℤ → List UInt8 → Heap ι × Option MemError
  | heap, _, [] => (heap, none)
  | heap, addr, d :: data =>
    match writeByte heap self addr d with
    | (heap, none) => writeBytes self heap (addr + 1) data
    | out => out

theorem writeBytes_cons_some {id : ι} {key : ℤ} (h : self.resolve addr = some (id, key)) (d : UInt8)
    (data : List UInt8) : writeBytes self heap addr (d :: data) =
      writeBytes self (heap.put id key d) (addr + 1) data := by
  simp only [writeBytes, writeByte, h]

theorem writeBytes_cons_none (h : self.resolve addr = none) (d : UInt8) (data : List UInt8) :
    writeBytes self heap addr (d :: data) = (heap, some .notImplemented) := by
  simp only [writeBytes, writeByte, h]

/-- Addresses that resolve alike are written alike. -/
theorem writeBytes_congr {self handler : Handler ι} {addr addr' : ℤ} {data : List UInt8}
    (h : ∀ i < data.length, self.resolve (addr + i) = handler.resolve (addr' + i)) :
    writeBytes self heap addr data = writeBytes handler heap addr' data := by
  induction data generalizing heap addr addr' with
  | nil => rfl
  | cons d data ih =>
    have hfirst : self.resolve addr = handler.resolve addr' := by
      simpa only [Nat.cast_zero, add_zero] using h 0 (Nat.succ_pos _)
    have hrest : ∀ heap : Heap ι, writeBytes self heap (addr + 1) data =
        writeBytes handler heap (addr' + 1) data := fun heap => ih fun i hi => by
      have := h (i + 1) (Nat.succ_lt_succ hi)
      rwa [Nat.cast_succ, add_comm (i : ℤ) 1, ← add_assoc, ← add_assoc] at this
    rcases hloc : handler.resolve addr' with _ | ⟨id, key⟩
    · rw [writeBytes_cons_none hloc, writeBytes_cons_none (hfirst.trans hloc)]
    · rw [writeBytes_cons_some hloc, writeBytes_cons_some (hfirst.trans hloc), hrest]

/-- Own bytes go where `set_mem` puts them. -/
theorem writeBytes_own {data : List UInt8}
    (h : ∀ i < data.length, self.resolve (addr + i) = self.mem.map (·, addr + i)) :
    writeBytes self heap addr data =
      if data = [] then (heap, none) else self.setMem heap addr data := by
  rcases hmem : self.mem with _ | id
  · cases data with
    | nil => rfl
    | cons d data =>
      have hfirst : self.resolve addr = none := by
        simpa only [Nat.cast_zero, add_zero, hmem, Option.map_none] using h 0 (Nat.succ_pos _)
      rw [writeBytes_cons_none hfirst, if_neg (List.cons_ne_nil d data), setMem, hmem]
  · have hall : writeBytes self heap addr data = (heap.putAll id addr data, none) := by
      induction data generalizing heap addr with
      | nil => rfl
      | cons d data ih =>
        have hfirst : self.resolve addr = some (id, addr) := by
          simpa only [Nat.cast_zero, add_zero, hmem, Option.map_some] using h 0 (Nat.succ_pos _)
        rw [writeBytes_cons_some hfirst, ih fun i hi => ?_]
        · rfl
        · have := h (i + 1) (Nat.succ_lt_succ hi)
          rwa [Nat.cast_succ, add_comm (i : ℤ) 1, ← add_assoc] at this
    rw [hall, setMem, hmem]
    split_ifs with hnil
    · rw [hnil, Heap.putAll]
    · rfl

/-! ### What is written -/

/-- How many of `n` bytes reach the handler of the first one before another is met. -/
def stretch (self : Handler ι) (addr : ℤ) (n : ℕ) : ℕ :=
  match _h : self.next? addr with
  | none => n
  | some handler =>
    if handler.addr ≤ addr then
      stretch handler (addr - handler.addr) (min n (handler.stop - addr).toNat)
    else min n (handler.addr - addr).toNat
termination_by sizeOf self
decreasing_by exact sizeOf_lt (mem_of_next? _h)

omit [DecidableEq ι] in
theorem stretch_last (h : self.next? addr = none) (n : ℕ) : self.stretch addr n = n := by
  rw [stretch]
  split
  · rfl
  next handler hnext => cases hnext.symm.trans h

omit [DecidableEq ι] in
theorem stretch_next (h : self.next? addr = some handler) (n : ℕ) : self.stretch addr n =
    if handler.addr ≤ addr then
      handler.stretch (addr - handler.addr) (min n (handler.stop - addr).toNat)
    else min n (handler.addr - addr).toNat := by
  rw [stretch]
  split
  next hnone => cases hnone.symm.trans h
  next other hnext =>
    obtain rfl := Option.some.inj (hnext.symm.trans h)
    rfl

omit [DecidableEq ι] in
theorem stretch_le (self : Handler ι) : ∀ (addr : ℤ) (n : ℕ), self.stretch addr n ≤ n := by
  induction self using tree_induction with
  | step self ih =>
    rintro addr n
    rcases hnext : self.next? addr with _ | handler
    · rw [stretch_last hnext]
    · rw [stretch_next hnext]
      split_ifs with hle
      · exact (ih handler (mem_of_next? hnext) _ _).trans (Nat.min_le_left _ _)
      · exact Nat.min_le_left _ _

omit [DecidableEq ι] in
theorem stretch_pos (self : Handler ι) : ∀ (addr : ℤ) {n : ℕ}, 0 < n → 0 < self.stretch addr n := by
  induction self using tree_induction with
  | step self ih =>
    rintro addr n hpos
    rcases hnext : self.next? addr with _ | handler
    · rwa [stretch_last hnext]
    · have hin := lt_stop_of_next? hnext
      rw [stretch_next hnext]
      split_ifs with hle
      · exact ih handler (mem_of_next? hnext) _ (by omega)
      · omega

omit [DecidableEq ι] in
theorem resolve_of_next? (h : self.Tree) {x : ℤ} (hnext : self.next? addr = some handler)
    (hle : addr ≤ x) (hin : handler.isValidAddr x) :
    self.resolve x = handler.resolve (x - handler.addr) :=
  resolve_of_at? (at?_of_next? h (next?_of_le hnext hle hin.2) hin.1)

omit [DecidableEq ι] in
theorem resolve_of_gap (h : self.Tree) {x : ℤ} (hnext : self.next? addr = some handler)
    (hle : addr ≤ x) (hgap : x < handler.addr) : self.resolve x = self.mem.map (·, x) :=
  resolve_of_none (at?_of_next?_gap h
    (next?_of_le hnext hle (hgap.trans_le handler.addr_le_stop)) hgap)

omit [DecidableEq ι] in
theorem resolve_of_last (h : self.Tree) {x : ℤ} (hnext : self.next? addr = none) (hle : addr ≤ x) :
    self.resolve x = self.mem.map (·, x) :=
  resolve_of_none (at?_of_next?_none h (next?_eq_none_of_le hnext hle))

/-- A write stores the bytes that reach the first handler, and no others. -/
theorem writes_stretch (heap : Heap ι) (self : Handler ι) : self.Tree → ∀ (addr : ℤ)
    (data : List UInt8), Writes heap self addr data
      (writeBytes self heap addr (data.take (self.stretch addr data.length))) := by
  induction self using tree_induction with
  | step self ih =>
    rintro htree addr data
    by_cases hdata : data = []
    · rw [hdata, List.take_nil]
      exact writes_nil heap self addr
    · have hpos : (0 : ℤ) < data.length := by
        exact_mod_cast List.length_pos_iff.mpr hdata
      rcases hnext : self.next? addr with _ | handler
      · have hloop : WriteLoops heap self addr data self.subHandlers 0 _ :=
          writeLoops_last hpos (dropWhile_of_next?_none hnext)
        rw [add_zero, sub_zero, slice_take le_rfl, List.take_length] at hloop
        rw [stretch_last hnext, List.take_length,
          writeBytes_own fun i _ => resolve_of_last htree hnext (by omega), if_neg hdata]
        exact hloop
      · obtain ⟨rest, hdrop⟩ := dropWhile_of_next? hnext
        have hstay := dropWhile_dropWhile hdrop
        have hmem := mem_of_next? hnext
        have hin := lt_stop_of_next? hnext
        rw [stretch_next hnext]
        split_ifs with hle
        · obtain ⟨k, hk⟩ : ∃ k, k = min data.length (handler.stop - addr).toNat := ⟨_, rfl⟩
          have hlen : (data.take k).length = k := by
            rw [List.length_take]
            omega
          have hlength : (k : ℤ) =
              min ((data.length : ℤ) - 0) (handler.length - (addr - handler.addr)) := by
            rw [stop] at hk hin
            omega
          have hsub := ih handler hmem (htree.sub hmem) (addr - handler.addr) (data.take k)
          have hle' := stretch_le handler (addr - handler.addr) k
          have hsame : writeBytes handler heap (addr - handler.addr)
              ((data.take k).take (handler.stretch (addr - handler.addr) k)) =
              writeBytes self heap addr (data.take (handler.stretch (addr - handler.addr) k)) := by
            rw [List.take_take, Nat.min_eq_left hle']
            refine (writeBytes_congr fun i hi => ?_).symm
            rw [List.length_take] at hi
            rw [resolve_of_next? htree hnext (by omega) ⟨by omega, by omega⟩]
            congr 1
            omega
          rw [hlen, hsame] at hsub
          rw [← hk]
          refine writeLoops_inside hpos hdrop ⟨hle, hin⟩ hlength _ ?_ (fun hnone => ?_) fun _ => rfl
          · rwa [slice_take (by omega)]
          · rw [show writeBytes self heap addr
              (data.take (handler.stretch (addr - handler.addr) k)) = (_, none) from Prod.ext rfl hnone]
            exact writeLoops_inside_rest _ hstay ⟨hle, hin⟩ data self (by omega)
        · obtain ⟨k, hk⟩ : ∃ k, k = min data.length (handler.addr - addr).toNat := ⟨_, rfl⟩
          have hne : data.take k ≠ [] := by
            rw [Ne, ← List.length_eq_zero_iff, List.length_take]
            omega
          have hlength : (k : ℤ) = min (handler.addr - addr) ((data.length : ℤ) - 0) := by omega
          have hown : writeBytes self heap addr (data.take k) =
              self.setMem heap addr (data.take k) := by
            rw [writeBytes_own fun i hi => ?_, if_neg hne]
            rw [List.length_take] at hi
            exact resolve_of_gap htree hnext (by omega) (by omega)
          rw [← hk, hown]
          refine writeLoops_gap hpos hdrop (fun hvalid => hle hvalid.1) hlength
            (self.setMem heap addr (data.take k)) ?_ (fun hnone => ?_) fun _ => rfl
          · rw [add_zero, slice_take (by omega)]
          · rcases hid : self.mem with _ | id
            · rw [setMem, hid] at hnone
              cases hnone
            · rw [show self.setMem heap addr (data.take k) = (_, none) from Prod.ext rfl hnone]
              exact writeLoops_gap_rest _ hstay (not_le.mp hle) data hid (by omega)

end Chipscopy.Xvc.Handler
