import Chipscopy.Xvc.Handler

/-! Reads through a tree of handlers

    `read_mem` finds the handler of its first byte. It passes that one's end only if the handler
    began behind the start of the read, and then it meets no other handler. -/

namespace Chipscopy.Xvc.Handler

open Fuel

variable {ι : Type} {heap : Heap ι} {self handler : Handler ι} {addr n : ℤ}
  {handlers rest : List (Handler ι)} {data : List UInt8} {out : Except MemError (List UInt8)}

/-! ### The loop round by round -/

theorem readLoop_done (h : n ≤ data.length) (fuel : ℕ) :
    readLoop heap (fuel + 1) self addr n handlers data = some (.ok data) := by
  simp only [readLoop, if_neg (not_lt.mpr h)]

theorem readLoop_last (h : data.length < n)
    (hdrop : (handlers.dropWhile fun handler => handler.stop ≤ addr) = []) (fuel : ℕ) :
    readLoop heap (fuel + 1) self addr n handlers data =
      some ((self.getMem heap (addr + data.length) (n - data.length)).map (data ++ ·)) := by
  simp only [readLoop, if_pos h, hdrop]

theorem readLoop_inside (h : data.length < n)
    (hdrop : (handlers.dropWhile fun handler => handler.stop ≤ addr) = handler :: rest)
    (hvalid : handler.isValidAddr (addr + data.length)) (fuel : ℕ) :
    readLoop heap (fuel + 1) self addr n handlers data =
      match readMem heap fuel handler (addr + data.length - handler.addr)
        (min (n - data.length) (handler.length - (addr + data.length - handler.addr))) with
      | some (.ok bytes) => readLoop heap fuel self addr n (handler :: rest) (data ++ bytes)
      | out => out := by
  rw [readLoop, if_pos h, hdrop]
  exact if_pos hvalid

theorem readLoop_gap (h : data.length < n)
    (hdrop : (handlers.dropWhile fun handler => handler.stop ≤ addr) = handler :: rest)
    (hvalid : ¬ handler.isValidAddr (addr + data.length)) (fuel : ℕ) :
    readLoop heap (fuel + 1) self addr n handlers data =
      match self.getMem heap (addr + data.length) (min (handler.addr - addr) (n - data.length)) with
      | .ok bytes => readLoop heap fuel self addr n (handler :: rest) (data ++ bytes)
      | .error e => some (.error e) := by
  rw [readLoop, if_pos h, hdrop]
  exact if_neg hvalid

theorem readLoop_persists (heap : Heap ι) : ∀ (fuel : ℕ) (self : Handler ι) (addr n : ℤ)
    (handlers : List (Handler ι)) (data : List UInt8) (out : Except MemError (List UInt8)),
    readLoop heap fuel self addr n handlers data = some out →
    readLoop heap (fuel + 1) self addr n handlers data = some out := by
  intro fuel
  induction fuel with
  | zero =>
    rintro self addr n handlers data out h
    cases h
  | succ fuel ih =>
    rintro self addr n handlers data out h
    rcases lt_or_ge (data.length : ℤ) n with hlt | hge
    · rcases hdrop : handlers.dropWhile fun handler => handler.stop ≤ addr with _ | ⟨handler, rest⟩
      · rwa [readLoop_last hlt hdrop] at h ⊢
      · by_cases hvalid : handler.isValidAddr (addr + data.length)
        · rw [readLoop_inside hlt hdrop hvalid] at h ⊢
          rcases hsub : readMem heap fuel handler (addr + data.length - handler.addr)
            (min (n - data.length) (handler.length - (addr + data.length - handler.addr)))
            with _ | e | bytes
          · rw [hsub] at h
            cases h
          · rw [hsub] at h
            rw [readMem, ih _ _ _ _ _ _ hsub]
            exact h
          · rw [hsub] at h
            rw [readMem, ih _ _ _ _ _ _ hsub]
            exact ih _ _ _ _ _ _ h
        · rw [readLoop_gap hlt hdrop hvalid] at h ⊢
          rcases hown : self.getMem heap (addr + data.length)
            (min (handler.addr - addr) (n - data.length)) with e | bytes
          · rw [hown] at h
            exact h
          · rw [hown] at h
            exact ih _ _ _ _ _ _ h
    · rwa [readLoop_done hge] at h ⊢

/-- `read_mem` ends so. -/
def Reads (heap : Heap ι) (self : Handler ι) (addr n : ℤ)
    (out : Except MemError (List UInt8)) : Prop :=
  Yields (fun fuel => readMem heap fuel self addr n) out

def ReadLoops (heap : Heap ι) (self : Handler ι) (addr n : ℤ) (handlers : List (Handler ι))
    (data : List UInt8) (out : Except MemError (List UInt8)) : Prop :=
  Yields (fun fuel => readLoop heap fuel self addr n handlers data) out

theorem readLoops_done (h : n ≤ data.length) :
    ReadLoops heap self addr n handlers data out ↔ out = .ok data :=
  (yields_succ rfl (readLoop_done h)).trans yields_const

theorem readLoops_last (h : data.length < n)
    (hdrop : (handlers.dropWhile fun handler => handler.stop ≤ addr) = []) :
    ReadLoops heap self addr n handlers data out ↔
      out = (self.getMem heap (addr + data.length) (n - data.length)).map (data ++ ·) :=
  (yields_succ rfl (readLoop_last h hdrop)).trans yields_const

theorem readLoops_inside (h : data.length < n)
    (hdrop : (handlers.dropWhile fun handler => handler.stop ≤ addr) = handler :: rest)
    (hvalid : handler.isValidAddr (addr + data.length)) {result : List UInt8} :
    ReadLoops heap self addr n handlers data (.ok result) ↔
      ∃ bytes, Reads heap handler (addr + data.length - handler.addr)
        (min (n - data.length) (handler.length - (addr + data.length - handler.addr)))
        (.ok bytes) ∧
        ReadLoops heap self addr n (handler :: rest) (data ++ bytes) (.ok result) := by
  rw [ReadLoops, yields_succ rfl (readLoop_inside h hdrop hvalid)]
  constructor
  · rintro ⟨fuel, hfuel⟩
    rcases hsub : readMem heap fuel handler (addr + data.length - handler.addr)
      (min (n - data.length) (handler.length - (addr + data.length - handler.addr)))
      with _ | e | bytes
    · simp only [hsub, reduceCtorEq] at hfuel
    · simp only [hsub, Option.some.injEq, reduceCtorEq] at hfuel
    · simp only [hsub] at hfuel
      exact ⟨bytes, ⟨fuel, hsub⟩, fuel, hfuel⟩
  · rintro ⟨bytes, hsub, hloop⟩
    obtain ⟨fuel, hsub, hloop⟩ := Yields.both
      (fun fuel out h => readLoop_persists heap fuel _ _ _ _ _ out h)
      (fun fuel out h => readLoop_persists heap fuel _ _ _ _ _ out h) hsub hloop
    have hbytes : readMem heap fuel handler (addr + data.length - handler.addr)
      (min (n - data.length) (handler.length - (addr + data.length - handler.addr))) =
      some (.ok bytes) := hsub
    refine ⟨fuel, ?_⟩
    simp only [hbytes]
    exact hloop

theorem readLoops_gap (h : data.length < n)
    (hdrop : (handlers.dropWhile fun handler => handler.stop ≤ addr) = handler :: rest)
    (hvalid : ¬ handler.isValidAddr (addr + data.length)) {result : List UInt8} :
    ReadLoops heap self addr n handlers data (.ok result) ↔
      ∃ bytes, self.getMem heap (addr + data.length)
        (min (handler.addr - addr) (n - data.length)) = .ok bytes ∧
        ReadLoops heap self addr n (handler :: rest) (data ++ bytes) (.ok result) := by
  rw [ReadLoops, yields_succ rfl (readLoop_gap h hdrop hvalid)]
  rcases self.getMem heap (addr + data.length) (min (handler.addr - addr) (n - data.length))
    with e | bytes
  · constructor
    · rintro ⟨fuel, hfuel⟩
      cases hfuel
    · rintro ⟨bytes, hown, -⟩
      cases hown
  · constructor
    · exact fun hloop => ⟨bytes, rfl, hloop⟩
    · rintro ⟨bytes', hown, hloop⟩
      obtain rfl := Except.ok.inj hown
      exact hloop

/-! ### What the handlers hold -/

/-- Bytes of a range. -/
def span (f : ℤ → UInt8) (addr : ℤ) (n : ℕ) : List UInt8 :=
  (List.range n).map fun i : ℕ => f (addr + i)

@[simp] theorem length_span (f : ℤ → UInt8) (addr : ℤ) (n : ℕ) : (span f addr n).length = n := by
  rw [span, List.length_map, List.length_range]

theorem span_add (f : ℤ → UInt8) (addr : ℤ) (k n : ℕ) :
    span f addr (k + n) = span f addr k ++ span f (addr + k) n := by
  simp only [span, List.range_add, List.map_append, List.map_map, Function.comp_def,
    Nat.cast_add, add_assoc]

theorem span_eq_iff {f g : ℤ → UInt8} {addr addr' : ℤ} {n : ℕ} :
    span f addr n = span g addr' n ↔ ∀ i < n, f (addr + i) = g (addr' + i) := by
  simp only [span, List.map_inj_left, List.mem_range]

/-- The byte a handler holds itself. -/
def own (heap : Heap ι) (self : Handler ι) (x : ℤ) : UInt8 :=
  match self.mem with
  | some id => heap id x
  | none => 0

/-- The byte that is read for an address on its own. -/
def byteAt (heap : Heap ι) (self : Handler ι) (x : ℤ) : UInt8 :=
  match self.resolve x with
  | some (id, key) => heap id key
  | none => 0

theorem byteAt_of_at? {x : ℤ} (h : self.at? x = some handler) :
    byteAt heap self x = byteAt heap handler (x - handler.addr) := by
  rw [byteAt, byteAt, resolve_of_at? h]

theorem byteAt_of_none {x : ℤ} (h : self.at? x = none) : byteAt heap self x = own heap self x := by
  rw [byteAt, own, resolve_of_none h]
  rcases self.mem with _ | id <;> rfl

theorem getMem_eq (heap : Heap ι) (self : Handler ι) (addr : ℤ) (n : ℕ) :
    self.getMem heap addr n = .ok (span (own heap self) addr n) := by
  rcases hmem : self.mem with _ | id
  · have hown : own heap self = fun _ => 0 := funext fun x => by rw [own, hmem]
    simp only [getMem, hmem, Int.toNat_natCast, span, hown, List.map_const', List.length_range]
    rw [if_neg (by omega)]
  · have hown : own heap self = heap id := funext fun x => by rw [own, hmem]
    simp only [getMem, hmem, Int.toNat_natCast, span, hown]

theorem length_getMem {m : ℤ} {bytes : List UInt8} (h : self.getMem heap addr m = .ok bytes) :
    bytes.length = m.toNat := by
  rcases hmem : self.mem with _ | id
  · simp only [getMem, hmem] at h
    split_ifs at h with hneg
    obtain rfl := Except.ok.inj h
    exact List.length_replicate
  · simp only [getMem, hmem, Except.ok.injEq] at h
    rw [← h, List.length_map, List.length_range]

/-! ### The loop from its first handler -/

/-- A read that ends well returns as many bytes as it was asked for. -/
theorem length_readLoop (heap : Heap ι) : ∀ (fuel : ℕ) (self : Handler ι) (addr n : ℤ)
    (handlers : List (Handler ι)) (data result : List UInt8), data.length ≤ n →
    readLoop heap fuel self addr n handlers data = some (.ok result) → result.length = n := by
  intro fuel
  induction fuel with
  | zero =>
    rintro self addr n handlers data result _ h
    cases h
  | succ fuel ih =>
    rintro self addr n handlers data result hle h
    rcases lt_or_ge (data.length : ℤ) n with hlt | hge
    · rcases hdrop : handlers.dropWhile fun handler => handler.stop ≤ addr with _ | ⟨handler, rest⟩
      · rw [readLoop_last hlt hdrop] at h
        rcases hown : self.getMem heap (addr + data.length) (n - data.length) with e | bytes
        · rw [hown] at h
          cases h
        · rw [hown] at h
          obtain rfl := Except.ok.inj (Option.some.inj h)
          have hlen := length_getMem hown
          rw [List.length_append]
          omega
      · by_cases hvalid : handler.isValidAddr (addr + data.length)
        · rw [readLoop_inside hlt hdrop hvalid] at h
          rcases hsub : readMem heap fuel handler (addr + data.length - handler.addr)
            (min (n - data.length) (handler.length - (addr + data.length - handler.addr)))
            with _ | e | bytes
          · simp only [hsub, reduceCtorEq] at h
          · simp only [hsub, Option.some.injEq, reduceCtorEq] at h
          · simp only [hsub] at h
            have hin := hvalid.2
            rw [stop] at hin
            have hlen := ih _ _ _ _ _ _ (by rw [List.length_nil]; omega) hsub
            refine ih _ _ _ _ _ _ ?_ h
            rw [List.length_append]
            omega
        · rw [readLoop_gap hlt hdrop hvalid] at h
          rcases hown : self.getMem heap (addr + data.length)
            (min (handler.addr - addr) (n - data.length)) with e | bytes
          · simp only [hown, Option.some.injEq, reduceCtorEq] at h
          · simp only [hown] at h
            have hlen := length_getMem hown
            refine ih _ _ _ _ _ _ ?_ h
            rw [List.length_append]
            omega
    · rw [readLoop_done hge] at h
      obtain rfl := Except.ok.inj (Option.some.inj h)
      omega

/-- Behind the handler it met, a read asks that handler for nothing and never ends well. -/
theorem not_readLoops_behind (heap : Heap ι) (hdrop : ((handler :: rest).dropWhile fun handler =>
    handler.stop ≤ addr) = handler :: rest) (haddr : handler.addr ≤ addr) {data : List UInt8}
    (hlt : data.length < n) (hstop : handler.stop ≤ addr + data.length) (result : List UInt8) :
    ¬ ReadLoops heap self addr n (handler :: rest) data (.ok result) := by
  rintro ⟨fuel, h⟩
  have hvalid : ¬ handler.isValidAddr (addr + data.length) := fun hvalid => by
    have := hvalid.2
    omega
  induction fuel with
  | zero => cases h
  | succ fuel ih =>
    refine ih ?_
    simp only [readLoop_gap hlt hdrop hvalid] at h
    have hempty : ∀ bytes, self.getMem heap (addr + data.length)
        (min (handler.addr - addr) (n - data.length)) = .ok bytes → bytes = [] := by
      rintro bytes hown
      rw [← List.length_eq_zero_iff, length_getMem hown]
      omega
    rcases hown : self.getMem heap (addr + data.length)
      (min (handler.addr - addr) (n - data.length)) with e | bytes
    · simp only [hown, Option.some.injEq, reduceCtorEq] at h
    · obtain rfl := hempty bytes hown
      simp only [hown, List.append_nil] at h
      exact h

/-- A read that began before the handler it met goes on in its own memory behind it. -/
theorem readLoops_behind (heap : Heap ι) (self : Handler ι)
    (hdrop : ((handler :: rest).dropWhile fun handler => handler.stop ≤ addr) = handler :: rest)
    (haddr : addr < handler.addr) (data : List UInt8)
    (hstop : data.length < n → handler.stop ≤ addr + data.length) :
    ReadLoops heap self addr n (handler :: rest) data
      (.ok (data ++ span (own heap self) (addr + data.length) (n - data.length).toNat)) := by
  induction hk : (n - data.length).toNat using Nat.strong_induction_on generalizing data with
  | h k ih =>
    rcases lt_or_ge (data.length : ℤ) n with hlt | hge
    · have hbehind := hstop hlt
      have hvalid : ¬ handler.isValidAddr (addr + data.length) := fun hvalid => by
        have := hvalid.2
        omega
      obtain ⟨m, hm⟩ := Int.eq_ofNat_of_zero_le
        (show 0 ≤ min (handler.addr - addr) (n - data.length) by omega)
      refine (readLoops_gap hlt hdrop hvalid).mpr ⟨_, hm ▸ getMem_eq heap self _ m, ?_⟩
      have hrest := ih (k - m) (by omega) (data ++ span (own heap self) (addr + data.length) m)
        (fun _ => by
          rw [List.length_append, length_span]
          omega)
        (by
          rw [List.length_append, length_span]
          omega)
      have hsplit : k = m + (k - m) := by omega
      rw [hsplit, span_add, ← List.append_assoc]
      rw [List.length_append, length_span, Nat.cast_add, ← add_assoc] at hrest
      exact hrest
    · obtain rfl : k = 0 := by omega
      rw [span, List.range_zero, List.map_nil, List.append_nil]
      exact (readLoops_done hge).mpr rfl

/-! ### Reads by the handler that is met first -/

theorem dropWhile_of_next? (h : self.next? addr = some handler) : ∃ rest,
    (self.subHandlers.dropWhile fun handler => handler.stop ≤ addr) = handler :: rest := by
  rw [next?_eq_head?] at h
  exact ⟨_, (List.eq_cons_of_mem_head? h)⟩

theorem dropWhile_of_next?_none (h : self.next? addr = none) :
    (self.subHandlers.dropWhile fun handler => handler.stop ≤ addr) = [] := by
  rw [next?_eq_head?] at h
  exact List.head?_eq_none_iff.mp h

variable {result : List UInt8}

theorem reads_nothing (h : n ≤ 0) : Reads heap self addr n out ↔ out = .ok [] := readLoops_done h

theorem length_of_reads {n : ℕ} (h : Reads heap self addr n (.ok result)) : result.length = n := by
  obtain ⟨fuel, hfuel⟩ := h
  have := length_readLoop heap fuel self addr n _ [] result (by rw [List.length_nil]; omega) hfuel
  omega

theorem reads_last (hnext : self.next? addr = none) (n : ℕ) :
    Reads heap self addr n (.ok result) ↔ result = span (own heap self) addr n := by
  rcases Nat.eq_zero_or_pos n with rfl | hpos
  · rw [reads_nothing (show ((0 : ℕ) : ℤ) ≤ 0 from le_rfl), Except.ok.injEq]
    rfl
  · have hlt : (([] : List UInt8).length : ℤ) < n := by
      rw [List.length_nil]
      omega
    refine (readLoops_last hlt (dropWhile_of_next?_none hnext)).trans ?_
    rw [List.length_nil, Nat.cast_zero, add_zero, sub_zero, getMem_eq, Except.map, List.nil_append,
      Except.ok.injEq]

theorem reads_inside (hnext : self.next? addr = some handler) (haddr : handler.addr ≤ addr) {n : ℕ}
    (hfit : addr + n ≤ handler.stop) : Reads heap self addr n (.ok result) ↔
      Reads heap handler (addr - handler.addr) n (.ok result) := by
  rcases Nat.eq_zero_or_pos n with rfl | hpos
  · rw [reads_nothing (show ((0 : ℕ) : ℤ) ≤ 0 from le_rfl),
      reads_nothing (show ((0 : ℕ) : ℤ) ≤ 0 from le_rfl)]
  · obtain ⟨rest, hdrop⟩ := dropWhile_of_next? hnext
    have hlt : (([] : List UInt8).length : ℤ) < n := by
      rw [List.length_nil]
      omega
    have hvalid : handler.isValidAddr (addr + ([] : List UInt8).length) := by
      rw [List.length_nil, Nat.cast_zero, add_zero]
      exact ⟨haddr, lt_stop_of_next? hnext⟩
    have hmin : min (n : ℤ) (handler.length - (addr - handler.addr)) = n := by
      rw [stop] at hfit
      omega
    refine (readLoops_inside hlt hdrop hvalid).trans ?_
    rw [List.length_nil, Nat.cast_zero, add_zero, sub_zero, hmin]
    constructor
    · rintro ⟨bytes, hsub, hloop⟩
      have hlen := length_of_reads hsub
      rw [List.nil_append, readLoops_done (by omega), Except.ok.injEq] at hloop
      rwa [hloop]
    · rintro hsub
      have hlen := length_of_reads hsub
      exact ⟨result, hsub, (readLoops_done (by rw [List.nil_append]; omega)).mpr rfl⟩

theorem not_reads_beyond (hnext : self.next? addr = some handler) (haddr : handler.addr ≤ addr)
    {n : ℕ} (hbeyond : handler.stop < addr + n) : ¬ Reads heap self addr n (.ok result) := by
  obtain ⟨rest, hdrop⟩ := dropWhile_of_next? hnext
  have hin := lt_stop_of_next? hnext
  have hlt : (([] : List UInt8).length : ℤ) < n := by
    rw [List.length_nil]
    omega
  have hvalid : handler.isValidAddr (addr + ([] : List UInt8).length) := by
    rw [List.length_nil, Nat.cast_zero, add_zero]
    exact ⟨haddr, hin⟩
  obtain ⟨m, hm⟩ := Int.eq_ofNat_of_zero_le (show 0 ≤ handler.stop - addr by omega)
  have hmin : min (n : ℤ) (handler.length - (addr - handler.addr)) = m := by
    rw [stop] at hm hbeyond
    omega
  rintro hread
  obtain ⟨bytes, hsub, hloop⟩ := (readLoops_inside hlt hdrop hvalid).mp hread
  rw [List.length_nil, Nat.cast_zero, add_zero, sub_zero, hmin] at hsub
  have hlen := length_of_reads hsub
  rw [List.nil_append] at hloop
  exact not_readLoops_behind heap (dropWhile_dropWhile hdrop) haddr (by omega) (by omega) result
    hloop

theorem readLoops_iff {answer : List UInt8}
    (h : ReadLoops heap self addr n handlers data (.ok answer)) :
    ReadLoops heap self addr n handlers data (.ok result) ↔ result = answer := by
  constructor
  · rintro hresult
    have := Yields.unique (fun fuel out h => readLoop_persists heap fuel _ _ _ _ _ out h) hresult h
    exact Except.ok.inj this
  · rintro rfl
    exact h

/-- A read that begins before the handler it meets: own bytes, those of the handler, and own
    bytes again. -/
theorem reads_before (hnext : self.next? addr = some handler) (haddr : addr < handler.addr)
    {n gap count : ℕ} (hgap : (gap : ℤ) = min (handler.addr - addr) n)
    (hcount : (count : ℤ) = min ((n : ℤ) - gap) handler.length) :
    Reads heap self addr n (.ok result) ↔
      ∃ bytes, Reads heap handler 0 count (.ok bytes) ∧ result = span (own heap self) addr gap ++
        bytes ++ span (own heap self) (addr + gap + count) (n - gap - count) := by
  obtain ⟨rest, hdrop⟩ := dropWhile_of_next? hnext
  have hstay := dropWhile_dropWhile hdrop
  have hloop : Reads heap self addr n (.ok result) ↔
      ReadLoops heap self addr n (handler :: rest) (span (own heap self) addr gap)
        (.ok result) := by
    rcases Nat.eq_zero_or_pos n with rfl | hpos
    · obtain rfl : gap = 0 := by omega
      rw [reads_nothing (show ((0 : ℕ) : ℤ) ≤ 0 from le_rfl), readLoops_done (by simp)]
      rfl
    · have hlt : (([] : List UInt8).length : ℤ) < n := by
        rw [List.length_nil]
        omega
      have hvalid : ¬ handler.isValidAddr (addr + ([] : List UInt8).length) := by
        rintro ⟨hle, -⟩
        rw [List.length_nil] at hle
        omega
      refine (readLoops_gap hlt hdrop hvalid).trans ?_
      rw [List.length_nil, Nat.cast_zero, add_zero, sub_zero, ← hgap, getMem_eq]
      simp only [Except.ok.injEq, exists_eq_left', List.nil_append]
  rw [hloop]
  rcases Nat.eq_zero_or_pos count with rfl | hpos
  · have hanswer := readLoops_behind heap self hstay haddr (n := n) (span (own heap self) addr gap)
      (fun hlt => by
        rw [length_span] at hlt ⊢
        rw [stop]
        omega)
    have hleft : (n - (gap : ℤ)).toNat = n - gap := by omega
    rw [length_span, hleft] at hanswer
    simp only [readLoops_iff hanswer, Nat.cast_zero, reads_nothing (le_refl (0 : ℤ)),
      Except.ok.injEq, exists_eq_left, List.append_nil, add_zero, Nat.sub_zero]
  · have hlt : ((span (own heap self) addr gap).length : ℤ) < n := by
      rw [length_span]
      omega
    have hmeet : addr + gap = handler.addr := by omega
    have hvalid : handler.isValidAddr (addr + (span (own heap self) addr gap).length) := by
      rw [length_span, hmeet]
      refine ⟨le_rfl, ?_⟩
      rw [stop]
      omega
    refine (readLoops_inside hlt hstay hvalid).trans (exists_congr fun bytes => ?_)
    rw [length_span, hmeet, sub_self, sub_zero, ← hcount]
    refine and_congr_right fun hsub => ?_
    have hlen := length_of_reads hsub
    have hanswer := readLoops_behind heap self hstay haddr (n := n)
      (span (own heap self) addr gap ++ bytes) (fun hlt => by
        rw [List.length_append, length_span] at hlt ⊢
        rw [stop]
        omega)
    have hleft : (n - ((gap + bytes.length : ℕ) : ℤ)).toNat = n - gap - count := by omega
    have hfrom : addr + ((gap + bytes.length : ℕ) : ℤ) = handler.addr + count := by omega
    rw [List.length_append, length_span, hleft, hfrom] at hanswer
    exact readLoops_iff hanswer

/-! ### Which reads are bytewise -/

/-- The read of a handler ends inside the handler that it begins in, or meets one in its own gap
    and behind that only bytes that are the same in its own memory. -/
inductive ReadsThrough (heap : Heap ι) : Handler ι → ℤ → ℕ → Prop
  | last {self : Handler ι} {addr : ℤ} {n : ℕ} (hnext : self.next? addr = none) :
    ReadsThrough heap self addr n
  | inside {self handler : Handler ι} {addr : ℤ} {n : ℕ} (hnext : self.next? addr = some handler)
    (haddr : handler.addr ≤ addr) (hfit : addr + n ≤ handler.stop)
    (h : ReadsThrough heap handler (addr - handler.addr) n) : ReadsThrough heap self addr n
  | before {self handler : Handler ι} {addr : ℤ} {n : ℕ} (hnext : self.next? addr = some handler)
    (haddr : addr < handler.addr)
    (h : ReadsThrough heap handler 0 (min (addr + n - handler.addr) handler.length).toNat)
    (hsame : ∀ x, handler.stop ≤ x → x < addr + n → byteAt heap self x = own heap self x) :
    ReadsThrough heap self addr n

section Tree

variable (h : self.Tree) (heap)
include h

theorem byteAt_of_next? {x : ℤ} (hnext : self.next? addr = some handler) (hle : addr ≤ x)
    (hin : handler.isValidAddr x) : byteAt heap self x = byteAt heap handler (x - handler.addr) :=
  byteAt_of_at? (at?_of_next? h (next?_of_le hnext hle hin.2) hin.1)

theorem byteAt_of_gap {x : ℤ} (hnext : self.next? addr = some handler) (hle : addr ≤ x)
    (hgap : x < handler.addr) : byteAt heap self x = own heap self x :=
  byteAt_of_none (at?_of_next?_gap h
    (next?_of_le hnext hle (hgap.trans_le handler.addr_le_stop)) hgap)

theorem byteAt_of_last {x : ℤ} (hnext : self.next? addr = none) (hle : addr ≤ x) :
    byteAt heap self x = own heap self x :=
  byteAt_of_none (at?_of_next?_none h (next?_eq_none_of_le hnext hle))

end Tree

/-- A single byte is never split. -/
theorem readsThrough_of_le_one (heap : Heap ι) (self : Handler ι) :
    ∀ (addr : ℤ) {n : ℕ}, n ≤ 1 → ReadsThrough heap self addr n := by
  induction self using tree_induction with
  | step self ih =>
    rintro addr n hn
    rcases hnext : self.next? addr with _ | handler
    · exact .last hnext
    · have hin := lt_stop_of_next? hnext
      have hsub := ih handler (mem_of_next? hnext)
      rcases le_or_gt handler.addr addr with hle | hgt
      · exact .inside hnext hle (by omega) (hsub _ hn)
      · have hstop := handler.addr_le_stop
        exact .before hnext hgt (hsub 0 (by omega)) fun x hx hlt => by omega

/-- A read is bytewise exactly then. -/
theorem reads_iff (heap : Heap ι) (self : Handler ι) : self.Tree → ∀ (addr : ℤ) (n : ℕ),
    Reads heap self addr n (.ok (span (byteAt heap self) addr n)) ↔
      ReadsThrough heap self addr n := by
  induction self using tree_induction with
  | step self ih =>
    rintro htree addr n
    rcases hnext : self.next? addr with _ | handler
    · have hown : span (byteAt heap self) addr n = span (own heap self) addr n :=
        span_eq_iff.mpr fun i _ => byteAt_of_last heap htree hnext (by omega)
      rw [hown, reads_last hnext]
      exact iff_of_true rfl (.last hnext)
    · have hmem := mem_of_next? hnext
      have hin := lt_stop_of_next? hnext
      have ih := ih handler hmem (htree.sub hmem)
      rcases le_or_gt handler.addr addr with hle | hgt
      · rcases le_or_gt (addr + n) handler.stop with hfit | hbeyond
        · have hsub : span (byteAt heap self) addr n =
              span (byteAt heap handler) (addr - handler.addr) n :=
            span_eq_iff.mpr fun i hi => by
              rw [byteAt_of_next? heap htree hnext (by omega) ⟨by omega, by omega⟩]
              congr 1
              omega
          rw [reads_inside hnext hle hfit, hsub, ih]
          constructor
          · exact .inside hnext hle hfit
          · rintro (hnone | ⟨hnext', -, -, h⟩ | ⟨hnext', hgt, -, -⟩)
            · cases hnone.symm.trans hnext
            · obtain rfl := Option.some.inj (hnext.symm.trans hnext')
              exact h
            · obtain rfl := Option.some.inj (hnext.symm.trans hnext')
              omega
        · refine iff_of_false (not_reads_beyond hnext hle hbeyond) ?_
          rintro (hnone | ⟨hnext', -, hfit, -⟩ | ⟨hnext', hgt, -, -⟩)
          · cases hnone.symm.trans hnext
          · obtain rfl := Option.some.inj (hnext.symm.trans hnext')
            omega
          · obtain rfl := Option.some.inj (hnext.symm.trans hnext')
            omega
      · obtain ⟨gap, hgap⟩ := Int.eq_ofNat_of_zero_le
          (show 0 ≤ min (handler.addr - addr) (n : ℤ) by omega)
        obtain ⟨count, hcount⟩ := Int.eq_ofNat_of_zero_le
          (show 0 ≤ min ((n : ℤ) - gap) (handler.length : ℤ) by omega)
        have hn : n = gap + count + (n - gap - count) := by omega
        have hown : span (byteAt heap self) addr gap = span (own heap self) addr gap :=
          span_eq_iff.mpr fun i hi => byteAt_of_gap heap htree hnext (by omega) (by omega)
        have hsub : span (byteAt heap self) (addr + gap) count =
            span (byteAt heap handler) 0 count :=
          span_eq_iff.mpr fun i hi => by
            have hvalid : handler.isValidAddr (addr + gap + i) := ⟨by omega, by
              rw [stop]
              omega⟩
            rw [byteAt_of_next? heap htree hnext (by omega) hvalid]
            congr 1
            omega
        have hspan : span (byteAt heap self) addr n = span (own heap self) addr gap ++
            span (byteAt heap handler) 0 count ++
            span (byteAt heap self) (addr + gap + count) (n - gap - count) := by
          conv_lhs => rw [hn, span_add, span_add, hown, hsub, Nat.cast_add, ← add_assoc]
        have hnested : (min (addr + n - handler.addr) (handler.length : ℤ)).toNat = count := by
          omega
        rw [reads_before hnext hgt hgap.symm hcount.symm, hspan]
        constructor
        · rintro ⟨bytes, hbytes, heq⟩
          have hlen := length_of_reads hbytes
          obtain ⟨hhead, hrest⟩ := List.append_inj heq (by simp [hlen])
          obtain rfl := List.append_cancel_left hhead
          refine .before hnext hgt (hnested ▸ (ih 0 count).mp hbytes) fun x hstop hx => ?_
          obtain ⟨i, hi⟩ := Int.le.dest hstop
          rw [stop] at hi hstop
          have := span_eq_iff.mp hrest i (by omega)
          rwa [show addr + gap + count + i = x by omega] at this
        · rintro (hnone | ⟨hnext', hle, -, -⟩ | ⟨hnext', -, h, hsame⟩)
          · cases hnone.symm.trans hnext
          · obtain rfl := Option.some.inj (hnext.symm.trans hnext')
            omega
          · obtain rfl := Option.some.inj (hnext.symm.trans hnext')
            rw [hnested] at h
            have hrest : span (byteAt heap self) (addr + gap + count) (n - gap - count) =
                span (own heap self) (addr + gap + count) (n - gap - count) :=
              span_eq_iff.mpr fun i hi => by
                refine hsame _ ?_ (by omega)
                rw [stop]
                omega
            exact ⟨_, (ih 0 count).mpr h, by rw [hrest]⟩

end Chipscopy.Xvc.Handler
