import Chipscopy.Xvc.HandlerWrites

/-! Bytewise accesses of a tree of handlers

    An access is bytewise if it reads what single reads return and leaves what single writes leave.
    The bytes that `write_mem` drops do no harm only where they are stored already. -/

namespace Chipscopy.Xvc.Handler

open Fuel

section Resolve

variable {ι : Type} {self handler : Handler ι} {x y addr : ℤ}

/-! ### Where a byte is -/

theorem Tree.apart {self : Handler ι} (h : self.Tree) : self.subHandlers.Pairwise
    fun handler later => ∀ id, Owns handler id → ¬ Owns later id := by
  cases h
  assumption

theorem Tree.own {self : Handler ι} (h : self.Tree) :
    ∀ handler ∈ self.subHandlers, ∀ id, Owns handler id → self.mem ≠ some id := by
  cases h
  assumption

theorem owns_of_resolve (self : Handler ι) : ∀ {x key : ℤ} {id : ι},
    self.resolve x = some (id, key) → Owns self id := by
  induction self using tree_induction with
  | step self ih =>
    rintro x key id h
    rcases hat : self.at? x with _ | handler
    · rw [resolve_of_none hat, Option.map_eq_some_iff] at h
      obtain ⟨id', hid, heq⟩ := h
      obtain ⟨rfl, -⟩ := Prod.mk.inj heq
      exact .self hid
    · rw [resolve_of_at? hat] at h
      exact .sub (mem_of_at? hat) (ih handler (mem_of_at? hat) h)

/-- No two addresses have the same byte. -/
theorem resolve_injective (self : Handler ι) : self.Tree → ∀ {x y : ℤ} {loc : ι × ℤ},
    self.resolve x = some loc → self.resolve y = some loc → x = y := by
  induction self using tree_induction with
  | step self ih =>
    rintro htree x y ⟨id, key⟩ hx hy
    have hone : ∀ {a b : ℤ} {handler : Handler ι}, self.at? a = some handler → self.at? b = none →
        self.resolve a = some (id, key) → self.resolve b ≠ some (id, key) := by
      rintro a b handler ha hb hra hrb
      rw [resolve_of_at? ha] at hra
      rw [resolve_of_none hb, Option.map_eq_some_iff] at hrb
      obtain ⟨id', hid, heq⟩ := hrb
      obtain ⟨rfl, -⟩ := Prod.mk.inj heq
      exact htree.own handler (mem_of_at? ha) id' (owns_of_resolve handler hra) hid
    rcases hatx : self.at? x with _ | handler <;> rcases haty : self.at? y with _ | later
    · rw [resolve_of_none hatx, Option.map_eq_some_iff] at hx
      rw [resolve_of_none haty, Option.map_eq_some_iff] at hy
      obtain ⟨_, -, hx⟩ := hx
      obtain ⟨_, -, hy⟩ := hy
      exact (Prod.mk.inj hx).2.trans (Prod.mk.inj hy).2.symm
    · exact absurd hx (hone haty hatx hy)
    · exact absurd hy (hone hatx haty hx)
    · rw [resolve_of_at? hatx] at hx
      rw [resolve_of_at? haty] at hy
      have hmem := mem_of_at? hatx
      obtain rfl : handler = later := by
        by_contra hne
        have hsymm : Std.Symm fun handler later : Handler ι =>
            ∀ id, Owns handler id → ¬ Owns later id := ⟨fun a b h id hb ha => h id ha hb⟩
        exact htree.apart.forall hmem (mem_of_at? haty) hne id (owns_of_resolve handler hx)
          (owns_of_resolve later hy)
      have := ih handler hmem (htree.sub hmem) hx hy
      omega

/-- The bytes that reach the first handler lie in one dictionary. -/
theorem resolve_stretch (self : Handler ι) : self.Tree → ∀ {addr key : ℤ} {id : ι} {n i : ℕ},
    self.resolve addr = some (id, key) → i < self.stretch addr n →
    self.resolve (addr + i) = some (id, key + i) := by
  induction self using tree_induction with
  | step self ih =>
    rintro htree addr key id n i hfirst hi
    rcases hnext : self.next? addr with _ | handler
    · rw [resolve_of_last htree hnext le_rfl, Option.map_eq_some_iff] at hfirst
      obtain ⟨id', hid, heq⟩ := hfirst
      obtain ⟨rfl, rfl⟩ := Prod.mk.inj heq
      rw [resolve_of_last htree hnext (by omega), hid, Option.map_some]
    · have hin := lt_stop_of_next? hnext
      have hmem := mem_of_next? hnext
      rw [stretch_next hnext] at hi
      split_ifs at hi with hle
      · have hlt := hi.trans_le (stretch_le handler _ _)
        rw [resolve_of_next? htree hnext le_rfl ⟨hle, hin⟩] at hfirst
        rw [resolve_of_next? htree hnext (by omega) ⟨by omega, by omega⟩,
          ← ih handler hmem (htree.sub hmem) hfirst hi]
        congr 1
        omega
      · rw [resolve_of_gap htree hnext le_rfl (by omega), Option.map_eq_some_iff] at hfirst
        obtain ⟨id', hid, heq⟩ := hfirst
        obtain ⟨rfl, rfl⟩ := Prod.mk.inj heq
        rw [resolve_of_gap htree hnext (by omega) (by omega), hid, Option.map_some]

end Resolve

variable {ι : Type} [DecidableEq ι] {heap : Heap ι} {self : Handler ι} {addr : ℤ}
  {data : List UInt8}

/-! ### Bytes one after the other -/

theorem writeBytes_ok (h : ∀ i < data.length, self.resolve (addr + i) ≠ none) :
    (writeBytes self heap addr data).2 = none := by
  induction data generalizing heap addr with
  | nil => rfl
  | cons d data ih =>
    have hfirst := h 0 (Nat.succ_pos _)
    rw [Nat.cast_zero, add_zero] at hfirst
    obtain ⟨⟨id, key⟩, hloc⟩ := Option.ne_none_iff_exists'.mp hfirst
    rw [writeBytes_cons_some hloc]
    refine ih fun i hi => ?_
    have := h (i + 1) (Nat.succ_lt_succ hi)
    rwa [Nat.cast_succ, add_comm (i : ℤ) 1, ← add_assoc] at this

theorem writeBytes_append {xs : List UInt8} (h : (writeBytes self heap addr xs).2 = none)
    (ys : List UInt8) : writeBytes self heap addr (xs ++ ys) =
      writeBytes self (writeBytes self heap addr xs).1 (addr + xs.length) ys := by
  induction xs generalizing heap addr with
  | nil => rw [List.nil_append, List.length_nil, Nat.cast_zero, add_zero, writeBytes]
  | cons d xs ih =>
    rcases hloc : self.resolve addr with _ | ⟨id, key⟩
    · rw [writeBytes_cons_none hloc] at h
      cases h
    · rw [writeBytes_cons_some hloc] at h
      rw [List.cons_append, writeBytes_cons_some hloc, writeBytes_cons_some hloc, ih h,
        List.length_cons, Nat.cast_succ, add_assoc, add_comm (1 : ℤ)]

/-- Other bytes stay. -/
theorem writeBytes_frame {id : ι} {key : ℤ}
    (h : ∀ i < data.length, self.resolve (addr + i) ≠ some (id, key)) :
    (writeBytes self heap addr data).1 id key = heap id key := by
  induction data generalizing heap addr with
  | nil => rfl
  | cons d data ih =>
    have hfirst := h 0 (Nat.succ_pos _)
    rw [Nat.cast_zero, add_zero] at hfirst
    rcases hloc : self.resolve addr with _ | ⟨id', key'⟩
    · rw [writeBytes_cons_none hloc]
    · rw [writeBytes_cons_some hloc, ih fun i hi => ?_]
      · rw [hloc] at hfirst
        rw [Heap.put]
        by_cases hid : id = id'
        · subst hid
          have hkey : key ≠ key' := fun heq => hfirst (by rw [heq])
          rw [Function.update_self, Function.update_of_ne hkey]
        · rw [Function.update_of_ne hid]
      · have := h (i + 1) (Nat.succ_lt_succ hi)
        rwa [Nat.cast_succ, add_comm (i : ℤ) 1, ← add_assoc] at this

/-- A write that changes nothing stores what is there. -/
theorem writeBytes_eq_self_iff (h : self.Tree) : writeBytes self heap addr data = (heap, none) ↔
    ∀ (i : ℕ) d, data[i]? = some d → ∃ id key, self.resolve (addr + i) = some (id, key) ∧
      heap id key = d := by
  induction data generalizing heap addr with
  | nil => simp [writeBytes]
  | cons d data ih =>
    rw [← Nat.and_forall_add_one]
    simp only [List.getElem?_cons_zero, List.getElem?_cons_succ, Option.some.injEq, forall_eq',
      Nat.cast_zero, add_zero]
    rcases hloc : self.resolve addr with _ | ⟨id, key⟩
    · rw [writeBytes_cons_none hloc]
      simp only [Prod.mk.injEq, reduceCtorEq, and_false, false_and, exists_false]
    · have hput : heap id key = d → heap.put id key d = heap := fun heq => by
        rw [Heap.put, ← heq, Function.update_eq_self, Function.update_eq_self]
      have hfirst : (∃ id' key', some (id, key) = some (id', key') ∧ heap id' key' = d) ↔
          heap id key = d := by
        simp only [Option.some.injEq, Prod.mk.injEq, and_assoc, exists_and_left, exists_eq_left']
      have hrest : (∀ (i : ℕ) d', data[i]? = some d' → ∃ id key,
          self.resolve (addr + (i + 1 : ℕ)) = some (id, key) ∧ heap id key = d') ↔
          writeBytes self heap (addr + 1) data = (heap, none) := by
        rw [ih]
        refine forall_congr' fun i => ?_
        rw [Nat.cast_succ, add_comm (i : ℤ) 1, ← add_assoc]
      rw [writeBytes_cons_some hloc, hfirst, hrest]
      constructor
      · rintro hsame
        have hkept : (writeBytes self (heap.put id key d) (addr + 1) data).1 id key = d := by
          rw [writeBytes_frame fun i _ hi => ?_]
          · rw [Heap.put, Function.update_self, Function.update_self]
          · have := resolve_injective self h hi hloc
            omega
        rw [hsame] at hkept
        rw [hput hkept] at hsame
        exact ⟨hkept, hsame⟩
      · rintro ⟨heq, hsame⟩
        rwa [hput heq]

/-! ### Which accesses are bytewise -/

/-- A handler without memory refuses the first byte, or all bytes behind the first stretch are
    stored already. -/
def WritesThrough (heap : Heap ι) (self : Handler ι) (addr : ℤ) (data : List UInt8) : Prop :=
  self.resolve addr = none ∨ ∀ (i : ℕ) d, self.stretch addr data.length ≤ i → data[i]? = some d →
    ∃ id key, self.resolve (addr + i) = some (id, key) ∧ heap id key = d

theorem writes_iff (heap : Heap ι) (h : self.Tree) (addr : ℤ) (data : List UInt8) :
    Writes heap self addr data (writeBytes self heap addr data) ↔
      WritesThrough heap self addr data := by
  have hcode := writes_stretch heap self h addr data
  have hunique : Writes heap self addr data (writeBytes self heap addr data) ↔
      writeBytes self heap addr data =
        writeBytes self heap addr (data.take (self.stretch addr data.length)) := by
    constructor
    · rintro hwrite
      exact Yields.unique (fun fuel out h => writeLoop_persists fuel _ _ _ _ _ _ out h) hwrite hcode
    · rintro heq
      rwa [heq]
  rw [hunique, WritesThrough]
  have hle := stretch_le self addr data.length
  rcases hfirst : self.resolve addr with _ | ⟨id, key⟩
  · refine iff_of_true ?_ (.inl rfl)
    cases data with
    | nil => rw [List.take_nil]
    | cons d data =>
      have hpos := stretch_pos self addr (Nat.succ_pos data.length)
      obtain ⟨k, hk⟩ := Nat.exists_eq_add_of_le' hpos
      rw [List.length_cons, hk, List.take_succ_cons, writeBytes_cons_none hfirst,
        writeBytes_cons_none hfirst]
  · obtain ⟨k, hk⟩ : ∃ k, k = self.stretch addr data.length := ⟨_, rfl⟩
    rw [← hk] at hle ⊢
    have hin : ∀ i < (data.take k).length, self.resolve (addr + i) ≠ none := fun i hi => by
      rw [List.length_take] at hi
      rw [resolve_stretch self h hfirst (n := data.length) (by omega)]
      exact Option.some_ne_none _
    have hok : (writeBytes self heap addr (data.take k)).2 = none := writeBytes_ok hin
    have hsplit := writeBytes_append hok (data.drop k)
    rw [List.take_append_drop, List.length_take, Nat.min_eq_left hle] at hsplit
    have hout : writeBytes self heap addr (data.take k) =
        ((writeBytes self heap addr (data.take k)).1, none) := Prod.ext rfl hok
    have hkept : ∀ i, k ≤ i → ∀ id' key', self.resolve (addr + i) = some (id', key') →
        (writeBytes self heap addr (data.take k)).1 id' key' = heap id' key' := by
      rintro i hi id' key' hloc
      refine writeBytes_frame fun j hj hj' => ?_
      rw [List.length_take] at hj
      have := resolve_injective self h hj' hloc
      omega
    rw [hsplit, hout, writeBytes_eq_self_iff h]
    constructor
    · rintro hrest
      right
      rintro i d hi hd
      obtain ⟨j, rfl⟩ := Nat.exists_eq_add_of_le hi
      obtain ⟨id', key', hloc, hstored⟩ := hrest j d (by rwa [List.getElem?_drop])
      rw [add_assoc, ← Nat.cast_add] at hloc
      exact ⟨id', key', hloc, (hkept _ hi id' key' hloc).symm.trans hstored⟩
    · rintro (hnone | hrest) j d hd
      · cases hnone
      · rw [List.getElem?_drop] at hd
        obtain ⟨id', key', hloc, hstored⟩ := hrest (k + j) d (Nat.le_add_right k j) hd
        rw [add_assoc, ← Nat.cast_add]
        exact ⟨id', key', hloc, (hkept _ (Nat.le_add_right k j) id' key' hloc).trans hstored⟩

omit [DecidableEq ι] in
/-- A read of one byte, which the bytes of a longer read are compared with. -/
theorem reads_byte (heap : Heap ι) (h : self.Tree) (x : ℤ) :
    Reads heap self x 1 (.ok [byteAt heap self x]) := by
  have hread := (reads_iff heap self h x 1).mpr (readsThrough_of_le_one heap self x le_rfl)
  rwa [span, List.range_one, List.map_singleton, Nat.cast_zero, add_zero, Nat.cast_one] at hread

theorem writes_byte (heap : Heap ι) (h : self.Tree) (x : ℤ) (d : UInt8) :
    Writes heap self x [d] (writeByte heap self x d) := by
  have hbyte : writeBytes self heap x [d] = writeByte heap self x d := by
    rcases hloc : self.resolve x with _ | ⟨id, key⟩
    · rw [writeBytes_cons_none hloc, writeByte, hloc]
    · rw [writeBytes_cons_some hloc, writeBytes, writeByte, hloc]
  rw [← hbyte, writes_iff heap h]
  refine .inr fun i b hi hb => ?_
  have hpos := stretch_pos self x (n := [d].length) Nat.one_pos
  rw [List.getElem?_eq_none (by rw [List.length_singleton]; omega)] at hb
  cases hb

/-- A read returns the bytes of its addresses, and a write has the effect of single writes. -/
def BytewiseAccess (heap : Heap ι) (self : Handler ι) (addr : ℤ) (n : ℕ) (data : List UInt8) :
    Prop :=
  Reads heap self addr n (.ok (span (byteAt heap self) addr n)) ∧
    Writes heap self addr data (writeBytes self heap addr data)

theorem bytewiseAccess_iff (h : self.Tree) (heap : Heap ι) (addr : ℤ) (n : ℕ) (data : List UInt8) :
    BytewiseAccess heap self addr n data ↔
      ReadsThrough heap self addr n ∧ WritesThrough heap self addr data :=
  and_congr (reads_iff heap self h addr n) (writes_iff heap h addr data)

/-! ### Two handlers side by side -/

def exampleHandler : Handler ℕ := mk 0 64 (some 0) [mk 16 8 (some 1) [], mk 24 8 (some 2) []]

theorem owns_leaf {addr : ℤ} {length id id' : ℕ} (h : Owns (mk addr length (some id) []) id') :
    id' = id := by
  rcases h with hself | ⟨hmem, -⟩
  · exact (Option.some.inj hself).symm
  · cases hmem

theorem tree_leaf (addr : ℤ) (length id : ℕ) : Tree (mk addr length (some id) []) :=
  .mk .nil .nil (fun _ h => absurd h List.not_mem_nil) fun _ h => absurd h List.not_mem_nil

theorem tree_example : exampleHandler.Tree := by
  have hmem : ∀ {P : Handler ℕ → Prop}, P (mk 16 8 (some 1) []) → P (mk 24 8 (some 2) []) →
      ∀ handler ∈ exampleHandler.subHandlers, P handler := by
    rintro P h1 h2 handler hmem
    rcases List.mem_cons.mp hmem with rfl | hmem
    · exact h1
    · rcases List.mem_singleton.mp hmem with rfl
      exact h2
  refine .mk ?_ ?_ (hmem (fun id h => ?_) fun id h => ?_)
    (hmem (tree_leaf 16 8 1) (tree_leaf 24 8 2))
  · exact List.pairwise_pair.mpr (by decide)
  · refine List.pairwise_pair.mpr fun id h h' => ?_
    have := (owns_leaf h).symm.trans (owns_leaf h')
    omega
  · rw [owns_leaf h]
    decide
  · rw [owns_leaf h]
    decide

/-- A read and a write that start before the first one. -/
theorem bytewiseAccess_iff_gap : exampleHandler.Tree ∧
    BytewiseAccess (fun _ _ => 0) exampleHandler 12 8 [1, 2, 3, 4] := by
  have hnext : exampleHandler.next? 12 = some (mk 16 8 (some 1) []) := rfl
  refine ⟨tree_example, (bytewiseAccess_iff tree_example _ 12 8 _).mpr
    ⟨?_, .inr fun i d hi hd => ?_⟩⟩
  · refine .before hnext (by decide) (.last rfl) fun x hstop hx => ?_
    rw [show (mk 16 8 (some 1) [] : Handler ℕ).stop = 24 from rfl] at hstop
    omega
  · rw [stretch_next hnext] at hi
    rw [List.getElem?_eq_none hi] at hd
    cases hd

/-- A read from one into the other does not come to an end. -/
theorem not_bytewiseAccess_across : exampleHandler.Tree ∧
    ¬ BytewiseAccess (fun _ _ => 0) exampleHandler 16 12 [] := by
  have hnext : exampleHandler.next? 16 = some (mk 16 8 (some 1) []) := rfl
  refine ⟨tree_example, fun h => not_reads_beyond hnext (by decide) ?_ h.1⟩
  decide

end Chipscopy.Xvc.Handler
