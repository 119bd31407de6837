import Chipscopy.Client.WriteBytes

/-! Transfers to a memory and back

    The requests of a write have no address in common, so the memory after it does not depend on
    the order of the answers. While the write runs a byte is the old one or the new one, and after
    it was confirmed every read of whole words returns the new ones, again in any order. -/

namespace Chipscopy.Client

/-! ### A memory that takes requests -/

/-- Bytes stored from an address on. -/
def store (memory : ℕ → UInt8) (addr : ℕ) (data : List UInt8) (x : ℕ) : UInt8 :=
  (if addr ≤ x then data[x - addr]? else none).getD (memory x)

/-- What has landed of an answered request. If it failed, that is any number of bytes. -/
def WriteRequest.stored {ε : Type} (landed : WriteRequest → ℕ) (c : WriteRequest)
    (error : Option ε) : List UInt8 :=
  if error.isNone then c.data else c.data.take (landed c)

/-- The memory after some answers. -/
def memoryAfter {ε : Type} (landed : WriteRequest → ℕ) (memory : ℕ → UInt8)
    (answers : List (WriteRequest × Option ε)) : ℕ → UInt8 :=
  answers.foldl (fun memory a => store memory a.1.addr (a.1.stored landed a.2)) memory

namespace WriteBytes

variable {ε : Type} {landed : WriteRequest → ℕ} {memory : ℕ → UInt8}
  {answers : List (WriteRequest × Option ε)} {data : List UInt8} {address offset byteSize : ℕ}

theorem store_of_mem {addr x : ℕ} {b : UInt8} (h : (b, x) ∈ data.zipIdx addr) :
    store memory addr data x = b := by
  obtain ⟨hle, hget⟩ := List.mk_mem_zipIdx_iff_le_and_getElem?_sub.mp h
  rw [store, if_pos hle, hget]
  rfl

/-- A byte is the old one, or one that was stored at its address. -/
theorem store_cases (memory : ℕ → UInt8) (addr : ℕ) (data : List UInt8) (x : ℕ) :
    store memory addr data x = memory x ∨ (store memory addr data x, x) ∈ data.zipIdx addr := by
  rw [store]
  split_ifs with hle
  · cases hget : data[x - addr]? with
    | none => exact .inl rfl
    | some b => exact .inr (List.mk_mem_zipIdx_iff_le_and_getElem?_sub.mpr ⟨hle, hget⟩)
  · exact .inl rfl

theorem store_stored_cases (memory : ℕ → UInt8) (c : WriteRequest) (error : Option ε) (x : ℕ) :
    store memory c.addr (c.stored landed error) x = memory x ∨
      (store memory c.addr (c.stored landed error) x, x) ∈ c.data.zipIdx c.addr := by
  obtain ⟨rest, hrest⟩ : c.stored landed error <+: c.data := by
    rw [WriteRequest.stored]
    split_ifs
    · exact List.prefix_rfl
    · exact List.take_prefix _ _
  refine (store_cases memory c.addr _ x).imp_right fun h => ?_
  rw [List.mk_mem_zipIdx_iff_le_and_getElem?_sub] at h ⊢
  refine ⟨h.1, ?_⟩
  rw [← hrest, List.getElem?_append_left (List.getElem?_eq_some_iff.mp h.2).1, h.2]

theorem memoryAfter_concat (c : WriteRequest) (error : Option ε) :
    memoryAfter landed memory (answers ++ [(c, error)]) =
      store (memoryAfter landed memory answers) c.addr (c.stored landed error) := by
  rw [memoryAfter, List.foldl_append]
  rfl

theorem mem_placed_concat {c : WriteRequest} {requests : List WriteRequest} {p : UInt8 × ℕ} :
    p ∈ placed (requests ++ [c]) ↔ p ∈ placed requests ∨ p ∈ c.data.zipIdx c.addr := by
  simp [placed]

theorem memoryAfter_cases (x : ℕ) : memoryAfter landed memory answers x = memory x ∨
    (memoryAfter landed memory answers x, x) ∈ placed (answers.map (·.1)) := by
  induction answers using List.reverseRecOn with
  | nil => exact .inl rfl
  | append_singleton answers a ih =>
    obtain ⟨c, error⟩ := a
    rw [memoryAfter_concat, List.map_append, List.map_singleton, mem_placed_concat]
    rcases store_stored_cases (memoryAfter landed memory answers) c error x with hsame | hnew
    · rw [hsame]
      exact ih.imp_right .inl
    · exact .inr (.inr hnew)

/-- Where each address gets one byte only, the requests without an error are in the memory. -/
theorem memoryAfter_of_mem {wanted : List (UInt8 × ℕ)}
    (hone : ∀ b b' x, (b, x) ∈ wanted → (b', x) ∈ wanted → b = b')
    (hplaced : ∀ p ∈ placed (answers.map (·.1)), p ∈ wanted) {c : WriteRequest}
    (hc : (c, none) ∈ answers) {b : UInt8} {x : ℕ} (hb : (b, x) ∈ c.data.zipIdx c.addr) :
    memoryAfter landed memory answers x = b := by
  induction answers using List.reverseRecOn with
  | nil => cases hc
  | append_singleton answers a ih =>
    obtain ⟨c', error⟩ := a
    rw [List.map_append, List.map_singleton] at hplaced
    rw [memoryAfter_concat]
    rcases List.mem_append.mp hc with hc | hc
    · have hold := ih (fun p hp => hplaced p (mem_placed_concat.mpr (.inl hp))) hc
      rcases store_stored_cases (memoryAfter landed memory answers) c' error x with hsame | hnew
      · rw [hsame, hold]
      · refine hone _ _ x (hplaced _ (mem_placed_concat.mpr (.inr hnew)))
          (hplaced _ (mem_placed_concat.mpr (.inl ?_)))
        exact List.mem_flatMap.mpr ⟨c, List.mem_map_of_mem (f := (·.1)) hc, hb⟩
    · obtain ⟨rfl, rfl⟩ := Prod.mk.inj (List.mem_singleton.mp hc)
      exact store_of_mem hb

/-! ### The memory of a write -/

theorem mem_wanted {b : UInt8} {x : ℕ} : (b, x) ∈ wanted address data offset byteSize ↔
    ∃ j < byteSize, x = address + j ∧ data[offset + j]? = some b := by
  rw [wanted, List.mk_mem_zipIdx_iff_le_and_getElem?_sub, Py.getElem?_segment]
  constructor
  · rintro ⟨hle, hget⟩
    split_ifs at hget with hj
    exact ⟨x - address, by omega, by omega, hget⟩
  · rintro ⟨j, hj, rfl, hget⟩
    rw [Nat.add_sub_cancel_left, if_pos (by omega)]
    exact ⟨Nat.le_add_right _ _, hget⟩

theorem wanted_functional {b b' : UInt8} {x : ℕ} (h : (b, x) ∈ wanted address data offset byteSize)
    (h' : (b', x) ∈ wanted address data offset byteSize) : b = b' := by
  obtain ⟨j, -, rfl, hget⟩ := mem_wanted.mp h
  obtain ⟨j', -, heq, hget'⟩ := mem_wanted.mp h'
  obtain rfl : j = j' := by omega
  exact Option.some.inj (hget.symm.trans hget')

theorem Delivered.placed_answers {s : WriteState ε}
    (h : Delivered address data offset byteSize answers s) :
    ∀ p ∈ placed (answers.map (·.1)), p ∈ wanted address data offset byteSize := by
  intro p hp
  obtain ⟨c, hc, hp⟩ := List.mem_flatMap.mp hp
  exact h.bytes.subset (List.mem_flatMap.mpr
    ⟨c, h.answered.mem_iff.mp (List.mem_append_left _ hc), hp⟩)

/-- Old or new, and outside the range old. -/
theorem Delivered.memoryAfter_cases {s : WriteState ε}
    (h : Delivered address data offset byteSize answers s) (x : ℕ) :
    memoryAfter landed memory answers x = memory x ∨ ∃ j < byteSize, x = address + j ∧
      data[offset + j]? = some (memoryAfter landed memory answers x) :=
  (WriteBytes.memoryAfter_cases x).imp_right fun hp => mem_wanted.mp (h.placed_answers _ hp)

/-- After the confirmation new. -/
theorem Delivered.memoryAfter_done {s : WriteState ε}
    (h : Delivered address data offset byteSize answers s) (hdone : s.doneCalls = [none]) {j : ℕ}
    (hj : j < byteSize) (hroom : offset + byteSize ≤ data.length) :
    data[offset + j]? = some (memoryAfter landed memory answers (address + j)) := by
  obtain ⟨hplaced, hperm, hok⟩ := h.complete hdone
  have hget : data[offset + j]? = some data[offset + j] := List.getElem?_eq_getElem (by omega)
  have hmem : (data[offset + j], address + j) ∈ placed s.sent :=
    hplaced ▸ mem_wanted.mpr ⟨j, hj, rfl, hget⟩
  obtain ⟨c, hc, hb⟩ := List.mem_flatMap.mp hmem
  obtain ⟨⟨c, error⟩, ha, rfl⟩ := List.mem_map.mp (hperm.mem_iff.mpr hc)
  obtain rfl : error = none := hok _ ha
  rw [hget, memoryAfter_of_mem (fun _ _ _ => wanted_functional) h.placed_answers ha hb]

end WriteBytes

/-! ### Read again -/

/-- What a confirmed read of whole words has put into its buffer. -/
theorem getElem?_data_of_done {ε : Type} {memory : ℕ → UInt8} {address offset byteSize : ℕ}
    {buffer : List UInt8} (hsize : 1 ≤ byteSize) (hwords : 4 ∣ byteSize)
    (hroom : offset + byteSize ≤ buffer.length) {outcomes : List (Option ε)} {s : ReadState ε}
    (h : Run memory (offset + byteSize) (.first ε address buffer offset byteSize) outcomes s)
    (hdone : s.doneCalls = [none]) (j : ℕ) :
    s.data[j]? = if offset ≤ j ∧ j < offset + byteSize
      then some (memory (address + (j - offset))) else buffer[j]? := by
  rcases run_reading_or_failed hsize hroom h with ⟨received, h⟩ | h
  · have hnil : s.localPending = [] := by
      by_contra hne
      rw [h.doneCalls, if_neg hne] at hdone
      cases hdone
    rw [h.getElem?_data hnil, Nat.div_mul_cancel hwords]
  · obtain ⟨e, hfirst, -⟩ := h.first
    rw [h.doneCalls, hfirst] at hdone
    cases hdone

/-- While a write runs, or after it failed, every byte is the old or the new one, and only those of
    its range are new. After it was confirmed, reads return the new ones. -/
theorem write_then_read (ε : Type) (memory : ℕ → UInt8) (address : ℕ) (data : List UInt8)
    {offset byteSize : ℕ} (hsize : 1 ≤ byteSize) (hroom : offset + byteSize ≤ data.length) :
    ∃ start, writeBytes ε address data offset (some byteSize) = .ok start ∧
      ∀ answers s, WriteBytes.Run start answers s → ∀ landed,
        (∀ x, memoryAfter landed memory answers x = memory x ∨ ∃ j < byteSize, x = address + j ∧
          data[offset + j]? = some (memoryAfter landed memory answers x)) ∧
        (s.doneCalls = [none] → ∀ address₂ buffer offset₂ byteSize₂, 1 ≤ byteSize₂ →
          4 ∣ byteSize₂ → offset₂ + byteSize₂ ≤ buffer.length →
          ∃ start₂, readBytes ε address₂ buffer offset₂ (some byteSize₂) = .ok start₂ ∧
            ∀ outcomes r, Run (memoryAfter landed memory answers) (offset₂ + byteSize₂) start₂
              outcomes r → r.doneCalls = [none] → ∀ j, r.data[j]? =
                if offset₂ ≤ j ∧ j < offset₂ + byteSize₂ then
                  let x := address₂ + (j - offset₂)
                  if address ≤ x ∧ x < address + byteSize then data[offset + (x - address)]?
                  else some (memory x)
                else buffer[j]?) := by
  refine ⟨_, WriteBytes.writeBytes_eq hroom, fun answers s hrun landed => ?_⟩
  have hwrite : WriteBytes.Delivered address data offset byteSize answers s := by
    rcases WriteBytes.run_writing_or_failed hsize hrun with h | h
    · exact h.delivered hroom
    · exact h.delivered hroom
  refine ⟨hwrite.memoryAfter_cases, fun hdone address₂ buffer offset₂ byteSize₂ hsize₂ hwords hroom₂
    => ⟨_, readBytes_eq hroom₂, fun outcomes r hread hdone₂ j => ?_⟩⟩
  rw [getElem?_data_of_done hsize₂ hwords hroom₂ hread hdone₂]
  refine if_congr Iff.rfl ?_ rfl
  dsimp only
  split_ifs with hx
  · obtain ⟨k, hk⟩ := Nat.exists_eq_add_of_le hx.1
    rw [hk, Nat.add_sub_cancel_left]
    exact (hwrite.memoryAfter_done hdone (by omega) hroom).symm
  · refine congrArg some ((hwrite.memoryAfter_cases _).resolve_right ?_)
    rintro ⟨k, hk, heq, -⟩
    omega

/-- Four bytes in the middle of two words. -/
theorem write_then_read_fourBytes : ∃ start,
    writeBytes String 18 [1, 2, 3, 4] 0 (some 4) = .ok start ∧
    ∀ answers s, WriteBytes.Run start answers s → s.doneCalls = [none] →
      ∃ start₂, readBytes String 16 (List.replicate 8 0) 0 (some 8) = .ok start₂ ∧
        ∀ outcomes r, Run (memoryAfter (fun _ => 0) (fun _ => 9) answers) 8 start₂ outcomes r →
          r.doneCalls = [none] → r.data = [9, 9, 1, 2, 3, 4, 9, 9] := by
  obtain ⟨start, hok, hall⟩ :=
    @write_then_read String (fun _ => 9) 18 [1, 2, 3, 4] 0 4 (by decide) (by decide)
  refine ⟨start, hok, fun answers s hrun hdone => ?_⟩
  obtain ⟨start₂, hok₂, hread⟩ := (hall answers s hrun fun _ => 0).2 hdone 16
    (List.replicate 8 0) 0 8 (by decide) (by decide) (by decide)
  refine ⟨start₂, hok₂, fun outcomes r hrun₂ hdone₂ => List.ext_getElem? fun j => ?_⟩
  rw [hread outcomes r hrun₂ hdone₂ j]
  match j with
  | 0 | 1 | 2 | 3 | 4 | 5 | 6 | 7 => rfl
  | j + 8 => simp

end Chipscopy.Client
