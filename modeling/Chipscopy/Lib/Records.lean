import Chipscopy.Lib.Python

/-! Buffers of records

    A buffer of records of one length is the concatenation of its records. Cutting it at a record
    boundary cuts the list of records, and moving the front parts of the records down, one record
    after the other in the same buffer, leaves the front parts side by side: a record is read before
    anything is written over it. -/

namespace Records

variable {α : Type*}

/-- Every record has length `m`. -/
def Rows (m : ℕ) (rows : List (List α)) : Prop := ∀ row ∈ rows, row.length = m

/-- The first `n` records of a buffer. -/
def split (m n : ℕ) (l : List α) : List (List α) :=
  (List.range n).map fun i => Py.segment l (i * m) (i * m + m)

/-- `range(start, stop, step)` for a positive step. -/
def addresses (start stop step : ℕ) : List ℕ :=
  List.range' start ((stop - start + step - 1) / step) step

@[simp] theorem length_split (m n : ℕ) (l : List α) : (split m n l).length = n := by
  rw [split, List.length_map, List.length_range]

theorem rows_split {m n : ℕ} {l : List α} (h : n * m ≤ l.length) : Rows m (split m n l) := by
  intro row hrow
  obtain ⟨i, hi, rfl⟩ := List.mem_map.mp hrow
  have hle : (i + 1) * m ≤ n * m := Nat.mul_le_mul_right m (List.mem_range.mp hi)
  rw [Nat.add_mul] at hle
  rw [Py.length_segment]
  omega

theorem Rows.tail {m : ℕ} {row : List α} {rows : List (List α)} (h : Rows m (row :: rows)) :
    Rows m rows := fun r hr => h r (List.mem_cons_of_mem _ hr)

theorem Rows.drop {m : ℕ} {rows : List (List α)} (h : Rows m rows) (k : ℕ) : Rows m (rows.drop k) :=
  fun r hr => h r (List.mem_of_mem_drop hr)

theorem Rows.take {m : ℕ} {rows : List (List α)} (h : Rows m rows) (k : ℕ) : Rows m (rows.take k) :=
  fun r hr => h r (List.mem_of_mem_take hr)

theorem Rows.length_flatten {m : ℕ} : ∀ {rows : List (List α)}, Rows m rows →
    rows.flatten.length = rows.length * m
  | [], _ => by simp
  | row :: rows, h => by
    rw [List.flatten_cons, List.length_append, h row List.mem_cons_self, h.tail.length_flatten,
      List.length_cons, Nat.succ_mul, Nat.add_comm]

theorem Rows.drop_flatten {m : ℕ} : ∀ {rows : List (List α)}, Rows m rows → ∀ k,
    rows.flatten.drop (k * m) = (rows.drop k).flatten
  | [], _, k => by simp
  | row :: rows, _, 0 => by simp
  | row :: rows, h, k + 1 => by
    have hrow := h row List.mem_cons_self
    have hk : (k + 1) * m = row.length + k * m := by rw [hrow, Nat.succ_mul, Nat.add_comm]
    rw [List.flatten_cons, hk, List.drop_append, List.drop_eq_nil_of_le (by omega), List.nil_append,
      Nat.add_sub_cancel_left, h.tail.drop_flatten k, List.drop_succ_cons]

theorem Rows.take_flatten {m : ℕ} : ∀ {rows : List (List α)}, Rows m rows → ∀ k,
    rows.flatten.take (k * m) = (rows.take k).flatten
  | [], _, k => by simp
  | row :: rows, _, 0 => by simp
  | row :: rows, h, k + 1 => by
    have hrow := h row List.mem_cons_self
    have hk : (k + 1) * m = row.length + k * m := by rw [hrow, Nat.succ_mul, Nat.add_comm]
    rw [List.flatten_cons, hk, List.take_append, List.take_of_length_le (by omega),
      Nat.add_sub_cancel_left, h.tail.take_flatten k, List.take_succ_cons, List.flatten_cons]

theorem Rows.segment_flatten {m : ℕ} {rows : List (List α)} (h : Rows m rows) (i j : ℕ) :
    Py.segment rows.flatten (i * m) (j * m) = (Py.segment rows i j).flatten := by
  rw [Py.segment, h.take_flatten, (h.take j).drop_flatten, Py.segment]

theorem Rows.append {m : ℕ} {rows rows' : List (List α)} (h : Rows m rows) (h' : Rows m rows') :
    Rows m (rows ++ rows') :=
  fun r hr => (List.mem_append.mp hr).elim (h r) (h' r)

/-- A buffer that is a whole number of records is the concatenation of its records. -/
theorem flatten_split {m : ℕ} : ∀ {n : ℕ} {l : List α}, l.length = n * m → (split m n l).flatten = l
  | 0, l, h => by
    rw [Nat.zero_mul] at h
    rw [List.length_eq_zero_iff.mp h]
    rfl
  | n + 1, l, h => by
    have hlen : (l.drop m).length = n * m := by
      rw [List.length_drop, h, Nat.succ_mul, Nat.add_sub_cancel]
    have htail : split m (n + 1) l = l.take m :: split m n (l.drop m) := by
      rw [split, List.range_succ_eq_map, List.map_cons, List.map_map]
      refine congrArg₂ List.cons (by simp [Py.segment]) (List.map_congr_left fun i _ => ?_)
      have hend : i.succ * m + m = m + (i * m + m) := by rw [Nat.succ_mul]; omega
      have hstart : i.succ * m = m + i * m := by rw [Nat.succ_mul, Nat.add_comm]
      simp only [Function.comp_apply, Py.segment]
      rw [hend, hstart, List.take_drop, List.drop_drop]
    rw [htail, List.flatten_cons, flatten_split hlen, List.take_append_drop]

theorem getElem?_split {m n i : ℕ} (l : List α) (h : i < n) :
    (split m n l)[i]? = some (Py.segment l (i * m) (i * m + m)) := by
  rw [split, List.getElem?_map, List.getElem?_range h]
  rfl

/-- Item `j` of record `i`. -/
theorem Rows.getElem?_flatten {m : ℕ} {rows : List (List α)} (h : Rows m rows) {i j : ℕ} (hj : j < m)
    {row : List α} (hi : rows[i]? = some row) : rows.flatten[i * m + j]? = row[j]? := by
  have hrow := h row (List.mem_of_getElem? hi)
  rw [← List.getElem?_drop, h.drop_flatten i, ← List.cons_getElem_drop_succ
    (h := (List.getElem?_eq_some_iff.mp hi).1), List.flatten_cons, (List.getElem?_eq_some_iff.mp hi).2,
    List.getElem?_append_left (by omega)]

/-- Front of record `i`. -/
theorem Rows.segment_row {m : ℕ} {rows : List (List α)} (h : Rows m rows) {i j : ℕ} (hj : j ≤ m)
    {row : List α} (hi : rows[i]? = some row) :
    Py.segment rows.flatten (i * m) (i * m + j) = row.take j := by
  obtain ⟨hlt, rfl⟩ := List.getElem?_eq_some_iff.mp hi
  have hrow := h _ (List.mem_of_getElem? hi)
  have hdrop : ((rows.flatten.take (i * m + j)).drop (i * m)) = (rows.flatten.drop (i * m)).take j := by
    rw [List.drop_take, Nat.add_sub_cancel_left]
  rw [Py.segment, hdrop, h.drop_flatten, List.drop_eq_getElem_cons hlt, List.flatten_cons,
    List.take_append_of_le_length (by omega)]

/-- The records of a concatenation are its parts. -/
theorem Rows.split_flatten {m : ℕ} {rows : List (List α)} (h : Rows m rows) :
    split m rows.length rows.flatten = rows := by
  refine List.ext_getElem? fun i => ?_
  by_cases hi : i < rows.length
  · have hend : i * m + m = (i + 1) * m := (Nat.succ_mul i m).symm
    rw [getElem?_split _ hi, List.getElem?_eq_getElem hi, Py.segment, hend, h.take_flatten,
      (h.take (i + 1)).drop_flatten, List.take_succ_eq_append_getElem hi, List.drop_left' (by simp; omega)]
    simp
  · rw [List.getElem?_eq_none (by simpa using hi), List.getElem?_eq_none (by simpa using hi)]

theorem addresses_eq {m n stop : ℕ} (hm : 0 < m) (h : stop = n * m) :
    addresses 0 stop m = List.range' 0 n m := by
  have hcount : (stop - 0 + m - 1) / m = n := by
    rw [h, Nat.sub_zero, Nat.add_sub_assoc hm, Nat.mul_comm, Nat.mul_add_div hm,
      Nat.div_eq_of_lt (by omega), Nat.add_zero]
  rw [addresses, hcount]

/-! ### Moving records down in place -/

/-- Move `len` items from each address to the front of the buffer, one after the other. -/
def moveDown (len : ℕ) : List α → ℕ → List ℕ → List α × ℕ
  | data, toAddr, [] => (data, toAddr)
  | data, toAddr, fromAddr :: rest =>
    moveDown len
      (Py.setSegment data toAddr (toAddr + len) (Py.segment data fromAddr (fromAddr + len)))
      (toAddr + len) rest

theorem length_moveDown {len : ℕ} : ∀ {froms : List ℕ} {data : List α} {toAddr : ℕ},
    (∀ a ∈ froms, a + len ≤ data.length) → toAddr + froms.length * len ≤ data.length →
      (moveDown len data toAddr froms).1.length = data.length
  | [], _, _, _, _ => rfl
  | a :: froms, data, toAddr, hfrom, hto => by
    rw [List.length_cons, Nat.succ_mul] at hto
    have ha : a + len ≤ data.length := hfrom a List.mem_cons_self
    have hseg : (Py.segment data a (a + len)).length = toAddr + len - toAddr := by
      rw [Py.length_segment]
      omega
    have hroom : toAddr + len ≤ data.length := by omega
    have hset := Py.length_setSegment (Nat.le_add_right toAddr len) hroom hseg
    have hfrom' : ∀ b ∈ froms, b + len ≤ (Py.setSegment data toAddr (toAddr + len)
        (Py.segment data a (a + len))).length := by
      intro b hb
      rw [hset]
      exact hfrom b (List.mem_cons_of_mem _ hb)
    have hto' : toAddr + len + froms.length * len ≤ (Py.setSegment data toAddr (toAddr + len)
        (Py.segment data a (a + len))).length := by
      rw [hset]
      omega
    rw [moveDown, length_moveDown hfrom' hto', hset]

theorem moveDown_snd {len : ℕ} : ∀ (froms : List ℕ) (data : List α) (toAddr : ℕ),
    (moveDown len data toAddr froms).2 = toAddr + froms.length * len
  | [], _, _ => by simp [moveDown]
  | a :: froms, data, toAddr => by
    rw [moveDown, moveDown_snd froms, List.length_cons, Nat.succ_mul]
    omega

/-- The records that are still to be moved stand behind everything written so far. -/
theorem moveDown_rows {len m : ℕ} (hlen : len ≤ m) (rest : List α) :
    ∀ {rows : List (List α)}, Rows m rows → ∀ done junk : List α, ∃ junk',
      moveDown len (done ++ junk ++ (rows.flatten ++ rest)) done.length
          (List.range' (done.length + junk.length) rows.length m) =
        (done ++ (rows.map (·.take len)).flatten ++ junk' ++ rest,
          done.length + rows.length * len)
  | [], _, done, junk => ⟨junk, by simp [moveDown]⟩
  | row :: rows, h, done, junk => by
    have hrow : row.length = m := h row List.mem_cons_self
    have hflat : (row :: rows).flatten ++ rest = row ++ (rows.flatten ++ rest) := by
      rw [List.flatten_cons, List.append_assoc]
    have hseg : Py.segment (done ++ junk ++ (row ++ (rows.flatten ++ rest)))
        (done.length + junk.length) (done.length + junk.length + len) = row.take len := by
      rw [← List.length_append, Py.segment, List.take_length_add_append, List.drop_left,
        List.take_append_of_le_length (by omega)]
    have hset : Py.setSegment (done ++ junk ++ (row ++ (rows.flatten ++ rest))) done.length
        (done.length + len) (row.take len) =
        (done ++ row.take len) ++ (junk ++ row).drop len ++ (rows.flatten ++ rest) := by
      have hsplit : done ++ junk ++ (row ++ (rows.flatten ++ rest)) =
          done ++ ((junk ++ row) ++ (rows.flatten ++ rest)) := by
        simp
      have hle : len ≤ (junk ++ row).length := by rw [List.length_append]; omega
      rw [hsplit, Py.setSegment, List.take_left, List.drop_length_add_append,
        List.drop_append_of_le_length hle, ← List.append_assoc]
    have hfrom : done.length + junk.length + m =
        (done ++ row.take len).length + ((junk ++ row).drop len).length := by
      simp only [List.length_append, List.length_take, List.length_drop]
      omega
    have hto : done.length + len = (done ++ row.take len).length := by
      rw [List.length_append, List.length_take]
      omega
    obtain ⟨junk', hrest⟩ :=
      moveDown_rows hlen rest h.tail (done ++ row.take len) ((junk ++ row).drop len)
    refine ⟨junk', ?_⟩
    rw [hflat, List.length_cons, List.range'_succ, moveDown, hseg, hset, hfrom, hto, hrest,
      List.map_cons, List.flatten_cons, ← hto, List.append_assoc done]
    refine Prod.ext rfl ?_
    rw [Nat.succ_mul]
    omega

/-- The first records of a buffer, moved down. -/
theorem take_moveDown_append {len m : ℕ} (hlen : len ≤ m) {rows : List (List α)} (h : Rows m rows)
    (rest : List α) :
    let r := moveDown len (rows.flatten ++ rest) 0 (List.range' 0 rows.length m)
    r.1.take r.2 = (rows.map (·.take len)).flatten := by
  obtain ⟨junk, hmove⟩ := moveDown_rows hlen rest h [] []
  have hrows : Rows len (rows.map (·.take len)) := by
    intro row' hrow'
    obtain ⟨row, hrow, rfl⟩ := List.mem_map.mp hrow'
    rw [List.length_take, h row hrow]
    omega
  have hflat := hrows.length_flatten
  rw [List.length_map] at hflat
  simp only [List.nil_append, List.length_nil, Nat.zero_add] at hmove
  simp only [hmove, ← hflat, List.append_assoc, List.take_left]

/-- All records of a buffer, moved down. -/
theorem take_moveDown {len m : ℕ} (hlen : len ≤ m) {rows : List (List α)} (h : Rows m rows) :
    let r := moveDown len rows.flatten 0 (List.range' 0 rows.length m)
    r.1.take r.2 = (rows.map (·.take len)).flatten := by
  have hmove := take_moveDown_append hlen h []
  rwa [List.append_nil] at hmove

end Records
