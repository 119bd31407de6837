import Chipscopy.Lib.Numerals

/-! Bits at positions

    A list of positions selects a number from a word, the first position its lowest bit. Two lists
    select the same number from every word only if they are equal. A numeral of some width has the
    positions below its length; one of a longer word has more of them. -/

namespace Bits

def select (v : ℕ) (ps : List ℕ) : ℕ := ofBits (ps.map v.testBit)

theorem ofBits_replicate_true : ∀ n, ofBits (List.replicate n true) = 2 ^ n - 1
  | 0 => rfl
  | n + 1 => by
    have := Nat.one_le_two_pow (n := n)
    rw [List.replicate_succ, ofBits, ofBits_replicate_true n, Nat.pow_succ, Bool.toNat_true]
    omega

theorem testBit_select {v : ℕ} {ps : List ℕ} {j : ℕ} (hj : j < ps.length) :
    (select v ps).testBit j = v.testBit ps[j] := by
  rw [select, testBit_ofBits, List.getD_eq_getElem _ _ (by simpa using hj), List.getElem_map]

/-- Of the word of ones. -/
theorem select_ones {N : ℕ} {ps : List ℕ} (hps : ∀ p ∈ ps, p < N) :
    select (2 ^ N - 1) ps = 2 ^ ps.length - 1 := by
  have hones : ps.map (2 ^ N - 1).testBit = List.replicate ps.length true := by
    rw [List.map_congr_left fun p hp => by
      rw [Nat.testBit_two_pow_sub_one, decide_eq_true (hps p hp)]]
    exact List.map_const'
  rw [select, hones, ofBits_replicate_true]

theorem length_eq_of_select_ones {N M : ℕ} {ps qs : List ℕ} (hps : ∀ p ∈ ps, p < N)
    (hqs : ∀ q ∈ qs, q < M) (h : select (2 ^ N - 1) ps = select (2 ^ M - 1) qs) :
    ps.length = qs.length := by
  rw [select_ones hps, select_ones hqs] at h
  have := Nat.one_le_two_pow (n := ps.length)
  have := Nat.one_le_two_pow (n := qs.length)
  exact Nat.pow_right_injective (le_refl 2) (by simp only; omega)

theorem select_eq_iff {N : ℕ} {ps qs : List ℕ} (hps : ∀ p ∈ ps, p < N) (hqs : ∀ q ∈ qs, q < N) :
    (∀ v < 2 ^ N, select v ps = select v qs) ↔ ps = qs := by
  refine ⟨fun h => ?_, fun h v _ => by rw [h]⟩
  have hlen : ps.length = qs.length :=
    length_eq_of_select_ones hps hqs (h _ (Nat.sub_one_lt (Nat.two_pow_pos N).ne'))
  refine List.ext_getElem hlen fun j hj hj' => ?_
  -- the word that has only the bit of `qs`
  have hbit := congrArg (Nat.testBit · j) (h (2 ^ qs[j])
    (Nat.pow_lt_pow_right (by decide) (hqs _ (List.getElem_mem hj'))))
  simp only [testBit_select hj, testBit_select hj', Nat.testBit_two_pow, decide_eq_decide] at hbit
  exact (hbit.mpr trivial).symm

/-- A part of the selected number is selected by a part of the positions. -/
theorem select_drop_take (v : ℕ) (ps : List ℕ) (l w : ℕ) :
    (select v ps >>> l) % 2 ^ w = select v ((ps.drop l).take w) := by
  refine Nat.eq_of_testBit_eq fun j => ?_
  rw [Nat.testBit_mod_two_pow, Nat.testBit_shiftRight, select, select, testBit_ofBits, testBit_ofBits]
  by_cases hj : j < w
  · rw [decide_eq_true hj, Bool.true_and, List.getD_eq_getElem?_getD, List.getD_eq_getElem?_getD,
      List.map_take, List.map_drop, List.getElem?_take_of_lt hj, List.getElem?_drop]
  · rw [decide_eq_false hj, Bool.false_and, List.getD_eq_default]
    rw [List.length_map, List.length_take]
    omega

/-! ### Numerals -/

theorem filter_range'_lt (n : ℕ) : ∀ length index : ℕ,
    (List.range' index length).filter (· < n) = List.range' index (min length (n - index))
  | 0, index => by rw [Nat.zero_min, List.range'_zero, List.filter_nil]
  | length + 1, index => by
    rw [List.range'_succ]
    by_cases h : index < n
    · have hmin : min (length + 1) (n - index) = min length (n - (index + 1)) + 1 := by omega
      rw [List.filter_cons_of_pos (by simpa using h), filter_range'_lt n length, hmin,
        List.range'_succ]
    · have hmin : min (length + 1) (n - index) = min length (n - (index + 1)) := by omega
      have hzero : min length (n - (index + 1)) = 0 := by omega
      rw [List.filter_cons_of_neg (by simpa using h), filter_range'_lt n length, hmin, hzero]
      rfl

/-- The characters of a stretch of the reversed numeral, as far as it has them. -/
theorem segment_reverse_formatBin_eq (width v index length : ℕ) :
    Py.segment (formatBin width v).reverse index (index + length) =
      ((List.range' index length).filter (· < (formatBin width v).length)).map
        fun p => bitChar (v.testBit p) := by
  rw [Py.segment, reverse_formatBin, filter_range'_lt, ← List.map_take, ← List.map_drop,
    List.take_range, List.range_eq_range', List.drop_range']
  congr 2
  · omega
  · omega

theorem length_formatBin_le {width N v : ℕ} (hwidth : width ≤ N) (hv : v < 2 ^ N) (hN : 0 < N) :
    (formatBin width v).length ≤ N := by
  have hdigits : (Nat.toDigits 2 v).length ≤ N :=
    (Nat.length_toDigits_le_iff (by decide) hN).mpr hv
  rw [formatBin, List.length_append, List.length_replicate]
  omega

theorem lt_two_pow_length_formatBin (width v : ℕ) : v < 2 ^ (formatBin width v).length := by
  have hpos : 0 < (Nat.toDigits 2 v).length := Nat.length_toDigits_pos
  have hle : (Nat.toDigits 2 v).length ≤ (formatBin width v).length := by
    rw [formatBin, List.length_append]
    omega
  exact (Nat.length_toDigits_le_iff (by decide) (hpos.trans_le hle)).mp hle

/-- Positions below the width are in every numeral. -/
theorem filter_shown_eq {width N : ℕ} {ps qs : List ℕ} (hwidth : 0 < width) (hN : width ≤ N)
    (hqs : ∀ q ∈ qs, q < width) (h : ps.filter (· < N) = qs) {v : ℕ} (hv : v < 2 ^ N) :
    ps.filter (· < (formatBin width v).length) = qs := by
  have hle := length_formatBin_le hN hv (hwidth.trans_le hN)
  have hge := le_length_formatBin width v
  subst h
  refine List.filter_congr fun p hp => decide_eq_decide.mpr ⟨fun hlt => hlt.trans_le hle, ?_⟩
  intro hlt
  exact (hqs p (List.mem_filter.mpr ⟨hp, decide_eq_true hlt⟩)).trans_le hge

/-- Positions that show the same number in every numeral of up to `N` digits. -/
theorem select_shown_iff {width N : ℕ} {ps qs : List ℕ} (hwidth : 0 < width) (hN : width ≤ N)
    (hqs : ∀ q ∈ qs, q < width) :
    (∀ v < 2 ^ N, select v (ps.filter (· < (formatBin width v).length)) = select v qs) ↔
      ps.filter (· < N) = qs := by
  have hbelow : ∀ {M : ℕ}, ∀ p ∈ ps.filter (· < M), p < M := fun {M} p hp =>
    of_decide_eq_true (List.mem_filter.mp hp).2
  constructor
  · intro h
    have hnarrow : ps.filter (· < width) = qs := by
      refine (select_eq_iff hbelow hqs).mp fun v hv => ?_
      have := h v (hv.trans_le (Nat.pow_le_pow_right (by decide) hN))
      rwa [(length_formatBin_eq_iff hwidth).mpr hv] at this
    -- no position from `width` on: the numeral of ones has all of them
    have hones := h (2 ^ N - 1) (Nat.sub_one_lt (Nat.two_pow_pos N).ne')
    have hlong : (formatBin width (2 ^ N - 1)).length = N := by
      refine le_antisymm (length_formatBin_le hN (Nat.sub_one_lt (Nat.two_pow_pos N).ne')
        (hwidth.trans_le hN)) ?_
      by_contra hlt
      have hpow := Nat.pow_lt_pow_right (le_refl 2) (not_le.mp hlt)
      have := lt_two_pow_length_formatBin width (2 ^ N - 1)
      omega
    rw [hlong] at hones
    have hlen := length_eq_of_select_ones (N := N) (M := N) hbelow
      (fun q hq => (hqs q hq).trans_le hN) hones
    have hsub : (ps.filter (· < width)).Sublist (ps.filter (· < N)) :=
      List.monotone_filter_right ps fun p hp =>
        decide_eq_true ((of_decide_eq_true hp).trans_le hN)
    rw [hnarrow] at hsub
    exact (hsub.eq_of_length hlen.symm).symm
  · intro h v hv
    rw [filter_shown_eq hwidth hN hqs h hv]

end Bits
