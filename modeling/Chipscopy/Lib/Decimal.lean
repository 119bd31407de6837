import Chipscopy.Lib.Python

/-! Decimal numerals

    The digits of a regular expression and of `int` are those of every script: characters of
    Unicode category `Nd`, which stand in blocks of ten. -/

namespace Py

/-- Code points of the zeros. -/
def decimalZeros : List ℕ :=
  [0x30, 0x660, 0x6f0, 0x7c0, 0x966, 0x9e6, 0xa66, 0xae6, 0xb66, 0xbe6, 0xc66, 0xce6, 0xd66, 0xde6,
    0xe50, 0xed0, 0xf20, 0x1040, 0x1090, 0x17e0, 0x1810, 0x1946, 0x19d0, 0x1a80, 0x1a90, 0x1b50,
    0x1bb0, 0x1c40, 0x1c50, 0xa620, 0xa8d0, 0xa900, 0xa9d0, 0xa9f0, 0xaa50, 0xabf0, 0xff10, 0x104a0,
    0x10d30, 0x11066, 0x110f0, 0x11136, 0x111d0, 0x112f0, 0x11450, 0x114d0, 0x11650, 0x116c0,
    0x11730, 0x118e0, 0x11950, 0x11c50, 0x11d50, 0x11da0, 0x16a60, 0x16ac0, 0x16b50, 0x1d7ce,
    0x1d7d8, 0x1d7e2, 0x1d7ec, 0x1d7f6, 0x1e140, 0x1e2f0, 0x1e950, 0x1fbf0]

/-- The value of a decimal digit. -/
def decimal? (c : Char) : Option ℕ :=
  (decimalZeros.find? fun start => start ≤ c.toNat ∧ c.toNat < start + 10).map (c.toNat - ·)

/-- `\d+` from the start of a string, greedy: the digits and what follows them. -/
def digitRun : List Char → List ℕ × List Char
  | [] => ([], [])
  | c :: s => match decimal? c with
    | some d => (d :: (digitRun s).1, (digitRun s).2)
    | none => ([], c :: s)

/-- `int` of a run of digits. -/
def ofDecimals (ds : List ℕ) : ℕ := ds.foldl (fun n d => 10 * n + d) 0

/-- `str.isspace` of one character. -/
def isSpace (c : Char) : Bool :=
  (9 ≤ c.toNat && c.toNat ≤ 13) || (0x1c ≤ c.toNat && c.toNat ≤ 0x20) ||
    (0x2000 ≤ c.toNat && c.toNat ≤ 0x200a) ||
    c.toNat ∈ [0x85, 0xa0, 0x1680, 0x2028, 0x2029, 0x202f, 0x205f, 0x3000]

/-- What `int` and `float` take away at the ends: the separators of ASCII stay. -/
def isBlank (c : Char) : Bool :=
  c ∈ [' ', '\t', '\n', '\x0b', '\x0c', '\r'] || (128 ≤ c.toNat && isSpace c)

/-! ### Numerals -/

/-- A text of digits that stands for a number. -/
structure Numeral (s : List Char) (n : ℕ) : Prop where
  ne_nil : s ≠ []
  digits : ∀ c ∈ s, (decimal? c).isSome
  number : ofDecimals (s.filterMap decimal?) = n

/-- Nothing that begins with a digit. -/
def NoDigit (s : List Char) : Prop := ∀ c ∈ s.head?, decimal? c = none

theorem digitRun_of_noDigit : ∀ {s : List Char}, NoDigit s → digitRun s = ([], s)
  | [], _ => rfl
  | c :: s, h => by rw [digitRun, h c rfl]

theorem digitRun_append : ∀ {s : List Char} {rest : List Char}, (∀ c ∈ s, (decimal? c).isSome) →
    NoDigit rest → digitRun (s ++ rest) = (s.filterMap decimal?, rest)
  | [], _, _, hrest => digitRun_of_noDigit hrest
  | c :: s, rest, h, hrest => by
    obtain ⟨hc, hs⟩ := List.forall_mem_cons.mp h
    obtain ⟨d, hd⟩ := Option.isSome_iff_exists.mp hc
    rw [List.cons_append, digitRun, hd, digitRun_append hs hrest, List.filterMap_cons, hd]

theorem filterMap_decimal_ne_nil {s : List Char} (hne : s ≠ [])
    (h : ∀ c ∈ s, (decimal? c).isSome) : s.filterMap decimal? ≠ [] := by
  rcases s with _ | ⟨c, s⟩
  · exact absurd rfl hne
  · obtain ⟨d, hd⟩ := Option.isSome_iff_exists.mp (h c List.mem_cons_self)
    rw [List.filterMap_cons, hd]
    exact List.cons_ne_nil _ _

theorem Numeral.digitRun {s rest : List Char} {n : ℕ} (h : Numeral s n) (hrest : NoDigit rest) :
    ∃ d ds, digitRun (s ++ rest) = (d :: ds, rest) ∧ ofDecimals (d :: ds) = n := by
  rw [digitRun_append h.digits hrest]
  obtain ⟨d, ds, hds⟩ := List.exists_cons_of_ne_nil (filterMap_decimal_ne_nil h.ne_nil h.digits)
  exact ⟨d, ds, by rw [hds], by rw [← hds, h.number]⟩

theorem decimal_digitChar : ∀ d < 10, decimal? (Nat.digitChar d) = some d := by decide

theorem numeral_digitChar {d : ℕ} (hd : d < 10) : Numeral [Nat.digitChar d] d where
  ne_nil := List.cons_ne_nil _ _
  digits c hc := by
    rw [List.mem_singleton.mp hc, decimal_digitChar d hd]
    rfl
  number := by
    rw [List.filterMap_cons, decimal_digitChar d hd]
    exact Nat.zero_add d

theorem Numeral.append_digitChar {s : List Char} {n d : ℕ} (h : Numeral s n) (hd : d < 10) :
    Numeral (s ++ [Nat.digitChar d]) (10 * n + d) where
  ne_nil := List.append_ne_nil_of_left_ne_nil h.ne_nil _
  digits c hc := by
    rcases List.mem_append.mp hc with hc | hc
    · exact h.digits c hc
    · exact (numeral_digitChar hd).digits c hc
  number := by
    rw [List.filterMap_append, List.filterMap_cons, decimal_digitChar d hd, ofDecimals,
      List.foldl_append, ← ofDecimals, h.number]
    rfl

/-- `str(n)` is a numeral of `n`. -/
theorem numeral_toDigits (n : ℕ) : Numeral (Nat.toDigits 10 n) n := by
  induction n using Nat.strong_induction_on with
  | _ n ih =>
    rcases Nat.lt_or_ge n 10 with hn | hn
    · rw [Nat.toDigits_of_lt_base hn]
      exact numeral_digitChar hn
    · have hdigits := (ih (n / 10) (by omega)).append_digitChar (Nat.mod_lt n (by decide : 0 < 10))
      rw [Nat.toDigits_of_base_le (by decide) hn]
      rwa [Nat.div_add_mod] at hdigits

theorem exists_of_mem_toDigits {n : ℕ} {c : Char} (h : c ∈ Nat.toDigits 10 n) :
    ∃ d < 10, c = Nat.digitChar d := by
  induction n using Nat.strong_induction_on with
  | _ n ih =>
    rcases Nat.lt_or_ge n 10 with hn | hn
    · rw [Nat.toDigits_of_lt_base hn] at h
      exact ⟨n, hn, List.mem_singleton.mp h⟩
    · rw [Nat.toDigits_of_base_le (by decide) hn] at h
      rcases List.mem_append.mp h with h | h
      · exact ih (n / 10) (by omega) h
      · exact ⟨n % 10, Nat.mod_lt n (by decide), List.mem_singleton.mp h⟩

end Py
