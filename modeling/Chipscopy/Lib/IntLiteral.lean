import Chipscopy.Lib.Hex
import Chipscopy.Lib.Decimal

/-! Integer literals

    `int(s, base)` takes blanks away at the ends, a sign, and for the bases that have one a prefix, and
    reads digits of either case with single underscores between them. A text of nothing but digits
    is the number that they stand for. -/

namespace IntLiteral

open Py (isBlank)

/-- Value of a digit, where the digits below ten are those of every script. -/
def anyDigit? (c : Char) : Option ℕ :=
  match Py.decimal? c with
  | some d => some d
  | none => Bits.hexDigit? c

/-- Value of a digit of a base up to sixteen. -/
def digit? (base : ℕ) (c : Char) : Option ℕ := (anyDigit? c).filter (· < base)

def digits? (base : ℕ) (s : List Char) : Option ℕ :=
  s.foldlM (fun n c => (digit? base c).map (base * n + ·)) 0

/-- Letters that may follow the zero of a prefix. -/
def prefixLetters : ℕ → List Char
  | 2 => ['b', 'B']
  | 8 => ['o', 'O']
  | 16 => ['x', 'X']
  | _ => []

/-- The prefix may be followed by one underscore. -/
def dropPrefix (base : ℕ) : List Char → List Char
  | '0' :: c :: rest =>
    if c ∈ prefixLetters base then
      if rest.head? = some '_' then rest.tail else rest
    else '0' :: c :: rest
  | s => s

/-- Digits without the sign. -/
def literal? (base : ℕ) (s : List Char) : Option ℕ :=
  let s := dropPrefix base s
  if (s.splitOn '_').any List.isEmpty then none else digits? base (s.filter (· ≠ '_'))

def signed? (base : ℕ) : List Char → Option ℤ
  | '-' :: s => (literal? base s).map fun n => -(n : ℤ)
  | '+' :: s => (literal? base s).map fun n => (n : ℤ)
  | s => (literal? base s).map fun n => (n : ℤ)

/-- `int(s, base)`. -/
def int (base : ℕ) (s : List Char) : Except Py.Error ℤ :=
  match signed? base ((s.dropWhile isBlank).rdropWhile isBlank) with
  | some n => .ok n
  | none => .error (.valueError s!"invalid literal for int() with base {base}: '{String.ofList s}'")

/-! ### Texts of digits -/

/-- The digits of a base that stand for themselves. -/
def Plain (base : ℕ) (s : List Char) : Prop :=
  ∀ c ∈ s, isBlank c = false ∧ c ≠ '_' ∧ c ≠ '-' ∧ c ≠ '+' ∧ c ∉ prefixLetters base

theorem strip_isBlank {s : List Char} (h : ∀ c ∈ s, isBlank c = false) :
    (s.dropWhile isBlank).rdropWhile isBlank = s := by
  have hfront : s.dropWhile isBlank = s := by
    cases s with
    | nil => rfl
    | cons c s => simp [h c List.mem_cons_self]
  have hback : ∀ hne : s ≠ [], ¬ isBlank (s.getLast hne) = true := fun hne => by
    simp [h _ (List.getLast_mem hne)]
  rw [hfront, List.rdropWhile_eq_self_iff]
  exact hback

theorem dropPrefix_eq_self {base : ℕ} {s : List Char} (h : Plain base s) :
    dropPrefix base s = s := by
  unfold dropPrefix
  split
  · next c rest => rw [if_neg (h c (by simp)).2.2.2.2]
  · rfl

/-- Digits alone are a literal. -/
theorem literal?_eq {base : ℕ} {s : List Char} (h : Plain base s) (hne : s ≠ []) :
    literal? base s = digits? base s := by
  have hfilter : s.filter (· ≠ '_') = s :=
    List.filter_eq_self.mpr fun c hc => by simpa using (h c hc).2.1
  have hsplit : s.splitOn '_' = [s] := by
    refine List.splitOn_eq_singleton fun hc => ?_
    exact (h _ hc).2.1 rfl
  have hparts : ¬ (s.splitOn '_').any List.isEmpty := by
    rw [hsplit]
    simpa using hne
  rw [literal?, dropPrefix_eq_self h, if_neg hparts, hfilter]

theorem int_eq_ok {base : ℕ} {s : List Char} (h : Plain base s) (hne : s ≠ []) {n : ℕ}
    (hn : digits? base s = some n) : int base s = .ok n := by
  have hsigned : signed? base s = some (n : ℤ) := by
    unfold signed?
    split
    · exact absurd rfl (h '-' (by simp)).2.2.1
    · exact absurd rfl (h '+' (by simp)).2.2.2.1
    · rw [literal?_eq h hne, hn]
      rfl
  rw [int, strip_isBlank fun c hc => (h c hc).1, hsigned]

/-! ### Hexadecimal texts -/

/-- Characters of hexadecimal digits. -/
def HexCode (n : ℕ) : Prop := (48 ≤ n ∧ n ≤ 57) ∨ (65 ≤ n ∧ n ≤ 70) ∨ (97 ≤ n ∧ n ≤ 102)

instance (n : ℕ) : Decidable (HexCode n) := inferInstanceAs (Decidable (_ ∨ _))

theorem hexCode_of_hexDigit {c : Char} {d : ℕ} (h : Bits.hexDigit? c = some d) :
    HexCode c.toNat := by
  unfold Bits.hexDigit? at h
  split_ifs at h with hdigit hupper hlower
  · exact .inl hdigit
  · exact .inr (.inl hupper)
  · exact .inr (.inr hlower)

/-- Below the scripts that follow Latin, the decimal digits are those of ASCII. -/
theorem decimal?_of_lt {c : Char} (h : c.toNat < 0x660) :
    Py.decimal? c = if 48 ≤ c.toNat ∧ c.toNat < 58 then some (c.toNat - 48) else none := by
  have hzeros : ∀ start ∈ Py.decimalZeros.tail, 0x660 ≤ start := by decide
  have hrest : Py.decimalZeros.tail.find?
      (fun start => decide (start ≤ c.toNat ∧ c.toNat < start + 10)) = none := by
    refine List.find?_eq_none.mpr fun start hstart => ?_
    have hle := hzeros start hstart
    simp only [decide_eq_true_eq]
    omega
  have hcons : Py.decimalZeros = 48 :: Py.decimalZeros.tail := rfl
  rw [Py.decimal?, hcons, List.find?_cons, hrest]
  split_ifs with hdigit
  · simp [hdigit]
  · simp [hdigit]

theorem digit?_sixteen {c : Char} {d : ℕ} (h : Bits.hexDigit? c = some d) :
    digit? 16 c = some d := by
  have hcode := hexCode_of_hexDigit h
  have hany : anyDigit? c = some d := by
    rw [HexCode] at hcode
    rw [anyDigit?, decimal?_of_lt (by omega)]
    split_ifs with hdecimal
    · have hc : '0' ≤ c ∧ c ≤ '9' := ⟨hdecimal.1, Nat.le_of_lt_succ hdecimal.2⟩
      rw [Bits.hexDigit?, if_pos hc] at h
      exact h
    · exact h
  have hlt : d < 16 := by
    rw [HexCode] at hcode
    unfold Bits.hexDigit? at h
    have hA : 'A'.toNat = 65 := rfl
    have ha : 'a'.toNat = 97 := rfl
    have h0 : '0'.toNat = 48 := rfl
    split_ifs at h with hdigit hupper hlower
    · have hle : c.toNat ≤ 57 := hdigit.2
      obtain rfl := Option.some.inj h
      omega
    · have hle : c.toNat ≤ 70 := hupper.2
      obtain rfl := Option.some.inj h
      omega
    · have hle : c.toNat ≤ 102 := hlower.2
      obtain rfl := Option.some.inj h
      omega
  simp [digit?, hany, hlt]

theorem plain_of_hexCode {s : List Char} (h : ∀ c ∈ s, HexCode c.toNat) : Plain 16 s := by
  have hothers : ∀ x ∈ [' ', '\t', '\n', '\x0b', '\x0c', '\r', '_', '-', '+', 'x', 'X'],
      ¬ HexCode x.toNat := by simp [HexCode]
  intro c hc
  have hne : ∀ x ∈ [' ', '\t', '\n', '\x0b', '\x0c', '\r', '_', '-', '+', 'x', 'X'], c ≠ x := by
    rintro x hx rfl
    exact hothers c hx (h c hc)
  have hascii : ¬ 128 ≤ c.toNat := by
    have hcode := h c hc
    rw [HexCode] at hcode
    omega
  simp only [List.forall_mem_cons] at hne
  obtain ⟨h₁, h₂, h₃, h₄, h₅, h₆, hscore, hminus, hplus, hx, hX, -⟩ := hne
  refine ⟨?_, hscore, hminus, hplus, by simp [prefixLetters, hx, hX]⟩
  simp [isBlank, h₁, h₂, h₃, h₄, h₅, h₆, hascii]

/-- A text that stands for a number is made of digits. -/
theorem digits?_of_hexNumber {s : List Char} {n : ℕ} (h : Bits.hexNumber? s = some n) :
    (∀ c ∈ s, HexCode c.toNat) ∧ digits? 16 s = some n := by
  have hstep : ∀ (s : List Char) (m : ℕ),
      s.foldlM (fun n c => (Bits.hexDigit? c).map (16 * n + ·)) m = some n →
      (∀ c ∈ s, HexCode c.toNat) ∧ s.foldlM (fun n c => (digit? 16 c).map (16 * n + ·)) m = some n := by
    intro s
    induction s with
    | nil => simp
    | cons c s ih =>
      intro m hm
      rw [List.foldlM_cons] at hm
      obtain ⟨k, hk, hrest⟩ := Option.bind_eq_some_iff.mp hm
      obtain ⟨d, hd, hkd⟩ := Option.map_eq_some_iff.mp hk
      obtain ⟨hs, hfold⟩ := ih k hrest
      refine ⟨List.forall_mem_cons.mpr ⟨hexCode_of_hexDigit hd, hs⟩, ?_⟩
      rw [List.foldlM_cons, digit?_sixteen hd, Option.map_some, hkd]
      exact hfold
  exact hstep s 0 h

/-- A text of hexadecimal digits is read as its number. -/
theorem int_hexNumber {s : List Char} (hne : s ≠ []) {n : ℕ} (h : Bits.hexNumber? s = some n) :
    int 16 s = .ok n := by
  obtain ⟨hdigits, hn⟩ := digits?_of_hexNumber h
  exact int_eq_ok (plain_of_hexCode hdigits) hne hn

/-! ### Padded numbers -/

/-- `f"{n:0{width}x}"`. -/
def formatHex (width n : ℕ) : List Char :=
  List.replicate (width - (Nat.toDigits 16 n).length) '0' ++ Nat.toDigits 16 n

theorem length_formatHex {width n : ℕ} (hwidth : 0 < width) (h : n < 16 ^ width) :
    (formatHex width n).length = width := by
  have hlen := (Nat.length_toDigits_le_iff (by decide) hwidth).mpr h
  rw [formatHex, List.length_append, List.length_replicate]
  omega

/-- A digit has four bits. -/
theorem lt_sixteen_pow {n bits digits : ℕ} (h : n < 2 ^ bits) (hle : bits ≤ 4 * digits) :
    n < 16 ^ digits := by
  have hbase : (16 : ℕ) = 2 ^ 4 := by decide
  rw [hbase, ← pow_mul]
  exact h.trans_le (Nat.pow_le_pow_right (by decide) hle)

/-- Leading zeros do not count. -/
theorem hexNumber_zeros (k : ℕ) (s : List Char) :
    Bits.hexNumber? (List.replicate k '0' ++ s) = Bits.hexNumber? s := by
  induction k with
  | zero => simp
  | succ k ih =>
    rw [List.replicate_succ, List.cons_append, ← ih]
    rfl

/-- Digits that are written in one of the cases. -/
theorem hexNumber_toDigits {write : Char → Char}
    (hwrite : ∀ d < 16, Bits.hexDigit? (write (Nat.digitChar d)) = some d) (n : ℕ) :
    Bits.hexNumber? ((Nat.toDigits 16 n).map write) = some n := by
  induction n using Nat.strongRecOn with
  | _ n ih =>
    rw [Nat.toDigits_eq_if (by decide)]
    split
    · next hn => simp [Bits.hexNumber?, hwrite n hn]
    · next hn =>
      have hlast := hwrite (n % 16) (Nat.mod_lt _ (by decide))
      rw [List.map_append, Bits.hexNumber?, List.foldlM_append, ← Bits.hexNumber?,
        ih (n / 16) (by omega)]
      simp [hlast, Nat.div_add_mod]

theorem hexNumber_formatHex (width n : ℕ) : Bits.hexNumber? (formatHex width n) = some n := by
  have hdigits := @hexNumber_toDigits id (by decide) n
  rw [List.map_id] at hdigits
  rw [formatHex, hexNumber_zeros, hdigits]

/-- `f"{n:0{width}X}"`. -/
theorem hexNumber_upper (width n : ℕ) :
    Bits.hexNumber? ((formatHex width n).map Char.toUpper) = some n := by
  have hzero : Char.toUpper '0' = '0' := by decide
  rw [formatHex, List.map_append, List.map_replicate, hzero, hexNumber_zeros,
    hexNumber_toDigits (by decide)]

end IntLiteral
