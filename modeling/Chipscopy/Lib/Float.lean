import Chipscopy.Lib.Python

/-! Python floats

    A float is a rational with a significand of 53 bits. The quotient of two integers is the float
    nearest to it, and the one with the even significand of two. What is too large is refused. -/

namespace Py

/-- The nearest integer, and the even one of two. -/
def roundHalfEven (x : ℚ) : ℤ :=
  let n := ⌊x⌋
  if x - n < 1 / 2 then n else if 1 / 2 < x - n then n + 1 else n + n % 2

/-- Exponent of the last bit of a significand. -/
def floatExponent (x : ℚ) : ℤ := max (Int.log 2 |x| - 52) (-1074)

/-- The nearest float, of any size. -/
def nearestFloat (x : ℚ) : ℚ := roundHalfEven (x / 2 ^ floatExponent x) * 2 ^ floatExponent x

/-- `a / b`. -/
def trueDiv (a b : ℤ) : Except Error ℚ :=
  if b = 0 then .error .zeroDivisionError
  else if |nearestFloat (a / b)| < 2 ^ 1024 then .ok (nearestFloat (a / b))
  else .error (.overflowError "integer division result too large for a float")

/-- `round(x, digits)`, from the exact value of the float. -/
def roundTo (digits : ℕ) (x : ℚ) : ℚ := nearestFloat (roundHalfEven (x * 10 ^ digits) / 10 ^ digits)

/-- `int(x)`, towards zero. -/
def truncate (x : ℚ) : ℤ := x.num.tdiv x.den

theorem roundHalfEven_intCast (n : ℤ) : roundHalfEven n = n := by
  simp [roundHalfEven]

theorem abs_roundHalfEven_sub_le (x : ℚ) : |(roundHalfEven x : ℚ) - x| ≤ 1 / 2 := by
  have hle := Int.floor_le x
  have hlt := Int.lt_floor_add_one x
  rw [roundHalfEven]
  split_ifs with hdown hup
  · rw [abs_le]
    constructor <;> linarith
  · push_cast
    rw [abs_le]
    constructor <;> linarith
  · have hhalf : x - ⌊x⌋ = 1 / 2 := le_antisymm (not_lt.mp hup) (not_lt.mp hdown)
    have hparity : ((⌊x⌋ % 2 : ℤ) : ℚ) = 0 ∨ ((⌊x⌋ % 2 : ℤ) : ℚ) = 1 := by
      rcases Int.emod_two_eq_zero_or_one ⌊x⌋ with h | h
      · exact .inl (by rw [h]; rfl)
      · exact .inr (by rw [h]; rfl)
    push_cast at hparity ⊢
    rw [abs_le]
    rcases hparity with h | h
    · rw [h]
      constructor <;> linarith
    · rw [h]
      constructor <;> linarith

/-- A number with a significand of few bits is a float. -/
theorem nearestFloat_eq {x : ℚ} {m e : ℤ} (hx : x = m * 2 ^ e) (he : floatExponent x ≤ e) :
    nearestFloat x = x := by
  obtain ⟨k, hk⟩ := Int.le.dest he
  have hpow : (2 : ℚ) ^ floatExponent x ≠ 0 := (zpow_pos two_pos _).ne'
  have hquot : x / 2 ^ floatExponent x = ((m * 2 ^ k : ℤ) : ℚ) := by
    rw [div_eq_iff hpow]
    calc x = m * 2 ^ e := hx
      _ = m * 2 ^ (floatExponent x + k) := by rw [hk]
      _ = ((m * 2 ^ k : ℤ) : ℚ) * 2 ^ floatExponent x := by
        rw [zpow_add₀ two_ne_zero, zpow_natCast]
        push_cast
        ring
  rw [nearestFloat, hquot, roundHalfEven_intCast, ← hquot, div_mul_cancel₀ x hpow]

/-- Rounding moves a number by half of its last bit at most. -/
theorem abs_nearestFloat_sub_le (x : ℚ) :
    |nearestFloat x - x| ≤ 2 ^ floatExponent x / 2 := by
  have hpos : (0 : ℚ) < 2 ^ floatExponent x := by positivity
  have hround := abs_roundHalfEven_sub_le (x / 2 ^ floatExponent x)
  have heq : nearestFloat x - x =
      (roundHalfEven (x / 2 ^ floatExponent x) - x / 2 ^ floatExponent x) *
        2 ^ floatExponent x := by
    rw [nearestFloat]
    field_simp
  rw [heq, abs_mul, abs_of_pos hpos]
  calc _ ≤ 1 / 2 * 2 ^ floatExponent x := mul_le_mul_of_nonneg_right hround hpos.le
    _ = _ := by ring

theorem floatExponent_le {x : ℚ} {e : ℤ} (he : -52 ≤ e) (hx : |x| < 2 ^ (e + 53)) :
    floatExponent x ≤ e := by
  rw [floatExponent]
  refine max_le ?_ (by omega)
  rcases (abs_nonneg x).eq_or_lt' with hzero | hpos
  · rw [hzero, Int.log_zero_right]
    omega
  · have hlog := (Int.lt_zpow_iff_log_lt one_lt_two hpos).mp (by exact_mod_cast hx)
    omega

/-- The largest float is `2 ^ 1024 - 2 ^ 971`, and half a bit more is too large. -/
theorem abs_nearestFloat_lt {x : ℚ} (hx : |x| < 2 ^ 1024 - 2 ^ 970) :
    |nearestFloat x| < 2 ^ 1024 := by
  have hpos : (0 : ℚ) < 2 ^ 970 := by positivity
  have hexp : floatExponent x ≤ 971 := floatExponent_le (by decide) (hx.trans (sub_lt_self _ hpos))
  have hbit : (2 : ℚ) ^ floatExponent x / 2 ≤ 2 ^ 970 := by
    rw [div_le_iff₀ two_pos, ← pow_succ]
    exact zpow_le_zpow_right₀ one_le_two hexp
  have htri : |nearestFloat x| ≤ |nearestFloat x - x| + |x| := by
    have habs := abs_add_le (nearestFloat x - x) x
    rwa [sub_add_cancel] at habs
  calc |nearestFloat x| ≤ 2 ^ floatExponent x / 2 + |x| :=
        htri.trans (add_le_add_left (abs_nearestFloat_sub_le x) _)
    _ ≤ |x| + 2 ^ 970 := by
        rw [add_comm]
        exact add_le_add_right hbit _
    _ < 2 ^ 1024 := lt_sub_iff_add_lt.mp hx

theorem roundHalfEven_mono {x y : ℚ} (h : x ≤ y) : roundHalfEven x ≤ roundHalfEven y := by
  have hx := abs_le.mp (abs_roundHalfEven_sub_le x)
  have hy := abs_le.mp (abs_roundHalfEven_sub_le y)
  by_contra hlt
  -- only two halves can be rounded the wrong way, and these are equal
  have hcast : (roundHalfEven y : ℚ) + 1 ≤ roundHalfEven x := by exact_mod_cast not_le.mp hlt
  have heq : x = y := by linarith
  rw [heq] at hlt
  exact hlt le_rfl

/-- Rounding does not pass a float. -/
theorem nearestFloat_le {x : ℚ} {m e : ℤ} (hx : x ≤ m * 2 ^ e) (he : floatExponent x ≤ e) :
    nearestFloat x ≤ m * 2 ^ e := by
  obtain ⟨k, hk⟩ := Int.le.dest he
  have hpow : (0 : ℚ) < 2 ^ floatExponent x := zpow_pos two_pos _
  have hfloat : (m : ℚ) * 2 ^ e = ((m * 2 ^ k : ℤ) : ℚ) * 2 ^ floatExponent x := by
    rw [← hk, add_comm, zpow_add₀ two_ne_zero, zpow_natCast]
    push_cast
    ring
  rw [hfloat] at hx ⊢
  have hround := roundHalfEven_mono ((div_le_iff₀ hpow).mpr hx)
  rw [roundHalfEven_intCast] at hround
  rw [nearestFloat]
  exact mul_le_mul_of_nonneg_right (by exact_mod_cast hround) hpow.le

/-- Small integers are floats. -/
theorem nearestFloat_intCast {n : ℤ} (hn : |n| < 2 ^ 53) : nearestFloat n = n := by
  have habs : |(n : ℚ)| < 2 ^ ((0 : ℤ) + 53) := by
    rw [zero_add]
    exact_mod_cast hn
  refine nearestFloat_eq (m := n) (e := 0) ?_ (floatExponent_le (by decide) habs)
  rw [zpow_zero, mul_one]

/-- A quotient that is a small integer. -/
theorem trueDiv_eq_intCast {a b n : ℤ} (hb : b ≠ 0) (hn : |n| < 2 ^ 53) (h : a = n * b) :
    trueDiv a b = .ok n := by
  have hquot : (a : ℚ) / b = n := by
    rw [div_eq_iff (by exact_mod_cast hb), h]
    push_cast
    rfl
  have hsmall : |(n : ℚ)| < 2 ^ 1024 := by
    have hcast : |(n : ℚ)| < 2 ^ 53 := by exact_mod_cast hn
    exact hcast.trans_le (pow_le_pow_right₀ one_le_two (by decide))
  rw [trueDiv, if_neg hb, hquot, nearestFloat_intCast hn, if_pos hsmall]

theorem nearestFloat_nonneg {x : ℚ} (hx : 0 ≤ x) : 0 ≤ nearestFloat x := by
  have hpow : (0 : ℚ) < 2 ^ floatExponent x := zpow_pos two_pos _
  have hround := roundHalfEven_mono (div_nonneg hx hpow.le)
  have hzero : roundHalfEven 0 = 0 := roundHalfEven_intCast 0
  rw [hzero] at hround
  exact mul_nonneg (by exact_mod_cast hround) hpow.le

theorem nearestFloat_le_hundred {x : ℚ} (h₀ : 0 ≤ x) (hx : x ≤ 100) : nearestFloat x ≤ 100 := by
  have hfloat : x ≤ (100 : ℤ) * 2 ^ (0 : ℤ) := by simpa using hx
  have hexp : floatExponent x ≤ 0 := by
    refine floatExponent_le (by decide) ?_
    rw [abs_of_nonneg h₀]
    exact hx.trans_lt (by norm_num)
  simpa using nearestFloat_le hfloat hexp

/-- A percentage stays one when it is rounded to two places. -/
theorem roundTo_two_percentage {x : ℚ} (h₀ : 0 ≤ x) (hx : x ≤ 100) :
    0 ≤ roundTo 2 x ∧ roundTo 2 x ≤ 100 := by
  have hlow := roundHalfEven_mono (mul_nonneg h₀ (by norm_num : (0 : ℚ) ≤ 10 ^ 2))
  have hhigh := roundHalfEven_mono (mul_le_mul_of_nonneg_right hx (by norm_num : (0 : ℚ) ≤ 10 ^ 2))
  have hzero : roundHalfEven 0 = 0 := roundHalfEven_intCast 0
  have htop : roundHalfEven (100 * 10 ^ 2) = 10000 := by
    have h := roundHalfEven_intCast 10000
    norm_num at h ⊢
    exact h
  rw [hzero] at hlow
  rw [htop] at hhigh
  have hlow' : (0 : ℚ) ≤ roundHalfEven (x * 10 ^ 2) := by exact_mod_cast hlow
  have hhigh' : (roundHalfEven (x * 10 ^ 2) : ℚ) ≤ 10000 := by exact_mod_cast hhigh
  have hquot : (0 : ℚ) ≤ roundHalfEven (x * 10 ^ 2) / 10 ^ 2 := div_nonneg hlow' (by norm_num)
  refine ⟨nearestFloat_nonneg hquot, nearestFloat_le_hundred hquot ?_⟩
  rw [div_le_iff₀ (by norm_num)]
  linarith

/-! ### Division by a power of two -/

/-- An integer below `2 ^ 53` is divided by a power of two without rounding. -/
theorem trueDiv_two_pow {a k : ℕ} (ha : a < 2 ^ 53) (hk : k ≤ 52) :
    trueDiv a (2 ^ k : ℕ) = .ok (a / 2 ^ k) := by
  have hquot : ((a : ℤ) : ℚ) / (((2 ^ k : ℕ) : ℤ) : ℚ) = a / 2 ^ k := by push_cast; rfl
  have habs : |(a : ℚ) / 2 ^ k| < 2 ^ ((-k : ℤ) + 53) := by
    have hcast : (a : ℚ) < 2 ^ (53 : ℤ) := by exact_mod_cast ha
    rw [abs_of_nonneg (by positivity), div_lt_iff₀ (by positivity), ← zpow_natCast,
      ← zpow_add₀ two_ne_zero]
    refine hcast.trans_le (le_of_eq ?_)
    congr 1
    omega
  have hfloat : nearestFloat ((a : ℚ) / 2 ^ k) = a / 2 ^ k := by
    refine nearestFloat_eq (m := a) (e := -k) ?_ (floatExponent_le (by omega) habs)
    rw [zpow_neg, zpow_natCast, div_eq_mul_inv, Int.cast_natCast]
  have hsmall : |(a : ℚ) / 2 ^ k| < 2 ^ 1024 := by
    refine habs.trans_le ?_
    rw [← zpow_natCast]
    refine zpow_le_zpow_right₀ one_le_two ?_
    push_cast
    omega
  have hne : ((2 ^ k : ℕ) : ℤ) ≠ 0 := by positivity
  rw [trueDiv, if_neg hne, hquot, hfloat, if_pos hsmall]

theorem truncate_div_two_pow (a k : ℕ) : truncate ((a : ℚ) / 2 ^ k) = (a / 2 ^ k : ℕ) := by
  have hnonneg : (0 : ℚ) ≤ (a : ℚ) / 2 ^ k := by positivity
  have hfloor : ⌊(a : ℚ) / 2 ^ k⌋ = ((a / 2 ^ k : ℕ) : ℤ) := by
    have h := Rat.floor_intCast_div_natCast a (2 ^ k)
    push_cast at h ⊢
    exact h
  rw [truncate, Int.tdiv_eq_ediv_of_nonneg (Rat.num_nonneg.mpr hnonneg), ← Rat.floor_def', hfloor]

/-- An integer below `2 ^ 53` is divided by four without rounding. -/
theorem trueDiv_four {a : ℕ} (ha : a < 2 ^ 53) : trueDiv a 4 = .ok (a / 4) := by
  have h := trueDiv_two_pow ha (show 2 ≤ 52 by omega)
  norm_num at h
  exact h

theorem truncate_div_four (a : ℕ) : truncate ((a : ℚ) / 4) = a / 4 := by
  have h := truncate_div_two_pow a 2
  norm_num at h
  exact h

/-- Quotients that are not refused. -/
theorem trueDiv_four_ok {a : ℤ} (ha : |a| < 2 ^ 1026 - 2 ^ 972) : ∃ q, trueDiv a 4 = .ok q := by
  have hsmall : |(a : ℚ) / ((4 : ℤ) : ℚ)| < 2 ^ 1024 - 2 ^ 970 := by
    have hcast : |(a : ℚ)| < 2 ^ 1026 - 2 ^ 972 := by exact_mod_cast ha
    have hfour : |((4 : ℤ) : ℚ)| = 2 ^ 2 := by norm_num
    rw [abs_div, hfour, div_lt_iff₀ (by positivity), sub_mul, ← pow_add, ← pow_add]
    exact hcast
  exact ⟨_, by rw [trueDiv, if_neg (by decide), if_pos (abs_nearestFloat_lt hsmall)]⟩

/-- A power of two that is refused. -/
theorem trueDiv_four_overflow :
    trueDiv (2 ^ 1026) 4 = .error (.overflowError "integer division result too large for a float") := by
  have hquot : ((2 ^ 1026 : ℤ) : ℚ) / ((4 : ℤ) : ℚ) = 2 ^ 1024 := by
    have hfour : ((4 : ℤ) : ℚ) = 2 ^ 2 := by norm_num
    rw [hfour, Int.cast_pow, Int.cast_ofNat, div_eq_iff (by positivity), ← pow_add]
  have hfloat : nearestFloat (2 ^ 1024) = 2 ^ 1024 := by
    refine nearestFloat_eq (m := 1) (e := 1024) ?_ (floatExponent_le (by decide) ?_)
    · rw [Int.cast_one, one_mul]
      rfl
    · rw [abs_of_pos (by positivity), ← zpow_natCast]
      exact zpow_lt_zpow_right₀ one_lt_two (by decide)
  rw [trueDiv, if_neg (by decide), hquot, hfloat, if_neg]
  rw [abs_of_pos (by positivity)]
  exact lt_irrefl _

end Py
