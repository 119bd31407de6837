import Chipscopy.Lib.Float
import Chipscopy.Lib.IntLiteral

/-! Float values

    A float that was read from a text may be infinite or no number at all. What is no number is
    neither equal to anything nor in any order; the other values are ordered linearly. -/

namespace Py

inductive FloatValue
  | finite (q : ℚ)
  | infinity (negative : Bool)
  | nan
  deriving DecidableEq, Repr

namespace FloatValue

/-- The float nearest to a number; a number that is too large becomes infinite. -/
def ofRat (q : ℚ) : FloatValue :=
  if |nearestFloat q| < 2 ^ 1024 then .finite (nearestFloat q) else .infinity (q < 0)

/-- `x == y`. -/
def eq (x y : FloatValue) : Bool := x = y ∧ x ≠ .nan

/-- `x < y`. -/
def lt : FloatValue → FloatValue → Bool
  | .finite q, .finite r => q < r
  | .finite _, .infinity negative => !negative
  | .infinity negative, .finite _ => negative
  | .infinity negative, .infinity negative' => negative && !negative'
  | _, _ => false

/-- `x <= y`. -/
def le (x y : FloatValue) : Bool := x.lt y || x.eq y

/-- `x - y`. -/
def sub : FloatValue → FloatValue → FloatValue
  | .finite q, .finite r => ofRat (q - r)
  | .finite _, .infinity negative => .infinity !negative
  | .infinity negative, .finite _ => .infinity negative
  | .infinity negative, .infinity negative' =>
    if negative = negative' then .nan else .infinity negative
  | _, _ => .nan

/-- `x * y`. -/
def mul : FloatValue → FloatValue → FloatValue
  | .finite q, .finite r => ofRat (q * r)
  | .finite q, .infinity negative => if q = 0 then .nan else .infinity (xor negative (q < 0))
  | .infinity negative, .finite q => if q = 0 then .nan else .infinity (xor negative (q < 0))
  | .infinity negative, .infinity negative' => .infinity (xor negative negative')
  | _, _ => .nan

/-- `int(round(x))`. -/
def round : FloatValue → Except Error ℤ
  | .finite q => .ok (roundHalfEven q)
  | .infinity _ => .error (.overflowError "cannot convert float infinity to integer")
  | .nan => .error (.valueError "cannot convert float NaN to integer")

/-- `int(x)`. -/
def int : FloatValue → Except Error ℤ
  | .finite q => .ok (truncate q)
  | .infinity _ => .error (.overflowError "cannot convert float infinity to integer")
  | .nan => .error (.valueError "cannot convert float NaN to integer")

/-- `round(x, digits)`. -/
def roundTo (digits : ℕ) : FloatValue → FloatValue
  | .finite q => .finite (Py.roundTo digits q)
  | x => x

/-- `float(n)`. -/
def ofInt (n : ℤ) : Except Error FloatValue :=
  if |nearestFloat n| < 2 ^ 1024 then .ok (.finite (nearestFloat n))
  else .error (.overflowError "int too large to convert to float")

/-- A number with a point, by the parts before and after it. -/
def pointed? (s : List Char) : Option ℚ :=
  match s.splitOn '.' with
  | [whole] => (IntLiteral.literal? 10 whole).map fun n => (n : ℚ)
  | [whole, []] => (IntLiteral.literal? 10 whole).map fun n => (n : ℚ)
  | [[], fraction] =>
    (IntLiteral.literal? 10 fraction).map fun n => (n : ℚ) / 10 ^ (fraction.filter (· ≠ '_')).length
  | [whole, fraction] => do
    let n ← IntLiteral.literal? 10 whole
    let f ← IntLiteral.literal? 10 fraction
    some (n + (f : ℚ) / 10 ^ (fraction.filter (· ≠ '_')).length)
  | _ => none

/-- A text without a sign. -/
def unsigned? (s : List Char) : Option FloatValue :=
  if s.map Char.toLower = "inf".toList ∨ s.map Char.toLower = "infinity".toList then
    some (.infinity false)
  else if s.map Char.toLower = "nan".toList then some .nan
  else match s.splitOnP fun c => c = 'e' ∨ c = 'E' with
    | [number] => (pointed? number).map ofRat
    | [number, exponent] => do
      some (ofRat ((← pointed? number) * 10 ^ (← IntLiteral.signed? 10 exponent)))
    | _ => none

def neg : FloatValue → FloatValue
  | .finite q => .finite (-q)
  | .infinity negative => .infinity !negative
  | .nan => .nan

def signed? : List Char → Option FloatValue
  | '-' :: s => (unsigned? s).map neg
  | '+' :: s => unsigned? s
  | s => unsigned? s

/-- `float(s)`. -/
def ofText (s : List Char) : Except Error FloatValue :=
  match signed? ((s.dropWhile isBlank).rdropWhile isBlank) with
  | some x => .ok x
  | none => .error (.valueError s!"could not convert string to float: '{String.ofList s}'")

theorem ofRat_intCast {n : ℤ} (hn : |n| < 2 ^ 53) : ofRat n = .finite n := by
  have hlt : |(n : ℚ)| < 2 ^ 1024 := by
    have hcast : |(n : ℚ)| < 2 ^ 53 := by exact_mod_cast hn
    exact hcast.trans (pow_lt_pow_right₀ (by norm_num) (by norm_num))
  rw [ofRat, nearestFloat_intCast hn, if_pos hlt]

theorem ofText_digitChar {d : ℕ} (hd : d < 10) : ofText [Nat.digitChar d] = .ok (.finite d) := by
  have hrat : ofRat d = .finite d := by
    have hbound : |(d : ℤ)| < 2 ^ 53 := by
      rw [abs_of_nonneg (Int.natCast_nonneg d)]
      omega
    exact_mod_cast ofRat_intCast hbound
  have hblanks : ∀ d < 10, ([Nat.digitChar d].dropWhile isBlank).rdropWhile isBlank =
      [Nat.digitChar d] := by decide
  have hsign : signed? [Nat.digitChar d] = unsigned? [Nat.digitChar d] := by
    interval_cases d <;> rfl
  have hword : ∀ d < 10, ¬([Nat.digitChar d].map Char.toLower = "inf".toList ∨
      [Nat.digitChar d].map Char.toLower = "infinity".toList) ∧
      [Nat.digitChar d].map Char.toLower ≠ "nan".toList := by decide
  have hexponent : ∀ d < 10, ([Nat.digitChar d].splitOnP fun c => c = 'e' ∨ c = 'E') =
      [[Nat.digitChar d]] := by decide
  have hnumber : ∀ d < 10, pointed? [Nat.digitChar d] = some (d : ℚ) := by decide
  have hunsigned : unsigned? [Nat.digitChar d] = some (.finite d) := by
    rw [unsigned?, if_neg (hword d hd).1, if_neg (hword d hd).2, hexponent d hd]
    simp only [hnumber d hd, Option.map_some, hrat]
  rw [ofText, hblanks d hd, hsign, hunsigned]

/-! ### Order -/

@[simp] theorem eq_iff {x y : FloatValue} : x.eq y = true ↔ x = y ∧ x ≠ .nan := by simp [eq]

theorem lt_irrefl : ∀ x : FloatValue, x.lt x = false
  | .finite q => by simp [lt]
  | .infinity negative => by simp [lt]
  | .nan => rfl

theorem not_lt_of_le : ∀ {x y : FloatValue}, x.le y → y.lt x = false
  | .finite q, .finite r, h => by
    have hle : q ≤ r := by
      rcases (by simpa [le, lt] using h : q < r ∨ q = r) with hlt | heq
      · exact hlt.le
      · exact heq.le
    simpa [lt] using hle
  | .finite q, .infinity negative, h => by simpa [le, lt] using h
  | .infinity negative, .finite q, h => by
    have hneg : negative = true := by simpa [le, lt] using h
    simp [lt, hneg]
  | .infinity negative, .infinity negative', h => by
    cases negative <;> cases negative' <;> simp_all [le, lt]
  | .finite q, .nan, h => by simp [le, lt] at h
  | .infinity negative, .nan, h => by simp [le, lt] at h
  | .nan, _, h => by simp [lt]

/-- What is not less than a value but not more either is equal to it. -/
theorem lt_of_le_of_ne {x y : FloatValue} (hle : x.le y) (hne : x.eq y = false) : x.lt y := by
  simpa [le, hne] using hle

end FloatValue

end Py
