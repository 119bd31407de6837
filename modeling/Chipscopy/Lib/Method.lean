import Chipscopy.Lib.Python

/-! Methods that change objects

    A method that raises leaves the objects as it has changed them so far, so its outcome is the
    state with what was raised. A loop of such calls stops at the first that raises. -/

namespace Py

/-- The state after a method, and what it raised. -/
abbrev Outcome (σ : Type*) := σ × Option Error

namespace Outcome

variable {α σ : Type*}

/-- The statements after a call are not reached when it raises. -/
def andThen (o : Outcome σ) (f : σ → Outcome σ) : Outcome σ :=
  match o with
  | (s, none) => f s
  | (s, some e) => (s, some e)

theorem andThen_of_none {o : Outcome σ} (h : o.2 = none) (f : σ → Outcome σ) :
    o.andThen f = f o.1 := by
  obtain ⟨s, raised⟩ := o
  subst h
  rfl

/-- Nothing was raised by either. -/
theorem andThen_eq_none {o : Outcome σ} {f : σ → Outcome σ} (h : (o.andThen f).2 = none) :
    o.2 = none ∧ (f o.1).2 = none := by
  obtain ⟨s, - | e⟩ := o
  · exact ⟨rfl, h⟩
  · cases h

/-- Rule of statements that keep a property, also where they raise. -/
theorem andThen_inv {o : Outcome σ} {f : σ → Outcome σ} {P : σ → Prop} (h : P o.1)
    (hf : ∀ s, P s → P (f s).1) : P (o.andThen f).1 := by
  obtain ⟨s, - | e⟩ := o
  · exact hf s h
  · exact h

/-- `for a in l: f(a)`. -/
def loop (f : α → σ → Outcome σ) : List α → σ → Outcome σ
  | [], s => (s, none)
  | a :: as, s => (f a s).andThen (loop f as)

/-- Loop rule: a property of the state and of the items that remain. -/
theorem loop_ok {f : α → σ → Outcome σ} {P : List α → σ → Prop}
    (hstep : ∀ a as s, P (a :: as) s → ∃ s', f a s = (s', none) ∧ P as s') :
    ∀ (as : List α) {s : σ}, P as s → ∃ s', loop f as s = (s', none) ∧ P [] s'
  | [], s, h => ⟨s, rfl, h⟩
  | a :: as, s, h => by
    obtain ⟨s₁, hfirst, hrest⟩ := hstep a as s h
    obtain ⟨s', hloop, hdone⟩ := loop_ok hstep as hrest
    exact ⟨s', by rw [loop, hfirst, andThen, hloop], hdone⟩

/-- Loop rule for a property that also a raised error leaves. -/
theorem loop_inv {f : α → σ → Outcome σ} {P : σ → Prop} (hstep : ∀ a s, P s → P (f a s).1)
    (as : List α) {s : σ} (h : P s) : P (loop f as s).1 := by
  induction as generalizing s with
  | nil => exact h
  | cons a as ih =>
    have hfirst := hstep a s h
    rw [loop]
    rcases hf : f a s with ⟨s₁, - | e⟩
    · rw [hf] at hfirst
      exact ih hfirst
    · rwa [hf] at hfirst

/-- The first item raises. -/
theorem loop_cons_raised {f : α → σ → Outcome σ} {a : α} {s s' : σ} {e : Error}
    (h : f a s = (s', some e)) (as : List α) : loop f (a :: as) s = (s', some e) := by
  rw [loop, h, andThen]

end Outcome

/-! ### Numbered names -/

/-- `f"{prefix}{n}"`. -/
def numbered (start : String) (n : ℤ) : String := start ++ toString n

theorem toList_toString_ofNat (k : ℕ) : (toString (k : ℤ)).toList = Nat.toDigits 10 k := by
  have hrepr : toString (k : ℤ) = Nat.repr k := rfl
  rw [hrepr, Nat.toList_repr]

theorem toList_toString_negSucc (k : ℕ) :
    (toString (Int.negSucc k)).toList = '-' :: Nat.toDigits 10 (k + 1) := by
  have hrepr : toString (Int.negSucc k) = "-" ++ Nat.repr (k + 1) := rfl
  rw [hrepr, String.toList_append, Nat.toList_repr]
  rfl

theorem toDigits_ten_inj {j k : ℕ} (h : Nat.toDigits 10 j = Nat.toDigits 10 k) : j = k := by
  rw [← Nat.ofDigitChars_ten_toDigits (n := j), h, Nat.ofDigitChars_ten_toDigits]

/-- A minus sign is no digit. -/
theorem toDigits_ten_ne_minus {j k : ℕ} : Nat.toDigits 10 j ≠ '-' :: Nat.toDigits 10 k := by
  intro h
  have hmem : '-' ∈ Nat.toDigits 10 j := by
    rw [h]
    exact List.mem_cons_self
  exact absurd (Nat.isDigit_of_mem_toDigits (by norm_num) le_rfl hmem) (by decide)

theorem numbered_injective (start : String) : Function.Injective (numbered start) := by
  intro m n h
  have hlist := congrArg String.toList h
  rw [numbered, numbered, String.toList_append, String.toList_append, List.append_cancel_left_eq]
    at hlist
  rcases m with m | m
  · rcases n with n | n
    · have hdigits : Nat.toDigits 10 m = Nat.toDigits 10 n :=
        (toList_toString_ofNat m).symm.trans (hlist.trans (toList_toString_ofNat n))
      rw [toDigits_ten_inj hdigits]
    · exact absurd ((toList_toString_ofNat m).symm.trans
        (hlist.trans (toList_toString_negSucc n))) toDigits_ten_ne_minus
  · rcases n with n | n
    · exact absurd ((toList_toString_ofNat n).symm.trans
        (hlist.symm.trans (toList_toString_negSucc m))) toDigits_ten_ne_minus
    · have hdigits := (toList_toString_negSucc m).symm.trans
        (hlist.trans (toList_toString_negSucc n))
      rw [Nat.succ.inj (toDigits_ten_inj (List.cons.inj hdigits).2)]

end Py
