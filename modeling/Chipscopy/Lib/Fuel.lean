import Mathlib

/-! Computations with fuel

    A loop that may not end is a function of its fuel. With more fuel it keeps an answer that it
    has, so it has at most one answer, and two computations can be run with the same fuel. -/

namespace Fuel

variable {α β : Type*}

/-- More fuel does not change an answer. -/
def Persists (f : ℕ → Option α) : Prop := ∀ n a, f n = some a → f (n + 1) = some a

/-- The answer with enough fuel. -/
def Yields (f : ℕ → Option α) (a : α) : Prop := ∃ n, f n = some a

theorem Persists.le {f : ℕ → Option α} (h : Persists f) {n m : ℕ} {a : α} (hle : n ≤ m)
    (ha : f n = some a) : f m = some a := by
  induction m, hle using Nat.le_induction with
  | base => exact ha
  | succ m _ ih => exact h m a ih

theorem Yields.unique {f : ℕ → Option α} (h : Persists f) {a b : α} (ha : Yields f a)
    (hb : Yields f b) : a = b := by
  obtain ⟨n, hn⟩ := ha
  obtain ⟨m, hm⟩ := hb
  have hmax := h.le (le_max_left n m) hn
  rw [h.le (le_max_right n m) hm] at hmax
  exact (Option.some.inj hmax).symm

/-- Fuel for two computations. -/
theorem Yields.both {f : ℕ → Option α} {g : ℕ → Option β} (hf : Persists f) (hg : Persists g)
    {a : α} {b : β} (ha : Yields f a) (hb : Yields g b) : ∃ n, f n = some a ∧ g n = some b := by
  obtain ⟨n, hn⟩ := ha
  obtain ⟨m, hm⟩ := hb
  exact ⟨max n m, hf.le (le_max_left n m) hn, hg.le (le_max_right n m) hm⟩

/-- A computation that takes a unit of fuel for its first round. -/
theorem yields_succ {f g : ℕ → Option α} (hzero : f 0 = none) (hsucc : ∀ n, f (n + 1) = g n)
    {a : α} : Yields f a ↔ Yields g a := by
  constructor
  · rintro ⟨_ | n, h⟩
    · cases hzero.symm.trans h
    · exact ⟨n, (hsucc n).symm.trans h⟩
  · rintro ⟨n, h⟩
    exact ⟨n + 1, (hsucc n).trans h⟩

theorem yields_const {a b : α} : Yields (fun _ => some a) b ↔ b = a :=
  ⟨fun ⟨_, h⟩ => (Option.some.inj h).symm, fun h => ⟨0, congrArg some h.symm⟩⟩

end Fuel
