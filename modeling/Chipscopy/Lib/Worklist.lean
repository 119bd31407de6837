import Chipscopy.Lib.Python

/-! Pairwise merging with a shrinking work list

    Take the head of the list, try to merge every later element into it, keep the elements that
    would not merge as the next work list, and repeat. Whatever `merge` does, the loop never needs
    more rounds than the list has elements; and when every merge keeps the conjunction of its two
    arguments, the loop keeps the conjunction of the whole list. -/

namespace Worklist

variable {α ε : Type*} (merge : α → α → Except ε (Option α))

/-- One round: merge the list into `m` as far as possible, and keep what did not merge. -/
def absorb (m : α) : List α → Except ε (α × List α)
  | [] => .ok (m, [])
  | x :: xs =>
    match merge m x with
    | .error e => .error e
    | .ok (some m') => absorb m' xs
    | .ok none =>
      match absorb m xs with
      | .error e => .error e
      | .ok (m', rest) => .ok (m', x :: rest)

/-- The whole loop: rounds while more than one element is left. -/
def run : ℕ → List α → Except ε (List α)
  | fuel + 1, x :: y :: xs =>
    match absorb merge x (y :: xs) with
    | .error e => .error e
    | .ok (x', rest) =>
      match run fuel rest with
      | .error e => .error e
      | .ok res => .ok (x' :: res)
  | _, xs => .ok xs

theorem absorb_cons_ok {m x : α} {xs : List α} {r : α × List α}
    (h : absorb merge m (x :: xs) = .ok r) :
    (∃ m', merge m x = .ok (some m') ∧ absorb merge m' xs = .ok r) ∨
    (∃ rest, merge m x = .ok none ∧ absorb merge m xs = .ok (r.1, rest) ∧ r.2 = x :: rest) := by
  simp only [absorb] at h
  split at h
  · cases h
  · next m' hm => exact Or.inl ⟨m', hm, h⟩
  · next hm =>
    split at h
    · cases h
    · next m' rest ha => cases h; exact Or.inr ⟨rest, hm, ha, rfl⟩

theorem length_absorb : ∀ {xs : List α} {m : α} {r : α × List α},
    absorb merge m xs = .ok r → r.2.length ≤ xs.length
  | [], m, r, h => by cases h; simp
  | x :: xs, m, r, h => by
    rcases absorb_cons_ok merge h with ⟨m', -, ha⟩ | ⟨rest, -, ha, hr⟩
    · exact le_trans (length_absorb ha) (Nat.le_succ _)
    · rw [hr]; exact Nat.succ_le_succ (length_absorb ha)

/-- The loop never stops early: with a round for each element, more rounds change nothing. -/
theorem run_congr : ∀ (fuel fuel' : ℕ) {xs : List α}, xs.length ≤ fuel → xs.length ≤ fuel' →
    run merge fuel xs = run merge fuel' xs
  | _, _, [], _, _ => by simp [run]
  | _, _, [x], _, _ => by simp [run]
  | fuel + 1, fuel' + 1, x :: y :: xs, h, h' => by
    simp only [run]
    split
    · rfl
    · next x' rest ha =>
      have hlen : rest.length ≤ xs.length + 1 := length_absorb merge ha
      simp only [List.length_cons] at h h'
      rw [run_congr fuel fuel' (by omega) (by omega)]

theorem run_cons_ok {fuel : ℕ} {x y : α} {xs res : List α}
    (h : run merge (fuel + 1) (x :: y :: xs) = .ok res) :
    ∃ x' rest res', absorb merge x (y :: xs) = .ok (x', rest) ∧
      run merge fuel rest = .ok res' ∧ res = x' :: res' := by
  simp only [run] at h
  split at h
  · cases h
  · next x' rest ha =>
    split at h
    · cases h
    · next res' hr => cases h; exact ⟨x', rest, res', ha, hr, rfl⟩

/-- `merge` keeps the conjunction of `sem`, on elements that satisfy the invariant `P`. -/
def Sound (P sem : α → Prop) : Prop :=
  ∀ {a b c : α}, P a → P b → merge a b = .ok (some c) → P c ∧ (sem c ↔ sem a ∧ sem b)

variable {merge} {P sem : α → Prop}

theorem Sound.absorb (hs : Sound merge P sem) : ∀ {xs : List α} {m : α} {r : α × List α},
    absorb merge m xs = .ok r → (∀ x ∈ m :: xs, P x) →
    (∀ x ∈ r.1 :: r.2, P x) ∧ ((∀ x ∈ r.1 :: r.2, sem x) ↔ ∀ x ∈ m :: xs, sem x)
  | [], m, r, h, hP => by cases h; exact ⟨hP, Iff.rfl⟩
  | x :: xs, m, r, h, hP => by
    obtain ⟨hm, hx, hxs⟩ : P m ∧ P x ∧ ∀ y ∈ xs, P y := by simpa using hP
    rcases absorb_cons_ok _ h with ⟨m', hmerge, ha⟩ | ⟨rest, -, ha, hr⟩
    · obtain ⟨hm', hsem⟩ := hs hm hx hmerge
      obtain ⟨hP', hiff⟩ := hs.absorb ha (by simpa using ⟨hm', hxs⟩)
      refine ⟨hP', hiff.trans ?_⟩
      simp only [List.forall_mem_cons, hsem, and_assoc]
    · obtain ⟨hP', hiff⟩ := hs.absorb ha (by simpa using ⟨hm, hxs⟩)
      rw [hr]
      simp only [List.forall_mem_cons] at hP' hiff ⊢
      refine ⟨⟨hP'.1, hx, hP'.2⟩, ?_⟩
      rw [and_left_comm, hiff, and_left_comm]

/-- The loop keeps the conjunction of the list. -/
theorem Sound.run (hs : Sound merge P sem) : ∀ {fuel : ℕ} {xs res : List α},
    run merge fuel xs = .ok res → (∀ x ∈ xs, P x) →
    (∀ x ∈ res, P x) ∧ ((∀ x ∈ res, sem x) ↔ ∀ x ∈ xs, sem x)
  | 0, xs, res, h, hP => by cases h; exact ⟨hP, Iff.rfl⟩
  | fuel + 1, [], res, h, hP => by cases h; exact ⟨hP, Iff.rfl⟩
  | fuel + 1, [x], res, h, hP => by cases h; exact ⟨hP, Iff.rfl⟩
  | fuel + 1, x :: y :: xs, res, h, hP => by
    obtain ⟨x', rest, res', ha, hr, rfl⟩ := run_cons_ok merge h
    obtain ⟨hP₁, hiff₁⟩ := hs.absorb ha hP
    obtain ⟨hx', hrest⟩ := List.forall_mem_cons.mp hP₁
    obtain ⟨hP₂, hiff₂⟩ := hs.run hr hrest
    refine ⟨List.forall_mem_cons.mpr ⟨hx', hP₂⟩, ?_⟩
    rw [← hiff₁, List.forall_mem_cons, List.forall_mem_cons, hiff₂]

end Worklist
