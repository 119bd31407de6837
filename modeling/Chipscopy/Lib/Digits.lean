import Mathlib

/-! Comparing numbers digit by digit

    A place holds the digits of two numbers and the base of that place; lists of places have the
    least significant place first. A comparison of the numbers is decided by the highest place in
    which they differ, so comparing every place on its own, or some place, says the same only for
    special right-hand sides: `Split` names them for `<` and `≤`, and each is shown to be enough,
    and necessary when the left digits are free. -/

namespace Digits

/-- Base and the digits of two numbers. -/
structure Place where
  base : ℕ
  left : ℕ
  right : ℕ

def Place.slot (x : Place) : ℕ × ℕ := (x.base, x.right)

/-- Both digits are below the base. -/
def Place.InRange (x : Place) : Prop := x.left < x.base ∧ x.right < x.base

/-- The number that a digit of every place stands for. -/
def number (digit : Place → ℕ) : List Place → ℕ
  | [] => 0
  | x :: xs => digit x + x.base * number digit xs

/-- A place decides only between numbers that agree above it. -/
theorem number_lt_cons_iff {f g : Place → ℕ} {x : Place} {xs : List Place} (hf : f x < x.base)
    (hg : g x < x.base) : number f (x :: xs) < number g (x :: xs) ↔
      number f xs < number g xs ∨ number f xs = number g xs ∧ f x < g x := by
  simp only [number]
  constructor
  · intro h
    rcases Nat.lt_trichotomy (number f xs) (number g xs) with hlt | heq | hgt
    · exact Or.inl hlt
    · rw [heq] at h
      exact Or.inr ⟨heq, by omega⟩
    · have := Nat.mul_le_mul_left x.base hgt
      rw [Nat.mul_succ] at this
      omega
  · rintro (hlt | ⟨heq, hlt⟩)
    · have := Nat.mul_le_mul_left x.base hlt
      rw [Nat.mul_succ] at this
      omega
    · rw [heq]
      omega

theorem number_mono {f g : Place → ℕ} : ∀ {xs : List Place}, (∀ x ∈ xs, f x ≤ g x) →
    number f xs ≤ number g xs
  | [], _ => le_rfl
  | x :: xs, h => by
    obtain ⟨hx, hxs⟩ := List.forall_mem_cons.mp h
    exact Nat.add_le_add hx (Nat.mul_le_mul_left _ (number_mono hxs))

theorem number_eq_zero {f : Place → ℕ} : ∀ {xs : List Place}, (∀ x ∈ xs, f x = 0) →
    number f xs = 0
  | [], _ => rfl
  | x :: xs, h => by
    obtain ⟨hx, hxs⟩ := List.forall_mem_cons.mp h
    rw [number, hx, number_eq_zero hxs, Nat.mul_zero]

theorem number_pos {f : Place → ℕ} : ∀ {xs : List Place}, (∀ x ∈ xs, 0 < x.base) →
    (∃ x ∈ xs, 0 < f x) → 0 < number f xs
  | x :: xs, hbase, ⟨y, hy, hpos⟩ => by
    obtain ⟨hx, hxs⟩ := List.forall_mem_cons.mp hbase
    rcases List.mem_cons.mp hy with rfl | hy
    · exact Nat.add_pos_left hpos _
    · exact Nat.add_pos_right _ (Nat.mul_pos hx (number_pos hxs ⟨y, hy, hpos⟩))

/-- Digits that are nowhere larger and somewhere smaller make a smaller number. -/
theorem number_lt_of_le {f g : Place → ℕ} : ∀ {xs : List Place}, (∀ x ∈ xs, 0 < x.base) →
    (∀ x ∈ xs, f x ≤ g x) → (∃ x ∈ xs, f x < g x) → number f xs < number g xs
  | x :: xs, hbase, hle, ⟨y, hy, hlt⟩ => by
    obtain ⟨hx, hxs⟩ := List.forall_mem_cons.mp hbase
    obtain ⟨hlex, hlexs⟩ := List.forall_mem_cons.mp hle
    rcases List.mem_cons.mp hy with rfl | hy
    · exact Nat.add_lt_add_of_lt_of_le hlt (Nat.mul_le_mul_left _ (number_mono hlexs))
    · exact Nat.add_lt_add_of_le_of_lt hlex
        (Nat.mul_lt_mul_of_pos_left (number_lt_of_le hxs hlexs ⟨y, hy, hlt⟩) hx)

/-! ### When comparing places is comparing numbers -/

/-- There is one slot only, or all slots have a property. -/
def OneOrAll (P : ℕ × ℕ → Prop) (slots : List (ℕ × ℕ)) : Prop :=
  slots.length = 1 ∨ slots ≠ [] ∧ ∀ s ∈ slots, P s

theorem oneOrAll_map_slot {P : ℕ × ℕ → Prop} {xs : List Place} :
    OneOrAll P (xs.map Place.slot) ↔ xs.length = 1 ∨ xs ≠ [] ∧ ∀ x ∈ xs, P x.slot := by
  rw [OneOrAll, List.length_map, ne_eq, List.map_eq_nil_iff, List.forall_mem_map]

/-- Some place decides `<`. -/
theorem exists_lt_of_number_lt {xs : List Place}
    (h : number Place.left xs < number Place.right xs) : ∃ x ∈ xs, x.left < x.right := by
  by_contra hnone
  push Not at hnone
  exact absurd h (Nat.not_lt_of_le (number_mono hnone))

/-- Some place decides `<` when no place is free to rise above a place that is free to fall. -/
theorem exists_lt_iff {xs : List Place} (hrange : ∀ x ∈ xs, x.InRange)
    (h : (xs.map Place.slot).Pairwise fun s t => s.2 = 0 ∨ t.2 = t.1 - 1) :
    (∃ x ∈ xs, x.left < x.right) ↔ number Place.left xs < number Place.right xs := by
  refine ⟨fun hlt => ?_, exists_lt_of_number_lt⟩
  rw [List.pairwise_map] at h
  induction xs with
  | nil => obtain ⟨x, hx, -⟩ := hlt; cases hx
  | cons x xs ih =>
    obtain ⟨hx, hxs⟩ := List.forall_mem_cons.mp hrange
    obtain ⟨hhead, htail⟩ := List.pairwise_cons.mp h
    rw [number_lt_cons_iff hx.1 hx.2]
    by_cases hrest : ∃ y ∈ xs, y.left < y.right
    · exact Or.inl (ih hxs htail hrest)
    · have hxlt : x.left < x.right := by
        obtain ⟨y, hy, hylt⟩ := hlt
        rcases List.mem_cons.mp hy with rfl | hy
        · exact hylt
        · exact absurd ⟨y, hy, hylt⟩ hrest
      have hle : number Place.left xs ≤ number Place.right xs := number_mono fun y hy => by
        have hyr := hxs y hy
        have hyl := hyr.1
        rcases hhead y hy with h0 | hmax
        · exact absurd h0 (Nat.ne_of_gt (Nat.zero_lt_of_lt hxlt))
        · exact (Nat.le_sub_one_of_lt hyl).trans hmax.ge
      rcases Nat.lt_or_eq_of_le hle with hlt' | heq
      · exact Or.inl hlt'
      · exact Or.inr ⟨heq, hxlt⟩

/-- All places decide `≤` when no place is free to fall below a place that is free to rise. -/
theorem forall_le_iff {xs : List Place} (hrange : ∀ x ∈ xs, x.InRange)
    (h : (xs.map Place.slot).Pairwise fun s t => s.2 = s.1 - 1 ∨ t.2 = 0) :
    (∀ x ∈ xs, x.left ≤ x.right) ↔ number Place.left xs ≤ number Place.right xs := by
  refine ⟨number_mono, fun hle => ?_⟩
  rw [List.pairwise_map] at h
  induction xs with
  | nil => exact fun x hx => absurd hx List.not_mem_nil
  | cons x xs ih =>
    obtain ⟨hx, hxs⟩ := List.forall_mem_cons.mp hrange
    obtain ⟨hhead, htail⟩ := List.pairwise_cons.mp h
    have hrest : ∀ y ∈ xs, y.left ≤ y.right := by
      refine ih hxs htail ?_
      by_contra hgt
      have := Nat.mul_le_mul_left x.base (Nat.lt_of_not_le hgt)
      have := hx.2
      simp only [number, Nat.mul_succ] at *
      omega
    refine List.forall_mem_cons.mpr ⟨?_, hrest⟩
    by_contra hgt
    -- the places above all have zero on the right, so this place decides
    have hzero : ∀ y ∈ xs, y.right = 0 := fun y hy => (hhead y hy).resolve_left fun hmax =>
      hgt ((Nat.le_sub_one_of_lt hx.1).trans (Eq.ge hmax))
    have hleft : number Place.left xs = 0 := number_eq_zero fun y hy => by
      have := hrest y hy
      rw [hzero y hy] at this
      omega
    rw [number, number, hleft, number_eq_zero hzero] at hle
    omega

/-- All places are `<` when there is one place only, or the right number is zero. -/
theorem forall_lt_iff {xs : List Place}
    (h : OneOrAll (fun s => s.2 = 0) (xs.map Place.slot)) :
    (∀ x ∈ xs, x.left < x.right) ↔ number Place.left xs < number Place.right xs := by
  rcases oneOrAll_map_slot.mp h with hone | ⟨hne, hzero⟩
  · obtain ⟨x, rfl⟩ := List.length_eq_one_iff.mp hone
    simp [number]
  · obtain ⟨x, hx⟩ := List.exists_mem_of_ne_nil xs hne
    rw [number_eq_zero (f := Place.right) hzero]
    refine iff_of_false (fun hall => ?_) (Nat.not_lt_zero _)
    have := hall x hx
    rw [show x.right = 0 from hzero x hx] at this
    omega

/-- Some place is `≤` when there is one place only, or the right number is the largest. -/
theorem exists_le_iff {xs : List Place} (hrange : ∀ x ∈ xs, x.InRange)
    (h : OneOrAll (fun s => s.2 = s.1 - 1) (xs.map Place.slot)) :
    (∃ x ∈ xs, x.left ≤ x.right) ↔ number Place.left xs ≤ number Place.right xs := by
  rcases oneOrAll_map_slot.mp h with hone | ⟨hne, hmax⟩
  · obtain ⟨x, rfl⟩ := List.length_eq_one_iff.mp hone
    simp [number]
  · have hle : ∀ x ∈ xs, x.left ≤ x.right := fun x hx => by
      have := (hrange x hx).1
      have : x.right = x.base - 1 := hmax x hx
      omega
    obtain ⟨x, hx⟩ := List.exists_mem_of_ne_nil xs hne
    exact iff_of_true ⟨x, hx, hle x hx⟩ (number_mono hle)

/-! ### When it is not -/

section Free

variable {slots : List (ℕ × ℕ)}

/-- The statement holds for all left digits. -/
def ForAllLeft (slots : List (ℕ × ℕ)) (P : List Place → Prop) : Prop :=
  ∀ xs : List Place, xs.map Place.slot = slots → (∀ x ∈ xs, x.InRange) → P xs

/-- Places with the left digits that `digit` makes of base and right digit. -/
def choose (digit : ℕ × ℕ → ℕ) (slots : List (ℕ × ℕ)) : List Place :=
  slots.map fun s => ⟨s.1, digit s, s.2⟩

theorem slot_choose (digit : ℕ × ℕ → ℕ) : (choose digit slots).map Place.slot = slots := by
  rw [choose, List.map_map]
  exact List.map_id slots

theorem mem_choose {digit : ℕ × ℕ → ℕ} {x : Place} (h : x ∈ choose digit slots) :
    x.slot ∈ slots ∧ x.left = digit x.slot := by
  obtain ⟨s, hs, rfl⟩ := List.mem_map.mp h
  exact ⟨hs, rfl⟩

theorem choose_inRange {digit : ℕ × ℕ → ℕ} (h : ∀ s ∈ slots, s.2 < s.1)
    (hdigit : ∀ s ∈ slots, digit s < s.1) : ∀ x ∈ choose digit slots, x.InRange := by
  intro x hx
  obtain ⟨s, hs, rfl⟩ := List.mem_map.mp hx
  exact ⟨hdigit s hs, h s hs⟩

/-- All left digits the largest ones. -/
theorem number_right_lt_max (h : ∀ s ∈ slots, s.2 < s.1) (hsome : ∃ s ∈ slots, s.2 ≠ s.1 - 1) :
    number Place.right (choose (fun s => s.1 - 1) slots) <
      number Place.left (choose (fun s => s.1 - 1) slots) := by
  refine number_lt_of_le (fun x hx => ?_) (fun x hx => ?_) ?_
  · have := h _ (mem_choose hx).1
    simp only [Place.slot] at this
    omega
  · have := h _ (mem_choose hx).1
    rw [(mem_choose hx).2]
    simp only [Place.slot] at *
    omega
  · obtain ⟨s, hs, hne⟩ := hsome
    have := h s hs
    exact ⟨_, List.mem_map_of_mem hs, by dsimp only; omega⟩

/-- All left digits zero. -/
theorem number_left_zero : number Place.left (choose (fun _ => 0) slots) = 0 :=
  number_eq_zero fun _ hx => (mem_choose hx).2

theorem number_right_pos (h : ∀ s ∈ slots, s.2 < s.1) (hsome : ∃ s ∈ slots, s.2 ≠ 0) :
    0 < number Place.right (choose (fun _ => 0) slots) := by
  refine number_pos (fun x hx => ?_) ?_
  · have := h _ (mem_choose hx).1
    simp only [Place.slot] at this
    omega
  · obtain ⟨s, hs, hne⟩ := hsome
    exact ⟨_, List.mem_map_of_mem hs, Nat.pos_of_ne_zero hne⟩

theorem cons_inRange {s : ℕ × ℕ} {d : ℕ} {xs : List Place} (hd : d < s.1) (hs : s.2 < s.1)
    (hxs : ∀ x ∈ xs, x.InRange) : ∀ x ∈ (⟨s.1, d, s.2⟩ : Place) :: xs, x.InRange :=
  List.forall_mem_cons.mpr ⟨⟨hd, hs⟩, hxs⟩

/-- `exists_lt_iff` needs its condition. -/
theorem pairwise_of_exists_lt : ∀ {slots : List (ℕ × ℕ)}, (∀ s ∈ slots, s.2 < s.1) →
    ForAllLeft slots (fun xs => (∃ x ∈ xs, x.left < x.right) →
      number Place.left xs < number Place.right xs) →
    slots.Pairwise fun s t => s.2 = 0 ∨ t.2 = t.1 - 1
  | [], _, _ => List.Pairwise.nil
  | s :: slots, hslots, hall => by
    obtain ⟨hs, hrest⟩ := List.forall_mem_cons.mp hslots
    refine List.pairwise_cons.mpr ⟨fun t ht => ?_, pairwise_of_exists_lt hrest fun xs hxs hrange hlt => ?_⟩
    · by_contra hnot
      rw [not_or] at hnot
      have hgt := number_right_lt_max hrest ⟨t, ht, hnot.2⟩
      have hlt := hall (⟨s.1, s.2 - 1, s.2⟩ :: choose (fun s => s.1 - 1) slots)
        (congrArg (s :: ·) (slot_choose _))
        (cons_inRange (by omega) hs (choose_inRange hrest fun t ht => by have := hrest t ht; omega))
        ⟨_, List.mem_cons_self, Nat.sub_lt (Nat.pos_of_ne_zero hnot.1) Nat.one_pos⟩
      rw [number_lt_cons_iff (Nat.lt_of_le_of_lt (Nat.sub_le _ _) hs) hs] at hlt
      omega
    · obtain ⟨x, hx, hxlt⟩ := hlt
      have hlt := hall (⟨s.1, s.2, s.2⟩ :: xs) (congrArg (s :: ·) hxs) (cons_inRange hs hs hrange)
        ⟨x, List.mem_cons_of_mem _ hx, hxlt⟩
      rw [number_lt_cons_iff hs hs] at hlt
      exact hlt.resolve_right fun h => Nat.lt_irrefl _ h.2

/-- `forall_le_iff` needs its condition. -/
theorem pairwise_of_forall_le : ∀ {slots : List (ℕ × ℕ)}, (∀ s ∈ slots, s.2 < s.1) →
    ForAllLeft slots (fun xs => number Place.left xs ≤ number Place.right xs →
      ∀ x ∈ xs, x.left ≤ x.right) →
    slots.Pairwise fun s t => s.2 = s.1 - 1 ∨ t.2 = 0
  | [], _, _ => List.Pairwise.nil
  | s :: slots, hslots, hall => by
    obtain ⟨hs, hrest⟩ := List.forall_mem_cons.mp hslots
    refine List.pairwise_cons.mpr ⟨fun t ht => ?_, pairwise_of_forall_le hrest fun xs hxs hrange hle => ?_⟩
    · by_contra hnot
      rw [not_or] at hnot
      have hpos := number_right_pos hrest ⟨t, ht, hnot.2⟩
      have hd : s.2 + 1 < s.1 := by omega
      have hlt := (number_lt_cons_iff (f := Place.left) (g := Place.right)
        (x := ⟨s.1, s.2 + 1, s.2⟩) hd hs).mpr (Or.inl (number_left_zero.trans_lt hpos))
      have hle := hall (⟨s.1, s.2 + 1, s.2⟩ :: choose (fun _ => 0) slots)
        (congrArg (s :: ·) (slot_choose _))
        (cons_inRange hd hs (choose_inRange hrest fun t ht => by have := hrest t ht; omega))
        hlt.le _ List.mem_cons_self
      exact absurd hle (Nat.not_succ_le_self _)
    · have hcons : number Place.left (⟨s.1, s.2, s.2⟩ :: xs) ≤
          number Place.right (⟨s.1, s.2, s.2⟩ :: xs) :=
        Nat.add_le_add_left (Nat.mul_le_mul_left _ hle) _
      exact (List.forall_mem_cons.mp (hall (⟨s.1, s.2, s.2⟩ :: xs) (congrArg (s :: ·) hxs)
        (cons_inRange hs hs hrange) hcons)).2

/-- `forall_lt_iff` needs its condition. -/
theorem one_or_zero_of_forall_lt (h : ∀ s ∈ slots, s.2 < s.1)
    (hall : ForAllLeft slots fun xs => (∀ x ∈ xs, x.left < x.right) ↔
      number Place.left xs < number Place.right xs) :
    OneOrAll (fun s => s.2 = 0) slots := by
  match slots, h, hall with
  | [], _, hall => simpa [number] using hall [] rfl
  | [s], _, _ => exact Or.inl rfl
  | s :: t :: rest, h, hall =>
    obtain ⟨hs, hrest⟩ := List.forall_mem_cons.mp h
    have hzeros := choose_inRange hrest fun t ht => Nat.zero_lt_of_lt (hrest t ht)
    have hzero : ∀ u ∈ t :: rest, u.2 = 0 := by
      by_contra hsome
      push Not at hsome
      have hpos := number_right_pos hrest hsome
      have hd : s.1 - 1 < s.1 := by omega
      have hlt := (number_lt_cons_iff (f := Place.left) (g := Place.right)
        (x := ⟨s.1, s.1 - 1, s.2⟩) hd hs).mpr (Or.inl (number_left_zero.trans_lt hpos))
      have := (hall (⟨s.1, s.1 - 1, s.2⟩ :: choose (fun _ => 0) (t :: rest))
        (congrArg (s :: ·) (slot_choose _)) (cons_inRange hd hs hzeros)).mpr hlt _
        List.mem_cons_self
      dsimp only at this
      omega
    refine Or.inr ⟨List.cons_ne_nil _ _, List.forall_mem_cons.mpr ⟨?_, hzero⟩⟩
    by_contra hne
    have hright : number Place.right (choose (fun _ => 0) (t :: rest)) = 0 :=
      number_eq_zero fun x hx => hzero _ (mem_choose hx).1
    have hd : 0 < s.1 := by omega
    have hlt := (number_lt_cons_iff (f := Place.left) (g := Place.right)
      (x := ⟨s.1, 0, s.2⟩) hd hs).mpr
      (Or.inr ⟨number_left_zero.trans hright.symm, Nat.pos_of_ne_zero hne⟩)
    have := (hall (⟨s.1, 0, s.2⟩ :: choose (fun _ => 0) (t :: rest))
      (congrArg (s :: ·) (slot_choose _)) (cons_inRange hd hs hzeros)).mpr hlt
      ⟨t.1, 0, t.2⟩ (List.mem_cons_of_mem _ List.mem_cons_self)
    rw [hzero t List.mem_cons_self] at this
    exact absurd this (Nat.lt_irrefl 0)

/-- `exists_le_iff` needs its condition. -/
theorem one_or_max_of_exists_le (h : ∀ s ∈ slots, s.2 < s.1)
    (hall : ForAllLeft slots fun xs => (∃ x ∈ xs, x.left ≤ x.right) ↔
      number Place.left xs ≤ number Place.right xs) :
    OneOrAll (fun s => s.2 = s.1 - 1) slots := by
  match slots, h, hall with
  | [], _, hall => simpa [number] using hall [] rfl
  | [s], _, _ => exact Or.inl rfl
  | s :: t :: rest, h, hall =>
    obtain ⟨hs, hrest⟩ := List.forall_mem_cons.mp h
    have hdigit : ∀ u ∈ t :: rest, u.1 - 1 < u.1 := fun u hu => by
      have := hrest u hu
      omega
    have hmaxes := choose_inRange hrest hdigit
    have hmax : ∀ u ∈ t :: rest, u.2 = u.1 - 1 := by
      by_contra hsome
      push Not at hsome
      have hgt := number_right_lt_max hrest hsome
      have hd : 0 < s.1 := by omega
      have hlt := (number_lt_cons_iff (f := Place.right) (g := Place.left)
        (x := ⟨s.1, 0, s.2⟩) hs hd).mpr (Or.inl hgt)
      exact absurd ((hall (⟨s.1, 0, s.2⟩ :: choose (fun s => s.1 - 1) (t :: rest))
        (congrArg (s :: ·) (slot_choose _)) (cons_inRange hd hs hmaxes)).mp
        ⟨_, List.mem_cons_self, Nat.zero_le _⟩) (Nat.not_le_of_lt hlt)
    refine Or.inr ⟨List.cons_ne_nil _ _, List.forall_mem_cons.mpr ⟨?_, hmax⟩⟩
    by_contra hne
    have heq : number Place.right (choose (fun s => s.1 - 1) (t :: rest)) =
        number Place.left (choose (fun s => s.1 - 1) (t :: rest)) :=
      Nat.le_antisymm (number_mono fun x hx => ((hmax _ (mem_choose hx).1).trans
        (mem_choose hx).2.symm).le) (number_mono fun x hx => ((mem_choose hx).2.trans
        (hmax _ (mem_choose hx).1).symm).le)
    have hd : s.1 - 1 < s.1 := by omega
    have hlt := (number_lt_cons_iff (f := Place.right) (g := Place.left)
      (x := ⟨s.1, s.1 - 1, s.2⟩) hs hd).mpr (Or.inr ⟨heq, by dsimp only; omega⟩)
    exact absurd ((hall (⟨s.1, s.1 - 1, s.2⟩ :: choose (fun s => s.1 - 1) (t :: rest))
      (congrArg (s :: ·) (slot_choose _)) (cons_inRange hd hs hmaxes)).mp
      ⟨⟨t.1, t.1 - 1, t.2⟩, List.mem_cons_of_mem _ List.mem_cons_self,
        (hmax t List.mem_cons_self).ge⟩) (Nat.not_le_of_lt hlt)

end Free

end Digits
