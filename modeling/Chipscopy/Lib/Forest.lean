import Mathlib

/-! Forests of parent links and lists of children

    A forest keeps the same tree twice: each of its keys names the key of its parent, and each key
    lists the keys of its children. Taking a key away leaves the keys below it without a way to the
    root; taking them away one subtree after the other is the same as taking all of them at once. -/

/-- Keys with the key of their parent, and the list of children of each key. -/
@[ext] structure Forest (κ : Type*) where
  parent : κ → Option κ
  children : κ → List κ

namespace Forest

variable {κ : Type*} {f : Forest κ} {S T : Set κ} {x y c p root : κ}

/-- The key is in the forest. -/
def Mem (f : Forest κ) (c : κ) : Prop := (f.parent c).isSome = true

/-- From `c` the parent links lead to `x`. -/
inductive Below (f : Forest κ) (x : κ) : κ → Prop
  | self : Below f x x
  | child {c p : κ} (hp : f.parent c = some p) (h : Below f x p) : Below f x c

/-- From `c` the parent links lead to one of the keys. -/
def BelowAny (f : Forest κ) (S : Set κ) (c : κ) : Prop := ∃ x ∈ S, f.Below x c

theorem mem_of_parent (h : f.parent c = some p) : f.Mem c := by
  rw [Mem, h]
  rfl

theorem Below.trans (h : f.Below x y) (h' : f.Below y c) : f.Below x c := by
  induction h' with
  | self => exact h
  | child hp _ ih => exact .child hp ih

/-- Links that are kept lead where they led. -/
theorem Below.mono {g : Forest κ} (h : f.Below x c)
    (hg : ∀ c p, f.parent c = some p → f.Below x p → g.parent c = some p) : g.Below x c := by
  induction h with
  | self => exact .self
  | child hp hbelow ih => exact .child (hg _ _ hp hbelow) ih

/-! ### Taking subtrees away -/

section Prune

open Classical

/-- The forest without some keys and everything below them. -/
noncomputable def prune (f : Forest κ) (S : Set κ) : Forest κ where
  parent c := if f.BelowAny S c then none else f.parent c
  children p := if f.BelowAny S p then [] else (f.children p).filter fun c => ¬ f.BelowAny S c

theorem parent_prune_of_below (h : f.BelowAny S c) : (f.prune S).parent c = none := if_pos h

theorem parent_prune (h : ¬ f.BelowAny S c) : (f.prune S).parent c = f.parent c := if_neg h

theorem children_prune_of_below (h : f.BelowAny S p) : (f.prune S).children p = [] := if_pos h

theorem children_prune (h : ¬ f.BelowAny S p) :
    (f.prune S).children p = (f.children p).filter fun c => ¬ f.BelowAny S c := if_neg h

theorem parent_of_prune (h : (f.prune S).parent c = some p) :
    ¬ f.BelowAny S c ∧ f.parent c = some p := by
  by_cases hc : f.BelowAny S c
  · rw [parent_prune_of_below hc] at h
    exact nomatch h
  · rw [parent_prune hc] at h
    exact ⟨hc, h⟩

theorem mem_prune : (f.prune S).Mem c ↔ f.Mem c ∧ ¬ f.BelowAny S c := by
  rw [Mem, Mem]
  by_cases hc : f.BelowAny S c
  · simp [parent_prune_of_below hc, hc]
  · simp [parent_prune hc, hc]

theorem BelowAny.child (h : f.BelowAny S p) (hp : f.parent c = some p) : f.BelowAny S c := by
  obtain ⟨x, hx, hbelow⟩ := h
  exact ⟨x, hx, .child hp hbelow⟩

theorem below_of_prune (h : (f.prune S).Below x c) : f.Below x c :=
  h.mono fun _ _ hp _ => (parent_of_prune hp).2

/-- What is left hangs where it did. -/
theorem below_prune (hc : ¬ f.BelowAny S c) (h : f.Below x c) : (f.prune S).Below x c := by
  induction h with
  | self => exact .self
  | child hp _ ih => exact .child ((parent_prune hc).trans hp) (ih fun hp' => hc (hp'.child hp))

theorem belowAny_prune_iff (hc : ¬ f.BelowAny S c) : (f.prune S).BelowAny T c ↔ f.BelowAny T c := by
  constructor
  · rintro ⟨x, hx, h⟩
    exact ⟨x, hx, below_of_prune h⟩
  · rintro ⟨x, hx, h⟩
    exact ⟨x, hx, below_prune hc h⟩

theorem belowAny_union : f.BelowAny (S ∪ T) c ↔ f.BelowAny S c ∨ f.BelowAny T c := by
  constructor
  · rintro ⟨x, hx | hx, h⟩
    · exact .inl ⟨x, hx, h⟩
    · exact .inr ⟨x, hx, h⟩
  · rintro (⟨x, hx, h⟩ | ⟨x, hx, h⟩)
    · exact ⟨x, .inl hx, h⟩
    · exact ⟨x, .inr hx, h⟩

/-- One after the other is all at once. -/
theorem prune_prune : (f.prune S).prune T = f.prune (S ∪ T) := by
  refine Forest.ext (funext fun c => ?_) (funext fun p => ?_)
  · by_cases hS : f.BelowAny S c
    · rw [parent_prune_of_below (belowAny_union.mpr (.inl hS))]
      by_cases hT : (f.prune S).BelowAny T c
      · exact parent_prune_of_below hT
      · rw [parent_prune hT, parent_prune_of_below hS]
    · by_cases hT : f.BelowAny T c
      · rw [parent_prune_of_below (belowAny_union.mpr (.inr hT)),
          parent_prune_of_below ((belowAny_prune_iff hS).mpr hT)]
      · rw [parent_prune (fun h => (belowAny_union.mp h).elim hS hT),
          parent_prune (fun h => hT ((belowAny_prune_iff hS).mp h)), parent_prune hS]
  · by_cases hS : f.BelowAny S p
    · rw [children_prune_of_below (belowAny_union.mpr (.inl hS))]
      by_cases hT : (f.prune S).BelowAny T p
      · exact children_prune_of_below hT
      · rw [children_prune hT, children_prune_of_below hS, List.filter_nil]
    · by_cases hT : f.BelowAny T p
      · rw [children_prune_of_below (belowAny_union.mpr (.inr hT)),
          children_prune_of_below ((belowAny_prune_iff hS).mpr hT)]
      · rw [children_prune (fun h => (belowAny_union.mp h).elim hS hT),
          children_prune (fun h => hT ((belowAny_prune_iff hS).mp h)), children_prune hS,
          List.filter_filter]
        refine List.filter_congr fun c _ => ?_
        by_cases hc : f.BelowAny S c
        · simp [hc, belowAny_union]
        · simp [hc, belowAny_union, belowAny_prune_iff hc]

theorem prune_empty : f.prune ∅ = f := by
  have hnot : ∀ c, ¬ f.BelowAny ∅ c := fun c ⟨x, hx, _⟩ => hx
  refine Forest.ext (funext fun c => parent_prune (hnot c)) (funext fun p => ?_)
  rw [children_prune (hnot p)]
  exact List.filter_eq_self.mpr fun c _ => by simpa using hnot c

end Prune

/-! ### Links and lists that agree -/

/-- The two copies of the tree agree, whatever hangs below a key that is not in the forest. -/
structure Linked (f : Forest κ) (root : κ) : Prop where
  listed : ∀ {c p}, f.parent c = some p → c ≠ root → f.Mem p → c ∈ f.children p
  mem : ∀ {c p}, c ∈ f.children p → f.Mem p
  parent : ∀ {c p}, c ∈ f.children p → f.parent c = some p
  ne_root : ∀ {c p}, c ∈ f.children p → c ≠ root
  nodup : ∀ p, (f.children p).Nodup
  ne_parent : ∀ {c}, f.parent c = some c → c = root
  parent_eq : ∀ {p}, f.parent root = some p → p = root

/-- One tree: every link leads on to the root. -/
structure Rooted (f : Forest κ) (root : κ) : Prop extends Linked f root where
  parent_root : f.parent root = some root
  grounded : ∀ {c}, f.Mem c → f.Below root c

theorem Linked.prune (h : f.Linked root) (S : Set κ) : (f.prune S).Linked root := by
  have hmem : ∀ {c p}, c ∈ (f.prune S).children p →
      c ∈ f.children p ∧ ¬ f.BelowAny S p ∧ ¬ f.BelowAny S c := by
    intro c p hc
    by_cases hp : f.BelowAny S p
    · rw [children_prune_of_below hp] at hc
      exact nomatch hc
    · rw [children_prune hp, List.mem_filter] at hc
      exact ⟨hc.1, hp, by simpa using hc.2⟩
  constructor
  · intro c p hcp hne hp
    obtain ⟨hc, hcp⟩ := parent_of_prune hcp
    obtain ⟨hp, hnot⟩ := mem_prune.mp hp
    rw [children_prune hnot, List.mem_filter]
    exact ⟨h.listed hcp hne hp, by simpa using hc⟩
  · intro c p hc
    obtain ⟨hcp, hp, -⟩ := hmem hc
    exact mem_prune.mpr ⟨h.mem hcp, hp⟩
  · intro c p hc
    obtain ⟨hcp, -, hc⟩ := hmem hc
    rw [parent_prune hc, h.parent hcp]
  · intro c p hc
    exact h.ne_root (hmem hc).1
  · intro p
    by_cases hp : f.BelowAny S p
    · rw [children_prune_of_below hp]
      exact List.nodup_nil
    · rw [children_prune hp]
      exact (h.nodup p).filter _
  · intro c hc
    exact h.ne_parent (parent_of_prune hc).2
  · intro p hp
    exact h.parent_eq (parent_of_prune hp).2

theorem Rooted.below_root (h : f.Rooted root) : ∀ {c}, f.Below x c → c = root → x = root := by
  intro c hbelow
  induction hbelow with
  | self => exact id
  | child hp _ ih =>
    rintro rfl
    rw [h.parent_root] at hp
    exact ih (Option.some.inj hp).symm

theorem Rooted.mem_of_below_root (h : f.Rooted root) (hbelow : f.Below root c) : f.Mem c := by
  cases hbelow with
  | self => exact mem_of_parent h.parent_root
  | child hp _ => exact mem_of_parent hp

/-- The parent of a key is in the tree. -/
theorem Rooted.mem_parent (h : f.Rooted root) (hp : f.parent c = some p) : f.Mem p := by
  have hbelow := h.grounded (mem_of_parent hp)
  cases hbelow with
  | self =>
    rw [h.parent_root] at hp
    rw [← Option.some.inj hp]
    exact mem_of_parent h.parent_root
  | child hp' hbelow =>
    rw [hp] at hp'
    rw [Option.some.inj hp']
    exact h.mem_of_below_root hbelow

theorem Rooted.prune (h : f.Rooted root) (hS : root ∉ S) : (f.prune S).Rooted root := by
  have hroot : ¬ f.BelowAny S root := by
    rintro ⟨x, hx, hbelow⟩
    rw [h.below_root hbelow rfl] at hx
    exact hS hx
  refine { h.toLinked.prune S with parent_root := ?_, grounded := ?_ }
  · rw [parent_prune hroot, h.parent_root]
  · intro c hc
    obtain ⟨hc, hnot⟩ := mem_prune.mp hc
    exact below_prune hnot (h.grounded hc)

/-- No key hangs below its own child. -/
theorem Rooted.not_below (h : f.Rooted root) (hc : c ∈ f.children p) : ¬ f.Below c p := by
  have key : ∀ {p}, f.Below root p → ∀ {c}, f.parent c = some p → c ≠ root → ¬ f.Below c p := by
    intro p hgrounded
    induction hgrounded with
    | self => exact fun _ hne hbelow => hne (h.below_root hbelow rfl)
    | @child p q hq _ ih =>
      intro c hcp hne hbelow
      have hp : p ≠ root := by
        rintro rfl
        exact hne (h.below_root hbelow rfl)
      cases hbelow with
      | self => exact hne (h.ne_parent hcp)
      | child hq' hbelow =>
        rw [hq] at hq'
        obtain rfl := Option.some.inj hq'
        exact ih hq hp ((Below.child hcp .self).trans hbelow)
  exact key (h.grounded (h.mem hc)) (h.parent hc) (h.ne_root hc)

/-- Taking children of a key away keeps the key. -/
theorem Rooted.not_belowAny (h : f.Rooted root) (hS : ∀ c ∈ S, c ∈ f.children p) :
    ¬ f.BelowAny S p := by
  rintro ⟨c, hc, hbelow⟩
  exact h.not_below (hS c hc) hbelow

open Classical in
/-- Taking children of a key away keeps its other children. -/
theorem Rooted.mem_children_prune (h : f.Rooted root) (hS : ∀ c ∈ S, c ∈ f.children p) :
    c ∈ (f.prune S).children p ↔ c ∈ f.children p ∧ c ∉ S := by
  rw [children_prune (h.not_belowAny hS), List.mem_filter]
  refine and_congr_right fun hc => ?_
  rw [decide_eq_true_eq]
  refine not_congr ⟨?_, fun hcS => ⟨c, hcS, .self⟩⟩
  rintro ⟨d, hd, hbelow⟩
  cases hbelow with
  | self => exact hd
  | child hp hbelow =>
    rw [h.parent hc] at hp
    obtain rfl := Option.some.inj hp
    exact absurd hbelow (h.not_below (hS d hd))

/-- Nothing hangs below a key that is not in the tree. -/
theorem Rooted.prune_of_not_mem (h : f.Rooted root) (hx : ¬ f.Mem x) : f.prune {x} = f := by
  have hnot : ∀ {c}, f.Below x c → ¬ f.Mem c := by
    intro c hbelow
    induction hbelow with
    | self => exact hx
    | child hp _ ih => exact absurd (h.mem_parent hp) ih
  have hany : ∀ {c}, f.BelowAny {x} c → ¬ f.Mem c := by
    rintro c ⟨y, rfl, hbelow⟩
    exact hnot hbelow
  refine Forest.ext (funext fun c => ?_) (funext fun p => ?_)
  · by_cases hc : f.BelowAny {x} c
    · rw [parent_prune_of_below hc]
      exact (Option.not_isSome_iff_eq_none.mp (hany hc)).symm
    · exact parent_prune hc
  · by_cases hp : f.BelowAny {x} p
    · rw [children_prune_of_below hp]
      refine (List.eq_nil_iff_forall_not_mem.mpr fun c hc => ?_).symm
      exact hany hp (h.mem hc)
    · rw [children_prune hp]
      refine List.filter_eq_self.mpr fun c hc => ?_
      have hc' : ¬ f.BelowAny {x} c := fun hc' => hany hc' (mem_of_parent (h.parent hc))
      simpa using hc'

/-! ### One key -/

section Edit

variable [DecidableEq κ]

/-- The forest without one key; what hangs below it stays. -/
def detach (f : Forest κ) (x : κ) : Forest κ where
  parent := Function.update f.parent x none
  children p := if p = x then [] else (f.children p).erase x

/-- One more key, with no children yet. -/
def insertLeaf (f : Forest κ) (c p : κ) : Forest κ where
  parent := Function.update f.parent c (some p)
  children q := if q = p then f.children p ++ [c] else f.children q

/-- Another list of children for one key. -/
def setChildren (f : Forest κ) (p : κ) (cs : List κ) : Forest κ where
  parent := f.parent
  children := Function.update f.children p cs

theorem parent_detach_ne (h : c ≠ x) : (f.detach x).parent c = f.parent c :=
  Function.update_of_ne h _ _

theorem parent_detach_self : (f.detach x).parent x = none := Function.update_self _ _ _

theorem children_detach_self : (f.detach x).children x = [] := if_pos rfl

theorem children_detach_ne (h : p ≠ x) : (f.detach x).children p = (f.children p).erase x := if_neg h

@[simp] theorem parent_setChildren {cs : List κ} : (f.setChildren p cs).parent = f.parent := rfl

theorem children_setChildren_self {cs : List κ} : (f.setChildren p cs).children p = cs :=
  Function.update_self _ _ _

theorem children_setChildren_ne {cs : List κ} (h : c ≠ p) :
    (f.setChildren p cs).children c = f.children c := Function.update_of_ne h _ _

theorem parent_insertLeaf_self : (f.insertLeaf c p).parent c = some p := Function.update_self _ _ _

theorem parent_insertLeaf_ne (h : x ≠ c) : (f.insertLeaf c p).parent x = f.parent x :=
  Function.update_of_ne h _ _

theorem children_insertLeaf_self : (f.insertLeaf c p).children p = f.children p ++ [c] := if_pos rfl

theorem children_insertLeaf_ne (h : x ≠ p) : (f.insertLeaf c p).children x = f.children x := if_neg h

theorem mem_detach : (f.detach x).Mem c ↔ f.Mem c ∧ c ≠ x := by
  by_cases hc : c = x
  · subst hc
    simp [Mem, detach]
  · rw [Mem, parent_detach_ne hc]
    exact ⟨fun h => ⟨h, hc⟩, fun h => h.1⟩

theorem Linked.detach (h : f.Linked root) (x : κ) : (f.detach x).Linked root := by
  have hmem : ∀ {c p}, c ∈ (f.detach x).children p → c ∈ f.children p ∧ p ≠ x ∧ c ≠ x := by
    intro c p hc
    by_cases hp : p = x
    · rw [hp, children_detach_self] at hc
      exact nomatch hc
    · rw [children_detach_ne hp] at hc
      obtain ⟨hne, hc⟩ := ((h.nodup p).mem_erase_iff).mp hc
      exact ⟨hc, hp, hne⟩
  constructor
  · intro c p hcp hne hp
    obtain ⟨hp, hpx⟩ := mem_detach.mp hp
    have hcx : c ≠ x := by
      rintro rfl
      rw [parent_detach_self] at hcp
      exact nomatch hcp
    rw [parent_detach_ne hcx] at hcp
    rw [children_detach_ne hpx]
    exact ((h.nodup p).mem_erase_iff).mpr ⟨hcx, h.listed hcp hne hp⟩
  · intro c p hc
    obtain ⟨hcp, hpx, -⟩ := hmem hc
    exact mem_detach.mpr ⟨h.mem hcp, hpx⟩
  · intro c p hc
    obtain ⟨hcp, -, hcx⟩ := hmem hc
    rw [parent_detach_ne hcx, h.parent hcp]
  · intro c p hc
    exact h.ne_root (hmem hc).1
  · intro p
    by_cases hp : p = x
    · rw [hp, children_detach_self]
      exact List.nodup_nil
    · rw [children_detach_ne hp]
      exact (h.nodup p).erase x
  · intro c hc
    by_cases hcx : c = x
    · rw [hcx, parent_detach_self] at hc
      exact nomatch hc
    · rw [parent_detach_ne hcx] at hc
      exact h.ne_parent hc
  · intro p hp
    by_cases hroot : root = x
    · rw [hroot, parent_detach_self] at hp
      exact nomatch hp
    · rw [parent_detach_ne hroot] at hp
      exact h.parent_eq hp

theorem below_of_detach (h : (f.detach x).Below y c) : f.Below y c := by
  refine h.mono fun c p hp _ => ?_
  by_cases hc : c = x
  · rw [hc, parent_detach_self] at hp
    exact nomatch hp
  · rwa [parent_detach_ne hc] at hp

/-- Below a key are the key and what is below its children. -/
theorem Linked.below_iff (h : f.Linked root) (hx : f.Mem x) (hne : x ≠ root) :
    f.BelowAny {x} c ↔ c = x ∨ (f.detach x).BelowAny {c | c ∈ f.children x} c := by
  constructor
  · rintro ⟨y, rfl, hbelow⟩
    induction hbelow with
    | self => exact .inl rfl
    | @child c p hp _ ih =>
      by_cases hcx : c = y
      · exact .inl hcx
      · right
        have hp' : (f.detach y).parent c = some p := (parent_detach_ne hcx).trans hp
        rcases ih with rfl | hany
        · have hroot : c ≠ root := by
            rintro rfl
            exact hne (h.parent_eq hp)
          exact ⟨c, h.listed hp hroot hx, .self⟩
        · exact hany.child hp'
  · rintro (rfl | ⟨k, hk, hbelow⟩)
    · exact ⟨c, rfl, .self⟩
    · exact ⟨x, rfl, (Below.child (h.parent hk) .self).trans (below_of_detach hbelow)⟩

/-- To take a subtree away is to take its key away, then the subtrees of the children. -/
theorem Linked.prune_eq_detach (h : f.Linked root) (hx : f.Mem x) (hne : x ≠ root) :
    f.prune {x} = (f.detach x).prune {c | c ∈ f.children x} := by
  have hiff : ∀ c, f.BelowAny {x} c ↔
      c = x ∨ (f.detach x).BelowAny {c | c ∈ f.children x} c := fun c => h.below_iff hx hne
  refine Forest.ext (funext fun c => ?_) (funext fun p => ?_)
  · by_cases hc : f.BelowAny {x} c
    · rw [parent_prune_of_below hc]
      by_cases hk : (f.detach x).BelowAny {c | c ∈ f.children x} c
      · rw [parent_prune_of_below hk]
      · obtain rfl := ((hiff c).mp hc).resolve_right hk
        rw [parent_prune hk]
        exact parent_detach_self.symm
    · have hcx : c ≠ x := fun hcx => hc ((hiff c).mpr (.inl hcx))
      rw [parent_prune hc, parent_prune (fun hk => hc ((hiff c).mpr (.inr hk))),
        parent_detach_ne hcx]
  · by_cases hp : f.BelowAny {x} p
    · rw [children_prune_of_below hp]
      by_cases hk : (f.detach x).BelowAny {c | c ∈ f.children x} p
      · rw [children_prune_of_below hk]
      · obtain rfl := ((hiff p).mp hp).resolve_right hk
        rw [children_prune hk, children_detach_self, List.filter_nil]
    · have hpx : p ≠ x := fun hpx => hp ((hiff p).mpr (.inl hpx))
      rw [children_prune hp, children_prune (fun hk => hp ((hiff p).mpr (.inr hk))),
        children_detach_ne hpx, (h.nodup p).erase_eq_filter, List.filter_filter]
      refine List.filter_congr fun c _ => ?_
      by_cases hcx : c = x
      · have hc : f.BelowAny {x} x := (hiff x).mpr (.inl rfl)
        simp [hc, hcx]
      · have hc : f.BelowAny {x} c ↔ (f.detach x).BelowAny {c | c ∈ f.children x} c :=
          (hiff c).trans (or_iff_right hcx)
        by_cases hk : (f.detach x).BelowAny {c | c ∈ f.children x} c
        · simp [hc.mpr hk, hk]
        · simp [mt hc.mp hk, hk, hcx]

/-- The children of a key that was taken away do not hang below each other. -/
theorem Linked.not_belowAny_detach (h : f.Linked root) {k : κ} (hk : k ∈ f.children x)
    (hS : ∀ y ∈ S, y ∈ f.children x ∧ y ≠ k) (hne : x ≠ root) : ¬ (f.detach x).BelowAny S k := by
  rintro ⟨y, hy, hbelow⟩
  obtain ⟨hyx, hyk⟩ := hS y hy
  have hkx : k ≠ x := by
    rintro rfl
    exact hne (h.ne_parent (h.parent hk))
  cases hbelow with
  | self => exact hyk rfl
  | child hp hbelow =>
    rw [parent_detach_ne hkx, h.parent hk] at hp
    obtain rfl := Option.some.inj hp
    cases hbelow with
    | self => exact hne (h.ne_parent (h.parent hyx))
    | child hp _ =>
      rw [parent_detach_self] at hp
      exact nomatch hp

theorem Rooted.insertLeaf (h : f.Rooted root) (hc : ¬ f.Mem c) (hp : f.Mem p) :
    (f.insertLeaf c p).Rooted root := by
  have hcp : p ≠ c := fun hpc => hc (hpc ▸ hp)
  have hcroot : root ≠ c := fun hrc => hc (hrc ▸ mem_of_parent h.parent_root)
  have hparent : ∀ {q}, q ≠ c → (f.insertLeaf c p).parent q = f.parent q := parent_insertLeaf_ne
  have hself : (f.insertLeaf c p).parent c = some p := parent_insertLeaf_self
  have hmem : ∀ {q}, (f.insertLeaf c p).Mem q ↔ q = c ∨ f.Mem q := by
    intro q
    by_cases hq : q = c
    · subst hq
      simp [Mem, hself]
    · simp [Mem, hparent hq, hq]
  have hchildren : ∀ {q r}, q ∈ (f.insertLeaf c p).children r ↔
      q ∈ f.children r ∨ (q = c ∧ r = p) := by
    intro q r
    by_cases hr : r = p
    · simp [hr, children_insertLeaf_self]
    · simp [hr, children_insertLeaf_ne hr]
  have hold : ∀ {q r}, q ∈ f.children r → q ≠ c := by
    rintro q r hq rfl
    exact hc (mem_of_parent (h.parent hq))
  have hbelow : ∀ {q}, f.Below root q → (f.insertLeaf c p).Below root q := by
    intro q hq
    refine hq.mono fun d r hd _ => ?_
    have hdc : d ≠ c := by
      rintro rfl
      exact hc (mem_of_parent hd)
    rw [hparent hdc, hd]
  constructor
  · constructor
    · intro q r hqr hq hr
      rw [hchildren]
      by_cases hqc : q = c
      · subst hqc
        rw [hself] at hqr
        exact .inr ⟨rfl, (Option.some.inj hqr).symm⟩
      · rw [hparent hqc] at hqr
        exact .inl (h.listed hqr hq (h.mem_parent hqr))
    · intro q r hq
      rcases hchildren.mp hq with hq | ⟨-, rfl⟩
      · exact hmem.mpr (.inr (h.mem hq))
      · exact hmem.mpr (.inr hp)
    · intro q r hq
      rcases hchildren.mp hq with hq | ⟨rfl, rfl⟩
      · rw [hparent (hold hq), h.parent hq]
      · exact hself
    · intro q r hq
      rcases hchildren.mp hq with hq | ⟨rfl, -⟩
      · exact h.ne_root hq
      · exact hcroot.symm
    · intro r
      by_cases hr : r = p
      · rw [hr, children_insertLeaf_self]
        refine List.Nodup.append (h.nodup p) (List.nodup_singleton c) ?_
        intro q hq hqc
        exact hold hq (List.mem_singleton.mp hqc)
      · rw [children_insertLeaf_ne hr]
        exact h.nodup r
    · intro q hq
      by_cases hqc : q = c
      · subst hqc
        rw [hself] at hq
        exact absurd (Option.some.inj hq) hcp
      · rw [hparent hqc] at hq
        exact h.ne_parent hq
    · intro q hq
      rw [hparent hcroot] at hq
      exact h.parent_eq hq
  · rw [hparent hcroot, h.parent_root]
  · intro q hq
    rcases hmem.mp hq with rfl | hq
    · exact .child hself (hbelow (h.grounded hp))
    · exact hbelow (h.grounded hq)

theorem below_setChildren {cs : List κ} : (f.setChildren p cs).Below x c ↔ f.Below x c :=
  ⟨fun h => h.mono fun _ _ hp _ => hp, fun h => h.mono fun _ _ hp _ => hp⟩

/-- The children in another order. -/
theorem Rooted.setChildren (h : f.Rooted root) {cs : List κ} (hcs : cs.Perm (f.children p)) :
    (f.setChildren p cs).Rooted root := by
  have hmem : ∀ {q r}, q ∈ (f.setChildren p cs).children r ↔ q ∈ f.children r := by
    intro q r
    by_cases hr : r = p
    · subst hr
      rw [children_setChildren_self, hcs.mem_iff]
    · rw [children_setChildren_ne hr]
  constructor
  · constructor
    · intro q r hqr hq hr
      exact hmem.mpr (h.listed hqr hq hr)
    · intro q r hq
      exact h.mem (hmem.mp hq)
    · intro q r hq
      exact h.parent (hmem.mp hq)
    · intro q r hq
      exact h.ne_root (hmem.mp hq)
    · intro r
      by_cases hr : r = p
      · subst hr
        rw [children_setChildren_self]
        exact hcs.nodup_iff.mpr (h.nodup r)
      · rw [children_setChildren_ne hr]
        exact h.nodup r
    · exact h.ne_parent
    · exact h.parent_eq
  · exact h.parent_root
  · intro q hq
    exact below_setChildren.mpr (h.grounded hq)

end Edit

end Forest
