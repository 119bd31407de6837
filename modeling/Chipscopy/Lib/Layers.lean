import Mathlib

/-! Layers

    Layers are laid one over the other, from the first to the last. A layer takes away what it
    covers of the layers below it and adds its own items, whether it covers them or not. So an item
    is there to the end where no layer above its own covers it. -/

namespace Layers

variable {Λ ι : Type*} (items : Λ → List ι) (covers : Λ → ι → Prop)
  [∀ l, DecidablePred (covers l)]

/-- One more layer. -/
def cover (shown : List ι) (l : Λ) : List ι := shown.filter (¬ covers l ·) ++ items l

/-- All layers over what is shown. -/
def overlay (shown : List ι) (layers : List Λ) : List ι := layers.foldl (cover items covers) shown

variable {items covers} {shown : List ι} {x : ι}

@[simp] theorem overlay_nil : overlay items covers shown [] = shown := rfl

theorem overlay_cons (l : Λ) (layers : List Λ) :
    overlay items covers shown (l :: layers) =
      overlay items covers (cover items covers shown l) layers := rfl

theorem mem_cover {l : Λ} :
    x ∈ cover items covers shown l ↔ (x ∈ shown ∧ ¬ covers l x) ∨ x ∈ items l := by
  simp [cover]

/-- The items of a state that every layer changes as far as these items go. -/
theorem mem_overlay_of_mem_foldl {σ : Type*} {step : σ → Λ → σ} {content : σ → List ι}
    (hstep : ∀ s l x, x ∈ content (step s l) → x ∈ cover items covers (content s) l)
    {layers : List Λ} : ∀ {s : σ}, x ∈ content (layers.foldl step s) →
      x ∈ overlay items covers (content s) layers := by
  have hmono : ∀ {layers : List Λ} {shown shown' : List ι}, (∀ x ∈ shown, x ∈ shown') →
      ∀ x ∈ overlay items covers shown layers, x ∈ overlay items covers shown' layers := by
    intro layers
    induction layers with
    | nil => exact fun h => h
    | cons l layers ih =>
      intro shown shown' h x hx
      refine ih (fun y hy => ?_) x hx
      rw [mem_cover] at hy ⊢
      exact hy.imp_left (And.imp_left (h y))
  induction layers with
  | nil => exact fun h => h
  | cons l layers ih =>
    intro s h
    exact hmono (hstep s l) x (ih h)

/-- What is there to the end. -/
theorem mem_overlay {layers : List Λ} : x ∈ overlay items covers shown layers ↔
    (x ∈ shown ∧ ∀ l ∈ layers, ¬ covers l x) ∨
      ∃ (i : ℕ) (l : Λ), layers[i]? = some l ∧ x ∈ items l ∧
        ∀ j > i, ∀ above, layers[j]? = some above → ¬ covers above x := by
  induction layers generalizing shown with
  | nil => simp
  | cons l layers ih =>
    rw [overlay_cons, ih, mem_cover]
    constructor
    · rintro (⟨⟨hx, hl⟩ | hx, hlayers⟩ | ⟨i, l', hi, hx, habove⟩)
      · exact .inl ⟨hx, by simpa using ⟨hl, hlayers⟩⟩
      · refine .inr ⟨0, l, rfl, hx, fun j hj above habove => ?_⟩
        obtain ⟨j, rfl⟩ := Nat.exists_eq_succ_of_ne_zero (Nat.ne_of_gt hj)
        exact hlayers above (List.mem_of_getElem? habove)
      · refine .inr ⟨i + 1, l', hi, hx, fun j hj above hj' => ?_⟩
        obtain ⟨j, rfl⟩ := Nat.exists_eq_succ_of_ne_zero (Nat.ne_of_gt (Nat.zero_lt_of_lt hj))
        exact habove j (by omega) above hj'
    · rintro (⟨hx, hlayers⟩ | ⟨i, l', hi, hx, habove⟩)
      · obtain ⟨hl, hlayers⟩ := List.forall_mem_cons.mp hlayers
        exact .inl ⟨.inl ⟨hx, hl⟩, hlayers⟩
      · cases i with
        | zero =>
          obtain rfl : l = l' := by simpa using hi
          refine .inl ⟨.inr hx, fun above hmem => ?_⟩
          obtain ⟨j, hj⟩ := List.mem_iff_getElem?.mp hmem
          exact habove (j + 1) (Nat.succ_pos j) above hj
        | succ i =>
          exact .inr ⟨i, l', hi, hx, fun j hj above hj' =>
            habove (j + 1) (Nat.succ_lt_succ hj) above hj'⟩

/-- Over the first layer, an item is there where no layer above its own covers it. -/
theorem mem_overlay_items {first : Λ} {layers : List Λ} :
    x ∈ overlay items covers (items first) layers ↔
      ∃ (i : ℕ) (l : Λ), (first :: layers)[i]? = some l ∧ x ∈ items l ∧
        ∀ j > i, ∀ above, (first :: layers)[j]? = some above → ¬ covers above x := by
  have hfirst : overlay items covers (items first) layers =
      overlay items covers [] (first :: layers) := by
    simp [overlay_cons, cover]
  rw [hfirst, mem_overlay]
  simp

theorem mem_foldl_iff {σ : Type*} {step : σ → Λ → σ} {content : σ → List ι}
    (hstep : ∀ s l x, x ∈ content (step s l) ↔ x ∈ cover items covers (content s) l)
    {layers : List Λ} : ∀ {s : σ}, x ∈ content (layers.foldl step s) ↔
      x ∈ overlay items covers (content s) layers := by
  induction layers with
  | nil => exact Iff.rfl
  | cons l layers ih =>
    intro s
    rw [List.foldl_cons, ih, overlay_cons, mem_overlay, mem_overlay]
    simp only [hstep]

end Layers
