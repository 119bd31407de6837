import Mathlib

/-! Fields of bits

    A word is made of fields, each with a width and the position of its lowest bit. Fields that share
    no bit are found again in the word that they were packed into, and a word of which every bit is
    in a field is the one that its fields are packed into. Where each field begins at the end of the
    one before it, both hold. -/

namespace BitFields

variable {ι : Type*} (width shift : ι → ℕ)

/-- A bit of a field. -/
def Within (f : ι) (bit : ℕ) : Prop := shift f ≤ bit ∧ bit < shift f + width f

instance (f : ι) (bit : ℕ) : Decidable (Within width shift f bit) := inferInstanceAs (Decidable (_ ∧ _))

/-- Values that are wider than their fields lose the bits above. -/
def pack (value : ι → ℕ) (fields : List ι) : ℕ :=
  fields.foldl (fun word f => word ||| (value f % 2 ^ width f) <<< shift f) 0

def extract (word : ℕ) (f : ι) : ℕ := (word >>> shift f) % 2 ^ width f

/-- Fields without a bit in common. -/
def Apart (f g : ι) : Prop := ∀ bit, Within width shift f bit → ¬ Within width shift g bit

/-- Each field begins where the one before it ends. -/
def Tiles : ℕ → List ι → ℕ → Prop
  | first, [], last => first = last
  | first, f :: fields, last => shift f = first ∧ Tiles (first + width f) fields last

instance decidableTiles : ∀ (first : ℕ) (fields : List ι) (last : ℕ),
    Decidable (Tiles width shift first fields last)
  | first, [], last => inferInstanceAs (Decidable (first = last))
  | first, f :: fields, last =>
    have := decidableTiles (first + width f) fields last
    inferInstanceAs (Decidable (_ ∧ _))

variable {width shift}

theorem Apart.symm {f g : ι} (h : Apart width shift f g) : Apart width shift g f :=
  fun bit hg hf => h bit hf hg

/-- Of fields that are apart, at most one has a bit. -/
theorem eq_of_within {fields : List ι} (h : fields.Pairwise (Apart width shift)) {f g : ι}
    (hf : f ∈ fields) (hg : g ∈ fields) {bit : ℕ} (hin : Within width shift f bit)
    (hgin : Within width shift g bit) : g = f := by
  have : Std.Symm (Apart width shift) := ⟨fun _ _ => Apart.symm⟩
  by_contra hne
  exact h.forall hf hg (Ne.symm hne) bit hin hgin

/-! ### Bits of a packed word -/

theorem pack_congr {value value' : ι → ℕ} {fields : List ι} (h : ∀ f ∈ fields, value f = value' f) :
    pack width shift value fields = pack width shift value' fields :=
  List.foldl_ext _ _ 0 fun word f hf => by rw [h f hf]

theorem testBit_placed (value : ι → ℕ) (f : ι) (bit : ℕ) :
    ((value f % 2 ^ width f) <<< shift f).testBit bit =
      (decide (Within width shift f bit) && (value f).testBit (bit - shift f)) := by
  rw [Nat.testBit_shiftLeft, Nat.testBit_mod_two_pow, ← Bool.and_assoc, ← Bool.decide_and]
  refine congrArg (· && _) (decide_eq_decide.mpr ?_)
  rw [Within]
  omega

theorem testBit_foldl (value : ι → ℕ) (bit : ℕ) (fields : List ι) (word : ℕ) :
    (fields.foldl (fun word f => word ||| (value f % 2 ^ width f) <<< shift f) word).testBit bit =
      (word.testBit bit || fields.any fun f =>
        decide (Within width shift f bit) && (value f).testBit (bit - shift f)) := by
  induction fields generalizing word with
  | nil => simp
  | cons f fields ih =>
    rw [List.foldl_cons, ih, Nat.testBit_or, testBit_placed, List.any_cons, Bool.or_assoc]

/-- A bit comes from the fields that have it. -/
theorem testBit_pack (value : ι → ℕ) (fields : List ι) (bit : ℕ) :
    (pack width shift value fields).testBit bit = fields.any fun f =>
      decide (Within width shift f bit) && (value f).testBit (bit - shift f) := by
  rw [pack, testBit_foldl, Nat.zero_testBit, Bool.false_or]

theorem testBit_extract (word : ℕ) (f : ι) (i : ℕ) :
    (extract width shift word f).testBit i = (decide (i < width f) && word.testBit (shift f + i)) := by
  rw [extract, Nat.testBit_mod_two_pow, Nat.testBit_shiftRight]

theorem extract_lt (word : ℕ) (f : ι) : extract width shift word f < 2 ^ width f :=
  Nat.mod_lt _ (Nat.two_pow_pos _)

/-! ### Round trips -/

/-- A field that shares no bit with the others is found again. -/
theorem extract_pack (value : ι → ℕ) {fields : List ι}
    (hapart : fields.Pairwise (Apart width shift)) {f : ι} (hf : f ∈ fields) :
    extract width shift (pack width shift value fields) f = value f % 2 ^ width f := by
  refine Nat.eq_of_testBit_eq fun i => ?_
  rw [testBit_extract, testBit_pack, Nat.testBit_mod_two_pow]
  rcases Nat.lt_or_ge i (width f) with hi | hi
  · have hin : Within width shift f (shift f + i) := ⟨Nat.le_add_right _ _, by omega⟩
    have hbit : (fields.any fun g => decide (Within width shift g (shift f + i)) &&
        (value g).testBit (shift f + i - shift g)) = (value f).testBit i := by
      rw [Bool.eq_iff_iff, List.any_eq_true]
      constructor
      · rintro ⟨g, hg, hgbit⟩
        obtain ⟨hgin, hset⟩ : Within width shift g (shift f + i) ∧
            (value g).testBit (shift f + i - shift g) = true := by simpa using hgbit
        obtain rfl := eq_of_within hapart hf hg hin hgin
        rwa [Nat.add_sub_cancel_left] at hset
      · intro hset
        exact ⟨f, hf, by simp [hin, hset]⟩
    rw [hbit]
  · have hout : decide (i < width f) = false := decide_eq_false (by omega)
    rw [hout, Bool.false_and, Bool.false_and]

/-- A word of which every bit is in a field is packed from its fields. -/
theorem pack_extract {fields : List ι} {n word : ℕ}
    (hcover : ∀ bit < n, ∃ f ∈ fields, Within width shift f bit) (hword : word < 2 ^ n) :
    pack width shift (extract width shift word) fields = word := by
  refine Nat.eq_of_testBit_eq fun bit => ?_
  rw [testBit_pack, Bool.eq_iff_iff, List.any_eq_true]
  have hplace : ∀ f, Within width shift f bit →
      (extract width shift word f).testBit (bit - shift f) = word.testBit bit := by
    intro f hin
    rw [Within] at hin
    have hlow : decide (bit - shift f < width f) = true := decide_eq_true (by omega)
    rw [testBit_extract, hlow, Bool.true_and, Nat.add_sub_cancel' hin.1]
  constructor
  · rintro ⟨f, -, hbit⟩
    obtain ⟨hin, hset⟩ : Within width shift f bit ∧
        (extract width shift word f).testBit (bit - shift f) = true := by simpa using hbit
    rwa [hplace f hin] at hset
  · intro hset
    have hbound : bit < n := by
      by_contra hge
      have hclear := Nat.testBit_lt_two_pow
        (hword.trans_le (Nat.pow_le_pow_right (by decide) (not_lt.mp hge)))
      exact absurd hset (by simp [hclear])
    obtain ⟨f, hf, hin⟩ := hcover bit hbound
    exact ⟨f, hf, by simp [hin, hplace f hin, hset]⟩

/-! ### Fields one after the other -/

theorem Tiles.le {first last : ℕ} {fields : List ι} (h : Tiles width shift first fields last) :
    first ≤ last := by
  induction fields generalizing first with
  | nil => exact le_of_eq h
  | cons f fields ih => exact (Nat.le_add_right _ _).trans (ih h.2)

theorem Tiles.bounds {first last : ℕ} {fields : List ι}
    (h : Tiles width shift first fields last) :
    ∀ f ∈ fields, first ≤ shift f ∧ shift f + width f ≤ last := by
  induction fields generalizing first with
  | nil => simp
  | cons f fields ih =>
    obtain ⟨hf, hrest⟩ := h
    intro g hg
    rcases List.mem_cons.mp hg with rfl | hg
    · exact ⟨hf.ge, hf ▸ hrest.le⟩
    · exact ⟨(Nat.le_add_right _ _).trans (ih hrest g hg).1, (ih hrest g hg).2⟩

theorem Tiles.pairwise {first last : ℕ} {fields : List ι}
    (h : Tiles width shift first fields last) : fields.Pairwise (Apart width shift) := by
  induction fields generalizing first with
  | nil => exact List.Pairwise.nil
  | cons f fields ih =>
    obtain ⟨hf, hrest⟩ := h
    refine List.pairwise_cons.mpr ⟨fun g hg bit hin hgin => ?_, ih hrest⟩
    have hbound := (hrest.bounds g hg).1
    rw [Within] at hin hgin
    omega

theorem Tiles.cover {first last : ℕ} {fields : List ι}
    (h : Tiles width shift first fields last) {bit : ℕ} (hfirst : first ≤ bit) (hlast : bit < last) :
    ∃ f ∈ fields, Within width shift f bit := by
  induction fields generalizing first with
  | nil =>
    rw [Tiles] at h
    omega
  | cons f fields ih =>
    obtain ⟨hf, hrest⟩ := h
    rcases Nat.lt_or_ge bit (first + width f) with hin | hbehind
    · exact ⟨f, List.mem_cons_self, by rw [Within]; omega⟩
    · obtain ⟨g, hg, hgin⟩ := ih hrest hbehind
      exact ⟨g, List.mem_cons_of_mem _ hg, hgin⟩

/-- Every bit is in one field. -/
theorem Tiles.existsUnique {first last : ℕ} {fields : List ι}
    (h : Tiles width shift first fields last) {bit : ℕ} (hfirst : first ≤ bit) (hlast : bit < last) :
    ∃! f, f ∈ fields ∧ Within width shift f bit := by
  obtain ⟨f, hf, hin⟩ := h.cover hfirst hlast
  exact ⟨f, ⟨hf, hin⟩, fun g hg => eq_of_within h.pairwise hf hg.1 hin hg.2⟩

end BitFields
