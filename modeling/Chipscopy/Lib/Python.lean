import Mathlib

/-! Python values

    The part of Python's built-in semantics that the models rest on: the exceptions a function may
    raise, and dictionaries, which keep their keys distinct and in order of first insertion. A
    fallible function returns `Except Py.Error`; a dictionary carries the distinctness of its keys,
    so a lookup has one answer. -/

namespace Py

/-- The built-in exceptions a function may raise, with the message where the code gives one. -/
inductive Error
  | valueError (msg : String)
  | indexError
  | zeroDivisionError
  | keyError (msg : String)
  | typeError (msg : String)
  | assertionError (msg : String)
  | attributeError (msg : String)
  | bufferError (msg : String)
  | overflowError (msg : String)
  | structError
  deriving DecidableEq, Repr

section Entries

variable {κ υ : Type*} [DecidableEq κ]

/-- First value stored under a key in a list of entries. -/
def lookup (k : κ) : List (κ × υ) → Option υ
  | [] => none
  | e :: es => if e.1 = k then some e.2 else lookup k es

/-- Store a value: in place for a known key, at the end for a new one. -/
def store (k : κ) (v : υ) : List (κ × υ) → List (κ × υ)
  | [] => [(k, v)]
  | e :: es => if e.1 = k then (e.1, v) :: es else e :: store k v es

theorem lookup_store_self (k : κ) (v : υ) :
    ∀ es : List (κ × υ), lookup k (store k v es) = some v
  | [] => by simp [store, lookup]
  | e :: es => by
    by_cases h : e.1 = k
    · simp [store, lookup, h]
    · simp [store, lookup, h, lookup_store_self k v es]

theorem lookup_store_ne {k k' : κ} (hne : k' ≠ k) (v : υ) :
    ∀ es : List (κ × υ), lookup k' (store k v es) = lookup k' es
  | [] => by simp [store, lookup, hne.symm]
  | e :: es => by
    by_cases h : e.1 = k
    · have hk : e.1 ≠ k' := fun hk => hne (hk.symm.trans h)
      simp [store, lookup, h, h ▸ hk]
    · by_cases h' : e.1 = k'
      · simp [store, lookup, h', hne]
      · simp [store, lookup, h, h', lookup_store_ne hne v es]

theorem keys_store (k : κ) (v : υ) : ∀ es : List (κ × υ),
    (store k v es).map (·.1) = if k ∈ es.map (·.1) then es.map (·.1) else es.map (·.1) ++ [k]
  | [] => by simp [store]
  | e :: es => by
    by_cases h : e.1 = k
    · simp [store, h]
    · have h' : k ≠ e.1 := fun h' => h h'.symm
      simp only [store, h, if_false, List.map_cons, keys_store k v es, List.mem_cons, h', false_or]
      split <;> simp

/-- A new key comes last. -/
theorem store_of_notMem {k : κ} (v : υ) {es : List (κ × υ)} (h : k ∉ es.map (·.1)) :
    store k v es = es ++ [(k, v)] := by
  induction es with
  | nil => rfl
  | cons e es ih =>
    obtain ⟨hne, hes⟩ : k ≠ e.1 ∧ k ∉ es.map (·.1) := by simpa using h
    rw [store, if_neg (Ne.symm hne), ih hes, List.cons_append]

theorem nodup_keys_store (k : κ) (v : υ) {es : List (κ × υ)} (h : (es.map (·.1)).Nodup) :
    ((store k v es).map (·.1)).Nodup := by
  rw [keys_store]
  split
  · exact h
  · next hk => exact List.Nodup.append h (List.nodup_singleton k) (by simpa using hk)

theorem lookup_eq_none_iff (k : κ) : ∀ es : List (κ × υ),
    lookup k es = none ↔ k ∉ es.map (·.1)
  | [] => by simp [lookup]
  | e :: es => by
    by_cases h : e.1 = k
    · simp [lookup, h]
    · have h' : k ≠ e.1 := fun h' => h h'.symm
      simp only [lookup, h, if_false, List.map_cons, List.mem_cons, h', false_or]
      exact lookup_eq_none_iff k es

theorem lookup_eq_some_iff {k : κ} {v : υ} : ∀ {es : List (κ × υ)}, (es.map (·.1)).Nodup →
    (lookup k es = some v ↔ (k, v) ∈ es)
  | [], _ => by simp [lookup]
  | e :: es, h => by
    obtain ⟨hnot, htail⟩ := List.nodup_cons.mp h
    by_cases hk : e.1 = k
    · subst hk
      have hes : (e.1, v) ∉ es := fun hm => hnot (List.mem_map_of_mem (f := (·.1)) hm)
      simp only [lookup, if_true, Option.some.injEq, List.mem_cons, hes, or_false]
      constructor
      · rintro rfl; rfl
      · intro he; exact congrArg Prod.snd he.symm
    · have hne : (k, v) ≠ e := fun he => hk (congrArg Prod.fst he).symm
      simp only [lookup, hk, if_false, List.mem_cons, hne, false_or]
      exact lookup_eq_some_iff htail

end Entries

section Forall₂

variable {α β γ : Type*} {R : α → β → Prop} {S : β → γ → Prop} {T : α → γ → Prop}

theorem forall₂_comp (h : ∀ a b c, R a b → S b c → T a c) : ∀ {l : List α} {l' : List β}
    {l'' : List γ}, List.Forall₂ R l l' → List.Forall₂ S l' l'' → List.Forall₂ T l l''
  | _, _, _, .nil, .nil => .nil
  | _, _, _, .cons hr hrs, .cons hs hss => .cons (h _ _ _ hr hs) (forall₂_comp h hrs hss)

theorem forall₂_getElem? : ∀ {l : List α} {l' : List β}, List.Forall₂ R l l' →
    ∀ {i : ℕ} {a : α}, l[i]? = some a → ∃ b, l'[i]? = some b ∧ R a b
  | _, _, .nil, i, a, h => by simp at h
  | _, _, .cons hr _, 0, a, h => by
    rw [List.getElem?_cons_zero, Option.some_inj] at h
    exact ⟨_, List.getElem?_cons_zero, h ▸ hr⟩
  | _, _, .cons _ hrs, i + 1, a, h => by
    rw [List.getElem?_cons_succ] at h
    simpa only [List.getElem?_cons_succ] using forall₂_getElem? hrs h

end Forall₂

section Lists

variable {α β : Type*}

/-- A slice bound: negative counts from the end, and both ends stop it. -/
def sliceIndex (n : ℕ) (i : ℤ) : ℕ := if i < 0 then (i + n).toNat else min i.toNat n

/-- `l[a:b]`. -/
def slice (l : List α) (a b : ℤ) : List α :=
  (l.take (sliceIndex l.length b)).drop (sliceIndex l.length a)

/-- `l[a:b]` for bounds that are not negative. -/
def segment (l : List α) (a b : ℕ) : List α := (l.take b).drop a

@[simp] theorem length_segment (l : List α) (a b : ℕ) :
    (segment l a b).length = min b l.length - a := by
  rw [segment, List.length_drop, List.length_take]

theorem getElem?_segment (l : List α) (a b i : ℕ) :
    (segment l a b)[i]? = if a + i < b then l[a + i]? else none := by
  rw [segment, List.getElem?_drop, List.getElem?_take]

/-- `l[a:b] = new` for bounds in order that are not negative. -/
def setSegment (l : List α) (a b : ℕ) (new : List α) : List α := l.take a ++ new ++ l.drop b

/-- A slice that lies in the list keeps its place, whatever is written to it. -/
theorem length_setSegment {l : List α} {a b : ℕ} {new : List α} (hab : a ≤ b)
    (hb : b ≤ l.length) (hnew : new.length = b - a) : (setSegment l a b new).length = l.length := by
  rw [setSegment, List.length_append, List.length_append, List.length_take, List.length_drop, hnew]
  omega

theorem getElem?_setSegment {l new : List α} {a : ℕ} (h : a + new.length ≤ l.length) (j : ℕ) :
    (setSegment l a (a + new.length) new)[j]? =
      if a ≤ j ∧ j < a + new.length then new[j - a]? else l[j]? := by
  have htake : (l.take a).length = a := by
    rw [List.length_take]
    omega
  rw [setSegment, List.append_assoc]
  by_cases hlo : a ≤ j
  · rw [List.getElem?_append_right (by omega), htake]
    by_cases hhi : j < a + new.length
    · rw [if_pos ⟨hlo, hhi⟩, List.getElem?_append_left (by omega)]
    · rw [if_neg (fun hj => hhi hj.2), List.getElem?_append_right (by omega), List.getElem?_drop]
      congr 1
      omega
  · rw [if_neg (fun hj => hlo hj.1), List.getElem?_append_left (by omega),
      List.getElem?_take_of_lt (by omega)]

/-- `l[i]`: a negative index counts from the end. -/
def index (l : List α) (i : ℤ) : Except Error α :=
  match if 0 ≤ i ∨ 0 ≤ i + l.length then l[(if i < 0 then i + l.length else i).toNat]? else none with
  | some a => .ok a
  | none => .error .indexError

theorem index_natCast {l : List α} {i : ℕ} {a : α} (h : l[i]? = some a) :
    index l (i : ℤ) = .ok a := by
  rw [index, if_pos (Or.inl (Int.natCast_nonneg i)), if_neg (by omega), Int.toNat_natCast, h]

theorem index_natCast_eq_ok_iff {l : List α} {i : ℕ} {a : α} :
    index l (i : ℤ) = .ok a ↔ l[i]? = some a := by
  constructor
  · intro h
    rw [index, if_pos (Or.inl (Int.natCast_nonneg i)), if_neg (by omega), Int.toNat_natCast] at h
    cases hget : l[i]? with
    | none => rw [hget] at h; cases h
    | some b =>
      rw [hget] at h
      rw [Except.ok.inj h]
  · exact index_natCast

/-- `l[a:b] = new` of a `list` or a `bytearray`, which changes its length with the slice. -/
def setSlice (l : List α) (a b : ℤ) (new : List α) : List α :=
  let first := sliceIndex l.length a
  l.take first ++ new ++ l.drop (max first (sliceIndex l.length b))

theorem sliceIndex_natCast {n i : ℕ} (h : i ≤ n) : sliceIndex n (i : ℤ) = i := by
  rw [sliceIndex, if_neg (by omega), Int.toNat_natCast, Nat.min_eq_left h]

theorem sliceIndex_natCast_eq_min (n i : ℕ) : sliceIndex n (i : ℤ) = min i n := by
  rw [sliceIndex, if_neg (by omega), Int.toNat_natCast]

theorem slice_eq_segment (l : List α) {a b : ℕ} (hab : a ≤ b) (h : b ≤ l.length) :
    slice l a b = segment l a b := by
  rw [slice, sliceIndex_natCast h, sliceIndex_natCast (hab.trans h), segment]

theorem setSlice_eq_setSegment (l : List α) {a b : ℕ} (hab : a ≤ b) (h : b ≤ l.length)
    (new : List α) : setSlice l a b new = setSegment l a b new := by
  rw [setSlice, sliceIndex_natCast h, sliceIndex_natCast (hab.trans h), Nat.max_eq_right hab,
    setSegment]

theorem slice_natCast (l : List α) {a b : ℕ} (h : b ≤ l.length) :
    slice l a b = (l.take b).drop (min a l.length) := by
  have hb : sliceIndex l.length (b : ℤ) = b := by
    rw [sliceIndex, if_neg (by omega), Int.toNat_natCast, Nat.min_eq_left h]
  have ha : sliceIndex l.length (a : ℤ) = min a l.length := by
    rw [sliceIndex, if_neg (by omega), Int.toNat_natCast]
  rw [slice, ha, hb]

theorem length_setSlice (l : List α) (a b : ℤ) (new : List α) :
    (setSlice l a b new).length = sliceIndex l.length a + new.length +
      (l.length - max (sliceIndex l.length a) (sliceIndex l.length b)) := by
  have hle : sliceIndex l.length a ≤ l.length := by
    rw [sliceIndex]
    split <;> omega
  rw [setSlice, List.length_append, List.length_append, List.length_take, List.length_drop,
    Nat.min_eq_left hle]

/-- Position in a concatenation of lists of one length. -/
theorem getElem?_flatMap_of_length {f : α → List β} {n : ℕ} (hlen : ∀ a, (f a).length = n) :
    ∀ (l : List α) (i : ℕ) {j : ℕ}, j < n →
      (l.flatMap f)[i * n + j]? = l[i]?.bind fun a => (f a)[j]?
  | [], i, j, _ => by simp
  | a :: as, 0, j, hj => by
    rw [List.flatMap_cons, Nat.zero_mul, Nat.zero_add, List.getElem?_append_left (hlen a ▸ hj)]
    rfl
  | a :: as, i + 1, j, hj => by
    have hidx : (i + 1) * n + j = (f a).length + (i * n + j) := by rw [hlen]; ring
    rw [List.flatMap_cons, hidx, List.getElem?_append_right (Nat.le_add_right _ _),
      Nat.add_sub_cancel_left, getElem?_flatMap_of_length hlen as i hj, List.getElem?_cons_succ]

end Lists

section Except

variable {α β σ ε : Type*} {α' β' : Type}

theorem ok_bind (a : α') (f : α' → Except ε β') : ((.ok a : Except ε α') >>= f) = f a := rfl

theorem error_bind (e : ε) (f : α' → Except ε β') : ((.error e : Except ε α') >>= f) = .error e := rfl

/-- A computation that returns came through its first part. -/
theorem bind_eq_ok {x : Except ε α'} {f : α' → Except ε β'} {b : β'} (h : x >>= f = .ok b) :
    ∃ a, x = .ok a ∧ f a = .ok b := by
  cases x with
  | error e => cases h
  | ok a => exact ⟨a, rfl, h⟩

/-- A loop over the items whose body does not raise. -/
theorem foldlM_eq_ok {f : β' → α → Except ε β'} {g : β' → α → β'} : ∀ {l : List α} (s : β'),
    (∀ s, ∀ a ∈ l, f s a = .ok (g s a)) → l.foldlM f s = .ok (l.foldl g s)
  | [], _, _ => rfl
  | a :: l, s, h => by
    rw [List.foldlM_cons, h s a List.mem_cons_self, ok_bind, List.foldl_cons]
    exact foldlM_eq_ok _ fun s a ha => h s a (List.mem_cons_of_mem _ ha)

/-- What every step of a loop preserves holds when the loop has ended. -/
theorem foldlM_invariant {f : β' → α → Except ε β'} {P : β' → Prop} : ∀ {l : List α} {s s' : β'},
    (∀ s a s', a ∈ l → P s → f s a = .ok s' → P s') → P s → l.foldlM f s = .ok s' → P s'
  | [], _, _, _, hs, h => by cases h; exact hs
  | a :: l, s, s', hstep, hs, h => by
    rw [List.foldlM_cons] at h
    obtain ⟨t, hfirst, hrest⟩ := bind_eq_ok h
    exact foldlM_invariant (fun s a s' ha => hstep s a s' (List.mem_cons_of_mem _ ha))
      (hstep s a t List.mem_cons_self hs hfirst) hrest

/-- Checks of all items. -/
theorem forM_eq_ok_iff {check : α → Except ε Unit} (l : List α) :
    l.forM check = .ok () ↔ ∀ a ∈ l, check a = .ok () := by
  induction l with
  | nil => exact iff_of_true rfl (by simp)
  | cons a l ih =>
    have hcons : (a :: l).forM check = check a >>= fun _ => l.forM check := rfl
    rw [hcons, List.forall_mem_cons, ← ih]
    cases ha : check a with
    | error e =>
      refine iff_of_false (fun h => ?_) fun h => ?_
      · cases h
      · cases h.1
    | ok u => simp [ok_bind]

/-- `[f(a) for a in l]` with a function that may raise. -/
def mapExcept (f : α → Except ε β) : List α → Except ε (List β)
  | [] => .ok []
  | a :: as =>
    match f a with
    | .error e => .error e
    | .ok b =>
      match mapExcept f as with
      | .error e => .error e
      | .ok bs => .ok (b :: bs)

theorem forall₂_of_mapExcept_ok {f : α → Except ε β} : ∀ {l : List α} {l' : List β},
    mapExcept f l = .ok l' → List.Forall₂ (fun a b => f a = .ok b) l l'
  | [], l', h => by cases h; exact List.Forall₂.nil
  | a :: as, l', h => by
    simp only [mapExcept] at h
    split at h
    · cases h
    · next b hb =>
      split at h
      · cases h
      · next bs hbs => cases h; exact List.Forall₂.cons hb (forall₂_of_mapExcept_ok hbs)

/-- The loop returns where every call does. -/
theorem exists_mapExcept_iff {f : α → Except ε β} {l : List α} :
    (∃ bs, mapExcept f l = .ok bs) ↔ ∀ a ∈ l, ∃ b, f a = .ok b := by
  induction l with
  | nil => exact iff_of_true ⟨[], rfl⟩ (by simp)
  | cons a l ih =>
    rw [List.forall_mem_cons, ← ih]
    constructor
    · rintro ⟨bs, h⟩
      rw [mapExcept] at h
      split at h
      · cases h
      · next b hb =>
        split at h
        · cases h
        · next bs' hbs => exact ⟨⟨b, hb⟩, bs', hbs⟩
    · rintro ⟨⟨b, hb⟩, bs, hbs⟩
      exact ⟨b :: bs, by simp only [mapExcept, hb, hbs]⟩

theorem mapExcept_map {γ : Type*} (f : α → Except ε β) (g : γ → α) : ∀ l : List γ,
    mapExcept f (l.map g) = mapExcept (fun c => f (g c)) l
  | [] => rfl
  | c :: cs => by simp only [List.map_cons, mapExcept, mapExcept_map f g cs]

/-- A loop whose calls do not raise. -/
theorem mapExcept_eq_ok {f : α → Except ε β} {g : α → β} : ∀ {l : List α},
    (∀ a ∈ l, f a = .ok (g a)) → mapExcept f l = .ok (l.map g)
  | [], _ => rfl
  | a :: as, h => by
    obtain ⟨ha, has⟩ := List.forall_mem_cons.mp h
    simp only [mapExcept, ha, mapExcept_eq_ok has, List.map_cons]

theorem mapExcept_congr {f g : α → Except ε β} : ∀ {l : List α}, (∀ a ∈ l, f a = g a) →
    mapExcept f l = mapExcept g l
  | [], _ => rfl
  | a :: as, h => by
    obtain ⟨ha, has⟩ := List.forall_mem_cons.mp h
    simp only [mapExcept, ha, mapExcept_congr has]

theorem mapExcept_map_ok {γ : Type*} (f : α → Except ε β) (g : β → γ) : ∀ l : List α,
    mapExcept (fun a => (f a).map g) l = (mapExcept f l).map (List.map g)
  | [] => rfl
  | a :: as => by
    simp only [mapExcept, mapExcept_map_ok f g as]
    cases f a with
    | error e => rfl
    | ok b => cases mapExcept f as <;> rfl

/-- A loop with calls that raise one error only. -/
theorem mapExcept_error {f : α → Except ε β} {e : ε} : ∀ {l : List α},
    (∀ a ∈ l, ∀ e', f a = .error e' → e' = e) → (∃ a ∈ l, f a = .error e) →
    mapExcept f l = .error e
  | a :: as, hall, ⟨x, hx, hfx⟩ => by
    obtain ⟨ha, has⟩ := List.forall_mem_cons.mp hall
    rw [mapExcept]
    cases hfa : f a with
    | error e' => rw [ha e' hfa]
    | ok b =>
      have hx' : x ∈ as := by
        rcases List.mem_cons.mp hx with rfl | hx
        · rw [hfa] at hfx
          cases hfx
        · exact hx
      simp only [mapExcept_error has ⟨x, hx', hfx⟩]

/-- The same loop with a state that every call may change. -/
def mapAccum (f : σ → α → Except ε (σ × β)) : σ → List α → Except ε (σ × List β)
  | s, [] => .ok (s, [])
  | s, a :: as =>
    match f s a with
    | .error e => .error e
    | .ok (s₁, b) =>
      match mapAccum f s₁ as with
      | .error e => .error e
      | .ok (s₂, bs) => .ok (s₂, b :: bs)

theorem mapAccum_cons_ok {f : σ → α → Except ε (σ × β)} {s s' : σ} {a : α} {as : List α}
    {l : List β} (h : mapAccum f s (a :: as) = .ok (s', l)) :
    ∃ s₁ b bs, f s a = .ok (s₁, b) ∧ mapAccum f s₁ as = .ok (s', bs) ∧ l = b :: bs := by
  simp only [mapAccum] at h
  split at h
  · cases h
  · next s₁ b hb =>
    split at h
    · cases h
    · next s₂ bs hbs => cases h; exact ⟨s₁, b, bs, hb, hbs, rfl⟩

/-- Run rule: when the state only grows, and a call establishes something that growth preserves,
    then the final state has it for every call of the loop. -/
theorem mapAccum_invariant {f : σ → α → Except ε (σ × β)} (Grows : σ → σ → Prop)
    (Done : σ → α → β → Prop) (hrefl : ∀ s, Grows s s)
    (htrans : ∀ s₁ s₂ s₃, Grows s₁ s₂ → Grows s₂ s₃ → Grows s₁ s₃)
    (hmono : ∀ s₁ s₂ a b, Grows s₁ s₂ → Done s₁ a b → Done s₂ a b)
    (hstep : ∀ s₁ s₂ a b, f s₁ a = .ok (s₂, b) → Grows s₁ s₂ ∧ Done s₂ a b) :
    ∀ {l : List α} {s s' : σ} {l' : List β}, mapAccum f s l = .ok (s', l') →
      Grows s s' ∧ List.Forall₂ (Done s') l l'
  | [], s, s', l', h => by cases h; exact ⟨hrefl s, List.Forall₂.nil⟩
  | a :: as, s, s', l', h => by
    obtain ⟨s₁, b, bs, hb, hbs, rfl⟩ := mapAccum_cons_ok h
    obtain ⟨hg, hd⟩ := hstep _ _ _ _ hb
    obtain ⟨hg', hds⟩ := mapAccum_invariant Grows Done hrefl htrans hmono hstep hbs
    exact ⟨htrans _ _ _ hg hg', List.Forall₂.cons (hmono _ _ _ _ hg' hd) hds⟩

end Except

/-- A `dict`: entries in order of insertion, one per key. -/
structure Dict (κ υ : Type*) where
  entries : List (κ × υ)
  nodup : (entries.map (·.1)).Nodup

namespace Dict

variable {κ υ : Type*} [DecidableEq κ]

instance [DecidableEq υ] : DecidableEq (Dict κ υ) := fun a b =>
  decidable_of_iff (a.entries = b.entries) (by cases a; cases b; simp)

/-- The empty dictionary. -/
def empty : Dict κ υ := ⟨[], List.nodup_nil⟩

/-- `d.get(k)`. -/
def get? (d : Dict κ υ) (k : κ) : Option υ := lookup k d.entries

/-- `d[k] = v`. -/
def set (d : Dict κ υ) (k : κ) (v : υ) : Dict κ υ := ⟨store k v d.entries, nodup_keys_store k v d.nodup⟩

/-- `d.pop(k, None)`. -/
def erase (d : Dict κ υ) (k : κ) : Dict κ υ where
  entries := d.entries.filter fun e => e.1 ≠ k
  nodup := d.nodup.sublist (List.Sublist.map _ List.filter_sublist)

/-- `len(d)`. -/
def size (d : Dict κ υ) : ℕ := d.entries.length

/-- `d.keys()`, in order of insertion. -/
def keys (d : Dict κ υ) : List κ := d.entries.map (·.1)

/-- `d.values()`, in order of insertion. -/
def values (d : Dict κ υ) : List υ := d.entries.map (·.2)

@[simp] theorem get?_empty (k : κ) : (empty : Dict κ υ).get? k = none := rfl

@[simp] theorem get?_set_self (d : Dict κ υ) (k : κ) (v : υ) : (d.set k v).get? k = some v :=
  lookup_store_self k v d.entries

theorem get?_set_ne (d : Dict κ υ) {k k' : κ} (hne : k' ≠ k) (v : υ) :
    (d.set k v).get? k' = d.get? k' := lookup_store_ne hne v d.entries

theorem get?_set (d : Dict κ υ) (k : κ) (v : υ) (k' : κ) :
    (d.set k v).get? k' = if k' = k then some v else d.get? k' := by
  rcases eq_or_ne k' k with rfl | hne
  · rw [get?_set_self, if_pos rfl]
  · rw [get?_set_ne d hne, if_neg hne]

theorem get?_eq_some_iff (d : Dict κ υ) {k : κ} {v : υ} :
    d.get? k = some v ↔ (k, v) ∈ d.entries := lookup_eq_some_iff d.nodup

theorem get?_eq_none_iff (d : Dict κ υ) {k : κ} : d.get? k = none ↔ k ∉ d.keys :=
  lookup_eq_none_iff k d.entries

@[simp] theorem get?_erase_self (d : Dict κ υ) (k : κ) : (d.erase k).get? k = none := by
  rw [get?_eq_none_iff]
  simp [keys, erase]

theorem get?_erase_ne (d : Dict κ υ) {k k' : κ} (hne : k' ≠ k) :
    (d.erase k).get? k' = d.get? k' := by
  refine Option.ext fun v => ?_
  rw [get?_eq_some_iff, get?_eq_some_iff]
  simp [erase, hne]

theorem get?_erase (d : Dict κ υ) (k k' : κ) :
    (d.erase k).get? k' = if k' = k then none else d.get? k' := by
  rcases eq_or_ne k' k with rfl | hne
  · rw [get?_erase_self, if_pos rfl]
  · rw [get?_erase_ne d hne, if_neg hne]

theorem size_erase_lt (d : Dict κ υ) {k : κ} {v : υ} (h : d.get? k = some v) :
    (d.erase k).size < d.size := by
  refine List.length_filter_lt_length_iff_exists.mpr ⟨(k, v), (get?_eq_some_iff d).mp h, ?_⟩
  simp

theorem keys_set (d : Dict κ υ) (k : κ) (v : υ) :
    (d.set k v).keys = if k ∈ d.keys then d.keys else d.keys ++ [k] := keys_store k v d.entries

/-- `d.update(es)`. -/
def update (d : Dict κ υ) (es : List (κ × υ)) : Dict κ υ := es.foldl (fun d e => d.set e.1 e.2) d

/-- `{k: f(v) for k, v in d.items()}`. -/
def map {ω : Type*} (f : υ → ω) (d : Dict κ υ) : Dict κ ω where
  entries := d.entries.map fun e => (e.1, f e.2)
  nodup := by simpa [Function.comp_def] using d.nodup

/-- New keys come one after the other. -/
theorem entries_update {es : List (κ × υ)} {d : Dict κ υ}
    (h : ((d.entries ++ es).map (·.1)).Nodup) : (d.update es).entries = d.entries ++ es := by
  induction es generalizing d with
  | nil => exact (List.append_nil _).symm
  | cons e es ih =>
    have hnew : e.1 ∉ d.entries.map (·.1) := by
      intro hmem
      rw [List.map_append, List.nodup_append] at h
      exact h.2.2 _ hmem _ List.mem_cons_self rfl
    have hset : (d.set e.1 e.2).entries = d.entries ++ [e] := store_of_notMem e.2 hnew
    have hih := ih (d := d.set e.1 e.2) (by simpa [hset] using h)
    rw [hset, List.append_assoc] at hih
    exact hih

/-- The entries of a dictionary make the dictionary again. -/
theorem update_entries (d : Dict κ υ) : empty.update d.entries = d := by
  have h : (empty.update d.entries).entries = d.entries :=
    entries_update (d := (empty : Dict κ υ)) d.nodup
  cases d
  exact Dict.mk.injEq .. ▸ h

/-- Storing again what is there changes no lookup. -/
theorem get?_update_of_same (es : List (κ × υ)) {d : Dict κ υ}
    (h : ∀ e ∈ es, d.get? e.1 = some e.2) (k : κ) : (d.update es).get? k = d.get? k := by
  have hall : ∀ (es : List (κ × υ)) {d' : Dict κ υ}, (∀ k, d'.get? k = d.get? k) →
      (∀ e ∈ es, d.get? e.1 = some e.2) → (d'.update es).get? k = d.get? k := by
    intro es
    induction es with
    | nil => exact fun hsame _ => hsame k
    | cons e es ih =>
      intro d' hsame hes
      have hset : ∀ k', (d'.set e.1 e.2).get? k' = d.get? k' := by
        intro k'
        rw [get?_set, hsame]
        split_ifs with hk
        · rw [hk, hes e List.mem_cons_self]
        · rfl
      exact ih hset fun e' he' => hes e' (List.mem_cons_of_mem _ he')
  exact hall es (fun _ => rfl) h

theorem get?_update_of_notMem : ∀ (es : List (κ × υ)) (d : Dict κ υ) {k : κ},
    k ∉ es.map (·.1) → (d.update es).get? k = d.get? k
  | [], _, _, _ => rfl
  | e :: es, d, k, h => by
    obtain ⟨hne, hes⟩ : k ≠ e.1 ∧ k ∉ es.map (·.1) := by simpa using h
    exact (get?_update_of_notMem es (d.set e.1 e.2) hes).trans (get?_set_ne d hne e.2)

/-- A key whose writes all agree. -/
theorem get?_update_of_mem : ∀ (es : List (κ × υ)) (d : Dict κ υ) {k : κ} {v : υ},
    (k, v) ∈ es → (∀ e ∈ es, e.1 = k → e.2 = v) → (d.update es).get? k = some v
  | e :: es, d, k, v, hmem, hall => by
    obtain ⟨he, hes⟩ := List.forall_mem_cons.mp hall
    by_cases hk : k ∈ es.map (·.1)
    · obtain ⟨e', he', rfl⟩ := List.mem_map.mp hk
      have hv : e'.2 = v := hes e' he' rfl
      exact get?_update_of_mem es (d.set e.1 e.2) (by rw [← hv]; exact he') hes
    · rcases List.mem_cons.mp hmem with rfl | hmem
      · exact (get?_update_of_notMem es _ hk).trans (get?_set_self d k v)
      · exact absurd (List.mem_map_of_mem (f := (·.1)) hmem) hk

/-- The last value written under a key is the one that stays. -/
theorem get?_update_append_cons (d : Dict κ υ) (es es' : List (κ × υ)) {k : κ} (v : υ)
    (h : k ∉ es'.map (·.1)) : (d.update (es ++ (k, v) :: es')).get? k = some v := by
  rw [update, List.foldl_append, List.foldl_cons]
  exact (get?_update_of_notMem es' _ h).trans (get?_set_self _ k v)

/-- What stays under a key is the last value written under it. -/
theorem get?_update_eq_some : ∀ (es : List (κ × υ)) (d : Dict κ υ) {k : κ} {v : υ},
    (d.update es).get? k = some v → (d.get? k = some v ∧ k ∉ es.map (·.1)) ∨
      ∃ before after, es = before ++ (k, v) :: after ∧ k ∉ after.map (·.1)
  | [], _, _, _, h => Or.inl ⟨h, List.not_mem_nil⟩
  | e :: es, d, k, v, h => by
    rcases get?_update_eq_some es (d.set e.1 e.2) h with ⟨hget, hes⟩ | ⟨before, after, rfl, hafter⟩
    · by_cases hk : k = e.1
      · subst hk
        rw [get?_set_self, Option.some_inj] at hget
        exact Or.inr ⟨[], es, by rw [← hget, List.nil_append], hes⟩
      · rw [get?_set_ne d hk] at hget
        exact Or.inl ⟨hget, by simpa [hk] using hes⟩
    · exact Or.inr ⟨e :: before, after, rfl, hafter⟩

/-- Lookup in a dictionary built from a list of entries. -/
theorem get?_update_empty_iff {es : List (κ × υ)} {k : κ} {v : υ} :
    (empty.update es).get? k = some v ↔
      ∃ before after, es = before ++ (k, v) :: after ∧ k ∉ after.map (·.1) := by
  constructor
  · intro h
    rcases get?_update_eq_some es empty h with ⟨hget, -⟩ | hlast
    · cases hget
    · exact hlast
  · rintro ⟨before, after, rfl, hafter⟩
    exact get?_update_append_cons empty before after v hafter

theorem mem_keys_iff {d : Dict κ υ} {k : κ} : k ∈ d.keys ↔ (d.get? k).isSome := by
  rw [← not_iff_not, Option.not_isSome_iff_eq_none, get?_eq_none_iff]

/-- The entries of the second dictionary come first. -/
theorem get?_update_entries (d d' : Dict κ υ) (k : κ) :
    (d.update d'.entries).get? k = (d'.get? k).or (d.get? k) := by
  cases hk : d'.get? k with
  | none =>
    refine get?_update_of_notMem d'.entries d ?_
    exact (get?_eq_none_iff d').mp hk
  | some v =>
    refine get?_update_of_mem d'.entries d ((get?_eq_some_iff d').mp hk) ?_
    rintro ⟨k', v'⟩ he rfl
    have hv' := (get?_eq_some_iff d').mpr he
    exact Option.some.inj (hv'.symm.trans hk)

theorem mem_keys_update : ∀ (es : List (κ × υ)) (d : Dict κ υ) {k : κ},
    k ∈ (d.update es).keys ↔ k ∈ d.keys ∨ k ∈ es.map (·.1)
  | [], _, _ => by simp [update]
  | e :: es, d, k => by
    have hset : k ∈ (d.set e.1 e.2).keys ↔ k ∈ d.keys ∨ k = e.1 := by
      rw [keys_set]
      split
      · next he => exact ⟨Or.inl, fun h => h.elim id fun hk => hk ▸ he⟩
      · rw [List.mem_append, List.mem_singleton]
    have hrest := mem_keys_update es (d.set e.1 e.2) (k := k)
    rw [hset, or_assoc] at hrest
    rw [List.map_cons, List.mem_cons]
    exact hrest

end Dict

end Py
