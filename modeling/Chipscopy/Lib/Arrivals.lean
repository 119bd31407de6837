import Mathlib

/-! Streams that arrive in pieces

    A reader takes items from a buffer and waits for the next piece where the buffer is empty. The
    pieces may be cut anywhere, and some may be empty. What a reader answers depends on the items
    alone, and an answer stands however many items follow. So frames that are joined are read back
    one by one, and a frame that has arrived in part is not read yet. -/

namespace Arrivals

variable {σ β ε α γ δ ω : Type}

/-! ### Readers -/

/-- A buffer, the pieces that follow, and what else the reader keeps. `none` is a stream that is
    closed. -/
structure Input (σ β : Type) where
  state : σ
  buf : List β
  arrivals : List (Option (List β))

/-- A reader that gives no answer waits for more, or has raised an exception. -/
inductive Stop (ε : Type)
  | waits
  | raised (e : ε)
  deriving DecidableEq

abbrev Reader (σ β ε α : Type) := StateT (Input σ β) (Except (Stop ε)) α

def Input.size (s : Input σ β) : ℕ :=
  s.buf.length + (s.arrivals.map fun piece => (piece.getD []).length + 1).sum

def nextPiece (state : σ) :
    List (Option (List β)) → Except (Stop ε) (Option β × Input σ β)
  | [] => .error .waits
  | none :: arrivals => .ok (none, { state, buf := [], arrivals })
  | some [] :: arrivals => nextPiece state arrivals
  | some (b :: buf) :: arrivals => .ok (some b, { state, buf, arrivals })

/-- The next item, or none where the stream is closed. -/
def next : Reader σ β ε (Option β) := fun s =>
  match s.buf with
  | b :: buf => .ok (some b, { s with buf })
  | [] => nextPiece s.state s.arrivals

def raise (e : ε) : Reader σ β ε α := fun _ => .error (.raised e)

def getState : Reader σ β ε σ := fun s => .ok (s.state, s)

def setState (state : σ) : Reader σ β ε Unit := fun s => .ok ((), { s with state })

/-- Exceptions are caught. The reader is not used any more then. -/
def attempt (x : Reader σ β ε α) : Reader σ β ε (Option α) := fun s =>
  match x s with
  | .ok (a, s') => .ok (some a, s')
  | .error (.raised _) => .ok (none, s)
  | .error .waits => .error .waits

/-- Rounds until one has the answer. Rounds that take nothing would go on for ever. -/
def loop (body : δ → Reader σ β ε (δ ⊕ α)) (d : δ) : Reader σ β ε α := fun s =>
  match body d s with
  | .error e => .error e
  | .ok (.inr a, s') => .ok (a, s')
  | .ok (.inl d', s') => if s'.size < s.size then loop body d' s' else .error .waits
termination_by s => s.size

/-- Items until a round ends the stream. -/
def items (x : Reader σ β ε (ω ⊕ α)) (s : Input σ β) : List ω × Except (Stop ε) α :=
  match x s with
  | .error e => ([], .error e)
  | .ok (.inr a, _) => ([], .ok a)
  | .ok (.inl w, s') =>
    if s'.size < s.size then (w :: (items x s').1, (items x s').2) else ([w], .error .waits)
termination_by s.size

/-! ### Readers that take something -/

/-- Every answer takes an item or a piece. -/
def Shrinks (x : Reader σ β ε α) : Prop :=
  ∀ s a s', x s = .ok (a, s') → s'.size < s.size

/-- No answer gives anything back. -/
def Keeps (x : Reader σ β ε α) : Prop :=
  ∀ s a s', x s = .ok (a, s') → s'.size ≤ s.size

theorem bind_apply (x : Reader σ β ε α) (f : α → Reader σ β ε γ) (s : Input σ β) :
    (x >>= f) s = (x s).bind fun p => f p.1 p.2 := rfl

/-- An answer comes from an answer of the first step. -/
theorem bind_eq_ok {x : Reader σ β ε α} {f : α → Reader σ β ε γ} {s s' : Input σ β} {c : γ}
    (h : (x >>= f) s = .ok (c, s')) : ∃ a s₁, x s = .ok (a, s₁) ∧ f a s₁ = .ok (c, s') := by
  rw [bind_apply] at h
  rcases hx : x s with e | ⟨a, s₁⟩
  · rw [hx] at h
    cases h
  · rw [hx] at h
    exact ⟨a, s₁, rfl, h⟩

theorem bind_of_ok {x : Reader σ β ε α} {f : α → Reader σ β ε γ} {s s₁ : Input σ β} {a : α}
    (h : x s = .ok (a, s₁)) : (x >>= f) s = f a s₁ := by
  rw [bind_apply, h]
  rfl

theorem Shrinks.keeps {x : Reader σ β ε α} (h : Shrinks x) : Keeps x :=
  fun s a s' hx => (h s a s' hx).le

theorem Keeps.bind {x : Reader σ β ε α} {f : α → Reader σ β ε γ} (hx : Keeps x)
    (hf : ∀ a, Keeps (f a)) : Keeps (x >>= f) := fun s c s' h => by
  obtain ⟨a, s₁, hfirst, hrest⟩ := bind_eq_ok h
  exact (hf a s₁ c s' hrest).trans (hx s a s₁ hfirst)

theorem Shrinks.bind {x : Reader σ β ε α} {f : α → Reader σ β ε γ} (hx : Shrinks x)
    (hf : ∀ a, Keeps (f a)) : Shrinks (x >>= f) := fun s c s' h => by
  obtain ⟨a, s₁, hfirst, hrest⟩ := bind_eq_ok h
  exact (hf a s₁ c s' hrest).trans_lt (hx s a s₁ hfirst)

theorem Keeps.pure (a : α) : Keeps (Pure.pure a : Reader σ β ε α) := fun s c s' h => by
  obtain ⟨-, rfl⟩ := Prod.mk.inj (Except.ok.inj h)
  exact le_rfl

theorem Shrinks.raise (e : ε) : Shrinks (Arrivals.raise e : Reader σ β ε α) :=
  fun _ _ _ h => nomatch h

theorem Keeps.getState : Keeps (Arrivals.getState : Reader σ β ε σ) := fun s c s' h => by
  obtain ⟨-, rfl⟩ := Prod.mk.inj (Except.ok.inj h)
  exact le_rfl

theorem Keeps.setState (state : σ) : Keeps (Arrivals.setState state : Reader σ β ε Unit) :=
  fun s c s' h => by
    obtain ⟨-, rfl⟩ := Prod.mk.inj (Except.ok.inj h)
    exact le_rfl

theorem Keeps.attempt {x : Reader σ β ε α} (hx : Keeps x) : Keeps (Arrivals.attempt x) := by
  intro s o s' h
  rw [Arrivals.attempt] at h
  rcases hfirst : x s with (_ | e) | ⟨a, s₁⟩ <;> rw [hfirst] at h
  · cases h
  · obtain ⟨-, rfl⟩ := Prod.mk.inj (Except.ok.inj h)
    exact le_rfl
  · obtain ⟨-, rfl⟩ := Prod.mk.inj (Except.ok.inj h)
    exact hx s a s₁ hfirst

theorem nextPiece_shrinks {state : σ} {arrivals : List (Option (List β))} {o : Option β}
    {s' : Input σ β} (h : nextPiece (ε := ε) state arrivals = .ok (o, s')) :
    s'.size < (arrivals.map fun piece => (piece.getD []).length + 1).sum := by
  induction arrivals with
  | nil => cases h
  | cons piece arrivals ih =>
    rcases piece with _ | ⟨_ | ⟨b, buf⟩⟩
    · obtain ⟨-, rfl⟩ := Prod.mk.inj (Except.ok.inj h)
      simp [Input.size]
    · have hrest := ih h
      simp only [List.map_cons, List.sum_cons]
      omega
    · obtain ⟨-, rfl⟩ := Prod.mk.inj (Except.ok.inj h)
      simp [Input.size]

theorem Shrinks.next : Shrinks (Arrivals.next : Reader σ β ε (Option β)) := fun s o s' h => by
  rw [Arrivals.next] at h
  rcases hbuf : s.buf with _ | ⟨b, buf⟩
  · simp only [hbuf] at h
    have hsize : s.size = (s.arrivals.map fun piece => (piece.getD []).length + 1).sum := by
      simp [Input.size, hbuf]
    exact hsize ▸ nextPiece_shrinks h
  · simp only [hbuf] at h
    obtain ⟨-, rfl⟩ := Prod.mk.inj (Except.ok.inj h)
    simp [Input.size, hbuf]

/-- One round of a loop. -/
theorem loop_eq {body : δ → Reader σ β ε (δ ⊕ α)} (hbody : ∀ d, Shrinks (body d)) (d : δ) :
    loop body d = body d >>= fun r => Sum.elim (loop body) pure r := by
  funext s
  rw [loop, bind_apply]
  rcases hround : body d s with e | ⟨d' | a, s'⟩
  · rfl
  · exact if_pos (hbody d s _ s' hround)
  · rfl

theorem Shrinks.loop {body : δ → Reader σ β ε (δ ⊕ α)} (hbody : ∀ d, Shrinks (body d)) (d : δ) :
    Shrinks (Arrivals.loop body d) := by
  intro s
  induction hn : s.size using Nat.strong_induction_on generalizing s d with
  | h n ih =>
    intro a s' h
    rw [loop_eq hbody] at h
    obtain ⟨r, s₁, hround, hrest⟩ := bind_eq_ok h
    have hless := hn ▸ hbody d s r s₁ hround
    rcases r with d' | a'
    · exact (ih s₁.size hless d' s₁ rfl a s' hrest).trans hless
    · obtain ⟨-, rfl⟩ := Prod.mk.inj (Except.ok.inj hrest)
      exact hless

/-! ### Answers that stand -/

/-- What a reader has, with its pieces joined. -/
structure Input.Holds (s : Input σ β) (state : σ) (rest : List β) : Prop where
  state_eq : s.state = state
  pieces : ∃ pieces : List (List β), s.arrivals = pieces.map some ∧ s.buf ++ pieces.flatten = rest

/-- An answer, or an exception, stands however many items follow. -/
def Stands (x : Reader σ β ε α) : Prop :=
  ∀ ⦃s t : Input σ β⦄ ⦃state : σ⦄ ⦃rest more : List β⦄,
    s.Holds state rest → t.Holds state (rest ++ more) →
    (∀ a s', x s = .ok (a, s') → ∃ state' rest' t', x t = .ok (a, t') ∧
      s'.Holds state' rest' ∧ t'.Holds state' (rest' ++ more)) ∧
    ∀ e, x s = .error (.raised e) → x t = .error (.raised e)

theorem Stands.pure (a : α) : Stands (Pure.pure a : Reader σ β ε α) := by
  intro s t state rest more hs ht
  refine ⟨fun c s' h => ?_, fun e h => nomatch h⟩
  obtain ⟨rfl, rfl⟩ := Prod.mk.inj (Except.ok.inj h)
  exact ⟨state, rest, t, rfl, hs, ht⟩

theorem Stands.raise (e : ε) : Stands (Arrivals.raise e : Reader σ β ε α) := by
  intro s t state rest more hs ht
  exact ⟨fun c s' h => (nomatch h), fun e' h => h⟩

theorem Stands.bind {x : Reader σ β ε α} {f : α → Reader σ β ε γ} (hx : Stands x)
    (hf : ∀ a, Stands (f a)) : Stands (x >>= f) := by
  intro s t state rest more hs ht
  rcases hfirst : x s with (_ | e) | ⟨a, s₁⟩
  · rw [bind_apply, hfirst]
    exact ⟨fun c s' h => (nomatch h), fun e h => (nomatch h)⟩
  · rw [bind_apply, bind_apply, hfirst, (hx hs ht).2 e hfirst]
    exact ⟨fun c s' h => (nomatch h), fun e' h => h⟩
  · obtain ⟨state₁, rest₁, t₁, ht₁, hs₁, hmore⟩ := (hx hs ht).1 a s₁ hfirst
    rw [bind_of_ok hfirst, bind_of_ok ht₁]
    exact hf a hs₁ hmore

theorem Stands.getState : Stands (Arrivals.getState : Reader σ β ε σ) := by
  intro s t state rest more hs ht
  refine ⟨fun c s' h => ?_, fun e h => nomatch h⟩
  obtain ⟨rfl, rfl⟩ := Prod.mk.inj (Except.ok.inj h)
  refine ⟨state, rest, t, ?_, hs, ht⟩
  rw [Arrivals.getState, ht.state_eq, hs.state_eq]

theorem Stands.setState (state' : σ) : Stands (Arrivals.setState state' : Reader σ β ε Unit) := by
  intro s t state rest more hs ht
  refine ⟨fun c s' h => ?_, fun e h => nomatch h⟩
  obtain ⟨-, rfl⟩ := Prod.mk.inj (Except.ok.inj h)
  exact ⟨state', rest, { t with state := state' }, rfl, ⟨rfl, hs.pieces⟩, ⟨rfl, ht.pieces⟩⟩

theorem Stands.attempt {x : Reader σ β ε α} (hx : Stands x) : Stands (Arrivals.attempt x) := by
  intro s t state rest more hs ht
  rw [Arrivals.attempt, Arrivals.attempt]
  rcases hfirst : x s with (_ | e) | ⟨a, s₁⟩
  · exact ⟨fun c s' h => (nomatch h), fun e h => (nomatch h)⟩
  · rw [(hx hs ht).2 e hfirst]
    refine ⟨fun c s' h => ?_, fun e h => (nomatch h)⟩
    obtain ⟨rfl, rfl⟩ := Prod.mk.inj (Except.ok.inj h)
    exact ⟨state, rest, t, rfl, hs, ht⟩
  · obtain ⟨state₁, rest₁, t₁, ht₁, hs₁, hmore⟩ := (hx hs ht).1 a s₁ hfirst
    rw [ht₁]
    refine ⟨fun c s' h => ?_, fun e h => (nomatch h)⟩
    obtain ⟨rfl, rfl⟩ := Prod.mk.inj (Except.ok.inj h)
    exact ⟨state₁, rest₁, t₁, rfl, hs₁, hmore⟩

/-- The next item, whatever the pieces are. -/
theorem next_cons {s : Input σ β} {state : σ} {b : β} {rest : List β}
    (h : s.Holds state (b :: rest)) :
    ∃ s', (next : Reader σ β ε (Option β)) s = .ok (some b, s') ∧ s'.Holds state rest := by
  obtain ⟨hstate, pieces, harrivals, hrest⟩ := h
  rcases hbuf : s.buf with _ | ⟨b', buf⟩
  · rw [hbuf, List.nil_append] at hrest
    simp only [next, hbuf, harrivals, hstate]
    clear harrivals hbuf
    induction pieces with
    | nil => cases hrest
    | cons piece pieces ih =>
      rcases piece with _ | ⟨b', buf⟩
      · exact ih hrest
      · obtain ⟨rfl, htail⟩ := List.cons_eq_cons.mp hrest
        exact ⟨_, rfl, rfl, pieces, rfl, htail⟩
  · rw [hbuf] at hrest
    obtain ⟨rfl, htail⟩ := List.cons_eq_cons.mp hrest
    simp only [next, hbuf]
    exact ⟨_, rfl, hstate, pieces, harrivals, htail⟩

theorem next_nil {s : Input σ β} {state : σ} (h : s.Holds state []) :
    (next : Reader σ β ε (Option β)) s = .error .waits := by
  obtain ⟨-, pieces, harrivals, hrest⟩ := h
  obtain ⟨hbuf, hpieces⟩ := List.append_eq_nil_iff.mp hrest
  simp only [next, hbuf, harrivals]
  clear harrivals hrest
  induction pieces with
  | nil => rfl
  | cons piece pieces ih =>
    obtain ⟨rfl, hrest⟩ := List.append_eq_nil_iff.mp hpieces
    exact ih hrest

theorem Stands.next : Stands (Arrivals.next : Reader σ β ε (Option β)) := by
  intro s t state rest more hs ht
  cases rest with
  | nil =>
    rw [next_nil hs]
    exact ⟨fun c s' h => (nomatch h), fun e h => (nomatch h)⟩
  | cons b rest =>
    obtain ⟨s₁, hs₁, hrest⟩ := next_cons (ε := ε) hs
    obtain ⟨t₁, ht₁, hmore⟩ := next_cons (ε := ε) ht
    rw [hs₁, ht₁]
    refine ⟨fun c s' h => ?_, fun e h => nomatch h⟩
    obtain ⟨rfl, rfl⟩ := Prod.mk.inj (Except.ok.inj h)
    exact ⟨state, rest, t₁, rfl, hrest, hmore⟩

theorem Stands.loop {body : δ → Reader σ β ε (δ ⊕ α)} (hshrinks : ∀ d, Shrinks (body d))
    (hbody : ∀ d, Stands (body d)) (d : δ) : Stands (Arrivals.loop body d) := by
  intro s
  induction hn : s.size using Nat.strong_induction_on generalizing s d with
  | h n ih =>
    intro t state rest more hs ht
    rw [loop_eq hshrinks]
    rcases hfirst : body d s with (_ | e) | ⟨r, s₁⟩
    · rw [bind_apply, hfirst]
      exact ⟨fun c s' h => (nomatch h), fun e h => (nomatch h)⟩
    · rw [bind_apply, bind_apply, hfirst, (hbody d hs ht).2 e hfirst]
      exact ⟨fun c s' h => (nomatch h), fun e' h => h⟩
    · obtain ⟨state₁, rest₁, t₁, ht₁, hs₁, hmore⟩ := (hbody d hs ht).1 r s₁ hfirst
      rw [bind_of_ok hfirst, bind_of_ok ht₁]
      rcases r with d' | a
      · exact ih s₁.size (hn ▸ hshrinks d s _ s₁ hfirst) d' rfl hs₁ hmore
      · exact Stands.pure a hs₁ hmore

/-! ### Readers that do both -/

/-- A reader that gives nothing back and whose answers stand. -/
structure Steady (x : Reader σ β ε α) : Prop where
  keeps : Keeps x
  stands : Stands x

/-- A reader that takes something and whose answers stand. -/
structure Advances (x : Reader σ β ε α) : Prop where
  shrinks : Shrinks x
  stands : Stands x

theorem Advances.steady {x : Reader σ β ε α} (h : Advances x) : Steady x :=
  ⟨h.shrinks.keeps, h.stands⟩

theorem Steady.pure (a : α) : Steady (Pure.pure a : Reader σ β ε α) :=
  ⟨Keeps.pure a, Stands.pure a⟩

theorem Steady.bind {x : Reader σ β ε α} {f : α → Reader σ β ε γ} (hx : Steady x)
    (hf : ∀ a, Steady (f a)) : Steady (x >>= f) :=
  ⟨hx.keeps.bind fun a => (hf a).keeps, hx.stands.bind fun a => (hf a).stands⟩

theorem Advances.bind {x : Reader σ β ε α} {f : α → Reader σ β ε γ} (hx : Advances x)
    (hf : ∀ a, Steady (f a)) : Advances (x >>= f) :=
  ⟨hx.shrinks.bind fun a => (hf a).keeps, hx.stands.bind fun a => (hf a).stands⟩

theorem Advances.next : Advances (Arrivals.next : Reader σ β ε (Option β)) :=
  ⟨Shrinks.next, Stands.next⟩

theorem Advances.raise (e : ε) : Advances (Arrivals.raise e : Reader σ β ε α) :=
  ⟨Shrinks.raise e, Stands.raise e⟩

theorem Steady.getState : Steady (Arrivals.getState : Reader σ β ε σ) :=
  ⟨Keeps.getState, Stands.getState⟩

theorem Steady.setState (state : σ) : Steady (Arrivals.setState state : Reader σ β ε Unit) :=
  ⟨Keeps.setState state, Stands.setState state⟩

theorem Steady.attempt {x : Reader σ β ε α} (hx : Steady x) : Steady (Arrivals.attempt x) :=
  ⟨hx.keeps.attempt, hx.stands.attempt⟩

theorem Advances.loop {body : δ → Reader σ β ε (δ ⊕ α)} (h : ∀ d, Advances (body d)) (d : δ) :
    Advances (Arrivals.loop body d) :=
  ⟨Shrinks.loop (fun d => (h d).shrinks) d,
    Stands.loop (fun d => (h d).shrinks) (fun d => (h d).stands) d⟩

/-! ### Frames -/

/-- A frame is read back as an answer, whatever follows. -/
def Reads (x : Reader σ β ε α) (state : σ) (frame : List β) (a : α) (state' : σ) : Prop :=
  ∀ ⦃s : Input σ β⦄ ⦃rest : List β⦄, s.Holds state (frame ++ rest) →
    ∃ s', x s = .ok (a, s') ∧ s'.Holds state' rest

section Reads

variable {state state₁ state' : σ} {frame frame' : List β} {a : α} {c : γ}

theorem Reads.pure : Reads (Pure.pure a : Reader σ β ε α) state [] a state :=
  fun s _ hs => ⟨s, rfl, hs⟩

theorem Reads.bind {x : Reader σ β ε α} {f : α → Reader σ β ε γ}
    (hx : Reads x state frame a state₁) (hf : Reads (f a) state₁ frame' c state') :
    Reads (x >>= f) state (frame ++ frame') c state' := by
  intro s rest hs
  rw [List.append_assoc] at hs
  obtain ⟨s₁, hfirst, hs₁⟩ := hx hs
  rw [bind_of_ok hfirst]
  exact hf hs₁

theorem Reads.next (b : β) :
    Reads (Arrivals.next : Reader σ β ε (Option β)) state [b] (some b) state :=
  fun _ _ hs => next_cons hs

theorem Reads.getState : Reads (Arrivals.getState : Reader σ β ε σ) state [] state state := by
  intro s rest hs
  refine ⟨s, ?_, hs⟩
  rw [Arrivals.getState, hs.state_eq]

theorem Reads.setState :
    Reads (Arrivals.setState state' : Reader σ β ε Unit) state [] () state' :=
  fun s _ hs => ⟨{ s with state := state' }, rfl, rfl, hs.pieces⟩

theorem Reads.attempt {x : Reader σ β ε α} (hx : Reads x state frame a state') :
    Reads (Arrivals.attempt x) state frame (some a) state' := by
  intro s rest hs
  obtain ⟨s', hread, hs'⟩ := hx hs
  refine ⟨s', ?_, hs'⟩
  rw [Arrivals.attempt, hread]

/-- A loop whose next round is not the last. -/
theorem Reads.loop_inl {body : δ → Reader σ β ε (δ ⊕ α)} (h : ∀ d, Advances (body d))
    {d d' : δ} (hround : Reads (body d) state frame (.inl d') state₁)
    (hrest : Reads (loop body d') state₁ frame' a state') :
    Reads (loop body d) state (frame ++ frame') a state' := by
  rw [loop_eq fun d => (h d).shrinks]
  exact hround.bind hrest

/-- A loop whose next round is the last. -/
theorem Reads.loop_inr {body : δ → Reader σ β ε (δ ⊕ α)} (h : ∀ d, Advances (body d))
    {d : δ} (hround : Reads (body d) state frame (.inr a) state') :
    Reads (loop body d) state frame a state' := by
  have hend : Reads (Sum.elim (loop body) Pure.pure (.inr a : δ ⊕ α)) state' [] a state' :=
    Reads.pure
  rw [loop_eq fun d => (h d).shrinks, ← List.append_nil frame]
  exact hround.bind hend

end Reads

/-- A part of a frame is not read yet. -/
theorem Reads.waits {x : Reader σ β ε α} {state state' : σ} {frame : List β} {a : α}
    (h : Reads x state frame a state') (hx : Stands x) {s : Input σ β} {arrived left : List β}
    (hframe : frame = arrived ++ left) (hleft : left ≠ []) (hs : s.Holds state arrived) :
    x s = .error .waits := by
  let t : Input σ β := { state, buf := frame, arrivals := [] }
  have ht : t.Holds state (arrived ++ left) := ⟨rfl, [], rfl, by simp [t, hframe]⟩
  obtain ⟨t', hread, hnone⟩ := @h t [] (by rwa [List.append_nil, hframe])
  rcases hfirst : x s with (_ | e) | ⟨a', s'⟩
  · rfl
  · rw [(hx hs ht).2 e hfirst] at hread
    cases hread
  · obtain ⟨state', rest', t'', ht'', -, hmore⟩ := (hx hs ht).1 a' s' hfirst
    rw [hread] at ht''
    obtain ⟨-, rfl⟩ := Prod.mk.inj (Except.ok.inj ht'')
    -- the answer on the whole frame leaves nothing, so it cannot have stood before its end
    obtain ⟨-, pieces, harrivals, hrest⟩ := hnone
    obtain ⟨-, pieces', harrivals', hrest'⟩ := hmore
    rw [harrivals] at harrivals'
    obtain rfl := List.map_injective_iff.mpr (Option.some_injective _) harrivals'
    rw [hrest] at hrest'
    exact absurd (List.append_eq_nil_iff.mp hrest'.symm).2 hleft

/-- How many frames have arrived as a whole when `n` items have. -/
def whole : ℕ → List (List β) → ℕ
  | _, [] => 0
  | n, frame :: frames => if frame.length ≤ n then whole (n - frame.length) frames + 1 else 0

theorem items_cons {x : Reader σ β ε (ω ⊕ α)} (hx : Shrinks x) {s s' : Input σ β} {w : ω}
    (h : x s = .ok (.inl w, s')) : items x s = (w :: (items x s').1, (items x s').2) := by
  rw [items, h]
  exact if_pos (hx s _ s' h)

/-- Frames that have arrived as a whole are read back, each once and in their order. -/
theorem items_of_take {x : Reader σ β ε (ω ⊕ α)} (hx : Advances x) {state state' : σ}
    {frames : List (List β × ω)} (h : ∀ p ∈ frames, Reads x state p.1 (.inl p.2) state)
    {last : List β} {a : α} (hlast : Reads x state last (.inr a) state') :
    ∀ {n : ℕ} {s : Input σ β}, n < ((frames.map Prod.fst).flatten ++ last).length →
      s.Holds state (((frames.map Prod.fst).flatten ++ last).take n) →
      items x s = ((frames.take (whole n (frames.map Prod.fst))).map Prod.snd, .error .waits) := by
  induction frames with
  | nil =>
    intro n s hn hs
    have hleft : last.drop n ≠ [] := by
      simpa [List.drop_eq_nil_iff] using hn
    rw [items, hlast.waits hx.stands (List.take_append_drop n last).symm hleft hs]
    rfl
  | cons frame frames ih =>
    intro n s hn hs
    obtain ⟨hframe, hframes⟩ := List.forall_mem_cons.mp h
    rw [List.map_cons, List.flatten_cons, List.append_assoc] at hn hs
    rw [List.map_cons, whole]
    split_ifs with hle
    · rw [List.take_append, List.take_of_length_le hle] at hs
      obtain ⟨s', hread, hs'⟩ := hframe hs
      rw [List.length_append] at hn
      rw [items_cons hx.shrinks hread, ih hframes (by omega) hs']
      rfl
    · have hleft : frame.1.drop n ≠ [] := by
        rw [Ne, List.drop_eq_nil_iff]
        exact hle
      rw [List.take_append_of_le_length (by omega)] at hs
      rw [items, hframe.waits hx.stands (List.take_append_drop n _).symm hleft hs]
      rfl

/-- All frames and the end of the stream. -/
theorem items_of_end {x : Reader σ β ε (ω ⊕ α)} (hx : Advances x) {state state' : σ}
    {frames : List (List β × ω)} (h : ∀ p ∈ frames, Reads x state p.1 (.inl p.2) state)
    {last : List β} {a : α} (hlast : Reads x state last (.inr a) state') {rest : List β} :
    ∀ {s : Input σ β}, s.Holds state ((frames.map Prod.fst).flatten ++ (last ++ rest)) →
      items x s = (frames.map Prod.snd, .ok a) := by
  induction frames with
  | nil =>
    intro s hs
    obtain ⟨s', hread, -⟩ := hlast hs
    rw [items, hread]
    rfl
  | cons frame frames ih =>
    intro s hs
    obtain ⟨hframe, hframes⟩ := List.forall_mem_cons.mp h
    rw [List.map_cons, List.flatten_cons, List.append_assoc] at hs
    obtain ⟨s', hread, hs'⟩ := hframe hs
    rw [items_cons hx.shrinks hread, ih hframes hs']
    rfl

end Arrivals
