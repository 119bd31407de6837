import Mathlib

/-! Bytes from a socket

    A socket hands out what has arrived, at most as many bytes as asked for. `cut` says how many
    bytes have arrived when so many are left, so every way to split a stream is one `cut`. A reader
    fails where the stream ends. -/

namespace Stream

variable {α β : Type} {cut : ℕ → ℕ}

/-- A program that takes bytes from a stream. -/
abbrev Reader (α : Type) := StateT (List UInt8) Option α

theorem bind_apply (x : Reader α) (f : α → Reader β) (sock : List UInt8) :
    (x >>= f) sock = (x sock).bind fun p => f p.1 p.2 := by
  rfl

theorem pure_apply (a : α) (sock : List UInt8) : (pure a : Reader α) sock = some (a, sock) := rfl

/-- A step of a reader whose answer is known. -/
theorem bind_of_some {x : Reader α} {f : α → Reader β} {sock rest : List UInt8} {a : α}
    (h : x sock = some (a, rest)) : (x >>= f) sock = f a rest := by
  rw [bind_apply, h, Option.bind_some]

/-- An answer comes from an answer of the first step. -/
theorem bind_eq_some {x : Reader α} {f : α → Reader β} {sock rest : List UInt8} {b : β}
    (h : (x >>= f) sock = some (b, rest)) :
    ∃ a rest', x sock = some (a, rest') ∧ f a rest' = some (b, rest) := by
  rw [bind_apply, Option.bind_eq_some_iff] at h
  obtain ⟨⟨a, rest'⟩, hx, hf⟩ := h
  exact ⟨a, rest', hx, hf⟩

/-- One call of `recv`. An empty answer is the end of the stream. -/
def recv (cut : ℕ → ℕ) (size : ℕ) : Reader (List UInt8) := fun sock =>
  let c := sock.take (min size (cut sock.length))
  if c = [] then none else some (c, sock.drop c.length)

theorem recv_eq_some {size : ℕ} {sock c rest : List UInt8}
    (h : recv cut size sock = some (c, rest)) :
    c ≠ [] ∧ sock = c ++ rest ∧ c.length ≤ size ∧ c.length ≤ cut sock.length := by
  rw [recv] at h
  split_ifs at h with hempty
  obtain ⟨rfl, rfl⟩ := Prod.mk.inj (Option.some.inj h)
  refine ⟨hempty, ?_, ?_, ?_⟩
  · rw [List.length_take]
    conv_lhs => rw [← List.take_append_drop (min size (cut sock.length)) sock]
    rcases le_total (min size (cut sock.length)) sock.length with hle | hle
    · rw [Nat.min_eq_left hle]
    · rw [Nat.min_eq_right hle, List.drop_of_length_le hle, List.drop_length]
  · rw [List.length_take]
    omega
  · rw [List.length_take]
    omega

theorem recv_nil (size : ℕ) : recv cut size [] = none := by
  rw [recv, List.take_nil]
  exact if_pos rfl

/-- A field that has arrived is read in one call. -/
theorem recv_whole {field : List UInt8} (hne : field ≠ []) (rest : List UInt8)
    (h : field.length ≤ cut (field.length + rest.length)) :
    recv cut field.length (field ++ rest) = some (field, rest) := by
  have htake : (field ++ rest).take (min field.length (cut (field ++ rest).length)) = field := by
    rw [List.length_append, Nat.min_eq_left h, List.take_left]
  simp only [recv, htake]
  rw [if_neg hne, List.drop_left]

/-- A single byte is always read. -/
theorem recv_one (hcut : ∀ k, 0 < cut k) (b : UInt8) (rest : List UInt8) :
    recv cut 1 (b :: rest) = some ([b], rest) :=
  recv_whole (List.cons_ne_nil b []) rest (hcut _)

/-! ### Readers that give nothing back -/

/-- What is left is a part of what there was. -/
def Shrinks (x : Reader α) : Prop :=
  ∀ sock a rest, x sock = some (a, rest) → rest.length ≤ sock.length

theorem Shrinks.bind {x : Reader α} {f : α → Reader β} (hx : Shrinks x) (hf : ∀ a, Shrinks (f a)) :
    Shrinks (x >>= f) := fun sock b rest h => by
  obtain ⟨a, rest', hfirst, hrest⟩ := bind_eq_some h
  exact (hf a rest' b rest hrest).trans (hx sock a rest' hfirst)

theorem Shrinks.pure (a : α) : Shrinks (Pure.pure a : Reader α) := fun sock b rest h => by
  rw [pure_apply] at h
  obtain ⟨-, rfl⟩ := Prod.mk.inj (Option.some.inj h)
  exact le_rfl

theorem Shrinks.recv (cut : ℕ → ℕ) (size : ℕ) : Shrinks (Stream.recv cut size) :=
  fun sock c rest h => by
    obtain ⟨-, hsock, -⟩ := recv_eq_some h
    rw [hsock, List.length_append]
    omega

end Stream
