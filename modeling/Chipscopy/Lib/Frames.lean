import Chipscopy.Lib.Python

/-! Streams of frames

    A stream that carries no marks is cut by the lengths of its frames alone. The frames are those
    that were joined when every length is the right one, and then nothing is left over. -/

namespace Frames

variable {α : Type*}

/-- Frames of the given lengths from the start of a stream, and what is left. -/
def cut : List ℕ → List α → List (List α) × List α
  | [], stream => ([], stream)
  | n :: ns, stream => ((stream.take n) :: (cut ns (stream.drop n)).1, (cut ns (stream.drop n)).2)

/-- Joined frames are cut where they were joined. -/
theorem cut_flatten : ∀ (frames : List (List α)) (rest : List α),
    cut (frames.map List.length) (frames.flatten ++ rest) = (frames, rest)
  | [], _ => rfl
  | frame :: frames, rest => by
    rw [List.map_cons, List.flatten_cons, List.append_assoc, cut, List.take_left, List.drop_left,
      cut_flatten frames rest]

/-- Frames are a partition of the stream up to the sum of their lengths. -/
theorem flatten_cut : ∀ (lengths : List ℕ) (stream : List α),
    (cut lengths stream).1.flatten = stream.take lengths.sum
  | [], stream => by simp [cut]
  | n :: ns, stream => by
    rw [cut, List.flatten_cons, flatten_cut ns, List.sum_cons, List.take_add]

theorem length_cut : ∀ (lengths : List ℕ) (stream : List α),
    (cut lengths stream).1.length = lengths.length
  | [], _ => rfl
  | _ :: ns, _ => congrArg Nat.succ (length_cut ns _)

/-- Where the stream is long enough, each frame has its length. -/
theorem map_length_cut : ∀ (lengths : List ℕ) {stream : List α}, lengths.sum ≤ stream.length →
    (cut lengths stream).1.map List.length = lengths
  | [], _, _ => rfl
  | n :: ns, stream, h => by
    rw [List.sum_cons] at h
    have hrest : ns.sum ≤ (stream.drop n).length := by
      rw [List.length_drop]
      omega
    rw [cut, List.map_cons, List.length_take, map_length_cut ns hrest, Nat.min_eq_left (by omega)]

end Frames
