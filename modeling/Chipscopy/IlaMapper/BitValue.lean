import Chipscopy.Lib.Python

/-! Match values on a pair of samples

    A match unit compares its port with an operator and one bit character per port bit. A bit
    character looks at the previous and the current value of its bit: `R` is a rising edge, `F` a
    falling one, `L` and `S` are their opposites, `B` is either edge and `N` no edge; `T` is what
    `negate_bit_value` writes for `B`. The operators see the bits that are not don't-care only, so
    a value may be padded with `X` on both sides without changing what it matches. -/

namespace Chipscopy.Mapping

/-- Operators of a compare value (`ILA_MATCH_OPERATORS`). -/
inductive MatchOp
  | eq | neq | gt | lt | ge | le | reductionOr
  deriving DecidableEq, Repr

/-- The operator as it is written in front of a match value. -/
def MatchOp.chars : MatchOp → List Char
  | .eq => ['=', '=']
  | .neq => ['!', '=']
  | .gt => ['>']
  | .lt => ['<']
  | .ge => ['>', '=']
  | .le => ['<', '=']
  | .reductionOr => ['|', '|']

/-- The bit characters of `ILA_MATCH_BIT_VALUES`, without the separator `_`. -/
def matchBitValues : List Char :=
  ['0', '1', 'x', 'X', 'r', 'R', 'f', 'F', 'n', 'N', 'b', 'B', 't', 'T', 'l', 'L', 's', 'S']

/-- What a bit character says about the previous and the current value of a bit. -/
def bitHolds (ch : Char) (prev cur : Bool) : Bool :=
  match ch.toUpper with
  | '0' => !cur
  | '1' => cur
  | 'R' => !prev && cur
  | 'F' => prev && !cur
  | 'L' => !(!prev && cur)
  | 'S' => !(prev && !cur)
  | 'B' | 'T' => prev != cur
  | 'N' => prev == cur
  | _ => true

def negateBitValue (ch : Char) : Char :=
  match ch.toUpper with
  | '0' => '1'
  | '1' => '0'
  | 'X' => 'X'
  | 'R' => 'L'
  | 'F' => 'S'
  | 'T' => 'N'
  | 'B' => 'N'
  | 'N' => 'T'
  | 'L' => 'R'
  | 'S' => 'F'
  | _ => 'X'

theorem toUpper_idem : ∀ ch ∈ matchBitValues, ch.toUpper.toUpper = ch.toUpper := by
  simp [matchBitValues]

theorem toUpper_mem : ∀ ch ∈ matchBitValues, ch.toUpper ∈ matchBitValues := by
  simp [matchBitValues]

theorem negateBitValue_mem : ∀ ch ∈ matchBitValues, negateBitValue ch ∈ matchBitValues := by
  simp [matchBitValues, negateBitValue]

theorem toUpper_negateBitValue :
    ∀ ch ∈ matchBitValues, (negateBitValue ch).toUpper = negateBitValue ch := by
  simp [matchBitValues, negateBitValue]

theorem negateBitValue_eq_X_iff :
    ∀ ch ∈ matchBitValues, negateBitValue ch = 'X' ↔ ch.toUpper = 'X' := by
  simp [matchBitValues, negateBitValue]

theorem bitHolds_negateBitValue : ∀ ch ∈ matchBitValues, ch.toUpper ≠ 'X' →
    ∀ prev cur, bitHolds (negateBitValue ch) prev cur = !bitHolds ch prev cur := by
  simp [matchBitValues, negateBitValue, bitHolds]

theorem bitHolds_X : ∀ prev cur, bitHolds 'X' prev cur = true := by decide

/-! ### Compared bits -/

/-- A compared bit: its character, and the previous and current value of the port bit. -/
structure Cell where
  ch : Char
  prev : Bool
  cur : Bool
  deriving DecidableEq

/-- Previous and current bit at every position of a port. -/
abbrev Signal := ℤ → Bool × Bool

/-- The bits that a value, given least significant bit first, compares from position `pos` on. -/
def specified (sig : Signal) : ℤ → List Char → List Cell
  | _, [] => []
  | pos, ch :: chs =>
    if ch.toUpper = 'X' then specified sig (pos + 1) chs
    else ⟨ch.toUpper, (sig pos).1, (sig pos).2⟩ :: specified sig (pos + 1) chs

/-- Number made of the current bits, least significant bit first. -/
def portNumber : List Cell → ℕ
  | [] => 0
  | c :: cs => c.cur.toNat + 2 * portNumber cs

/-- Number made of the bits to compare with, least significant bit first. -/
def valueNumber : List Cell → ℕ
  | [] => 0
  | c :: cs => (c.ch == '1').toNat + 2 * valueNumber cs

/-- An operator on the compared bits. -/
def MatchOp.holds (cells : List Cell) : MatchOp → Bool
  | .eq => cells.all fun c => bitHolds c.ch c.prev c.cur
  | .neq => !cells.all fun c => bitHolds c.ch c.prev c.cur
  | .gt => decide (valueNumber cells < portNumber cells)
  | .lt => decide (portNumber cells < valueNumber cells)
  | .ge => decide (valueNumber cells ≤ portNumber cells)
  | .le => decide (portNumber cells ≤ valueNumber cells)
  | .reductionOr => cells.any fun c => bitHolds c.ch c.prev c.cur

/-- A value (most significant character first) whose last character is at position `bitIndex`. -/
def valueHolds (sig : Signal) (op : MatchOp) (bitIndex : ℤ) (value : List Char) : Bool :=
  op.holds (specified sig bitIndex value.reverse)

theorem specified_append (sig : Signal) : ∀ (pos : ℤ) (as bs : List Char),
    specified sig pos (as ++ bs) = specified sig pos as ++ specified sig (pos + as.length) bs
  | pos, [], bs => by simp [specified]
  | pos, a :: as, bs => by
    have hpos : pos + 1 + (as.length : ℤ) = pos + ((a :: as).length : ℤ) := by
      simp only [List.length_cons]; push_cast; ring
    simp only [List.cons_append, specified, specified_append sig (pos + 1) as bs, hpos]
    split <;> simp

theorem specified_replicate_X (sig : Signal) : ∀ (pos : ℤ) (n : ℕ),
    specified sig pos (List.replicate n 'X') = []
  | _, 0 => rfl
  | pos, n + 1 => by
    simp only [List.replicate_succ, specified]
    exact specified_replicate_X sig (pos + 1) n

/-- Don't-care characters on both sides leave the compared bits as they are. -/
theorem specified_pad (sig : Signal) (pos : ℤ) (m n : ℕ) (l : List Char) :
    specified sig pos (List.replicate m 'X' ++ l ++ List.replicate n 'X') =
      specified sig (pos + m) l := by
  simp [specified_append, specified_replicate_X]

theorem specified_map_toUpper (sig : Signal) : ∀ (pos : ℤ) {l : List Char},
    (∀ ch ∈ l, ch ∈ matchBitValues) → specified sig pos (l.map Char.toUpper) = specified sig pos l
  | _, [], _ => rfl
  | pos, ch :: l, h => by
    obtain ⟨hch, hl⟩ := List.forall_mem_cons.mp h
    simp only [List.map_cons, specified, toUpper_idem ch hch, specified_map_toUpper sig (pos + 1) hl]

/-- `mergeCh` below keeps the conjunction because two characters agree or one is don't-care. -/
theorem all_specified_cons (sig : Signal) (pos : ℤ) {ch : Char} (l : List Char)
    (hch : ch.toUpper = ch) :
    (specified sig pos (ch :: l)).all (fun c => bitHolds c.ch c.prev c.cur) =
      (bitHolds ch (sig pos).1 (sig pos).2 &&
        (specified sig (pos + 1) l).all fun c => bitHolds c.ch c.prev c.cur) := by
  by_cases hX : ch = 'X'
  · subst hX
    simp [specified, bitHolds_X, show Char.toUpper 'X' = 'X' from rfl]
  · simp [specified, hch, hX]

end Chipscopy.Mapping
