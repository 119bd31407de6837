import Chipscopy.Lib.Arrivals
import Chipscopy.Xvc.Framing

/-! Bytes of a TCF channel

    The ends of messages and of the stream are marked by escape sequences, and so is a block whose
    bytes are sent as they are. What is written is read back one by one, in whatever pieces a socket
    hands it over. -/

namespace Chipscopy.Tcf

open Arrivals

/-- What `read` returns. The source has `EOM = -2` and `EOS = -1`. -/
inductive Datum
  | byte (b : UInt8)
  | eom
  | eos
  deriving DecidableEq, Repr

def ESC : UInt8 := 3

/-! ### Writing -/

def writeByte : Datum → List UInt8
  | .eom => [ESC, 1]
  | .eos => [ESC, 2]
  | .byte n => if n = ESC then [ESC, 0] else [n]

/-- The size of a block, seven bits in each byte. -/
def writeSize (n : ℕ) : List UInt8 :=
  if n ≤ 0x7f then [UInt8.ofNat n]
  else UInt8.ofNat ((n &&& 0x7f) ||| 0x80) :: writeSize (n >>> 7)
termination_by n
decreasing_by
  rw [Nat.shiftRight_eq_div_pow]
  omega

def write (zeroCopy : Bool) (buf : List UInt8) : List UInt8 :=
  if buf.length > 32 ∧ zeroCopy = true then ESC :: 3 :: (writeSize buf.length ++ buf)
  else buf.flatMap fun n => n :: if n = ESC then [0] else []

/-! ### Reading -/

inductive ReadError
  | assertion
  | ioError (text : String)
  | unicode
  deriving DecidableEq, Repr

/-- A reader that keeps `bin_data_size`. -/
abbrev Reader := Arrivals.Reader ℕ UInt8 ReadError

/-- `range(0, 100000, 7)` -/
def sizeRounds : ℕ := 14286

/-- The size of a block, or false at the end of the stream. -/
def readSize : ℕ → ℕ → Reader Bool
  | 0, _ => pure true
  | rounds + 1, i => do
    match ← next with
    | none => pure false
    | some m =>
      let binDataSize ← getState
      setState (binDataSize ||| ((m.toNat &&& 0x7f) <<< i))
      if m.toNat &&& 0x80 = 0 then pure true else readSize rounds (i + 7)

/-- What follows an escape. Only a block goes on with the loop. -/
def readEscaped (n : UInt8) : Reader (Unit ⊕ Datum) :=
  if n = 0 then pure (.inr (.byte ESC))
  else if n = 1 then pure (.inr .eom)
  else if n = 2 then pure (.inr .eos)
  else if n = 3 then do
    match ← readSize sizeRounds 0 with
    | true => pure (.inl ())
    | false => pure (.inr .eos)
  else raise .assertion

def readRound (_ : Unit) : Reader (Unit ⊕ Datum) := do
  match ← next with
  | none => pure (.inr .eos)
  | some res =>
    let binDataSize ← getState
    if 0 < binDataSize then do
      setState (binDataSize - 1)
      pure (.inr (.byte res))
    else if res ≠ ESC then pure (.inr (.byte res))
    else
      match ← next with
      | none => pure (.inr .eos)
      | some n => readEscaped n

def read : Reader Datum := loop readRound ()

/-! ### Each answer takes something and stands -/

theorem steady_readSize (rounds i : ℕ) : Steady (readSize rounds i) := by
  induction rounds generalizing i with
  | zero => exact Steady.pure _
  | succ rounds ih =>
    refine Advances.next.steady.bind fun m => ?_
    cases m with
    | none => exact Steady.pure _
    | some m =>
      refine Steady.getState.bind fun _ => (Steady.setState _).bind fun _ => ?_
      split_ifs
      · exact Steady.pure _
      · exact ih _

theorem steady_readEscaped (n : UInt8) : Steady (readEscaped n) := by
  rw [readEscaped]
  split_ifs
  · exact Steady.pure _
  · exact Steady.pure _
  · exact Steady.pure _
  · refine (steady_readSize _ _).bind fun b => ?_
    cases b <;> exact Steady.pure _
  · exact (Advances.raise _).steady

theorem advances_readRound (u : Unit) : Advances (readRound u) := by
  refine Advances.next.bind fun res => ?_
  cases res with
  | none => exact Steady.pure _
  | some res =>
    refine Steady.getState.bind fun _ => ?_
    split_ifs
    · exact (Steady.setState _).bind fun _ => Steady.pure _
    · exact Steady.pure _
    · refine Advances.next.steady.bind fun n => ?_
      cases n with
      | none => exact Steady.pure _
      | some n => exact steady_readEscaped n

theorem advances_read : Advances read := Advances.loop advances_readRound ()

/-! ### What is written is read -/

/-- A byte that is no escape. -/
theorem reads_plain {b : UInt8} (hb : b ≠ ESC) : Reads read 0 [b] (.byte b) 0 := by
  refine Reads.loop_inr advances_readRound ((Reads.next b).bind (Reads.getState.bind ?_))
  rw [if_neg (lt_irrefl 0), if_pos hb]
  exact Reads.pure

/-- A byte of a block. -/
theorem reads_inBlock {k : ℕ} (b : UInt8) : Reads read (k + 1) [b] (.byte b) k := by
  refine Reads.loop_inr advances_readRound ((Reads.next b).bind (Reads.getState.bind ?_))
  rw [if_pos (Nat.succ_pos k)]
  exact Reads.setState.bind Reads.pure

/-- An escape sequence that shows a datum. -/
theorem reads_escaped {n : UInt8} {d : Datum} (h : readEscaped n = pure (.inr d)) :
    Reads read 0 [ESC, n] d 0 := by
  refine Reads.loop_inr advances_readRound ((Reads.next ESC).bind (Reads.getState.bind ?_))
  rw [if_neg (lt_irrefl 0), if_neg (not_not.mpr rfl), ← List.append_nil [n]]
  refine (Reads.next n).bind ?_
  dsimp only
  rw [h]
  exact Reads.pure

theorem reads_writeByte (d : Datum) : Reads read 0 (writeByte d) d 0 := by
  cases d with
  | eom => exact reads_escaped rfl
  | eos => exact reads_escaped rfl
  | byte b =>
    rw [writeByte]
    split_ifs with hb
    · obtain rfl := hb
      exact reads_escaped rfl
    · exact reads_plain hb

/-- The size of a block. -/
theorem reads_writeSize {rounds : ℕ} : ∀ {n : ℕ}, n < 2 ^ (7 * rounds) → 0 < rounds →
    ∀ acc i : ℕ, Reads (readSize rounds i) acc (writeSize n) true (acc ||| (n <<< i)) := by
  induction rounds with
  | zero =>
    intro n _ hpos
    exact absurd hpos (lt_irrefl 0)
  | succ rounds ih =>
    intro n hn _ acc i
    rw [writeSize]
    split_ifs with hsmall
    · have hnat : (UInt8.ofNat n).toNat = n := by
        rw [UInt8.toNat_ofNat', Nat.mod_eq_of_lt (by omega)]
      have hseven : n &&& 0x7f = n := by
        rw [show n &&& 0x7f = n % 2 ^ 7 from Nat.and_two_pow_sub_one_eq_mod n 7]
        omega
      refine (Reads.next _).bind (Reads.getState.bind (Reads.setState.bind ?_))
      have hend := (Xvc.land_seven (r := n) (by omega)).1
      rw [hnat, if_pos hend, hseven]
      exact Reads.pure
    · have hlow : n &&& 0x7f < 128 := by
        rw [show n &&& 0x7f = n % 2 ^ 7 from Nat.and_two_pow_sub_one_eq_mod n 7]
        exact Nat.mod_lt n (Nat.two_pow_pos 7)
      obtain ⟨-, hmore, hseven, hbyte⟩ := Xvc.land_seven hlow
      have hnat : (UInt8.ofNat ((n &&& 0x7f) ||| 0x80)).toNat = (n &&& 0x7f) ||| 0x80 := by
        rw [UInt8.toNat_ofNat', Nat.mod_eq_of_lt hbyte]
      have hless : n >>> 7 < 2 ^ (7 * rounds) := by
        rw [Nat.shiftRight_eq_div_pow, Nat.div_lt_iff_lt_mul (Nat.two_pow_pos 7), ← Nat.pow_add]
        exact hn
      have hrounds : 0 < rounds := by
        rcases rounds with _ | rounds
        · omega
        · exact Nat.succ_pos _
      rw [← List.singleton_append]
      refine (Reads.next _).bind ?_
      rw [← List.nil_append (writeSize _)]
      refine Reads.getState.bind ?_
      rw [← List.nil_append (writeSize _)]
      refine Reads.setState.bind ?_
      rw [hnat, if_neg hmore, hseven, ← Xvc.lor_shiftRight_seven n i, ← Nat.lor_assoc]
      exact ih hless hrounds _ _

/-- The start of a block. -/
theorem reads_block {k : ℕ} (hk : k + 1 < 2 ^ (7 * sizeRounds)) (b : UInt8) :
    Reads read 0 (ESC :: 3 :: (writeSize (k + 1) ++ [b])) (.byte b) k := by
  have hsize : Reads (readSize sizeRounds 0) 0 (writeSize (k + 1)) true (k + 1) := by
    simpa using reads_writeSize hk (by decide) 0 0
  have hescaped : Reads (readEscaped 3) 0 (writeSize (k + 1)) (.inl ()) (k + 1) := by
    rw [readEscaped, if_neg (by decide), if_neg (by decide), if_neg (by decide), if_pos rfl,
      ← List.append_nil (writeSize (k + 1))]
    exact hsize.bind Reads.pure
  have hround : Reads (readRound ()) 0 ([ESC] ++ ([3] ++ writeSize (k + 1))) (.inl ()) (k + 1) := by
    refine (Reads.next ESC).bind ?_
    rw [← List.nil_append ([3] ++ writeSize (k + 1))]
    refine Reads.getState.bind ?_
    rw [if_neg (lt_irrefl 0), if_neg (not_not.mpr rfl)]
    exact (Reads.next 3).bind hescaped
  exact Reads.loop_inl advances_readRound hround (reads_inBlock b)

end Chipscopy.Tcf
