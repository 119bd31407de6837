import Chipscopy.IlaMapper.BitValue

/-! Matches and how two of them merge

    A `Match` compares some bits of one port. Two matches merge when both test equality on the same
    port and no bit is asked to have two different characters: the merged value covers both bit
    ranges, filled with `X` where neither match looks. A value grows by don't-care characters only,
    so the grown value compares the same bits, and a merged match holds exactly when both of its
    parts do. -/

namespace Chipscopy.Mapping

structure Match where
  name : String
  portIndex : ℕ
  /-- Position of match value LSB, on the port. -/
  bitIndex : ℤ
  op : MatchOp
  value : List Char
  /-- Un-mapped value is -1. -/
  muIndex : ℤ := -1
  /-- Probe names added to this match and their compare value indices, for debugging. -/
  sourceNames : List String := []
  sourceValueIndices : List ℕ := []
  deriving DecidableEq

namespace Match

def sortKey (mt : Match) : ℤ := ((mt.portIndex <<< 16 : ℕ) : ℤ) + mt.bitIndex

def isDontCare (mt : Match) : Bool := mt.value.all (· == 'X')

def ensureProperTypes (mt : Match) : Match := { mt with value := mt.value.map Char.toUpper }

def flipOneBitNeqToEq (mt : Match) : Match :=
  match mt.op, mt.value with
  | .neq, [ch] => { mt with op := .eq, value := [negateBitValue ch], name := "~" ++ mt.name }
  | _, _ => mt

/-- Grow a value with don't-care characters, in the beginning and in the end. -/
def resizeValue (muValue : List Char) (muValueBitIndex newBitIndex newWidth : ℤ) :
    Except Py.Error (List Char) :=
  if newBitIndex > muValueBitIndex ∨ newBitIndex + newWidth < muValueBitIndex + muValue.length then
    .error (.valueError "Internal Error: Match unit value of the wrong length.")
  else
    let value := muValue ++ List.replicate (muValueBitIndex - newBitIndex).toNat 'X'
    .ok (List.replicate (newWidth - value.length).toNat 'X' ++ value)

def mergeCh (ch0 ch1 : Char) : Option Char :=
  if ch0 = ch1 ∨ ch1 = 'X' then some ch0 else if ch0 = 'X' then some ch1 else none

/-- All characters merged, or nothing when two of them conflict. -/
def mergeChars : List Char → List Char → Option (List Char)
  | a :: as, b :: bs =>
    match mergeCh a b, mergeChars as bs with
    | some c, some cs => some (c :: cs)
    | _, _ => none
  | _, _ => some []

/-- Empty if merge was not possible. -/
def makeMergedValue (m0 m1 : Match) : Except Py.Error (List Char) :=
  let newBitIndex := min m0.bitIndex m1.bitIndex
  let newLen := max (m0.bitIndex + m0.value.length) (m1.bitIndex + m1.value.length) - newBitIndex
  -- Normalize values to start at the new bit index and have the same length.
  match resizeValue m0.value m0.bitIndex newBitIndex newLen,
      resizeValue m1.value m1.bitIndex newBitIndex newLen with
  | .ok v0, .ok v1 => .ok ((mergeChars v0 v1).getD [])
  | .error e, _ => .error e
  | _, .error e => .error e

def mergeSharedPorts (mt m1 : Match) : Except Py.Error (Option Match) :=
  if mt.portIndex ≠ m1.portIndex ∨ mt.op ≠ .eq ∨ m1.op ≠ .eq then .ok none
  else
    match makeMergedValue mt m1 with
    | .error e => .error e
    | .ok [] => .ok none
    | .ok (ch :: chs) => .ok (some
      { name := mt.name ++ "&" ++ m1.name
        portIndex := mt.portIndex
        bitIndex := min mt.bitIndex m1.bitIndex
        op := mt.op
        value := ch :: chs
        sourceNames := mt.sourceNames ++ m1.sourceNames
        sourceValueIndices := mt.sourceValueIndices ++ m1.sourceValueIndices })

/-- Operator and value, grown to the width of the port. -/
def makePortMatchValue (mt : Match) (portWidth : ℕ) : Except Py.Error (List Char) :=
  match resizeValue mt.value mt.bitIndex 0 portWidth with
  | .error e => .error e
  | .ok value =>
    if value.length < portWidth then .error (.valueError "Internal Error: Wrong match value length.")
    else .ok (mt.op.chars ++ value)

/-! ### What a match means -/

/-- Truth of a match on the previous and current values of the ports. -/
def holds (port : ℕ → Signal) (mt : Match) : Bool :=
  valueHolds (port mt.portIndex) mt.op mt.bitIndex mt.value

/-- Every character is a bit character. -/
def BitChars (mt : Match) : Prop := ∀ ch ∈ mt.value, ch ∈ matchBitValues

/-- Every character is an upper case bit character. -/
def UpperBitChars (value : List Char) : Prop := ∀ ch ∈ value, ch ∈ matchBitValues ∧ ch.toUpper = ch

theorem upperBitChars_ensureProperTypes {mt : Match} (h : mt.BitChars) :
    UpperBitChars mt.ensureProperTypes.value := by
  intro ch hch
  obtain ⟨ch', hch', rfl⟩ := List.mem_map.mp hch
  exact ⟨toUpper_mem ch' (h ch' hch'), toUpper_idem ch' (h ch' hch')⟩

theorem holds_ensureProperTypes (port : ℕ → Signal) {mt : Match} (h : mt.BitChars) :
    mt.ensureProperTypes.holds port = mt.holds port := by
  have hrev : ∀ ch ∈ mt.value.reverse, ch ∈ matchBitValues := fun ch hch =>
    h ch (List.mem_reverse.mp hch)
  simp only [holds, valueHolds, ensureProperTypes, ← List.map_reverse,
    specified_map_toUpper _ _ hrev]

/-! ### Flipping a one bit `!=` -/

theorem holds_flipOneBitNeqToEq (port : ℕ → Signal) {mt : Match} (h : UpperBitChars mt.value)
    (hdc : mt.isDontCare = false) : mt.flipOneBitNeqToEq.holds port = mt.holds port := by
  obtain ⟨name, pi, bi, op, value, mu, sn, si⟩ := mt
  match op, value with
  | .neq, [ch] =>
    obtain ⟨hmem, hup⟩ := h ch (List.mem_singleton_self ch)
    have hX : ch ≠ 'X' := by simpa [isDontCare] using hdc
    have hneg : negateBitValue ch ≠ 'X' := by
      rw [Ne, negateBitValue_eq_X_iff ch hmem, hup]; exact hX
    simp [flipOneBitNeqToEq, holds, valueHolds, specified, MatchOp.holds, hup, hX, hneg,
      toUpper_negateBitValue ch hmem, bitHolds_negateBitValue ch hmem (by rw [hup]; exact hX)]
  | .neq, [] => rfl
  | .neq, _ :: _ :: _ => rfl
  | .eq, _ | .gt, _ | .lt, _ | .ge, _ | .le, _ | .reductionOr, _ => rfl

theorem upperBitChars_flipOneBitNeqToEq {mt : Match} (h : UpperBitChars mt.value) :
    UpperBitChars mt.flipOneBitNeqToEq.value := by
  unfold flipOneBitNeqToEq
  split
  · next ch _ hval =>
    have hmem := (h ch (by rw [hval]; exact List.mem_singleton_self ch)).1
    intro c hc
    rw [List.mem_singleton.mp hc]
    exact ⟨negateBitValue_mem ch hmem, toUpper_negateBitValue ch hmem⟩
  · exact h

/-! ### Growing a value -/

theorem resizeValue_ok {v v' : List Char} {b b' w : ℤ} (h : resizeValue v b b' w = .ok v') :
    b' ≤ b ∧ ∃ m, v' = List.replicate m 'X' ++ v ++ List.replicate (b - b').toNat 'X' := by
  unfold resizeValue at h
  split at h
  · cases h
  · next hb =>
    cases h
    exact ⟨by omega, _, by rw [List.append_assoc]⟩

/-- Growing a value leaves the bits it compares as they are. -/
theorem specified_resizeValue (sig : Signal) {v v' : List Char} {b b' w : ℤ}
    (h : resizeValue v b b' w = .ok v') :
    specified sig b' v'.reverse = specified sig b v.reverse := by
  obtain ⟨hb, m, rfl⟩ := resizeValue_ok h
  have hpos : b' + ((b - b').toNat : ℤ) = b := by omega
  rw [List.reverse_append, List.reverse_append, List.reverse_replicate, List.reverse_replicate,
    ← List.append_assoc, specified_pad, hpos]

theorem length_resizeValue {v v' : List Char} {b b' w : ℤ} (h : resizeValue v b b' w = .ok v') :
    (v'.length : ℤ) = w := by
  unfold resizeValue at h
  split at h
  · cases h
  · next hb =>
    cases h
    simp only [List.length_append, List.length_replicate]
    push_cast
    omega

theorem upperBitChars_replicate_X (n : ℕ) : UpperBitChars (List.replicate n 'X') := by
  intro ch hch
  rw [List.eq_of_mem_replicate hch]
  exact ⟨by simp [matchBitValues], rfl⟩

theorem upperBitChars_append {v w : List Char} (hv : UpperBitChars v) (hw : UpperBitChars w) :
    UpperBitChars (v ++ w) := fun ch hch => (List.mem_append.mp hch).elim (hv ch) (hw ch)

theorem upperBitChars_resizeValue {v v' : List Char} {b b' w : ℤ} (hv : UpperBitChars v)
    (h : resizeValue v b b' w = .ok v') : UpperBitChars v' := by
  obtain ⟨-, m, rfl⟩ := resizeValue_ok h
  exact upperBitChars_append (upperBitChars_append (upperBitChars_replicate_X _) hv)
    (upperBitChars_replicate_X _)

/-! ### Merging two values -/

theorem mergeCh_mem {a b c : Char} (h : mergeCh a b = some c) : c = a ∨ c = b := by
  unfold mergeCh at h
  split at h
  · exact Or.inl (Option.some.inj h).symm
  · split at h
    · exact Or.inr (Option.some.inj h).symm
    · cases h

/-- A merged character asks for both of its parts. -/
theorem bitHolds_mergeCh {a b c : Char} (h : mergeCh a b = some c) (prev cur : Bool) :
    bitHolds c prev cur = (bitHolds a prev cur && bitHolds b prev cur) := by
  unfold mergeCh at h
  split at h
  · next hab =>
    cases h
    rcases hab with rfl | rfl
    · rw [Bool.and_self]
    · rw [bitHolds_X, Bool.and_true]
  · split at h
    · next ha => cases h; rw [ha, bitHolds_X, Bool.true_and]
    · cases h

theorem mergeChars_cons {a b : Char} {as bs cs : List Char}
    (h : mergeChars (a :: as) (b :: bs) = some cs) :
    ∃ c cs', mergeCh a b = some c ∧ mergeChars as bs = some cs' ∧ cs = c :: cs' := by
  simp only [mergeChars] at h
  split at h
  · next c cs' hc hcs => cases h; exact ⟨c, cs', hc, hcs, rfl⟩
  · cases h

theorem length_mergeChars : ∀ {as bs cs : List Char}, as.length = bs.length →
    mergeChars as bs = some cs → cs.length = as.length
  | [], bs, cs, _, h => by cases h; rfl
  | a :: as, b :: bs, cs, hlen, h => by
    obtain ⟨c, cs', -, hcs, rfl⟩ := mergeChars_cons h
    rw [List.length_cons, List.length_cons, length_mergeChars (by simpa using hlen) hcs]

theorem upperBitChars_mergeChars : ∀ {as bs cs : List Char}, UpperBitChars as → UpperBitChars bs →
    mergeChars as bs = some cs → UpperBitChars cs
  | [], bs, cs, _, _, h => by cases h; exact fun _ hch => absurd hch List.not_mem_nil
  | _ :: _, [], cs, _, _, h => by cases h; exact fun _ hch => absurd hch List.not_mem_nil
  | a :: as, b :: bs, cs, ha, hb, h => by
    obtain ⟨c, cs', hc, hcs, rfl⟩ := mergeChars_cons h
    obtain ⟨ha₁, has⟩ := List.forall_mem_cons.mp ha
    obtain ⟨hb₁, hbs⟩ := List.forall_mem_cons.mp hb
    refine List.forall_mem_cons.mpr ⟨?_, upperBitChars_mergeChars has hbs hcs⟩
    rcases mergeCh_mem hc with rfl | rfl
    · exact ha₁
    · exact hb₁

/-- Equality with a value, most significant character first, as a conjunction over its bits. -/
def bitsHold (sig : Signal) (pos : ℤ) (value : List Char) : Bool :=
  (specified sig pos value.reverse).all fun c => bitHolds c.ch c.prev c.cur

theorem bitsHold_cons (sig : Signal) (pos : ℤ) {ch : Char} {l : List Char} (h : ch.toUpper = ch) :
    bitsHold sig pos (ch :: l) = (bitHolds ch (sig (pos + l.length)).1 (sig (pos + l.length)).2 &&
      bitsHold sig pos l) := by
  rw [bitsHold, List.reverse_cons, specified_append, List.all_append, all_specified_cons _ _ _ h,
    List.length_reverse, Bool.and_comm]
  simp [specified, bitsHold]

theorem bitsHold_mergeChars (sig : Signal) (pos : ℤ) : ∀ {as bs cs : List Char},
    as.length = bs.length → UpperBitChars as → UpperBitChars bs → mergeChars as bs = some cs →
    bitsHold sig pos cs = (bitsHold sig pos as && bitsHold sig pos bs)
  | [], [], cs, _, _, _, h => by cases h; rfl
  | a :: as, b :: bs, cs, hlen, ha, hb, h => by
    obtain ⟨c, cs', hc, hcs, rfl⟩ := mergeChars_cons h
    obtain ⟨⟨-, hua⟩, has⟩ := List.forall_mem_cons.mp ha
    obtain ⟨⟨-, hub⟩, hbs⟩ := List.forall_mem_cons.mp hb
    have hlen' : as.length = bs.length := by simpa using hlen
    have huc : c.toUpper = c := by rcases mergeCh_mem hc with rfl | rfl <;> assumption
    rw [bitsHold_cons sig pos huc, bitsHold_cons sig pos hua, bitsHold_cons sig pos hub,
      bitHolds_mergeCh hc, bitsHold_mergeChars sig pos hlen' has hbs hcs,
      length_mergeChars hlen' hcs, ← hlen']
    ac_rfl

theorem makeMergedValue_ok {m0 m1 : Match} {v : List Char} (h : makeMergedValue m0 m1 = .ok v) :
    ∃ w v0 v1, resizeValue m0.value m0.bitIndex (min m0.bitIndex m1.bitIndex) w = .ok v0 ∧
      resizeValue m1.value m1.bitIndex (min m0.bitIndex m1.bitIndex) w = .ok v1 ∧
      v = (mergeChars v0 v1).getD [] := by
  simp only [makeMergedValue] at h
  split at h
  · next v0 v1 h0 h1 => cases h; exact ⟨_, v0, v1, h0, h1, rfl⟩
  · cases h
  · cases h

theorem mergeSharedPorts_some {mt m1 mt' : Match} (h : mt.mergeSharedPorts m1 = .ok (some mt')) :
    mt.portIndex = m1.portIndex ∧ mt.op = .eq ∧ m1.op = .eq ∧ mt'.portIndex = mt.portIndex ∧
      mt'.op = .eq ∧ ∃ w v0 v1,
        resizeValue mt.value mt.bitIndex mt'.bitIndex w = .ok v0 ∧
        resizeValue m1.value m1.bitIndex mt'.bitIndex w = .ok v1 ∧
        mergeChars v0 v1 = some mt'.value := by
  simp only [mergeSharedPorts] at h
  split at h
  · cases h
  · next hops =>
    obtain ⟨hport, hop, hop1⟩ : mt.portIndex = m1.portIndex ∧ mt.op = .eq ∧ m1.op = .eq := by
      simpa only [not_or, not_not] using hops
    split at h
    · cases h
    · cases h
    · next ch chs hv =>
      cases h
      obtain ⟨w, v0, v1, h0, h1, hmerged⟩ := makeMergedValue_ok hv
      refine ⟨hport, hop, hop1, rfl, hop, w, v0, v1, h0, h1, ?_⟩
      cases hm : mergeChars v0 v1 with
      | none => rw [hm] at hmerged; cases hmerged
      | some cs => rw [hm] at hmerged; rw [hmerged]; rfl

theorem upperBitChars_mergeSharedPorts {mt m1 mt' : Match} (hu : UpperBitChars mt.value)
    (hu1 : UpperBitChars m1.value) (h : mt.mergeSharedPorts m1 = .ok (some mt')) :
    UpperBitChars mt'.value := by
  obtain ⟨-, -, -, -, -, w, v0, v1, h0, h1, hm⟩ := mergeSharedPorts_some h
  exact upperBitChars_mergeChars (upperBitChars_resizeValue hu h0) (upperBitChars_resizeValue hu1 h1)
    hm

theorem holds_of_op_eq (port : ℕ → Signal) {mt : Match} (h : mt.op = .eq) :
    mt.holds port = bitsHold (port mt.portIndex) mt.bitIndex mt.value := by
  rw [holds, h]; rfl

theorem bitsHold_resizeValue (sig : Signal) {v v' : List Char} {b b' w : ℤ}
    (h : resizeValue v b b' w = .ok v') : bitsHold sig b' v' = bitsHold sig b v := by
  rw [bitsHold, specified_resizeValue sig h, bitsHold]

/-- A merged match holds exactly when both of its parts hold. -/
theorem holds_mergeSharedPorts (port : ℕ → Signal) {mt m1 mt' : Match}
    (hu : UpperBitChars mt.value) (hu1 : UpperBitChars m1.value)
    (h : mt.mergeSharedPorts m1 = .ok (some mt')) :
    mt'.holds port = (mt.holds port && m1.holds port) := by
  obtain ⟨hport, hop, hop1, hport', hop', w, v0, v1, h0, h1, hm⟩ := mergeSharedPorts_some h
  have hlen : v0.length = v1.length := by
    have := (length_resizeValue h0).trans (length_resizeValue h1).symm
    exact_mod_cast this
  rw [holds_of_op_eq port hop', holds_of_op_eq port hop, holds_of_op_eq port hop1, hport',
    bitsHold_mergeChars _ _ hlen (upperBitChars_resizeValue hu h0)
      (upperBitChars_resizeValue hu1 h1) hm,
    bitsHold_resizeValue _ h0, bitsHold_resizeValue _ h1, hport]

end Match

end Chipscopy.Mapping
