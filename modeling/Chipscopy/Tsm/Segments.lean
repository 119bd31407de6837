import Chipscopy.Lib.Digits
import Chipscopy.IlaMapper.Rewrite
import Chipscopy.Tsm.Flatten

/-! Compares of probes that lie on several ranges of port bits

    `map_tsm_mu_tc_to_props` adds one match for each port range of a probe, all with the operator
    of the compare, and the matches are joined by the operator of the condition. For `==` joined by
    `&&`, and for `!=` joined by `||`, this is the compare of the whole probe. For the other
    combinations it is only for special compare values, which are named exactly here. -/

namespace Chipscopy.Tsm

open Mapping (MatchOp Signal Cell specified valueHolds matchBitValues bitHolds portNumber
  valueNumber)

def CompareOp.toMatchOp : CompareOp → MatchOp
  | .eq => .eq
  | .neq => .neq
  | .gt => .gt
  | .lt => .lt
  | .ge => .ge
  | .le => .le

/-- Operator of the mapper for the probe operator of a condition. -/
def LogicOp.toConditionOp : LogicOp → Mapping.ConditionOp
  | .and => .and
  | .or => .or

def MapPortSeq.width (seq : MapPortSeq) : ℕ := seq.highIdx - seq.lowIdx + 1

/-- Pieces of the value for the port ranges, cut off its end. -/
def sliceValue (value : List Char) : ℤ → List MapPortSeq → List (List Char)
  | _, [] => []
  | idx, seq :: seqs =>
    Py.slice value (idx - seq.width) idx :: sliceValue value (idx - seq.width) seqs

/-- One match for each port range. -/
def addProbeValueToPorts (tsmMu : ILATsmMatchUnit) (seqs : List MapPortSeq)
    (cond : Mapping.Condition) : Mapping.Condition :=
  (seqs.zip (sliceValue tsmMu.compareValue tsmMu.compareValue.length seqs)).foldl
    (fun c (seq, val) => c.addProbeValue tsmMu.probe.name seq.portIdx seq.lowIdx
      tsmMu.getCompareOperator.toMatchOp val) cond

def makeTcName (stateIndex branchIndex : ℕ) : String :=
  "tc" ++ toString (stateIndex + branchIndex * maxStateCount)

/-- The mapper condition of a branch, with the matches of all its probe compares. -/
def mapperCondition (stateIndex branchIndex : ℕ) (cond : ILATsmCondition) : Mapping.Condition :=
  cond.matchUnits.foldl (fun c tsmMu => addProbeValueToPorts tsmMu tsmMu.probe.map c)
    { name := makeTcName stateIndex branchIndex, op := cond.getMapperProbeOperator.toConditionOp }

/-- Conditions that `map_tsm_mu_tc_to_props` gives to the mapper. -/
def mapperConditions (states : List ILATsmState) : List Mapping.Condition :=
  states.flatMap fun state => state.branches.zipIdx.filterMap fun (branch, branchIndex) =>
    match branch.condition with
    | none => none
    | some cond =>
      if cond.matchUnits.isEmpty then none
      else some (mapperCondition state.index branchIndex cond)

/-! ### Meaning of a compare -/

/-- The probe put together from its port ranges, the first one at the least significant bits. -/
def assemble (port : ℕ → Signal) : List MapPortSeq → Signal
  | [] => fun _ => (false, false)
  | seq :: seqs => fun k =>
    if k < seq.width then port seq.portIdx (seq.lowIdx + k)
    else assemble port seqs (k - seq.width)

/-- Truth of a compare on the whole probe. -/
def ILATsmMatchUnit.holds (port : ℕ → Signal) (mu : ILATsmMatchUnit) : Bool :=
  valueHolds (assemble port mu.probe.map) mu.getCompareOperator.toMatchOp 0 mu.compareValue

/-- Values that pass the number checks: bit characters, and only `0` and `1` for an order. -/
def ValidValue (op : CompareOp) (value : List Char) : Prop :=
  (∀ ch ∈ value, ch ∈ matchBitValues) ∧
    (op ≠ .eq → op ≠ .neq → ∀ ch ∈ value, ch = '0' ∨ ch = '1')

def Zeros (value : List Char) : Prop := ∀ ch ∈ value, ch = '0'

def Ones (value : List Char) : Prop := ∀ ch ∈ value, ch = '1'

def DontCares (value : List Char) : Prop := ∀ ch ∈ value, ch.toUpper = 'X'

/-- The pieces of a value, least significant piece first, for which compares of the pieces joined by
    `o` are the compare of the whole value. -/
def SplitFaithful (pieces : List (List Char)) : CompareOp → LogicOp → Prop
  | .eq, .and | .neq, .or => True
  | .eq, .or | .neq, .and => pieces.length = 1 ∨ pieces ≠ [] ∧ ∀ v ∈ pieces, DontCares v
  | .lt, .and | .ge, .or => pieces.length = 1 ∨ pieces ≠ [] ∧ ∀ v ∈ pieces, Zeros v
  | .le, .or | .gt, .and => pieces.length = 1 ∨ pieces ≠ [] ∧ ∀ v ∈ pieces, Ones v
  | .lt, .or | .ge, .and => pieces.Pairwise fun v w => Zeros v ∨ Ones w
  | .le, .and | .gt, .or => pieces.Pairwise fun v w => Ones v ∨ Zeros w

/-- No bit of a port belongs to two ranges. -/
def DisjointSeqs (seqs : List MapPortSeq) : Prop :=
  seqs.Pairwise fun a b => a.portIdx ≠ b.portIdx ∨ a.highIdx < b.lowIdx ∨ b.highIdx < a.lowIdx

/-! ### Pieces -/

/-- A value, least significant character first, cut into pieces as wide as the ranges. -/
def chunks : List Char → List MapPortSeq → List (MapPortSeq × List Char)
  | _, [] => []
  | l, seq :: seqs => (seq, l.take seq.width) :: chunks (l.drop seq.width) seqs

def totalWidth (seqs : List MapPortSeq) : ℕ := (seqs.map MapPortSeq.width).sum

theorem zip_sliceValue (value : List Char) : ∀ (seqs : List MapPortSeq) (idx : ℕ),
    idx ≤ value.length → totalWidth seqs ≤ idx →
    (seqs.zip (sliceValue value idx seqs)).map (fun s => (s.1, s.2.reverse)) =
      chunks (value.take idx).reverse seqs
  | [], _, _, _ => rfl
  | seq :: seqs, idx, hidx, htotal => by
    have hw : seq.width + totalWidth seqs ≤ idx := by
      simpa [totalWidth] using htotal
    have hsub : (idx : ℤ) - seq.width = ((idx - seq.width : ℕ) : ℤ) := by omega
    have ih := zip_sliceValue value seqs (idx - seq.width) (by omega) (by omega)
    rw [sliceValue, hsub, List.zip_cons_cons, List.map_cons, ih, chunks, Py.slice_natCast _ hidx]
    congr 1
    · rw [Nat.min_eq_left (by omega), List.reverse_drop, List.length_take, Nat.min_eq_left hidx]
      congr 2
      omega
    · rw [List.drop_reverse, List.length_take, Nat.min_eq_left hidx, List.take_take,
        Nat.min_eq_left (Nat.sub_le _ _)]

/-- The bits of a piece that are compared. -/
def pieceCells (port : ℕ → Signal) (piece : MapPortSeq × List Char) : List Cell :=
  specified (port piece.1.portIdx) piece.1.lowIdx piece.2

theorem specified_congr {sig sig' : Signal} : ∀ {l : List Char} {pos pos' : ℤ},
    (∀ k : ℕ, k < l.length → sig (pos + k) = sig' (pos' + k)) →
      specified sig pos l = specified sig' pos' l
  | [], _, _, _ => rfl
  | ch :: l, pos, pos', h => by
    have h0 : sig pos = sig' pos' := by simpa using h 0 (Nat.succ_pos _)
    have ih : specified sig (pos + 1) l = specified sig' (pos' + 1) l := specified_congr fun k hk => by
      have := h (k + 1) (Nat.succ_lt_succ hk)
      push_cast at this
      rwa [← add_assoc, ← add_assoc, add_right_comm, add_right_comm pos'] at this
    simp only [specified, h0, ih]

theorem specified_split (sig : Signal) (pos : ℤ) (n : ℕ) (l : List Char) (h : n ≤ l.length) :
    specified sig pos l = specified sig pos (l.take n) ++ specified sig (pos + n) (l.drop n) := by
  have hsplit := Mapping.specified_append sig pos (l.take n) (l.drop n)
  rwa [List.take_append_drop, List.length_take, Nat.min_eq_left h] at hsplit

theorem assemble_cons (port : ℕ → Signal) (seq : MapPortSeq) (seqs : List MapPortSeq) (k : ℤ) :
    assemble port (seq :: seqs) k = if k < seq.width then port seq.portIdx (seq.lowIdx + k)
      else assemble port seqs (k - seq.width) := rfl

/-- The compared bits of the whole probe are those of its pieces. -/
theorem specified_assemble (port : ℕ → Signal) : ∀ (seqs : List MapPortSeq) (l : List Char),
    l.length = totalWidth seqs →
      specified (assemble port seqs) 0 l = (chunks l seqs).flatMap (pieceCells port)
  | [], l, hlen => by
    obtain rfl : l = [] := List.length_eq_zero_iff.mp (by simpa [totalWidth] using hlen)
    rfl
  | seq :: seqs, l, hlen => by
    have hw : l.length = seq.width + totalWidth seqs := by simpa [totalWidth] using hlen
    have hrest : (l.drop seq.width).length = totalWidth seqs := by rw [List.length_drop]; omega
    rw [specified_split _ 0 seq.width l (by omega), chunks, List.flatMap_cons,
      ← specified_assemble port seqs _ hrest]
    congr 1
    · refine specified_congr fun k hk => ?_
      rw [List.length_take] at hk
      rw [zero_add, assemble_cons, if_pos (by omega)]
    · refine specified_congr fun k hk => ?_
      rw [zero_add, zero_add, assemble_cons, if_neg (by omega), add_sub_cancel_left]

/-! ### The matches of a compare -/

theorem upperNoUnderscore {value : List Char} (h : ∀ ch ∈ value, ch ∈ matchBitValues) :
    (value.map Char.toUpper).filter (· ≠ '_') = value.map Char.toUpper := by
  refine List.filter_eq_self.mpr fun ch hch => ?_
  obtain ⟨ch', hch', rfl⟩ := List.mem_map.mp hch
  have hmem := Mapping.toUpper_mem ch' (h ch' hch')
  have hnot : '_' ∉ matchBitValues := by simp [matchBitValues]
  rw [decide_eq_true_iff]
  rintro heq
  exact hnot (heq ▸ hmem)

/-- Truth of the match of a piece. -/
theorem holds_addProbeValue (port : ℕ → Signal) (name : String) (seq : MapPortSeq) (op : MatchOp)
    {val : List Char} (h : ∀ ch ∈ val, ch ∈ matchBitValues) :
    Mapping.Match.holds port
        { name := name, portIndex := seq.portIdx, bitIndex := seq.lowIdx, op := op,
          value := (val.map Char.toUpper).filter (· ≠ '_') } =
      op.holds (pieceCells port (seq, val.reverse)) := by
  rw [Mapping.Match.holds, upperNoUnderscore h, valueHolds, ← List.map_reverse,
    Mapping.specified_map_toUpper _ _ fun ch hch => h ch (List.mem_reverse.mp hch)]
  rfl

theorem join_matchList (o : LogicOp) (port : ℕ → Signal) (name : String)
    (ms : List Mapping.Match) :
    Mapping.Condition.holds port { name := name, op := o.toConditionOp, matchList := ms } =
      o.join (Mapping.Match.holds port) ms := by
  cases o <;> rfl

theorem matchList_foldl (name : String) (op : MatchOp) :
    ∀ (pieces : List (MapPortSeq × List Char)) (cond : Mapping.Condition),
      pieces.foldl (fun c s => c.addProbeValue name s.1.portIdx s.1.lowIdx op s.2) cond =
        { cond with matchList := cond.matchList ++ pieces.map fun s =>
            { name := name, portIndex := s.1.portIdx, bitIndex := s.1.lowIdx, op := op,
              value := (s.2.map Char.toUpper).filter (· ≠ '_') } }
  | [], cond => by simp
  | s :: pieces, cond => by
    rw [List.foldl_cons, matchList_foldl name op pieces]
    simp [Mapping.Condition.addProbeValue]

/-- Pieces of the compare value of a match unit, least significant character first. -/
def ILATsmMatchUnit.pieces (mu : ILATsmMatchUnit) : List (MapPortSeq × List Char) :=
  chunks mu.compareValue.reverse mu.probe.map

theorem mem_zip_sliceValue {value val : List Char} {seq : MapPortSeq} : ∀ {idx : ℤ}
    {seqs : List MapPortSeq}, (seq, val) ∈ seqs.zip (sliceValue value idx seqs) →
      ∀ ch ∈ val, ch ∈ value
  | idx, s :: seqs, hmem, ch, hch => by
    rw [sliceValue, List.zip_cons_cons] at hmem
    rcases List.mem_cons.mp hmem with heq | hmem
    · obtain ⟨-, rfl⟩ := Prod.mk.inj heq
      exact List.mem_of_mem_take (List.mem_of_mem_drop hch)
    · exact mem_zip_sliceValue hmem ch hch

/-- The matches added for a compare, joined by `o`, as compares of its pieces. -/
theorem holds_addProbeValueToPorts (port : ℕ → Signal) (o : LogicOp) (name : String)
    {mu : ILATsmMatchUnit} (hlen : mu.compareValue.length = totalWidth mu.probe.map)
    (hvalue : ∀ ch ∈ mu.compareValue, ch ∈ matchBitValues) :
    (addProbeValueToPorts mu mu.probe.map { name := name, op := o.toConditionOp }).holds port =
      o.join (fun piece => mu.getCompareOperator.toMatchOp.holds (pieceCells port piece))
        mu.pieces := by
  have hpieces := zip_sliceValue mu.compareValue mu.probe.map mu.compareValue.length
    le_rfl hlen.ge
  rw [List.take_length] at hpieces
  rw [addProbeValueToPorts, matchList_foldl, List.nil_append, join_matchList,
    ILATsmMatchUnit.pieces, ← hpieces]
  cases o
  all_goals
    simp only [LogicOp.join, List.all_map, List.any_map]
    rw [Bool.eq_iff_iff]
    simp only [List.all_eq_true, List.any_eq_true, Function.comp]
  · refine forall_congr' fun s => forall_congr' fun hs => ?_
    rw [holds_addProbeValue port _ _ _ fun ch hch => hvalue ch (mem_zip_sliceValue hs ch hch)]
  · refine exists_congr fun s => and_congr_right fun hs => ?_
    rw [holds_addProbeValue port _ _ _ fun ch hch => hvalue ch (mem_zip_sliceValue hs ch hch)]

/-- The compare of the whole probe on the bits of its pieces. -/
theorem holds_eq_pieces (port : ℕ → Signal) {mu : ILATsmMatchUnit}
    (hlen : mu.compareValue.length = totalWidth mu.probe.map) :
    mu.holds port =
      mu.getCompareOperator.toMatchOp.holds (mu.pieces.flatMap (pieceCells port)) := by
  rw [ILATsmMatchUnit.holds, valueHolds, specified_assemble port _ _ (by simpa using hlen)]
  rfl

end Chipscopy.Tsm
