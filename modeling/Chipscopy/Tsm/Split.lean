import Chipscopy.Tsm.Segments

/-! When splitting a compare keeps its meaning

    `SplitFaithful` is enough for every port map. When no port bit belongs to two ranges the bits
    of the pieces can be chosen freely, and it is necessary as well. `!=`, `>=` and `>` are the
    negations of `==`, `<` and `<=`, with `&&` and `||` exchanged, so three operators are left. -/

namespace Chipscopy.Tsm

open Mapping (MatchOp Signal Cell specified valueHolds matchBitValues bitHolds portNumber
  valueNumber)

/-- Compares of the pieces joined by `o` are the compare of the whole value. -/
def Faithful (pieces : List (MapPortSeq × List Char)) (op : CompareOp) (o : LogicOp) : Prop :=
  ∀ port, o.join (fun piece => op.toMatchOp.holds (pieceCells port piece)) pieces =
    op.toMatchOp.holds (pieces.flatMap (pieceCells port))

/-- Ranges without common bits, and pieces as wide as their ranges. -/
structure Free (pieces : List (MapPortSeq × List Char)) : Prop where
  disjoint : DisjointSeqs (pieces.map (·.1))
  length_eq : ∀ piece ∈ pieces, piece.2.length = piece.1.width

/-! ### Negated operators -/

def LogicOp.dual : LogicOp → LogicOp
  | .and => .or
  | .or => .and

/-- The operator that is false where this one is true. -/
def CompareOp.negated : CompareOp → CompareOp
  | .eq => .neq
  | .neq => .eq
  | .lt => .ge
  | .ge => .lt
  | .le => .gt
  | .gt => .le

theorem holds_negated (op : CompareOp) (cells : List Cell) :
    op.negated.toMatchOp.holds cells = !op.toMatchOp.holds cells := by
  cases op <;> simp [CompareOp.negated, CompareOp.toMatchOp, MatchOp.holds, ← decide_not]

theorem join_not {α : Type*} (o : LogicOp) (f : α → Bool) (l : List α) :
    o.join (fun a => !f a) l = !o.dual.join f l := by
  cases o
  · exact (List.not_any_eq_all_not (l := l) (p := f)).symm
  · exact (List.not_all_eq_any_not (l := l) (p := f)).symm

theorem faithful_negated (pieces : List (MapPortSeq × List Char)) (op : CompareOp) (o : LogicOp) :
    Faithful pieces op.negated o ↔ Faithful pieces op o.dual := by
  refine forall_congr' fun port => ?_
  simp only [holds_negated, join_not]
  exact Bool.not_inj_iff

theorem splitFaithful_negated (pieces : List (List Char)) (op : CompareOp) (o : LogicOp) :
    SplitFaithful pieces op.negated o ↔ SplitFaithful pieces op o.dual := by
  cases op <;> cases o <;> rfl

/-! ### Pieces as places -/

/-- Number that a value of zeros and ones stands for, least significant character first. -/
def charNumber : List Char → ℕ
  | [] => 0
  | ch :: l => (ch == '1').toNat + 2 * charNumber l

def Binary (l : List Char) : Prop := ∀ ch ∈ l, ch = '0' ∨ ch = '1'

theorem specified_binary_cons (sig : Signal) (pos : ℤ) {ch : Char} (l : List Char)
    (h : ch = '0' ∨ ch = '1') : specified sig pos (ch :: l) =
      ⟨ch, (sig pos).1, (sig pos).2⟩ :: specified sig (pos + 1) l := by
  rcases h with rfl | rfl <;> rfl

theorem length_specified (sig : Signal) : ∀ (pos : ℤ) {l : List Char}, Binary l →
    (specified sig pos l).length = l.length
  | _, [], _ => rfl
  | pos, ch :: l, h => by
    obtain ⟨hch, hl⟩ := List.forall_mem_cons.mp h
    rw [specified_binary_cons sig pos l hch, List.length_cons, length_specified sig _ hl,
      List.length_cons]

theorem valueNumber_specified (sig : Signal) : ∀ (pos : ℤ) {l : List Char}, Binary l →
    valueNumber (specified sig pos l) = charNumber l
  | _, [], _ => rfl
  | pos, ch :: l, h => by
    obtain ⟨hch, hl⟩ := List.forall_mem_cons.mp h
    rw [specified_binary_cons sig pos l hch, valueNumber, valueNumber_specified sig _ hl,
      charNumber]

theorem portNumber_append : ∀ a b : List Cell,
    portNumber (a ++ b) = portNumber a + 2 ^ a.length * portNumber b
  | [], b => by simp [portNumber]
  | c :: a, b => by
    rw [List.cons_append, portNumber, portNumber_append a b, portNumber, List.length_cons]
    ring

theorem valueNumber_append : ∀ a b : List Cell,
    valueNumber (a ++ b) = valueNumber a + 2 ^ a.length * valueNumber b
  | [], b => by simp [valueNumber]
  | c :: a, b => by
    rw [List.cons_append, valueNumber, valueNumber_append a b, valueNumber, List.length_cons]
    ring

theorem portNumber_lt : ∀ a : List Cell, portNumber a < 2 ^ a.length
  | [] => Nat.one_pos
  | c :: a => by
    have := portNumber_lt a
    have := Bool.toNat_lt c.cur
    rw [portNumber, List.length_cons, Nat.pow_succ]
    omega

theorem charNumber_lt : ∀ l : List Char, charNumber l < 2 ^ l.length
  | [] => Nat.one_pos
  | ch :: l => by
    have := charNumber_lt l
    have := Bool.toNat_lt (ch == '1')
    rw [charNumber, List.length_cons, Nat.pow_succ]
    omega

theorem zeros_iff : ∀ {l : List Char}, Binary l → (Zeros l ↔ charNumber l = 0)
  | [], _ => by simp [Zeros, charNumber]
  | ch :: l, h => by
    obtain ⟨hch, hl⟩ := List.forall_mem_cons.mp h
    have ih := zeros_iff hl
    simp only [Zeros, List.forall_mem_cons, charNumber] at ih ⊢
    rcases hch with rfl | rfl
    · simpa using ih
    · simp

theorem ones_iff : ∀ {l : List Char}, Binary l → (Ones l ↔ charNumber l = 2 ^ l.length - 1)
  | [], _ => by simp [Ones, charNumber]
  | ch :: l, h => by
    obtain ⟨hch, hl⟩ := List.forall_mem_cons.mp h
    have ih := ones_iff hl
    have hlt := charNumber_lt l
    simp only [Ones, List.forall_mem_cons, charNumber, List.length_cons, Nat.pow_succ] at ih ⊢
    rw [ih]
    rcases hch with rfl | rfl
    · simp
      omega
    · simp
      omega

/-- Port bits and value bits of a piece as digits of one place. -/
def place (port : ℕ → Signal) (piece : MapPortSeq × List Char) : Digits.Place where
  base := 2 ^ piece.2.length
  left := portNumber (pieceCells port piece)
  right := charNumber piece.2

def slotOf (piece : MapPortSeq × List Char) : ℕ × ℕ := (2 ^ piece.2.length, charNumber piece.2)

section Places

variable {pieces : List (MapPortSeq × List Char)} (port : ℕ → Signal)

theorem place_inRange (hbin : ∀ piece ∈ pieces, Binary piece.2) :
    ∀ x ∈ pieces.map (place port), x.InRange := by
  refine List.forall_mem_map.mpr fun piece hpiece => ⟨?_, charNumber_lt _⟩
  have hlen := length_specified (port piece.1.portIdx) piece.1.lowIdx (hbin piece hpiece)
  exact (portNumber_lt _).trans_eq (congrArg (2 ^ ·) hlen)

theorem number_left (hbin : ∀ piece ∈ pieces, Binary piece.2) :
    Digits.number Digits.Place.left (pieces.map (place port)) =
      portNumber (pieces.flatMap (pieceCells port)) := by
  induction pieces with
  | nil => rfl
  | cons piece pieces ih =>
    obtain ⟨hp, hps⟩ := List.forall_mem_cons.mp hbin
    rw [List.map_cons, Digits.number, ih hps, List.flatMap_cons, portNumber_append, pieceCells,
      length_specified _ _ hp]
    rfl

theorem number_right (hbin : ∀ piece ∈ pieces, Binary piece.2) :
    Digits.number Digits.Place.right (pieces.map (place port)) =
      valueNumber (pieces.flatMap (pieceCells port)) := by
  induction pieces with
  | nil => rfl
  | cons piece pieces ih =>
    obtain ⟨hp, hps⟩ := List.forall_mem_cons.mp hbin
    rw [List.map_cons, Digits.number, ih hps, List.flatMap_cons, valueNumber_append, pieceCells,
      length_specified _ _ hp, valueNumber_specified _ _ hp]
    rfl

end Places

/-! ### Free pieces take any bits -/

/-- A port position that bit `k` of piece `i` lies at. -/
def Hits (pieces : List (MapPortSeq × List Char)) (p : ℕ) (pos : ℤ) (ik : ℕ × ℕ) : Prop :=
  ∃ h : ik.1 < pieces.length, ik.2 < pieces[ik.1].2.length ∧ pieces[ik.1].1.portIdx = p ∧
    pieces[ik.1].1.lowIdx + (ik.2 : ℤ) = pos

theorem Free.hits_unique {pieces : List (MapPortSeq × List Char)} (h : Free pieces) {p : ℕ}
    {pos : ℤ} {ik jl : ℕ × ℕ} (hik : Hits pieces p pos ik) (hjl : Hits pieces p pos jl) :
    ik = jl := by
  obtain ⟨i, k⟩ := ik
  obtain ⟨j, l⟩ := jl
  obtain ⟨hi, hk, hpi, hposi⟩ := hik
  obtain ⟨hj, hl, hpj, hposj⟩ := hjl
  dsimp only at *
  have hdisjoint := List.pairwise_iff_getElem.mp (List.pairwise_map.mp h.disjoint)
  have hwi : pieces[i].2.length = pieces[i].1.width := h.length_eq _ (List.getElem_mem hi)
  have hwj : pieces[j].2.length = pieces[j].1.width := h.length_eq _ (List.getElem_mem hj)
  have hlei := pieces[i].1.le
  have hlej := pieces[j].1.le
  rw [MapPortSeq.width] at hwi hwj
  rcases Nat.lt_trichotomy i j with hij | rfl | hij
  · have := hdisjoint i j hi hj hij
    omega
  · exact Prod.ext rfl (by dsimp only; omega)
  · have := hdisjoint j i hj hi hij
    omega

/-- Any previous and current bits are shown by some ports. -/
theorem Free.exists_port {pieces : List (MapPortSeq × List Char)} (h : Free pieces)
    (bits : ℕ → ℕ → Bool × Bool) : ∃ port : ℕ → Signal, ∀ i (hi : i < pieces.length) (k : ℕ),
      k < pieces[i].2.length → port pieces[i].1.portIdx (pieces[i].1.lowIdx + (k : ℤ)) = bits i k := by
  classical
  refine ⟨fun p pos => if hit : ∃ ik, Hits pieces p pos ik then
    bits hit.choose.1 hit.choose.2 else (false, false), fun i hi k hk => ?_⟩
  have hik : Hits pieces pieces[i].1.portIdx (pieces[i].1.lowIdx + (k : ℤ)) (i, k) :=
    ⟨hi, hk, rfl, rfl⟩
  have hit : ∃ ik, Hits pieces pieces[i].1.portIdx (pieces[i].1.lowIdx + (k : ℤ)) ik := ⟨_, hik⟩
  dsimp only
  rw [dif_pos hit, h.hits_unique hit.choose_spec hik]

theorem portNumber_testBit (sig : Signal) : ∀ {l : List Char} {pos : ℤ} {n : ℕ}, Binary l →
    (∀ k : ℕ, k < l.length → sig (pos + k) = (false, n.testBit k)) → n < 2 ^ l.length →
      portNumber (specified sig pos l) = n
  | [], pos, n, _, _, hn => by
    rw [List.length_nil, pow_zero] at hn
    exact (Nat.lt_one_iff.mp hn).symm
  | ch :: l, pos, n, hbin, hsig, hn => by
    obtain ⟨hch, hl⟩ := List.forall_mem_cons.mp hbin
    have h0 : (sig pos).2 = n.testBit 0 := by
      have := hsig 0 (Nat.succ_pos _)
      rw [Nat.cast_zero, add_zero] at this
      rw [this]
    have hrest : portNumber (specified sig (pos + 1) l) = n / 2 := by
      refine portNumber_testBit sig hl (fun k hk => ?_) ?_
      · have := hsig (k + 1) (Nat.succ_lt_succ hk)
        rw [Nat.testBit_succ] at this
        rw [← this]
        push_cast
        ring_nf
      · rw [List.length_cons, Nat.pow_succ] at hn
        omega
    rw [specified_binary_cons sig pos l hch, portNumber, hrest]
    dsimp only
    rw [h0, Nat.testBit_zero]
    rcases Nat.mod_two_eq_zero_or_one n with h | h <;> simp [h] <;> omega

/-- Every choice of digits below the bases is shown by some ports. -/
theorem Free.exists_places {pieces : List (MapPortSeq × List Char)} (h : Free pieces)
    (hbin : ∀ piece ∈ pieces, Binary piece.2) {xs : List Digits.Place}
    (hslots : xs.map Digits.Place.slot = pieces.map slotOf) (hrange : ∀ x ∈ xs, x.InRange) :
    ∃ port, pieces.map (place port) = xs := by
  have hlen : xs.length = pieces.length := by
    have := congrArg List.length hslots
    rwa [List.length_map, List.length_map] at this
  obtain ⟨port, hport⟩ := h.exists_port fun i k =>
    (false, ((xs[i]?.map Digits.Place.left).getD 0).testBit k)
  refine ⟨port, List.ext_getElem (by rw [List.length_map, hlen]) fun i hi hi' => ?_⟩
  rw [List.length_map] at hi
  have hslot : xs[i].slot = slotOf pieces[i] := by
    have := congrArg (·[i]?) hslots
    rwa [List.getElem?_map, List.getElem?_map, List.getElem?_eq_getElem hi',
      List.getElem?_eq_getElem hi, Option.map_some, Option.map_some, Option.some_inj] at this
  obtain ⟨hbase, hright⟩ := Prod.mk.inj hslot
  have hleft : portNumber (pieceCells port pieces[i]) = xs[i].left := by
    refine portNumber_testBit _ (hbin _ (List.getElem_mem hi)) (fun k hk => ?_) ?_
    · rw [hport i hi k hk, List.getElem?_eq_getElem hi', Option.map_some, Option.getD_some]
    · exact (hrange _ (List.getElem_mem hi')).1.trans_eq hbase
  rw [List.getElem_map, place, hleft, ← hbase, ← hright]

theorem Free.forAllLeft {pieces : List (MapPortSeq × List Char)} (h : Free pieces)
    (hbin : ∀ piece ∈ pieces, Binary piece.2) {P : List Digits.Place → Prop}
    (hall : ∀ port, P (pieces.map (place port))) : Digits.ForAllLeft (pieces.map slotOf) P := by
  intro xs hslots hrange
  obtain ⟨port, rfl⟩ := h.exists_places hbin hslots hrange
  exact hall port

theorem slot_lt (pieces : List (MapPortSeq × List Char)) : ∀ s ∈ pieces.map slotOf, s.2 < s.1 :=
  List.forall_mem_map.mpr fun _ _ => charNumber_lt _

/-! ### Orders -/

theorem join_congr {α : Type*} (o : LogicOp) {f g : α → Bool} {l : List α}
    (h : ∀ a ∈ l, f a = g a) : o.join f l = o.join g l := by
  have hmap : l.map f = l.map g := List.map_congr_left h
  cases o
  · rw [LogicOp.join, LogicOp.join, ← Function.id_comp f, ← Function.id_comp g, ← List.all_map,
      ← List.all_map, hmap]
  · rw [LogicOp.join, LogicOp.join, ← Function.id_comp f, ← Function.id_comp g, ← List.any_map,
      ← List.any_map, hmap]

theorem join_map {α β : Type*} (o : LogicOp) (f : β → Bool) (g : α → β) (l : List α) :
    o.join f (l.map g) = o.join (fun a => f (g a)) l := by
  cases o
  · exact List.all_map
  · exact List.any_map

theorem join_and_eq_true {α : Type*} (f : α → Bool) (l : List α) :
    LogicOp.join .and f l = true ↔ ∀ a ∈ l, f a = true := List.all_eq_true

theorem join_or_eq_true {α : Type*} (f : α → Bool) (l : List α) :
    LogicOp.join .or f l = true ↔ ∃ a ∈ l, f a = true := List.any_eq_true

section Orders

variable {pieces : List (MapPortSeq × List Char)} (hbin : ∀ piece ∈ pieces, Binary piece.2)
include hbin

theorem faithful_lt_iff (o : LogicOp) : Faithful pieces .lt o ↔ ∀ port,
    o.join (fun x : Digits.Place => decide (x.left < x.right)) (pieces.map (place port)) =
      decide (Digits.number Digits.Place.left (pieces.map (place port)) <
        Digits.number Digits.Place.right (pieces.map (place port))) := by
  refine forall_congr' fun port => ?_
  rw [number_left port hbin, number_right port hbin, join_map]
  rw [join_congr o (f := fun piece => CompareOp.lt.toMatchOp.holds (pieceCells port piece))
    fun piece hpiece => ?_]
  · rfl
  · rw [CompareOp.toMatchOp, MatchOp.holds, pieceCells,
      valueNumber_specified _ _ (hbin piece hpiece)]
    rfl

theorem faithful_le_iff (o : LogicOp) : Faithful pieces .le o ↔ ∀ port,
    o.join (fun x : Digits.Place => decide (x.left ≤ x.right)) (pieces.map (place port)) =
      decide (Digits.number Digits.Place.left (pieces.map (place port)) ≤
        Digits.number Digits.Place.right (pieces.map (place port))) := by
  refine forall_congr' fun port => ?_
  rw [number_left port hbin, number_right port hbin, join_map]
  rw [join_congr o (f := fun piece => CompareOp.le.toMatchOp.holds (pieceCells port piece))
    fun piece hpiece => ?_]
  · rfl
  · rw [CompareOp.toMatchOp, MatchOp.holds, pieceCells,
      valueNumber_specified _ _ (hbin piece hpiece)]
    rfl

/-- One piece, or a property of all of them, in terms of places. -/
theorem one_or_forall_iff {P : List Char → Prop} {Q : ℕ × ℕ → Prop}
    (h : ∀ v, Binary v → (P v ↔ Q (2 ^ v.length, charNumber v))) :
    ((pieces.map (·.2)).length = 1 ∨ pieces.map (·.2) ≠ [] ∧ ∀ v ∈ pieces.map (·.2), P v) ↔
      Digits.OneOrAll Q (pieces.map slotOf) := by
  simp only [Digits.OneOrAll, List.length_map, ne_eq, List.map_eq_nil_iff, List.forall_mem_map]
  refine or_congr_right (and_congr_right fun _ => forall_congr' fun piece =>
    forall_congr' fun hpiece => ?_)
  exact h _ (hbin piece hpiece)

theorem pairwise_pieces_iff {P P' : List Char → Prop} (Q Q' : ℕ × ℕ → Prop)
    (h : ∀ v, Binary v → (P v ↔ Q (2 ^ v.length, charNumber v)))
    (h' : ∀ v, Binary v → (P' v ↔ Q' (2 ^ v.length, charNumber v))) :
    (pieces.map (·.2)).Pairwise (fun v w => P v ∨ P' w) ↔
      (pieces.map slotOf).Pairwise fun s t => Q s ∨ Q' t := by
  rw [List.pairwise_map, List.pairwise_map]
  refine List.Pairwise.iff_of_mem fun {v w} hv hw => ?_
  exact or_congr (h _ (hbin v hv)) (h' _ (hbin w hw))

omit hbin in
theorem map_slot_place (port : ℕ → Signal) :
    (pieces.map (place port)).map Digits.Place.slot = pieces.map slotOf := by
  rw [List.map_map]
  rfl

theorem faithful_lt (o : LogicOp) :
    (SplitFaithful (pieces.map (·.2)) .lt o → Faithful pieces .lt o) ∧
    (Free pieces → Faithful pieces .lt o → SplitFaithful (pieces.map (·.2)) .lt o) := by
  rw [faithful_lt_iff hbin]
  cases o with
  | and =>
    have hone := one_or_forall_iff hbin (Q := fun s => s.2 = 0) fun v => zeros_iff
    refine ⟨fun h port => ?_, fun hfree h => hone.mpr ?_⟩
    · rw [Bool.eq_iff_iff, join_and_eq_true, decide_eq_true_iff,
        ← Digits.forall_lt_iff (map_slot_place port ▸ hone.mp h)]
      simp only [decide_eq_true_iff]
    · refine Digits.one_or_zero_of_forall_lt (slot_lt pieces) (hfree.forAllLeft hbin fun port => ?_)
      have := h port
      rw [Bool.eq_iff_iff, join_and_eq_true, decide_eq_true_iff] at this
      simpa only [decide_eq_true_iff] using this
  | or =>
    have hpair := pairwise_pieces_iff hbin (fun s => s.2 = 0)
      (fun s => s.2 = s.1 - 1) (fun v => zeros_iff) fun v => ones_iff
    refine ⟨fun h port => ?_, fun hfree h => hpair.mpr ?_⟩
    · rw [Bool.eq_iff_iff, join_or_eq_true, decide_eq_true_iff,
        ← Digits.exists_lt_iff (place_inRange port hbin) (map_slot_place port ▸ hpair.mp h)]
      simp only [decide_eq_true_iff]
    · refine Digits.pairwise_of_exists_lt (slot_lt pieces) (hfree.forAllLeft hbin fun port => ?_)
      have := h port
      rw [Bool.eq_iff_iff, join_or_eq_true, decide_eq_true_iff] at this
      simpa only [decide_eq_true_iff] using this.mp

theorem faithful_le (o : LogicOp) :
    (SplitFaithful (pieces.map (·.2)) .le o → Faithful pieces .le o) ∧
    (Free pieces → Faithful pieces .le o → SplitFaithful (pieces.map (·.2)) .le o) := by
  rw [faithful_le_iff hbin]
  cases o with
  | and =>
    have hpair := pairwise_pieces_iff hbin (fun s => s.2 = s.1 - 1)
      (fun s => s.2 = 0) (fun v => ones_iff) fun v => zeros_iff
    refine ⟨fun h port => ?_, fun hfree h => hpair.mpr ?_⟩
    · rw [Bool.eq_iff_iff, join_and_eq_true, decide_eq_true_iff,
        ← Digits.forall_le_iff (place_inRange port hbin) (map_slot_place port ▸ hpair.mp h)]
      simp only [decide_eq_true_iff]
    · refine Digits.pairwise_of_forall_le (slot_lt pieces) (hfree.forAllLeft hbin fun port => ?_)
      have := h port
      rw [Bool.eq_iff_iff, join_and_eq_true, decide_eq_true_iff] at this
      simpa only [decide_eq_true_iff] using this.mpr
  | or =>
    have hone := one_or_forall_iff hbin (Q := fun s => s.2 = s.1 - 1) fun v => ones_iff
    refine ⟨fun h port => ?_, fun hfree h => hone.mpr ?_⟩
    · rw [Bool.eq_iff_iff, join_or_eq_true, decide_eq_true_iff,
        ← Digits.exists_le_iff (place_inRange port hbin) (map_slot_place port ▸ hone.mp h)]
      simp only [decide_eq_true_iff]
    · refine Digits.one_or_max_of_exists_le (slot_lt pieces) (hfree.forAllLeft hbin fun port => ?_)
      have := h port
      rw [Bool.eq_iff_iff, join_or_eq_true, decide_eq_true_iff] at this
      simpa only [decide_eq_true_iff] using this

end Orders

/-! ### Equality -/

/-- Bits that a character accepts. -/
def acceptedBits (ch : Char) : Bool × Bool :=
  match ch.toUpper with
  | '1' | 'R' | 'B' | 'T' => (false, true)
  | 'F' => (true, false)
  | _ => (false, false)

/-- Bits that a character other than a don't-care refuses. -/
def refusedBits (ch : Char) : Bool × Bool :=
  match ch.toUpper with
  | '0' | 'L' | 'N' => (false, true)
  | 'S' => (true, false)
  | _ => (false, false)

theorem bitHolds_acceptedBits : ∀ ch ∈ matchBitValues,
    bitHolds ch.toUpper (acceptedBits ch).1 (acceptedBits ch).2 = true := by
  simp [matchBitValues, acceptedBits, bitHolds]

theorem bitHolds_refusedBits : ∀ ch ∈ matchBitValues, ch.toUpper ≠ 'X' →
    bitHolds ch.toUpper (refusedBits ch).1 (refusedBits ch).2 = false := by
  simp [matchBitValues, refusedBits, bitHolds]

theorem holds_eq_specified_cons (sig : Signal) (pos : ℤ) (ch : Char) (l : List Char) :
    MatchOp.eq.holds (specified sig pos (ch :: l)) =
      (bitHolds ch.toUpper (sig pos).1 (sig pos).2 &&
        MatchOp.eq.holds (specified sig (pos + 1) l)) := by
  by_cases hX : ch.toUpper = 'X'
  · rw [specified, if_pos hX, hX, Mapping.bitHolds_X, Bool.true_and]
  · rw [specified, if_neg hX, MatchOp.holds, List.all_cons]
    rfl

theorem holds_eq_specified_iff (sig : Signal) : ∀ (pos : ℤ) (l : List Char),
    MatchOp.eq.holds (specified sig pos l) = true ↔ ∀ k (hk : k < l.length),
      bitHolds l[k].toUpper (sig (pos + (k : ℤ))).1 (sig (pos + (k : ℤ))).2 = true
  | _, [] => by simp [specified, MatchOp.holds]
  | pos, ch :: l => by
    rw [holds_eq_specified_cons, Bool.and_eq_true, holds_eq_specified_iff sig (pos + 1) l]
    have hshift : ∀ k : ℕ, pos + 1 + (k : ℤ) = pos + ((k + 1 : ℕ) : ℤ) := fun k => by
      push_cast
      ring
    constructor
    · rintro ⟨h0, hrest⟩ k hk
      cases k with
      | zero => simpa using h0
      | succ k => simpa [hshift] using hrest k (Nat.lt_of_succ_lt_succ hk)
    · intro h
      refine ⟨by simpa using h 0 (Nat.succ_pos _), fun k hk => ?_⟩
      simpa [hshift] using h (k + 1) (Nat.succ_lt_succ hk)

section Equality

variable {pieces : List (MapPortSeq × List Char)}

theorem eq_holds_flatMap (port : ℕ → Signal) :
    MatchOp.eq.holds (pieces.flatMap (pieceCells port)) = true ↔
      ∀ piece ∈ pieces, MatchOp.eq.holds (pieceCells port piece) = true := by
  simp [MatchOp.holds, List.all_flatMap]

theorem eq_holds_of_dontCares (port : ℕ → Signal) {piece : MapPortSeq × List Char}
    (h : DontCares piece.2) : MatchOp.eq.holds (pieceCells port piece) = true := by
  rw [pieceCells, holds_eq_specified_iff]
  intro k hk
  rw [h _ (List.getElem_mem hk), Mapping.bitHolds_X]

/-- Ports that show pieces of one kind accepted bits and the others refused ones. -/
theorem Free.exists_eq_holds (h : Free pieces)
    (hvalue : ∀ piece ∈ pieces, ∀ ch ∈ piece.2, ch ∈ matchBitValues) (accept : ℕ → Bool) :
    ∃ port, ∀ i (hi : i < pieces.length), MatchOp.eq.holds (pieceCells port pieces[i]) = true ↔
      accept i = true ∨ DontCares pieces[i].2 := by
  obtain ⟨port, hport⟩ := h.exists_port fun i k =>
    let ch := ((pieces[i]?.bind (·.2[k]?)).getD 'X')
    if accept i then acceptedBits ch else refusedBits ch
  refine ⟨port, fun i hi => ?_⟩
  have hbits : ∀ k (hk : k < pieces[i].2.length),
      port pieces[i].1.portIdx (pieces[i].1.lowIdx + (k : ℤ)) =
        if accept i then acceptedBits pieces[i].2[k] else refusedBits pieces[i].2[k] :=
    fun k hk => by
      rw [hport i hi k hk, List.getElem?_eq_getElem hi, Option.bind_some,
        List.getElem?_eq_getElem hk, Option.getD_some]
  have hmem : ∀ k (hk : k < pieces[i].2.length), pieces[i].2[k] ∈ matchBitValues := fun k hk =>
    hvalue _ (List.getElem_mem hi) _ (List.getElem_mem hk)
  rw [pieceCells, holds_eq_specified_iff]
  constructor
  · intro hall
    by_contra hnot
    rw [not_or] at hnot
    refine hnot.2 fun ch hch => ?_
    obtain ⟨k, hk, rfl⟩ := List.getElem_of_mem hch
    by_contra hX
    have := hall k hk
    rw [hbits k hk, if_neg hnot.1, bitHolds_refusedBits _ (hmem k hk) hX] at this
    cases this
  · rintro (haccept | hX) k hk
    · rw [hbits k hk, if_pos haccept, bitHolds_acceptedBits _ (hmem k hk)]
    · rw [hX _ (List.getElem_mem hk), Mapping.bitHolds_X]

theorem faithful_eq_and : Faithful pieces .eq .and := by
  intro port
  rw [Bool.eq_iff_iff, join_and_eq_true]
  exact (eq_holds_flatMap port).symm

/-- Some piece decides `==` when there is one piece only, or none compares a bit. -/
theorem faithful_eq_or (hvalue : ∀ piece ∈ pieces, ∀ ch ∈ piece.2, ch ∈ matchBitValues) :
    (SplitFaithful (pieces.map (·.2)) .eq .or → Faithful pieces .eq .or) ∧
    (Free pieces → Faithful pieces .eq .or → SplitFaithful (pieces.map (·.2)) .eq .or) := by
  constructor
  · intro h port
    rw [Bool.eq_iff_iff, join_or_eq_true]
    refine Iff.trans ?_ (eq_holds_flatMap port).symm
    rcases h with hone | ⟨hne, hX⟩
    · rw [List.length_map] at hone
      obtain ⟨piece, rfl⟩ := List.length_eq_one_iff.mp hone
      simp [CompareOp.toMatchOp]
    · rw [ne_eq, List.map_eq_nil_iff] at hne
      obtain ⟨piece, hpiece⟩ := List.exists_mem_of_ne_nil pieces hne
      have hall : ∀ piece ∈ pieces, MatchOp.eq.holds (pieceCells port piece) = true :=
        fun piece hpiece => eq_holds_of_dontCares port (hX _ (List.mem_map_of_mem hpiece))
      exact iff_of_true ⟨piece, hpiece, hall piece hpiece⟩ hall
  · intro hfree h
    have hiff : ∀ port, (∃ piece ∈ pieces, MatchOp.eq.holds (pieceCells port piece) = true) ↔
        ∀ piece ∈ pieces, MatchOp.eq.holds (pieceCells port piece) = true := fun port => by
      rw [← eq_holds_flatMap port, ← join_or_eq_true]
      exact (Bool.eq_iff_iff.mp (h port))
    match pieces, hvalue, hfree, hiff with
    | [], _, _, hiff => simpa using hiff fun _ _ => (false, false)
    | [piece], _, _, _ => exact Or.inl rfl
    | p :: q :: rest, hvalue, hfree, hiff =>
      refine Or.inr ⟨List.cons_ne_nil _ _, List.forall_mem_map.mpr ?_⟩
      by_contra hsome
      push Not at hsome
      obtain ⟨r, hr, hX⟩ := hsome
      obtain ⟨i, hi, rfl⟩ := List.getElem_of_mem hr
      -- refuse the piece that compares a bit, accept the others
      obtain ⟨port, hport⟩ := hfree.exists_eq_holds hvalue fun j => decide (j ≠ i)
      have hrefused := (hport i hi).not.mpr (by simpa using hX)
      refine hrefused ((hiff port).mp ?_ _ (List.getElem_mem hi))
      rcases Nat.eq_zero_or_pos i with rfl | hpos
      · exact ⟨q, List.mem_cons_of_mem _ List.mem_cons_self,
          (hport 1 (by simp)).mpr (Or.inl (by simp))⟩
      · exact ⟨p, List.mem_cons_self, (hport 0 (by simp)).mpr (Or.inl (by simpa using hpos.ne))⟩

end Equality

/-! ### Every operator -/

theorem splitFaithful_iff (pieces : List (MapPortSeq × List Char)) (op : CompareOp) (o : LogicOp)
    (hvalue : ∀ piece ∈ pieces, ValidValue op piece.2) :
    (SplitFaithful (pieces.map (·.2)) op o → Faithful pieces op o) ∧
    (Free pieces → Faithful pieces op o → SplitFaithful (pieces.map (·.2)) op o) := by
  have hbits : ∀ piece ∈ pieces, ∀ ch ∈ piece.2, ch ∈ matchBitValues := fun piece hpiece =>
    (hvalue piece hpiece).1
  have hbin : op ≠ .eq → op ≠ .neq → ∀ piece ∈ pieces, Binary piece.2 :=
    fun h h' piece hpiece => (hvalue piece hpiece).2 h h'
  cases op with
  | eq =>
    cases o with
    | and => exact ⟨fun _ => faithful_eq_and, fun _ _ => trivial⟩
    | or => exact faithful_eq_or hbits
  | lt => exact faithful_lt (hbin (by decide) (by decide)) o
  | le => exact faithful_le (hbin (by decide) (by decide)) o
  | neq =>
    rw [show CompareOp.neq = CompareOp.eq.negated from rfl, faithful_negated, splitFaithful_negated]
    cases o with
    | and => exact faithful_eq_or hbits
    | or => exact ⟨fun _ => faithful_eq_and, fun _ _ => trivial⟩
  | ge =>
    rw [show CompareOp.ge = CompareOp.lt.negated from rfl, faithful_negated, splitFaithful_negated]
    exact faithful_lt (hbin (by decide) (by decide)) o.dual
  | gt =>
    rw [show CompareOp.gt = CompareOp.le.negated from rfl, faithful_negated, splitFaithful_negated]
    exact faithful_le (hbin (by decide) (by decide)) o.dual

theorem mem_chunks {piece : MapPortSeq × List Char} : ∀ {l : List Char} {seqs : List MapPortSeq},
    l.length = totalWidth seqs → piece ∈ chunks l seqs →
      piece.2.length = piece.1.width ∧ ∀ ch ∈ piece.2, ch ∈ l
  | l, seq :: seqs, hlen, hmem => by
    have hw : l.length = seq.width + totalWidth seqs := by simpa [totalWidth] using hlen
    rcases List.mem_cons.mp hmem with rfl | hmem
    · refine ⟨?_, fun ch hch => List.mem_of_mem_take hch⟩
      rw [List.length_take, Nat.min_eq_left (by omega)]
    · obtain ⟨hlen', hsub⟩ := mem_chunks (by rw [List.length_drop]; omega) hmem
      exact ⟨hlen', fun ch hch => List.mem_of_mem_drop (hsub ch hch)⟩

theorem map_fst_chunks : ∀ (l : List Char) (seqs : List MapPortSeq), (chunks l seqs).map (·.1) = seqs
  | _, [] => rfl
  | l, seq :: seqs => by rw [chunks, List.map_cons, map_fst_chunks]

/-- The matches added for a compare, joined by the operator of the condition, are the compare of the
    whole probe when the pieces of the value allow it, and only then if the port ranges of the probe
    have no bit in common. -/
theorem addProbeValueToPorts_holds_iff (o : LogicOp) (name : String) {mu : ILATsmMatchUnit}
    (hlen : mu.compareValue.length = totalWidth mu.probe.map)
    (hvalue : ValidValue mu.getCompareOperator mu.compareValue) :
    (SplitFaithful (mu.pieces.map (·.2)) mu.getCompareOperator o → ∀ port,
      (addProbeValueToPorts mu mu.probe.map { name := name, op := o.toConditionOp }).holds port =
        mu.holds port) ∧
    (DisjointSeqs mu.probe.map → (∀ port,
      (addProbeValueToPorts mu mu.probe.map { name := name, op := o.toConditionOp }).holds port =
        mu.holds port) → SplitFaithful (mu.pieces.map (·.2)) mu.getCompareOperator o) := by
  have hlen' : mu.compareValue.reverse.length = totalWidth mu.probe.map := by
    rw [List.length_reverse, hlen]
  have hpieces : ∀ piece ∈ mu.pieces, ValidValue mu.getCompareOperator piece.2 :=
    fun piece hpiece => by
      have hsub := (mem_chunks hlen' hpiece).2
      exact ⟨fun ch hch => hvalue.1 ch (List.mem_reverse.mp (hsub ch hch)),
        fun h h' ch hch => hvalue.2 h h' ch (List.mem_reverse.mp (hsub ch hch))⟩
  simp only [holds_addProbeValueToPorts _ o name hlen hvalue.1, holds_eq_pieces _ hlen]
  obtain ⟨hsufficient, hnecessary⟩ := splitFaithful_iff mu.pieces mu.getCompareOperator o hpieces
  refine ⟨hsufficient, fun hdisjoint h => hnecessary ⟨?_, fun piece hpiece =>
    (mem_chunks hlen' hpiece).1⟩ h⟩
  rw [ILATsmMatchUnit.pieces, map_fst_chunks]
  exact hdisjoint

/-- One bit of port 0. -/
def bitRange (bit : ℕ) : MapPortSeq :=
  { portIdx := 0, highIdx := bit, lowIdx := bit, le := Nat.le_refl bit }

/-- A two bit probe on bits 0 and 2 of a port, compared with `00`. -/
def twoRangeCompare (op : CompareOp) : ILATsmMatchUnit where
  probe := { name := "p", map := [bitRange 0, bitRange 2] }
  compareOp := op
  compareValue := ['0', '0']

theorem validValue_zeros (op : CompareOp) : ValidValue op ['0', '0'] :=
  ⟨by simp [matchBitValues], by simp⟩

/-- `!=` on two ranges is right below `||`, and below `&&` it is not. -/
theorem addProbeValueToPorts_holds_neq :
    (∀ port, (addProbeValueToPorts (twoRangeCompare .neq) (twoRangeCompare .neq).probe.map
      { name := "tc0", op := LogicOp.or.toConditionOp }).holds port =
        (twoRangeCompare .neq).holds port) ∧
    ¬ ∀ port, (addProbeValueToPorts (twoRangeCompare .neq) (twoRangeCompare .neq).probe.map
      { name := "tc0", op := LogicOp.and.toConditionOp }).holds port =
        (twoRangeCompare .neq).holds port := by
  have hvalue : ValidValue (twoRangeCompare .neq).getCompareOperator
    (twoRangeCompare .neq).compareValue := validValue_zeros .neq
  refine ⟨(addProbeValueToPorts_holds_iff .or "tc0" rfl hvalue).1 trivial, fun h => ?_⟩
  have hdisjoint : DisjointSeqs (twoRangeCompare .neq).probe.map := by
    simp [DisjointSeqs, twoRangeCompare, bitRange]
  rcases (addProbeValueToPorts_holds_iff .and "tc0" rfl hvalue).2 hdisjoint h with hone | ⟨-, hX⟩
  · cases hone
  · have hzero : '0'.toUpper = 'X' := hX ['0'] List.mem_cons_self '0' List.mem_cons_self
    exact absurd hzero (by decide)

/-- `p != 00` when `p` is `01`: the probe differs, and the match of its second range does not hold. -/
theorem addProbeValueToPorts_holds_ne : ¬ ∀ (o : LogicOp) (name : String) (mu : ILATsmMatchUnit),
    mu.compareValue.length = totalWidth mu.probe.map →
    ValidValue mu.getCompareOperator mu.compareValue → ∀ port,
      (addProbeValueToPorts mu mu.probe.map { name := name, op := o.toConditionOp }).holds port =
        mu.holds port := by
  intro h
  have hsplit := h .and "tc0" (twoRangeCompare .neq) rfl (validValue_zeros .neq)
    fun _ pos => (false, pos == 0)
  exact absurd hsplit (by decide)

end Chipscopy.Tsm
