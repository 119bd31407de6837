import Chipscopy.Waveform.Vcd

/-! Reading a dump again

    The writer keeps the last value of every variable, and so does a reader of what it has written:
    a sample adds its time stamp and the changes of the variables whose values are others than
    before, so that after each sample the reader has the values of that sample, and a later stamp
    leaves them as they are at that time. -/

namespace Chipscopy.Waveform.WaveformWriterVCD

open ValueChange (Lines Solid Event Var File Reader latest times valueAt zeroExtend words)

/-! ### Digits of a value -/

/-- What is written for a value, most significant digit first. -/
def shownDigits (reversedValue : List Char) : List Char :=
  if reversedValue.head? = some 'x' then reversedValue
  else (reversedValue.take ((rfind '1' reversedValue).getD 0 + 1)).reverse

theorem not_mem_of_rfind_none {c : Char} {l : List Char} (h : rfind c l = none) : c ∉ l := by
  induction l with
  | nil => simp
  | cons a as ih =>
    rw [rfind] at h
    rcases hrest : rfind c as with - | i
    · rw [hrest] at h
      simp only [ite_eq_right_iff, reduceCtorEq, imp_false] at h
      simpa [Ne.symm h] using ih hrest
    · rw [hrest] at h
      simp at h

/-- Only zeros stand above the last `1`. -/
theorem drop_rfind {l : List Char} (hbits : ∀ c ∈ l, c = '0' ∨ c = '1') :
    ∀ c ∈ l.drop ((rfind '1' l).getD 0 + 1), c = '0' := by
  induction l with
  | nil => simp
  | cons a as ih =>
    obtain ⟨-, has⟩ := List.forall_mem_cons.mp hbits
    rcases hrest : rfind '1' as with - | i
    · have hnone := not_mem_of_rfind_none hrest
      have hzero : ∀ c ∈ as, c = '0' := fun c hc =>
        (has c hc).resolve_right fun hone => hnone (hone ▸ hc)
      have hlast : (rfind '1' (a :: as)).getD 0 = 0 := by
        rw [rfind, hrest]
        dsimp only
        split_ifs <;> rfl
      rw [hlast]
      exact hzero
    · have hlast : rfind '1' (a :: as) = some (i + 1) := by rw [rfind, hrest]
      rw [hrest] at ih
      rw [hlast]
      exact ih has

/-- Zeros in front of a value are put back by a reader. -/
theorem zeroExtend_shownDigits_bits {l : List Char} (hbits : ∀ c ∈ l, c = '0' ∨ c = '1') :
    zeroExtend l.length (shownDigits l) = l.reverse := by
  have hhead : l.head? ≠ some 'x' := by
    intro hx
    rcases hbits 'x' (List.mem_of_mem_head? hx) with h | h
    · exact absurd h (by decide)
    · exact absurd h (by decide)
  have hdrop := List.eq_replicate_of_mem (drop_rfind hbits)
  generalize hm : (rfind '1' l).getD 0 + 1 = m at hdrop
  have hlength : l.length - min m l.length = l.length - m := by omega
  rw [shownDigits, if_neg hhead, hm, zeroExtend, List.length_reverse, List.length_take, hlength]
  conv_rhs => rw [← List.take_append_drop m l, List.reverse_append, hdrop, List.reverse_replicate,
    List.length_drop]

theorem zeroExtend_shownDigits_unknown (n : ℕ) :
    zeroExtend n (shownDigits (List.replicate n 'x')) = List.replicate n 'x' := by
  cases n with
  | zero => rfl
  | succ n => simp [shownDigits, zeroExtend, List.replicate_succ]

/-- Bits, or unknown digits in a gap. -/
def Writable (isGap : Bool) (v : List Char) : Prop :=
  v ≠ [] ∧ ((∀ c ∈ v, c = '0' ∨ c = '1') ∨ isGap = true ∧ ∀ c ∈ v, c = 'x')

@[simp] theorem shownDigits_flag (b : Bool) : shownDigits (flag b) = flag b := by
  cases b <;> rfl

theorem writable_flag (isGap b : Bool) : Writable isGap (flag b) := by
  cases b <;> simp [Writable, flag]

theorem Writable.digit {isGap : Bool} {v : List Char} (h : Writable isGap v) :
    ∀ c ∈ v, c = '0' ∨ c = '1' ∨ c = 'x' := by
  intro c hc
  rcases h.2 with hbits | ⟨-, hx⟩
  · exact (hbits c hc).imp_right Or.inl
  · exact Or.inr (Or.inr (hx c hc))

theorem isBlank_digit {c : Char} (h : c = '0' ∨ c = '1' ∨ c = 'x') :
    ValueChange.isBlank c = false := by
  rcases h with rfl | rfl | rfl <;> rfl

/-- A digit is shown as it is. -/
theorem shownDigits_singleton (c : Char) : shownDigits [c] = [c] := by
  rw [shownDigits]
  split_ifs
  · rfl
  · simp

theorem mem_of_mem_shownDigits {c : Char} {v : List Char} (h : c ∈ shownDigits v) : c ∈ v := by
  rw [shownDigits] at h
  split_ifs at h
  · exact h
  · exact List.mem_of_mem_take (List.mem_reverse.mp h)

/-! ### What a sample writes -/

def timeLine (pos : ℕ) : List Char := '#' :: Nat.toDigits 10 pos ++ ['\n']

/-- Line of a variable and its digits. -/
def changeLine (e : List Char × List Char) : List Char :=
  if e.2.length = 1 then e.2 ++ e.1 ++ ['\n'] else 'b' :: shownDigits e.2 ++ ' ' :: e.1 ++ ['\n']

/-- Lines of some changes; the stamp is in front if it has not been written. -/
def block (pos : ℕ) (timeWritten : Bool) (cs : List (List Char × List Char)) : List Char :=
  (if timeWritten = false ∧ cs ≠ [] then timeLine pos else []) ++ cs.flatMap changeLine

/-- The flag after some changes. -/
def timed (timeWritten : Bool) (cs : List (List Char × List Char)) : Bool :=
  timeWritten || !cs.isEmpty

@[simp] theorem block_nil (pos : ℕ) (timeWritten : Bool) : block pos timeWritten [] = [] := by
  simp [block]

@[simp] theorem timed_nil (timeWritten : Bool) : timed timeWritten [] = timeWritten := by
  simp [timed]

theorem timed_append (timeWritten : Bool) (cs cs' : List (List Char × List Char)) :
    timed timeWritten (cs ++ cs') = timed (timed timeWritten cs) cs' := by
  cases cs <;> simp [timed]

theorem block_append (pos : ℕ) (timeWritten : Bool) (cs cs' : List (List Char × List Char)) :
    block pos timeWritten (cs ++ cs') =
      block pos timeWritten cs ++ block pos (timed timeWritten cs) cs' := by
  cases cs with
  | nil => simp
  | cons c cs => simp [block, timed]

theorem startsUnknown_eq {isGap : Bool} {c : Char} {cs : List Char}
    (hv : Writable isGap (c :: cs)) : startsUnknown isGap (c :: cs) = .ok (c == 'x') := by
  cases isGap with
  | true => rfl
  | false =>
    have hc : c ≠ 'x' := by
      rintro rfl
      rcases hv.2 with hbits | ⟨hgap, -⟩
      · rcases hbits 'x' List.mem_cons_self with h | h
        · exact absurd h (by decide)
        · exact absurd h (by decide)
      · cases hgap
    simp [startsUnknown, hc]

theorem writeValue_eq {r : SampleRecord} {v : List Char} (hv : Writable r.isGap v)
    (code : List Char) (w : WaveformWriterVCD) (timeWritten : Bool) :
    writeValue r code v (w, timeWritten) =
      .ok (w.write (block r.samplePosition timeWritten [(code, v)]), true) := by
  have hstamp : (if timeWritten then w else w.write (timeLine r.samplePosition)).text =
      w.text ++ if timeWritten = false then timeLine r.samplePosition else [] := by
    cases timeWritten with
    | true => exact (List.append_nil _).symm
    | false => rfl
  have hblock : block r.samplePosition timeWritten [(code, v)] =
      (if timeWritten = false then timeLine r.samplePosition else []) ++ changeLine (code, v) := by
    simp [block]
  have hwritten : ∀ line,
      (if timeWritten then w else w.write (timeLine r.samplePosition)).write line =
        w.write ((if timeWritten = false then timeLine r.samplePosition else []) ++ line) := by
    intro line
    rw [write, hstamp, write, List.append_assoc]
    cases timeWritten <;> rfl
  rw [hblock, changeLine, ← hwritten]
  by_cases hone : v.length = 1
  · rw [writeValue, if_pos hone, if_pos hone]
    rfl
  · obtain ⟨c, cs, rfl⟩ := List.exists_cons_of_ne_nil hv.1
    have hshown : (if (c == 'x') = true then c :: cs
        else ((c :: cs).take ((rfind '1' (c :: cs)).getD 0 + 1)).reverse) =
          shownDigits (c :: cs) := by
      simp [shownDigits]
    rw [writeValue, if_neg hone, if_neg hone, startsUnknown_eq hv, Py.ok_bind, hshown]
    rfl

/-- Values of the probes, unknown in a gap. -/
def shownValues (r : SampleRecord) : List (List Char) :=
  if r.isGap then WaveformWriterCSV.makeValuesUnknown r.probeBinaryReversedValues 'x'
  else r.probeBinaryReversedValues

def triggerChanges (w : WaveformWriterVCD) (r : SampleRecord) : List (List Char × List Char) :=
  if some r.isTrigger = w.prevSampleIsTrigger then [] else [(w.triggerVar, flag r.isTrigger)]

def windowMark (windowIndex : ℕ) : List Char := flag (windowIndex % 2 != 0)

def windowChanges (w : WaveformWriterVCD) (r : SampleRecord) : List (List Char × List Char) :=
  if some r.windowIndex = w.prevWindowIndex then [] else [(w.windowVar, windowMark r.windowIndex)]

def gapChanges (w : WaveformWriterVCD) (r : SampleRecord) : List (List Char × List Char) :=
  if w.includeGap = false ∨ some r.isGap = w.prevSampleIsGap then [] else [(w.gapVar, flag r.isGap)]

/-- Change of a probe from its last value. -/
def probeChange (var : List Char) (old : Option (List Char)) (new : List Char) :
    List (List Char × List Char) :=
  if some new = old then [] else [(var, new)]

def probeChanges : List (List Char) → List (Option (List Char)) → List (List Char) →
    List (List Char × List Char)
  | var :: vars, old :: olds, new :: news =>
    probeChange var old new ++ probeChanges vars olds news
  | _, _, _ => []

/-- The changes of a sample. -/
def changes (w : WaveformWriterVCD) (r : SampleRecord) : List (List Char × List Char) :=
  triggerChanges w r ++ windowChanges w r ++ gapChanges w r ++
    probeChanges w.vars w.values (shownValues r)

/-- The text of a sample. -/
def sampleText (w : WaveformWriterVCD) (r : SampleRecord) : List Char :=
  (if r.isLastSample then timeLine r.samplePosition else []) ++
    block r.samplePosition r.isLastSample (changes w r)

/-- The writer after a sample. -/
def afterSample (w : WaveformWriterVCD) (r : SampleRecord) : WaveformWriterVCD :=
  { w with
    prevSampleIsTrigger := some r.isTrigger
    prevWindowIndex := some r.windowIndex
    prevSampleIsGap := if w.includeGap then some r.isGap else w.prevSampleIsGap
    values := (shownValues r).map some
    text := w.text ++ sampleText w r }

variable {w : WaveformWriterVCD} {r : SampleRecord} {timeWritten : Bool}

theorem writeTrigger_eq (w : WaveformWriterVCD) (r : SampleRecord) (timeWritten : Bool) :
    writeTrigger r (w, timeWritten) =
      .ok ({ w.write (block r.samplePosition timeWritten (triggerChanges w r)) with
        prevSampleIsTrigger := some r.isTrigger }, timed timeWritten (triggerChanges w r)) := by
  rw [writeTrigger, triggerChanges]
  by_cases h : some r.isTrigger = w.prevSampleIsTrigger
  · rw [if_pos h, if_pos h, block_nil, timed_nil, write, List.append_nil, h]
  · rw [if_neg h, if_neg h, writeValue_eq (writable_flag _ _)]
    simp [Except.map, timed, write]

theorem writeWindow_eq (w : WaveformWriterVCD) (r : SampleRecord) (timeWritten : Bool) :
    writeWindow r (w, timeWritten) =
      .ok ({ w.write (block r.samplePosition timeWritten (windowChanges w r)) with
        prevWindowIndex := some r.windowIndex }, timed timeWritten (windowChanges w r)) := by
  rw [writeWindow, windowChanges]
  by_cases h : some r.windowIndex = w.prevWindowIndex
  · rw [if_pos h, if_pos h, block_nil, timed_nil, write, List.append_nil, h]
  · rw [if_neg h, if_neg h, writeValue_eq (writable_flag _ _)]
    simp [Except.map, timed, write, windowMark]

theorem writeGap_eq (w : WaveformWriterVCD) (r : SampleRecord) (timeWritten : Bool) :
    writeGap r (w, timeWritten) =
      .ok ({ w.write (block r.samplePosition timeWritten (gapChanges w r)) with
        prevSampleIsGap := if w.includeGap then some r.isGap else w.prevSampleIsGap },
        timed timeWritten (gapChanges w r)) := by
  rw [writeGap, gapChanges]
  by_cases h : w.includeGap = false ∨ some r.isGap = w.prevSampleIsGap
  · rw [if_pos h, if_pos h, block_nil, timed_nil, write, List.append_nil]
    have hsame : (if w.includeGap then some r.isGap else w.prevSampleIsGap) =
        w.prevSampleIsGap := by
      rcases h with h | h
      · rw [h, if_neg Bool.false_ne_true]
      · rw [h, ite_self]
    rw [hsame]
  · rw [if_neg h, if_neg h, writeValue_eq (writable_flag _ _)]
    obtain ⟨hgap, -⟩ := not_or.mp h
    simp [Except.map, timed, write, hgap]

theorem writeProbe_eq {k : ℕ} {var new : List Char} {old : Option (List Char)}
    (hold : w.values[k]? = some old) (hvar : w.vars[k]? = some var) (hnew : Writable r.isGap new)
    (timeWritten : Bool) : writeProbe r (w, timeWritten) (new, k) =
      .ok ({ w.write (block r.samplePosition timeWritten (probeChange var old new)) with
        values := w.values.set k (some new) }, timed timeWritten (probeChange var old new)) := by
  rw [writeProbe, Py.index_natCast hold, Py.ok_bind, probeChange]
  by_cases hsame : some new = old
  · have hset : w.values.set k (some new) = w.values := by
      obtain ⟨hk, hget⟩ := List.getElem?_eq_some_iff.mp (hold.trans (congrArg some hsame.symm))
      rw [← hget, List.set_getElem_self]
    rw [if_pos hsame, if_pos hsame, block_nil, timed_nil, write, List.append_nil, hset]
    rfl
  · rw [if_neg hsame, if_neg hsame]
    change (Py.index w.vars (k : ℕ) >>= fun var =>
      writeValue r var new ({ w with values := w.values.set k (some new) }, timeWritten)) = _
    rw [Py.index_natCast hvar, Py.ok_bind, writeValue_eq hnew]
    simp [timed, write]

/-- The loop over the values: `olds` are those of the last sample that are still to be compared. -/
theorem foldlM_writeProbe (r : SampleRecord) : ∀ (news : List (List Char))
    (done : List (Option (List Char))) {vars olds} (w : WaveformWriterVCD) (timeWritten : Bool),
    w.values = done ++ olds → olds.length = news.length → w.vars.drop done.length = vars →
    vars.length = news.length → (∀ v ∈ news, Writable r.isGap v) →
    (news.zipIdx done.length).foldlM (writeProbe r) (w, timeWritten) =
      .ok ({ w.write (block r.samplePosition timeWritten (probeChanges vars olds news)) with
        values := done ++ news.map some }, timed timeWritten (probeChanges vars olds news))
  | [], done, vars, olds, w, timeWritten, hvalues, holds, hvars, hlen, _ => by
    obtain rfl := List.length_eq_zero_iff.mp holds
    obtain rfl := List.length_eq_zero_iff.mp hlen
    have hnone : probeChanges [] [] [] = [] := by simp [probeChanges]
    rw [hnone, block_nil, timed_nil, write, List.append_nil, List.map_nil, ← hvalues]
    rfl
  | new :: news, done, [], olds, w, timeWritten, _, _, _, hlen, _ => by simp at hlen
  | new :: news, done, var :: vars, [], w, timeWritten, _, holds, _, _, _ => by simp at holds
  | new :: news, done, var :: vars, old :: olds, w, timeWritten, hvalues, holds, hvars, hlen,
      hwritable => by
    obtain ⟨hnew, hnews⟩ := List.forall_mem_cons.mp hwritable
    have hold : w.values[done.length]? = some old := by
      rw [hvalues, List.getElem?_append_right le_rfl, Nat.sub_self, List.getElem?_cons_zero]
    have hvar : w.vars[done.length]? = some var := by
      rw [← Nat.add_zero done.length, ← List.getElem?_drop, hvars, List.getElem?_cons_zero]
    have hset : w.values.set done.length (some new) = (done ++ [some new]) ++ olds := by
      rw [hvalues, List.set_append_right _ _ le_rfl, Nat.sub_self, List.set_cons_zero,
        List.append_assoc, List.singleton_append]
    have hdrop : w.vars.drop (done ++ [some new]).length = vars := by
      rw [List.length_append, List.length_singleton, ← List.drop_drop, hvars, List.drop_one,
        List.tail_cons]
    have ih := foldlM_writeProbe r news (done ++ [some new])
      { w.write (block r.samplePosition timeWritten (probeChange var old new)) with
        values := w.values.set done.length (some new) }
      (timed timeWritten (probeChange var old new))
      hset (Nat.succ.inj holds) hdrop (Nat.succ.inj hlen) hnews
    rw [List.length_append, List.length_singleton] at ih
    rw [List.zipIdx_cons, List.foldlM_cons, writeProbe_eq hold hvar hnew, Py.ok_bind, ih,
      probeChanges, block_append, timed_append]
    simp [write]

theorem writeProbes_eq (w : WaveformWriterVCD) (timeWritten : Bool)
    (hvalues : w.values.length = (shownValues r).length)
    (hvars : w.vars.length = (shownValues r).length)
    (hwritable : ∀ v ∈ shownValues r, Writable r.isGap v) :
    (shownValues r).zipIdx.foldlM (writeProbe r) (w, timeWritten) =
      .ok ({ w.write (block r.samplePosition timeWritten
            (probeChanges w.vars w.values (shownValues r))) with
          values := (shownValues r).map some },
        timed timeWritten (probeChanges w.vars w.values (shownValues r))) :=
  foldlM_writeProbe r (shownValues r) [] w timeWritten rfl hvalues rfl hvars hwritable

/-- One sample: the stamp, the changes, and what is remembered. -/
theorem writeSample_eq (hvalues : w.values.length = (shownValues r).length)
    (hvars : w.vars.length = (shownValues r).length)
    (hwritable : ∀ v ∈ shownValues r, Writable r.isGap v) :
    writeSample w r = .ok (afterSample w r) := by
  have hstart :
      (if r.isLastSample then (w.write (timeLine r.samplePosition), true) else (w, false)) =
      (w.write (if r.isLastSample then timeLine r.samplePosition else []), r.isLastSample) := by
    cases r.isLastSample with
    | true => rfl
    | false => simp [write]
  have htext : sampleText w r = (if r.isLastSample then timeLine r.samplePosition else []) ++
      block r.samplePosition r.isLastSample (triggerChanges w r) ++
      block r.samplePosition (timed r.isLastSample (triggerChanges w r)) (windowChanges w r) ++
      block r.samplePosition (timed (timed r.isLastSample (triggerChanges w r)) (windowChanges w r))
        (gapChanges w r) ++
      block r.samplePosition (timed (timed (timed r.isLastSample (triggerChanges w r))
        (windowChanges w r)) (gapChanges w r)) (probeChanges w.vars w.values (shownValues r)) := by
    simp only [sampleText, changes, block_append, List.append_assoc]
  change (writeTrigger r (if r.isLastSample then (w.write (timeLine r.samplePosition), true)
    else (w, false)) >>= fun s => writeWindow r s >>= fun s => writeGap r s >>= fun s =>
      (shownValues r).zipIdx.foldlM (writeProbe r) s >>= fun s => .ok s.1) = _
  rw [hstart, writeTrigger_eq, Py.ok_bind, writeWindow_eq, Py.ok_bind, writeGap_eq, Py.ok_bind,
    writeProbes_eq _ _ (by exact hvalues) (by exact hvars) hwritable, Py.ok_bind, afterSample,
    htext]
  simp only [write, List.append_assoc]
  rfl

end Chipscopy.Waveform.WaveformWriterVCD
