import Chipscopy.Waveform.VcdReading

/-! Values in a dump

    What the samples have written is read as events, and the last change of a variable is its value
    in the last sample: the writer remembers the digits of every variable and writes a change
    whenever they are others. A later sample has a later stamp, so it does not change what a
    variable reads at the time of an earlier one. -/

namespace Chipscopy.Waveform.WaveformWriterVCD

open ValueChange (Lines Solid Event File Reader latest times valueAt)

/-! ### Events of a sample -/

def changeEvent (e : List Char × List Char) : Event := .change e.1 (shownDigits e.2)

def sampleEvents (w : WaveformWriterVCD) (r : SampleRecord) : List Event :=
  (if r.isLastSample = true ∨ changes w r ≠ [] then [.time r.samplePosition] else []) ++
    (changes w r).map changeEvent

/-- Digits of all variables in a sample. -/
def digits (w : WaveformWriterVCD) (r : SampleRecord) : List (List Char × List Char) :=
  [(w.triggerVar, flag r.isTrigger)] ++ [(w.windowVar, windowMark r.windowIndex)] ++
    (if w.includeGap then [(w.gapVar, flag r.isGap)] else []) ++ w.vars.zip (shownValues r)

/-- Digits that the writer remembers. -/
def remembered (w : WaveformWriterVCD) : List (List Char × Option (List Char)) :=
  [(w.triggerVar, w.prevSampleIsTrigger.map flag)] ++
    [(w.windowVar, w.prevWindowIndex.map windowMark)] ++
    (if w.includeGap then [(w.gapVar, w.prevSampleIsGap.map flag)] else []) ++ w.vars.zip w.values

def codes (w : WaveformWriterVCD) : List (List Char) :=
  [w.triggerVar] ++ [w.windowVar] ++ (if w.includeGap then [w.gapVar] else []) ++ w.vars

/-- Codes that a reader tells apart, and a value for every probe. -/
structure Ready (w : WaveformWriterVCD) : Prop where
  nodup : w.codes.Nodup
  solid : ∀ code ∈ w.codes, Solid code
  values : w.values.length = w.vars.length

/-- A sample with a value for every variable. -/
structure Complete (w : WaveformWriterVCD) (r : SampleRecord) : Prop where
  length : w.vars.length = (shownValues r).length
  writable : ∀ v ∈ shownValues r, Writable r.isGap v

variable {w : WaveformWriterVCD} {r : SampleRecord}

theorem Ready.after (h : Ready w) (hr : Complete w r) : Ready (afterSample w r) where
  nodup := h.nodup
  solid := h.solid
  values := by
    change ((shownValues r).map some).length = w.vars.length
    rw [List.length_map, hr.length]

theorem Complete.after {r' : SampleRecord} (h : Complete w r') : Complete (afterSample w r) r' :=
  ⟨h.length, h.writable⟩

theorem map_fst_digits (h : Complete w r) : (digits w r).map Prod.fst = w.codes := by
  have hzip : (w.vars.zip (shownValues r)).map Prod.fst = w.vars :=
    List.map_fst_zip h.length.le
  rw [digits, codes, List.map_append, List.map_append, List.map_append, hzip]
  cases w.includeGap <;> rfl

theorem writable_of_mem_digits (h : Complete w r) {e : List Char × List Char}
    (he : e ∈ digits w r) : Writable r.isGap e.2 := by
  simp only [digits, List.mem_append, List.mem_singleton] at he
  rcases he with ((rfl | rfl) | he) | he
  · exact writable_flag _ _
  · exact writable_flag _ _
  · split_ifs at he
    · rw [List.mem_singleton.mp he]
      exact writable_flag _ _
    · cases he
  · exact h.writable _ (List.of_mem_zip he).2

theorem probeChanges_sublist : ∀ (vars : List (List Char)) (olds : List (Option (List Char)))
    (news : List (List Char)), (probeChanges vars olds news).Sublist (vars.zip news)
  | var :: vars, old :: olds, new :: news => by
    rw [probeChanges, List.zip_cons_cons, ← List.singleton_append]
    refine List.Sublist.append ?_ (probeChanges_sublist vars olds news)
    rw [probeChange]
    split_ifs
    · exact List.nil_sublist _
    · exact List.Sublist.refl _
  | [], _, _ => by simp [probeChanges]
  | _ :: _, [], _ => by simp [probeChanges]
  | _ :: _, _ :: _, [] => by simp [probeChanges]

/-- Only digits of the sample are written. -/
theorem changes_sublist (w : WaveformWriterVCD) (r : SampleRecord) :
    (changes w r).Sublist (digits w r) := by
  refine ((List.Sublist.append (List.Sublist.append ?_ ?_) ?_).append
    (probeChanges_sublist _ _ _))
  · rw [triggerChanges]
    split_ifs
    · exact List.nil_sublist _
    · exact List.Sublist.refl _
  · rw [windowChanges]
    split_ifs
    · exact List.nil_sublist _
    · exact List.Sublist.refl _
  · rw [gapChanges]
    by_cases h : w.includeGap = false ∨ some r.isGap = w.prevSampleIsGap
    · rw [if_pos h]
      exact List.nil_sublist _
    · rw [if_neg h, if_pos (by simpa using (not_or.mp h).1)]

theorem probeChanges_or_remembered : ∀ {vars : List (List Char)} {olds : List (Option (List Char))}
    {news : List (List Char)}, olds.length = vars.length → ∀ {e : List Char × List Char},
    e ∈ vars.zip news → e ∈ probeChanges vars olds news ∨ (e.1, some e.2) ∈ vars.zip olds
  | [], _, _, _, e, he => by simp at he
  | _ :: _, _, [], _, e, he => by simp at he
  | _ :: _, [], _ :: _, holds, e, _ => by simp at holds
  | var :: vars, old :: olds, new :: news, holds, e, he => by
    rw [List.zip_cons_cons] at he ⊢
    rcases List.mem_cons.mp he with rfl | he
    · by_cases hsame : some new = old
      · exact .inr (by simp [hsame])
      · exact .inl (by simp [probeChanges, probeChange, hsame])
    · rcases probeChanges_or_remembered (Nat.succ.inj holds) he with h | h
      · exact .inl (List.mem_append_right _ h)
      · exact .inr (List.mem_cons_of_mem _ h)

/-- Digits that are not written are those that are remembered. -/
theorem changes_or_remembered (hw : Ready w) {e : List Char × List Char} (he : e ∈ digits w r) :
    e ∈ changes w r ∨ (e.1, some e.2) ∈ remembered w := by
  simp only [digits, List.mem_append, List.mem_singleton] at he
  simp only [changes, remembered, List.mem_append, List.mem_singleton]
  rcases he with ((rfl | rfl) | he) | he
  · by_cases h : some r.isTrigger = w.prevSampleIsTrigger
    · exact .inr (.inl (.inl (.inl (by rw [← h]; rfl))))
    · exact .inl (.inl (.inl (.inl (by simp [triggerChanges, h]))))
  · by_cases h : some r.windowIndex = w.prevWindowIndex
    · exact .inr (.inl (.inl (.inr (by rw [← h]; rfl))))
    · exact .inl (.inl (.inl (.inr (by simp [windowChanges, h]))))
  · split_ifs at he with hgap
    · rw [List.mem_singleton.mp he]
      by_cases h : some r.isGap = w.prevSampleIsGap
      · exact .inr (.inl (.inr (by rw [if_pos hgap, ← h]; exact List.mem_singleton_self _)))
      · exact .inl (.inl (.inr (by simp [gapChanges, hgap, h])))
    · cases he
  · rcases probeChanges_or_remembered hw.values he with h | h
    · exact .inl (.inr h)
    · exact .inr (.inr h)

/-! ### Values after a sample -/

/-- A reader has the digits that the writer remembers. -/
def Holds (w : WaveformWriterVCD) (es : List Event) : Prop :=
  ∀ e ∈ remembered w, latest e.1 none es = e.2.map shownDigits

theorem times_changes : ∀ cs : List (List Char × List Char), times (cs.map changeEvent) = []
  | [] => rfl
  | _ :: cs => times_changes cs

theorem latest_changes : ∀ {cs : List (List Char × List Char)}, (cs.map Prod.fst).Nodup →
    ∀ {e : List Char × List Char}, e ∈ cs → ∀ value : Option (List Char),
      latest e.1 value (cs.map changeEvent) = some (shownDigits e.2)
  | [], _, e, he, _ => by cases he
  | c :: cs, hnodup, e, he, value => by
    obtain ⟨hnot, hcs⟩ := List.nodup_cons.mp hnodup
    rw [List.map_cons, changeEvent, latest]
    rcases List.mem_cons.mp he with rfl | he
    · rw [if_pos rfl]
      refine ValueChange.latest_of_notMem fun v hv => hnot ?_
      obtain ⟨e', he', heq⟩ := List.mem_map.mp hv
      exact List.mem_map.mpr ⟨e', he', (Event.change.inj heq).1⟩
    · exact latest_changes hcs he _

theorem latest_stamp (id : List Char) (value : Option (List Char)) (b : Prop) [Decidable b] (n : ℕ)
    (es : List Event) : latest id value ((if b then [.time n] else []) ++ es) =
      latest id value es := by
  split_ifs <;> rfl

/-- After a sample, a reader has its digits. -/
theorem latest_digits (hw : Ready w) (hr : Complete w r) {es : List Event} (h : Holds w es)
    {e : List Char × List Char} (he : e ∈ digits w r) :
    latest e.1 none (es ++ sampleEvents w r) = some (shownDigits e.2) := by
  have hnodup : ((digits w r).map Prod.fst).Nodup := by
    rw [map_fst_digits hr]
    exact hw.nodup
  have hsub := changes_sublist w r
  rw [ValueChange.latest_append, sampleEvents, latest_stamp]
  by_cases hchange : e ∈ changes w r
  · exact latest_changes (hnodup.sublist (hsub.map _)) hchange _
  · have hnone : ∀ v, Event.change e.1 v ∉ (changes w r).map changeEvent := by
      intro v hv
      obtain ⟨e', he', heq⟩ := List.mem_map.mp hv
      have hcode : e'.1 = e.1 := (Event.change.inj heq).1
      have hsame : e' = e := List.inj_on_of_nodup_map hnodup (hsub.mem he') he hcode
      exact hchange (hsame ▸ he')
    rw [ValueChange.latest_of_notMem hnone]
    exact h _ ((changes_or_remembered hw he).resolve_left hchange)

theorem mem_remembered_after {e : List Char × Option (List Char)}
    (he : e ∈ remembered (afterSample w r)) : ∃ v, e.2 = some v ∧ (e.1, v) ∈ digits w r := by
  simp only [remembered, afterSample, List.mem_append, List.mem_singleton] at he
  simp only [digits, List.mem_append, List.mem_singleton]
  rcases he with ((rfl | rfl) | he) | he
  · exact ⟨_, rfl, .inl (.inl (.inl rfl))⟩
  · exact ⟨_, rfl, .inl (.inl (.inr rfl))⟩
  · split_ifs at he with hgap
    · rw [List.mem_singleton.mp he]
      exact ⟨_, rfl, .inl (.inr (by simp [hgap]))⟩
    · cases he
  · rw [List.zip_map_right] at he
    obtain ⟨⟨code, v⟩, hmem, rfl⟩ := List.mem_map.mp he
    exact ⟨v, rfl, .inr hmem⟩

theorem Holds.after (hw : Ready w) (hr : Complete w r) {es : List Event} (h : Holds w es) :
    Holds (afterSample w r) (es ++ sampleEvents w r) := by
  rintro ⟨code, value⟩ he
  obtain ⟨v, rfl, hmem⟩ := mem_remembered_after he
  exact latest_digits hw hr h hmem

/-! ### Events of all samples -/

def dumpEvents : WaveformWriterVCD → List SampleRecord → List Event
  | _, [] => []
  | w, r :: rs => sampleEvents w r ++ dumpEvents (afterSample w r) rs

theorem times_sampleEvents (w : WaveformWriterVCD) (r : SampleRecord) :
    times (sampleEvents w r) =
      if r.isLastSample = true ∨ changes w r ≠ [] then [r.samplePosition] else [] := by
  rw [sampleEvents, ValueChange.times_append, times_changes, List.append_nil]
  split_ifs <;> rfl

theorem mem_times_dumpEvents : ∀ {rs : List SampleRecord} {w : WaveformWriterVCD} {n : ℕ},
    n ∈ times (dumpEvents w rs) → ∃ r ∈ rs, n = r.samplePosition
  | r :: rs, w, n, h => by
    rw [dumpEvents, ValueChange.times_append, times_sampleEvents] at h
    rcases List.mem_append.mp h with h | h
    · split_ifs at h
      · exact ⟨r, List.mem_cons_self, List.mem_singleton.mp h⟩
      · cases h
    · obtain ⟨r', hr', hn⟩ := mem_times_dumpEvents h
      exact ⟨r', List.mem_cons_of_mem _ hr', hn⟩

/-- Stamps increase with the positions of the samples. -/
theorem pairwise_times_dumpEvents : ∀ {rs : List SampleRecord} (w : WaveformWriterVCD),
    (rs.map (·.samplePosition)).Pairwise (· < ·) → (times (dumpEvents w rs)).Pairwise (· < ·)
  | [], _, _ => List.Pairwise.nil
  | r :: rs, w, h => by
    obtain ⟨hfirst, hrest⟩ := List.pairwise_cons.mp h
    rw [dumpEvents, ValueChange.times_append, times_sampleEvents, List.pairwise_append]
    refine ⟨?_, pairwise_times_dumpEvents _ hrest, fun n hn m hm => ?_⟩
    · split_ifs <;> simp
    · obtain ⟨r', hr', rfl⟩ := mem_times_dumpEvents hm
      split_ifs at hn
      · rw [List.mem_singleton.mp hn]
        exact hfirst _ (List.mem_map_of_mem hr')
      · cases hn

theorem mem_times_of_isLastSample : ∀ {rs : List SampleRecord} (w : WaveformWriterVCD),
    ∀ r ∈ rs, r.isLastSample = true → r.samplePosition ∈ times (dumpEvents w rs)
  | r :: rs, w, r', hr', hlast => by
    rw [dumpEvents, ValueChange.times_append]
    rcases List.mem_cons.mp hr' with rfl | hr'
    · refine List.mem_append_left _ ?_
      rw [times_sampleEvents, if_pos (.inl hlast)]
      exact List.mem_singleton_self _
    · exact List.mem_append_right _ (mem_times_of_isLastSample _ r' hr' hlast)

/-- Changes have a stamp in front of them. -/
theorem dumpEvents_ne_change : ∀ (rs : List SampleRecord) (w : WaveformWriterVCD)
    (id v : List Char) (es : List Event), dumpEvents w rs ≠ .change id v :: es
  | [], _, _, _, _ => by simp [dumpEvents]
  | r :: rs, w, id, v, es => by
    rw [dumpEvents, sampleEvents]
    by_cases hstamp : r.isLastSample = true ∨ changes w r ≠ []
    · rw [if_pos hstamp]
      simp
    · have hnone : changes w r = [] := by
        by_contra hne
        exact hstamp (.inr hne)
      rw [if_neg hstamp, hnone]
      exact dumpEvents_ne_change rs _ id v es

/-- At the time of a sample, a reader of the whole dump has its digits. -/
theorem valueAt_dumpEvents : ∀ {rs : List SampleRecord} {w : WaveformWriterVCD} {es : List Event},
    Ready w → (∀ r ∈ rs, Complete w r) → Holds w es →
    (rs.map (·.samplePosition)).Pairwise (· < ·) →
    (∀ n ∈ times es, ∀ r ∈ rs, n ≤ r.samplePosition) →
    ∀ r ∈ rs, ∀ e ∈ digits w r,
      valueAt r.samplePosition e.1 true none (es ++ dumpEvents w rs) = some (shownDigits e.2)
  | r :: rs, w, es, hw, hcomplete, hholds, hsorted, htimes, r', hr', e, he => by
    obtain ⟨hfirst, hrest⟩ := List.pairwise_cons.mp hsorted
    obtain ⟨hr, hrs⟩ := List.forall_mem_cons.mp hcomplete
    have hpast : ∀ n ∈ times (es ++ sampleEvents w r), n ≤ r.samplePosition := by
      intro n hn
      rw [ValueChange.times_append, times_sampleEvents] at hn
      rcases List.mem_append.mp hn with hn | hn
      · exact htimes n hn r List.mem_cons_self
      · split_ifs at hn
        · exact (List.mem_singleton.mp hn).le
        · cases hn
    rw [dumpEvents, ← List.append_assoc]
    rcases List.mem_cons.mp hr' with rfl | hr'
    · have hlater : ∀ n ∈ times (dumpEvents (afterSample w r') rs), r'.samplePosition < n := by
        intro n hn
        obtain ⟨r'', hr'', rfl⟩ := mem_times_dumpEvents hn
        exact hfirst _ (List.mem_map_of_mem hr'')
      rw [ValueChange.valueAt_append e.1 hlater (dumpEvents_ne_change rs _) _ hpast]
      exact latest_digits hw hr hholds he
    · refine valueAt_dumpEvents (hw.after hr) (fun r'' hr'' => (hrs r'' hr'').after)
        (hholds.after hw hr) hrest (fun n hn r'' hr'' => ?_) r' hr' e he
      exact (hpast n hn).trans (hfirst _ (List.mem_map_of_mem hr'')).le

/-! ### The text of the samples -/

def dumpText : WaveformWriterVCD → List SampleRecord → List Char
  | _, [] => []
  | w, r :: rs => sampleText w r ++ dumpText (afterSample w r) rs

theorem foldlM_writeSample : ∀ {rs : List SampleRecord} {w : WaveformWriterVCD}, Ready w →
    (∀ r ∈ rs, Complete w r) →
    ∃ w', rs.foldlM writeSample w = .ok w' ∧ w'.text = w.text ++ dumpText w rs
  | [], w, _, _ => ⟨w, rfl, (List.append_nil _).symm⟩
  | r :: rs, w, hw, hcomplete => by
    obtain ⟨hr, hrs⟩ := List.forall_mem_cons.mp hcomplete
    obtain ⟨w', hrun, htext⟩ := foldlM_writeSample (hw.after hr) fun r' hr' => (hrs r' hr').after
    refine ⟨w', ?_, ?_⟩
    · rw [List.foldlM_cons, writeSample_eq (hw.values.trans hr.length) hr.length hr.writable,
        Py.ok_bind, hrun]
    · rw [htext, dumpText, ← List.append_assoc]
      rfl

theorem lines_changeLine (e : List Char × List Char) : Lines (changeLine e) := by
  rw [changeLine]
  split_ifs
  · exact Lines.line _
  · exact Lines.line _

/-- A change is read again. -/
theorem run_changeLine (file : File) {isGap : Bool} {e : List Char × List Char} (hcode : Solid e.1)
    (hvalue : Writable isGap e.2) : Reader.run ⟨.changes, file⟩ (changeLine e) =
      ⟨.changes, ⟨file.vars, file.events ++ [changeEvent e]⟩⟩ := by
  obtain ⟨code, value⟩ := e
  rw [changeLine, changeEvent]
  by_cases hone : value.length = 1
  · obtain ⟨c, rfl⟩ := List.length_eq_one_iff.mp hone
    rw [if_pos hone, shownDigits_singleton]
    exact ValueChange.run_bit file (hvalue.digit c List.mem_cons_self) hcode
  · rw [if_neg hone]
    refine ValueChange.run_vector file (fun c hc => ?_) hcode
    exact isBlank_digit (hvalue.digit c (mem_of_mem_shownDigits hc))

theorem run_changeLines {isGap : Bool} : ∀ {cs : List (List Char × List Char)} (file : File),
    (∀ e ∈ cs, Solid e.1 ∧ Writable isGap e.2) →
    Reader.run ⟨.changes, file⟩ (cs.flatMap changeLine) =
      ⟨.changes, ⟨file.vars, file.events ++ cs.map changeEvent⟩⟩
  | [], file, _ => by
    rw [List.map_nil, List.append_nil]
    rfl
  | e :: cs, file, h => by
    obtain ⟨⟨hcode, hvalue⟩, hcs⟩ := List.forall_mem_cons.mp h
    rw [List.flatMap_cons, (lines_changeLine e).run_append, run_changeLine file hcode hvalue,
      run_changeLines _ hcs, List.map_cons, List.append_assoc, List.singleton_append]

theorem lines_changeLines : ∀ cs : List (List Char × List Char), Lines (cs.flatMap changeLine)
  | [] => Lines.nil
  | e :: cs => (lines_changeLine e).append (lines_changeLines cs)

/-- The stamp is written for the last sample, and for changes. -/
theorem sampleText_eq (w : WaveformWriterVCD) (r : SampleRecord) : sampleText w r =
    (if r.isLastSample = true ∨ changes w r ≠ [] then timeLine r.samplePosition else []) ++
      (changes w r).flatMap changeLine := by
  rw [sampleText, block, ← List.append_assoc]
  congr 1
  cases r.isLastSample with
  | true => simp
  | false => simp

theorem lines_stamp (b : Prop) [Decidable b] (n : ℕ) : Lines (if b then timeLine n else []) := by
  split_ifs
  · exact Lines.line _
  · exact Lines.nil

theorem run_sampleText (hw : Ready w) (hr : Complete w r) (file : File) :
    Reader.run ⟨.changes, file⟩ (sampleText w r) =
      ⟨.changes, ⟨file.vars, file.events ++ sampleEvents w r⟩⟩ := by
  have hchanges : ∀ e ∈ changes w r, Solid e.1 ∧ Writable r.isGap e.2 := by
    intro e he
    have hmem := (changes_sublist w r).mem he
    have hcode : e.1 ∈ w.codes := map_fst_digits hr ▸ List.mem_map_of_mem hmem
    exact ⟨hw.solid _ hcode, writable_of_mem_digits hr hmem⟩
  rw [sampleText_eq, (lines_stamp _ _).run_append, sampleEvents, ← List.append_assoc]
  split_ifs
  · rw [timeLine, ValueChange.run_time, run_changeLines _ hchanges]
  · rw [List.append_nil]
    exact run_changeLines file hchanges

theorem lines_sampleText (w : WaveformWriterVCD) (r : SampleRecord) : Lines (sampleText w r) := by
  rw [sampleText_eq]
  exact (lines_stamp _ _).append (lines_changeLines _)

theorem run_dumpText : ∀ {rs : List SampleRecord} {w : WaveformWriterVCD}, Ready w →
    (∀ r ∈ rs, Complete w r) → ∀ file : File,
    Reader.run ⟨.changes, file⟩ (dumpText w rs) =
      ⟨.changes, ⟨file.vars, file.events ++ dumpEvents w rs⟩⟩
  | [], w, _, _, file => by
    rw [dumpEvents, List.append_nil]
    rfl
  | r :: rs, w, hw, hcomplete, file => by
    obtain ⟨hr, hrs⟩ := List.forall_mem_cons.mp hcomplete
    rw [dumpText, (lines_sampleText w r).run_append, run_sampleText hw hr,
      run_dumpText (hw.after hr) (fun r' hr' => (hrs r' hr').after), dumpEvents, List.append_assoc]

end Chipscopy.Waveform.WaveformWriterVCD
