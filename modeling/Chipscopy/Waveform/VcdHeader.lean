import Chipscopy.Waveform.VcdEvents

/-! The header of a dump

    The codes of the variables are different words, so what the header declares is read again as the
    variables of the probes, of the trigger, of the window and of the gap. -/

namespace Chipscopy.Waveform

open ValueChange (Lines Solid Var File Reader words)

namespace WaveformWriterVCD

/-! ### Identifier codes -/

theorem toNat_ofNat_of_mem {n : ℕ} (h : n ∈ List.range' 33 93) : (Char.ofNat n).toNat = n := by
  have hn := List.mem_range'_1.mp h
  have hvalid : n.isValidChar := .inl (by omega)
  rw [Char.toNat_ofNat, if_pos hvalid]

theorem nodup_varChars : varChars.Nodup := by
  refine List.Nodup.map_on (fun a ha b hb hab => ?_) List.nodup_range'
  rw [← toNat_ofNat_of_mem ha, ← toNat_ofNat_of_mem hb, hab]

/-- All blanks come before the letters. -/
theorem isBlank_varChars : ∀ c ∈ varChars, ValueChange.isBlank c = false := by
  intro c hc
  obtain ⟨n, hn, rfl⟩ := List.mem_map.mp hc
  have hnat := toNat_ofNat_of_mem hn
  have hle := (List.mem_range'_1.mp hn).1
  by_contra hblank
  simp only [ValueChange.isBlank, Bool.not_eq_false, Bool.or_eq_true, decide_eq_true_eq] at hblank
  rcases hblank with ((h | h) | h) | h <;>
  · rw [h] at hnat
    subst hnat
    exact absurd hle (by decide)

theorem length_varChars : varChars.length = 93 := by simp [varChars]

/-- All codes with one letter more. -/
def extended (codes : List (List Char)) : List (List Char) :=
  varChars.flatMap fun c => codes.map (c :: ·)

theorem mem_extended {codes : List (List Char)} {code : List Char} :
    code ∈ extended codes ↔ ∃ c ∈ varChars, ∃ rest ∈ codes, c :: rest = code := by
  simp [extended]

theorem nodup_extended {codes : List (List Char)} (h : codes.Nodup) : (extended codes).Nodup := by
  rw [extended, List.nodup_flatMap]
  refine ⟨fun c _ => h.map fun a b hab => (List.cons.inj hab).2, ?_⟩
  refine nodup_varChars.imp fun {c d} hcd => ?_
  rw [Function.onFun, List.disjoint_left]
  intro code hc hd
  obtain ⟨rest, -, rfl⟩ := List.mem_map.mp hc
  obtain ⟨rest', -, heq⟩ := List.mem_map.mp hd
  exact hcd (List.cons.inj heq).1.symm

theorem length_extended (codes : List (List Char)) :
    (extended codes).length = 93 * codes.length := by
  have hlength : ∀ c : Char, (codes.map (c :: ·)).length = codes.length := fun c =>
    List.length_map _
  rw [extended, List.length_flatMap, List.map_congr_left fun c _ => hlength c, List.map_const',
    List.sum_replicate, length_varChars, smul_eq_mul]

/-- The shortest codes. -/
def oneLetter : List (List Char) := varChars.map fun x => [x]

theorem generateVars_eq :
    generateVars = oneLetter ++ extended oneLetter ++ extended (extended oneLetter) := by
  simp only [generateVars, oneLetter, extended, List.map_flatMap, List.map_map]
  rfl

/-- A code of a number of letters. -/
def IsCode (n : ℕ) (code : List Char) : Prop := code.length = n ∧ ∀ c ∈ code, c ∈ varChars

theorem isCode_oneLetter : ∀ code ∈ oneLetter, IsCode 1 code := by
  intro code h
  obtain ⟨c, hc, rfl⟩ := List.mem_map.mp h
  exact ⟨rfl, by simpa using hc⟩

theorem isCode_extended {n : ℕ} {codes : List (List Char)} (h : ∀ code ∈ codes, IsCode n code) :
    ∀ code ∈ extended codes, IsCode (n + 1) code := by
  intro code hcode
  obtain ⟨c, hc, rest, hrest, rfl⟩ := mem_extended.mp hcode
  obtain ⟨hlength, hletters⟩ := h rest hrest
  exact ⟨by rw [List.length_cons, hlength], List.forall_mem_cons.mpr ⟨hc, hletters⟩⟩

theorem isCode_generateVars {code : List Char} (h : code ∈ generateVars) :
    ∃ n, 0 < n ∧ n ≤ 3 ∧ IsCode n code := by
  have htwo := isCode_extended isCode_oneLetter
  have hthree := isCode_extended htwo
  rw [generateVars_eq] at h
  rcases List.mem_append.mp h with h | h
  · rcases List.mem_append.mp h with h | h
    · exact ⟨1, by omega, by omega, isCode_oneLetter code h⟩
    · exact ⟨2, by omega, by omega, htwo code h⟩
  · exact ⟨3, by omega, by omega, hthree code h⟩

theorem solid_generateVars {code : List Char} (h : code ∈ generateVars) : Solid code := by
  obtain ⟨n, hpos, -, hlength, hletters⟩ := isCode_generateVars h
  refine ⟨?_, fun c hc => isBlank_varChars c (hletters c hc)⟩
  rintro rfl
  rw [List.length_nil] at hlength
  omega

theorem generateVars_ne_end {code : List Char} (h : code ∈ generateVars) :
    code ≠ "$end".toList := by
  obtain ⟨n, -, hle, hlength, -⟩ := isCode_generateVars h
  rintro rfl
  have hfour : "$end".toList.length = 4 := rfl
  omega

/-- No code is given twice. -/
theorem nodup_generateVars : generateVars.Nodup := by
  have hone : oneLetter.Nodup := nodup_varChars.map fun a b hab => (List.cons.inj hab).1
  have htwo := isCode_extended isCode_oneLetter
  have hthree := isCode_extended htwo
  rw [generateVars_eq]
  refine List.Nodup.append (List.Nodup.append hone (nodup_extended hone) ?_)
    (nodup_extended (nodup_extended hone)) ?_
  · intro code h₁ h₂
    have hlength₁ := (isCode_oneLetter code h₁).1
    have hlength₂ := (htwo code h₂).1
    omega
  · intro code h₁ h₂
    have hlength₂ := (hthree code h₂).1
    rcases List.mem_append.mp h₁ with h₁ | h₁
    · have hlength₁ := (isCode_oneLetter code h₁).1
      omega
    · have hlength₁ := (htwo code h₁).1
      omega

theorem length_generateVars : generateVars.length = 813099 := by
  rw [generateVars_eq, List.length_append, List.length_append, length_extended, length_extended,
    length_extended, oneLetter, List.length_map, length_varChars]

/-- The codes of some probes, behind those of the flags. -/
theorem exists_codes {n : ℕ} (hn : n ≤ 800000) : ∃ a b c rest,
    generateVars.take (n + 3) = a :: b :: c :: rest ∧ rest.length = n ∧
      (a :: b :: c :: rest).Nodup ∧ ∀ code ∈ a :: b :: c :: rest, code ∈ generateVars := by
  have hlength : (generateVars.take (n + 3)).length = n + 3 := by
    rw [List.length_take, length_generateVars]
    omega
  have hnodup := nodup_generateVars.sublist (List.take_sublist (n + 3) generateVars)
  have hmem : ∀ code ∈ generateVars.take (n + 3), code ∈ generateVars := fun code h =>
    List.mem_of_mem_take h
  rcases hcodes : generateVars.take (n + 3) with _ | ⟨a, _ | ⟨b, _ | ⟨c, rest⟩⟩⟩
  · simp [hcodes] at hlength
  · simp [hcodes] at hlength
  · simp [hcodes] at hlength
  · rw [hcodes] at hlength hnodup hmem
    exact ⟨a, b, c, rest, rfl, by simpa using hlength, hnodup, hmem⟩

/-! ### The header -/

/-- The writer before it has written anything. -/
def blank (probes : List ILAWaveformProbe) (includeGap : Bool) (a b c : List Char)
    (rest : List (List Char)) : WaveformWriterVCD where
  probes := probes
  includeGap := includeGap
  values := List.replicate probes.length none
  triggerVar := a
  windowVar := b
  gapVar := c
  vars := rest

/-- A probe as a reader knows it. -/
def probeVar (e : ILAWaveformProbe × List Char) : Var :=
  ⟨e.1.length, e.2, words (makeProbeName e.1)⟩

/-- The flags of a sample, after the probes. -/
def flagVars (includeGap : Bool) (a b c : List Char) : List Var :=
  [⟨1, a, ["_TRIGGER".toList]⟩, ⟨1, b, ["_WINDOW".toList]⟩] ++
    if includeGap then [⟨1, c, ["_GAP".toList]⟩] else []

/-- Text of the definitions. -/
def definitions (w : WaveformWriterVCD) : List Char :=
  ((w.probes.zip w.vars).flatMap fun e => definition e.1.length e.2 (makeProbeName e.1)) ++
    (definition 1 w.triggerVar "_TRIGGER".toList ++ definition 1 w.windowVar "_WINDOW".toList) ++
    if w.includeGap then definition 1 w.gapVar "_GAP".toList else []

theorem write_write (w : WaveformWriterVCD) (msg msg' : List Char) :
    (w.write msg).write msg' = w.write (msg ++ msg') := by
  simp [write]

theorem foldl_write {α : Type} (f : α → List Char) (l : List α) (w : WaveformWriterVCD) :
    l.foldl (fun w e => w.write (f e)) w = w.write (l.flatMap f) := by
  induction l generalizing w with
  | nil => simp [write]
  | cons e l ih => rw [List.foldl_cons, ih, write_write, List.flatMap_cons]

theorem writeVariableDefinitions_eq (w : WaveformWriterVCD) :
    w.writeVariableDefinitions = w.write (definitions w) := by
  rw [writeVariableDefinitions, foldl_write, definitions]
  cases hgap : w.includeGap with
  | false => simp [write, hgap]
  | true => simp [write, hgap]

/-- The three texts of the header. -/
def dateText (now : Timestamp) : List Char :=
  "$date\n        ".toList ++ now.format ++ "\n$end\n".toList

def versionText (version : String) : List Char :=
  "$version\n        ChipScoPy Version ".toList ++ version.toList ++ "\n$end\n".toList

def scopeText : List Char := "$timescale\n        1ps\n$end\n$scope module dut $end\n".toList

/-- Text before the definitions. -/
def header (version : String) (now : Timestamp) : List Char :=
  dateText now ++ (versionText version ++ scopeText)

/-- Text behind the definitions. -/
def footer : List Char := "$upscope $end\n$enddefinitions $end\n".toList

/-- What the writer has written before the first sample. -/
def start (probes : List ILAWaveformProbe) (includeGap : Bool) (a b c : List Char)
    (rest : List (List Char)) (version : String) (now : Timestamp) : List Char :=
  header version now ++ (definitions (blank probes includeGap a b c rest) ++ footer)

theorem init_eq {probes : List ILAWaveformProbe} {a b c : List Char} {rest : List (List Char)}
    (h : generateVars.take (probes.length + 3) = a :: b :: c :: rest) (includeGap : Bool)
    (version : String) (now : Timestamp) :
    init probes includeGap version now = (blank probes includeGap a b c rest).write
      (start probes includeGap a b c rest version now) := by
  have hdefinitions : ∀ (w : WaveformWriterVCD) msg, definitions (w.write msg) = definitions w :=
    fun _ _ => rfl
  have hinit : init probes includeGap version now =
      (((blank probes includeGap a b c rest).write
        (header version now)).writeVariableDefinitions).write footer := by
    rw [init, h]
    rfl
  rw [hinit, writeVariableDefinitions_eq, hdefinitions, write_write, write_write,
    ← List.append_assoc, start, List.append_assoc]

/-! ### Reading the header -/

theorem dollar_notMem_toDigits (n : ℕ) : '$' ∉ Nat.toDigits 10 n := by
  intro h
  exact absurd (Nat.isDigit_of_mem_toDigits (by decide) (by decide) h) (by decide)

theorem dollar_notMem_twoDigits (n : ℕ) : '$' ∉ twoDigits n := by
  simp [twoDigits, dollar_notMem_toDigits, List.mem_replicate]

theorem dollar_notMem_format (now : Timestamp) : '$' ∉ now.format := by
  simp [Timestamp.format, dollar_notMem_toDigits, dollar_notMem_twoDigits]

/-- A text without the letter has no closing word. -/
theorem end_notMem_words {text : List Char} (h : '$' ∉ text) : "$end".toList ∉ words text := by
  intro hend
  exact h (ValueChange.mem_of_mem_words hend (by simp))

theorem run_date (file : File) (now : Timestamp) :
    Reader.run ⟨.declarations, file⟩ (dateText now) = ⟨.declarations, file⟩ := by
  have hname : Solid ('$' :: "date".toList) := by simp [Solid, ValueChange.isBlank]
  have hbody : '$' ∉ "        ".toList ++ now.format := by
    simp [dollar_notMem_format]
  have htext : dateText now = '$' :: "date".toList ++ '\n' :: ("        ".toList ++ now.format) ++
      "\n$end\n".toList := by
    simp only [List.append_assoc, List.cons_append]
    rfl
  rw [htext]
  exact ValueChange.run_section file hname (by decide) (by decide) (end_notMem_words hbody) rfl

theorem run_version (file : File) {version : String}
    (hversion : "$end".toList ∉ words version.toList) :
    Reader.run ⟨.declarations, file⟩ (versionText version) = ⟨.declarations, file⟩ := by
  have hname : Solid ('$' :: "version".toList) := by simp [Solid, ValueChange.isBlank]
  have hbody : "$end".toList ∉
      words ("        ChipScoPy Version".toList ++ ' ' :: version.toList) := by
    rw [ValueChange.words_append_blank rfl, List.mem_append, not_or]
    exact ⟨end_notMem_words (by simp), hversion⟩
  have htext : versionText version = '$' :: "version".toList ++
      '\n' :: ("        ChipScoPy Version".toList ++ ' ' :: version.toList) ++
        "\n$end\n".toList := by
    simp only [List.append_assoc, List.cons_append]
    rfl
  rw [htext]
  exact ValueChange.run_section file hname (by decide) (by decide) hbody rfl

/-- Declarations that are the same in every dump. -/
theorem run_scope (file : File) :
    Reader.run ⟨.declarations, file⟩ scopeText = ⟨.declarations, file⟩ := by
  have hwords : words scopeText = ["$timescale".toList, "1ps".toList, "$end".toList,
      "$scope".toList, "module".toList, "dut".toList, "$end".toList] := rfl
  rw [Reader.run, hwords]
  rfl

theorem run_footer (file : File) :
    Reader.run ⟨.declarations, file⟩ footer = ⟨.changes, file⟩ := by
  have hwords : words footer = ["$upscope".toList, "$end".toList, "$enddefinitions".toList,
      "$end".toList] := rfl
  rw [Reader.run, hwords]
  rfl

theorem lines_append {text : List Char} (h : Lines text) (hne : text ≠ []) (front : List Char) :
    Lines (front ++ text) := by
  obtain ⟨l, rfl⟩ := h.resolve_left hne
  rw [← List.append_assoc]
  exact Lines.line _

theorem lines_header (version : String) (now : Timestamp) : Lines (header version now) := by
  have hscope : scopeText = "$timescale\n        1ps\n$end\n$scope module dut $end".toList ++
      ['\n'] := rfl
  have hne : scopeText ≠ [] := by simp [hscope]
  exact lines_append (lines_append (.inr ⟨_, hscope⟩) hne _) (by simp [hne]) _

theorem lines_footer : Lines footer :=
  .inr ⟨"$upscope $end\n$enddefinitions $end".toList, rfl⟩

theorem run_header (file : File) {version : String} (now : Timestamp)
    (hversion : "$end".toList ∉ words version.toList) :
    Reader.run ⟨.declarations, file⟩ (header version now) = ⟨.declarations, file⟩ := by
  have hend : Lines "\n$end\n".toList := .inr ⟨"\n$end".toList, rfl⟩
  have hdate : Lines (dateText now) := lines_append hend (by simp) _
  have hlines : Lines (versionText version) := lines_append hend (by simp) _
  rw [header, hdate.run_append, run_date, hlines.run_append, run_version file hversion, run_scope]

/-! ### Reading the definitions -/

theorem lines_definition (width : ℕ) (code name : List Char) :
    Lines (definition width code name) := by
  have hend : Lines " $end\n".toList := .inr ⟨" $end".toList, rfl⟩
  exact lines_append hend (by simp) _

/-- A definition that is read as a variable. -/
structure Readable (e : ILAWaveformProbe × List Char) : Prop where
  solid : Solid e.2
  code : e.2 ≠ "$end".toList
  name : "$end".toList ∉ words (makeProbeName e.1)

theorem run_probeDefinitions {es : List (ILAWaveformProbe × List Char)}
    (h : ∀ e ∈ es, Readable e) (file : File) :
    Reader.run ⟨.declarations, file⟩
        (es.flatMap fun e => definition e.1.length e.2 (makeProbeName e.1)) =
      ⟨.declarations, ⟨file.vars ++ es.map probeVar, file.events⟩⟩ := by
  induction es generalizing file with
  | nil =>
    rw [List.map_nil, List.append_nil]
    rfl
  | cons e es ih =>
    obtain ⟨he, hes⟩ := List.forall_mem_cons.mp h
    have hvar := ValueChange.run_var file e.1.length he.solid he.code he.name
    have hrun : Reader.run ⟨.declarations, file⟩
        (definition e.1.length e.2 (makeProbeName e.1)) =
          ⟨.declarations, ⟨file.vars ++ [probeVar e], file.events⟩⟩ := hvar
    rw [List.flatMap_cons, (lines_definition _ _ _).run_append, hrun, ih hes]
    simp

theorem run_flagDefinition (file : File) {code name : List Char} (hcode : code ∈ generateVars)
    (hname : Solid name) (hend : name ≠ "$end".toList) :
    Reader.run ⟨.declarations, file⟩ (definition 1 code name) =
      ⟨.declarations, ⟨file.vars ++ [⟨1, code, [name]⟩], file.events⟩⟩ := by
  have hwords := ValueChange.words_of_solid hname
  have hnot : "$end".toList ∉ words name := by
    rw [hwords, List.mem_singleton]
    exact hend.symm
  have hvar := ValueChange.run_var file 1 (solid_generateVars hcode)
    (generateVars_ne_end hcode) hnot
  rw [hwords] at hvar
  exact hvar

theorem lines_probeDefinitions (es : List (ILAWaveformProbe × List Char)) :
    Lines (es.flatMap fun e => definition e.1.length e.2 (makeProbeName e.1)) := by
  induction es with
  | nil => exact Lines.nil
  | cons e es ih => exact (lines_definition _ _ _).append ih

theorem lines_definitions (w : WaveformWriterVCD) : Lines (definitions w) := by
  rw [definitions]
  refine ((lines_probeDefinitions _).append
    ((lines_definition _ _ _).append (lines_definition _ _ _))).append ?_
  split_ifs
  · exact lines_definition _ _ _
  · exact Lines.nil

theorem run_definitions {probes : List ILAWaveformProbe} {a b c : List Char}
    {rest : List (List Char)} (hcodes : ∀ code ∈ a :: b :: c :: rest, code ∈ generateVars)
    (hnames : ∀ p ∈ probes, "$end".toList ∉ words (makeProbeName p)) (includeGap : Bool) :
    Reader.run ⟨.declarations, ⟨[], []⟩⟩ (definitions (blank probes includeGap a b c rest)) =
      ⟨.declarations,
        ⟨(probes.zip rest).map probeVar ++ flagVars includeGap a b c, []⟩⟩ := by
  have hreadable : ∀ e ∈ probes.zip rest, Readable e := by
    intro e he
    obtain ⟨hp, hrest⟩ := List.of_mem_zip he
    have hcode : e.2 ∈ generateVars := hcodes _ (by simp [hrest])
    exact ⟨solid_generateVars hcode, generateVars_ne_end hcode, hnames _ hp⟩
  have htrigger : Solid "_TRIGGER".toList := by simp [Solid, ValueChange.isBlank]
  have hwindow : Solid "_WINDOW".toList := by simp [Solid, ValueChange.isBlank]
  have hgap : Solid "_GAP".toList := by simp [Solid, ValueChange.isBlank]
  have hend : ∀ name : String, '$' ∉ name.toList → name.toList ≠ "$end".toList := by
    intro name hname heq
    exact hname (heq ▸ by simp)
  have hdefinitions : definitions (blank probes includeGap a b c rest) =
      ((probes.zip rest).flatMap fun e => definition e.1.length e.2 (makeProbeName e.1)) ++
        (definition 1 a "_TRIGGER".toList ++ definition 1 b "_WINDOW".toList) ++
        if includeGap then definition 1 c "_GAP".toList else [] := rfl
  rw [hdefinitions, ((lines_probeDefinitions _).append ((lines_definition _ _ _).append
    (lines_definition _ _ _))).run_append, (lines_probeDefinitions _).run_append,
    (lines_definition _ _ _).run_append, run_probeDefinitions hreadable,
    run_flagDefinition _ (hcodes a (by simp)) htrigger (hend _ (by simp)),
    run_flagDefinition _ (hcodes b (by simp)) hwindow (hend _ (by simp))]
  cases includeGap with
  | false => simp [flagVars, Reader.run, words, ValueChange.wordsFrom]
  | true =>
    rw [if_pos rfl, run_flagDefinition _ (hcodes c (by simp)) hgap (hend _ (by simp))]
    simp [flagVars]

theorem lines_start (probes : List ILAWaveformProbe) (includeGap : Bool) (a b c : List Char)
    (rest : List (List Char)) (version : String) (now : Timestamp) :
    Lines (start probes includeGap a b c rest version now) :=
  (lines_header version now).append ((lines_definitions _).append lines_footer)

theorem run_start {probes : List ILAWaveformProbe} {a b c : List Char} {rest : List (List Char)}
    (hcodes : ∀ code ∈ a :: b :: c :: rest, code ∈ generateVars)
    (hnames : ∀ p ∈ probes, "$end".toList ∉ words (makeProbeName p)) (includeGap : Bool)
    {version : String} (hversion : "$end".toList ∉ words version.toList) (now : Timestamp) :
    Reader.run ⟨.declarations, ⟨[], []⟩⟩ (start probes includeGap a b c rest version now) =
      ⟨.changes, ⟨(probes.zip rest).map probeVar ++ flagVars includeGap a b c, []⟩⟩ := by
  rw [start, (lines_header version now).run_append, run_header _ now hversion,
    (lines_definitions _).run_append, run_definitions hcodes hnames, run_footer]

end WaveformWriterVCD

end Chipscopy.Waveform
