import Mathlib

/-! Deterministic machines

    A machine reads one input in each step, moves to a new state and shows an output. Two machines
    that agree on one step from any two related states show the same outputs, and stay related, on
    every sequence of inputs. A machine that refuses some inputs keeps an invariant in all its runs
    if every step keeps it that meets a condition. -/

namespace Machine

variable {ι ω σ τ : Type*}

/-- States visited and outputs shown on a sequence of inputs. -/
def run (step : σ → ι → σ × ω) : σ → List ι → List (σ × ω)
  | _, [] => []
  | s, i :: is => step s i :: run step (step s i).1 is

/-- One step from related states shows the same output and keeps the states related. -/
def Simulates (step : σ → ι → σ × ω) (step' : τ → ι → τ × ω) (R : σ → τ → Prop) : Prop :=
  ∀ s t i, R s t → R (step s i).1 (step' t i).1 ∧ (step s i).2 = (step' t i).2

/-- Run rule of a simulation. -/
theorem Simulates.run {step : σ → ι → σ × ω} {step' : τ → ι → τ × ω} {R : σ → τ → Prop}
    (h : Simulates step step' R) : ∀ (is : List ι) {s : σ} {t : τ}, R s t →
      List.Forall₂ (fun a b => R a.1 b.1 ∧ a.2 = b.2) (run step s is) (run step' t is)
  | [], _, _, _ => List.Forall₂.nil
  | i :: is, s, t, hst =>
    List.Forall₂.cons (h s t i hst) (Simulates.run h is (h s t i hst).1)

/-- On equal states of an invariant the runs are equal. -/
theorem run_eq {step step' : σ → ι → σ × ω} (Inv : σ → Prop)
    (hinv : ∀ s i, Inv s → Inv (step s i).1) (heq : ∀ s i, Inv s → step s i = step' s i)
    (is : List ι) {s : σ} (hs : Inv s) : run step s is = run step' s is := by
  have hsim : Simulates step step' fun s t => Inv s ∧ s = t := by
    rintro s _ i ⟨hs, rfl⟩
    exact ⟨⟨hinv s i hs, congrArg Prod.fst (heq s i hs)⟩, congrArg Prod.snd (heq s i hs)⟩
  have hrun := hsim.run is ⟨hs, rfl⟩
  rw [← List.forall₂_eq_eq_eq]
  exact hrun.imp fun a b h => Prod.ext h.1.2 h.2

/-- Run rule of an invariant that also tells the outputs. -/
theorem run_forall₂ {step : σ → ι → σ × ω} (Inv : σ → Prop) {Q : ι → σ × ω → Prop}
    (hstep : ∀ s i, Inv s → Q i (step s i) ∧ Inv (step s i).1) (is : List ι) {s : σ} (hs : Inv s) :
    List.Forall₂ Q is (run step s is) := by
  induction is generalizing s with
  | nil => exact List.Forall₂.nil
  | cons i is ih =>
    obtain ⟨hq, hinv⟩ := hstep s i hs
    exact List.Forall₂.cons hq (ih hinv)

/-! ### Machines that refuse inputs -/

section Guarded

variable (step : σ → ι → Option σ)

/-- Each input of a run meets a condition on the state before it. -/
def EachStep (C : σ → ι → Prop) : σ → List ι → Prop
  | _, [] => True
  | s, i :: is => C s i ∧ ∀ s' ∈ step s i, EachStep C s' is

/-- All states of a run have one property, and all steps have another. -/
def Throughout (P : σ → Prop) (Q : σ → ι → σ → Prop) : σ → List ι → Prop
  | s, [] => P s
  | s, i :: is => P s ∧ ∀ s' ∈ step s i, Q s i s' ∧ Throughout P Q s' is

/-- The state after a run, if no input is refused. -/
def runTo : σ → List ι → Option σ
  | s, [] => some s
  | s, i :: is => (step s i).bind (runTo · is)

variable {step} {C : σ → ι → Prop} {P : σ → Prop} {Q : σ → ι → σ → Prop}

/-- Run rule of an invariant. -/
theorem Throughout.of_inv {Inv : σ → Prop} (hP : ∀ {s}, Inv s → P s)
    (hstep : ∀ {s i s'}, Inv s → C s i → step s i = some s' → Inv s' ∧ Q s i s') :
    ∀ (is : List ι) {s : σ}, Inv s → EachStep step C s is → Throughout step P Q s is
  | [], _, hs, _ => hP hs
  | i :: is, s, hs, ⟨hi, hrest⟩ => by
    refine ⟨hP hs, fun s' hs' => ?_⟩
    obtain ⟨hinv, hq⟩ := hstep hs hi hs'
    exact ⟨hq, Throughout.of_inv hP hstep is hinv (hrest s' hs')⟩

theorem Throughout.head : ∀ {is : List ι} {s : σ}, Throughout step P Q s is → P s
  | [], _, h => h
  | _ :: _, _, h => h.1

/-- Run rule of a condition that is exact: a step that does not meet it lacks one of the properties. -/
theorem Throughout.iff_eachStep (Inv : σ → Prop) (hP : ∀ {s}, Inv s → P s)
    (hstep : ∀ {s i s'}, Inv s → C s i → step s i = some s' → Inv s' ∧ Q s i s')
    (hbad : ∀ {s i}, Inv s → ¬ C s i → ∃ s', step s i = some s' ∧ (Q s i s' → ¬ P s')) :
    ∀ (is : List ι) {s : σ}, Inv s → (Throughout step P Q s is ↔ EachStep step C s is)
  | [], _, hs => iff_of_true (hP hs) trivial
  | i :: is, s, hs => by
    constructor
    · intro h
      have hi : C s i := by
        by_contra hi
        obtain ⟨s', hs', hnot⟩ := hbad hs hi
        exact hnot (h.2 s' hs').1 (h.2 s' hs').2.head
      exact ⟨hi, fun s' hs' =>
        (Throughout.iff_eachStep Inv hP hstep hbad is (hstep hs hi hs').1).mp (h.2 s' hs').2⟩
    · exact Throughout.of_inv hP hstep (i :: is) hs

theorem Throughout.runTo : ∀ {is : List ι} {s s' : σ}, Throughout step P Q s is →
    runTo step s is = some s' → P s'
  | [], s, s', h, hrun => by
    obtain rfl := Option.some.inj hrun
    exact h
  | i :: is, s, s', ⟨_, h⟩, hrun => by
    obtain ⟨s₁, hs₁, hrun⟩ := Option.bind_eq_some_iff.mp hrun
    exact (h s₁ hs₁).2.runTo hrun

/-- The step after a run. -/
theorem Throughout.last : ∀ {is : List ι} {i : ι} {s s' s'' : σ},
    Throughout step P Q s (is ++ [i]) → Machine.runTo step s is = some s' →
    step s' i = some s'' → Q s' i s''
  | [], i, s, s', s'', h, hrun, hstep => by
    obtain rfl := Option.some.inj hrun
    exact (h.2 s'' hstep).1
  | j :: is, i, s, s', s'', h, hrun, hstep => by
    obtain ⟨s₁, hs₁, hrun⟩ := Option.bind_eq_some_iff.mp hrun
    exact (h.2 s₁ hs₁).2.last hrun hstep

/-- Run rule of an invariant that all steps keep. -/
theorem runTo_inv {I : σ → Prop} (hstep : ∀ {s i s'}, I s → step s i = some s' → I s') :
    ∀ (is : List ι) {s s' : σ}, I s → runTo step s is = some s' → I s'
  | [], s, s', hs, hrun => by
    obtain rfl := Option.some.inj hrun
    exact hs
  | i :: is, s, s', hs, hrun => by
    obtain ⟨s₁, hs₁, hrun⟩ := Option.bind_eq_some_iff.mp hrun
    exact runTo_inv hstep is (hstep hs hs₁) hrun

/-- Run rule of an invariant on the inputs so far and the state. -/
theorem runTo_history {I : List ι → σ → Prop}
    (hstep : ∀ {is s i s'}, I is s → C s i → step s i = some s' → I (is ++ [i]) s') :
    ∀ (is : List ι) {before : List ι} {s s' : σ}, I before s → EachStep step C s is →
      runTo step s is = some s' → I (before ++ is) s'
  | [], before, s, s', hs, _, hrun => by
    obtain rfl := Option.some.inj hrun
    rwa [List.append_nil]
  | i :: is, before, s, s', hs, ⟨hi, hrest⟩, hrun => by
    obtain ⟨s₁, hs₁, hrun⟩ := Option.bind_eq_some_iff.mp hrun
    have hnext := runTo_history hstep is (hstep hs hi hs₁) (hrest s₁ hs₁) hrun
    rwa [List.append_assoc] at hnext

instance decidableEachStep [∀ s i, Decidable (C s i)] :
    ∀ (s : σ) (is : List ι), Decidable (EachStep step C s is)
  | _, [] => inferInstanceAs (Decidable True)
  | s, i :: is =>
    have : Decidable (∀ s' ∈ step s i, EachStep step C s' is) :=
      match step s i with
      | none => .isTrue fun _ h => nomatch h
      | some s' =>
        have := decidableEachStep s' is
        decidable_of_iff (EachStep step C s' is)
          ⟨fun h _ hs => Option.some.inj hs ▸ h, fun h => h s' rfl⟩
    inferInstanceAs (Decidable (_ ∧ _))

end Guarded

end Machine
