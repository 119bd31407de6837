import Chipscopy.Device.Scanner
import Mathlib.Data.List.Chain

/-! Cables of a JTAG scan

    The record before a device tells whether an arm_dap stands before it, and the scan keeps that
    record from the last device of a cable to the first device of the next cable it reads. Cables
    are scanned independently exactly when no such pair of devices meets there. -/

namespace Chipscopy.Device

/-- Context of a record of an arm_dap. -/
def dapOf (previous : Option JtagRecord) : Option String := (dapRecord previous).map (·.ctx)

/-- Context of the arm_dap at the end of a chain. -/
def dapAfter (devices : List JtagDevice) : Option String :=
  (devices.getLast?.filter (·.isArmDap)).map (·.ctx)

variable {includeDna includeArmDap : Bool}

/-! ### One device -/

def dapCtxBehind (dap : Option String) (device : JtagDevice) : String :=
  if device.isArmDap then "" else dap.getD ""

def dnaBehind (includeDna : Bool) (dap : Option String) (device : JtagDevice) : Option ℕ :=
  if includeDna && !device.isArmDap &&
    (dap.isSome || device.archName.getD "" ∈ dnaArchNames) then device.getNodeDna else none

/-- A record keeps only the context of the arm_dap before it. -/
theorem scanDevice_eq (cable : JtagCable) (previous : Option JtagRecord) (jtagIndex : ℕ)
    (device : JtagDevice) : scanDevice includeDna cable previous jtagIndex device =
      { JtagRecord.new cable jtagIndex device with
        dapCtx := dapCtxBehind (dapOf previous) device
        dna := dnaBehind includeDna (dapOf previous) device } := by
  by_cases hdevice : device.isArmDap
  · simp [scanDevice, JtagRecord.new, dapCtxBehind, dnaBehind, hdevice]
  · rcases hdap : dapRecord previous with - | dap
    · by_cases harch : device.archName.getD "" ∈ dnaArchNames
      · simp [scanDevice, JtagRecord.new, JtagRecord.collapse, dapOf, dapCtxBehind, dnaBehind,
          hdevice, hdap, harch]
      · simp [scanDevice, JtagRecord.new, JtagRecord.collapse, dapOf, dapCtxBehind, dnaBehind,
          hdevice, hdap, harch]
    · simp [scanDevice, JtagRecord.new, JtagRecord.collapse, dapOf, dapCtxBehind, dnaBehind,
        hdevice, hdap]

theorem dapOf_scanDevice (cable : JtagCable) (previous : Option JtagRecord) (jtagIndex : ℕ)
    (device : JtagDevice) :
    dapOf (some (scanDevice includeDna cable previous jtagIndex device)) = dapAfter [device] := by
  rw [scanDevice_eq, dapOf, dapRecord, dapAfter, List.getLast?_singleton, Option.filter_some,
    Option.filter_some]
  by_cases hdevice : device.isArmDap <;> simp [JtagRecord.new, hdevice]

/-- An arm_dap shows in the record of the device behind it. -/
def Carries (includeDna : Bool) (dap : Option String) (device : JtagDevice) : Prop :=
  device.isArmDap = false ∧ ∃ ctx, dap = some ctx ∧ (ctx ≠ "" ∨
    includeDna ∧ device.archName.getD "" ∉ dnaArchNames ∧ device.getNodeDna ≠ none)

theorem scanDevice_eq_iff (cable : JtagCable) (previous : Option JtagRecord) (jtagIndex : ℕ)
    (device : JtagDevice) : scanDevice includeDna cable previous jtagIndex device =
      scanDevice includeDna cable none jtagIndex device ↔
        ¬ Carries includeDna (dapOf previous) device := by
  have hnone : dapOf none = none := rfl
  rw [scanDevice_eq, scanDevice_eq, hnone, Carries]
  by_cases hdevice : device.isArmDap
  · simp [dapCtxBehind, dnaBehind, hdevice]
  · rcases dapOf previous with - | ctx
    · simp
    · by_cases harch : device.archName.getD "" ∈ dnaArchNames
      · simp [dapCtxBehind, dnaBehind, hdevice, harch]
      · cases includeDna <;> simp [dapCtxBehind, dnaBehind, hdevice, harch]

/-! ### One cable -/

variable {cable : JtagCable}

theorem scanDevices_congr (devices : List JtagDevice) {previous previous' : Option JtagRecord}
    (h : dapOf previous = dapOf previous') (jtagIndex : ℕ) :
    (scanDevices includeDna includeArmDap cable previous jtagIndex devices).1 =
      (scanDevices includeDna includeArmDap cable previous' jtagIndex devices).1 := by
  cases devices with
  | nil => rfl
  | cons device devices => rw [scanDevices, scanDevices, scanDevice_eq, scanDevice_eq, h]

theorem dapOf_scanDevices (previous : Option JtagRecord) (jtagIndex : ℕ)
    {devices : List JtagDevice} (h : devices ≠ []) :
    dapOf (scanDevices includeDna includeArmDap cable previous jtagIndex devices).2 =
      dapAfter devices := by
  induction devices generalizing previous jtagIndex with
  | nil => exact absurd rfl h
  | cons device devices ih =>
    rw [scanDevices]
    rcases devices with - | ⟨next, devices⟩
    · exact dapOf_scanDevice cable previous jtagIndex device
    · rw [ih _ _ (List.cons_ne_nil next devices), dapAfter, dapAfter, List.getLast?_cons_cons]

/-- Only the first device can show what stood before the chain. -/
theorem scanDevices_eq_iff (previous : Option JtagRecord) (jtagIndex : ℕ)
    (device : JtagDevice) (devices : List JtagDevice) :
    (scanDevices includeDna includeArmDap cable previous jtagIndex (device :: devices)).1 =
      (scanDevices includeDna includeArmDap cable none jtagIndex (device :: devices)).1 ↔
        ¬ Carries includeDna (dapOf previous) device := by
  have hdap : dapOf (some (scanDevice includeDna cable previous jtagIndex device)) =
      dapOf (some (scanDevice includeDna cable none jtagIndex device)) := by
    rw [dapOf_scanDevice, dapOf_scanDevice]
  rw [← scanDevice_eq_iff cable previous jtagIndex device, scanDevices, scanDevices]
  simp only [scanDevices_congr devices hdap]
  by_cases hdevice : device.isArmDap
  · have hsame : scanDevice includeDna cable previous jtagIndex device =
        scanDevice includeDna cable none jtagIndex device :=
      (scanDevice_eq_iff cable previous jtagIndex device).mpr fun hcarries => by
        simp [Carries, hdevice] at hcarries
    simp [hsame]
  · have hrecord : ∀ previous, (scanDevice includeDna cable previous jtagIndex device).isArmDap =
        false := fun previous => by simp [scanDevice_eq, JtagRecord.new, hdevice]
    simp [hrecord]

theorem length_scanDevices (devices : List JtagDevice) (previous previous' : Option JtagRecord)
    (jtagIndex : ℕ) :
    (scanDevices includeDna includeArmDap cable previous jtagIndex devices).1.length =
      (scanDevices includeDna includeArmDap cable previous' jtagIndex devices).1.length := by
  rcases devices with - | ⟨device, devices⟩
  · rfl
  · have hdap : dapOf (some (scanDevice includeDna cable previous jtagIndex device)) =
        dapOf (some (scanDevice includeDna cable previous' jtagIndex device)) := by
      rw [dapOf_scanDevice, dapOf_scanDevice]
    have hrecord : ∀ previous, (scanDevice includeDna cable previous jtagIndex device).isArmDap =
        device.isArmDap := fun previous => by rw [scanDevice_eq, JtagRecord.new]
    rw [scanDevices, scanDevices]
    simp only [scanDevices_congr devices hdap, hrecord]
    split <;> simp

/-! ### All cables -/

/-- Cables whose devices are scanned. -/
def liveCables (cables : List JtagCable) : List JtagCable :=
  cables.filter fun cable => cable.isRead && !cable.children.isEmpty

/-- An arm_dap at the end of one cable does not show at the start of the next one. -/
def Separate (includeDna : Bool) (cable next : JtagCable) : Prop :=
  ∀ device ∈ next.children.head?, ¬ Carries includeDna (dapAfter cable.children) device

theorem scanCables_eq_iff (cables : List JtagCable) (previous : Option JtagRecord) :
    scanCables includeDna includeArmDap previous cables =
        cables.flatMap (fun cable => scanJtagView includeDna includeArmDap [cable]) ↔
      (∀ next ∈ (liveCables cables).head?, ∀ device ∈ next.children.head?,
        ¬ Carries includeDna (dapOf previous) device) ∧
      (liveCables cables).IsChain (Separate includeDna) := by
  induction cables generalizing previous with
  | nil => simp [scanCables, liveCables]
  | cons cable cables ih =>
    by_cases hread : cable.isRead
    · rcases hdevices : cable.children with - | ⟨device, devices⟩
      · have hlive : liveCables (cable :: cables) = liveCables cables := by
          simp [liveCables, hdevices]
        rw [hlive, ← ih previous, List.flatMap_cons, scanCables, scanJtagView, scanCables,
          scanCables]
        simp [hread, hdevices, scanDevices, scanCables]
      · have hlive : liveCables (cable :: cables) = cable :: liveCables cables := by
          simp [liveCables, hread, hdevices]
        have hlast : dapOf (scanDevices includeDna includeArmDap cable previous 0
            (device :: devices)).2 = dapAfter (device :: devices) :=
          dapOf_scanDevices previous 0 (List.cons_ne_nil device devices)
        have halone : scanJtagView includeDna includeArmDap [cable] =
            (scanDevices includeDna includeArmDap cable none 0 (device :: devices)).1 := by
          simp [scanJtagView, scanCables, hread, hdevices]
        rw [hlive, List.isChain_cons, List.flatMap_cons, scanCables, if_pos hread, hdevices, halone]
        have hrest := ih (scanDevices includeDna includeArmDap cable previous 0
          (device :: devices)).2
        rw [hlast] at hrest
        constructor
        · intro h
          obtain ⟨hfirst, htail⟩ := List.append_inj h (length_scanDevices _ _ _ _)
          obtain ⟨hhead, hchain⟩ := hrest.mp htail
          refine ⟨?_, fun next hnext => by simpa [Separate, hdevices] using hhead next hnext, hchain⟩
          simpa [hdevices] using (scanDevices_eq_iff previous 0 device devices).mp hfirst
        · rintro ⟨hcarry, hhead, hchain⟩
          have hfirst : ¬ Carries includeDna (dapOf previous) device := by
            simpa [hdevices] using hcarry
          exact congrArg₂ _ ((scanDevices_eq_iff previous 0 device devices).mpr hfirst)
            (hrest.mpr ⟨fun next hnext => by simpa [Separate, hdevices] using hhead next hnext, hchain⟩)
    · have hlive : liveCables (cable :: cables) = liveCables cables := by
        simp [liveCables, hread]
      rw [hlive, ← ih previous, List.flatMap_cons, scanCables, scanJtagView, scanCables, scanCables]
      simp [hread]

/-! ### Positions -/

/-- A record of the device at its position on a cable, with the arm_dap before it. -/
structure Standing (cable : JtagCable) (record : JtagRecord) (device : JtagDevice) : Prop where
  position : cable.children[record.jtagIndex]? = some device
  ctx_eq : record.ctx = device.ctx
  cable_eq : record.jtagCableCtx = cable.ctx
  dap_eq : record.dapCtx =
    dapCtxBehind (dapAfter (cable.children.take record.jtagIndex)) device

theorem mem_scanDevices {devices : List JtagDevice} (before : List JtagDevice) {previous : Option JtagRecord}
    (hcable : cable.children = before ++ devices)
    (hprevious : dapOf previous = dapAfter before) {record : JtagRecord}
    (h : record ∈
      (scanDevices includeDna includeArmDap cable previous before.length devices).1) :
    ∃ device, Standing cable record device := by
  induction devices generalizing before previous with
  | nil => simp [scanDevices] at h
  | cons device devices ih =>
    have hmem : record = scanDevice includeDna cable previous before.length device ∨ record ∈
        (scanDevices includeDna includeArmDap cable
          (some (scanDevice includeDna cable previous before.length device))
          (before.length + 1) devices).1 := by
      simp only [scanDevices] at h
      split at h
      · exact Or.inr h
      · simpa using h
    rcases hmem with rfl | hmem
    · refine ⟨device, ?_⟩
      rw [scanDevice_eq]
      exact ⟨by simp [JtagRecord.new, hcable], rfl, rfl, by simp [JtagRecord.new, hcable, hprevious]⟩
    · have hlen : before.length + 1 = (before ++ [device]).length := by simp
      rw [hlen] at hmem
      refine ih (before ++ [device]) (by simp [hcable]) ?_ hmem
      rw [dapOf_scanDevice, dapAfter, dapAfter, List.getLast?_concat]
      rfl

theorem standing_alone {record : JtagRecord}
    (h : record ∈ scanJtagView includeDna includeArmDap [cable]) :
    ∃ device, Standing cable record device := by
  simp only [scanJtagView, scanCables, List.append_nil] at h
  split at h
  · exact mem_scanDevices [] rfl rfl h
  · simp at h

/-- Every cable is scanned as it is alone, and a record shows its position and the arm_dap before
    it. -/
def ScansIndependently (includeDna includeArmDap : Bool) (cables : List JtagCable) : Prop :=
  scanJtagView includeDna includeArmDap cables =
      cables.flatMap (fun cable => scanJtagView includeDna includeArmDap [cable]) ∧
    ∀ record ∈ scanJtagView includeDna includeArmDap cables,
      ∃ cable ∈ cables, ∃ device, Standing cable record device

theorem scansIndependently_iff (includeDna includeArmDap : Bool) (cables : List JtagCable) :
    ScansIndependently includeDna includeArmDap cables ↔
      (liveCables cables).IsChain (Separate includeDna) := by
  have hstart : ∀ next ∈ (liveCables cables).head?, ∀ device ∈ next.children.head?,
      ¬ Carries includeDna (dapOf none) device := by
    rintro next - device - ⟨-, ctx, hnone, -⟩
    cases hnone
  have hscan : scanJtagView includeDna includeArmDap cables =
        cables.flatMap (fun cable => scanJtagView includeDna includeArmDap [cable]) ↔ _ :=
    scanCables_eq_iff cables none
  constructor
  · rintro ⟨h, -⟩
    exact (hscan.mp h).2
  · intro hchain
    have h := hscan.mpr ⟨hstart, hchain⟩
    refine ⟨h, fun record hrecord => ?_⟩
    rw [h] at hrecord
    obtain ⟨cable, hcable, hmem⟩ := List.mem_flatMap.mp hrecord
    exact ⟨cable, hcable, standing_alone hmem⟩

/-- A cable with an arm_dap last, and one with a device that has none. -/
def dapLastCables : List JtagCable :=
  [⟨"c0", true, false, "", "", [⟨"c0-d0", some "arm_dap", none, none⟩]⟩,
   ⟨"c1", true, false, "", "", [⟨"c1-d0", some "xcku040", some "kintexu", none⟩]⟩]

/-- The device of the second cable is collapsed into the arm_dap of the first. -/
theorem not_scansIndependently_dapLast : ¬ ∀ (includeDna includeArmDap : Bool)
    (cables : List JtagCable), ScansIndependently includeDna includeArmDap cables := by
  intro h
  exact absurd (h true false dapLastCables).1 (by decide)

end Chipscopy.Device
