import Comodoo.AmebaInstallerSound
import Mathlib.Data.List.Induction

set_option autoImplicit false

/-!
# The disk for the installation

`DiskSet.driveList` of `stage-2/anaconda` on the dictionaries of `minihal`, where the device file
may be `None` and the type of the drive may be missing.
-/
namespace Comodoo.DriveList
open CString AmebaInstaller

structure Properties where
  device : Option Str
  driveType : Option Str
  deriving DecidableEq, Repr

/-- One device of the loop, with the last `device` seen and `self.deviceFile`; `none` for an
exception. -/
def considerProperties (s : Option Str × Option Str) (dev : Properties) :
    Option (Option Str × Option Str) :=
  match dev.device, dev.driveType with
  | none, _ => some s
  | some _, none => none
  | some path, some driveType => some (considerDevice s ⟨some path, driveType⟩)

/-- Of a new `DiskSet`. The warning names `device`, which is unbound when no device was seen. -/
def driveList (devices : List Properties) : Option (Option Str) :=
  match devices.foldlM considerProperties (none, none) with
  | none => none
  | some (device, deviceFile) =>
    if (deviceFile = none ∨ deviceFile = some []) ∧ device = none then none else some deviceFile

/-- A disk with a device file that is no `sg`, `md` or `sr` device. -/
def selectable (dev : Properties) : Bool :=
  match dev.device with
  | none => false
  | some path =>
    let name := removeAll (ascii "/dev/") 0 path
    dev.driveType = some (ascii "disk") && !(ascii "sg").isPrefixOf name &&
      !(ascii "md").isPrefixOf name && !(ascii "sr").isPrefixOf name

def lastDisk (devices : List Properties) : Option Str :=
  (devices.filter selectable).getLast?.bind Properties.device

/-- There is a device file, and everything that has one is of some type. -/
def Bound (devices : List Properties) : Prop :=
  (∀ dev ∈ devices, dev.device.isSome = true → dev.driveType.isSome = true) ∧
    ∃ dev ∈ devices, dev.device.isSome = true

section Loop
variable {devices : List Properties} {dev : Properties} {s : Option Str × Option Str}

theorem considerProperties_some {path driveType : Str} (hpath : dev.device = some path)
    (htype : dev.driveType = some driveType) :
    considerProperties s dev = some (some (removeAll (ascii "/dev/") 0 path),
      if selectable dev then some path else s.2) := by
  rw [considerProperties, hpath, htype]
  simp only [considerDevice, selectable, hpath, htype]
  generalize (ascii "sg").isPrefixOf _ = sg, (ascii "md").isPrefixOf _ = md,
    (ascii "sr").isPrefixOf _ = sr
  cases sg <;> cases md <;> cases sr <;> by_cases hdisk : driveType = ascii "disk" <;> simp [hdisk]

theorem lastDisk_snoc (devices : List Properties) (dev : Properties) :
    lastDisk (devices ++ [dev]) = if selectable dev then dev.device else lastDisk devices := by
  rw [lastDisk, List.filter_append, List.filter_singleton]
  split_ifs with hdev
  · simp [hdev]
  · simp [hdev, lastDisk]

/-- What the loop has found, by induction from its end: the last device seen is bound as soon as
one has been seen. -/
theorem foldlM_typed (devices : List Properties)
    (htyped : ∀ dev ∈ devices, dev.device.isSome = true → dev.driveType.isSome = true) :
    ∃ device, devices.foldlM considerProperties (none, none) = some (device, lastDisk devices) ∧
      (device.isSome = true ↔ ∃ dev ∈ devices, dev.device.isSome = true) := by
  induction devices using List.reverseRecOn with
  | nil => exact ⟨none, rfl, by simp⟩
  | append_singleton devices dev ih =>
    rw [List.forall_mem_append, List.forall_mem_singleton] at htyped
    obtain ⟨device, hfold, hbound⟩ := ih htyped.1
    rw [List.foldlM_append, hfold, lastDisk_snoc]
    change ∃ device', (considerProperties (device, lastDisk devices) dev >>= pure) = _ ∧ _
    rw [bind_pure]
    cases hpath : dev.device with
    | none =>
      have hskip : selectable dev = false := by rw [selectable, hpath]
      refine ⟨device, ?_, ?_⟩
      · rw [considerProperties, hpath, hskip]
        rfl
      · rw [hbound]
        simp [hpath]
    | some path =>
      obtain ⟨driveType, htype⟩ := Option.isSome_iff_exists.mp (htyped.2 (by rw [hpath]; rfl))
      refine ⟨_, considerProperties_some hpath htype, ?_⟩
      simp [hpath]

theorem foldlM_untyped (hdev : dev ∈ devices) (hpath : dev.device.isSome = true)
    (htype : dev.driveType.isSome = false) : devices.foldlM considerProperties s = none := by
  induction devices generalizing s with
  | nil => exact absurd hdev List.not_mem_nil
  | cons first devices ih =>
    rw [List.foldlM_cons]
    rcases List.mem_cons.mp hdev with rfl | hrest
    · obtain ⟨path, hpath⟩ := Option.isSome_iff_exists.mp hpath
      have hnone : dev.driveType = none := Option.not_isSome_iff_eq_none.mp (by simp [htype])
      rw [considerProperties, hpath, hnone]
      rfl
    · cases considerProperties s first with
      | none => rfl
      | some s' => exact ih hrest

theorem lastDisk_eq_none (hnone : ¬ ∃ dev ∈ devices, dev.device.isSome = true) :
    lastDisk devices = none := by
  have hfilter : devices.filter selectable = [] := by
    rw [List.filter_eq_nil_iff]
    intro dev hdev hsel
    cases hpath : dev.device with
    | none =>
      rw [selectable, hpath] at hsel
      exact Bool.false_ne_true hsel
    | some path => exact hnone ⟨dev, hdev, by rw [hpath]; rfl⟩
  rw [lastDisk, hfilter]
  rfl

theorem driveList_unbound (hnone : ¬ ∃ dev ∈ devices, dev.device.isSome = true) :
    driveList devices = none := by
  have htyped : ∀ dev ∈ devices, dev.device.isSome = true → dev.driveType.isSome = true :=
    fun dev hdev hpath => absurd ⟨dev, hdev, hpath⟩ hnone
  obtain ⟨device, hfold, hbound⟩ := foldlM_typed devices htyped
  have hdevice : device = none := Option.not_isSome_iff_eq_none.mp (mt hbound.mp hnone)
  rw [driveList, hfold, lastDisk_eq_none hnone, hdevice]
  rfl

end Loop

theorem driveList_right_iff (devices : List Properties) :
    driveList devices = some (lastDisk devices) ↔ Bound devices := by
  by_cases htyped : ∀ dev ∈ devices, dev.device.isSome = true → dev.driveType.isSome = true
  · rw [Bound, and_iff_right htyped]
    by_cases hsome : ∃ dev ∈ devices, dev.device.isSome = true
    · obtain ⟨device, hfold, hbound⟩ := foldlM_typed devices htyped
      have hdevice : ¬ device = none := by
        rintro rfl
        exact Bool.false_ne_true (hbound.mpr hsome)
      rw [driveList, hfold]
      exact iff_of_true (if_neg fun h => hdevice h.2) hsome
    · rw [driveList_unbound hsome]
      exact iff_of_false (Option.some_ne_none _).symm hsome
  · push Not at htyped
    obtain ⟨dev, hdev, hpath, htype⟩ := htyped
    have hnone : driveList devices = none := by
      rw [driveList, foldlM_untyped hdev hpath (by simpa using htype)]
    rw [hnone]
    refine iff_of_false (Option.some_ne_none _).symm fun hbound => ?_
    exact htype (hbound.1 dev hdev hpath)

/-- An empty list is the first case of the warning. -/
theorem driveList_noDevices : driveList [] ≠ some (lastDisk []) := by
  rw [driveList_unbound (by simp)]
  exact (Option.some_ne_none _).symm

theorem driveList_eq_detectedDisk (devices : List Device) :
    driveList (devices.map fun dev => ⟨dev.device, some dev.driveType⟩) = detectedDisk devices := by
  have hstep : ∀ s dev, considerProperties s ⟨dev.device, some dev.driveType⟩ =
      some (considerDevice s dev) := by
    rintro s ⟨device, driveType⟩
    cases device <;> rfl
  have hfold : ∀ s, (devices.map fun dev => (⟨dev.device, some dev.driveType⟩ : Properties)).foldlM
      considerProperties s = some (devices.foldl considerDevice s) := by
    intro s
    induction devices generalizing s with
    | nil => rfl
    | cons dev devices ih =>
      rw [List.map_cons, List.foldlM_cons, hstep]
      exact ih _
  obtain ⟨device, htyped, hbound⟩ := foldlM_typed
    (devices.map fun dev => ⟨dev.device, some dev.driveType⟩) (by simp)
  rw [hfold] at htyped
  have hfound := Option.some.inj htyped
  rw [driveList, hfold, detectedDisk, hfound]
  dsimp only
  cases device with
  | some device => simp
  | none =>
    rw [lastDisk_eq_none (by simpa using mt hbound.mpr Bool.false_ne_true)]
    rfl

end Comodoo.DriveList
