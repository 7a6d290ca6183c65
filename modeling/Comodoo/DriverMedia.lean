import Comodoo.CString
import Comodoo.StepRun

set_option autoImplicit false

/-!
# Loading a driver disk

`loadDriverFromMedia` of `stage-1/driverdisk.c`. One answer of the environment stands for what all
the calls made in one pass of the `switch` return; a case that falls through goes on in the next
one with the same answer. `mounts`, `images` and `loads` are not variables of the program: they
say what is mounted on `/tmp/drivers`, which image files have been loop-mounted there, and what was
there at each call of `loadDriverDisk`. A freed `part` keeps its text.
-/
namespace Comodoo.DriverMedia
open CString StepRun

abbrev LOADER_OK : ℤ := 0
abbrev LOADER_BACK : ℤ := 1

/-- The files of a disk: which ones `access` finds readable, and what `stat` says of their size. -/
structure Disk where
  readable : Str → Bool
  size : Str → Option ℤ

def driverDiskFiles : List Str :=
  [ascii "modinfo", ascii "modules.dep", ascii "modules.cgz", ascii "modules.alias"]

/-- `junk` is what `sb` holds when `stat` fails. -/
def verifyDriverDisk (d : Disk) (junk : ℤ) : ℤ :=
  if ¬ driverDiskFiles.all d.readable then LOADER_BACK
  else
    let file := if d.readable (ascii "rhdd") then ascii "rhdd" else ascii "rhdd-6.1"
    if (d.size file).getD junk = 0 then LOADER_BACK else LOADER_OK

/-- What `loadDriverDisk` returns. What it copies and reads is left out. -/
def loadDriverDisk (d : Disk) : ℤ :=
  if d.readable (ascii "rhdd") then LOADER_OK
  else if d.readable (ascii "rhdd-6.1") then LOADER_OK
  else LOADER_BACK

inductive Stage where
  | device
  | part
  | chooseFile
  | loadFile
  | insert
  | load
  | probe
  | done
  deriving DecidableEq, Repr

/-- A disk on `/tmp/drivers`, and whether `verifyDriverDisk` has accepted it there. -/
structure Mount where
  disk : Disk
  accepted : Bool

/-- The last mount comes first in `mounts`. -/
structure State where
  stage : Stage
  device : Option Str
  part : Option Str
  ddfile : Option Str
  num : ℤ
  dir : ℤ
  found : ℕ
  before : ℕ
  mounts : List Mount
  images : List Disk
  loads : List (Option Mount)

/-- What `umount("/tmp/dpart")` does; `nothing` are the errors EINVAL and ENOENT. -/
inductive UmountAnswer where
  | ok
  | nothing
  | failed
  deriving DecidableEq, Repr

/-- A menu gives its return code and the item chosen. A mount gives the disk, and `none` when it
fails. A `Bool` is true when the call succeeds. `bare` is the directory itself. -/
structure Round where
  devices : List Str
  deviceMenu : ℤ × ℤ
  partitions : List Str
  partMenu : ℤ × ℕ
  umountPart : UmountAnswer
  mountPart : Bool
  selectFile : Option Str
  mountLoop : Option Disk
  umountLoop : Bool
  insertMenu : ℤ
  mountDevice : Option Disk
  junk : ℤ
  umountRejected : Bool
  devicesBefore : Option ℕ
  bare : Disk
  umountLoaded : Bool
  devicesFound : Option ℕ
  ternary : ℤ
  chooseManualDriver : ℤ

inductive Outcome where
  | returned (rc : ℤ)
  | exited
  | fault
  deriving DecidableEq, Repr

abbrev Pass := Status State (Outcome × State)

/-- An unmount that may fail. -/
def umountIf (ok : Bool) (mounts : List Mount) : List Mount := if ok then mounts.tail else mounts

def devLoadFile (s : State) (a : Round) : Pass :=
  if s.ddfile = none then .running { s with stage := .chooseFile }
  else if s.dir = -1 then
    .running { s with
      mounts := umountIf a.umountLoop s.mounts, ddfile := none, stage := .chooseFile }
  else match a.mountLoop with
    | none => .running { s with stage := .chooseFile }
    | some disk =>
      .running { s with
        mounts := ⟨disk, false⟩ :: s.mounts, images := s.images ++ [disk], stage := .load }

def devChooseFile (s : State) (a : Round) : Pass :=
  if s.part = none then .running { s with stage := .part }
  else
    let s := { s with num := if a.umountPart = UmountAnswer.ok then 0 else -1 }
    if a.umountPart = UmountAnswer.failed then .stopped (.exited, s)
    else if ¬ a.mountPart then .running { s with stage := .part }
    else match a.selectFile with
      | none => .running { s with ddfile := none, stage := .part, dir := -1 }
      | some file => devLoadFile { s with ddfile := some file, dir := 1, stage := .loadFile } a

def devPart (s : State) (a : Round) : Pass :=
  if a.partitions = [] then
    .running { s with stage := if s.dir = -1 then .device else .insert }
  else
    let s := { s with dir := 1 }
    if a.partMenu.1 = 2 then .running { s with stage := .device, dir := -1 }
    else match a.partitions[a.partMenu.2]? with
      | none => .stopped (.fault, s)
      | some part => devChooseFile { s with part := some part, stage := .chooseFile } a

def devDevice (s : State) (a : Round) : Pass :=
  match a.devices with
  | [] => .stopped (.returned LOADER_BACK, s)
  | [device] =>
    -- we don't need to ask which to use if they only have one
    if s.dir = -1 then .stopped (.returned LOADER_BACK, { s with device := some device })
    else .running { s with device := some device, stage := .part }
  | devices =>
    let s := { s with dir := 1, num := a.deviceMenu.2 }
    if a.deviceMenu.1 = 2 then .stopped (.returned LOADER_BACK, s)
    else if s.num < 0 then .stopped (.fault, s)
    else match devices[s.num.toNat]? with
      | none => .stopped (.fault, s)
      | some device => devPart { s with device := some device, stage := .part } a

def devInsert (s : State) (a : Round) : Pass :=
  if a.insertMenu = 2 then .running { s with stage := .device, dir := -1 }
  else
    let s := { s with dir := 1 }
    match a.mountDevice with
    | none => .running { s with stage := .insert }
    | some disk =>
      if verifyDriverDisk disk a.junk = LOADER_BACK then
        .running { s with
          mounts := umountIf a.umountRejected (⟨disk, false⟩ :: s.mounts), stage := .insert }
      else .running { s with mounts := ⟨disk, true⟩ :: s.mounts, stage := .load }

/-- A device list shorter than `found` is read behind its end. -/
def devProbe (noprobe : Bool) (s : State) (a : Round) : Pass :=
  if noprobe then .stopped (.returned LOADER_OK, { s with stage := .done })
  else if a.devicesFound.any (· < s.found) then .stopped (.fault, s)
  else
    let s := { s with found := a.devicesFound.getD s.found }
    if s.before < s.found then .stopped (.returned LOADER_OK, { s with stage := .done })
    else if a.ternary = 2 then .stopped (.returned LOADER_OK, { s with stage := .done })
    else if a.ternary = 3 then .running { s with stage := .device }
    else if a.chooseManualDriver = LOADER_OK then
      .stopped (.returned LOADER_OK, { s with stage := .done })
    else .running s

def devLoad (noprobe : Bool) (s : State) (a : Round) : Pass :=
  let disk := (s.mounts.head?.map Mount.disk).getD a.bare
  let s := { s with
    before := a.devicesBefore.getD 0, found := 0, loads := s.loads ++ [s.mounts.head?],
    mounts := umountIf a.umountLoaded s.mounts }
  if loadDriverDisk disk = LOADER_BACK then
    .running { s with dir := -1, stage := if s.ddfile ≠ none then .chooseFile else .insert }
  else
    devProbe noprobe { s with
      stage := .probe,
      mounts := if s.ddfile ≠ none then umountIf a.umountLoop s.mounts else s.mounts } a

def pass (noprobe : Bool) (s : State) (a : Round) : Pass :=
  match s.stage with
  | .device => devDevice s a
  | .part => devPart s a
  | .chooseFile => devChooseFile s a
  | .loadFile => devLoadFile s a
  | .insert => devInsert s a
  | .load => devLoad noprobe s a
  | .probe => devProbe noprobe s a
  | .done => .stopped (.returned LOADER_OK, s)

/-- The variables at the start. The mounts that are there already are not this function's. -/
def start (mounts : List Mount) : State := ⟨.device, none, none, none, 0, 1, 0, 0, mounts, [], []⟩

def loadDriverFromMedia (noprobe : Bool) (mounts : List Mount) (rounds : List Round) : Pass :=
  run (pass noprobe) (start mounts) rounds

/-- Every call of `loadDriverDisk` found a disk that was accepted where it was mounted. -/
def Verified (s : State) : Prop := ∀ m ∈ s.loads, ∃ mount, m = some mount ∧ mount.accepted = true

/-- What one pass does to the mounts that matter. -/
inductive Effect (s : State) : State → Prop
  /-- Nothing is loaded, and what is to be loaded next has been accepted. -/
  | quiet (s' : State) : s.stage ≠ .load → s'.loads = s.loads → s'.images = s.images →
      (s'.stage = .load → ∃ mount, s'.mounts.head? = some mount ∧ mount.accepted = true) →
      Effect s s'
  /-- An image file is mounted and is to be loaded next. -/
  | looped (s' : State) (disk : Disk) : s.stage ≠ .load → s'.loads = s.loads →
      s'.images = s.images ++ [disk] → s'.stage = .load → s'.mounts.head? = some ⟨disk, false⟩ →
      Effect s s'
  | loaded (s' : State) : s.stage = .load → s'.loads = s.loads ++ [s.mounts.head?] →
      s'.images = s.images → s'.stage ≠ .load → Effect s s'

def HasEffect (s : State) (p : Pass) : Prop := p.Sat (Effect s) (fun o => Effect s o.2)

section Effects

variable {s t : State} {a : Round} {noprobe : Bool}

/-- `t` is `s` with other variables set, and neither is about to load. -/
structure Same (s t : State) : Prop where
  from_ne : s.stage ≠ .load
  to_ne : t.stage ≠ .load
  loads : t.loads = s.loads
  images : t.images = s.images

theorem Same.effect (h : Same s t) : Effect s t :=
  Effect.quiet t h.from_ne h.loads h.images (fun hl => absurd hl h.to_ne)

theorem devLoadFile_effect (h : Same s t) : HasEffect s (devLoadFile t a) := by
  unfold devLoadFile
  split_ifs
  · exact Same.effect ⟨h.from_ne, nofun, h.loads, h.images⟩
  · exact Same.effect ⟨h.from_ne, nofun, h.loads, h.images⟩
  · split
    · exact Same.effect ⟨h.from_ne, nofun, h.loads, h.images⟩
    · rename_i disk _
      exact Effect.looped _ disk h.from_ne h.loads (by rw [h.images]) rfl rfl

theorem devChooseFile_effect (h : Same s t) : HasEffect s (devChooseFile t a) := by
  unfold devChooseFile
  generalize (if a.umountPart = UmountAnswer.ok then (0 : ℤ) else -1) = num
  dsimp only
  split_ifs
  · exact Same.effect ⟨h.from_ne, nofun, h.loads, h.images⟩
  · exact Same.effect ⟨h.from_ne, h.to_ne, h.loads, h.images⟩
  · split
    · exact Same.effect ⟨h.from_ne, by simp, h.loads, h.images⟩
    · exact devLoadFile_effect ⟨h.from_ne, by simp, h.loads, h.images⟩
  · exact Same.effect ⟨h.from_ne, by simp, h.loads, h.images⟩

theorem devPart_effect (h : Same s t) : HasEffect s (devPart t a) := by
  unfold devPart
  by_cases hparts : a.partitions = []
  · rw [if_pos hparts]
    refine Same.effect ⟨h.from_ne, ?_, h.loads, h.images⟩
    dsimp only
    split_ifs
    · nofun
    · nofun
  · rw [if_neg hparts]
    dsimp only
    split_ifs
    · exact Same.effect ⟨h.from_ne, nofun, h.loads, h.images⟩
    · split
      · exact Same.effect ⟨h.from_ne, h.to_ne, h.loads, h.images⟩
      · exact devChooseFile_effect ⟨h.from_ne, by simp, h.loads, h.images⟩

theorem devDevice_effect (h : Same s t) : HasEffect s (devDevice t a) := by
  unfold devDevice
  split
  · exact Same.effect h
  · split_ifs
    · exact Same.effect ⟨h.from_ne, h.to_ne, h.loads, h.images⟩
    · exact Same.effect ⟨h.from_ne, nofun, h.loads, h.images⟩
  · dsimp only
    split_ifs
    · exact Same.effect ⟨h.from_ne, h.to_ne, h.loads, h.images⟩
    · exact Same.effect ⟨h.from_ne, h.to_ne, h.loads, h.images⟩
    · split
      · exact Same.effect ⟨h.from_ne, h.to_ne, h.loads, h.images⟩
      · exact devPart_effect ⟨h.from_ne, by simp, h.loads, h.images⟩

theorem devInsert_effect (h : Same s t) : HasEffect s (devInsert t a) := by
  unfold devInsert
  dsimp only
  split_ifs
  · exact Same.effect ⟨h.from_ne, nofun, h.loads, h.images⟩
  · split
    · exact Same.effect ⟨h.from_ne, nofun, h.loads, h.images⟩
    · rename_i disk _
      split_ifs
      · exact Same.effect ⟨h.from_ne, nofun, h.loads, h.images⟩
      · exact Effect.quiet _ h.from_ne h.loads h.images (fun _ => ⟨⟨disk, true⟩, rfl, rfl⟩)

theorem devProbe_same (hto : t.stage ≠ .load) :
    (devProbe noprobe t a).Sat
      (fun s' => s'.stage ≠ .load ∧ s'.loads = t.loads ∧ s'.images = t.images)
      (fun o => o.2.stage ≠ .load ∧ o.2.loads = t.loads ∧ o.2.images = t.images) := by
  unfold devProbe
  dsimp only
  split_ifs
  · exact ⟨nofun, rfl, rfl⟩
  · exact ⟨hto, rfl, rfl⟩
  · exact ⟨nofun, rfl, rfl⟩
  · exact ⟨nofun, rfl, rfl⟩
  · exact ⟨nofun, rfl, rfl⟩
  · exact ⟨nofun, rfl, rfl⟩
  · exact ⟨hto, rfl, rfl⟩

theorem devProbe_effect (h : Same s t) : HasEffect s (devProbe noprobe t a) := by
  have hafter : ∀ s', s'.stage ≠ .load ∧ s'.loads = t.loads ∧ s'.images = t.images →
      Effect s s' := by
    intro s' hs'
    exact Same.effect ⟨h.from_ne, hs'.1, hs'.2.1.trans h.loads, hs'.2.2.trans h.images⟩
  exact (devProbe_same h.to_ne).imp hafter (fun o => hafter o.2)

theorem devLoad_effect (h : s.stage = .load) : HasEffect s (devLoad noprobe s a) := by
  unfold devLoad
  generalize (s.mounts.head?.map Mount.disk).getD a.bare = disk
  dsimp only
  by_cases hback : loadDriverDisk disk = LOADER_BACK
  · rw [if_pos hback]
    refine Effect.loaded _ h rfl rfl ?_
    dsimp only
    split_ifs
    · nofun
    · nofun
  · rw [if_neg hback]
    generalize (if s.ddfile ≠ none then umountIf a.umountLoop (umountIf a.umountLoaded s.mounts)
      else umountIf a.umountLoaded s.mounts) = mounts
    have hafter : ∀ s' : State, s'.stage ≠ .load ∧ s'.loads = s.loads ++ [s.mounts.head?] ∧
        s'.images = s.images → Effect s s' := by
      intro s' hs'
      exact Effect.loaded s' h hs'.2.1 hs'.2.2 hs'.1
    exact (devProbe_same (by nofun)).imp hafter (fun o => hafter o.2)

theorem pass_effect (noprobe : Bool) (s : State) (a : Round) :
    HasEffect s (pass noprobe s a) := by
  unfold pass
  cases hstage : s.stage with
  | device =>
    have hne : s.stage ≠ .load := by rw [hstage]; decide
    exact devDevice_effect ⟨hne, hne, rfl, rfl⟩
  | part =>
    have hne : s.stage ≠ .load := by rw [hstage]; decide
    exact devPart_effect ⟨hne, hne, rfl, rfl⟩
  | chooseFile =>
    have hne : s.stage ≠ .load := by rw [hstage]; decide
    exact devChooseFile_effect ⟨hne, hne, rfl, rfl⟩
  | loadFile =>
    have hne : s.stage ≠ .load := by rw [hstage]; decide
    exact devLoadFile_effect ⟨hne, hne, rfl, rfl⟩
  | insert =>
    have hne : s.stage ≠ .load := by rw [hstage]; decide
    exact devInsert_effect ⟨hne, hne, rfl, rfl⟩
  | load => exact devLoad_effect hstage
  | probe =>
    have hne : s.stage ≠ .load := by rw [hstage]; decide
    exact devProbe_effect ⟨hne, hne, rfl, rfl⟩
  | done =>
    have hne : s.stage ≠ .load := by rw [hstage]; decide
    exact Same.effect ⟨hne, hne, rfl, rfl⟩

end Effects

section Runs

variable {s s' : State} {noprobe : Bool} {rounds : List Round}

def noImage (s : State) (_ : Round) : Bool := s.images.isEmpty

/-- As long as no image file is mounted, what is loaded next has been accepted. -/
def Guarded (s : State) : Prop :=
  Verified s ∧ (s.images = [] → s.stage = .load →
    ∃ mount, s.mounts.head? = some mount ∧ mount.accepted = true)

theorem effect_guarded (h : Effect s s') (hs : Guarded s) (hno : s.images = []) : Guarded s' := by
  cases h with
  | quiet _ hloads himages hnext =>
    refine ⟨?_, fun _ => hnext⟩
    unfold Verified
    rw [hloads]
    exact hs.1
  | looped disk _ hloads himages hstage hhead =>
    constructor
    · unfold Verified
      rw [hloads]
      exact hs.1
    · intro hempty
      rw [himages] at hempty
      exact absurd hempty (by simp)
  | loaded hload hloads himages hstage =>
    constructor
    · unfold Verified
      rw [hloads]
      intro m hm
      rcases List.mem_append.mp hm with hm | hm
      · exact hs.1 m hm
      · rw [List.mem_singleton.mp hm]
        exact hs.2 hno hload
    · intro _ hl
      exact absurd hl hstage

/-- Something has been loaded unchecked, or is about to be. -/
def Spoilt (s : State) : Prop :=
  ¬ Verified s ∨ (s.stage = .load ∧ ∃ mount, s.mounts.head? = some mount ∧ mount.accepted = false)

theorem effect_unverified (h : Effect s s') (hs : Spoilt s) : ¬ Verified s' := by
  intro hv
  have hold : Verified s := by
    intro m hm
    refine hv m ?_
    cases h with
    | quiet _ hloads _ _ => rwa [hloads]
    | looped disk _ hloads _ _ _ => rwa [hloads]
    | loaded _ hloads _ _ =>
      rw [hloads]
      exact List.mem_append_left _ hm
  rcases hs with hs | ⟨hstage, mount, hhead, hbad⟩
  · exact hs hold
  · cases h with
    | quiet hne _ _ _ => exact hne hstage
    | looped disk hne _ _ _ _ => exact hne hstage
    | loaded _ hloads _ _ =>
      obtain ⟨mount', heq, hgood⟩ := hv (some mount) (by rw [hloads, hhead]; simp)
      cases heq
      rw [hbad] at hgood
      cases hgood

/-- An image file that has been mounted has spoilt the run. -/
def Tracked (s : State) : Prop := s.images ≠ [] → Spoilt s

theorem effect_tracked (h : Effect s s') (hs : Tracked s) : Tracked s' := by
  intro himg
  by_cases hbefore : s.images = []
  · cases h with
    | quiet _ _ himages _ =>
      rw [himages] at himg
      exact absurd hbefore himg
    | looped disk _ _ _ hstage hhead => exact Or.inr ⟨hstage, _, hhead, rfl⟩
    | loaded _ _ himages _ =>
      rw [himages] at himg
      exact absurd hbefore himg
  · exact Or.inl (effect_unverified h (hs hbefore))

/-- The run has loaded accepted disks only, wherever it has got to. -/
def AllVerified (p : Pass) : Prop := p.Sat Verified (fun o => Verified o.2)

theorem run_unverified (hs : ¬ Verified s) (rounds : List Round) :
    ¬ AllVerified (run (pass noprobe) s rounds) := by
  induction rounds generalizing s with
  | nil => exact hs
  | cons a rounds ih =>
    have heffect := pass_effect noprobe s a
    cases hpass : pass noprobe s a with
    | running s' =>
      rw [hpass] at heffect
      rw [run_cons_running rounds hpass]
      exact ih (effect_unverified heffect (Or.inl hs))
    | stopped o =>
      rw [hpass] at heffect
      rw [run_cons_stopped rounds hpass]
      exact effect_unverified heffect (Or.inl hs)

theorem run_spoilt (hs : Tracked s) (h : along (pass noprobe) noImage s rounds = false) :
    ¬ AllVerified (run (pass noprobe) s rounds) := by
  induction rounds generalizing s with
  | nil => cases h
  | cons a rounds ih =>
    have heffect := pass_effect noprobe s a
    by_cases himg : s.images = []
    · rw [along, show noImage s a = true from by rw [noImage, himg]; rfl, Bool.true_and] at h
      cases hpass : pass noprobe s a with
      | running s' =>
        rw [hpass] at heffect h
        rw [run_cons_running rounds hpass]
        exact ih (effect_tracked heffect hs) h
      | stopped o =>
        rw [hpass] at h
        cases h
    · cases hpass : pass noprobe s a with
      | running s' =>
        rw [hpass] at heffect
        rw [run_cons_running rounds hpass]
        exact run_unverified (effect_unverified heffect (hs himg)) rounds
      | stopped o =>
        rw [hpass] at heffect
        rw [run_cons_stopped rounds hpass]
        exact effect_unverified heffect (hs himg)

/-- The whole-device path is safe, and the path over an image file never is. -/
theorem loadDriverFromMedia_verified_iff (noprobe : Bool) (mounts : List Mount)
    (rounds : List Round) :
    AllVerified (loadDriverFromMedia noprobe mounts rounds) ↔
      along (pass noprobe) noImage (start mounts) rounds = true := by
  constructor
  · intro h
    cases halong : along (pass noprobe) noImage (start mounts) rounds with
    | true => rfl
    | false => exact absurd h (run_spoilt (fun himg => absurd rfl himg) halong)
  · intro halong
    have hstep : ∀ s a, Guarded s → noImage s a = true →
        (pass noprobe s a).Sat Guarded (fun o => Guarded o.2) := by
      intro s a hs hno
      have hempty : s.images = [] := List.isEmpty_iff.mp hno
      exact (pass_effect noprobe s a).imp (fun _ he => effect_guarded he hs hempty)
        (fun _ he => effect_guarded he hs hempty)
    have hstart : Guarded (start mounts) :=
      ⟨fun m hm => absurd hm List.not_mem_nil, fun _ hl => nomatch hl⟩
    exact (run_sat hstep (start mounts) rounds hstart halong).imp (fun _ hs => hs.1)
      (fun _ hs => hs.1)

def emptyDisk : Disk := ⟨fun _ => false, fun _ => none⟩

/-- One device with one partition, from which a file is chosen. -/
def imageRound : Round :=
  ⟨[ascii "sda"], (1, 0), [ascii "/dev/sda1"], (1, 0), .nothing, true, some (ascii "/tmp/dpart/dd.img"),
    some emptyDisk, true, 1, none, 0, true, none, emptyDisk, true, none, 2, 0⟩

/-- The file is loaded without having been looked at. -/
theorem image_not_verified :
    ¬ ∀ rounds : List Round, AllVerified (loadDriverFromMedia false [] rounds) := by
  intro h
  exact run_spoilt (fun himg => absurd rfl himg) (by decide +kernel)
    (h [imageRound, imageRound, imageRound])

end Runs

end Comodoo.DriverMedia
