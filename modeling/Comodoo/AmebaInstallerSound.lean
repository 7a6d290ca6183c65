import Comodoo.AmebaInstaller

set_option autoImplicit false

/-!
# When the congratulations are deserved

An installation is complete when every step succeeded, and the archive was extracted onto the
root and boot partitions after they had been formatted and mounted. The run shows the
congratulations for complete installations only, and stops at every failure, just if no step
fails without an exception before one that raises.
-/
namespace Comodoo.AmebaInstaller
open CString LoggedSteps

def detectedDisk (devices : List Device) : Option (Option Str) :=
  let (device, deviceFile) := devices.foldl considerDevice (none, none)
  if deviceFile.isSome || device.isSome then some deviceFile else none

/-- The partitions that the archive goes to: formatted first, then mounted. -/
def freshMounts (disk : Str) : List Step :=
  [.partition (some disk),
   .format ext3Tool.1 ext3Tool.2 (disk ++ ascii "1"),
   .format ext3Tool.1 ext3Tool.2 (disk ++ ascii "3"),
   .mount (disk ++ ascii "3") INSTALLDEST (ascii "ext3"),
   .mount (disk ++ ascii "1") bootDest (ascii "ext3")]

def requiredSteps (disk : Str) (names : List Str) : List Step :=
  [.partition (some disk),
   .format ext3Tool.1 ext3Tool.2 (disk ++ ascii "1"),
   .format ext3Tool.1 ext3Tool.2 (disk ++ ascii "3"),
   .format swapTool.1 swapTool.2 (disk ++ ascii "2")] ++
  [.mount (disk ++ ascii "3") INSTALLDEST (ascii "ext3"),
   .mount (disk ++ ascii "1") bootDest (ascii "ext3")] ++
  names.map (fun name => .extract name INSTALLDEST) ++ [.grubInstall]

def done (step : Step) : Event Step := ⟨step, true⟩

structure Installed (disk : Str) (names : List Str) (log : List (Event Step)) : Prop where
  succeeded : ∀ e ∈ log, e.ok = true
  carriedOut : ((requiredSteps disk names).map done).Sublist log
  extracted : ∀ name ∈ names, ∃ before after,
    log = before ++ done (.extract name INSTALLDEST) :: after ∧
      ((freshMounts disk).map done).Sublist before

structure Sound (o : Outcomes) (log : List (Event Step)) : Prop where
  congratulated : ∀ e ∈ log, e.step = .congratulate → ∃ disk members,
    detectedDisk o.devices = some (some disk) ∧ o.archive = some members ∧
      Installed disk (members.map Prod.fst) log
  stops : StopsAtFailure log

/-! ## The plan of a run -/

def raisesUnless (ok : Bool) : Outcome := if ok then .ok else .raised

/-- A child process whose exit status is dropped. -/
def childOutcome : Option WaitStatus → Outcome
  | some status => if status = .exited 0 then .ok else .silent
  | none => .raised

def extractionOutcome : Extraction → Outcome
  | .extracted => .ok
  | .ignored => .silent
  | .keyError => .silent
  | .raised => .raised

/-- Without an exception nothing stops the run: a shell is started instead. -/
def grubSteps : Option WaitStatus → List (Step × Outcome)
  | some status => [(.grubInstall, childOutcome (some status))]
  | none => [(.grubInstall, .silent), (.shell, .ok)]

def memberStep (member : Str × Extraction) : Step × Outcome :=
  (.extract member.1 INSTALLDEST, extractionOutcome member.2)

def prepareSteps (o : Outcomes) (disk : Str) : List (Step × Outcome) :=
  [(.partition (some disk), raisesUnless o.committed),
   (.format ext3Tool.1 ext3Tool.2 (disk ++ ascii "1"), childOutcome o.mkfsBoot),
   (.format ext3Tool.1 ext3Tool.2 (disk ++ ascii "3"), childOutcome o.mkfsRoot),
   (.format swapTool.1 swapTool.2 (disk ++ ascii "2"), childOutcome o.mkswap)]

def mountSteps (o : Outcomes) (disk : Str) : List (Step × Outcome) :=
  [(.openBsp (ascii "/mnt/stage2/bsp/" ++ BSPFILE), raisesUnless o.archive.isSome),
   (.mkdir INSTALLDEST, raisesUnless o.mkdirDest),
   (.mount (disk ++ ascii "3") INSTALLDEST (ascii "ext3"), raisesUnless o.mountRoot),
   (.mkdir bootDest, raisesUnless o.mkdirBoot),
   (.mount (disk ++ ascii "1") bootDest (ascii "ext3"), raisesUnless o.mountBoot)]

def bootSteps (o : Outcomes) (disk : Str) : List (Step × Outcome) :=
  [(.mkdir (bootDest ++ ascii "/grub/"), raisesUnless o.mkdirGrub),
   (.copy (ascii "/usr/share/grub/stage1") (bootDest ++ ascii "/grub/stage1"),
    raisesUnless o.copyStage1),
   (.copy (ascii "/usr/share/grub/stage2") (bootDest ++ ascii "/grub/stage2"),
    raisesUnless o.copyStage2),
   (.write (bootDest ++ ascii "/grub/menu.lst") (GRUB disk), raisesUnless o.writeMenu)] ++
  grubSteps o.grubInstall

def installSteps (o : Outcomes) (disk : Str) : List (Step × Outcome) :=
  [(.driveList, .ok)] ++ prepareSteps o disk ++ mountSteps o disk ++
    (o.archive.getD []).map memberStep ++ bootSteps o disk

/-- The steps of an installation in the order of the calls, each with what it does. -/
def plan (o : Outcomes) : List (Step × Outcome) :=
  match detectedDisk o.devices with
  | none => [(.driveList, .raised)]
  | some none => [(.driveList, .ok), (.partition none, .raised)]
  | some (some disk) => installSteps o disk ++ [(.congratulate, .ok)]

section
variable (o : Outcomes) (disk : Str)

theorem follows_formatDisk (devicePath : Str) (formattool : Str × Str)
    (outcome : Option WaitStatus) :
    Follows (formatDisk devicePath formattool outcome) ()
      [(.format formattool.1 formattool.2 devicePath, childOutcome outcome)] := by
  intro log
  cases outcome with
  | none => rfl
  | some status =>
    cases status with
    | exited code => cases code <;> rfl
    | signalled => rfl

theorem follows_extractMember (member : Str × Extraction) :
    Follows (extractMember member) () [memberStep member] := by
  obtain ⟨name, outcome⟩ := member
  intro log
  cases outcome <;> rfl

theorem follows_transferFiles (members : List (Str × Extraction)) :
    Follows (transferFiles o disk members) ()
      ((mountSteps o disk).tail ++ members.map memberStep) := by
  have hmembers := Follows.forM follows_extractMember members
  rw [← List.map_eq_flatMap] at hmembers
  exact (Follows.carryOut _ _).bind ((Follows.carryOut _ _).bind
    ((Follows.carryOut _ _).bind ((Follows.carryOut _ _).bind hmembers)))

theorem follows_transferBSP :
    Follows (transferBSP o disk) () (mountSteps o disk ++ (o.archive.getD []).map memberStep) := by
  have hload : Follows (loadBsp o.archive) (o.archive.getD []) [(mountSteps o disk).head nofun] :=
    (Follows.carryOut _ _).bind (.pure _)
  exact hload.bind (follows_transferFiles o disk _)

theorem follows_installGRUB : Follows (installGRUB o disk) () (bootSteps o disk) := by
  have hgrub : Follows (tryCatch (do let _ ← runChild .grubInstall o.grubInstall)
      fun _ => record .shell true) () (grubSteps o.grubInstall) := by
    intro log
    cases o.grubInstall with
    | none => exact congrArg _ (List.append_assoc log [⟨.grubInstall, false⟩] [⟨.shell, true⟩])
    | some status =>
      cases status with
      | exited code => cases code <;> rfl
      | signalled => rfl
  exact (Follows.carryOut _ _).bind ((Follows.carryOut _ _).bind
    ((Follows.carryOut _ _).bind ((Follows.carryOut _ _).bind hgrub)))

end

theorem follows_driveList (devices : List Device) :
    Follows (driveList devices) (devices.foldl considerDevice (none, none)).2
      [(.driveList, raisesUnless (detectedDisk devices).isSome)] := by
  unfold driveList detectedDisk
  dsimp only
  generalize devices.foldl considerDevice (none, none) = found
  cases h : found.2.isSome || found.1.isSome with
  | true => exact (Follows.carryOut Step.driveList true).bind (.pure found.2)
  | false => exact (Follows.carryOut Step.driveList false).bind (.pure found.2)

theorem detectedDisk_eq {devices : List Device} {deviceFile : Option Str}
    (h : detectedDisk devices = some deviceFile) :
    (devices.foldl considerDevice (none, none)).2 = deviceFile := by
  unfold detectedDisk at h
  dsimp only at h
  split at h
  · exact Option.some.inj h
  · cases h

theorem follows_prepareDisk {o : Outcomes} {disk : Str}
    (h : detectedDisk o.devices = some (some disk)) :
    Follows (prepareDisk o) disk ((.driveList, .ok) :: prepareSteps o disk) := by
  have hlist := follows_driveList o.devices
  rw [detectedDisk_eq h, h] at hlist
  exact hlist.bind ((Follows.carryOut _ _).bind ((follows_formatDisk _ _ _).bind
    ((follows_formatDisk _ _ _).bind ((follows_formatDisk _ _ _).bind (.pure disk)))))

theorem follows_prepareDisk_none {o : Outcomes}
    (h : ∀ disk, detectedDisk o.devices ≠ some (some disk))
    (disk : Str) : Follows (prepareDisk o) disk (plan o) := by
  have hlist := follows_driveList o.devices
  unfold plan
  cases hd : detectedDisk o.devices with
  | none =>
    rw [hd] at hlist
    exact hlist.bind_of_raises rfl disk
  | some deviceFile =>
    cases deviceFile with
    | none =>
      rw [detectedDisk_eq hd, hd] at hlist
      exact hlist.bind ((Follows.carryOut _ _).bind_of_raises rfl disk)
    | some disk => exact absurd hd (h disk)

theorem follows_amebaInstaller (o : Outcomes) : Follows (amebaInstaller o) () (plan o) := by
  by_cases h : ∃ disk, detectedDisk o.devices = some (some disk)
  · obtain ⟨disk, hdisk⟩ := h
    have hfinal : Follows finalSteps () [(.congratulate, .ok)] := fun _ => rfl
    have hrun : Follows (amebaInstaller o) () (([(.driveList, .ok)] ++ prepareSteps o disk) ++
        ((mountSteps o disk ++ (o.archive.getD []).map memberStep) ++
          (bootSteps o disk ++ [(.congratulate, .ok)]))) :=
      (follows_prepareDisk hdisk).bind ((follows_transferBSP o disk).bind
        ((follows_installGRUB o disk).bind hfinal))
    unfold plan installSteps
    rw [hdisk]
    simpa only [List.append_assoc] using hrun
  · have hnone := follows_prepareDisk_none (fun disk hdisk => h ⟨disk, hdisk⟩) []
    refine hnone.bind_of_raises ?_ ()
    unfold plan
    cases hd : detectedDisk o.devices with
    | none => rfl
    | some deviceFile =>
      cases deviceFile with
      | none => rfl
      | some disk => exact absurd ⟨disk, hd⟩ h

theorem installationLog_eq (o : Outcomes) : installationLog o = executed (plan o) := by
  unfold installationLog
  rw [follows_amebaInstaller o []]
  rfl

/-! ## What an installation without silent failures reaches -/

theorem congratulate_not_mem (o : Outcomes) (disk : Str) :
    Step.congratulate ∉ (installSteps o disk).map Prod.fst := by
  have hmembers (members : List (Str × Extraction)) :
      Step.congratulate ∉ (members.map memberStep).map Prod.fst := by
    rw [List.map_map]
    simp [memberStep]
  have hgrub : Step.congratulate ∉ (grubSteps o.grubInstall).map Prod.fst := by
    cases o.grubInstall <;> simp [grubSteps]
  simp only [installSteps, prepareSteps, mountSteps, bootSteps, List.map_append, List.map_cons,
    List.map_nil, List.mem_append, List.mem_cons, reduceCtorEq, List.not_mem_nil, false_or,
    or_false, not_or]
  exact ⟨hmembers _, hgrub⟩

theorem grubInstall_sublist (outcome : Option WaitStatus) :
    [Step.grubInstall].Sublist ((grubSteps outcome).map Prod.fst) := by
  cases outcome with
  | none => exact (List.nil_sublist _).cons_cons _
  | some status => exact List.Sublist.refl _

theorem requiredSteps_sublist {o : Outcomes} {members : List (Str × Extraction)}
    (ha : o.archive = some members) (disk : Str) :
    (requiredSteps disk (members.map Prod.fst)).Sublist ((installSteps o disk).map Prod.fst) := by
  have hmounts : List.Sublist
      [Step.mount (disk ++ ascii "3") INSTALLDEST (ascii "ext3"),
        .mount (disk ++ ascii "1") bootDest (ascii "ext3")]
      ((mountSteps o disk).map Prod.fst) :=
    .cons _ (.cons _ (.cons_cons _ (.cons _ (.refl _))))
  have hmembers : (members.map Prod.fst).map (fun name => Step.extract name INSTALLDEST) =
      (members.map memberStep).map Prod.fst := by
    rw [List.map_map, List.map_map]
    rfl
  have hprepare : List.Sublist ((prepareSteps o disk).map Prod.fst)
      (([(Step.driveList, Outcome.ok)] ++ prepareSteps o disk).map Prod.fst) :=
    .cons _ (.refl _)
  have hboot : [Step.grubInstall].Sublist ((bootSteps o disk).map Prod.fst) :=
    .cons _ (.cons _ (.cons _ (.cons _ (grubInstall_sublist _))))
  unfold requiredSteps installSteps
  rw [hmembers, ha, Option.getD_some]
  rw [List.map_append, List.map_append, List.map_append]
  exact ((hprepare.append hmounts).append (.refl _)).append hboot

theorem freshMounts_sublist (o : Outcomes) (disk : Str) (members : List (Step × Outcome)) :
    (freshMounts disk).Sublist (([(Step.driveList, Outcome.ok)] ++ prepareSteps o disk ++
      mountSteps o disk ++ members).map Prod.fst) :=
  .cons _ (.cons_cons _ (.cons_cons _ (.cons_cons _ (.cons _ (.cons _ (.cons _
    (.cons_cons _ (.cons _ (.cons_cons _ (List.nil_sublist _))))))))))

theorem installed_of_plan {o : Outcomes} {disk : Str} {members : List (Str × Extraction)}
    {log : List (Event Step)} (ha : o.archive = some members)
    (hlog : log = (installSteps o disk ++ [(Step.congratulate, Outcome.ok)]).map
        fun x => ⟨x.1, true⟩) :
    Installed disk (members.map Prod.fst) log := by
  have hdone : log = ((installSteps o disk ++ [(Step.congratulate, Outcome.ok)]).map
      Prod.fst).map done := by
    rw [hlog, List.map_map]
    rfl
  refine ⟨?_, ?_, ?_⟩
  · intro e he
    rw [hdone] at he
    obtain ⟨step, _, rfl⟩ := List.mem_map.mp he
    rfl
  · rw [hdone]
    refine List.Sublist.map done ((requiredSteps_sublist ha disk).trans ?_)
    rw [List.map_append]
    exact List.sublist_append_left _ _
  · intro name hname
    obtain ⟨member, hmember, rfl⟩ := List.mem_map.mp hname
    obtain ⟨l, r, rfl⟩ := List.append_of_mem hmember
    refine ⟨(([(Step.driveList, Outcome.ok)] ++ prepareSteps o disk ++ mountSteps o disk ++
      l.map memberStep).map Prod.fst).map done, ((r.map memberStep ++ bootSteps o disk ++
      [(Step.congratulate, Outcome.ok)]).map Prod.fst).map done, ?_, ?_⟩
    · rw [hdone]
      simp [installSteps, ha, memberStep]
    · exact List.Sublist.map done (freshMounts_sublist o disk _)

theorem archive_of_not_raises {o : Outcomes} {disk : Str}
    (h : raises (installSteps o disk) = false) : ∃ members, o.archive = some members := by
  cases ha : o.archive with
  | some members => exact ⟨members, rfl⟩
  | none =>
    have hmem : (Step.openBsp (ascii "/mnt/stage2/bsp/" ++ BSPFILE), Outcome.raised) ∈
        installSteps o disk := by
      simp [installSteps, mountSteps, raisesUnless, ha]
    rw [raises_of_mem hmem] at h
    cases h

theorem noSilentFailure_of_no_disk {o : Outcomes}
    (h : ∀ disk, detectedDisk o.devices ≠ some (some disk)) :
    NoSilentFailure (plan o) ∧ Step.congratulate ∉ (plan o).map Prod.fst := by
  unfold plan
  cases hd : detectedDisk o.devices with
  | none => exact ⟨trivial, by simp⟩
  | some deviceFile =>
    cases deviceFile with
    | none => exact ⟨trivial, by simp⟩
    | some disk => exact absurd hd (h disk)

/-- The congratulations are shown for complete installations only, and a failing step is the
last one, just if no step fails without an exception before the first one that raises. -/
theorem amebaInstaller_sound_iff (o : Outcomes) :
    Sound o (installationLog o) ↔ NoSilentFailure (plan o) := by
  rw [installationLog_eq]
  by_cases h : ∃ disk, detectedDisk o.devices = some (some disk)
  · obtain ⟨disk, hd⟩ := h
    have hplan : plan o = installSteps o disk ++ [(.congratulate, .ok)] := by rw [plan, hd]
    rw [hplan]
    refine ⟨fun h => (stopsAtFailure_executed_iff _ _).mp h.stops, fun hsilent => ?_⟩
    refine ⟨fun e he hstep => ?_, stopsAtFailure_executed hsilent⟩
    have hraises := raises_eq_false_of_mem (congratulate_not_mem o disk) he hstep
    obtain ⟨members, ha⟩ := archive_of_not_raises hraises
    refine ⟨disk, members, hd, ha, installed_of_plan ha (executed_eq_map hsilent ?_)⟩
    rw [raises_append, hraises]
    rfl
  · have hsilent := noSilentFailure_of_no_disk fun disk hdisk => h ⟨disk, hdisk⟩
    refine iff_of_true ⟨fun e he hstep => ?_, stopsAtFailure_executed hsilent.1⟩ hsilent.1
    have hmem := step_mem_of_mem_executed he
    rw [hstep] at hmem
    exact absurd hmem hsilent.2

/-- Everything succeeds but `mkfs.ext3` on the boot partition. -/
def bootNotFormatted : Outcomes where
  devices := [⟨some (ascii "/dev/sda"), ascii "disk"⟩]
  committed := true
  mkfsBoot := some (.exited 1)
  mkfsRoot := some (.exited 0)
  mkswap := some (.exited 0)
  archive := some [(ascii "./bin/sh", .extracted)]
  mkdirDest := true
  mountRoot := true
  mkdirBoot := true
  mountBoot := true
  mkdirGrub := true
  copyStage1 := true
  copyStage2 := true
  writeMenu := true
  grubInstall := some (.exited 0)

theorem bootNotFormatted_not_sound :
    ¬ Sound bootNotFormatted (installationLog bootNotFormatted) := by
  intro h
  have hshown : done .congratulate ∈ installationLog bootNotFormatted := by decide +kernel
  obtain ⟨_, _, _, _, hinstalled⟩ := h.congratulated _ hshown rfl
  have hfailed : ⟨.format ext3Tool.1 ext3Tool.2 (ascii "/dev/sda1"), false⟩ ∈
      installationLog bootNotFormatted := by decide +kernel
  exact Bool.noConfusion (hinstalled.succeeded _ hfailed)

end Comodoo.AmebaInstaller
