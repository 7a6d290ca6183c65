import Comodoo.LoaderArgs

set_option autoImplicit false

/-!
# Where the kickstart file comes from

`getKickstartFile` of `stage-1/kickstart.c` against `isKickstartFileRemote`. What the user and the
sources answer is given for every turn.
-/
namespace Comodoo.KickstartSource
open CString LoaderArgs

/-- The branches of `getKickstartFile`, in the order they are tried. -/
inductive Branch where
  | ks
  | url
  | nfs
  | floppy
  | hd
  | bd
  | cdrom
  | file
  | unknown
  deriving DecidableEq, Repr

def Branch.isRemote : Branch → Bool
  | .ks | .url | .nfs => true
  | _ => false

def chopParameter (ksFile : Str) : Str :=
  if sameUpto 3 ksFile (ascii "ks=") then ksFile.drop 3 else ksFile

def branchFor (c : Str) : Branch :=
  if sameUpto 2 c (ascii "ks") then .ks
  else if sameUpto 7 c (ascii "http://") || sameUpto 6 c (ascii "ftp://") then .url
  else if sameUpto 4 c (ascii "nfs:") then .nfs
  else if sameUpto 6 c (ascii "floppy") then .floppy
  else if sameUpto 3 c (ascii "hd:") then .hd
  else if sameUpto 3 c (ascii "bd:") then .bd
  else if sameUpto 5 c (ascii "cdrom") then .cdrom
  else if sameUpto 5 c (ascii "file:") then .file
  else .unknown

/-- What one call meets: the return code of its source, and what `newKickstartLocation` gives for
the text it begins with. -/
structure Answers where
  rc : ℤ
  newLocation : Str → Option Str

inductive Outcome where
  | running
  | cancelled
  /-- `LOADER_FLAGS_KICKSTART` is set. -/
  | found (ksFile : Str)
  deriving DecidableEq, Repr

structure Turn where
  ksFile : Str
  branch : Branch
  deriving DecidableEq, Repr

structure Run where
  turns : List Turn
  outcome : Outcome

def origLocation (c : Str) : Str := if c = ascii "ks" then [] else c

/-- `getKickstartFile`, which calls itself for every new location. -/
def getKickstartFile (ksFile : Str) : List Answers → Run
  | [] => ⟨[], .running⟩
  | answers :: later =>
    let c := chopParameter ksFile
    let turn : Turn := ⟨ksFile, branchFor c⟩
    -- without a branch rc is still 1
    let rc := if branchFor c = .unknown then 1 else answers.rc
    if branchFor c = .file then ⟨[turn], .found (c.drop 5)⟩
    else if rc = 0 then ⟨[turn], .found (ascii "/tmp/ks.cfg")⟩
    else
      match answers.newLocation (origLocation c) with
      | none => ⟨[turn], .cancelled⟩
      | some newLocation =>
        let rest := getKickstartFile newLocation later
        ⟨turn :: rest.turns, rest.outcome⟩

/-- `isKickstartFileRemote` answers for a location as `getKickstartFile` would take it, at any turn
of any run. -/
def Alike (ksFile : Str) : Prop :=
  ∀ start answers, ∀ turn ∈ (getKickstartFile start answers).turns, turn.ksFile = ksFile →
    isKickstartFileRemote (some ksFile) = some turn.branch.isRemote

section Turns
variable {ksFile : Str} {answers : Answers} {later : List Answers}

theorem getKickstartFile_turns (ksFile : Str) (answers : Answers) (later : List Answers) :
    ∃ rest, (getKickstartFile ksFile (answers :: later)).turns =
        ⟨ksFile, branchFor (chopParameter ksFile)⟩ :: rest ∧
      ∀ turn ∈ rest, ∃ newLocation, turn ∈ (getKickstartFile newLocation later).turns := by
  rw [getKickstartFile]
  dsimp only
  by_cases hfile : branchFor (chopParameter ksFile) = .file
  · rw [if_pos hfile]
    exact ⟨[], rfl, by simp⟩
  rw [if_neg hfile]
  by_cases hrc : (if branchFor (chopParameter ksFile) = .unknown then 1 else answers.rc) = 0
  · rw [if_pos hrc]
    exact ⟨[], rfl, by simp⟩
  rw [if_neg hrc]
  cases answers.newLocation (origLocation (chopParameter ksFile)) with
  | none => exact ⟨[], rfl, by simp⟩
  | some newLocation => exact ⟨_, rfl, fun turn hturn => ⟨newLocation, hturn⟩⟩

/-- Every turn of a run goes by its own location. -/
theorem turn_branch (answers : List Answers) (start : Str) :
    ∀ turn ∈ (getKickstartFile start answers).turns,
      turn.branch = branchFor (chopParameter turn.ksFile) := by
  induction answers generalizing start with
  | nil =>
    intro turn hturn
    exact absurd hturn List.not_mem_nil
  | cons answers later ih =>
    intro turn hturn
    obtain ⟨rest, hturns, hrest⟩ := getKickstartFile_turns start answers later
    rw [hturns, List.mem_cons] at hturn
    rcases hturn with rfl | hlater
    · rfl
    · obtain ⟨newLocation, hmem⟩ := hrest turn hlater
      exact ih newLocation turn hmem

theorem alike_iff : Alike ksFile ↔
    isKickstartFileRemote (some ksFile) =
      some (branchFor (chopParameter ksFile)).isRemote := by
  constructor
  · intro halike
    obtain ⟨rest, hturns, -⟩ := getKickstartFile_turns ksFile ⟨0, fun _ => none⟩ []
    have hmem : (⟨ksFile, branchFor (chopParameter ksFile)⟩ : Turn) ∈
        (getKickstartFile ksFile [⟨0, fun _ => none⟩]).turns := by
      rw [hturns]
      exact List.mem_cons_self
    exact halike ksFile _ _ hmem rfl
  · rintro hremote start answers turn hturn rfl
    rw [hremote, turn_branch answers start turn hturn]

end Turns

section Prefixes
variable {ksFile c : Str}

theorem branchFor_isRemote (c : Str) : (branchFor c).isRemote =
    (sameUpto 2 c (ascii "ks") || sameUpto 7 c (ascii "http://") ||
      sameUpto 6 c (ascii "ftp://") || sameUpto 4 c (ascii "nfs:")) := by
  rw [branchFor]
  by_cases hks : sameUpto 2 c (ascii "ks") = true
  · simp [hks, Branch.isRemote]
  rw [if_neg hks]
  by_cases hurl : (sameUpto 7 c (ascii "http://") || sameUpto 6 c (ascii "ftp://")) = true
  · rw [if_pos hurl, Bool.or_assoc (sameUpto 2 c _), hurl]
    simp [Branch.isRemote]
  rw [if_neg hurl]
  by_cases hnfs : sameUpto 4 c (ascii "nfs:") = true
  · simp [hnfs, Branch.isRemote]
  rw [if_neg hnfs, Bool.or_assoc (sameUpto 2 c _), Bool.eq_false_iff.mpr hks,
    Bool.eq_false_iff.mpr hurl, Bool.eq_false_iff.mpr hnfs]
  split_ifs <;> rfl

theorem parameter_iff : sameUpto 3 ksFile (ascii "ks=") = true ↔ ascii "ks=" <+: ksFile := by
  constructor
  · intro hsame
    exact prefix_of_sameUpto hsame (by decide) (by decide)
  · rintro ⟨location, rfl⟩
    rfl

/-- The two agree, and neither follows a NULL pointer, exactly for the spelling `ks=`. -/
theorem isKickstartFileRemote_alike_iff (ksFile : Str) :
    Alike ksFile ↔ ascii "ks=" <+: ksFile := by
  rw [alike_iff, ← parameter_iff, isKickstartFileRemote, chopParameter]
  dsimp only
  by_cases hks : sameUpto 3 ksFile (ascii "ks=") = true
  · rw [if_pos hks, if_pos hks, branchFor_isRemote]
    exact iff_of_true rfl hks
  · rw [if_neg hks]
    refine iff_of_false ?_ hks
    intro heq
    cases heq

/-- `ks vesa` compares with NULL. -/
theorem bareWord_not_alike : ¬ Alike (ascii "ks") ∧
    parseCmdLineFlags ⟨true, 32⟩ (some [ascii "ks", ascii "vesa"]) = none := by
  constructor
  · intro halike
    have hremote := alike_iff.mp halike
    have hnone : isKickstartFileRemote (some (ascii "ks")) = none := by decide +kernel
    rw [hnone] at hremote
    cases hremote
  · decide +kernel

end Prefixes

end Comodoo.KickstartSource
