import Comodoo.CpioInstall
import Comodoo.FilePath

set_option autoImplicit false

/-!
# Unpacking a cpio ball

`installCpioFile` of `isys/cpio.c` and `unpackCpioBall` of `stage-1/method.c`, over the system of
the cpio code and the calls that these two add.
-/
namespace Comodoo.CpioBall
open CString CpioSystem CpioInstall FilePath

inductive MkdirResult where
  | made
  | existed
  | failed
  deriving DecidableEq, Repr

/-- `readable` and `searchable` are `access` with `R_OK` and `X_OK`. A null pointer is `none`.
`gzopen` opens the stream that `gunzipRead` reads. -/
structure BallSys (W D : Type) extends Sys W where
  readable : W → Str → Bool
  searchable : W → Str → Bool
  makeDir : W → Str → ℕ → MkdirResult × W
  getcwd : W → Option Str
  chdir : W → Option Str → Bool × W
  gzopen : W → Str → Bool × W
  gzclose : W → W
  workingDir : W → D

variable {W D : Type} (S : BallSys W D)

/-- `access(path, R_OK) == 0`; a null pointer cannot be accessed. -/
def accessible (w : W) (path : Option Str) : Bool := path.any (S.readable w)

/-- True for the return value 0. -/
def mkdirIfNone (w : W) (directory : Str) : Bool × W :=
  if S.searchable w directory then (true, w)
  else if directory.all (· = sep) then (true, w)
  else match S.makeDir w directory 0o755 with
    | (.failed, w) => (false, w)
    | (_, w) => (true, w)

def mkdirChainFrom (chain : Str) : Str → W → Bool × W
  | [], w => mkdirIfNone S w chain
  | b :: rest, w =>
    if b = sep then
      match mkdirIfNone S w chain with
      | (true, w) => mkdirChainFrom (chain ++ [b]) rest w
      | (false, w) => (false, w)
    else mkdirChainFrom (chain ++ [b]) rest w

def mkdirChain (w : W) (origChain : Str) : Bool × W := mkdirChainFrom S [] origChain w

abbrev CPIO_MAP_PATH : ℕ := 1

/-- `none` when the installation does not come back. The fields of `map` that are not set are not
looked at. -/
def installCpioFile (fuel : ℕ) (w : W) (cpioName : Str) (outName : Option Str)
    (lastDir : Option Str) : Option (ℤ × W) :=
  let mappings := outName.map (fun fsPath => [⟨cpioName, fsPath, 0, 0, 0, CPIO_MAP_PATH⟩])
  match myCpioInstallArchive S.toSys false mappings fuel w lastDir with
  | (.returned rc, s) =>
    some (if rc ≠ .ok ∨ ¬ accessible S s.io.w outName then -1 else 0, s.io.w)
  | _ => none

/-- From the `gunzip_open` on, `cwd` being what `getcwd` returned. -/
def unpackHere (fuel : ℕ) (w : W) (ballPath : Str) (cwd lastDir : Option Str) :
    Option (ℤ × W) :=
  match S.gzopen w ballPath with
  | (true, w) =>
    match installCpioFile S fuel w [] none lastDir with
    | none => none
    | some (rc, w) =>
      if rc = 0 then some (0, (S.chdir w cwd).2)
      else some (1, (S.chdir (S.gzclose w) cwd).2)
  | (false, w) => some (1, (S.chdir w cwd).2)

def unpackCpioBall (fuel : ℕ) (w : W) (ballPath rootDir : Str) (lastDir : Option Str) :
    Option (ℤ × W) :=
  if ¬ accessible S w (some ballPath) then some (1, w)
  else
    let w := if accessible S w (some rootDir) then w else (mkdirChain S w rootDir).2
    let cwd := S.getcwd w
    match S.chdir w (some rootDir) with
    | (true, w) => unpackHere S fuel w ballPath cwd lastDir
    | (false, w) => some (1, w)

section Outcomes

def beforeEntering (w : W) (rootDir : Str) : W :=
  if accessible S w (some rootDir) then w else (mkdirChain S w rootDir).2

/-- The world in which the ball has been opened, if it gets that far. -/
def opened (w : W) (ballPath rootDir : Str) : Option W :=
  if accessible S w (some ballPath) then
    match S.chdir (beforeEntering S w rootDir) (some rootDir) with
    | (true, w) =>
      match S.gzopen w ballPath with
      | (true, w) => some w
      | (false, _) => none
    | (false, _) => none
  else none

/-- The installation is run in the root directory and returns 0. -/
def Installed (fuel : ℕ) (w : W) (ballPath rootDir : Str) (lastDir : Option Str) : Prop :=
  ∃ w' ∈ opened S w ballPath rootDir,
    (myCpioInstallArchive S.toSys false none fuel w' lastDir).1 = .returned .ok

/-- `unpackCpioBall` says what the installation did, and comes back to where it was. -/
def UnpackCorrect (fuel : ℕ) (w : W) (ballPath rootDir : Str) (lastDir : Option Str) : Prop :=
  ∀ rc w', unpackCpioBall S fuel w ballPath rootDir lastDir = some (rc, w') →
    (rc = 0 ↔ Installed S fuel w ballPath rootDir lastDir) ∧ S.workingDir w' = S.workingDir w

/-- `installCpioFile` says what the installation did and whether its file is there. -/
def InstallCorrect (fuel : ℕ) (w : W) (cpioName : Str) (outName lastDir : Option Str) : Prop :=
  ∀ rc w', installCpioFile S fuel w cpioName outName lastDir = some (rc, w') →
    (rc = 0 ↔ (myCpioInstallArchive S.toSys false
      (outName.map (fun fsPath => [⟨cpioName, fsPath, 0, 0, 0, CPIO_MAP_PATH⟩])) fuel w lastDir).1 =
        .returned .ok ∧ ∀ out ∈ outName, S.readable w' out = true)

def beforeLeaving (fuel : ℕ) (w : W) (ballPath rootDir : Str) (lastDir : Option Str) : Option W :=
  match S.chdir (beforeEntering S w rootDir) (some rootDir) with
  | (true, w) =>
    match S.gzopen w ballPath with
    | (true, w) =>
      match myCpioInstallArchive S.toSys false none fuel w lastDir with
      | (.returned _, s) => some (S.gzclose s.io.w)
      | _ => none
    | (false, w) => some w
  | (false, _) => none

/-- What `getcwd` returned still leads to the working directory at the end. -/
def LeadsBack (fuel : ℕ) (w : W) (ballPath rootDir : Str) (lastDir : Option Str) : Prop :=
  accessible S w (some ballPath) = true →
    ∀ w' ∈ beforeLeaving S fuel w ballPath rootDir lastDir,
      S.workingDir (S.chdir w' (S.getcwd (beforeEntering S w rootDir))).2 = S.workingDir w

end Outcomes

/-- Making directories and failing to enter one leave the working directory as it is. -/
structure Steady (S : BallSys W D) : Prop where
  makeDir : ∀ w path mode, S.workingDir (S.makeDir w path mode).2 = S.workingDir w
  chdir : ∀ w path, (S.chdir w path).1 = false →
    S.workingDir (S.chdir w path).2 = S.workingDir w

variable {S} {fuel : ℕ} {w : W} {ballPath rootDir cpioName : Str} {outName lastDir : Option Str}

section Directories

theorem mkdirIfNone_workingDir (hS : Steady S) (w : W) (directory : Str) :
    S.workingDir (mkdirIfNone S w directory).2 = S.workingDir w := by
  have hmake := hS.makeDir w directory 0o755
  unfold mkdirIfNone
  split_ifs
  · rfl
  · rfl
  · split
    · rename_i w' heq
      rw [heq] at hmake
      exact hmake
    · rename_i r w' _ heq
      rw [heq] at hmake
      exact hmake

theorem mkdirChainFrom_workingDir (hS : Steady S) (chain rest : Str) (w : W) :
    S.workingDir (mkdirChainFrom S chain rest w).2 = S.workingDir w := by
  induction rest generalizing chain w with
  | nil => exact mkdirIfNone_workingDir hS w chain
  | cons b rest ih =>
    unfold mkdirChainFrom
    split_ifs
    · have hmake := mkdirIfNone_workingDir hS w chain
      split
      · rename_i w' heq
        rw [heq] at hmake
        exact (ih _ w').trans hmake
      · rename_i w' heq
        rw [heq] at hmake
        exact hmake
    · exact ih _ w

theorem beforeEntering_workingDir (hS : Steady S) (w : W) (rootDir : Str) :
    S.workingDir (beforeEntering S w rootDir) = S.workingDir w := by
  unfold beforeEntering
  split_ifs
  · rfl
  · exact mkdirChainFrom_workingDir hS [] rootDir w

end Directories

section File

/-- Without an output name the call never succeeds: the null pointer is not readable. -/
theorem installCpioFile_null :
    installCpioFile S fuel w cpioName none lastDir =
      match myCpioInstallArchive S.toSys false none fuel w lastDir with
      | (.returned _, s) => some (-1, s.io.w)
      | _ => none := by
  unfold installCpioFile
  dsimp only [Option.map_none]
  split
  · rw [if_pos (Or.inr (by simp [accessible]))]
  · rfl

theorem installCorrect_iff :
    InstallCorrect S fuel w cpioName outName lastDir ↔
      outName.isSome ∨
        (myCpioInstallArchive S.toSys false none fuel w lastDir).1 ≠ .returned .ok := by
  cases outName with
  | none =>
    unfold InstallCorrect
    rw [installCpioFile_null]
    simp only [Option.map_none, Option.isSome_none, Bool.false_eq_true, false_or, Option.mem_def,
      reduceCtorEq, false_implies, implies_true, and_true]
    constructor
    · intro h hok
      rcases hrun : myCpioInstallArchive S.toSys false none fuel w lastDir with ⟨outcome, s⟩
      rw [hrun] at h hok
      cases hok
      have := (h (-1) s.io.w rfl).mpr rfl
      omega
    · intro h rc w' hrun
      constructor
      · intro hzero
        split at hrun
        · cases hrun
          cases hzero
        · cases hrun
      · intro hok
        exact absurd hok h
  | some out =>
    simp only [Option.isSome_some, true_or, iff_true]
    unfold InstallCorrect installCpioFile
    intro rc w' hrun
    dsimp only at hrun
    split at hrun
    · rename_i code s heq
      cases hrun
      rw [heq]
      by_cases hcode : code = .ok
      · by_cases hread : S.readable s.io.w out = true
        · simp [hcode, accessible, hread]
        · simp [hcode, accessible, hread]
      · simp [hcode]
    · cases hrun

end File

section Ball

theorem unpackHere_eq (w : W) (cwd : Option Str) :
    unpackHere S fuel w ballPath cwd lastDir =
      match S.gzopen w ballPath with
      | (true, w) =>
        match myCpioInstallArchive S.toSys false none fuel w lastDir with
        | (.returned _, s) => some (1, (S.chdir (S.gzclose s.io.w) cwd).2)
        | _ => none
      | (false, w) => some (1, (S.chdir w cwd).2) := by
  unfold unpackHere
  split
  · rename_i w' _
    rw [installCpioFile_null]
    rcases myCpioInstallArchive S.toSys false none fuel w' lastDir with ⟨outcome, s⟩
    cases outcome with
    | running => rfl
    | fault => rfl
    | returned rc => rfl
  · rfl

theorem unpackCpioBall_entered (hball : accessible S w (some ballPath) = true) {w1 : W}
    (henter : S.chdir (beforeEntering S w rootDir) (some rootDir) = (true, w1)) :
    unpackCpioBall S fuel w ballPath rootDir lastDir =
      unpackHere S fuel w1 ballPath (S.getcwd (beforeEntering S w rootDir)) lastDir := by
  unfold beforeEntering at henter ⊢
  unfold unpackCpioBall
  rw [if_neg (not_not.mpr hball)]
  dsimp only
  rw [henter]

theorem unpackCpioBall_outside (hball : accessible S w (some ballPath) = true) {w1 : W}
    (henter : S.chdir (beforeEntering S w rootDir) (some rootDir) = (false, w1)) :
    unpackCpioBall S fuel w ballPath rootDir lastDir = some (1, w1) := by
  unfold beforeEntering at henter
  unfold unpackCpioBall
  rw [if_neg (not_not.mpr hball)]
  dsimp only
  rw [henter]

theorem unpackCpioBall_eq (fuel : ℕ) (lastDir : Option Str)
    (hball : accessible S w (some ballPath) = true) {w1 : W}
    (henter : S.chdir (beforeEntering S w rootDir) (some rootDir) = (true, w1)) :
    unpackCpioBall S fuel w ballPath rootDir lastDir =
      (beforeLeaving S fuel w ballPath rootDir lastDir).map (fun w' =>
        (1, (S.chdir w' (S.getcwd (beforeEntering S w rootDir))).2)) := by
  rw [unpackCpioBall_entered hball henter, unpackHere_eq, beforeLeaving, henter]
  dsimp only
  split
  · split
    · rfl
    · rfl
  · rfl

theorem returns_of_installed (h : Installed S fuel w ballPath rootDir lastDir) :
    ∃ w', unpackCpioBall S fuel w ballPath rootDir lastDir = some (1, w') := by
  obtain ⟨w2, hopen, hok⟩ := h
  unfold opened at hopen
  split_ifs at hopen with hball
  · split at hopen
    · rename_i w1 henter
      rw [unpackCpioBall_eq _ _ hball henter, beforeLeaving, henter]
      dsimp only
      split at hopen
      · rename_i w2' hgz
        cases hopen
        rcases hrun : myCpioInstallArchive S.toSys false none fuel w2 lastDir with ⟨outcome, s⟩
        rw [hrun] at hok
        cases hok
        exact ⟨_, rfl⟩
      · cases hopen
    · cases hopen
  · cases hopen

theorem unpackCpioBall_rc {rc : ℤ} {w' : W}
    (h : unpackCpioBall S fuel w ballPath rootDir lastDir = some (rc, w')) : rc = 1 := by
  by_cases hball : accessible S w (some ballPath) = true
  · rcases henter : S.chdir (beforeEntering S w rootDir) (some rootDir) with ⟨ok, w1⟩
    cases ok with
    | true =>
      rw [unpackCpioBall_eq _ _ hball henter, Option.map_eq_some_iff] at h
      obtain ⟨w2, _, heq⟩ := h
      cases heq
      rfl
    | false =>
      rw [unpackCpioBall_outside hball henter] at h
      cases h
      rfl
  · unfold unpackCpioBall at h
    rw [if_pos hball] at h
    cases h
    rfl

theorem unpackCorrect_iff (hS : Steady S) :
    UnpackCorrect S fuel w ballPath rootDir lastDir ↔
      ¬ Installed S fuel w ballPath rootDir lastDir ∧
        LeadsBack S fuel w ballPath rootDir lastDir := by
  constructor
  · intro h
    constructor
    · intro hin
      obtain ⟨w', hrun⟩ := returns_of_installed hin
      have := (h 1 w' hrun).1.mpr hin
      omega
    · intro hball w' hw'
      rcases henter : S.chdir (beforeEntering S w rootDir) (some rootDir) with ⟨ok, w1⟩
      cases ok with
      | true =>
        have hrun := unpackCpioBall_eq fuel lastDir hball henter
        rw [Option.mem_def.mp hw'] at hrun
        exact (h 1 _ hrun).2
      | false =>
        rw [beforeLeaving, henter] at hw'
        cases hw'
  · intro ⟨hno, hback⟩ rc w' hrun
    have hrc := unpackCpioBall_rc hrun
    constructor
    · constructor
      · intro hzero
        omega
      · intro hin
        exact absurd hin hno
    · by_cases hball : accessible S w (some ballPath) = true
      · rcases henter : S.chdir (beforeEntering S w rootDir) (some rootDir) with ⟨ok, w1⟩
        cases ok with
        | true =>
          rw [unpackCpioBall_eq _ _ hball henter, Option.map_eq_some_iff] at hrun
          obtain ⟨w2, hw2, heq⟩ := hrun
          cases heq
          exact hback hball w2 hw2
        | false =>
          rw [unpackCpioBall_outside hball henter] at hrun
          cases hrun
          have hstay := hS.chdir (beforeEntering S w rootDir) (some rootDir)
          rw [henter] at hstay
          exact (hstay rfl).trans (beforeEntering_workingDir hS w rootDir)
      · unfold unpackCpioBall at hrun
        rw [if_pos hball] at hrun
        cases hrun
        rfl

end Ball

/-- Both functions at once: a ball that is installed is reported as a failure. -/
theorem unpack_install_correct_iff (hS : Steady S) (v : W) (nextDir : Option Str) :
    UnpackCorrect S fuel w ballPath rootDir lastDir ∧
        InstallCorrect S fuel v cpioName outName nextDir ↔
      (¬ Installed S fuel w ballPath rootDir lastDir ∧
        LeadsBack S fuel w ballPath rootDir lastDir) ∧
      (outName.isSome ∨
        (myCpioInstallArchive S.toSys false none fuel v nextDir).1 ≠ .returned .ok) := by
  rw [unpackCorrect_iff hS, installCorrect_iff]

end Comodoo.CpioBall
