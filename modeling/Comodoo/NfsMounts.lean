import Comodoo.ImageLocations
import Comodoo.SystemCalls

set_option autoImplicit false

/-!
# The mounts of an NFS installation

`mountNfsImage` of `stage-1/nfsinstall.c` with the calls it makes. `LoaderMount` has what it does
to the settings.
-/
namespace Comodoo.NfsMounts
open CString SystemCalls LoaderSettings LoaderMount ImageLocations
open Urls (slash)

abbrev stage2Dir : Str := ascii "/mnt/stage2"
abbrev updateDisk : Str := ascii "/tmp/update-disk"

inductive Message where
  /-- "That directory could not be mounted from the server." -/
  | notMounted
  /-- "That directory does not seem to contain a %s installation image." -/
  | noImage
  deriving DecidableEq, Repr

inductive Call where
  | nfsGetSetup
  | doPwMount (dev mountPoint : Str) (options : Option Str)
  | access (path : Str)
  | mountStage2 (path : Str)
  | umount (mountPoint : Str)
  | copyDirectory
  | newtWinMessage (m : Message)
  deriving DecidableEq, Repr

/-- The dialog answers with host and directory, or with Back; the others whether they succeed. -/
def Answer : Call → Type
  | .nfsGetSetup => Option (Str × Str)
  | .doPwMount _ _ _ | .access _ | .mountStage2 _ => Bool
  | .umount _ | .copyDirectory | .newtWinMessage _ => Unit

instance : (c : Call) → DecidableEq (Answer c)
  | .nfsGetSetup => inferInstanceAs (DecidableEq (Option (Str × Str)))
  | .doPwMount _ _ _ | .access _ | .mountStage2 _ => inferInstanceAs (DecidableEq Bool)
  | .umount _ | .copyDirectory | .newtWinMessage _ => inferInstanceAs (DecidableEq Unit)

abbrev Program := Prog Call Answer

def nfsGetSetup : Program (Option (Str × Str)) := perform Call.nfsGetSetup

def doPwMount (dev mountPoint : Str) (options : Option Str) : Program Bool :=
  perform (Call.doPwMount dev mountPoint options)

def access (path : Str) : Program Bool := perform (Call.access path)

def mountStage2 (path : Str) : Program Bool := perform (Call.mountStage2 path)

def umount (mountPoint : Str) : Program Unit := perform (Call.umount mountPoint)

def copyDirectory : Program Unit := perform Call.copyDirectory

def newtWinMessage (m : Message) : Program Unit := perform (Call.newtWinMessage m)

inductive Stage where
  | nfs
  | mount (host directory : Str)
  | updates (host directory fullPath : Str)
  deriving DecidableEq, Repr

/-- The variables of the loop; host and directory go with the stages that read them. -/
structure Vars where
  stage : Stage
  mountOpts : Option Str
  ld : LoaderData
  deriving DecidableEq, Repr

/-- `fault` is the use of a NULL pointer. -/
inductive Ending where
  | back
  | tested
  | mounted (url : Str)
  | fault
  deriving DecidableEq, Repr

/-- What memory of another structure reads as, and what `%.*s` prints of a path without a slash. -/
structure Junk where
  fields : Option Str × Option Str
  opts : Option Str
  cut : Str → Str

section Loop
variable (testing : Bool) (junk : Junk)

def nfsOpts : Stage2Data → Option Str
  | .nfs _ _ opts => opts
  | _ => junk.opts

/-- "ro", or "ro," in front of the options that are given. -/
def readOnly (opts : Option Str) : Str :=
  match opts with
  | none => ascii "ro"
  | some opts => ascii "ro," ++ opts

def askStage (v : Vars) : Program (Vars ⊕ Ending) := do
  match ← nfsGetSetup with
  | none => pure (.inr .back)
  | some (host, directory) =>
    if namesImage directory then
      pure (.inl { v with
        stage := .mount host directory, ld := { v.ld with invalidRepoParam := true } })
    else
      match setStage2LocFromCmdline (nfsUrl host directory ++ installImg)
        { v.ld with instRepo := some (nfsUrl host directory) } with
      | none => pure (.inr .fault)
      | some ld => pure (.inl { v with ld := ld })

def nfsStage (v : Vars) : Program (Vars ⊕ Ending) :=
  match v.ld.stage2Data with
  | none => askStage v
  | some data =>
    if v.ld.method = METHOD_NFS then
      let mountOpts := some (readOnly (nfsOpts junk data))
      match nfsFields junk.fields data with
      | (some host, some directory) =>
        pure (.inl { v with stage := .mount host directory, mountOpts := mountOpts })
      | _ =>
        pure (.inl { v with mountOpts := mountOpts, ld := doubtRepo { v.ld with method := -1 } })
    else askStage v

def mountStage (host directory : Str) (v : Vars) : Program (Vars ⊕ Ending) :=
  match nfsPaths host directory with
  | none => pure (.inr .fault)
  | some (fullPath, buf) =>
    if testing then pure (.inr .tested)
    else do
      let v := { v with stage := .nfs }
      if ← doPwMount fullPath stage2Dir v.mountOpts then
        if ← access buf then
          if ← mountStage2 buf then
            pure (.inl { v with stage := .updates host directory fullPath })
          else pure (.inl v)
        else do
          umount stage2Dir
          newtWinMessage .noImage
          pure (.inl { v with ld := doubtRepo (dropMethod v.ld) })
      else do
        newtWinMessage .notMounted
        pure (.inl { v with ld := doubtRepo (dropMethod v.ld) })

def updatesPath (fullPath : Str) : Str :=
  match strrchr slash fullPath with
  | some (front, _) => front ++ ascii "/RHupdates"
  | none => junk.cut fullPath ++ ascii "/RHupdates"

def updatesStage (host directory fullPath : Str) (v : Vars) : Program (Vars ⊕ Ending) := do
  if ← doPwMount (updatesPath junk fullPath) updateDisk v.mountOpts then
    copyDirectory
    umount updateDisk
  pure (.inr (.mounted (nfsUrl host directory)))

/-- `switch (stage)` -/
def mountNfsImage (v : Vars) : Program (Vars ⊕ Ending) :=
  match v.stage with
  | .nfs => nfsStage junk v
  | .mount host directory => mountStage testing host directory v
  | .updates host directory fullPath => updatesStage junk host directory fullPath v

end Loop

def start (ld : LoaderData) : Vars := ⟨.nfs, none, ld⟩

/-! ## The mounts -/

/-- What has been mounted, and how often `mountStage2` has failed. -/
structure Mounts where
  /-- on `/mnt/stage2` -/
  nfs : ℕ
  /-- on `/tmp/update-disk` -/
  updates : Bool
  /-- the last thing mounted on `/mnt/stage2` -/
  source : Option Str
  /-- the file on it that can be read -/
  image : Option Str
  failed : ℕ
  /-- the second stage -/
  runtime : Bool
  deriving DecidableEq, Repr

def Mounts.nothing : Mounts := ⟨0, false, none, none, 0, false⟩

/-- The image is looked for on what has been mounted, it is mounted if it can be read, and nothing
but the updates is mounted after it. What is unmounted is mounted. -/
def contract : Monitor Answer Mounts
  | s, .nfsGetSetup, _ => if s.runtime then none else some s
  | s, .doPwMount dev mountPoint _, (ok : Bool) =>
    if mountPoint = stage2Dir then
      if s.runtime then none
      else some { s with
        nfs := if ok then s.nfs + 1 else s.nfs, source := if ok then some dev else none,
        image := none }
    else if s.runtime ∧ s.updates = false then some { s with updates := ok } else none
  | s, .access path, (ok : Bool) =>
    if s.source.isSome then some { s with image := if ok then some path else none } else none
  | s, .mountStage2 path, (ok : Bool) =>
    if s.image = some path then
      some { s with runtime := ok, failed := if ok then s.failed else s.failed + 1 }
    else none
  | s, .umount mountPoint, _ =>
    if mountPoint = stage2Dir then
      if s.runtime = false ∧ s.source.isSome then some { s with nfs := s.nfs - 1, source := none }
      else none
    else if s.updates then some { s with updates := false } else none
  | s, .copyDirectory, _ => if s.updates then some s else none
  | s, .newtWinMessage _, _ => if s.runtime then none else some s

section Contract
variable {s : Mounts} (dev : Str) (options : Option Str) (ok : Bool)

theorem contract_mount (hrun : s.runtime = false) :
    contract s (.doPwMount dev stage2Dir options) ok = some { s with
      nfs := if ok then s.nfs + 1 else s.nfs, source := if ok then some dev else none,
      image := none } := by
  simp [contract, hrun]

theorem contract_umount (hrun : s.runtime = false) (hsource : s.source.isSome) :
    contract s (.umount stage2Dir) () = some { s with nfs := s.nfs - 1, source := none } := by
  simp [contract, hrun, hsource]

theorem contract_mountUpdates (hrun : s.runtime = true) (hupdates : s.updates = false) :
    contract s (.doPwMount dev updateDisk options) ok = some { s with updates := ok } := by
  have hother : updateDisk ≠ stage2Dir := by decide
  simp [contract, hother, hrun, hupdates]

theorem contract_umountUpdates (hupdates : s.updates = true) :
    contract s (.umount updateDisk) () = some { s with updates := false } := by
  have hother : updateDisk ≠ stage2Dir := by decide
  simp [contract, hother, hupdates]

end Contract

/-- A failed `mountStage2` leaves its mount behind. -/
structure Balanced (s : Mounts) : Prop where
  updates : s.updates = false
  nfs : s.nfs = s.failed + if s.runtime then 1 else 0

/-- The second stage has been mounted from this place. -/
def From (host directory : Str) (s : Mounts) : Prop :=
  s.runtime = true ∧ ∃ fullPath image, nfsPaths host directory = some (fullPath, image) ∧
    s.source = some fullPath ∧ s.image = some image

def Agrees (v : Vars) (s : Mounts) : Prop :=
  Balanced s ∧
    match v.stage with
    | .updates host directory _ => From host directory s
    | _ => s.runtime = false

def Ended (e : Ending) (s : Mounts) : Prop :=
  Balanced s ∧
    match e with
    | .mounted url => ∃ host directory, url = nfsUrl host directory ∧ From host directory s
    | _ => s.runtime = false

def Round (r : Vars ⊕ Ending) (s : Mounts) : Prop := r.elim (Agrees · s) (Ended · s)

section Steps
variable {testing : Bool} {junk : Junk} {v : Vars} {s : Mounts}

theorem accepts_askStage (hs : Balanced s) (hrun : s.runtime = false) (hstage : v.stage = .nfs) :
    Accepts contract s (askStage v) Round := by
  have hgo : ∀ v : Vars, (∀ h d p, v.stage ≠ .updates h d p) → Round (.inl v) s := by
    intro v hv
    refine ⟨hs, ?_⟩
    cases hst : v.stage with
    | nfs => exact hrun
    | mount h d => exact hrun
    | updates h d p => exact absurd hst (hv h d p)
  apply accepts_perform_bind
  intro (answer : Option (Str × Str))
  have hfree : ¬s.runtime = true := by
    rw [hrun]
    decide
  refine ⟨s, if_neg hfree, ?_⟩
  match answer with
  | none => exact (accepts_pure _).mpr ⟨hs, hrun⟩
  | some (host, directory) =>
    dsimp only
    split
    · exact (accepts_pure _).mpr (hgo _ (fun _ _ _ h => nomatch h))
    · split
      · exact (accepts_pure _).mpr ⟨hs, hrun⟩
      · apply (accepts_pure _).mpr (hgo _ _)
        intro h d p hst
        rw [hstage] at hst
        cases hst

theorem accepts_nfsStage (hI : Agrees v s) (hstage : v.stage = .nfs) :
    Accepts contract s (nfsStage junk v) Round := by
  obtain ⟨hs, hrun⟩ := hI
  rw [hstage] at hrun
  unfold nfsStage
  split
  · exact accepts_askStage hs hrun hstage
  · split
    · dsimp only
      split
      · exact (accepts_pure _).mpr ⟨hs, hrun⟩
      · apply (accepts_pure _).mpr
        refine ⟨hs, ?_⟩
        rw [hstage]
        exact hrun
    · exact accepts_askStage hs hrun hstage

theorem accepts_updatesStage {host directory fullPath : Str} (hs : Balanced s)
    (hfrom : From host directory s) :
    Accepts contract s (updatesStage junk host directory fullPath v) Round := by
  apply accepts_perform_bind
  intro (ok : Bool)
  refine ⟨{ s with updates := ok }, contract_mountUpdates _ _ ok hfrom.1 hs.updates, ?_⟩
  · cases ok with
    | false =>
      apply (accepts_pure _).mpr
      exact ⟨⟨rfl, hs.nfs⟩, host, directory, rfl, hfrom⟩
    | true =>
      apply accepts_perform_bind
      intro (_ : Unit)
      refine ⟨{ s with updates := true }, rfl, ?_⟩
      apply accepts_perform_bind
      intro (_ : Unit)
      refine ⟨{ s with updates := false }, contract_umountUpdates rfl, ?_⟩
      apply (accepts_pure _).mpr
      exact ⟨⟨rfl, hs.nfs⟩, host, directory, rfl, hfrom⟩

theorem accepts_mountStage {host directory : Str} (hs : Balanced s) (hrun : s.runtime = false) :
    Accepts contract s (mountStage testing host directory v) Round := by
  have hnfs : s.nfs = s.failed := by
    rw [hs.nfs, hrun]
    rfl
  have hfree : ¬s.runtime = true := by
    rw [hrun]
    decide
  unfold mountStage
  split
  · exact (accepts_pure _).mpr ⟨hs, hrun⟩
  rename_i fullPath buf hpaths
  split
  · exact (accepts_pure _).mpr ⟨hs, hrun⟩
  apply accepts_perform_bind
  intro (ok : Bool)
  refine ⟨{ s with
    nfs := if ok then s.nfs + 1 else s.nfs, source := if ok then some fullPath else none,
    image := none }, contract_mount _ _ ok hrun, ?_⟩
  cases ok with
  | false =>
    apply accepts_perform_bind
    intro (_ : Unit)
    refine ⟨{ s with source := none, image := none }, if_neg hfree, ?_⟩
    exact (accepts_pure _).mpr ⟨⟨hs.updates, hs.nfs⟩, hrun⟩
  | true =>
    apply accepts_perform_bind
    intro (readable : Bool)
    refine ⟨{ s with
      nfs := s.nfs + 1, source := some fullPath, image := if readable then some buf else none },
      rfl, ?_⟩
    cases readable with
    | false =>
      apply accepts_perform_bind
      intro (_ : Unit)
      refine ⟨{ s with source := none, image := none }, contract_umount hrun rfl, ?_⟩
      apply accepts_perform_bind
      intro (_ : Unit)
      refine ⟨{ s with source := none, image := none }, if_neg hfree, ?_⟩
      exact (accepts_pure _).mpr ⟨⟨hs.updates, hs.nfs⟩, hrun⟩
    | true =>
      apply accepts_perform_bind
      intro (loaded : Bool)
      refine ⟨{ s with
        nfs := s.nfs + 1, source := some fullPath, image := some buf, runtime := loaded,
        failed := if loaded then s.failed else s.failed + 1 }, if_pos rfl, ?_⟩
      cases loaded with
      | false =>
        apply (accepts_pure _).mpr
        exact ⟨⟨hs.updates, congrArg (· + 1) hnfs⟩, rfl⟩
      | true =>
        apply (accepts_pure _).mpr
        exact ⟨⟨hs.updates, congrArg (· + 1) hnfs⟩, rfl, fullPath, buf, hpaths, rfl, rfl⟩

theorem accepts_mountNfsImage (testing : Bool) (junk : Junk) (v : Vars) (s : Mounts)
    (hI : Agrees v s) : Accepts contract s (mountNfsImage testing junk v) Round := by
  unfold mountNfsImage
  cases hstage : v.stage with
  | nfs => exact accepts_nfsStage hI hstage
  | mount host directory =>
    obtain ⟨hs, hrun⟩ := hI
    rw [hstage] at hrun
    exact accepts_mountStage hs hrun
  | updates host directory fullPath =>
    obtain ⟨hs, hfrom⟩ := hI
    rw [hstage] at hfrom
    exact accepts_updatesStage hs hfrom

end Steps

section Runs
variable {testing : Bool} {junk : Junk} {t : List (Event Answer)} {r : Vars ⊕ Ending}

/-- In every run each `mountStage2` that fails leaves one more mount on `/mnt/stage2`; a location is
    returned exactly when the second stage is mounted, from the place that it names. -/
theorem mountNfsImage_mounts (ld : LoaderData)
    (h : Loops (mountNfsImage testing junk) (start ld) t r) :
    ∃ s, watch contract .nothing t = some s ∧ (∀ e, r = .inr e → s.updates = false ∧
      s.nfs = s.failed + (if s.runtime then 1 else 0) ∧
      (s.runtime = true ↔ ∃ url, e = .mounted url) ∧
      ∀ url, e = .mounted url → ∃ host directory fullPath image, url = nfsUrl host directory ∧
        nfsPaths host directory = some (fullPath, image) ∧ s.source = some fullPath ∧
        s.image = some image) := by
  have hstart : Agrees (start ld) .nothing := ⟨⟨rfl, rfl⟩, rfl⟩
  obtain ⟨s, hw, hr⟩ := loops_watch (accepts_mountNfsImage testing junk) h .nothing hstart
  refine ⟨s, hw, ?_⟩
  rintro e rfl
  obtain ⟨hs, hend⟩ := hr
  refine ⟨hs.updates, hs.nfs, ?_, ?_⟩
  · cases e with
    | mounted url =>
      obtain ⟨host, directory, -, hfrom⟩ := hend
      exact ⟨fun _ => ⟨url, rfl⟩, fun _ => hfrom.1⟩
    | back | tested | fault =>
      constructor
      · intro hrun
        rw [hend] at hrun
        cases hrun
      · rintro ⟨url, hurl⟩
        cases hurl
  · rintro url rfl
    obtain ⟨host, directory, hurl, -, fullPath, image, hpaths, hsource, himage⟩ := hend
    exact ⟨host, directory, fullPath, image, hurl, hpaths, hsource, himage⟩

def given : LoaderData :=
  { LoaderData.initial with
    method := METHOD_NFS, stage2Data := some (.nfs (some (ascii "h")) (some (ascii "/d/i.img")) none) }

def noJunk : Junk := ⟨(none, none), none, id⟩

def inFront : Vars := ⟨.mount (ascii "h") (ascii "/d/i.img"), some (ascii "ro"), given⟩

theorem runs_given (v : Vars) (hstage : v.stage = .nfs) (hld : v.ld = given) :
    Runs (mountNfsImage false noJunk v) [] (.inl inFront) := by
  cases v with
  | mk stage mountOpts ld =>
    cases hstage
    cases hld
    exact .ret _

/-- The image is mounted at once, and there are no updates. -/
def atOnce : List (Event Answer) :=
  [⟨.doPwMount (ascii "h:/d") stage2Dir (some (ascii "ro")), true⟩,
    ⟨.access (ascii "/mnt/stage2//i.img"), true⟩, ⟨.mountStage2 (ascii "/mnt/stage2//i.img"), true⟩,
    ⟨.doPwMount (ascii "h:/RHupdates") updateDisk (some (ascii "ro")), false⟩]

theorem loops_atOnce : Loops (mountNfsImage false noJunk) (start given) atOnce
    (.inr (.mounted (ascii "nfs:h:/d/i.img"))) := by
  have hmount : Runs (mountNfsImage false noJunk inFront)
      [⟨.doPwMount (ascii "h:/d") stage2Dir (some (ascii "ro")), true⟩,
        ⟨.access (ascii "/mnt/stage2//i.img"), true⟩,
        ⟨.mountStage2 (ascii "/mnt/stage2//i.img"), true⟩]
      (.inl { inFront with stage := .updates (ascii "h") (ascii "/d/i.img") (ascii "h:/d") }) := by
    apply runs_perform_bind
    apply runs_perform_bind
    apply runs_perform_bind
    exact .ret _
  have hupdates : Runs (mountNfsImage false noJunk
      { inFront with stage := .updates (ascii "h") (ascii "/d/i.img") (ascii "h:/d") })
      [⟨.doPwMount (ascii "h:/RHupdates") updateDisk (some (ascii "ro")), false⟩]
      (.inr (.mounted (ascii "nfs:h:/d/i.img"))) := by
    apply runs_perform_bind
    exact .ret _
  exact .again (runs_given _ rfl rfl) (.again hmount (.last hupdates))

theorem mountNfsImage_mounts_atOnce :
    ∃ s, watch contract .nothing atOnce = some s ∧ s.nfs = s.failed + 1 ∧ s.runtime = true := by
  obtain ⟨s, hw, hend⟩ := mountNfsImage_mounts given loops_atOnce
  obtain ⟨-, hnfs, hrun, -⟩ := hend _ rfl
  have hruntime : s.runtime = true := hrun.mpr ⟨_, rfl⟩
  rw [hruntime] at hnfs
  exact ⟨s, hw, hnfs, hruntime⟩

/-! ### An image that is there and cannot be mounted -/

def failedRound (fullPath buf : Str) (opts : Option Str) : List (Event Answer) :=
  [⟨.doPwMount fullPath stage2Dir (some (readOnly opts)), true⟩, ⟨.access buf, true⟩,
    ⟨.mountStage2 buf, false⟩]

section Failing
variable {ld : LoaderData} {host directory fullPath buf : Str} {opts : Option Str} {v : Vars}

/-- The place comes from the settings, and the loop is in front of its next mount. -/
structure Known (ld : LoaderData) (host directory : Str) (opts : Option Str) (v : Vars) : Prop where
  ld : v.ld = ld
  stage : v.stage = .nfs ∨
    v.stage = .mount host directory ∧ v.mountOpts = some (readOnly opts)

/-- No answer but that of `mountStage2` is a failure. -/
structure Spoilt (fullPath buf : Str) (t : List (Event Answer)) : Prop where
  mount : ∀ o, (⟨.doPwMount fullPath stage2Dir o, false⟩ : Event Answer) ∉ t
  access : (⟨.access buf, false⟩ : Event Answer) ∉ t
  stage2 : (⟨.mountStage2 buf, true⟩ : Event Answer) ∉ t

theorem runs_known {x : Vars ⊕ Ending} (hmethod : ld.method = METHOD_NFS)
    (hdata : ld.stage2Data = some (.nfs (some host) (some directory) opts))
    (hpaths : nfsPaths host directory = some (fullPath, buf)) (hv : Known ld host directory opts v)
    (h : Runs (mountNfsImage false junk v) t x) (ht : Spoilt fullPath buf t) :
    ∃ v', x = .inl v' ∧ Known ld host directory opts v' ∧
      (t = [] ∨ t = failedRound fullPath buf opts) := by
  unfold mountNfsImage at h
  cases hv.stage with
  | inl hstage =>
    rw [hstage] at h
    simp only [nfsStage, hv.ld, hdata, hmethod, if_true, nfsFields, nfsOpts] at h
    cases h
    exact ⟨_, rfl, ⟨rfl, Or.inr ⟨rfl, rfl⟩⟩, Or.inl rfl⟩
  | inr hstage =>
    rw [hstage.1] at h
    simp only [mountStage, hpaths, Bool.false_eq_true, if_false, hstage.2] at h
    cases h with
    | call ok rest =>
      cases ok with
      | false => exact absurd List.mem_cons_self (ht.mount _)
      | true =>
        cases rest with
        | call readable rest =>
          cases readable with
          | false => exact absurd (List.mem_cons_of_mem _ List.mem_cons_self) ht.access
          | true =>
            cases rest with
            | call loaded rest =>
              cases loaded with
              | true =>
                apply absurd _ ht.stage2
                exact List.mem_cons_of_mem _ (List.mem_cons_of_mem _ List.mem_cons_self)
              | false =>
                cases rest
                exact ⟨_, rfl, ⟨hv.ld, Or.inl rfl⟩, Or.inr rfl⟩

theorem Spoilt.append {u : List (Event Answer)} (h : Spoilt fullPath buf (t ++ u)) :
    Spoilt fullPath buf t ∧ Spoilt fullPath buf u := by
  constructor
  · exact ⟨fun o hin => h.mount o (List.mem_append_left u hin),
      fun hin => h.access (List.mem_append_left u hin),
      fun hin => h.stage2 (List.mem_append_left u hin)⟩
  · exact ⟨fun o hin => h.mount o (List.mem_append_right t hin),
      fun hin => h.access (List.mem_append_right t hin),
      fun hin => h.stage2 (List.mem_append_right t hin)⟩

theorem loops_known (hmethod : ld.method = METHOD_NFS)
    (hdata : ld.stage2Data = some (.nfs (some host) (some directory) opts))
    (hpaths : nfsPaths host directory = some (fullPath, buf)) (hv : Known ld host directory opts v)
    (h : Loops (mountNfsImage false junk) v t r) (ht : Spoilt fullPath buf t) :
    (∃ v', r = .inl v') ∧
      ∃ n, t = (List.replicate n (failedRound fullPath buf opts)).flatten := by
  induction h with
  | here x => exact ⟨⟨x, rfl⟩, 0, rfl⟩
  | last hrun =>
    obtain ⟨v', hx, -⟩ := runs_known hmethod hdata hpaths hv hrun ht
    cases hx
  | again hrun rest ih =>
    obtain ⟨ht₁, ht₂⟩ := ht.append
    obtain ⟨v', hx, hv', hround⟩ := runs_known hmethod hdata hpaths hv hrun ht₁
    cases hx
    obtain ⟨hr, n, rfl⟩ := ih hv' ht₂
    refine ⟨hr, ?_⟩
    cases hround with
    | inl hnil => exact ⟨n, by rw [hnil, List.nil_append]⟩
    | inr hround => exact ⟨n + 1, by rw [hround, List.replicate_succ, List.flatten_cons]⟩

theorem watch_failedRounds (n : ℕ) {s : Mounts} (hrun : s.runtime = false) :
    ∃ s', watch contract s (List.replicate n (failedRound fullPath buf opts)).flatten = some s' ∧
      s'.nfs = s.nfs + n ∧ s'.runtime = false := by
  induction n generalizing s with
  | zero => exact ⟨s, rfl, rfl, hrun⟩
  | succ n ih =>
    have hround : watch contract s (failedRound fullPath buf opts) = some { s with
        nfs := s.nfs + 1, source := some fullPath, image := some buf, runtime := false,
        failed := s.failed + 1 } := by
      unfold failedRound watch
      rw [contract_mount _ _ true hrun]
      simp [watch, contract]
    obtain ⟨s', hw, hnfs, hrun'⟩ := @ih { s with
      nfs := s.nfs + 1, source := some fullPath, image := some buf, runtime := false,
      failed := s.failed + 1 } rfl
    refine ⟨s', ?_, ?_, hrun'⟩
    · rw [List.replicate_succ, List.flatten_cons, watch_append, hround]
      exact hw
    · simp only at hnfs
      omega

end Failing

/-- Where the place comes from the settings and its image can be read but not mounted, the function
    mounts the server again and again, neither returns nor says a word, and leaves a mount each
    time. -/
theorem mountNfsImage_stage2_fails (junk : Junk) (ld : LoaderData) (host directory : Str)
    (opts : Option Str) (fullPath buf : Str) (hmethod : ld.method = METHOD_NFS)
    (hdata : ld.stage2Data = some (.nfs (some host) (some directory) opts))
    (hpaths : nfsPaths host directory = some (fullPath, buf))
    (h : Loops (mountNfsImage false junk) (start ld) t r) (ht : Spoilt fullPath buf t) :
    (∃ v, r = .inl v) ∧ ∃ n, t = (List.replicate n (failedRound fullPath buf opts)).flatten ∧
      ∃ s, watch contract .nothing t = some s ∧ s.nfs = n := by
  have hstart : Known ld host directory opts (start ld) := ⟨rfl, Or.inl rfl⟩
  obtain ⟨hr, n, rfl⟩ := loops_known hmethod hdata hpaths hstart h ht
  obtain ⟨s, hw, hnfs, -⟩ := @watch_failedRounds fullPath buf opts n .nothing rfl
  exact ⟨hr, n, rfl, s, hw, hnfs.trans (Nat.zero_add n)⟩

theorem mountNfsImage_stage2_fails_given :
    ∃ t, Loops (mountNfsImage false noJunk) (start given) t (.inl { inFront with stage := .nfs }) ∧
      ∃ n, t = (List.replicate n (failedRound (ascii "h:/d") (ascii "/mnt/stage2//i.img")
        none)).flatten ∧ ∃ s, watch contract .nothing t = some s ∧ s.nfs = n := by
  have hfail : Runs (mountNfsImage false noJunk inFront)
      (failedRound (ascii "h:/d") (ascii "/mnt/stage2//i.img") none)
      (.inl { inFront with stage := .nfs }) := by
    apply runs_perform_bind
    apply runs_perform_bind
    apply runs_perform_bind
    exact .ret _
  have hloop : Loops (mountNfsImage false noJunk) (start given)
      ([] ++ (failedRound (ascii "h:/d") (ascii "/mnt/stage2//i.img") none ++ []))
      (.inl { inFront with stage := .nfs }) :=
    .again (runs_given _ rfl rfl) (.again hfail (.here _))
  have hspoilt : Spoilt (ascii "h:/d") (ascii "/mnt/stage2//i.img")
      ([] ++ (failedRound (ascii "h:/d") (ascii "/mnt/stage2//i.img") none ++ [])) :=
    ⟨(fun o hin => nomatch hin), by decide, by decide⟩
  exact ⟨_, hloop, (mountNfsImage_stage2_fails noJunk given (ascii "h") (ascii "/d/i.img") none
    (ascii "h:/d") (ascii "/mnt/stage2//i.img") rfl rfl rfl hloop hspoilt).2⟩

end Runs

end Comodoo.NfsMounts
