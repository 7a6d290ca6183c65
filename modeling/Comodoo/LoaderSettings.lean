import Comodoo.CString

set_option autoImplicit false

/-!
# The loader's settings

The part of `struct loaderData_s` that decides how the second stage is found, and the
functions that fill it from the command line and from a kickstart file
(`stage-1/method.c`, `nfsinstall.c`, `urlinstall.c`, `hdinstall.c`, `cdinstall.c`).
-/
namespace Comodoo.LoaderSettings
open CString

abbrev METHOD_CDROM : ℤ := 0
abbrev METHOD_HD : ℤ := 1
abbrev METHOD_NFS : ℤ := 2
abbrev METHOD_URL : ℤ := 3

abbrev colon : UInt8 := 0x3a

/-- Compile-time choices: `ENABLE_IPV6` and the width of `long`. -/
structure Build where
  ipv6 : Bool
  longBits : ℕ
  deriving DecidableEq, Repr

/-- What `void * stage2Data` points to; a NULL string is `none`. -/
inductive Stage2Data where
  | nfs (host directory mountOpts : Option Str)
  | url (url : Option Str)
  | hd (partition directory : Option Str)
  deriving DecidableEq, Repr

structure LoaderData where
  kbd : Option Str
  kbdSet : Bool
  method : ℤ
  stage2Data : Option Stage2Data
  instRepo : Option Str
  inferredStage2 : Bool
  invalidRepoParam : Bool
  deriving DecidableEq, Repr

/-- As `main` sets it up. -/
def LoaderData.initial : LoaderData := ⟨none, false, -1, none, none, false, false⟩

/-- `strdup(NULL)` is `none`. -/
def setStage2LocFromCmdline (arg : Str) (ld : LoaderData) : Option LoaderData :=
  match strtok colon arg with
  | none => some ld
  | some (_, rest) =>
    let c := strtok colon rest
    if (ascii "nfs:").isPrefixOf arg then
      c.map (fun c => { ld with
        method := METHOD_NFS,
        stage2Data := some (.nfs (some c.1) ((strtok colon c.2).map Prod.fst) none) })
    else if (ascii "ftp:").isPrefixOf arg ∨ (ascii "http:").isPrefixOf arg then
      some { ld with method := METHOD_URL, stage2Data := some (.url (some arg)) }
    else if (ascii "cdrom:").isPrefixOf arg then some { ld with method := METHOD_CDROM }
    else if (ascii "harddrive:").isPrefixOf arg ∨ (ascii "hd:").isPrefixOf arg then
      c.map (fun c => { ld with
        method := METHOD_HD,
        stage2Data := some (.hd (some c.1) ((strtok colon c.2).map Prod.fst)) })
    else some ld

/-- The first ".img" of the path ends it. -/
def namesImage (path : Str) : Bool :=
  match strstr (ascii ".img") path with
  | some (_, []) => true
  | _ => false

def setKickstartNfs (host dir opts : Option Str) (ld : LoaderData) : LoaderData :=
  match host, dir with
  | some host, some dir =>
    if namesImage dir then
      { ld with method := METHOD_NFS, stage2Data := some (.nfs (some host) (some dir) opts) }
    else
      { ld with
        method := METHOD_NFS, instRepo := some (ascii "nfs:" ++ host ++ [colon] ++ dir) }
  | _, _ => ld

def setKickstartUrl (url : Option Str) (ld : LoaderData) : LoaderData :=
  match url with
  | none => ld
  | some url =>
    if strstr (ascii "http://") url = none ∧ strstr (ascii "ftp://") url = none then ld
    else if namesImage url then
      { ld with method := METHOD_URL, stage2Data := some (.url (some url)) }
    else { ld with method := METHOD_URL, instRepo := some url }

def setKickstartHD (partition dir : Option Str) (ld : LoaderData) : LoaderData :=
  { ld with method := METHOD_HD, stage2Data := some (.hd partition dir) }

def setKickstartCD (ld : LoaderData) : LoaderData := { ld with method := METHOD_CDROM }

/-- The arguments and kickstart commands that reach these fields. A command with bad arguments
changes nothing and is left out. -/
inductive Setting where
  | keymap (name : Str)
  | repo (location : Str)
  | stage2 (location : Str)
  | ksNfs (host dir opts : Option Str)
  | ksUrl (url : Option Str)
  | ksHD (partition dir : Option Str)
  | ksCD
  deriving DecidableEq, Repr

def applySetting (ld : LoaderData) : Setting → Option LoaderData
  | .keymap name => some { ld with kbd := some name, kbdSet := true }
  | .repo location => some { ld with instRepo := some location }
  | .stage2 location => setStage2LocFromCmdline location ld
  | .ksNfs host dir opts => some (setKickstartNfs host dir opts ld)
  | .ksUrl url => some (setKickstartUrl url ld)
  | .ksHD partition dir => some (setKickstartHD partition dir ld)
  | .ksCD => some (setKickstartCD ld)

def applySettings (ld : LoaderData) : List Setting → Option LoaderData
  | [] => some ld
  | st :: sts => (applySetting ld st).bind (fun ld => applySettings ld sts)

/-- `method` is an index into the table of four install methods. -/
def ValidMethod (m : ℤ) : Prop := 0 ≤ m ∧ m < 4

instance (m : ℤ) : Decidable (ValidMethod m) := inferInstanceAs (Decidable (0 ≤ m ∧ m < 4))

theorem validMethod_nfs : ValidMethod METHOD_NFS := by decide
theorem validMethod_url : ValidMethod METHOD_URL := by decide
theorem validMethod_hd : ValidMethod METHOD_HD := by decide
theorem validMethod_cdrom : ValidMethod METHOD_CDROM := by decide

/-- The method is unset or an index, and a location for the second stage comes with a method. -/
def Located (ld : LoaderData) : Prop :=
  (ld.method = -1 ∨ ValidMethod ld.method) ∧ (ld.stage2Data ≠ none → ValidMethod ld.method)

theorem located_of_valid {ld : LoaderData} (h : ValidMethod ld.method) : Located ld :=
  ⟨.inr h, fun _ => h⟩

theorem located_initial : Located .initial := ⟨.inl rfl, fun h => absurd rfl h⟩

theorem setStage2LocFromCmdline_cases {arg : Str} {ld ld' : LoaderData}
    (h : setStage2LocFromCmdline arg ld = some ld') :
    ld' = ld ∨ ValidMethod ld'.method := by
  rw [setStage2LocFromCmdline] at h
  split at h
  · exact .inl (Option.some.inj h).symm
  · simp only at h
    split at h
    · obtain ⟨c, -, rfl⟩ := Option.map_eq_some_iff.mp h
      exact .inr validMethod_nfs
    · split at h
      · obtain rfl := Option.some.inj h
        exact .inr validMethod_url
      · split at h
        · obtain rfl := Option.some.inj h
          exact .inr validMethod_cdrom
        · split at h
          · obtain ⟨c, -, rfl⟩ := Option.map_eq_some_iff.mp h
            exact .inr validMethod_hd
          · exact .inl (Option.some.inj h).symm

theorem setStage2LocFromCmdline_located {arg : Str} {ld ld' : LoaderData}
    (h : setStage2LocFromCmdline arg ld = some ld') (hl : Located ld) : Located ld' := by
  rcases setStage2LocFromCmdline_cases h with rfl | hv
  · exact hl
  · exact located_of_valid hv

theorem applySetting_located {ld ld' : LoaderData} {st : Setting}
    (h : applySetting ld st = some ld') (hl : Located ld) : Located ld' := by
  cases st with
  | keymap name =>
    obtain rfl := Option.some.inj h
    exact hl
  | repo location =>
    obtain rfl := Option.some.inj h
    exact hl
  | stage2 location => exact setStage2LocFromCmdline_located h hl
  | ksNfs host dir opts =>
    obtain rfl := Option.some.inj h
    simp only [setKickstartNfs]
    split
    · split <;> exact located_of_valid validMethod_nfs
    · exact hl
  | ksUrl url =>
    obtain rfl := Option.some.inj h
    simp only [setKickstartUrl]
    split
    · exact hl
    · split
      · exact hl
      · split <;> exact located_of_valid validMethod_url
  | ksHD partition dir =>
    obtain rfl := Option.some.inj h
    exact located_of_valid validMethod_hd
  | ksCD =>
    obtain rfl := Option.some.inj h
    exact located_of_valid validMethod_cdrom

theorem applySettings_located {ld ld' : LoaderData} {sts : List Setting}
    (h : applySettings ld sts = some ld') (hl : Located ld) : Located ld' := by
  induction sts generalizing ld with
  | nil =>
    obtain rfl := Option.some.inj h
    exact hl
  | cons st sts ih =>
    obtain ⟨ld1, h1, h2⟩ := Option.bind_eq_some_iff.mp h
    exact ih h2 (applySetting_located h1 hl)

end Comodoo.LoaderSettings
