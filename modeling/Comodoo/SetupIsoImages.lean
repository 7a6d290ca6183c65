import Comodoo.CopyFile

set_option autoImplicit false

/-!
# The installation image on a hard drive

`setupIsoImages` of `stage-1/hdinstall.c`, with `mountStage2` of `method.c`. The images of updates
and products are mounted elsewhere. `written` is no variable of the program: it says what a copy has
written.
-/
namespace Comodoo.SetupIsoImages
open CString CopyFile

inductive FsType where
  | ext3
  | ext2
  | vfat
  deriving DecidableEq, Repr

def typetry : List FsType := [.ext3, .ext2, .vfat]

/-- What the calls return. `image` is the file `dirName` on the partition, `beneath` the one that
is found without it. -/
structure Answers where
  mounts : FsType → Bool
  image : Option Str
  beneath : Option Str
  destOpens : Bool
  rounds : ℕ → Round
  stage2Readable : Bool
  stage2Mounts : Bool

/-- The file systems on `/mnt/isodir` and the images on `/mnt/runtime`, the topmost first, and the
contents of `/tmp/install.img`. -/
structure World where
  isodir : List Str
  runtime : List Str
  installImg : Option Str
  deriving DecidableEq, Repr

structure Outcome where
  url : Option Str
  world : World
  written : Option Str
  deriving DecidableEq, Repr

/-- The `for` loop over `typetry`. -/
def tryTypes (a : Answers) (device : Str) : List FsType → World → World
  | [], w => w
  | type :: types, w =>
    if a.mounts type then { w with isodir := device :: w.isodir } else tryTypes a device types w

def mounted (a : Answers) : Bool := typetry.any a.mounts

def source (a : Answers) : Option Str := if mounted a then a.image else a.beneath

/-- The new `/tmp/install.img`, and what has been written of it. -/
def copyFile (a : Answers) (w : World) : ℤ × World × Option Str :=
  match source a with
  | none => (1, w, none)
  | some src =>
    let f : Files := ⟨src, w.installImg, a.destOpens, a.rounds⟩
    let (rc, dest) := copyFileFd f
    (rc, { w with installImg := dest }, writtenBy f)

def mountStage2 (a : Answers) (w : World) : ℤ × World :=
  match w.installImg with
  | none => (1, w)
  | some img =>
    if ¬ a.stage2Readable then (1, w)
    else if ¬ a.stage2Mounts then (1, w)
    else (0, { w with runtime := img :: w.runtime })

def url (device dirName : Str) : Str := ascii "hd:" ++ device ++ ascii ":/" ++ dirName

/-- The test behind the `for` loop is one of the cursor, which is never NULL, and the result of
`copyFile` is overwritten. -/
def setupIsoImages (testing : Bool) (device dirName : Str) (a : Answers) (w : World) : Outcome :=
  if testing then ⟨none, w, none⟩
  else
    let w := tryTypes a device typetry w
    let (_, w, written) := copyFile a w
    let (rc, w) := mountStage2 a w
    if rc ≠ 0 then
      ⟨none, { w with runtime := w.runtime.tail, isodir := w.isodir.tail }, written⟩
    else ⟨some (url device dirName), { w with isodir := w.isodir.tail }, written⟩

/-- A url for a whole copy of the image only, and nothing left mounted without one. -/
structure Sound (a : Answers) (w : World) (o : Outcome) : Prop where
  found : o.url ≠ none → (∃ type ∈ typetry, a.mounts type = true) ∧
    ∃ img, a.image = some img ∧ o.written = some img ∧ o.world.runtime = img :: w.runtime
  cleared : o.url = none → o.world.isodir <:+ w.isodir ∧ o.world.runtime <:+ w.runtime

/-- Everything is copied, and nothing of an older file stays behind it. -/
structure Complete (a : Answers) (w : World) (img : Str) : Prop where
  mounted : mounted a = true
  image : a.image = some img
  destOpens : a.destOpens = true
  undisturbed : undisturbed a.rounds 0 img = true
  older : (w.installImg.getD []).length ≤ img.length

/-- The second stage is not mounted, or there is no file for it. -/
def stage2Fails (a : Answers) (w : World) : Bool :=
  !a.stage2Readable || !a.stage2Mounts ||
    (w.installImg.isNone && !((source a).isSome && a.destOpens))

section Call
variable {a : Answers} {w : World} {img : Str}

theorem tryTypes_eq (a : Answers) (device : Str) (types : List FsType) (w : World) :
    tryTypes a device types w =
      { w with isodir := (if types.any a.mounts then [device] else []) ++ w.isodir } := by
  induction types with
  | nil => rfl
  | cons type types ih =>
    rw [tryTypes, List.any_cons]
    cases a.mounts type with
    | true => rfl
    | false => exact ih

theorem copyFile_isodir (a : Answers) (w : World) : (copyFile a w).2.1.isodir = w.isodir := by
  unfold copyFile
  split <;> rfl

theorem copyFile_runtime (a : Answers) (w : World) : (copyFile a w).2.1.runtime = w.runtime := by
  unfold copyFile
  split <;> rfl

theorem copyFile_isNone (a : Answers) (w : World) :
    (copyFile a w).2.1.installImg.isNone =
      (w.installImg.isNone && !((source a).isSome && a.destOpens)) := by
  rw [copyFile]
  cases source a with
  | none => exact (Bool.and_true _).symm
  | some src =>
    cases a.destOpens with
    | false => exact (Bool.and_true _).symm
    | true => exact (Bool.and_false _).symm

theorem mountStage2_fails
    (h : (!a.stage2Readable || !a.stage2Mounts || w.installImg.isNone) = true) :
    mountStage2 a w = (1, w) := by
  rw [mountStage2]
  cases himg : w.installImg with
  | none => rfl
  | some img =>
    rw [himg, Option.isNone_some, Bool.or_false, Bool.or_eq_true, Bool.not_eq_true',
      Bool.not_eq_true'] at h
    dsimp only
    rcases h with h | h
    · exact if_pos (Bool.eq_false_iff.mp h)
    · simp only [h, Bool.false_eq_true, not_false_eq_true, ↓reduceIte, ite_self]

theorem mountStage2_mounts (hread : a.stage2Readable = true) (hmount : a.stage2Mounts = true)
    (himg : w.installImg = some img) :
    mountStage2 a w = (0, { w with runtime := img :: w.runtime }) := by
  rw [mountStage2, himg]
  dsimp only
  rw [if_neg (not_not_intro hread), if_neg (not_not_intro hmount)]

def copied (device : Str) (a : Answers) (w : World) : World :=
  (copyFile a (tryTypes a device typetry w)).2.1

theorem copied_isodir (device : Str) (a : Answers) (w : World) :
    (copied device a w).isodir.tail <:+ w.isodir := by
  rw [copied, copyFile_isodir, tryTypes_eq]
  dsimp only
  split_ifs
  · exact List.suffix_rfl
  · exact List.tail_suffix w.isodir

theorem copied_runtime (device : Str) (a : Answers) (w : World) :
    (copied device a w).runtime = w.runtime := by
  rw [copied, copyFile_runtime, tryTypes_eq]

theorem stage2Fails_eq (device : Str) (a : Answers) (w : World) :
    stage2Fails a w =
      (!a.stage2Readable || !a.stage2Mounts || (copied device a w).installImg.isNone) := by
  rw [copied, copyFile_isNone, tryTypes_eq, stage2Fails]

theorem setupIsoImages_fails {device dirName : Str} (h : stage2Fails a w = true) :
    setupIsoImages false device dirName a w =
      ⟨none, { copied device a w with
          runtime := (copied device a w).runtime.tail,
          isodir := (copied device a w).isodir.tail },
        (copyFile a (tryTypes a device typetry w)).2.2⟩ := by
  rw [stage2Fails_eq device] at h
  have hmount : mountStage2 a (copyFile a (tryTypes a device typetry w)).2.1 =
      (1, copied device a w) := mountStage2_fails h
  rw [setupIsoImages, if_neg Bool.false_ne_true]
  dsimp only
  rw [hmount]
  rfl

theorem setupIsoImages_mounts {device dirName : Str} (h : stage2Fails a w = false)
    (himg : (copied device a w).installImg = some img) :
    setupIsoImages false device dirName a w =
      ⟨some (url device dirName), { copied device a w with
          runtime := img :: w.runtime,
          isodir := (copied device a w).isodir.tail },
        (copyFile a (tryTypes a device typetry w)).2.2⟩ := by
  rw [stage2Fails_eq device, Bool.or_eq_false_iff, Bool.or_eq_false_iff, Bool.not_eq_false',
    Bool.not_eq_false'] at h
  have hmount : mountStage2 a (copyFile a (tryTypes a device typetry w)).2.1 =
      (0, { copied device a w with runtime := img :: (copied device a w).runtime }) :=
    mountStage2_mounts h.1.1 h.1.2 himg
  rw [setupIsoImages, if_neg Bool.false_ne_true]
  dsimp only
  rw [hmount, copied_runtime]
  rfl

theorem copyFile_whole_iff (hsource : source a = some img) :
    ((copyFile a w).2.2 = some img ∧ (copyFile a w).2.1.installImg = some img) ↔
      a.destOpens = true ∧ undisturbed a.rounds 0 img = true ∧
        (w.installImg.getD []).length ≤ img.length := by
  rw [copyFile, hsource]
  exact copyFileFd_whole_iff ⟨img, w.installImg, a.destOpens, a.rounds⟩

theorem sound_testing (device dirName : Str) (a : Answers) (w : World) :
    Sound a w (setupIsoImages true device dirName a w) :=
  ⟨fun hurl => absurd rfl hurl, fun _ => ⟨List.suffix_rfl, List.suffix_rfl⟩⟩

theorem sound_fails {device dirName : Str} (h : stage2Fails a w = true) :
    Sound a w (setupIsoImages false device dirName a w) := by
  rw [setupIsoImages_fails h]
  refine ⟨fun hurl => absurd rfl hurl, fun _ => ⟨copied_isodir device a w, ?_⟩⟩
  dsimp only
  rw [copied_runtime]
  exact List.tail_suffix w.runtime

theorem sound_mounts_iff {device dirName : Str} (h : stage2Fails a w = false) :
    Sound a w (setupIsoImages false device dirName a w) ↔ ∃ img, Complete a w img := by
  have hsome : (copied device a w).installImg.isSome = true := by
    rw [stage2Fails_eq device, Bool.or_eq_false_iff] at h
    rw [← Option.not_isNone, h.2, Bool.not_false]
  obtain ⟨new, hnew⟩ := Option.isSome_iff_exists.mp hsome
  have hinstall : (tryTypes a device typetry w).installImg = w.installImg := by
    rw [tryTypes_eq]
  have hmounted : mounted a = true ↔ ∃ type ∈ typetry, a.mounts type = true := List.any_eq_true
  have hsource : mounted a = true → source a = a.image := fun hm => if_pos hm
  rw [setupIsoImages_mounts h hnew]
  constructor
  · rintro ⟨hfound, -⟩
    obtain ⟨hm, img, himage, hwritten, hruntime⟩ := hfound (Option.some_ne_none _)
    have hsrc : source a = some img := (hsource (hmounted.mpr hm)).trans himage
    have hhead : new = img := (List.cons.inj hruntime).1
    rw [hhead] at hnew
    obtain ⟨hopens, hund, holder⟩ := (copyFile_whole_iff hsrc).mp ⟨hwritten, hnew⟩
    rw [hinstall] at holder
    exact ⟨img, hmounted.mpr hm, himage, hopens, hund, holder⟩
  · rintro ⟨img, hm, himage, hopens, hund, holder⟩
    rw [← hinstall] at holder
    obtain ⟨hwritten, hcopy⟩ :=
      (copyFile_whole_iff ((hsource hm).trans himage)).mpr ⟨hopens, hund, holder⟩
    have hhead : new = img := Option.some.inj (hnew.symm.trans hcopy)
    refine ⟨fun _ => ⟨hmounted.mp hm, img, himage, hwritten, ?_⟩, fun hurl => ?_⟩
    · rw [hhead]
    · cases hurl

end Call

/-- A url comes with a whole copy, and none with nothing left mounted, unless the second stage is
mounted behind a copy that failed or was not made. -/
theorem setupIsoImages_sound_iff (testing : Bool) (device dirName : Str) (a : Answers) (w : World) :
    Sound a w (setupIsoImages testing device dirName a w) ↔
      testing = true ∨ stage2Fails a w = true ∨ ∃ img, Complete a w img := by
  cases testing with
  | true => exact ⟨fun _ => Or.inl rfl, fun _ => sound_testing device dirName a w⟩
  | false =>
    cases h : stage2Fails a w with
    | true => exact ⟨fun _ => Or.inr (Or.inl rfl), fun _ => sound_fails h⟩
    | false =>
      rw [sound_mounts_iff h]
      constructor
      · exact fun hc => Or.inr (Or.inr hc)
      · rintro (hfalse | hfalse | hc)
        · cases hfalse
        · cases hfalse
        · exact hc

/-- No mount succeeds, and `/tmp/install.img` is there from an earlier attempt. -/
def noMount : Answers where
  mounts := fun _ => false
  image := none
  beneath := none
  destOpens := true
  rounds := fun _ => ⟨none, none⟩
  stage2Readable := true
  stage2Mounts := true

theorem noMount_not_sound :
    ¬ Sound noMount ⟨[], [], some (ascii "stage2")⟩
      (setupIsoImages false (ascii "sda1") (ascii "/install.img") noMount
        ⟨[], [], some (ascii "stage2")⟩) := by
  rintro ⟨hfound, -⟩
  obtain ⟨⟨type, -, hmounts⟩, -⟩ := hfound (by decide)
  cases hmounts

end Comodoo.SetupIsoImages
