import Comodoo.LoaderMount
import Comodoo.Stage2Location

set_option autoImplicit false

/-!
# Is it an image

The places where `stage-1/urlinstall.c`, `nfsinstall.c` and `hdinstall.c` look for `.img` in a
location, and what becomes of the location there, against the rule of the last four bytes.
-/
namespace Comodoo.ImageLocations
open CString LoaderSettings LoaderMount Stage2Location
open Urls (Iurlinfo slash)

abbrev installImg : Str := ascii "/images/install.img"

def EndsInImg (path : Str) : Prop := ascii ".img" <:+ path

instance (path : Str) : Decidable (EndsInImg path) :=
  inferInstanceAs (Decidable (ascii ".img" <:+ path))

def imagePath (path : Str) : Str := if EndsInImg path then path else path ++ installImg

/-- An image in a directory; without a slash there is no directory. -/
def IsSplit (image directory name : Str) : Prop :=
  (image = directory ++ slash :: name ∧ slash ∉ name) ∨
    (slash ∉ image ∧ directory = [] ∧ name = image)

/-- It ends in `.img` and has another one in front. -/
def HasInnerImg (path : Str) : Prop :=
  ∃ front, path = front ++ ascii ".img" ∧ ascii ".img" <:+: front

/-! The code. `none` stands for the use of a NULL pointer. -/

/-- `loadUrlImages`: where `updates.img` and `product.img` are looked for. Without a slash nothing
is loaded at all. -/
def urlDirectory (path : Str) : Option Str := (strrchr slash path).map Prod.fst

/-- What `NFS_STAGE_NFS` passes on. -/
structure NfsImage where
  host : Option Str
  directory : Option Str
  ld : LoaderData

/-- Its branch that asks the user, with the second pass it makes for a repository. -/
def nfsSetup (host directory : Str) (ld : LoaderData) : Option NfsImage :=
  if namesImage directory then
    some ⟨some host, some directory, { ld with invalidRepoParam := true }⟩
  else
    (setStage2LocFromCmdline (nfsUrl host directory ++ installImg)
      { ld with instRepo := some (nfsUrl host directory) }).map (fun ld =>
        ⟨ld.stage2Data.bind (fun data => (nfsFields (none, none) data).1),
          ld.stage2Data.bind (fun data => (nfsFields (none, none) data).2), ld⟩)

/-- `NFS_STAGE_MOUNT`: what is mounted, and the image in it. -/
def nfsPaths (host directory : Str) : Option (Str × Str) :=
  (strrchr slash directory).map (fun r =>
    (host ++ [colon] ++ r.1, ascii "/mnt/stage2/" ++ slash :: r.2))

/-- The directory of the partition dialog in `mountHardDrive`. -/
def hdDirectory (dir : Str) : Str := if namesImage dir then dir else dir ++ installImg

/-- `dirspec` and `path` of `setupIsoImages`. -/
def isoPaths (dirName : Str) : Option (Str × Str) :=
  (strrchr slash dirName).map (fun r =>
    (ascii "/mnt/isodir" ++ r.1, ascii "/mnt/isodir" ++ dirName))

/-- The places, each with its location. `convertURLToUI` makes every path begin with a slash,
`setKickstartUrl` refuses other urls, and `nfsGetSetup` asks until both texts are there. -/
inductive Place where
  | urlPanel (rest : Str)
  | kickstartUrl (url : Str)
      (accepted : ¬ (strstr (ascii "http://") url = none ∧ strstr (ascii "ftp://") url = none))
  | nfsPanel (host directory : Str) (host_ne_nil : host ≠ []) (directory_ne_nil : directory ≠ [])
  | kickstartNfs (host dir : Str) (opts : Option Str)
  | hardDrive (dir : Str)

namespace Place

def location : Place → Str
  | urlPanel rest => slash :: rest
  | kickstartUrl url _ => url
  | nfsPanel _ directory _ _ => directory
  | kickstartNfs _ dir _ => dir
  | hardDrive dir => dir

/-- Decision, image and split are those of the rule. -/
def BySuffix : Place → Prop
  | urlPanel rest => ∀ ui : Iurlinfo, ui.urlPrefix = some (slash :: rest) →
      fixPrefix ui = some (if EndsInImg (slash :: rest) then (ui, none)
        else ({ ui with urlPrefix := some (slash :: rest ++ installImg) }, some (slash :: rest))) ∧
      ∃ directory name, IsSplit (imagePath (slash :: rest)) directory name ∧
        urlDirectory (imagePath (slash :: rest)) = some directory
  | kickstartUrl url _ => ∀ ld, setKickstartUrl (some url) ld =
      if EndsInImg url then
        { ld with method := METHOD_URL, stage2Data := some (.url (some url)) }
      else { ld with method := METHOD_URL, instRepo := some url }
  | nfsPanel host directory _ _ => ∀ ld, ∃ ld',
      nfsSetup host directory ld = some ⟨some host, some (imagePath directory), ld'⟩ ∧
      ld'.instRepo =
        (if EndsInImg directory then ld.instRepo else some (nfsUrl host directory)) ∧
      ∃ mounted name, IsSplit (imagePath directory) mounted name ∧
        nfsPaths host (imagePath directory) =
          some (host ++ [colon] ++ mounted, ascii "/mnt/stage2/" ++ slash :: name)
  | kickstartNfs host dir opts => ∀ ld, (setKickstartNfs (some host) (some dir) opts ld =
      if EndsInImg dir then
        { ld with method := METHOD_NFS, stage2Data := some (.nfs (some host) (some dir) opts) }
      else { ld with method := METHOD_NFS, instRepo := some (nfsUrl host dir) }) ∧
      (EndsInImg dir → ∃ mounted name, IsSplit dir mounted name ∧ nfsPaths host dir =
        some (host ++ [colon] ++ mounted, ascii "/mnt/stage2/" ++ slash :: name))
  | hardDrive dir => hdDirectory dir = imagePath dir ∧
      ∃ directory name, IsSplit (imagePath dir) directory name ∧ isoPaths (imagePath dir) =
        some (ascii "/mnt/isodir" ++ directory, ascii "/mnt/isodir" ++ imagePath dir)

/-- Where an image is split, and where a repository goes through the syntax of `stage2=`. -/
def Splits : Place → Prop
  | urlPanel _ => True
  | kickstartUrl _ _ => True
  | nfsPanel host directory _ _ => (EndsInImg directory → slash ∈ directory) ∧
      (¬ EndsInImg directory → colon ∉ host ∧ colon ∉ directory)
  | kickstartNfs _ dir _ => EndsInImg dir → slash ∈ dir
  | hardDrive dir => EndsInImg dir → slash ∈ dir

end Place

section Rule
variable {path : Str}

theorem namesImage_iff : namesImage path = true ↔ EndsInImg path ∧ ¬ HasInnerImg path := by
  have hfirst : ∀ front, strstr (ascii ".img") (front ++ ascii ".img") = some (front, []) ↔
      ¬ ascii ".img" <:+: front := by
    intro front
    have hiff := strstr_append_iff (by decide : (0x2e : UInt8) ∉ ascii "img") front []
    rwa [List.append_nil] at hiff
  constructor
  · intro hnames
    rw [namesImage] at hnames
    split at hnames
    · rename_i front hfound
      have hbytes := strstr_eq_some hfound
      rw [List.append_nil] at hbytes
      refine ⟨⟨front, hbytes.symm⟩, ?_⟩
      rintro ⟨front', hpath, hinner⟩
      have hsame : front' = front := List.append_cancel_right (hpath.symm.trans hbytes)
      rw [hbytes] at hfound
      exact (hfirst front).mp hfound (hsame ▸ hinner)
    · cases hnames
  · rintro ⟨⟨front, rfl⟩, hinner⟩
    have hplain : ¬ ascii ".img" <:+: front := fun h => hinner ⟨front, rfl, h⟩
    rw [namesImage, (hfirst front).mpr hplain]

theorem endsInImg_of_inner (h : HasInnerImg path) : EndsInImg path := by
  obtain ⟨front, rfl, -⟩ := h
  exact List.suffix_append _ _

theorem namesImage_of_inner (h : HasInnerImg path) : namesImage path = false := by
  rw [Bool.eq_false_iff]
  exact fun hnames => (namesImage_iff.mp hnames).2 h

theorem namesImage_of_plain (h : ¬ HasInnerImg path) : namesImage path = decide (EndsInImg path) := by
  rw [Bool.eq_iff_iff, namesImage_iff, decide_eq_true_iff]
  exact and_iff_left h

theorem ite_of_plain {α : Type} {image repo : α} (h : ¬ HasInnerImg path) :
    (if namesImage path then image else repo) = (if EndsInImg path then image else repo) := by
  rw [namesImage_of_plain h]
  simp only [decide_eq_true_eq]

theorem namesImage_ite_iff {α : Type} {image repo : α} (hne : image ≠ repo) :
    (if namesImage path then image else repo) = (if EndsInImg path then image else repo) ↔
      ¬ HasInnerImg path := by
  refine ⟨fun heq hinner => hne ?_, ite_of_plain⟩
  rw [namesImage_of_inner hinner, if_neg Bool.false_ne_true,
    if_pos (endsInImg_of_inner hinner)] at heq
  exact heq.symm

theorem strrchr_split {directory name : Str} (h : strrchr slash path = some (directory, name)) :
    IsSplit path directory name := by
  rcases strrchr_cases slash path with ⟨hnone, -⟩ | ⟨l, r, hsome, heq, hr⟩
  · rw [hnone] at h
    cases h
  · rw [hsome, Option.some.injEq, Prod.mk.injEq] at h
    obtain ⟨rfl, rfl⟩ := h
    exact Or.inl ⟨heq, hr⟩

theorem strrchr_isSome_iff : (strrchr slash path).isSome = true ↔ slash ∈ path := by
  rcases strrchr_cases slash path with ⟨hnone, hnot⟩ | ⟨l, r, hsome, rfl, -⟩
  · rw [hnone]
    exact iff_of_false (by simp) hnot
  · rw [hsome]
    exact iff_of_true rfl (List.mem_append_right l List.mem_cons_self)

theorem slash_mem_imagePath : slash ∈ imagePath path ↔ (EndsInImg path → slash ∈ path) := by
  rw [imagePath]
  by_cases hends : EndsInImg path
  · rw [if_pos hends]
    exact ⟨fun h _ => h, fun h => h hends⟩
  · rw [if_neg hends]
    exact iff_of_true (List.mem_append_right path (by decide)) (fun h => absurd h hends)

end Rule

section Places
variable {path : Str}

/-- What is made of the two parts can be had if and only if there is a slash. -/
theorem split_iff {α : Type} (f : Str × Str → α) :
    (∃ directory name, IsSplit path directory name ∧
      (strrchr slash path).map f = some (f (directory, name))) ↔ slash ∈ path := by
  rw [← strrchr_isSome_iff]
  constructor
  · rintro ⟨directory, name, -, hmap⟩
    obtain ⟨r, hr, -⟩ := Option.map_eq_some_iff.mp hmap
    rw [hr]
    rfl
  · intro hsome
    obtain ⟨⟨directory, name⟩, hcut⟩ := Option.isSome_iff_exists.mp hsome
    refine ⟨directory, name, strrchr_split hcut, ?_⟩
    rw [hcut]
    rfl

theorem nfsPaths_iff (host path : Str) : (∃ mounted name, IsSplit path mounted name ∧
      nfsPaths host path =
        some (host ++ [colon] ++ mounted, ascii "/mnt/stage2/" ++ slash :: name)) ↔
    slash ∈ path :=
  split_iff (fun r => (host ++ [colon] ++ r.1, ascii "/mnt/stage2/" ++ slash :: r.2))

theorem isoPaths_iff (dirName : Str) : (∃ directory name, IsSplit dirName directory name ∧
      isoPaths dirName =
        some (ascii "/mnt/isodir" ++ directory, ascii "/mnt/isodir" ++ dirName)) ↔
    slash ∈ dirName :=
  split_iff (fun r => (ascii "/mnt/isodir" ++ r.1, ascii "/mnt/isodir" ++ dirName))

theorem fixPrefix_eq (ui : Iurlinfo) (h : ui.urlPrefix = some path) :
    fixPrefix ui = some (if namesImage path then (ui, none)
      else ({ ui with urlPrefix := some (path ++ installImg) }, some path)) := by
  rw [fixPrefix, h]
  rfl

theorem urlPanel_iff (rest : Str) :
    (Place.urlPanel rest).BySuffix ↔ ¬ HasInnerImg (slash :: rest) := by
  have hne : ∀ ui : Iurlinfo, (ui, (none : Option Str)) ≠
      ({ ui with urlPrefix := some (slash :: rest ++ installImg) }, some (slash :: rest)) := by
    intro ui heq
    cases (Prod.mk.inj heq).2
  constructor
  · intro hall
    have hsame := (hall { Iurlinfo.zero with urlPrefix := some (slash :: rest) } rfl).1
    rw [fixPrefix_eq _ rfl, Option.some.injEq] at hsame
    exact (namesImage_ite_iff (hne _)).mp hsame
  · intro hplain ui hui
    rw [fixPrefix_eq ui hui, (namesImage_ite_iff (hne ui)).mpr hplain]
    have hslash : slash ∈ imagePath (slash :: rest) :=
      slash_mem_imagePath.mpr (fun _ => List.mem_cons_self)
    exact ⟨rfl, (split_iff Prod.fst).mpr hslash⟩

theorem kickstartUrl_iff (url : Str)
    (accepted : ¬ (strstr (ascii "http://") url = none ∧ strstr (ascii "ftp://") url = none)) :
    (Place.kickstartUrl url accepted).BySuffix ↔ ¬ HasInnerImg url := by
  have hset : ∀ ld, setKickstartUrl (some url) ld = if namesImage url then
      { ld with method := METHOD_URL, stage2Data := some (.url (some url)) }
      else { ld with method := METHOD_URL, instRepo := some url } := by
    intro ld
    rw [setKickstartUrl, if_neg accepted]
  constructor
  · intro hall
    have hsame := hall .initial
    rw [hset] at hsame
    refine (namesImage_ite_iff ?_).mp hsame
    intro heq
    cases congrArg LoaderData.instRepo heq
  · intro hplain ld
    rw [hset]
    exact ite_of_plain hplain

theorem kickstartNfs_iff (host dir : Str) (opts : Option Str) :
    (Place.kickstartNfs host dir opts).BySuffix ↔
      ¬ HasInnerImg dir ∧ (EndsInImg dir → slash ∈ dir) := by
  constructor
  · intro hall
    obtain ⟨hsame, hsplit⟩ := hall .initial
    rw [setKickstartNfs] at hsame
    refine ⟨(namesImage_ite_iff ?_).mp hsame, fun hends => (nfsPaths_iff host dir).mp (hsplit hends)⟩
    intro heq
    cases congrArg LoaderData.instRepo heq
  · rintro ⟨hplain, hslash⟩ ld
    exact ⟨ite_of_plain hplain, fun hends => (nfsPaths_iff host dir).mpr (hslash hends)⟩

theorem hardDrive_iff (dir : Str) : (Place.hardDrive dir).BySuffix ↔
    ¬ HasInnerImg dir ∧ (EndsInImg dir → slash ∈ dir) := by
  have hne : dir ≠ dir ++ installImg := by
    intro heq
    have hlen := congrArg List.length heq
    rw [List.length_append] at hlen
    exact absurd hlen (by simp [installImg, ascii])
  rw [Place.BySuffix, isoPaths_iff, slash_mem_imagePath, hdDirectory, imagePath,
    namesImage_ite_iff hne]

end Places

section Nfs
variable {host directory : Str} {ld : LoaderData}

theorem nfsUrl_installImg (host directory : Str) : nfsUrl host directory ++ installImg =
    Scheme.nfs.name ++ colon :: (host ++ colon :: (directory ++ installImg)) := by
  simp [nfsUrl, Scheme.name, ascii]

theorem nfsSetup_repo (hrepo : namesImage directory = false) {image : NfsImage}
    (hsetup : nfsSetup host directory ld = some image) :
    ∃ token, strtok colon (host ++ colon :: (directory ++ installImg)) = some token ∧
      image.host = some token.1 ∧ image.directory = (strtok colon token.2).map Prod.fst ∧
      image.ld.instRepo = some (nfsUrl host directory) := by
  rw [nfsSetup, hrepo, if_neg Bool.false_ne_true, nfsUrl_installImg, setStage2_scheme,
    Option.map_map] at hsetup
  obtain ⟨token, htoken, rfl⟩ := Option.map_eq_some_iff.mp hsetup
  exact ⟨token, htoken, rfl, rfl, rfl⟩

theorem nfsSetup_plain (ld : LoaderData) (hrepo : namesImage directory = false) (hne : host ≠ [])
    (hhost : colon ∉ host) (hdirectory : colon ∉ directory) : ∃ ld',
    nfsSetup host directory ld = some ⟨some host, some (directory ++ installImg), ld'⟩ ∧
      ld'.instRepo = some (nfsUrl host directory) := by
  have hplain : colon ∉ directory ++ installImg := by
    rw [List.mem_append, not_or]
    exact ⟨hdirectory, by decide⟩
  have hparts : directory ++ installImg ≠ [] := by simp [installImg, ascii]
  have hstored := (setStage2_location_iff ⟨.nfs, host, directory ++ installImg, hhost, hplain⟩
    { ld with instRepo := some (nfsUrl host directory) }).mpr ⟨hne, hparts⟩
  refine ⟨{ ld with
    method := METHOD_NFS,
    stage2Data := some (.nfs (some host) (some (directory ++ installImg)) none),
    instRepo := some (nfsUrl host directory) }, ?_, rfl⟩
  rw [nfsSetup, hrepo, if_neg Bool.false_ne_true, nfsUrl_installImg]
  exact congrArg (Option.map _) hstored

/-- `mountNfsImage` gets to `NFS_STAGE_MOUNT` with this, after a second pass for a repository. -/
theorem mountNfsImage_setup (testing : Bool) {host' directory' : Str} {ld' : LoaderData}
    {a : NfsPass} (hpanel : ld.stage2Data = none) (ha : a.setup = some (host, directory))
    (hsetup : nfsSetup host directory ld = some ⟨some host', some directory', ld'⟩)
    (as : List NfsPass) : mountNfsImage testing .nfs ld (a :: as) =
      mountNfsImage testing (.mount host' directory') ld'
        (if namesImage directory then as else as.drop 1) := by
  obtain ⟨kbd, kbdSet, method, stage2Data, instRepo, inferred, invalid⟩ := ld
  dsimp only at hpanel
  subst hpanel
  rw [mountNfsImage]
  dsimp only
  rw [ha]
  dsimp only
  cases hnames : namesImage directory with
  | true =>
    rw [nfsSetup, hnames, if_pos rfl, Option.some.injEq, NfsImage.mk.injEq, Option.some.injEq,
      Option.some.injEq] at hsetup
    obtain ⟨rfl, rfl, rfl⟩ := hsetup
    rfl
  | false =>
    rw [nfsSetup, hnames, if_neg Bool.false_ne_true, nfsUrl_installImg] at hsetup
    obtain ⟨ld'', hstage2, himage⟩ := Option.map_eq_some_iff.mp hsetup
    rw [if_neg Bool.false_ne_true, if_neg Bool.false_ne_true, nfsUrl_installImg, hstage2]
    dsimp only
    rw [setStage2_scheme] at hstage2
    obtain ⟨token, -, rfl⟩ := Option.map_eq_some_iff.mp hstage2
    rw [NfsImage.mk.injEq] at himage
    obtain ⟨hhost, hdirectory, rfl⟩ := himage
    cases as with
    | nil => rfl
    | cons b bs =>
      have hfields : nfsFields b.junk (Scheme.nfs.data (some token.1)
          ((strtok colon token.2).map Prod.fst)) = (some host', some directory') :=
        Prod.ext hhost hdirectory
      rw [mountNfsImage]
      have hmethod : decide (Scheme.nfs.method = METHOD_NFS) = true := rfl
      dsimp only
      rw [hmethod]
      dsimp only
      rw [hfields]
      rfl

theorem nfsPanel_iff (host directory : Str) (hhost : host ≠ []) (hdirectory : directory ≠ []) :
    (Place.nfsPanel host directory hhost hdirectory).BySuffix ↔
      ¬ HasInnerImg directory ∧ (EndsInImg directory → slash ∈ directory) ∧
        (¬ EndsInImg directory → colon ∉ host ∧ colon ∉ directory) := by
  constructor
  · intro hall
    obtain ⟨ld', hsetup, hkept, hpaths⟩ := hall .initial
    have hslash := slash_mem_imagePath.mp ((nfsPaths_iff host _).mp hpaths)
    refine ⟨fun hinner => ?_, hslash, fun hrepo => ?_⟩
    · obtain ⟨-, -, -, -, hset⟩ := nfsSetup_repo (namesImage_of_inner hinner) hsetup
      rw [if_pos (endsInImg_of_inner hinner), hset] at hkept
      cases hkept
    · have hnames : namesImage directory = false := by
        rw [Bool.eq_false_iff]
        exact fun hnames => hrepo (namesImage_iff.mp hnames).1
      obtain ⟨token, htoken, htaken, hbehind, -⟩ := nfsSetup_repo hnames hsetup
      rw [imagePath, if_neg hrepo] at hbehind
      obtain ⟨second, hsecond, hfst⟩ := Option.map_eq_some_iff.mp hbehind.symm
      obtain ⟨-, hfirstPlain, -⟩ := strtok_infix htoken
      obtain ⟨-, hsecondPlain, -⟩ := strtok_infix hsecond
      rw [hfst, List.mem_append, not_or] at hsecondPlain
      rw [← Option.some.inj htaken] at hfirstPlain
      exact ⟨hfirstPlain, hsecondPlain.1⟩
  · rintro ⟨hplain, hslash, hcolon⟩ ld
    have hpaths := (nfsPaths_iff host _).mpr (slash_mem_imagePath.mpr hslash)
    by_cases hends : EndsInImg directory
    · have hnames : namesImage directory = true := namesImage_iff.mpr ⟨hends, hplain⟩
      refine ⟨{ ld with invalidRepoParam := true }, ?_, by rw [if_pos hends], hpaths⟩
      rw [nfsSetup, hnames, if_pos rfl, imagePath, if_pos hends]
    · have hnames : namesImage directory = false := by
        rw [namesImage_of_plain hplain, decide_eq_false hends]
      obtain ⟨hfree, hfree'⟩ := hcolon hends
      obtain ⟨ld', hsetup, hset⟩ := nfsSetup_plain ld hnames hhost hfree hfree'
      refine ⟨ld', ?_, by rw [if_neg hends, hset], hpaths⟩
      rw [hsetup, imagePath, if_neg hends]

end Nfs

/-- A place goes by the suffix if and only if its location has no `.img` in front of one at the
end and can be split. -/
theorem place_bySuffix_iff (place : Place) :
    place.BySuffix ↔ ¬ HasInnerImg place.location ∧ place.Splits := by
  cases place with
  | urlPanel rest => exact (urlPanel_iff rest).trans (and_iff_left trivial).symm
  | kickstartUrl url accepted =>
    exact (kickstartUrl_iff url accepted).trans (and_iff_left trivial).symm
  | nfsPanel host directory hhost hdirectory => exact nfsPanel_iff host directory hhost hdirectory
  | kickstartNfs host dir opts => exact kickstartNfs_iff host dir opts
  | hardDrive dir => exact hardDrive_iff dir

/-- `/srv/f13.img.d/install.img` is taken for a repository. -/
theorem innerImg_not_bySuffix : ¬ ∀ place : Place, place.BySuffix := by
  intro hall
  obtain ⟨hsame, -⟩ := hall (.hardDrive (ascii "/srv/f13.img.d/install.img"))
  have hcode : hdDirectory (ascii "/srv/f13.img.d/install.img") =
      ascii "/srv/f13.img.d/install.img/images/install.img" := by decide +kernel
  have hrule : imagePath (ascii "/srv/f13.img.d/install.img") =
      ascii "/srv/f13.img.d/install.img" := by decide +kernel
  rw [hcode, hrule] at hsame
  exact absurd hsame (by decide +kernel)

end Comodoo.ImageLocations
