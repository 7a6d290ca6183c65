import Comodoo.LoaderSettings
import Comodoo.Urls

set_option autoImplicit false

/-!
# Mounting the second stage

The four `mountImage` functions of the install methods, as far as they read and write the
loader's settings. Each pass of their loops takes one answer of the user and the devices;
when the answers run out the call is still waiting.
-/
namespace Comodoo.LoaderMount
open CString LoaderSettings

inductive Mounted where
  | returned (url : Option Str) (ld : LoaderData)
  | waiting
  | fault
  deriving DecidableEq, Repr

/-- `if (loaderData->inferredStage2) loaderData->invalidRepoParam = 1`. -/
def doubtRepo (ld : LoaderData) : LoaderData :=
  { ld with invalidRepoParam := ld.invalidRepoParam || ld.inferredStage2 }

/-- The fields read as `struct nfsInstallData`; the memory of another structure holds `junk`. -/
def nfsFields (junk : Option Str × Option Str) : Stage2Data → Option Str × Option Str
  | .nfs host directory _ => (host, directory)
  | _ => junk

def urlField (junk : Option Str) : Stage2Data → Option Str
  | .url url => url
  | _ => junk

def hdFields (junk : Option Str × Option Str) : Stage2Data → Option Str × Option Str
  | .hd partition directory => (partition, directory)
  | _ => junk

inductive CdScan where
  | noDevices
  | found (device : Str)
  | back
  | retry
  deriving DecidableEq, Repr

def cdromUrl (device : Str) : Str := ascii "cdrom://" ++ device ++ ascii ":/mnt/stage2"

def mountCdromImage (ld : LoaderData) : List CdScan → Mounted
  | [] => .waiting
  | .noDevices :: _ => .returned none ld
  | .found device :: _ => .returned (some (cdromUrl device)) ld
  | .back :: _ => .returned none ld
  | .retry :: scans => mountCdromImage ld scans

/-- One pass of the partition dialog; `chosen` carries what `setupIsoImages` returned. -/
inductive HdDialog where
  | back
  | again
  | chosen (url : Option Str)
  deriving DecidableEq, Repr

def hdDialogs (ld : LoaderData) : List HdDialog → Mounted
  | [] => .waiting
  | .back :: _ => .returned none ld
  | .again :: ds => hdDialogs ld ds
  | .chosen (some url) :: _ => .returned (some url) { ld with invalidRepoParam := true }
  | .chosen none :: ds => hdDialogs { ld with invalidRepoParam := true } ds

/-- `images` is what `setupIsoImages` finds at the given place. -/
def mountHardDrive (junk : Option Str × Option Str) (images : Option Str) (ld : LoaderData)
    (ds : List HdDialog) : Mounted :=
  match ld.stage2Data with
  | some data =>
    if ld.method = METHOD_HD then
      match hdFields junk data, images with
      | (some _, some _), some url => .returned (some url) ld
      | _, _ => hdDialogs (doubtRepo { ld with method := -1 }) ds
    else hdDialogs ld ds
  | none => hdDialogs ld ds

inductive NfsStage where
  | nfs
  | mount (host directory : Str)
  deriving DecidableEq, Repr

/-- What one pass may ask for: `nfsGetSetup` (`none` is Back), `doPwMount`, `access` and
`mountStage2`. -/
structure NfsPass where
  junk : Option Str × Option Str
  setup : Option (Str × Str)
  mounted : Bool
  accessible : Bool
  stage2Mounted : Bool
  deriving DecidableEq, Repr

def nfsUrl (host directory : Str) : Str := ascii "nfs:" ++ host ++ [colon] ++ directory

def dropMethod (ld : LoaderData) : LoaderData :=
  { ld with method := if 0 ≤ ld.method then -1 else ld.method }

def mountNfsImage (testing : Bool) : NfsStage → LoaderData → List NfsPass → Mounted
  | _, _, [] => .waiting
  | .nfs, ld, a :: as =>
    match ld.stage2Data, decide (ld.method = METHOD_NFS) with
    | some data, true =>
      match nfsFields a.junk data with
      | (some host, some directory) => mountNfsImage testing (.mount host directory) ld as
      | _ => mountNfsImage testing .nfs (doubtRepo { ld with method := -1 }) as
    | _, _ =>
      match a.setup with
      | none => .returned none ld
      | some (host, directory) =>
        if namesImage directory then
          mountNfsImage testing (.mount host directory) { ld with invalidRepoParam := true } as
        else
          match setStage2LocFromCmdline (nfsUrl host directory ++ ascii "/images/install.img")
            { ld with instRepo := some (nfsUrl host directory) } with
          | none => .fault
          | some ld => mountNfsImage testing .nfs ld as
  | .mount host directory, ld, a :: as =>
    if testing then .returned none ld
    else if a.mounted then
      if a.accessible then
        if a.stage2Mounted then .returned (some (nfsUrl host directory)) ld
        else mountNfsImage testing .nfs ld as
      else mountNfsImage testing .nfs (doubtRepo (dropMethod ld)) as
    else mountNfsImage testing .nfs (doubtRepo (dropMethod ld)) as

/-- What one pass may ask for: `urlMainSetupPanel` (`none` is Back) and `loadUrlImages`. -/
structure UrlPass where
  junk : Option Str
  panel : Option Urls.Iurlinfo
  loadFails : Bool
  deriving DecidableEq, Repr

/-- The path typed in, completed to an image. -/
def fixPrefix (ui : Urls.Iurlinfo) : Option (Urls.Iurlinfo × Option Str) :=
  ui.urlPrefix.map (fun path =>
    if namesImage path then (ui, none)
    else ({ ui with urlPrefix := some (path ++ ascii "/images/install.img") }, some path))

/-- `URL_STAGE_FETCH` and the end of the function. -/
def fetchUrl (testing : Bool) (ui : Urls.Iurlinfo) (a : UrlPass) (ld : LoaderData)
    (again : LoaderData → Mounted) : Mounted :=
  if a.loadFails ∧ testing = false then again (doubtRepo (dropMethod ld))
  else
    match Urls.convertUIToURL ui with
    | some url => .returned (some url) ld
    | none => .fault

def mountUrlImage (testing : Bool) : LoaderData → List UrlPass → Mounted
  | _, [] => .waiting
  | ld, a :: as =>
    match ld.stage2Data, decide (ld.method = METHOD_URL) with
    | some data, true =>
      match urlField a.junk data with
      | none => mountUrlImage testing (doubtRepo { ld with method := -1, stage2Data := none }) as
      | some url =>
        match Urls.convertURLToUI url with
        | .crash => .fault
        | .done _ ui _ => fetchUrl testing ui a ld (fun ld => mountUrlImage testing ld as)
    | _, _ =>
      match a.panel.map fixPrefix with
      | none => .returned none ld
      | some none => .fault
      | some (some (ui, repo)) =>
        fetchUrl testing ui a
          { ld with instRepo := repo.or ld.instRepo, invalidRepoParam := true }
          (fun ld => mountUrlImage testing ld as)

end Comodoo.LoaderMount
