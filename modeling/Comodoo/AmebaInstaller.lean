import Comodoo.CString
import Comodoo.LoggedSteps

set_option autoImplicit false

/-!
# The second stage of the installer

`AmebaInstaller` of `stage-2/anaconda`, with `DiskSet`, `BspImage` and `execWithPulseProgress`.
The windows are left out, but for the congratulations. What the external steps do comes as
`Outcomes`; the log has the steps in the order of the calls.
-/
namespace Comodoo.AmebaInstaller
open CString LoggedSteps

inductive Step where
  | driveList
  | partition (deviceFile : Option Str)
  | format (tool option devicePath : Str)
  | openBsp (bspfile : Str)
  | mkdir (path : Str)
  | mount (device location fstype : Str)
  | extract (filename outputdir : Str)
  | copy (src dst : Str)
  | write (file text : Str)
  | grubInstall
  | shell
  | congratulate
  deriving DecidableEq, Repr

structure Device where
  device : Option Str
  driveType : Str
  deriving DecidableEq, Repr

inductive WaitStatus where
  | exited (code : ℕ)
  | signalled
  deriving DecidableEq, Repr

/-- What `tarfile` does when it extracts a member. An error may be dropped inside `extract`. -/
inductive Extraction where
  | extracted
  | ignored
  | keyError
  | raised
  deriving DecidableEq, Repr

/-- What the external steps answer. A flag says that the step succeeds, and `none` that the call
raises an exception. -/
structure Outcomes where
  devices : List Device
  committed : Bool
  mkfsBoot : Option WaitStatus
  mkfsRoot : Option WaitStatus
  mkswap : Option WaitStatus
  archive : Option (List (Str × Extraction))
  mkdirDest : Bool
  mountRoot : Bool
  mkdirBoot : Bool
  mountBoot : Bool
  mkdirGrub : Bool
  copyStage1 : Bool
  copyStage2 : Bool
  writeMenu : Bool
  grubInstall : Option WaitStatus
  deriving DecidableEq, Repr

abbrev BSPFILE : Str := ascii "beetlepos-image-beetlepos.bsp"
abbrev INSTALLDEST : Str := ascii "/mnt/disk"
abbrev bootDest : Str := INSTALLDEST ++ ascii "/boot"

/-- The configuration `GRUB`, with the device of the root partition. -/
def GRUB (disk : Str) : Str :=
  ascii "\n# use the serial terminal for the console.  The --unit is specifying\n" ++
  ascii "# that it should use /dev/ttyS0.\n" ++
  ascii "# serial --unit=0 --speed=38400 --word=8 --parity=no --stop=1\n\n" ++
  ascii "# it's a dumb terminal.\n# terminal --dumb serial\n\n" ++
  ascii "#splashimage=(hd0,0)/grub/splash.xpm.gz\n\n" ++
  ascii "hiddenmenu\ndefault=0\ntimeout=5\n\n" ++
  ascii "title Comodoo Operating System by Comodoo.org\n        root (hd0,0)\n" ++
  ascii "        kernel /bzImage ro root=" ++ disk ++ ascii "3 agp=off\n"

abbrev ext3Tool : Str × Str := (ascii "mkfs.ext3", ascii "-v")
abbrev swapTool : Str × Str := (ascii "mkswap", ascii "-V1")

/-- `str.replace(old, '')`; `skip` bytes are still part of an occurrence. -/
def removeAll (old : Str) : ℕ → Str → Str
  | _, [] => []
  | skip + 1, _ :: s => removeAll old skip s
  | 0, b :: s =>
    if old ≠ [] ∧ old.isPrefixOf (b :: s) then removeAll old (old.length - 1) s
    else b :: removeAll old 0 s

/-- One device of the loop in `driveList`, with the last `device` seen and `self.deviceFile`. -/
def considerDevice (s : Option Str × Option Str) (dev : Device) : Option Str × Option Str :=
  match dev.device with
  | none => s
  | some path =>
    let device := removeAll (ascii "/dev/") 0 path
    if (ascii "sg").isPrefixOf device ∨ (ascii "md").isPrefixOf device ∨
        (ascii "sr").isPrefixOf device then (some device, s.2)
    else if dev.driveType = ascii "disk" then (some device, some path)
    else (some device, s.2)

/-- The warning about a missing disk names `device`, which is unbound when no device was seen. -/
def driveList (devices : List Device) : Logged Step (Option Str) := do
  let (device, deviceFile) := devices.foldl considerDevice (none, none)
  carryOut .driveList (deviceFile.isSome || device.isSome)
  pure deviceFile

/-- `parted.Device` raises without a path. -/
def createPartitionsV2 (deviceFile : Option Str) (committed : Bool) : Logged Step Unit :=
  carryOut (.partition deviceFile) (deviceFile.isSome && committed)

def runChild (command : Step) : Option WaitStatus → Logged Step WaitStatus
  | some status => do
    record command (status = .exited 0)
    pure status
  | none => do
    record command false
    throw ()

def execWithPulseProgress (command : Step) (o : Option WaitStatus) : Logged Step ℕ := do
  match ← runChild command o with
  | .exited code => pure code
  | .signalled => pure 1

/-- The exit status in `rc` is not looked at. -/
def formatDisk (devicePath : Str) (formattool : Str × Str) (o : Option WaitStatus) :
    Logged Step Unit := do
  let _rc ← execWithPulseProgress (.format formattool.1 formattool.2 devicePath) o

def prepareDisk (o : Outcomes) : Logged Step Str := do
  let targetdisk ← driveList o.devices
  createPartitionsV2 targetdisk o.committed
  -- `None + "1"` raises
  let some disk := targetdisk | throw ()
  formatDisk (disk ++ ascii "1") ext3Tool o.mkfsBoot
  formatDisk (disk ++ ascii "3") ext3Tool o.mkfsRoot
  formatDisk (disk ++ ascii "2") swapTool o.mkswap
  pure disk

/-- The names in the archive, each with what its extraction will do. -/
def loadBsp (archive : Option (List (Str × Extraction))) :
    Logged Step (List (Str × Extraction)) := do
  carryOut (.openBsp (ascii "/mnt/stage2/bsp/" ++ BSPFILE)) archive.isSome
  pure (archive.getD [])

def extractMember (member : Str × Extraction) : Logged Step Unit :=
  let step := Step.extract member.1 INSTALLDEST
  match member.2 with
  | .extracted => record step true
  | .ignored => record step false
  -- `except KeyError` prints a message
  | .keyError => record step false
  | .raised => carryOut step false

def transferFiles (o : Outcomes) (disk : Str) (members : List (Str × Extraction)) :
    Logged Step Unit := do
  carryOut (.mkdir INSTALLDEST) o.mkdirDest
  carryOut (.mount (disk ++ ascii "3") INSTALLDEST (ascii "ext3")) o.mountRoot
  carryOut (.mkdir bootDest) o.mkdirBoot
  carryOut (.mount (disk ++ ascii "1") bootDest (ascii "ext3")) o.mountBoot
  members.forM extractMember

def transferBSP (o : Outcomes) (disk : Str) : Logged Step Unit := do
  let members ← loadBsp o.archive
  transferFiles o disk members

def installGRUB (o : Outcomes) (disk : Str) : Logged Step Unit := do
  carryOut (.mkdir (bootDest ++ ascii "/grub/")) o.mkdirGrub
  carryOut (.copy (ascii "/usr/share/grub/stage1") (bootDest ++ ascii "/grub/stage1")) o.copyStage1
  carryOut (.copy (ascii "/usr/share/grub/stage2") (bootDest ++ ascii "/grub/stage2")) o.copyStage2
  carryOut (.write (bootDest ++ ascii "/grub/menu.lst") (GRUB disk)) o.writeMenu
  -- what `process.wait()` returns is not looked at
  tryCatch (do let _ ← runChild .grubInstall o.grubInstall) fun _ => record .shell true

def finalSteps : Logged Step Unit :=
  record .congratulate true

def amebaInstaller (o : Outcomes) : Logged Step Unit := do
  let targetdisk ← prepareDisk o
  transferBSP o targetdisk
  installGRUB o targetdisk
  finalSteps

def installationLog (o : Outcomes) : List (Event Step) :=
  ((amebaInstaller o).run.run []).2

end Comodoo.AmebaInstaller
