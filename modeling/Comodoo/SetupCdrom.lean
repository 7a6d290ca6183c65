import Comodoo.CString

set_option autoImplicit false

/-!
# Looking for the second stage on a CD

`setupCdrom` and `queryCDMediaCheck` of `stage-1/cdinstall.c`, with `mountStage2` of `method.c`.
A `Round` holds what the calls made in one pass over the drives return; an unmount takes the
topmost file system away. `ramImage` is not a variable of the program: it says which drive
`/tmp/install.img` was last written from, and whether the whole image was written.
-/
namespace Comodoo.SetupCdrom
open CString

structure Mode where
  interactive : Bool
  mediaCheck : Bool
  kickstart : Bool
  flMediaCheck : Bool
  rescue : Bool
  text : Bool
  totalMemory : ℤ
  deriving DecidableEq, Repr

inductive DriveStatus where
  | noInfo
  | noDisc
  | trayOpen
  | other
  deriving DecidableEq, Repr

/-- How a call of `copyFile` ends, whose loop is in `CopyFile`: it gives 0 for a copy that ends with a
read error. -/
inductive Copy where
  | untouched
  | cut
  | whole
  deriving DecidableEq, Repr

/-- What is mounted on `/mnt/runtime`: the image on the file system that is on `location`, or
`/tmp/install.img`. -/
inductive Image where
  | disc (device : Option Str)
  | ram
  deriving DecidableEq, Repr

/-- One attempt to mount the disc again: does the mount succeed, and can the image be read? -/
structure Attempt where
  mounted : Bool
  readable : Bool
  deriving DecidableEq, Repr

/-- What the calls made for one drive return. `rc` is the answer to the offer of a media check. -/
structure Visit where
  opened : Bool
  status : DriveStatus
  mounted : Bool
  readable : Bool
  rc : ℤ
  attempts : List Attempt
  copied : Copy
  stage2Readable : Bool
  stage2Mounted : Bool
  deriving DecidableEq, Repr

/-- `rc` is the answer to "Disc Not Found". -/
structure Round where
  visit : ℕ → Visit
  rc : ℤ

/-- The file systems on `location` and the images on `/mnt/runtime`, the topmost first. -/
structure World where
  location : List Str
  runtime : List Image
  ramImage : Option (Option Str × Bool)
  deriving DecidableEq, Repr

def World.mount (w : World) (dev : Str) : World := { w with location := dev :: w.location }

def World.umount (w : World) : World := { w with location := w.location.tail }

/-- What a call that ends so leaves. -/
def World.copyFile (w : World) : Copy → World
  | .untouched => w
  | .cut => { w with ramImage := some (w.location.head?, false) }
  | .whole => { w with ramImage := some (w.location.head?, true) }

/-- The `do` loop after the media check; `none` while the user is still asked for the disc. -/
def remount (dev : Str) : List Attempt → World → Option World
  | [], _ => none
  | a :: attempts, w =>
    if ¬ a.mounted then remount dev attempts w
    else
      let w := w.mount dev
      if ¬ a.readable then remount dev attempts w.umount else some w

/-- `mediaCheckCdrom` mounts and unmounts on a place of its own. -/
def queryCDMediaCheck (m : Mode) (dev : Str) (v : Visit) (w : World) : Option World :=
  if m.kickstart ∧ ¬ m.flMediaCheck then some w
  else if ¬ m.rescue ∨ m.flMediaCheck then
    if v.rc ≠ 2 then remount dev v.attempts w.umount else some w
  else some w

def mountStage2 (v : Visit) : ℤ :=
  if ¬ v.stage2Readable then 1
  else if ¬ v.stage2Mounted then 1
  else 0

/-- In rescue mode the drive is freed, where there is memory enough. -/
def copiesToRam (m : Mode) : Bool := m.rescue && !m.text && decide (m.totalMemory > 128000)

/-- The name is kept with its new prefix, which it then has in the rounds that follow. -/
def devName (device : Str) : Str :=
  if (ascii "/dev/").isPrefixOf device then device else ascii "/dev/" ++ device

def url (dev location : Str) : Str := ascii "cdrom://" ++ dev ++ ascii ":" ++ location

structure State where
  world : World
  retbuf : Option Str
  deriving DecidableEq, Repr

/-- The disc has a second stage, and has been checked. -/
def useStage2 (m : Mode) (location dev : Str) (v : Visit) (w : World) (retbuf : Option Str) :
    State :=
  let stage2inram := copiesToRam m
  let w := if stage2inram then w.copyFile v.copied else w
  let stage2img := if stage2inram then Image.ram else .disc w.location.head?
  if mountStage2 v ≠ 0 then ⟨w.umount, retbuf⟩
  else
    let w := { w with runtime := stage2img :: w.runtime }
    let w := if m.rescue ∧ stage2inram then w.umount else w
    ⟨w, some (url dev location)⟩

def tryDevice (m : Mode) (location : Str) (device : Option Str) (v : Visit) (s : State) :
    Option State :=
  match device with
  | none => some s
  | some name =>
    let dev := devName name
    if ¬ v.opened then some s
    else if v.status = .noDisc then some s
    else if ¬ v.mounted then some s
    else
      let w := s.world.mount dev
      if ¬ v.readable then some { s with world := w.umount }
      else
        (if m.mediaCheck then queryCDMediaCheck m dev v w else some w).map fun w =>
          useStage2 m location dev v w s.retbuf

def scan (m : Mode) (location : Str) : List (Option Str × Visit) → State → Option State
  | [], s => some s
  | (device, v) :: visits, s => do
    let s ← tryDevice m location device v s
    scan m location visits s

/-- The drives of a round, each with its visit. -/
def visits (devices : List (Option Str)) (round : Round) : List (Option Str × Visit) :=
  devices.mapIdx fun i device => (device, round.visit i)

def rounds (m : Mode) (location : Str) (devices : List (Option Str)) :
    List Round → World → Option (Option Str × World)
  | [], _ => none
  | round :: rest, w => do
    let s ← scan m location (visits devices round) ⟨w, none⟩
    if s.retbuf ≠ none then some (s.retbuf, s.world)
    else if ¬ m.interactive then some (none, s.world)
    else if round.rc = 2 then some (none, s.world)
    else rounds m location devices rest s.world

/-- `getDevices` gives NULL when there is no drive. The value is `none` as long as `setupCdrom`
has not come back. -/
def setupCdrom (m : Mode) (location : Str) (devices : Option (List (Option Str)))
    (rs : List Round) (w : World) : Option (Option Str × World) :=
  match devices with
  | none => some (none, w)
  | some devices => rounds m location devices rs w

/-! ## What a run has to leave behind -/

/-- The image is the whole image of `dev`. -/
def Image.CompleteFrom (image : Image) (dev : Str) (w : World) : Prop :=
  match image with
  | .disc device => device = some dev
  | .ram => w.ramImage = some (some dev, true)

/-- Compared with what was mounted before. -/
def Correct (m : Mode) (location : Str) (before : World) (result : Option Str × World) : Prop :=
  match result.1 with
  | none => result.2.location = before.location ∧ result.2.runtime = before.runtime
  | some text => ∀ dev, text = url dev location →
    result.2.location = (if copiesToRam m then [] else [dev]) ++ before.location ∧
    ∃ image, result.2.runtime = image :: before.runtime ∧ image.CompleteFrom dev result.2

end Comodoo.SetupCdrom
