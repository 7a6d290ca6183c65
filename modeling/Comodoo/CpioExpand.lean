import Comodoo.CpioRead

set_option autoImplicit false

/-!
# Creating one file

The helpers of `myCpioInstallArchive` in `isys/uncpio.c` that create a single file, directory,
link or device.
-/
namespace Comodoo.CpioExpand
open CString CpioSystem CpioRead

def S_IFMT (mode : ℕ) : ℕ := mode / 4096 % 16 * 4096

def S_ISREG (mode : ℕ) : Bool := S_IFMT mode = 0o100000
def S_ISDIR (mode : ℕ) : Bool := S_IFMT mode = 0o040000
def S_ISLNK (mode : ℕ) : Bool := S_IFMT mode = 0o120000
def S_ISFIFO (mode : ℕ) : Bool := S_IFMT mode = 0o010000
def S_ISCHR (mode : ℕ) : Bool := S_IFMT mode = 0o020000
def S_ISBLK (mode : ℕ) : Bool := S_IFMT mode = 0o060000
def S_ISSOCK (mode : ℕ) : Bool := S_IFMT mode = 0o140000

abbrev slash : UInt8 := 0x2f

variable {W : Type} (S : Sys W)

/-- `if (!lstat(path, &sb)) if (unlink(path)) ...`: true when nothing is in the way any more. -/
def clearPath (w : W) (path : Str) : Bool × W :=
  match S.lstat w path with
  | (none, w) => (true, w)
  | (some _, w) => S.unlink w path

def makeDirectory (w : W) (path : Str) (perms : ℕ) : Rc × W :=
  match S.mkdir w path 0 with
  | (false, w) => (.mkdirFailed, w)
  | (true, w) =>
    match S.chmod w path perms with
    | (false, w) => (.chmodFailed, w)
    | (true, w) => (.ok, w)

def replaceByDirectory (w : W) (path : Str) (perms : ℕ) : Rc × W :=
  match S.unlink w path with
  | (false, w) => (.unlinkFailed, w)
  | (true, w) => makeDirectory S w path perms

def createDirectory (w : W) (path : Str) (perms : ℕ) : Rc × W :=
  match S.lstat w path with
  | (none, w) => makeDirectory S w path perms
  | (some sb, w) =>
    if S_ISDIR sb.mode then (.ok, w)
    else if S_ISLNK sb.mode then
      match S.stat w path with
      | (.failed, w) => (.statFailed, w)
      | (.noEntry, w) => replaceByDirectory S w path perms
      | (.found sb, w) => if S_ISDIR sb.mode then (.ok, w) else replaceByDirectory S w path perms
    else replaceByDirectory S w path perms

def setInfo (w : W) (hdr : CpioHeader) : Rc × W :=
  if S_ISLNK hdr.mode then
    if S.getuid w = 0 then
      match S.lchown w hdr.path hdr.uid hdr.gid with
      | (false, w) => (.chownFailed, w)
      | (true, w) => (.ok, w)
    else (.ok, w)
  else
    match (if S.getuid w = 0 then S.chown w hdr.path hdr.uid hdr.gid else (true, w)) with
    | (false, w) => (.chownFailed, w)
    | (true, w) =>
      match S.chmod w hdr.path (hdr.mode % 4096) with
      | (false, w) => (.chmodFailed, w)
      | (true, w) =>
        match S.utime w hdr.path hdr.mtime with
        | (false, w) => (.utimeFailed, w)
        | (true, w) => (.ok, w)

/-- The directory part of a file name; a slash in the first place does not count. -/
def dirPart (filename : Str) : Option Str :=
  match strrchr slash filename with
  | some (dir, _) => if dir = [] then none else some dir
  | none => none

/-- The parts of a path that end before one of its slashes. -/
def slashPrefixes (front : Str) : Str → List Str
  | [] => []
  | b :: s =>
    if b = slash then front :: slashPrefixes (front ++ [b]) s else slashPrefixes (front ++ [b]) s

def pathDirs (dir : Str) : List Str := slashPrefixes (dir.take 1) (dir.drop 1) ++ [dir]

def createDirectories (w : W) : List Str → Rc × W
  | [] => (.ok, w)
  | dir :: dirs =>
    match createDirectory S w dir 0o755 with
    | (.ok, w) => createDirectories w dirs
    | (rc, w) => (rc, w)

/-- `lastDir` is the static variable; it is set before the directories are made. -/
def checkDirectory (w : W) (lastDir : Option Str) (filename : Str) : Rc × W × Option Str :=
  match dirPart filename with
  | none => (.ok, w, lastDir)
  | some dir =>
    if lastDir = some dir then (.ok, w, lastDir)
    else
      match createDirectories S w (pathDirs dir) with
      | (rc, w) => (rc, w, some dir)

/-- The copy loop of `expandRegular`; `written` collects what has been written in full. -/
def expandLoop (cb : Bool) (hdr : CpioHeader) (out : ℕ) :
    ℕ → Io W → ℕ → Str → Rc × Str × Io W
  | 0, io, _, written => (.ok, written, io)
  | fuel + 1, io, left, written =>
    if left = 0 then (.ok, written, io)
    else
      match ourread S io (min left 8192) with
      | (none, io) => (.readFailed, written, io)
      | (some buf, io) =>
        if buf = [] then (.readFailed, written, io)
        else
          match S.write io.w out buf with
          | (n, w) =>
            let io := { io with w := w }
            if n ≠ buf.length then (.copyFailed, written, io)
            else
              let left := left - buf.length
              let info : CallbackInfo := ⟨hdr.path, hdr.size, hdr.size - left, io.pos⟩
              let io := if cb = true ∧ left ≠ 0 then { io with calls := io.calls ++ [info] } else io
              expandLoop cb hdr out fuel io left (written ++ buf)

def expandRegular (cb : Bool) (io : Io W) (hdr : CpioHeader) : Rc × Str × Io W :=
  match clearPath S io.w hdr.path with
  | (false, w) => (.unlinkFailed, [], { io with w := w })
  | (true, w) =>
    match S.openFile w hdr.path with
    | (none, w) => (.openFailed, [], { io with w := w })
    | (some out, w) =>
      match expandLoop S cb hdr out hdr.size { io with w := w } hdr.size [] with
      | (rc, written, io) => (rc, written, { io with w := S.close io.w out })

def makeSymlink (w : W) (target path : Str) : Rc × W :=
  match S.symlink w target path with
  | (false, w) => (.symlinkFailed, w)
  | (true, w) => (.ok, w)

def replaceBySymlink (w : W) (target path : Str) : Rc × W :=
  match S.unlink w path with
  | (false, w) => (.unlinkFailed, w)
  | (true, w) => makeSymlink S w target path

/-- Everything of `expandSymlink` behind the `ourread`. -/
def placeSymlink (w : W) (target path : Str) : Rc × W :=
  match S.lstat w path with
  | (none, w) => makeSymlink S w target path
  | (some sb, w) =>
    if S_ISLNK sb.mode then
      match S.readlink w path 2047 with
      | (some old, w) =>
        if old.take 2047 ≠ [] ∧ target = (old.take 2047).takeWhile (· ≠ 0) then (.ok, w)
        else replaceBySymlink S w target path
      | (none, w) => replaceBySymlink S w target path
    else replaceBySymlink S w target path

/-- `none`: a size of `ULONG_MAX` passes the test and is read into a buffer of 2048 bytes. -/
def expandSymlink (io : Io W) (hdr : CpioHeader) : Option (Rc × Io W) :=
  if hdr.size + 1 = 2 ^ 64 then none
  else if 2048 < hdr.size + 1 then some (.internal, io)
  else
    match ourread S io hdr.size with
    | (none, io) => some (.readFailed, io)
    | (some buf, io) =>
      if buf.length ≠ hdr.size then some (.readFailed, io)
      else
        match placeSymlink S io.w (buf.takeWhile (· ≠ 0)) hdr.path with
        | (rc, w) => some (rc, { io with w := w })

def expandFifo (w : W) (hdr : CpioHeader) : Rc × W :=
  let make := fun w =>
    match S.mkfifo w hdr.path 0 with
    | (false, w) => (.mkfifoFailed, w)
    | (true, w) => (.ok, w)
  match S.lstat w hdr.path with
  | (none, w) => make w
  | (some sb, w) =>
    if S_ISFIFO sb.mode then (.ok, w)
    else
      match S.unlink w hdr.path with
      | (false, w) => (.unlinkFailed, w)
      | (true, w) => make w

def expandDevice (w : W) (hdr : CpioHeader) : Rc × W :=
  let make := fun w =>
    match S.mknod w hdr.path (hdr.mode / 512 * 512) hdr.rdev with
    | (false, w) => (.mknodFailed, w)
    | (true, w) => (.ok, w)
  match S.lstat w hdr.path with
  | (none, w) => make w
  | (some sb, w) =>
    if (S_ISCHR sb.mode = true ∨ S_ISBLK sb.mode = true) ∧ sb.rdev = hdr.rdev then (.ok, w)
    else
      match S.unlink w hdr.path with
      | (false, w) => (.unlinkFailed, w)
      | (true, w) => make w

end Comodoo.CpioExpand
