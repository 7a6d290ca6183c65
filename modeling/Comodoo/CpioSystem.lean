import Comodoo.CString

set_option autoImplicit false

/-!
# The system under the cpio code

`Sys W` is what `isys/uncpio.c` calls: the two gzip streams and the file system calls, over
any world `W`. Nothing is assumed of it here, so every call may fail at any point. A read
delivers at most what it was asked for.
-/
namespace Comodoo.CpioSystem
open CString

/-- Return codes; `ok` is 0. -/
inductive Rc where
  | ok
  | badMagic
  | badHeader
  | openFailed
  | chmodFailed
  | chownFailed
  | writeFailed
  | utimeFailed
  | unlinkFailed
  | symlinkFailed
  | statFailed
  | mkdirFailed
  | mknodFailed
  | mkfifoFailed
  | linkFailed
  | readFailed
  | copyFailed
  | internal
  deriving DecidableEq, Repr

abbrev CPIOERR_CHECK_ERRNO : ℕ := 0x80000000

def Rc.code : Rc → ℕ
  | .ok => 0
  | .badMagic => 2
  | .badHeader => 3
  | .openFailed => 4 + CPIOERR_CHECK_ERRNO
  | .chmodFailed => 5 + CPIOERR_CHECK_ERRNO
  | .chownFailed => 6 + CPIOERR_CHECK_ERRNO
  | .writeFailed => 7 + CPIOERR_CHECK_ERRNO
  | .utimeFailed => 8 + CPIOERR_CHECK_ERRNO
  | .unlinkFailed => 9 + CPIOERR_CHECK_ERRNO
  | .symlinkFailed => 11 + CPIOERR_CHECK_ERRNO
  | .statFailed => 12 + CPIOERR_CHECK_ERRNO
  | .mkdirFailed => 13 + CPIOERR_CHECK_ERRNO
  | .mknodFailed => 14 + CPIOERR_CHECK_ERRNO
  | .mkfifoFailed => 15 + CPIOERR_CHECK_ERRNO
  | .linkFailed => 16 + CPIOERR_CHECK_ERRNO
  | .readFailed => 18 + CPIOERR_CHECK_ERRNO
  | .copyFailed => 19 + CPIOERR_CHECK_ERRNO
  | .internal => 20

structure Stat where
  mode : ℕ
  rdev : ℕ
  deriving DecidableEq, Repr

inductive StatResult where
  | found (st : Stat)
  | noEntry
  | failed
  deriving DecidableEq, Repr

/-- The calls, as functions on the world. A `Bool` is true when the call succeeded. -/
structure Sys (W : Type) where
  gunzipRead : W → ℕ → Option Str × W
  gzipWrite : W → Str → ℤ × W
  lstat : W → Str → Option Stat × W
  stat : W → Str → StatResult × W
  unlink : W → Str → Bool × W
  mkdir : W → Str → ℕ → Bool × W
  chmod : W → Str → ℕ → Bool × W
  getuid : W → ℕ
  chown : W → Str → ℕ → ℕ → Bool × W
  lchown : W → Str → ℕ → ℕ → Bool × W
  utime : W → Str → ℤ → Bool × W
  openFile : W → Str → Option ℕ × W
  write : W → ℕ → Str → ℤ × W
  close : W → ℕ → W
  readlink : W → Str → ℕ → Option Str × W
  symlink : W → Str → Str → Bool × W
  mkfifo : W → Str → ℕ → Bool × W
  mknod : W → Str → ℕ → ℕ → Bool × W
  link : W → Str → Str → Bool × W

structure CallbackInfo where
  file : Str
  fileSize : ℕ
  fileComplete : ℕ
  bytesProcessed : ℤ
  deriving DecidableEq, Repr

/-- `struct ourfd` with the world behind it and the calls of `cb` so far. -/
structure Io (W : Type) where
  w : W
  pos : ℤ
  calls : List CallbackInfo

variable {W : Type} (S : Sys W)

/-- `none` is the return value -1, which also moves `pos` back. -/
def ourread (io : Io W) (size : ℕ) : Option Str × Io W :=
  match S.gunzipRead io.w size with
  | (none, w) => (none, { io with w := w, pos := io.pos - 1 })
  | (some got, w) =>
    (some (got.take size), { io with w := w, pos := io.pos + (got.take size).length })

def padAmount (pos : ℤ) (modulo : ℕ) : ℕ := ((modulo - pos % modulo) % modulo).toNat

def padinfd (io : Io W) (modulo : ℕ) : Io W := (ourread S io (padAmount io.pos modulo)).2

/-- `pos` is the counter behind `where`. -/
def padoutfd (w : W) (pos : ℤ) (modulo : ℕ) : Rc × W × ℤ :=
  let amount := padAmount pos modulo
  match S.gzipWrite w (List.replicate amount 0) with
  | (n, w) => (if n = amount then .ok else .writeFailed, w, pos + amount)

/-- The loop of `eatBytes`; each round takes at least one byte off `amount`. -/
def eatLoop : ℕ → Io W → ℕ → Rc × Io W
  | 0, io, _ => (.ok, io)
  | fuel + 1, io, amount =>
    if amount = 0 then (.ok, io)
    else
      let bite := min amount 4096
      match ourread S io bite with
      | (got, io) =>
        if got.map List.length = some bite then eatLoop fuel io (amount - bite)
        else (.readFailed, io)

def eatBytes (io : Io W) (amount : ℕ) : Rc × Io W := eatLoop S amount io amount

end Comodoo.CpioSystem
