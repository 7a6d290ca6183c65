import Comodoo.CpioSystem

set_option autoImplicit false

/-!
# The header of a cpio entry

`getNextHeader` of `isys/uncpio.c`. A field is read with `strtoul` in base 16 and cut to an
`int`; blanks, a sign and a `0x` in front are accepted.
-/
namespace Comodoo.CpioRead
open CString CpioSystem

abbrev PHYS_HDR_SIZE : ℕ := 110

def CPIO_NEWC_MAGIC : Str := ascii "070701"
def CPIO_CRC_MAGIC : Str := ascii "070702"
def TRAILER : Str := ascii "TRAILER!!!"

def hexValue (b : UInt8) : Option ℕ :=
  if 0x30 ≤ b ∧ b ≤ 0x39 then some (b.toNat - 0x30)
  else if 0x41 ≤ b ∧ b ≤ 0x46 then some (b.toNat - 0x37)
  else if 0x61 ≤ b ∧ b ≤ 0x66 then some (b.toNat - 0x57)
  else none

def isxdigit (b : UInt8) : Bool := (hexValue b).isSome

def hexDigits (ds : Str) : ℕ := ds.foldl (fun n d => 16 * n + (hexValue d).getD 0) 0

/-- A `0x` that is followed by a digit is skipped. -/
def skipHexMark : Str → Str
  | 0x30 :: x :: d :: s =>
    if (x = 0x78 ∨ x = 0x58) ∧ isxdigit d = true then d :: s else 0x30 :: x :: d :: s
  | s => s

/-- `strtoul` in base 16: the value and the unread part. -/
def strtoul (s : Str) : ℤ × Str :=
  let digits := fun (t : Str) (sign : ℤ) =>
    let t := skipHexMark t
    if t.takeWhile isxdigit = [] then (0, s)
    else (sign * hexDigits (t.takeWhile isxdigit), t.dropWhile isxdigit)
  match s.dropWhile isspace with
  | 0x2d :: t => digits t (-1)
  | 0x2b :: t => digits t 1
  | t => digits t 1

/-- `strntoul` and the test of `GET_NUM_FIELD` behind it, which reads the end pointer into a buffer
that is already gone; the bytes are taken to be still there. -/
def strntoul (field : Str) : Option ℤ :=
  match strtoul (field.takeWhile (· ≠ 0)) with
  | (value, []) => some (Int.bmod value (2 ^ 32))
  | _ => none

def unsigned32 (n : ℤ) : ℕ := (n % 2 ^ 32).toNat
def unsigned64 (n : ℤ) : ℕ := (n % 2 ^ 64).toNat

/-- The bits of the four parts do not overlap, so the sum is the bitwise or of `<sys/sysmacros.h>`. -/
def makedev (major minor : ℤ) : ℕ :=
  let major := unsigned32 major
  let minor := unsigned32 minor
  major % 4096 * 2 ^ 8 + major / 4096 * 4096 * 2 ^ 32 + minor % 256 + minor / 256 * 256 * 2 ^ 12

structure CpioHeader where
  inode : ℕ
  mode : ℕ
  uid : ℕ
  gid : ℕ
  nlink : ℤ
  mtime : ℤ
  size : ℕ
  dev : ℕ
  rdev : ℕ
  path : Str
  deriving DecidableEq, Repr

/-- The `k`th of the thirteen fields of eight bytes behind the magic. -/
def field (phys : Str) (k : ℕ) : Str := (phys.drop (6 + 8 * k)).take 8

/-- All fields but the checksum; the second part is `nameSize`. -/
def parseFields (phys : Str) : Option (CpioHeader × ℤ) := do
  let inode ← strntoul (field phys 0)
  let mode ← strntoul (field phys 1)
  let uid ← strntoul (field phys 2)
  let gid ← strntoul (field phys 3)
  let nlink ← strntoul (field phys 4)
  let mtime ← strntoul (field phys 5)
  let size ← strntoul (field phys 6)
  let devMajor ← strntoul (field phys 7)
  let devMinor ← strntoul (field phys 8)
  let rdevMajor ← strntoul (field phys 9)
  let rdevMinor ← strntoul (field phys 10)
  let nameSize ← strntoul (field phys 11)
  return (⟨unsigned64 inode, unsigned32 mode, unsigned32 uid, unsigned32 gid, nlink, mtime,
    unsigned64 size, makedev devMajor devMinor, makedev rdevMajor rdevMinor, []⟩, nameSize)

inductive HeaderResult where
  | error (rc : Rc)
  | header (ch : CpioHeader) (phys : Str)
  | fault
  deriving DecidableEq, Repr

variable {W : Type} (S : Sys W)

/-- A negative size. The block has no byte or is not there at all, so nothing may be read into it;
`gzread` takes an unsigned number. For -1 a failed read goes unnoticed, and `path` is garbage. -/
def readNegative (io : Io W) (nameSize : ℤ) : HeaderResult × Io W :=
  match ourread S io (unsigned32 nameSize) with
  | (none, io) => if nameSize = -1 then (.fault, io) else (.error .badHeader, io)
  | (some [], io) => (.error .badHeader, io)
  | (some (_ :: _), io) => (.fault, io)

/-- The name behind the header, in a block of `nameSize + 1` bytes, which is an `int`. `path` is not
terminated, so a name without a NUL is read past its block. -/
def readName (io : Io W) (phys : Str) (ch : CpioHeader) (nameSize : ℤ) : HeaderResult × Io W :=
  if nameSize + 1 = 2 ^ 31 then (.fault, io)
  else if nameSize < 0 then readNegative S io nameSize
  else
    match ourread S io nameSize.toNat with
    | (some name, io) =>
      if name.length ≠ nameSize then (.error .badHeader, io)
      else if 0 ∈ name then
        (.header { ch with path := name.takeWhile (· ≠ 0) } phys, padinfd S io 4)
      else (.fault, io)
    | (none, io) => (.error .badHeader, io)

def getNextHeader (io : Io W) : HeaderResult × Io W :=
  match ourread S io PHYS_HDR_SIZE with
  | (some phys, io) =>
    if phys.length ≠ PHYS_HDR_SIZE then (.error .readFailed, io)
    else if phys.take 6 ≠ CPIO_CRC_MAGIC ∧ phys.take 6 ≠ CPIO_NEWC_MAGIC then (.error .badMagic, io)
    else
      match parseFields phys with
      | none => (.error .badHeader, io)
      | some (ch, nameSize) => readName S io phys ch nameSize
  | (none, io) => (.error .readFailed, io)

end Comodoo.CpioRead
