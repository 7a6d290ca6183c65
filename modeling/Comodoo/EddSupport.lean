import Comodoo.CpioRead
import Mathlib.Logic.Function.Basic
import Mathlib.Tactic.Common

set_option autoImplicit false

/-!
# Mapping BIOS disks

`isys/eddsupport.c`: the signatures of the disks are compared with what the BIOS says of its drives,
and a drive whose signature stands on one disk only is filed under its number. A variable that is
not initialised comes as a parameter. Names in the directory shorter than `int13_dev` are read
behind their end; here nothing is found there.
-/
namespace Comodoo.ChainedTable

/-! ## Chained hash tables

A table with `size` buckets. A new item goes to the front of its bucket, in front of an older one
with the same key.
-/

variable {κ ν : Type} {size : ℕ}

/-- The chain of each bucket, the newest item first. -/
structure Table (κ ν : Type) (size : ℕ) where
  bucket : Fin size → List (κ × ν)

def empty : Table κ ν size := ⟨fun _ => []⟩

variable (hash : κ → Fin size)

def insert (t : Table κ ν size) (item : κ × ν) : Table κ ν size :=
  ⟨Function.update t.bucket (hash item.1) (item :: t.bucket (hash item.1))⟩

def lookup [DecidableEq κ] (t : Table κ ν size) (key : κ) : Option ν :=
  ((t.bucket (hash key)).find? (fun item => item.1 = key)).map Prod.snd

variable [DecidableEq κ]

theorem lookup_empty (key : κ) : lookup hash (empty : Table κ ν size) key = none := rfl

theorem lookup_insert (t : Table κ ν size) (item : κ × ν) (key : κ) :
    lookup hash (insert hash t item) key = if item.1 = key then some item.2 else lookup hash t key := by
  unfold lookup insert
  dsimp only
  by_cases hkey : item.1 = key
  · rw [if_pos hkey, ← hkey, Function.update_self, List.find?_cons_of_pos (by simp)]
    rfl
  · rw [if_neg hkey]
    by_cases hbucket : hash key = hash item.1
    · rw [hbucket, Function.update_self, List.find?_cons_of_neg (by simpa using hkey)]
    · rw [Function.update_of_ne hbucket]

/-- After a row of insertions, the last item with the key is found. -/
theorem lookup_foldl (items : List (κ × ν)) (t : Table κ ν size) (key : κ) :
    lookup hash (items.foldl (insert hash) t) key =
      ((items.reverse.find? (fun item => item.1 = key)).map Prod.snd).or (lookup hash t key) := by
  induction items generalizing t with
  | nil => rfl
  | cons item items ih =>
    rw [List.foldl_cons, ih, lookup_insert, List.reverse_cons, List.find?_append]
    cases items.reverse.find? (fun item => item.1 = key) with
    | some found => rfl
    | none =>
      by_cases hkey : item.1 = key
      · simp [hkey]
      · simp [hkey]

end Comodoo.ChainedTable

namespace Comodoo.EddSupport
open CString CpioRead ChainedTable

abbrev HASH_TABLE_SIZE : ℕ := 17
abbrev ENOMEDIUM : ℤ := 123

/-- `%x` of `scanf`: the number read, if there is one. -/
def scanHex (s : Str) : Option ℤ :=
  let digits := fun (t : Str) (sign : ℤ) =>
    let t := skipHexMark t
    if t.takeWhile isxdigit = [] then none
    else some (sign * hexDigits (t.takeWhile isxdigit))
  match (s.takeWhile (· ≠ 0)).dropWhile isspace with
  | 0x2d :: t => digits t (-1)
  | 0x2b :: t => digits t 1
  | t => digits t 1

/-- What `%x` stores of a number in an `unsigned int`, an `unsigned long` having `longBits` bits. -/
def stored (longBits : ℕ) (z : ℤ) : UInt32 :=
  if 2 ^ longBits ≤ z.natAbs then 0xffffffff else UInt32.ofInt z

/-- How reading the four bytes at `MBRSIG_OFFSET` goes. -/
inductive DiskRead where
  | signature (sig : UInt32)
  | openFailed (errno : ℤ)
  | seekFailed
  | short (sig : UInt32)
  | readFailed
  deriving DecidableEq, Repr

structure Device where
  device : Option Str
  read : DiskRead
  deriving DecidableEq, Repr

/-- The return value, and `*disksig` afterwards. The -1 of a failed `read` is compared as an
unsigned number, so it passes for enough. -/
def readDiskSig (read : DiskRead) (disksig : UInt32) : ℤ × UInt32 :=
  match read with
  | .signature sig => (0, sig)
  | .openFailed errno => (-errno, disksig)
  | .seekFailed => (-1, disksig)
  | .short sig => (-1, sig)
  | .readFailed => (0, disksig)

/-- An entry of the directory, with the text of its `mbr_signature` file if it can be opened. -/
structure EddEntry where
  d_name : Str
  sigFile : Option Str
  deriving DecidableEq, Repr

/-- The return value 0 is `true`; then `*int_sig` is the number. -/
def readMbrSig (longBits : ℕ) (e : EddEntry) : Option UInt32 :=
  (e.sigFile.bind scanHex).map (stored longBits)

abbrev DiskTable := Table UInt32 Str HASH_TABLE_SIZE

/-- `key % tableSize`; both are unsigned there. -/
def hashIndex (key : UInt32) : Fin HASH_TABLE_SIZE := Fin.ofNat HASH_TABLE_SIZE key.toNat

/-- `insertHashItem` returns the index, which is never negative. -/
def addToHashTable (t : DiskTable) (itemKey : UInt32) (diskName : Str) : DiskTable :=
  insert hashIndex t (itemKey, diskName)

def lookupHashItem (t : DiskTable) (itemKey : UInt32) : Option Str := lookup hashIndex t itemKey

/-- The variables of the inner loop: `i`, `foundDisk` and `currentSig`. -/
structure Match where
  i : ℕ
  foundDisk : Option Device
  currentSig : UInt32
  deriving DecidableEq, Repr

/-- The inner loop. The second part is false when it gives up. -/
def matchDisks (mbrSig : UInt32) : List Device → Match → Match × Bool
  | [], m => (m, true)
  | d :: devices, m =>
    if ¬ m.i < 2 then (m, true)
    else if d.device = none then matchDisks mbrSig devices m
    else
      let r := readDiskSig d.read m.currentSig
      let m := { m with currentSig := r.2 }
      if r.1 < 0 then
        if r.1 = -ENOMEDIUM then matchDisks mbrSig devices m else (m, false)
      else if mbrSig = m.currentSig then
        matchDisks mbrSig devices { m with i := m.i + 1, foundDisk := some d }
      else matchDisks mbrSig devices m

/-- `mbrSigToName` and the variables that live through the outer loop. -/
structure Scan where
  table : DiskTable
  biosNum : UInt32
  currentSig : UInt32

abbrev dot : UInt8 := 0x2e

def mapEntry (longBits : ℕ) (devices : List Device) (s : Scan) (e : EddEntry) : Scan × Bool :=
  if e.d_name.head? = some dot then (s, true)
  else
    let s := { s with biosNum := (scanHex (e.d_name.drop 9)).elim s.biosNum (stored longBits) }
    match readMbrSig longBits e with
    | none => (s, true)
    | some mbrSig =>
      let (m, going) := matchDisks mbrSig devices ⟨0, none, s.currentSig⟩
      let s := { s with currentSig := m.currentSig }
      if ¬ going then (s, false)
      else if m.i = 1 then
        match m.foundDisk.bind Device.device with
        | some name => ({ s with table := addToHashTable s.table s.biosNum name }, true)
        | none => (s, true)
      else (s, true)

/-- The outer loop; what is in the table stays there when it gives up. -/
def mapEntries (longBits : ℕ) (devices : List Device) : List EddEntry → Scan → Scan
  | [], s => s
  | e :: entries, s =>
    match mapEntry longBits devices s e with
    | (s, true) => mapEntries longBits devices entries s
    | (s, false) => s

/-- What the machine is like: the disks, the EDD directory if there is one, and what is in the
variables that are not initialised. -/
structure Machine where
  longBits : ℕ
  devices : Option (List Device)
  listing : Option (List EddEntry)
  biosNum : UInt32
  currentSig : UInt32

structure Globals where
  mbrSigToName : Option DiskTable
  diskHashInit : Bool

def probeBiosDisks (mc : Machine) : Option DiskTable :=
  match mc.devices with
  | none => none
  | some devices => mc.listing.map (fun entries =>
      (mapEntries mc.longBits devices entries ⟨empty, mc.biosNum, mc.currentSig⟩).table)

/-- `junk` is what `biosNum` holds at the start of the call. -/
def getBiosDisk (mc : Machine) (g : Globals) (biosStr : Str) (junk : UInt32) :
    Option Str × Globals :=
  let g := if g.diskHashInit then g else ⟨probeBiosDisks mc, true⟩
  match g.mbrSigToName with
  | none => (none, g)
  | some t => (lookupHashItem t ((scanHex biosStr).elim junk (stored mc.longBits)), g)

end Comodoo.EddSupport
