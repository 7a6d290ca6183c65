import Comodoo.BinarySearch
import Comodoo.CString

set_option autoImplicit false

/-!
# Looking a translation up

`loadLanguage` and `translateString` of `stage-1/lang.c`. Whether `char` is signed is up to the
compiler; on the PC it is. An `int` is kept as the 32 bits it has in the machine.
-/
namespace Comodoo.Translations
open CString

/-- A `char`, converted to `unsigned int`. -/
def charValue (charSigned : Bool) (c : UInt8) : UInt32 :=
  if charSigned then c.toInt8.toInt32.toUInt32 else c.toUInt32

structure Sums where
  sum : UInt32
  xor : UInt32
  len : UInt32
  deriving DecidableEq, Repr

def Sums.add (charSigned : Bool) (s : Sums) (c : UInt8) : Sums :=
  ⟨s.sum + charValue charSigned c, s.xor ^^^ charValue charSigned c, s.len + 1⟩

/-- The `for` loop from `*chptr` on: it stops at the NUL byte. -/
def sumChars (charSigned : Bool) : Str → Sums → Sums
  | [], s => s
  | c :: str, s => if c = 0 then s else sumChars charSigned str (s.add charSigned c)

def Sums.key (s : Sums) : UInt32 :=
  (s.sum <<< 16) ||| ((s.xor &&& 0xFF) <<< 8) ||| (s.len &&& 0xFF)

/-- `key.hash` of `translateString`. -/
def keyHash (charSigned : Bool) (str : Str) : UInt32 :=
  (sumChars charSigned str ⟨0, 0, 0⟩).key

structure AString where
  hash : UInt32
  length : ℤ
  /-- Without the NUL behind it. -/
  str : Str
  deriving DecidableEq, Repr

def aStringCmp (first second : AString) : ℤ :=
  if first.hash < second.hash then -1
  else if first.hash = second.hash then 0
  else 1

def translateString (charSigned : Bool) (strings : List AString) (str : Str) : Str :=
  match BinarySearch.bsearch aStringCmp ⟨keyHash charSigned str, 0, []⟩ strings with
  | none => str
  | some m => cString m.str

/-! ## Loading -/

def ntohl (bytes : Str) : UInt32 :=
  UInt32.ofNat ((bytes.getD 0 0).toNat * 2 ^ 24 + (bytes.getD 1 0).toNat * 2 ^ 16 +
    (bytes.getD 2 0).toNat * 2 ^ 8 + (bytes.getD 3 0).toNat)

def ntohs (bytes : Str) : ℕ := (bytes.getD 0 0).toNat * 2 ^ 8 + (bytes.getD 1 0).toNat

/-- The `while` loop. The length is a `short`; with a negative one it writes outside of what it has
allocated. There is no result either when the file ends within a record, as the buffers then keep
bytes that nobody has set. The first argument is fuel. -/
def readStrings : ℕ → Str → Option (List AString)
  | 0, _ => some []
  | fuel + 1, data =>
    if (data.take 4).length = 4 then
      let hash := ntohl (data.take 4)
      let length := Int.bmod (ntohs ((data.drop 4).take 2)) (2 ^ 16)
      let text := (data.drop 6).take length.toNat
      if data.length < 6 ∨ length < 0 ∨ text.length < length.toNat then none
      else (readStrings fuel (data.drop (6 + length.toNat))).map (⟨hash, length, text⟩ :: ·)
    else some []

/-- `translation` is what can be unpacked to `/tmp/translation` of the members of the archive.
Strings from before are thrown away in any case. -/
def loadLanguage (translation : Str → Option Str) (key : Str) : Option (List AString) :=
  if key = ascii "en" then some []
  else
    match translation (key ++ ascii ".tr") with
    | none => some []
    | some data =>
      (readStrings data.length data).map fun strings =>
        strings.mergeSort fun a b => aStringCmp a b ≤ 0

end Comodoo.Translations
