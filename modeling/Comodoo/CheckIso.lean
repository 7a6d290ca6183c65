import Comodoo.DecimalText
import Comodoo.IsoImage

set_option autoImplicit false

/-!
# Checking the sums of an ISO image

`mediaCheckFile` of `isomd5sum/libcheckisomd5.c`. `matched` is not a variable of the program: it
lists the fragments whose sums have been found right, each with its sum.
-/
namespace Comodoo.CheckIso
open CString IsoImage ReadLoop

abbrev ISOMD5SUM_CHECK_PASSED : ℤ := 1
abbrev ISOMD5SUM_CHECK_FAILED : ℤ := 0
abbrev ISOMD5SUM_CHECK_ABORTED : ℤ := 2
abbrev ISOMD5SUM_CHECK_NOT_FOUND : ℤ := -1
abbrev ISOMD5SUM_FILE_NOT_FOUND : ℤ := -2

abbrev semicolon : UInt8 := 0x3b

/-- What has been found of the application data so far. -/
structure Fields where
  mediasum : Option Str
  skipsectors : Option ℤ
  supported : Option ℤ
  fragmentsums : Option Str
  fragmentcount : Option ℤ
  deriving DecidableEq, Repr

def Fields.complete (f : Fields) : Bool :=
  f.skipsectors.isSome && f.mediasum.isSome && f.fragmentsums.isSome && f.fragmentcount.isSome &&
    f.supported.isSome

def strtolRest (s : Str) : Str :=
  let digits := match s.dropWhile isspace with
    | 0x2d :: ds => ds
    | 0x2b :: ds => ds
    | ds => ds
  if digits.takeWhile HttpHeaders.isdigit = [] then s else digits.dropWhile HttpHeaders.isdigit

/-- One pass of the loop in `parsepvd`, from `buf2 + loc`; `none` when it returns -1. A `long` has
64 bits. -/
def parseField (f : Fields) (p : Str) : Option (Fields × Str) :=
  let loc := 512 - p.length
  let rest := fun n => (p.drop n).dropWhile (· ≠ semicolon)
  let number := fun n => cString ((p.drop n).takeWhile (· ≠ semicolon))
  if (ascii "ISO MD5SUM = ").isPrefixOf p then
    if loc + 32 + 13 > 511 then none
    else some ({ f with mediasum := some ((p.drop 13).take 32) }, rest 45)
  else if (ascii "SKIPSECTORS = ").isPrefixOf p then
    if loc + 14 > 511 then none
    else if strtolRest (number 14) ≠ [] then none
    else some ({ f with skipsectors := some (DecimalText.strtolInt 64 (number 14)) }, rest 14)
  else if (ascii "RHLISOSTATUS=1").isPrefixOf p then some ({ f with supported := some 1 }, rest 0)
  else if (ascii "RHLISOSTATUS=0").isPrefixOf p then some ({ f with supported := some 0 }, rest 0)
  else if (ascii "FRAGMENT SUMS = ").isPrefixOf p then
    if loc + FRAGMENT_SUM_LENGTH > 511 then none
    else some ({ f with fragmentsums := some ((p.drop 16).take FRAGMENT_SUM_LENGTH) },
      rest (FRAGMENT_SUM_LENGTH + 16))
  else if (ascii "FRAGMENT COUNT = ").isPrefixOf p then
    if loc + 17 > 511 then none
    else if strtolRest (number 17) ≠ [] then none
    else
      let count := max (-2 ^ 63) (min (2 ^ 63 - 1) (DecimalText.strtolValue (number 17)))
      some ({ f with fragmentcount := some count }, rest 17)
  else some (f, p.tail)

/-- `loc` grows in every pass, so that as many passes do as there are bytes. -/
def parseLoop : ℕ → Fields → Str → Option Fields
  | 0, f, _ => some f
  | passes + 1, f, p =>
    if p = [] then some f
    else match parseField f p with
      | none => none
      | some (f, p) => if f.complete then some f else parseLoop passes f p

def parseAppData (appdata : Str) : Option Fields :=
  let buf2 := appdata.take 511 ++ [0]
  parseLoop 512 ⟨none, none, none, none, none⟩ buf2

structure Descriptor where
  offset : ℤ
  isosize : ℤ
  mediasum : Str
  skipsectors : ℤ
  fragmentsums : Option Str
  fragmentcount : ℤ
  deriving DecidableEq, Repr

/-- What `parsepvd` does once a primary volume descriptor is in its buffer. -/
def readDescriptor (offset : ℕ) (buf : Str) : Option Descriptor := do
  -- the offset is returned in an `int`
  let pvd_offset := Int.bmod offset (2 ^ 32)
  guard (¬ pvd_offset < 0)
  let f ← parseAppData (readAt buf APPDATA_OFFSET 512)
  let mediasum ← f.mediasum
  let skipsectors ← f.skipsectors
  some ⟨pvd_offset, isosize buf, mediasum, skipsectors, f.fragmentsums, f.fragmentcount.getD 0⟩

/-- `none` when `parsepvd` returns -1. The buffer has room for 2048 bytes. -/
def parsepvd (image junk : Str) : Option Descriptor :=
  match searchPvd (fun _ _ => .notFound) image (16 * 2048) junk with
  | .found offset buf => readDescriptor offset buf
  | _ => none

/-- Where the check ends. The sectors are counted in an `int`. -/
def Descriptor.limit (d : Descriptor) : ℤ := d.isosize - Int.bmod (d.skipsectors * 2048) (2 ^ 32)

/-- `memset` with blanks. A length below zero wraps, and the program dies. -/
def blank (buf : Str) (start stop : ℤ) : Option Str :=
  if stop < start then none
  else some (writeAt buf start.toNat (List.replicate (stop - start).toNat 0x20))

/-- The part of the application data that is in the buffer is made blank. -/
def blankAppdata (apoff : ℤ) (offset : ℕ) (buf : Str) : Option Str :=
  let nread : ℤ := buf.length
  if offset < apoff ∧ offset + nread ≥ apoff then
    let start := apoff - offset
    blank buf start (min (start + min nread 512) (offset + nread - apoff))
  else if offset ≥ apoff ∧ offset + nread < apoff + 512 then blank buf 0 nread
  else if offset < apoff + 512 ∧ offset + nread ≥ apoff + 512 then blank buf 0 (apoff + 512 - offset)
  else some buf

/-- What ends the check early: a value that is returned, or an access outside of a buffer. -/
inductive Stop where
  | rc (rc : ℤ)
  | fault
  deriving DecidableEq, Repr

structure Check (γ : Type) where
  md5ctx : γ
  previous_fragment : ℤ
  thisfragsum : Str
  matched : List (ℤ × Str)

/-- `current_fragment`, an `int`. The product is a `long long`. -/
def currentFragment (limit fragmentcount : ℤ) (offset : ℕ) : ℤ :=
  Int.bmod ((Int.bmod (offset * (fragmentcount + 1)) (2 ^ 64)).tdiv limit) (2 ^ 32)

/-- How many digits of a sum are compared: no pass of the loop is made for a count below zero. -/
def sumDigits (fragmentcount : ℤ) : ℕ := ((FRAGMENT_SUM_LENGTH : ℤ).tdiv fragmentcount).toNat

/-- Where `j` begins. The product is an `int`. -/
def sumStart (fragmentcount current_fragment : ℤ) : ℤ :=
  (Int.bmod ((current_fragment - 1) * FRAGMENT_SUM_LENGTH) (2 ^ 32)).tdiv fragmentcount

/-- The sum of the current fragment is compared. The terminating NUL is written at `j`, not at
`i`. -/
def compareFragment {γ : Type} (md5 : Md5 γ) (fragmentsums : Str) (fragmentcount : ℤ)
    (current_fragment : ℤ) (c : Check γ) : Except Stop (Check γ) :=
  let count := sumDigits fragmentcount
  let j := sumStart fragmentcount current_fragment
  if 16 < count ∨ j < 0 ∨ FRAGMENT_SUM_LENGTH < j + count then .error .fault
  else
    let computedsum := fragmentText (md5.final c.md5ctx) count
    let copied := writeAt c.thisfragsum 0 (readAt fragmentsums j.toNat count)
    let thisfragsum := copied.set (j + count).toNat 0
    if cString thisfragsum ≠ computedsum then .error (.rc ISOMD5SUM_CHECK_FAILED)
    else .ok { c with
      previous_fragment := current_fragment
      thisfragsum := thisfragsum
      matched := c.matched ++ [(current_fragment, computedsum)] }

/-- The callback is `none` where it is NULL. -/
def reportProgress {γ : Type} (cb : Option (ℤ → ℤ → ℤ)) (offset total : ℤ) (c : Check γ) :
    Except Stop (Check γ) :=
  match cb with
  | none => .ok c
  | some cb => if cb offset total ≠ 0 then .error (.rc ISOMD5SUM_CHECK_ABORTED) else .ok c

def checkBuffer {γ : Type} (md5 : Md5 γ) (apoff limit : ℤ) (fragmentsums : Str)
    (fragmentcount : ℤ) (cb : Option (ℤ → ℤ → ℤ)) (offset : ℕ) (buf : Str) (c : Check γ) :
    Except Stop (Check γ) := do
  let some data := blankAppdata apoff offset buf | .error .fault
  let c := { c with md5ctx := md5.update c.md5ctx data }
  let current_fragment := currentFragment limit fragmentcount offset
  let c ← if fragmentcount ≠ 0 ∧ current_fragment ≠ c.previous_fragment then
      compareFragment md5 fragmentsums fragmentcount current_fragment c
    else .ok c
  reportProgress cb (offset + buf.length) limit c

/-- What the buffers on the stack hold before anything is written into them. -/
structure Stack where
  pvd : Str
  fragmentsums : Str
  thisfragsum : Str

inductive Report where
  | returned (rc : ℤ) (matched : List (ℤ × Str))
  | fault
  deriving DecidableEq, Repr

def checkmd5sum {γ : Type} (md5 : Md5 γ) (image : Str) (cb : Option (ℤ → ℤ → ℤ)) (stack : Stack) :
    Report :=
  match parsepvd image stack.pvd with
  | none => .returned ISOMD5SUM_CHECK_NOT_FOUND []
  | some d =>
    match readLoop bufsize image d.limit
        (checkBuffer md5 (d.offset + APPDATA_OFFSET) d.limit
          (d.fragmentsums.getD stack.fragmentsums) d.fragmentcount cb) 0
        ⟨md5.init, 0, stack.thisfragsum, []⟩ with
    | .error .fault => .fault
    | .error (.rc rc) => .returned rc []
    | .ok c =>
      if cString d.mediasum ≠ sumText (md5.final c.md5ctx) then
        .returned ISOMD5SUM_CHECK_FAILED c.matched
      else .returned ISOMD5SUM_CHECK_PASSED c.matched

/-- `file` is `none` when it cannot be opened. -/
def mediaCheckFile {γ : Type} (md5 : Md5 γ) (file : Option Str) (cb : Option (ℤ → ℤ → ℤ))
    (stack : Stack) : Report :=
  match file with
  | none => .returned ISOMD5SUM_FILE_NOT_FOUND []
  | some image =>
    match parsepvd image stack.pvd with
    | none => .returned ISOMD5SUM_CHECK_NOT_FOUND []
    | some _ => checkmd5sum md5 image cb stack

end Comodoo.CheckIso
