import Comodoo.DecimalText
import Comodoo.IsoImage

set_option autoImplicit false

/-!
# Implanting the sums of an ISO image

`implantISOFile` of `isomd5sum/libimplantisomd5.c`. What it prints is left out.
-/
namespace Comodoo.ImplantIso
open CString IsoImage ReadLoop

abbrev FRAGMENT_COUNT : ℕ := 20
abbrev SKIPSECTORS : ℕ := 15

/-- What the buffers on the stack hold before anything is read into them. -/
structure Stack where
  pvd : Str
  origAppdata : Str

/-- At the end of the file `read` gives 0 and the buffer is looked at again. -/
def parsepvd (image junk : Str) : Search :=
  searchPvd (fun offset buf =>
    if buf.head? = some 1 then .found offset buf
    else if buf.head? = some 255 then .notFound
    else .endless) image (16 * 2048) junk

structure Sums (γ : Type) where
  md5ctx : γ
  previous_fragment : ℤ
  fragstr : Str

/-- One buffer of the loop over the image; `limit` is the size without the sectors at the end. -/
def sumBuffer {γ : Type} (md5 : Md5 γ) (limit : ℤ) (total : ℕ) (buf : Str) (s : Sums γ) :
    Except Empty (Sums γ) :=
  let md5ctx := md5.update s.md5ctx buf
  let current_fragment := (total * (FRAGMENT_COUNT + 1) : ℤ).tdiv limit
  if current_fragment ≠ s.previous_fragment then
    .ok ⟨md5ctx, current_fragment,
      s.fragstr ++ fragmentText (md5.final md5ctx) (FRAGMENT_SUM_LENGTH / FRAGMENT_COUNT)⟩
  else .ok { s with md5ctx := md5ctx }

def sums {γ : Type} (md5 : Md5 γ) (image : Str) (limit : ℤ) : Sums γ :=
  match readLoop bufsize image limit (sumBuffer md5 limit) 0 ⟨md5.init, 0, []⟩ with
  | .ok s => s
  | .error e => e.elim

/-- The data and the length written so far; `none` when the program exits. -/
def writeAppData (appdata : Str × ℕ) (valstr : Str) : Option (Str × ℕ) :=
  if appdata.2 + valstr.length > 511 then none
  else some (writeAt appdata.1 appdata.2 valstr, appdata.2 + valstr.length)

def newAppdata (md5str fragstr : Str) (supported : Bool) : Option Str := do
  let a ← writeAppData (List.replicate 512 0x20, 0) (ascii "ISO MD5SUM = ")
  let a ← writeAppData a md5str
  let a ← writeAppData a (ascii ";")
  let a ← writeAppData a (ascii "SKIPSECTORS = " ++ DecimalText.decimal SKIPSECTORS)
  let a ← writeAppData a (ascii ";")
  let a ← writeAppData a (if supported then ascii "RHLISOSTATUS=1" else ascii "RHLISOSTATUS=0")
  let a ← writeAppData a (ascii ";")
  let a ← writeAppData a (ascii "FRAGMENT SUMS = ")
  let a ← writeAppData a fragstr
  let a ← writeAppData a (ascii ";")
  let a ← writeAppData a (ascii "FRAGMENT COUNT = " ++ DecimalText.decimal FRAGMENT_COUNT)
  let a ← writeAppData a (ascii ";")
  let a ← writeAppData a (ascii "THIS IS NOT THE SAME AS RUNNING MD5SUM ON THIS ISO!!")
  pure a.1

inductive Result where
  | returned (rc : ℤ) (errstr : Option Str) (image : Str)
  | exited (image : Str)
  | endless
  deriving DecidableEq, Repr

/-- The sums are made of the image with blanks for its application data. -/
def implantSums {γ : Type} (md5 : Md5 γ) (image : Str) (pvd_offset : ℕ) (isosize : ℤ)
    (supported : Bool) : Result :=
  let s := sums md5 image (isosize - SKIPSECTORS * 2048)
  match newAppdata (sumText (md5.final s.md5ctx)) s.fragstr supported with
  | none => .exited image
  | some appdata => .returned 0 none (writeAt image (pvd_offset + APPDATA_OFFSET) appdata)

/-- `file` is `none` when it cannot be opened. -/
def implantISOFile {γ : Type} (md5 : Md5 γ) (file : Option Str) (supported forceit : Bool)
    (stack : Stack) : Result :=
  match file with
  | none => .returned (-1) (ascii "Error - Unable to open file %s\n\n") []
  | some image =>
    match parsepvd image stack.pvd with
    | .endless => .endless
    | .notFound => .returned (-1) (ascii "Could not find primary volumne!\n\n") image
    | .found offset buf =>
      -- the offset is returned in an `int`
      let pvd_offset := Int.bmod offset (2 ^ 32)
      if pvd_offset < 0 then .returned (-1) (ascii "Could not find primary volumne!\n\n") image
      else
        let start := pvd_offset.toNat + APPDATA_OFFSET
        if ¬ forceit then
          if ∃ b ∈ fill stack.origAppdata (readAt image start 512), b ≠ 0x20 then
            .returned (-1)
              (ascii "Application data has been used - not implanting md5sum!\n") image
          else implantSums md5 image pvd_offset.toNat (isosize buf) supported
        else
          implantSums md5 (writeAt image start (List.replicate 512 0x20)) pvd_offset.toNat
            (isosize buf) supported

end Comodoo.ImplantIso
