import Comodoo.CpioFormat
import Comodoo.ReadLoop

set_option autoImplicit false

/-!
# ISO images and their sums

What `isomd5sum/libimplantisomd5.c` and `libcheckisomd5.c` share. All reads and writes are
complete. MD5 is any hash that takes its input piece by piece.
-/
namespace Comodoo.IsoImage
open CString

abbrev APPDATA_OFFSET : ℕ := 883
abbrev SIZE_OFFSET : ℕ := 84
abbrev FRAGMENT_SUM_LENGTH : ℕ := 60
abbrev bufsize : ℕ := 32768

structure Md5 (γ : Type) where
  init : γ
  update : γ → Str → γ
  final : γ → Vector UInt8 16

/-- `lseek` and `read` of at most `n` bytes. -/
def readAt (image : Str) (offset n : ℕ) : Str := (image.drop offset).take n

/-- `lseek` and `write`. A gap behind the end is filled with zeros. -/
def writeAt (image : Str) (offset : ℕ) (data : Str) : Str :=
  image.take offset ++ List.replicate (offset - image.length) 0 ++ data ++
    image.drop (offset + data.length)

theorem writeAt_middle (pre : Str) {old new : Str} (post : Str) (h : new.length = old.length) :
    writeAt (pre ++ old ++ post) pre.length new = pre ++ new ++ post := by
  unfold writeAt
  simp [List.drop_append, h]

def fill (buf data : Str) : Str := data ++ buf.drop data.length

/-- `%02x`. -/
def hexByte (b : UInt8) : Str :=
  [CpioFormat.hexDigit (b.toNat / 16), CpioFormat.hexDigit (b.toNat % 16)]

/-- `%01x`, cut after one digit by `snprintf`. -/
def hexStart (b : UInt8) : UInt8 :=
  CpioFormat.hexDigit (if b.toNat < 16 then b.toNat else b.toNat / 16)

def sumText (digest : Vector UInt8 16) : Str := digest.toList.flatMap hexByte

def fragmentText (digest : Vector UInt8 16) (n : ℕ) : Str := (digest.toList.take n).map hexStart

/-- The number of sectors in a primary volume descriptor. -/
def volumeSpace (buf : Str) : ℕ :=
  (buf.getD SIZE_OFFSET 0).toNat * 0x1000000 + (buf.getD (SIZE_OFFSET + 1) 0).toNat * 0x10000 +
    (buf.getD (SIZE_OFFSET + 2) 0).toNat * 0x100 + (buf.getD (SIZE_OFFSET + 3) 0).toNat

/-- The sectors are computed in an `int`. -/
def isosize (buf : Str) : ℤ := Int.bmod (volumeSpace buf) (2 ^ 32) * 2048

inductive Search where
  | found (offset : ℕ) (buf : Str)
  | notFound
  | endless
  deriving DecidableEq, Repr

/-- The loop of both `parsepvd`, which differ in what happens at the end of the file. -/
def searchPvd (atEnd : ℕ → Str → Search) (image : Str) (offset : ℕ) (buf : Str) : Search :=
  if hend : image.length ≤ offset then atEnd offset buf
  else
    let buf := fill buf (readAt image offset 2048)
    if buf.head? = some 1 then .found offset buf
    else if buf.head? = some 255 then .notFound
    else searchPvd atEnd image (offset + 2048) buf
termination_by image.length - offset
decreasing_by omega

theorem searchPvd_eq (atEnd : ℕ → Str → Search) {image : Str} (buf : Str) {offset : ℕ}
    (h : image[offset]? = some 1) :
    searchPvd atEnd image offset buf = .found offset (fill buf (readAt image offset 2048)) := by
  obtain ⟨hlt, hbyte⟩ := List.getElem?_eq_some_iff.mp h
  have hhead : (fill buf (readAt image offset 2048)).head? = some 1 := by
    unfold fill readAt
    rw [List.drop_eq_getElem_cons hlt, List.take_succ_cons, hbyte]
    rfl
  rw [searchPvd, dif_neg (by omega)]
  dsimp only
  rw [if_pos hhead]

theorem length_sumText (digest : Vector UInt8 16) : (sumText digest).length = 32 := by
  unfold sumText
  rw [List.length_flatMap]
  simp [hexByte]

theorem length_fragmentText (digest : Vector UInt8 16) {n : ℕ} (hn : n ≤ 16) :
    (fragmentText digest n).length = n := by
  unfold fragmentText
  simp [hn]

theorem hexDigit_ne_zero {n : ℕ} (h : n < 16) : CpioFormat.hexDigit n ≠ 0 := by
  have hall : ∀ k < 16, CpioFormat.hexDigit k ≠ 0 := by decide
  exact hall n h

theorem zero_notMem_fragmentText (digest : Vector UInt8 16) (n : ℕ) :
    (0 : UInt8) ∉ fragmentText digest n := by
  intro h
  obtain ⟨b, _, hb⟩ := List.mem_map.mp h
  have hlt := UInt8.toNat_lt b
  refine hexDigit_ne_zero ?_ hb
  split
  · assumption
  · omega

theorem zero_notMem_sumText (digest : Vector UInt8 16) : (0 : UInt8) ∉ sumText digest := by
  intro h
  obtain ⟨b, _, hb⟩ := List.mem_flatMap.mp h
  have hlt := UInt8.toNat_lt b
  rcases List.mem_pair.mp hb with hb | hb
  · exact hexDigit_ne_zero (by omega) hb.symm
  · exact hexDigit_ne_zero (by omega) hb.symm

end Comodoo.IsoImage
