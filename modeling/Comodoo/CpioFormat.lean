import Comodoo.CpioRead
import Mathlib.Data.List.GetD
import Mathlib.Data.List.TakeWhile

set_option autoImplicit false

/-!
# The newc format

A well-formed entry is a header of thirteen hexadecimal fields, a name of the announced size,
padding, the data and padding again. `getNextHeader` at the first byte of an entry decodes its
header and stops at the first byte of its data.
-/
namespace Comodoo.CpioFormat
open CString CpioSystem CpioRead

/-- `name` is the announced number of bytes, with the terminating NUL in it. -/
structure Entry where
  crc : Bool
  fields : List Str
  name : Str
  namePad : Str
  data : Str
  dataPad : Str
  deriving DecidableEq, Repr

namespace Entry

def magic (e : Entry) : Str := if e.crc then CPIO_CRC_MAGIC else CPIO_NEWC_MAGIC

def physHeader (e : Entry) : Str := e.magic ++ e.fields.flatten

def encode (e : Entry) : Str := e.physHeader ++ e.name ++ e.namePad ++ e.data ++ e.dataPad

def fieldValue (e : Entry) (k : ℕ) : ℕ := hexDigits (e.fields.getD k [])

/-- A field as the `int` that `strntoul` makes of it. -/
def fieldInt (e : Entry) (k : ℕ) : ℤ := Int.bmod (e.fieldValue k) (2 ^ 32)

def path (e : Entry) : Str := e.name.takeWhile (· ≠ 0)

def header (e : Entry) : CpioHeader :=
  ⟨unsigned64 (e.fieldInt 0), unsigned32 (e.fieldInt 1), unsigned32 (e.fieldInt 2),
    unsigned32 (e.fieldInt 3), e.fieldInt 4, e.fieldInt 5, unsigned64 (e.fieldInt 6),
    makedev (e.fieldInt 7) (e.fieldInt 8), makedev (e.fieldInt 9) (e.fieldInt 10), e.path⟩

structure WellFormed (e : Entry) : Prop where
  fields_length : e.fields.length = 13
  fields_hex : ∀ f ∈ e.fields, f.length = 8 ∧ ∀ b ∈ f, isxdigit b = true
  name_size : e.fieldValue 11 = e.name.length
  name_short : e.name.length < 2 ^ 31
  name_nul : (0 : UInt8) ∈ e.name
  data_size : e.fieldValue 6 = e.data.length
  data_short : e.data.length < 2 ^ 31
  namePad_length : e.namePad.length = (4 - (PHYS_HDR_SIZE + e.name.length) % 4) % 4
  dataPad_length : e.dataPad.length = (4 - e.data.length % 4) % 4

theorem wellFormed_iff (e : Entry) : e.WellFormed ↔
    e.fields.length = 13 ∧ (∀ f ∈ e.fields, f.length = 8 ∧ f.all isxdigit = true) ∧
      e.fieldValue 11 = e.name.length ∧ e.name.length < 2 ^ 31 ∧ (0 : UInt8) ∈ e.name ∧
      e.fieldValue 6 = e.data.length ∧ e.data.length < 2 ^ 31 ∧
      e.namePad.length = (4 - (PHYS_HDR_SIZE + e.name.length) % 4) % 4 ∧
      e.dataPad.length = (4 - e.data.length % 4) % 4 := by
  simp only [List.all_eq_true]
  constructor
  · intro h
    exact ⟨h.fields_length, h.fields_hex, h.name_size, h.name_short, h.name_nul, h.data_size,
      h.data_short, h.namePad_length, h.dataPad_length⟩
  · rintro ⟨h1, h2, h3, h4, h5, h6, h7, h8, h9⟩
    exact ⟨h1, h2, h3, h4, h5, h6, h7, h8, h9⟩

instance (e : Entry) : Decidable e.WellFormed := decidable_of_iff' _ (wellFormed_iff e)

/-- The block for the name has one byte more than its size, and that is still an `int`. -/
def NameFits (e : Entry) : Prop := e.name.length + 1 < 2 ^ 31

instance (e : Entry) : Decidable e.NameFits :=
  inferInstanceAs (Decidable (e.name.length + 1 < 2 ^ 31))

end Entry

def encodeAll (es : List Entry) : Str := es.flatMap Entry.encode

/-- A well-formed archive: entries, then the trailer. -/
structure Archive where
  entries : List Entry
  trailer : Entry
  wellFormed : ∀ e ∈ entries, e.WellFormed
  trailerWellFormed : trailer.WellFormed
  isTrailer : trailer.path = TRAILER
  noTrailer : ∀ e ∈ entries, e.path ≠ TRAILER

def Archive.bytes (A : Archive) : Str := encodeAll A.entries ++ A.trailer.encode

def Archive.NamesFit (A : Archive) : Prop := (∀ e ∈ A.entries, e.NameFits) ∧ A.trailer.NameFits

instance (A : Archive) : Decidable A.NamesFit :=
  inferInstanceAs (Decidable ((∀ e ∈ A.entries, e.NameFits) ∧ A.trailer.NameFits))

def hexDigit (n : ℕ) : UInt8 := if n < 10 then 0x30 + n.toUInt8 else 0x57 + n.toUInt8

def hexField (n : ℕ) : Str :=
  [n / 16 ^ 7, n / 16 ^ 6, n / 16 ^ 5, n / 16 ^ 4, n / 16 ^ 3, n / 16 ^ 2, n / 16, n].map
    (fun k => hexDigit (k % 16))

/-- An entry as cpio writes it for a file of root. -/
def newcEntry (inode mode nlink : ℕ) (path data : Str) : Entry :=
  ⟨false, [inode, mode, 0, 0, nlink, 0, data.length, 0, 0, 0, 0, path.length + 1, 0].map hexField,
    path ++ [0], List.replicate ((4 - (PHYS_HDR_SIZE + path.length + 1) % 4) % 4) 0, data,
    List.replicate ((4 - data.length % 4) % 4) 0⟩

def trailerEntry : Entry := newcEntry 0 0 1 TRAILER []

theorem hexValue_hexDigit {n : ℕ} (h : n < 16) : hexValue (hexDigit n) = some n := by
  have hall : ∀ n < 16, hexValue (hexDigit n) = some n := by decide
  exact hall n h

theorem hexDigits_hexField {n : ℕ} (h : n < 2 ^ 32) : hexDigits (hexField n) = n := by
  have hdigit : ∀ k, hexValue (hexDigit (k % 16)) = some (k % 16) :=
    fun k => hexValue_hexDigit (Nat.mod_lt k (by decide))
  simp only [hexDigits, hexField, List.map_cons, List.map_nil, List.foldl_cons, List.foldl_nil,
    hdigit, Option.getD_some]
  omega

theorem hexField_hex (n : ℕ) : (hexField n).length = 8 ∧ ∀ b ∈ hexField n, isxdigit b = true := by
  refine ⟨rfl, fun b hb => ?_⟩
  obtain ⟨k, -, rfl⟩ := List.mem_map.mp hb
  rw [isxdigit, hexValue_hexDigit (Nat.mod_lt k (by decide))]
  rfl

theorem newcEntry_path {inode mode nlink : ℕ} {path data : Str} (hnul : (0 : UInt8) ∉ path) :
    (newcEntry inode mode nlink path data).path = path := by
  have hne : ∀ b ∈ path, decide (b ≠ 0) = true := by
    intro b hb
    rw [decide_eq_true_iff]
    rintro rfl
    exact hnul hb
  rw [Entry.path, newcEntry, List.takeWhile_append_of_pos hne]
  simp

theorem newcEntry_wellFormed (inode mode nlink : ℕ) {path data : Str}
    (hpath : path.length + 1 < 2 ^ 31) (hdata : data.length < 2 ^ 31) :
    (newcEntry inode mode nlink path data).WellFormed where
  fields_length := rfl
  fields_hex f hf := by
    obtain ⟨n, -, rfl⟩ := List.mem_map.mp hf
    exact hexField_hex n
  name_size := by
    have hfield : (newcEntry inode mode nlink path data).fieldValue 11 =
        hexDigits (hexField (path.length + 1)) := rfl
    rw [hfield, hexDigits_hexField (by omega), newcEntry, List.length_append]
    rfl
  name_short := by
    rw [newcEntry, List.length_append]
    exact hpath
  name_nul := List.mem_append_right path (List.mem_singleton_self 0)
  data_size := by
    have hfield : (newcEntry inode mode nlink path data).fieldValue 6 =
        hexDigits (hexField data.length) := rfl
    rw [hfield, hexDigits_hexField (by omega), newcEntry]
  data_short := hdata
  namePad_length := by
    rw [newcEntry, List.length_replicate, List.length_append]
    rfl
  dataPad_length := List.length_replicate

theorem trailerEntry_wellFormed : trailerEntry.WellFormed := by
  decide +kernel

theorem trailerEntry_path : trailerEntry.path = TRAILER := by
  decide

theorem trailerEntry_nameFits : trailerEntry.NameFits := by
  decide

theorem isxdigit_facts {b : UInt8} (h : isxdigit b = true) :
    b ≠ 0 ∧ isspace b = false ∧ b ≠ 0x2d ∧ b ≠ 0x2b ∧ b ≠ 0x78 ∧ b ≠ 0x58 := by
  have hne : ∀ c, isxdigit c = false → b ≠ c := by
    rintro c hc rfl
    rw [h] at hc
    cases hc
  refine ⟨hne _ (by decide), ?_, hne _ (by decide), hne _ (by decide), hne _ (by decide),
    hne _ (by decide)⟩
  -- all blanks lie below the digits
  have hlow : 0x30 ≤ b.toNat := by
    simp only [isxdigit, hexValue, UInt8.le_iff_toNat_le] at h
    split at h
    · rename_i hr
      exact hr.1
    · split at h
      · rename_i hr
        exact Nat.le_trans (by decide) hr.1
      · split at h
        · rename_i hr
          exact Nat.le_trans (by decide) hr.1
        · simp at h
  have hblank : b ≠ 0x20 := hne _ (by decide)
  simp only [isspace, UInt8.le_iff_toNat_le, decide_eq_false_iff_not, not_or, not_and]
  refine ⟨hblank, fun _ hle => ?_⟩
  have : (13 : UInt8).toNat = 13 := rfl
  omega

theorem skipHexMark_digits {f : Str} (h : ∀ b ∈ f, isxdigit b = true) : skipHexMark f = f := by
  unfold skipHexMark
  split
  · rename_i x d s
    have hx := isxdigit_facts (h x (by simp))
    rw [if_neg]
    rintro ⟨hx' | hx', -⟩
    · exact hx.2.2.2.2.1 hx'
    · exact hx.2.2.2.2.2 hx'
  · rfl

theorem strntoul_digits {f : Str} (hne : f ≠ []) (h : ∀ b ∈ f, isxdigit b = true) :
    strntoul f = some (Int.bmod (hexDigits f) (2 ^ 32)) := by
  have hnul : f.takeWhile (· ≠ 0) = f :=
    List.takeWhile_eq_self_iff.mpr (fun b hb => by simpa using (isxdigit_facts (h b hb)).1)
  obtain ⟨b, t, rfl⟩ := List.exists_cons_of_ne_nil hne
  have hb := isxdigit_facts (h b (by simp))
  have hspace : (b :: t).dropWhile isspace = b :: t := by
    rw [List.dropWhile_cons, if_neg (by simp [hb.2.1])]
  have hval : strtoul (b :: t) = ((hexDigits (b :: t) : ℤ), []) := by
    unfold strtoul
    rw [hspace]
    split
    · rename_i heq
      exact absurd (List.cons.inj heq).1 hb.2.2.1
    · rename_i heq
      exact absurd (List.cons.inj heq).1 hb.2.2.2.1
    · rename_i heq
      simp only [skipHexMark_digits h, List.takeWhile_eq_self_iff.mpr h,
        List.dropWhile_eq_nil_iff.mpr h]
      simp
  rw [strntoul, hnul, hval]

theorem flatten_field (fs : List Str) (h : ∀ f ∈ fs, f.length = 8) (k : ℕ) (hk : k < fs.length) :
    (fs.flatten.drop (8 * k)).take 8 = fs.getD k [] := by
  induction fs generalizing k with
  | nil => simp at hk
  | cons f fs ih =>
    have hf := h f (by simp)
    cases k with
    | zero => rw [Nat.mul_zero, List.drop_zero, List.flatten_cons, ← hf, List.take_left]; rfl
    | succ k =>
      have hstep := ih (fun x hx => h x (by simp [hx])) k (by simpa using hk)
      rw [List.flatten_cons, show 8 * (k + 1) = f.length + 8 * k by omega, ← List.drop_drop,
        List.drop_left, hstep]
      rfl

theorem Entry.magic_length (e : Entry) : e.magic.length = 6 := by
  rw [Entry.magic]
  split <;> rfl

theorem length_flatten_eight (fs : List Str) (h : ∀ f ∈ fs, f.length = 8) :
    fs.flatten.length = 8 * fs.length := by
  induction fs with
  | nil => rfl
  | cons f fs ih =>
    rw [List.flatten_cons, List.length_append, h f (by simp), ih (fun x hx => h x (by simp [hx])),
      List.length_cons]
    omega

theorem Entry.WellFormed.physHeader_length {e : Entry} (h : e.WellFormed) :
    e.physHeader.length = PHYS_HDR_SIZE := by
  rw [Entry.physHeader, List.length_append, e.magic_length,
    length_flatten_eight _ (fun f hf => (h.fields_hex f hf).1), h.fields_length]

theorem Entry.WellFormed.field_physHeader {e : Entry} (h : e.WellFormed) (k : ℕ) (hk : k < 13) :
    field e.physHeader k = e.fields.getD k [] := by
  rw [field, Entry.physHeader, ← e.magic_length, ← List.drop_drop, List.drop_left]
  exact flatten_field _ (fun f hf => (h.fields_hex f hf).1) k (by rw [h.fields_length]; exact hk)

theorem Entry.WellFormed.strntoul_field {e : Entry} (h : e.WellFormed) (k : ℕ) (hk : k < 13) :
    strntoul (field e.physHeader k) = some (e.fieldInt k) := by
  have hlt : k < e.fields.length := by rw [h.fields_length]; exact hk
  have hmem : e.fields.getD k [] ∈ e.fields := by
    rw [List.getD_eq_getElem _ _ hlt]
    exact List.getElem_mem hlt
  obtain ⟨hlen, hhex⟩ := h.fields_hex _ hmem
  rw [h.field_physHeader k hk, strntoul_digits (List.ne_nil_of_length_pos (by omega)) hhex]
  rfl

theorem Entry.WellFormed.parseFields_physHeader {e : Entry} (h : e.WellFormed) :
    parseFields e.physHeader = some ({ e.header with path := [] }, e.fieldInt 11) := by
  rw [parseFields]
  simp [h.strntoul_field, Entry.header]

theorem bmod_small {n : ℕ} (h : n < 2 ^ 31) : Int.bmod n (2 ^ 32) = n := by
  rw [Int.bmod_def]
  omega

theorem unsigned64_natCast {n : ℕ} (h : n < 2 ^ 64) : unsigned64 n = n := by
  rw [unsigned64]
  omega

theorem Entry.WellFormed.nameSize {e : Entry} (h : e.WellFormed) :
    e.fieldInt 11 = e.name.length := by
  have hsmall := bmod_small h.name_short
  rw [← h.name_size] at hsmall ⊢
  exact hsmall

theorem Entry.WellFormed.header_size {e : Entry} (h : e.WellFormed) :
    e.header.size = e.data.length := by
  have hsmall := bmod_small h.data_short
  have hshort := h.data_short
  rw [← h.data_size] at hsmall hshort ⊢
  have hint : e.fieldInt 6 = e.fieldValue 6 := hsmall
  have hsize : e.header.size = unsigned64 (e.fieldInt 6) := by rw [Entry.header]
  rw [hsize, hint, unsigned64_natCast (by omega)]

theorem encodeAll_cons (e : Entry) (es : List Entry) :
    encodeAll (e :: es) = e.encode ++ encodeAll es := rfl

/-- The data of an entry start at a multiple of 4, and so does the next entry. -/
theorem Entry.WellFormed.aligned {e : Entry} (h : e.WellFormed) :
    (PHYS_HDR_SIZE + e.name.length + e.namePad.length) % 4 = 0 ∧ e.encode.length % 4 = 0 := by
  have hn := h.namePad_length
  have hd := h.dataPad_length
  simp only [Entry.encode, List.length_append, h.physHeader_length]
  omega

theorem encodeAll_aligned {es : List Entry} (h : ∀ e ∈ es, e.WellFormed) :
    (encodeAll es).length % 4 = 0 := by
  induction es with
  | nil => rfl
  | cons e es ih =>
    have he := (h e (by simp)).aligned.2
    have hes := ih (fun x hx => h x (by simp [hx]))
    rw [encodeAll_cons, List.length_append]
    omega

end Comodoo.CpioFormat
