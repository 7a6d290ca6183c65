import Comodoo.CString
import Mathlib.Data.Nat.Size
import Mathlib.Tactic.Ring

set_option autoImplicit false

/-!
# The free space of a device

`doDevSpaceFree` of `isys/isys.c`, with `get_bits`.
-/
namespace Comodoo.DevSpaceFree
open CString

/-- Where one of the bits of `mask` is set, the word is shifted and the shift counted. -/
def narrow (mask : BitVec 64) (n : ℕ) (s : ℕ × BitVec 64) : ℕ × BitVec 64 :=
  if s.2 &&& mask ≠ 0 then (s.1 + n, s.2 >>> n) else s

def getBits (v : BitVec 64) : ℕ :=
  let s := narrow 0xffffffff00000000 32 (0, v)
  let s := narrow 0xffff0000 16 s
  let s := narrow 0xff00 8 s
  let s := narrow 0xf0 4 s
  let s := narrow 0xc 2 s
  let b := if s.2 &&& 0x2 ≠ 0 then s.1 + 1 else s.1
  if s.2 ≠ 0 then b + 1 else b

/-- The block size is a signed word, which the product and `get_bits` take as an unsigned one. -/
structure Statfs where
  f_bfree : BitVec 64
  f_bsize : BitVec 64

inductive Answer where
  | typeError
  | systemError
  | size (size : BitVec 64)
  deriving DecidableEq, Repr

/-- `path` is `none` when the arguments are not one string. -/
def doDevSpaceFree (statfs : Str → Option Statfs) (path : Option Str) : Answer :=
  match path with
  | none => .typeError
  | some path =>
    match statfs path with
    | none => .systemError
    | some sb =>
      let size : BitVec 64 :=
        if getBits sb.f_bfree + getBits sb.f_bsize ≤ 64 then sb.f_bfree * sb.f_bsize
        else BitVec.allOnes 64
      .size (size >>> 20)

section BitLength
variable {n x b : ℕ} {v : BitVec 64}

theorem and_mask_eq (hx : x < 2 ^ (2 * n)) :
    x &&& (2 ^ n - 1) * 2 ^ n = x / 2 ^ n * 2 ^ n := by
  have hhigh : x / 2 ^ n < 2 ^ n := by
    rw [Nat.div_lt_iff_lt_mul (Nat.two_pow_pos n), ← pow_add, ← two_mul]
    exact hx
  rw [← Nat.shiftLeft_eq, ← Nat.shiftLeft_eq, ← Nat.shiftRight_eq_div_pow]
  apply Nat.eq_of_testBit_eq
  intro i
  simp only [Nat.testBit_and, Nat.testBit_shiftLeft, Nat.testBit_two_pow_sub_one,
    Nat.testBit_shiftRight]
  by_cases hi : n ≤ i
  · have hsub : n + (i - n) = i := by omega
    by_cases hlow : i - n < n
    · simp [hi, hlow, hsub]
    · have hzero : x.testBit i = false :=
        Nat.testBit_lt_two_pow (hx.trans_le (Nat.pow_le_pow_right (by omega) (by omega)))
      simp [hsub, hzero]
  · simp [hi]

theorem size_shiftRight_add (hx : 2 ^ n ≤ x) : Nat.size (x >>> n) + n = Nat.size x := by
  have hpos : x >>> n ≠ 0 := by
    rw [Nat.shiftRight_eq_div_pow]
    exact (Nat.div_pos hx (Nat.two_pow_pos n)).ne'
  refine Nat.le_antisymm ?_ ?_
  · rw [← Nat.size_shiftLeft hpos]
    apply Nat.size_le_size
    rw [Nat.shiftLeft_eq, Nat.shiftRight_eq_div_pow]
    exact Nat.div_mul_le_self x (2 ^ n)
  · have hlt : x >>> n < 2 ^ Nat.size (x >>> n) := Nat.lt_size_self _
    rw [Nat.size_le, pow_add]
    rw [Nat.shiftRight_eq_div_pow] at hlt ⊢
    exact (Nat.div_lt_iff_lt_mul (Nat.two_pow_pos n)).mp hlt

/-- What a step keeps, and that it halves the room the word needs. -/
theorem narrow_spec (n : ℕ) (mask : BitVec 64) {s : ℕ × BitVec 64}
    (hmask : mask.toNat = (2 ^ n - 1) * 2 ^ n) (hs : s.2.toNat < 2 ^ (2 * n)) :
    (narrow mask n s).1 + Nat.size (narrow mask n s).2.toNat = s.1 + Nat.size s.2.toNat ∧
      (narrow mask n s).2.toNat < 2 ^ n := by
  have hand : (s.2 &&& mask).toNat = s.2.toNat / 2 ^ n * 2 ^ n := by
    rw [BitVec.toNat_and, hmask, and_mask_eq hs]
  have hpow : 0 < 2 ^ n := Nat.two_pow_pos n
  by_cases hbits : 2 ^ n ≤ s.2.toNat
  · have hne : s.2 &&& mask ≠ 0 := by
      intro h
      rw [h] at hand
      exact (Nat.mul_pos (Nat.div_pos hbits hpow) hpow).ne hand
    rw [narrow, if_pos hne]
    refine ⟨?_, ?_⟩
    · rw [BitVec.toNat_ushiftRight, Nat.add_assoc, Nat.add_comm n, size_shiftRight_add hbits]
    · rw [BitVec.toNat_ushiftRight, Nat.shiftRight_eq_div_pow, Nat.div_lt_iff_lt_mul hpow,
        ← pow_add, ← two_mul]
      exact hs
  · have heq : s.2 &&& mask = 0 := by
      apply BitVec.eq_of_toNat_eq
      rw [hand, Nat.div_eq_of_lt (Nat.lt_of_not_le hbits), Nat.zero_mul]
      rfl
    rw [narrow, if_neg (not_not.mpr heq)]
    exact ⟨rfl, Nat.lt_of_not_le hbits⟩

/-- The last two lines of `get_bits`, on a word of two bits. -/
theorem last_bits (hv : v.toNat < 4) :
    (if v ≠ 0 then (if v &&& 0x2 ≠ 0 then b + 1 else b) + 1
      else if v &&& 0x2 ≠ 0 then b + 1 else b) = b + Nat.size v.toNat := by
  have hword : v = BitVec.ofNat 64 v.toNat := by simp
  generalize v.toNat = k at hv hword
  subst hword
  match k with
  | 0 | 1 | 2 | 3 => rfl

theorem getBits_eq_size (v : BitVec 64) : getBits v = Nat.size v.toNat := by
  have hv : ((0, v) : ℕ × BitVec 64).2.toNat < 2 ^ (2 * 32) := v.isLt
  obtain ⟨h32, b32⟩ := narrow_spec 32 0xffffffff00000000 rfl hv
  obtain ⟨h16, b16⟩ := narrow_spec 16 0xffff0000 rfl b32
  obtain ⟨h8, b8⟩ := narrow_spec 8 0xff00 rfl b16
  obtain ⟨h4, b4⟩ := narrow_spec 4 0xf0 rfl b8
  obtain ⟨h2, b2⟩ := narrow_spec 2 0xc rfl b4
  rw [getBits, last_bits b2, h2, h4, h8, h16, h32, Nat.zero_add]

theorem mul_lt_of_size_le {f : ℕ} (hsize : Nat.size f + Nat.size x ≤ n) : f * x < 2 ^ n :=
  calc
    f * x < 2 ^ Nat.size f * 2 ^ Nat.size x :=
      Nat.mul_lt_mul'' (Nat.lt_size_self f) (Nat.lt_size_self x)
    _ = 2 ^ (Nat.size f + Nat.size x) := (pow_add 2 _ _).symm
    _ ≤ 2 ^ n := Nat.pow_le_pow_right (by omega) hsize

theorem le_mul_of_lt_size {f : ℕ} (hf : f < 2 ^ n) (hx : x < 2 ^ n)
    (hsize : n < Nat.size f + Nat.size x) : 2 ^ (n - 1) ≤ f * x := by
  have hfn : Nat.size f ≤ n := Nat.size_le.mpr hf
  have hxn : Nat.size x ≤ n := Nat.size_le.mpr hx
  have hfpow : 2 ^ (Nat.size f - 1) ≤ f := Nat.lt_size.mp (by omega)
  have hxpow : 2 ^ (Nat.size x - 1) ≤ x := Nat.lt_size.mp (by omega)
  calc
    2 ^ (n - 1) ≤ 2 ^ (Nat.size f - 1 + (Nat.size x - 1)) :=
      Nat.pow_le_pow_right (by omega) (by omega)
    _ = 2 ^ (Nat.size f - 1) * 2 ^ (Nat.size x - 1) := pow_add 2 _ _
    _ ≤ f * x := Nat.mul_le_mul hfpow hxpow

end BitLength

section Space
variable (f b : BitVec 64)

def freeBytes : BitVec 64 := if getBits f + getBits b ≤ 64 then f * b else BitVec.allOnes 64

theorem doDevSpaceFree_eq {statfs : Str → Option Statfs} {path : Str}
    (hstat : statfs path = some ⟨f, b⟩) :
    doDevSpaceFree statfs (some path) = .size (freeBytes f b >>> 20) := by
  rw [doDevSpaceFree, hstat]
  rfl

variable {f b}

theorem freeBytes_exact (hsum : getBits f + getBits b ≤ 64) :
    (freeBytes f b).toNat = f.toNat * b.toNat := by
  rw [freeBytes, if_pos hsum, BitVec.toNat_mul]
  rw [getBits_eq_size, getBits_eq_size] at hsum
  exact Nat.mod_eq_of_lt (mul_lt_of_size_le hsum)

theorem freeBytes_saturated (hsum : ¬ getBits f + getBits b ≤ 64) :
    (freeBytes f b).toNat = 2 ^ 64 - 1 := by
  rw [freeBytes, if_neg hsum, BitVec.toNat_allOnes]

theorem getBits_add_le (hprod : f.toNat * b.toNat < 2 ^ 63) : getBits f + getBits b ≤ 64 := by
  rw [getBits_eq_size, getBits_eq_size]
  by_contra hlong
  have hbig : 2 ^ (64 - 1) ≤ f.toNat * b.toNat :=
    le_mul_of_lt_size f.isLt b.isLt (by omega)
  omega

theorem min_le_freeBytes : min (f.toNat * b.toNat) (2 ^ 64 - 1) ≤ (freeBytes f b).toNat := by
  by_cases hsum : getBits f + getBits b ≤ 64
  · rw [freeBytes_exact hsum]
    exact min_le_left _ _
  · rw [freeBytes_saturated hsum]
    exact min_le_right _ _

/-- The megabytes of `f` blocks of `b` bytes, never fewer than there are. -/
structure SpaceRight (f b : BitVec 64) : Prop where
  bit_length : ∀ v : BitVec 64, getBits v = Nat.size v.toNat
  product : getBits f + getBits b ≤ 64 → (f * b).toNat = f.toNat * b.toNat
  exact_branch : f.toNat * b.toNat < 2 ^ 63 → getBits f + getBits b ≤ 64
  megabytes : ∀ statfs path, statfs path = some ⟨f, b⟩ →
    ∃ size, doDevSpaceFree statfs (some path) = .size size ∧
      (f.toNat * b.toNat < 2 ^ 63 → size.toNat = f.toNat * b.toNat / 2 ^ 20) ∧
      (¬ f.toNat * b.toNat < 2 ^ 63 →
        min (f.toNat * b.toNat) (2 ^ 64 - 1) / 2 ^ 20 ≤ size.toNat)

theorem devSpaceFree_right (f b : BitVec 64) : SpaceRight f b where
  bit_length := getBits_eq_size
  product := by
    intro hsum
    have hexact := freeBytes_exact hsum
    rwa [freeBytes, if_pos hsum] at hexact
  exact_branch := getBits_add_le
  megabytes := by
    intro statfs path hstat
    have hshift : (freeBytes f b >>> 20).toNat = (freeBytes f b).toNat / 2 ^ 20 := by
      rw [BitVec.toNat_ushiftRight, Nat.shiftRight_eq_div_pow]
    refine ⟨_, doDevSpaceFree_eq f b hstat, ?_, ?_⟩
    · intro hprod
      rw [hshift, freeBytes_exact (getBits_add_le hprod)]
    · intro _
      rw [hshift]
      exact Nat.div_le_div_right min_le_freeBytes

end Space
end Comodoo.DevSpaceFree
