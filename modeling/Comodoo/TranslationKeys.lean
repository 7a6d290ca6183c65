import Comodoo.SimpleMot
import Comodoo.Translations

set_option autoImplicit false

/-!
# One hash, computed twice

The key of `translateString` against the number `simplemot` packs. They read a byte from 128 on
differently: `char` is signed in C, `ord` is not in Perl, and each such byte takes 256 off the sum.
Only the low 16 bits of the sum go into the key, so 256 of these bytes cancel out.
-/
namespace Comodoo.TranslationKeys
open CString

variable {charSigned : Bool} {str : Str}

/-- The bytes that are negative as a signed `char`. -/
def highBytes (str : Str) : ℕ := str.countP (128 ≤ ·)

section Mix

theorem key_toNat (s : Translations.Sums) :
    s.key.toNat = s.sum.toNat % 2 ^ 16 * 2 ^ 16 + (s.xor.toNat % 256 * 256 + s.len.toNat % 256) := by
  have hlow : ∀ n : ℕ, n &&& 255 = n % 256 := fun n => Nat.and_two_pow_sub_one_eq_mod n 8
  have hlen : s.len.toNat % 256 < 2 ^ 8 := Nat.mod_lt _ (by decide)
  have hxor : s.xor.toNat % 256 < 2 ^ 8 := Nat.mod_lt _ (by decide)
  have hshift : (s.xor.toNat % 256) <<< 8 % 2 ^ 32 = (s.xor.toNat % 256) <<< 8 := by
    rw [Nat.shiftLeft_eq]
    omega
  have hsum : s.sum.toNat <<< 16 % 2 ^ 32 = (s.sum.toNat % 2 ^ 16) <<< 16 := by
    rw [Nat.shiftLeft_eq, Nat.shiftLeft_eq]
    omega
  unfold Translations.Sums.key
  rw [UInt32.toNat_or, UInt32.toNat_or, UInt32.toNat_shiftLeft, UInt32.toNat_shiftLeft,
    UInt32.toNat_and, UInt32.toNat_and]
  change s.sum.toNat <<< 16 % 2 ^ 32 ||| (s.xor.toNat &&& 255) <<< 8 % 2 ^ 32 |||
    s.len.toNat &&& 255 = _
  rw [hlow, hlow, hshift, hsum, Nat.or_assoc, ← Nat.shiftLeft_add_eq_or_of_lt hlen,
    ← Nat.shiftLeft_add_eq_or_of_lt (by rw [Nat.shiftLeft_eq]; omega), Nat.shiftLeft_eq,
    Nat.shiftLeft_eq]

/-- With the low bytes of the other two given, the key is the low half of the sum. -/
theorem key_eq_iff {s t : Translations.Sums} (hxor : s.xor.toNat % 256 = t.xor.toNat % 256)
    (hlen : s.len = t.len) : s.key = t.key ↔ s.sum.toNat % 2 ^ 16 = t.sum.toNat % 2 ^ 16 := by
  rw [← UInt32.toNat_inj, key_toNat, key_toNat, hxor, hlen]
  omega

end Mix

section Loops

theorem sumChars_eq_foldl (h : 0 ∉ str) (s : Translations.Sums) :
    Translations.sumChars charSigned str s = str.foldl (Translations.Sums.add charSigned) s := by
  induction str generalizing s with
  | nil => rfl
  | cons c str ih =>
    have hc : c ≠ 0 := fun hc => h (hc ▸ List.mem_cons_self)
    rw [Translations.sumChars, if_neg hc, ih (fun hm => h (List.mem_cons_of_mem c hm))]
    rfl

/-- How often 256 is missing from the C sum after `c`. -/
def lost (charSigned : Bool) (c : UInt8) : ℕ := if charSigned = true ∧ 128 ≤ c then 1 else 0

theorem charValue_add_lost (charSigned : Bool) (c : UInt8) :
    ((Translations.charValue charSigned c).toNat + 256 * lost charSigned c) % 2 ^ 32 =
      c.toNat := by
  have hall : ∀ s : Bool, ∀ c : BitVec 8,
      ((Translations.charValue s (UInt8.ofBitVec c)).toNat + 256 * lost s (UInt8.ofBitVec c)) %
        2 ^ 32 = (UInt8.ofBitVec c).toNat := by decide +kernel
  exact hall charSigned c.toBitVec

/-- What the two loops have in common after the same `n` bytes, `k` of them lost. -/
structure Agree (n k : ℕ) (s : Translations.Sums) (t : SimpleMot.Sums) : Prop where
  sum : (s.sum.toNat + 256 * k) % 2 ^ 32 = t.sum % 2 ^ 32
  xor : s.xor.toNat % 256 = t.xor % 256
  len : s.len = UInt32.ofNat n

variable {n k : ℕ} {s : Translations.Sums} {t : SimpleMot.Sums}

theorem agree_add (charSigned : Bool) (h : Agree n k s t) (c : UInt8) :
    Agree (n + 1) (k + lost charSigned c) (s.add charSigned c) (t.add c) := by
  have hc := charValue_add_lost charSigned c
  have hsum := h.sum
  constructor
  · change ((s.sum + Translations.charValue charSigned c).toNat +
      256 * (k + lost charSigned c)) % 2 ^ 32 = (t.sum + c.toNat) % 2 ^ 32
    rw [UInt32.toNat_add]
    omega
  · have hlow : (Translations.charValue charSigned c).toNat % 256 = c.toNat % 256 := by omega
    calc (s.xor ^^^ Translations.charValue charSigned c).toNat % 2 ^ 8
        = (s.xor.toNat % 2 ^ 8) ^^^ ((Translations.charValue charSigned c).toNat % 2 ^ 8) := by
          rw [UInt32.toNat_xor, Nat.xor_mod_two_pow]
      _ = (t.xor % 2 ^ 8) ^^^ (c.toNat % 2 ^ 8) := congrArg₂ _ h.xor hlow
      _ = (t.xor ^^^ c.toNat) % 2 ^ 8 := (Nat.xor_mod_two_pow).symm
  · change s.len + 1 = UInt32.ofNat (n + 1)
    rw [h.len, UInt32.ofNat_add]
    rfl

theorem agree_foldl (h : Agree n k s t) (str : Str) :
    Agree (n + str.length) (k + (str.map (lost charSigned)).sum)
      (str.foldl (Translations.Sums.add charSigned) s) (str.foldl SimpleMot.Sums.add t) := by
  induction str generalizing n k s t with
  | nil => exact h
  | cons c str ih =>
    have hnext := ih (agree_add charSigned h c)
    have hlen : n + (c :: str).length = n + 1 + str.length := by
      rw [List.length_cons]
      omega
    have hlost : k + ((c :: str).map (lost charSigned)).sum =
        k + lost charSigned c + (str.map (lost charSigned)).sum := by
      rw [List.map_cons, List.sum_cons]
      omega
    rw [hlen, hlost]
    exact hnext

theorem lost_sum (charSigned : Bool) (str : Str) :
    (str.map (lost charSigned)).sum = if charSigned = true then highBytes str else 0 := by
  induction str with
  | nil => cases charSigned <;> rfl
  | cons c str ih =>
    rw [List.map_cons, List.sum_cons, ih, highBytes, highBytes, List.countP_cons]
    cases charSigned with
    | false => rfl
    | true => simp [lost, Nat.add_comm]

end Loops

theorem packed_total (str : Str) :
    SimpleMot.packedN (SimpleMot.total str) = (Translations.Sums.mk
      (UInt32.ofNat (SimpleMot.sums str).sum) (UInt32.ofNat (SimpleMot.sums str).xor)
      (UInt32.ofNat str.length)).key := by
  unfold SimpleMot.packedN SimpleMot.total Translations.Sums.key
  rw [UInt32.ofNat_or, UInt32.ofNat_or, UInt32.ofNat_shiftLeft _ _ (by decide),
    UInt32.ofNat_shiftLeft _ _ (by decide), UInt32.ofNat_and, UInt32.ofNat_and]
  rfl

/-- The two agree as long as the bytes lost come in blocks of 256. -/
theorem keyHash_eq_packed_iff (h : 0 ∉ str) :
    Translations.keyHash charSigned str = SimpleMot.packedN (SimpleMot.total str) ↔
      charSigned = false ∨ 256 ∣ highBytes str := by
  have hagree : Agree (0 + str.length) (0 + (str.map (lost charSigned)).sum)
      (str.foldl (Translations.Sums.add charSigned) ⟨0, 0, 0⟩) (SimpleMot.sums str) :=
    agree_foldl ⟨by decide, by decide, by decide⟩ str
  rw [Nat.zero_add, Nat.zero_add, lost_sum] at hagree
  have hsum := hagree.sum
  have hxor : (UInt32.ofNat (SimpleMot.sums str).xor).toNat % 256 =
      (SimpleMot.sums str).xor % 256 := by
    rw [UInt32.toNat_ofNat']
    omega
  unfold Translations.keyHash
  rw [sumChars_eq_foldl h, packed_total, key_eq_iff (hagree.xor.trans hxor.symm) hagree.len,
    UInt32.toNat_ofNat']
  cases charSigned with
  | false =>
    rw [if_neg (by decide)] at hsum
    simp only [true_or, iff_true]
    omega
  | true =>
    rw [if_pos rfl] at hsum
    simp only [Bool.true_eq_false, false_or]
    omega

/-- On a machine where `char` is signed. -/
theorem signed_key_iff (h : 0 ∉ str) :
    Translations.keyHash true str = SimpleMot.packedN (SimpleMot.total str) ↔
      256 ∣ highBytes str := by
  rw [keyHash_eq_packed_iff h]
  simp

theorem signed_key_ascii :
    Translations.keyHash true (ascii "Retry") = SimpleMot.packedN (SimpleMot.total (ascii "Retry")) :=
  (signed_key_iff (by decide)).mpr (by decide)

/-- An `é`, as two bytes of UTF-8. -/
theorem accent_keys_differ :
    ¬ ∀ str : Str, 0 ∉ str →
      Translations.keyHash true str = SimpleMot.packedN (SimpleMot.total str) :=
  fun h => absurd (h [0xC3, 0xA9] (by decide)) (by decide)

end Comodoo.TranslationKeys
