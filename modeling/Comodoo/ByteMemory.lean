import Mathlib.Data.List.Basic
import Mathlib.Logic.Function.Basic
import Mathlib.Tactic.Common
import Mathlib.Tactic.Ring

set_option autoImplicit false

/-!
# A flat byte memory

`Holds m a s` says that the bytes `s` stand at address `a`. The operations are
those of a C buffer: store a block, copy a block to the front, read a string
up to its NUL.
-/
namespace Comodoo.ByteMemory

abbrev Mem := ℕ → UInt8

def Holds (m : Mem) : ℕ → List UInt8 → Prop
  | _, [] => True
  | a, b :: s => m a = b ∧ Holds m (a + 1) s

def store (m : Mem) : ℕ → List UInt8 → Mem
  | _, [] => m
  | a, b :: s => store (Function.update m a b) (a + 1) s

/-- `memcpy` to address 0; areas that overlap are a fault. -/
def copyToFront (m : Mem) (a n : ℕ) : Option Mem :=
  if a < n then none else some (fun i => if i < n then m (a + i) else m i)

def strn (m : Mem) : ℕ → ℕ → List UInt8
  | _, 0 => []
  | a, n + 1 => if m a = 0 then [] else m a :: strn m (a + 1) n

/-- The first address from `a` on whose byte meets `p`. -/
def scanTo (p : UInt8 → Bool) (m : Mem) : ℕ → ℕ → ℕ
  | 0, a => a
  | fuel + 1, a => if p (m a) then a else scanTo p m fuel (a + 1)

theorem holds_append (m : Mem) (a : ℕ) (s t : List UInt8) :
    Holds m a (s ++ t) ↔ Holds m a s ∧ Holds m (a + s.length) t := by
  induction s generalizing a with
  | nil => simp [Holds]
  | cons b s ih => simp [Holds, ih, and_assoc, Nat.add_assoc, Nat.add_comm 1]

theorem holds_congr {m m' : Mem} {a : ℕ} {s : List UInt8}
    (h : ∀ i, a ≤ i → i < a + s.length → m' i = m i) (hs : Holds m a s) : Holds m' a s := by
  induction s generalizing a with
  | nil => trivial
  | cons b s ih =>
    simp only [List.length_cons] at h
    refine ⟨(h a (by omega) (by omega)).trans hs.1, ih ?_ hs.2⟩
    intro i hi hlt
    exact h i (by omega) (by omega)

theorem holds_get {m : Mem} {a : ℕ} {s : List UInt8} (hs : Holds m a s) (i : ℕ)
    (hi : i < s.length) : m (a + i) = s[i] := by
  induction s generalizing a i with
  | nil => simp at hi
  | cons b s ih =>
    cases i with
    | zero => exact hs.1
    | succ i =>
      have h := ih hs.2 i (by simpa using hi)
      simpa [Nat.add_assoc, Nat.add_comm 1] using h

theorem store_outside (m : Mem) (a : ℕ) (s : List UInt8) (i : ℕ)
    (h : i < a ∨ a + s.length ≤ i) : store m a s i = m i := by
  induction s generalizing m a with
  | nil => rfl
  | cons b s ih =>
    simp only [List.length_cons] at h
    rw [store, ih _ _ (by omega), Function.update_of_ne (by omega)]

theorem holds_store (m : Mem) (a : ℕ) (s : List UInt8) : Holds (store m a s) a s := by
  induction s generalizing m a with
  | nil => trivial
  | cons b s ih =>
    refine ⟨?_, ih _ _⟩
    rw [store, store_outside _ _ _ _ (by omega), Function.update_self]

theorem store_append (m : Mem) (a : ℕ) (s t : List UInt8) :
    store m a (s ++ t) = store (store m a s) (a + s.length) t := by
  induction s generalizing m a with
  | nil => rfl
  | cons b s ih => rw [List.cons_append, store, ih, List.length_cons, store, Nat.add_right_comm,
      Nat.add_assoc]

theorem eq_store {m m' : Mem} {a : ℕ} {s : List UInt8} (hin : Holds m' a s)
    (hout : ∀ i, i < a ∨ a + s.length ≤ i → m' i = m i) : m' = store m a s := by
  funext i
  by_cases h : i < a ∨ a + s.length ≤ i
  · rw [hout i h, store_outside m a s i h]
  · have hi : i - a < s.length := by omega
    have hheld := holds_get hin (i - a) hi
    have hstored := holds_get (holds_store m a s) (i - a) hi
    rw [Nat.add_sub_cancel' (by omega)] at hheld hstored
    rw [hheld, hstored]

theorem copyToFront_of_holds {m : Mem} {a : ℕ} {s : List UInt8} (h : Holds m a s)
    (ha : s.length ≤ a) : copyToFront m a s.length = some (store m 0 s) := by
  have hgen : ∀ k t, Holds m (a + k) t → k + t.length ≤ s.length →
      Holds (fun i => if i < s.length then m (a + i) else m i) k t := by
    intro k t
    induction t generalizing k with
    | nil => intros; trivial
    | cons b t ih =>
      intro ht hlen
      simp only [List.length_cons] at hlen
      refine ⟨?_, ih (k + 1) ht.2 (by omega)⟩
      dsimp only
      rw [if_pos (by omega)]
      exact ht.1
  rw [copyToFront, if_neg (by omega)]
  congr 1
  refine eq_store (hgen 0 s h (by omega)) (fun i hi => ?_)
  exact if_neg (by omega)

theorem copyToFront_overlap {m : Mem} {a n : ℕ} (h : a < n) : copyToFront m a n = none := if_pos h

theorem strn_of_holds (m : Mem) (a n : ℕ) (s : List UInt8) (h : Holds m a (s ++ [0]))
    (hs : (0 : UInt8) ∉ s) : strn m a n = s.take n := by
  induction n generalizing a s with
  | zero => rfl
  | succ n ih =>
    cases s with
    | nil => simp [strn, h.1]
    | cons b s =>
      have hb : b ≠ 0 := fun hb => hs (by simp [hb])
      have hrest := ih (a + 1) s h.2 (fun hx => hs (by simp [hx]))
      simp [strn, h.1, hb, hrest]

section Update

variable {m : Mem} {a : ℕ} {s t : List UInt8} {b : UInt8}

theorem scanTo_eq {p : UInt8 → Bool} {fuel : ℕ}
    (h : Holds m a (s ++ b :: t)) (hs : ∀ c ∈ s, p c = false) (hb : p b = true)
    (hf : s.length < fuel) : scanTo p m fuel a = a + s.length := by
  induction s generalizing a fuel with
  | nil =>
    cases fuel with
    | zero => simp at hf
    | succ fuel =>
      rw [scanTo, if_pos (h.1 ▸ hb)]
      rfl
  | cons c s ih =>
    cases fuel with
    | zero => simp at hf
    | succ fuel =>
      have hc : p (m a) = false := by
        rw [h.1]
        exact hs c List.mem_cons_self
      rw [List.length_cons] at hf ⊢
      rw [scanTo, if_neg (by simp [hc]), ih h.2 (fun d hd => hs d (List.mem_cons_of_mem _ hd))
        (by omega)]
      omega

theorem update_zero {k i : ℕ} (h : m i = 0) : Function.update m k 0 i = 0 := by
  rcases eq_or_ne i k with rfl | hne
  · exact Function.update_self ..
  · rw [Function.update_of_ne hne, h]

theorem holds_update {k : ℕ} (h : Holds m a s) (hk : k < a ∨ a + s.length ≤ k)
    (c : UInt8) : Holds (Function.update m k c) a s :=
  holds_congr (fun i hi hlt => Function.update_of_ne (by omega) _ _) h

theorem holds_cut (h : Holds m a (s ++ b :: t)) :
    Holds (Function.update m (a + s.length) 0) a (s ++ 0 :: t) := by
  rw [holds_append] at h ⊢
  refine ⟨holds_congr (fun i hi hlt => Function.update_of_ne (by omega) _ _) h.1,
    Function.update_self .., holds_congr (fun i hi hlt => ?_) h.2.2⟩
  exact Function.update_of_ne (by omega) _ _

end Update

/-- The addresses `scanTo` reads. -/
def scanReads (p : UInt8 → Bool) (m : Mem) : ℕ → ℕ → List ℕ
  | 0, _ => []
  | fuel + 1, a => a :: if p (m a) then [] else scanReads p m fuel (a + 1)

section Reads

variable {p : UInt8 → Bool} {m : Mem} {a z fuel : ℕ}

theorem scanTo_spec (hz : p (m z) = true) (ha : a ≤ z) (hf : z - a < fuel) :
    a ≤ scanTo p m fuel a ∧ scanTo p m fuel a ≤ z ∧ p (m (scanTo p m fuel a)) = true := by
  induction fuel generalizing a with
  | zero => exact absurd hf (Nat.not_lt_zero _)
  | succ fuel ih =>
    rw [scanTo]
    by_cases hp : p (m a) = true
    · rw [if_pos hp]
      exact ⟨Nat.le_refl a, ha, hp⟩
    · rw [if_neg hp]
      have hne : a ≠ z := by
        rintro rfl
        exact hp hz
      have hle : a + 1 ≤ z := by omega
      obtain ⟨hlow, hhigh, hstop⟩ := ih hle (by omega)
      exact ⟨by omega, hhigh, hstop⟩

theorem scanReads_within (hz : p (m z) = true) (ha : a ≤ z) :
    ∀ i ∈ scanReads p m fuel a, a ≤ i ∧ i ≤ z := by
  induction fuel generalizing a with
  | zero =>
    intro i hi
    exact absurd hi List.not_mem_nil
  | succ fuel ih =>
    intro i hi
    rw [scanReads, List.mem_cons] at hi
    rcases hi with rfl | hi
    · exact ⟨Nat.le_refl i, ha⟩
    by_cases hp : p (m a) = true
    · rw [if_pos hp] at hi
      exact absurd hi List.not_mem_nil
    · rw [if_neg hp] at hi
      have hne : a ≠ z := by
        rintro rfl
        exact hp hz
      have hle : a + 1 ≤ z := by omega
      obtain ⟨hlow, hhigh⟩ := ih hle i hi
      exact ⟨by omega, hhigh⟩

theorem scanTo_congr {m' : Mem} (h : ∀ i ∈ scanReads p m fuel a, m' i = m i) :
    scanTo p m' fuel a = scanTo p m fuel a := by
  induction fuel generalizing a with
  | zero => rfl
  | succ fuel ih =>
    rw [scanReads] at h
    have ha : m' a = m a := h a List.mem_cons_self
    rw [scanTo, scanTo, ha]
    by_cases hp : p (m a) = true
    · rw [if_pos hp, if_pos hp]
    · rw [if_neg hp, if_neg hp]
      rw [if_neg hp] at h
      exact ih (fun i hi => h i (List.mem_cons_of_mem _ hi))

end Reads

end Comodoo.ByteMemory

namespace Comodoo.LittleEndian

/-! ## Numbers in little-endian bytes

A number in `k` bytes, the low one first, and arrays of such numbers.
-/

def bytes : ℕ → ℕ → List UInt8
  | 0, _ => []
  | k + 1, n => UInt8.ofNat n :: bytes k (n / 256)

def value : List UInt8 → ℕ
  | [] => 0
  | b :: data => b.toNat + 256 * value data

def values (k : ℕ) : ℕ → List UInt8 → List ℕ
  | 0, _ => []
  | n + 1, data => value (data.take k) :: values k n (data.drop k)

variable {k n : ℕ} {ns : List ℕ}

@[simp] theorem length_bytes : (bytes k n).length = k := by
  induction k generalizing n with
  | zero => rfl
  | succ k ih => exact congrArg Nat.succ ih

theorem value_bytes (h : n < 256 ^ k) : value (bytes k n) = n := by
  induction k generalizing n with
  | zero =>
    rw [pow_zero, Nat.lt_one_iff] at h
    rw [h]
    rfl
  | succ k ih =>
    have hhigh : n / 256 < 256 ^ k := by
      rw [pow_succ] at h
      omega
    have hlow : (UInt8.ofNat n).toNat = n % 256 := UInt8.toNat_ofNat
    rw [bytes, value, ih hhigh, hlow]
    omega

theorem length_flatMap_bytes : (ns.flatMap (bytes k)).length = ns.length * k := by
  induction ns with
  | nil => simp
  | cons n ns ih =>
    rw [List.flatMap_cons, List.length_append, length_bytes, ih, List.length_cons]
    ring

theorem values_flatMap_bytes (h : ∀ n ∈ ns, n < 256 ^ k) (tail : List UInt8) :
    values k ns.length (ns.flatMap (bytes k) ++ tail) = ns := by
  induction ns with
  | nil => rfl
  | cons n ns ih =>
    have hlen : (bytes k n).length = k := length_bytes
    rw [List.flatMap_cons, List.append_assoc, List.length_cons, values, List.take_left' hlen,
      List.drop_left' hlen, value_bytes (h n List.mem_cons_self),
      ih (fun m hm => h m (List.mem_cons_of_mem _ hm))]

end Comodoo.LittleEndian
