import Comodoo.CheckReads
import Comodoo.Md5
import Mathlib.Algebra.Order.Ring.Int

set_option autoImplicit false

/-!
# What the checker of ISO images reads and writes

The indices that `parsepvd` uses in its copy of the application data, those that the comparison of
a fragment uses in its three arrays, and the bytes that are checked.
-/
namespace Comodoo.CheckAccesses
open CString IsoFragments CheckReads
open IsoImage hiding searchPvd
open CheckIso hiding parsepvd

/-! ## The application data -/

/-- How many bytes `strncmp` reads of the string: it ends at the first that differs. -/
def strncmpReads : Str → Str → ℕ
  | [], _ => 0
  | _ :: _, [] => 1
  | k :: key, b :: p => if k = b then strncmpReads key p + 1 else 1

def keywords : List Str :=
  [ascii "ISO MD5SUM = ", ascii "SKIPSECTORS = ", ascii "RHLISOSTATUS=1", ascii "RHLISOSTATUS=0",
    ascii "FRAGMENT SUMS = ", ascii "FRAGMENT COUNT = "]

/-- No keyword behind the one that is there is compared. -/
def compared (p : Str) : List Str → List Str
  | [] => []
  | key :: keys => if key.isPrefixOf p then [key] else key :: compared p keys

/-- `buf2 + loc` is `p`, as for `parseField`. -/
def comparisonReads (p : Str) : List ℕ :=
  (compared p keywords).flatMap fun key => List.range' (512 - p.length) (strncmpReads key p)

/-- What comes from `buf2[loc + n]` on, up to a semicolon. -/
def value (p : Str) (n : ℕ) : Str := (p.drop n).takeWhile (· ≠ semicolon)

/-- `for (p=buf2+loc; *p != ';' && loc < 512; p++, loc++)`: the byte is read before `loc` is
tested. -/
def searchReads (p : Str) (n : ℕ) : List ℕ :=
  List.range' (512 - p.length + n) ((value p n).length + 1)

/-- The byte behind a number is read twice, unless the number is none. -/
def numberReads (p : Str) (n : ℕ) : List ℕ :=
  searchReads p n ++
    if strtolRest (cString (value p n)) ≠ [] then [] else [512 - p.length + n + (value p n).length]

/-- What a pass of the loop in `parsepvd` reads once it has compared the keywords. -/
def valueReads (p : Str) : List ℕ :=
  let loc := 512 - p.length
  if (ascii "ISO MD5SUM = ").isPrefixOf p then
    if loc + 32 + 13 > 511 then [] else List.range' (loc + 13) 32 ++ searchReads p 45
  else if (ascii "SKIPSECTORS = ").isPrefixOf p then
    if loc + 14 > 511 then [] else numberReads p 14
  else if (ascii "RHLISOSTATUS=1").isPrefixOf p then searchReads p 0
  else if (ascii "RHLISOSTATUS=0").isPrefixOf p then searchReads p 0
  else if (ascii "FRAGMENT SUMS = ").isPrefixOf p then
    if loc + FRAGMENT_SUM_LENGTH > 511 then []
    else List.range' (loc + 16) FRAGMENT_SUM_LENGTH ++ searchReads p (FRAGMENT_SUM_LENGTH + 16)
  else if (ascii "FRAGMENT COUNT = ").isPrefixOf p then
    if loc + 17 > 511 then [] else numberReads p 17
  else []

def scanned : ℕ → Fields → Str → List Str
  | 0, _, _ => []
  | passes + 1, f, p =>
    if p = [] then []
    else p :: match parseField f p with
      | none => []
      | some (f, p) => if f.complete then [] else scanned passes f p

def scannedAppData (appdata : Str) : List Str :=
  scanned 512 ⟨none, none, none, none, none⟩ (appdata.take 511 ++ [0])

/-- All indices of `buf2` that are read. -/
def appdataReads (appdata : Str) : List ℕ :=
  (scannedAppData appdata).flatMap fun p => comparisonReads p ++ valueReads p

/-- Where the value of a field begins whose end is looked for. It begins behind the sums that are
copied. There is none when no keyword is there, or when it is found to be too far behind. -/
def opens (p : Str) : Option ℕ :=
  let loc := 512 - p.length
  if (ascii "ISO MD5SUM = ").isPrefixOf p then if loc + 32 + 13 > 511 then none else some 45
  else if (ascii "SKIPSECTORS = ").isPrefixOf p then if loc + 14 > 511 then none else some 14
  else if (ascii "RHLISOSTATUS=1").isPrefixOf p then some 0
  else if (ascii "RHLISOSTATUS=0").isPrefixOf p then some 0
  else if (ascii "FRAGMENT SUMS = ").isPrefixOf p then
    if loc + FRAGMENT_SUM_LENGTH > 511 then none else some (FRAGMENT_SUM_LENGTH + 16)
  else if (ascii "FRAGMENT COUNT = ").isPrefixOf p then if loc + 17 > 511 then none else some 17
  else none

/-- The field that begins here, if any, ends with a semicolon. -/
def Closed (p : Str) : Prop := ∀ n ∈ opens p, semicolon ∈ p.drop n

instance (p : Str) : Decidable (Closed p) := by
  unfold Closed
  infer_instance

section
variable {p key : Str} {n : ℕ}

theorem length_takeWhile_lt (l : Str) (c : UInt8) :
    (l.takeWhile (· ≠ c)).length < l.length ↔ c ∈ l := by
  have hle := (List.takeWhile_prefix (fun b : UInt8 => decide (b ≠ c)) (l := l)).length_le
  constructor
  · intro hlt
    by_contra hc
    have hall : l.takeWhile (· ≠ c) = l :=
      List.takeWhile_eq_self_iff.mpr fun b hb => decide_eq_true fun h => hc (h ▸ hb)
    rw [hall] at hlt
    exact lt_irrefl _ hlt
  · intro hc
    refine lt_of_le_of_ne hle fun h => ?_
    have hall := (List.takeWhile_prefix (fun b : UInt8 => decide (b ≠ c)) (l := l)).eq_of_length h
    exact of_decide_eq_true (List.takeWhile_eq_self_iff.mp hall c hc) rfl

theorem forall_mem_range' (start length bound : ℕ) :
    (∀ i ∈ List.range' start (length + 1), i < bound) ↔ start + length < bound := by
  simp only [List.mem_range'_1]
  constructor
  · intro h
    exact h _ ⟨by omega, by omega⟩
  · intro h i hi
    omega

theorem searchReads_inside (hp : p.length ≤ 512) (n : ℕ) :
    (∀ i ∈ searchReads p n, i < 512) ↔ semicolon ∈ p.drop n := by
  have hlength : (p.drop n).length = p.length - n := List.length_drop
  rw [searchReads, forall_mem_range', value, ← length_takeWhile_lt, hlength]
  have hle := (List.takeWhile_prefix (fun b : UInt8 => decide (b ≠ semicolon))
    (l := p.drop n)).length_le
  omega

theorem numberReads_inside (hp : p.length ≤ 512) (n : ℕ) :
    (∀ i ∈ numberReads p n, i < 512) ↔ semicolon ∈ p.drop n := by
  rw [← searchReads_inside hp, numberReads, List.forall_mem_append, and_iff_left_iff_imp]
  intro h i hi
  split at hi
  · cases hi
  · apply h
    rw [List.mem_singleton.mp hi, searchReads, List.mem_range'_1]
    omega

theorem copied_inside (hp : p.length ≤ 512) (n length : ℕ) :
    (∀ i ∈ List.range' (512 - p.length + n) length ++ searchReads p (n + length), i < 512) ↔
      semicolon ∈ p.drop (n + length) := by
  rw [List.forall_mem_append, searchReads_inside hp, and_iff_right_iff_imp]
  intro h i hi
  have hpos : 0 < (p.drop (n + length)).length := List.length_pos_of_mem h
  rw [List.length_drop] at hpos
  rw [List.mem_range'_1] at hi
  omega

theorem valueReads_inside (hp : p.length ≤ 512) :
    (∀ i ∈ valueReads p, i < 512) ↔ Closed p := by
  unfold valueReads Closed opens
  dsimp only
  split
  · split
    · simp
    · simpa using copied_inside hp 13 32
  split
  · split
    · simp
    · simpa using numberReads_inside hp 14
  split
  · simpa using searchReads_inside hp 0
  split
  · simpa using searchReads_inside hp 0
  split
  · split
    · simp
    · simpa using copied_inside hp 16 60
  split
  · split
    · simp
    · simpa using numberReads_inside hp 17
  · simp

/-- A string with a NUL at its end is not compared beyond it. -/
theorem strncmpReads_le (hkey : (0 : UInt8) ∉ key) (hp : p.getLast? = some 0) :
    strncmpReads key p ≤ p.length := by
  induction key generalizing p with
  | nil => exact Nat.zero_le _
  | cons k key ih =>
    cases p with
    | nil => cases hp
    | cons b p =>
      rw [strncmpReads]
      split
      · rename_i hkb
        have hb : b ≠ 0 := fun h => hkey (List.mem_cons.mpr (Or.inl (h ▸ hkb.symm)))
        have hrest : p.getLast? = some 0 := by
          cases p with
          | nil => exact absurd (Option.some.inj hp) hb
          | cons b' p => exact (List.getLast?_cons_cons).symm.trans hp
        exact Nat.succ_le_succ (ih (fun h => hkey (List.mem_cons_of_mem _ h)) hrest)
      · exact Nat.succ_le_succ (Nat.zero_le _)

theorem mem_compared {keys : List Str} (h : key ∈ compared p keys) : key ∈ keys := by
  induction keys with
  | nil => exact h
  | cons k keys ih =>
    rw [compared] at h
    split at h
    · rw [List.mem_singleton.mp h]
      exact List.mem_cons_self
    · rcases List.mem_cons.mp h with rfl | h
      · exact List.mem_cons_self
      · exact List.mem_cons_of_mem _ (ih h)

theorem comparisonReads_inside (hp : p.length ≤ 512) (hnul : p.getLast? = some 0) :
    ∀ i ∈ comparisonReads p, i < 512 := by
  intro i hi
  obtain ⟨key, hkey, hi⟩ := List.mem_flatMap.mp hi
  have hall : ∀ key ∈ keywords, (0 : UInt8) ∉ key := by decide
  have hle := strncmpReads_le (hall key (mem_compared hkey)) hnul
  rw [List.mem_range'_1] at hi
  omega

theorem parseField_suffix {f f' : Fields} {p' : Str} (h : parseField f p = some (f', p')) :
    p' <:+ p := by
  have hrest : ∀ n, (p.drop n).dropWhile (· ≠ semicolon) <:+ p :=
    fun n => (List.dropWhile_suffix _).trans (List.drop_suffix n p)
  unfold parseField at h
  dsimp only at h
  split_ifs at h <;> cases h <;> first | exact hrest _ | exact List.tail_suffix p

theorem scanned_suffix {passes : ℕ} {f : Fields} {p q : Str} (h : q ∈ scanned passes f p) :
    q <:+ p ∧ q ≠ [] := by
  induction passes generalizing f p with
  | zero => cases h
  | succ passes ih =>
    rw [scanned] at h
    split at h
    · cases h
    · rename_i hne
      rcases List.mem_cons.mp h with rfl | h
      · exact ⟨List.suffix_refl _, hne⟩
      · cases hfield : parseField f p with
        | none =>
          rw [hfield] at h
          cases h
        | some found =>
          rw [hfield] at h
          dsimp only at h
          split at h
          · cases h
          · obtain ⟨hsuffix, hq⟩ := ih h
            exact ⟨hsuffix.trans (parseField_suffix hfield), hq⟩

theorem appdataReads_inside_iff {appdata : Str} (hlen : appdata.length = 512) :
    (∀ i ∈ appdataReads appdata, i < 512) ↔ ∀ p ∈ scannedAppData appdata, Closed p := by
  have hpass : ∀ p ∈ scannedAppData appdata, p.length ≤ 512 ∧ p.getLast? = some 0 := by
    intro p hp
    obtain ⟨hsuffix, hne⟩ := scanned_suffix hp
    have hle := hsuffix.length_le
    obtain ⟨l, hl⟩ := hsuffix
    have hlast : (l ++ p).getLast? = some 0 := by
      rw [hl, List.getLast?_append]
      rfl
    rw [List.getLast?_append_of_ne_nil _ hne] at hlast
    rw [List.length_append, List.length_take, hlen] at hle
    exact ⟨hle, hlast⟩
  unfold appdataReads
  constructor
  · intro h p hp
    rw [← valueReads_inside (hpass p hp).1]
    exact fun i hi => h i (List.mem_flatMap.mpr ⟨p, hp, List.mem_append_right _ hi⟩)
  · intro h i hi
    obtain ⟨p, hp, hi⟩ := List.mem_flatMap.mp hi
    obtain ⟨hle, hnul⟩ := hpass p hp
    rcases List.mem_append.mp hi with hi | hi
    · exact comparisonReads_inside hle hnul i hi
    · exact (valueReads_inside hle).mpr (h p hp) i hi

end

/-! ## The sums of the fragments -/

def fragmd5sumReads (fragmentcount : ℤ) : List ℤ :=
  (List.range (sumDigits fragmentcount)).map fun i : ℕ => (i : ℤ)

def fragmentsumsReads (fragmentcount current_fragment : ℤ) : List ℤ :=
  (List.range (sumDigits fragmentcount)).map fun i : ℕ =>
    sumStart fragmentcount current_fragment + (i : ℤ)

/-- The NUL is written last. -/
def thisfragsumWrites (fragmentcount current_fragment : ℤ) : List ℤ :=
  (List.range (sumDigits fragmentcount)).map (fun i : ℕ => (i : ℤ)) ++
    [sumStart fragmentcount current_fragment + sumDigits fragmentcount]

/-- The comparison of a fragment stays inside of its arrays. -/
structure SumsInside (fragmentcount current_fragment : ℤ) : Prop where
  fragmd5sum : ∀ i ∈ fragmd5sumReads fragmentcount, 0 ≤ i ∧ i < 16
  fragmentsums : ∀ i ∈ fragmentsumsReads fragmentcount current_fragment,
    0 ≤ i ∧ i < FRAGMENT_SUM_LENGTH + 1
  thisfragsum : ∀ i ∈ thisfragsumWrites fragmentcount current_fragment,
    0 ≤ i ∧ i < FRAGMENT_SUM_LENGTH + 1

section
variable {fragmentcount current_fragment : ℤ}

theorem sumsInside_iff : SumsInside fragmentcount current_fragment ↔
    sumDigits fragmentcount ≤ 16 ∧ 0 ≤ sumStart fragmentcount current_fragment ∧
      sumStart fragmentcount current_fragment + sumDigits fragmentcount ≤ 60 := by
  have hend : sumStart fragmentcount current_fragment + sumDigits fragmentcount ∈
      thisfragsumWrites fragmentcount current_fragment := by
    rw [thisfragsumWrites]
    simp
  constructor
  · rintro ⟨hmd5, hsums, hthis⟩
    have hlast := hthis _ hend
    rw [show ((FRAGMENT_SUM_LENGTH : ℕ) : ℤ) = 60 from rfl] at hlast
    refine ⟨?_, ?_, by omega⟩
    · by_contra hmore
      have hread : ((16 : ℕ) : ℤ) ∈ fragmd5sumReads fragmentcount :=
        List.mem_map.mpr ⟨16, List.mem_range.mpr (by omega), rfl⟩
      exact absurd (hmd5 _ hread).2 (by decide)
    · by_cases hzero : sumDigits fragmentcount = 0
      · rw [hzero] at hlast
        omega
      · have hread : sumStart fragmentcount current_fragment + ((0 : ℕ) : ℤ) ∈
            fragmentsumsReads fragmentcount current_fragment :=
          List.mem_map.mpr ⟨0, List.mem_range.mpr (by omega), rfl⟩
        have hfirst := (hsums _ hread).1
        omega
  · rintro ⟨hdigits, hstart, hfit⟩
    have hsixty : ((FRAGMENT_SUM_LENGTH : ℕ) : ℤ) = 60 := rfl
    refine ⟨fun i hi => ?_, fun i hi => ?_, fun i hi => ?_⟩
    · obtain ⟨k, hk, rfl⟩ := List.mem_map.mp hi
      rw [List.mem_range] at hk
      omega
    · obtain ⟨k, hk, rfl⟩ := List.mem_map.mp hi
      rw [List.mem_range] at hk
      omega
    · rcases List.mem_append.mp hi with hi | hi
      · obtain ⟨k, hk, rfl⟩ := List.mem_map.mp hi
        rw [List.mem_range] at hk
        omega
      · rw [List.mem_singleton.mp hi]
        omega

/-- The comparison is the one that faults outside of its arrays. -/
theorem compareFragment_fault_iff {γ : Type} (md5 : Md5 γ) (fragmentsums : Str) (c : Check γ) :
    compareFragment md5 fragmentsums fragmentcount current_fragment c = .error .fault ↔
      ¬ SumsInside fragmentcount current_fragment := by
  rw [sumsInside_iff]
  unfold compareFragment
  dsimp only
  rw [show ((FRAGMENT_SUM_LENGTH : ℕ) : ℤ) = 60 from rfl]
  split
  · exact iff_of_true rfl (by omega)
  · refine iff_of_false ?_ (by omega)
    split <;> nofun

end

section
variable {limit fragmentcount : ℤ} {offset offset' size n : ℕ}

theorem currentFragment_negative (hlt : offset < size) (hsize : size * n < 2 ^ 63)
    (hn : n < 2 ^ 31) :
    currentFragment size (-((n + 1 : ℕ) : ℤ)) offset = -((offset * n / size : ℕ) : ℤ) := by
  have hproduct : offset * n < 2 ^ 63 := (Nat.mul_le_mul_right n hlt.le).trans_lt hsize
  have hle : offset * n / size ≤ n := Nat.div_le_of_le_mul (Nat.mul_le_mul_right n hlt.le)
  have hcast : (offset : ℤ) * (-((n + 1 : ℕ) : ℤ) + 1) = -((offset * n : ℕ) : ℤ) := by
    rw [show -((n + 1 : ℕ) : ℤ) + 1 = -(n : ℤ) by omega, mul_neg, Int.natCast_mul]
  have hquotient : (Int.bmod (offset * (-((n + 1 : ℕ) : ℤ) + 1)) (2 ^ 64)).tdiv size =
      -((offset * n / size : ℕ) : ℤ) := by
    rw [hcast, Int.bmod_eq_of_le (by omega) (by omega), Int.neg_tdiv, ← Int.ofNat_tdiv]
  unfold currentFragment
  rw [hquotient]
  generalize offset * n / size = quotient at hle
  exact Int.bmod_eq_of_le (by omega) (by omega)

theorem currentFragment_eq (limit fragmentcount : ℤ) (hlt : offset < limit)
    (hlimit : limit < 2 ^ 43) (hcount : fragmentcount.natAbs < 2 ^ 20) :
    ∃ size n : ℕ, limit = size ∧ offset < size ∧ n < 2 ^ 20 ∧
      ((fragmentcount = n ∧ ∀ o < size, currentFragment limit fragmentcount o =
          ((o * (n + 1) / size : ℕ) : ℤ)) ∨
        (fragmentcount = -((n + 1 : ℕ) : ℤ) ∧ ∀ o < size, currentFragment limit fragmentcount o =
          -((o * n / size : ℕ) : ℤ))) := by
  obtain ⟨size, rfl⟩ := Int.eq_ofNat_of_zero_le (show 0 ≤ limit by omega)
  have hsize : size ≤ 2 ^ 43 := by omega
  have hproduct : ∀ n < 2 ^ 20, size * (n + 1) ≤ 2 ^ 63 := by
    intro n hn
    exact (Nat.mul_le_mul hsize hn).trans (by decide)
  by_cases hsign : 0 ≤ fragmentcount
  · obtain ⟨n, rfl⟩ := Int.eq_ofNat_of_zero_le hsign
    have hn : n < 2 ^ 20 := by omega
    exact ⟨size, n, rfl, by omega, hn, Or.inl ⟨rfl, fun o ho =>
      currentFragment_natCast n ho (hproduct n hn) (by omega)⟩⟩
  · obtain ⟨n, hn⟩ : ∃ n : ℕ, fragmentcount = -((n + 1 : ℕ) : ℤ) :=
      ⟨fragmentcount.natAbs - 1, by omega⟩
    have hlt : n < 2 ^ 20 := by omega
    have hmul : size * n < 2 ^ 63 :=
      (Nat.mul_lt_mul_of_pos_left n.lt_succ_self (by omega)).trans_le (hproduct n hlt)
    subst hn
    exact ⟨size, n, rfl, by omega, hlt, Or.inr ⟨rfl, fun o ho =>
      currentFragment_negative ho hmul (by omega)⟩⟩

theorem currentFragment_zero (hle : offset' ≤ offset) (hlt : offset < limit)
    (hlimit : limit < 2 ^ 43) (hcount : fragmentcount.natAbs < 2 ^ 20)
    (hzero : currentFragment limit fragmentcount offset = 0) :
    currentFragment limit fragmentcount offset' = 0 := by
  obtain ⟨size, n, -, hoffset, -, ⟨-, heq⟩ | ⟨-, heq⟩⟩ :=
    currentFragment_eq limit fragmentcount hlt hlimit hcount
  · rw [heq _ hoffset] at hzero
    rw [heq _ (by omega)]
    have hmono : offset' * (n + 1) / size ≤ offset * (n + 1) / size :=
      Nat.div_le_div_right (Nat.mul_le_mul_right _ hle)
    rw [Int.natCast_eq_zero.mp hzero] at hmono
    rw [Nat.le_zero.mp hmono]
    rfl
  · rw [heq _ hoffset] at hzero
    rw [heq _ (by omega)]
    have hmono : offset' * n / size ≤ offset * n / size :=
      Nat.div_le_div_right (Nat.mul_le_mul_right _ hle)
    rw [Int.natCast_eq_zero.mp (neg_eq_zero.mp hzero)] at hmono
    rw [Nat.le_zero.mp hmono]
    rfl

theorem sumDigits_natCast (n : ℕ) : sumDigits n = 60 / n := by
  unfold sumDigits
  rw [← Int.ofNat_tdiv]
  rfl

theorem sumDigits_negative (n : ℕ) : sumDigits (-((n + 1 : ℕ) : ℤ)) = 0 := by
  unfold sumDigits
  rw [Int.tdiv_neg, ← Int.ofNat_tdiv]
  exact Int.toNat_neg_natCast _

/-- As long as no product overflows, only the counts that ask for more digits than there are bytes
in a sum lead out of the arrays. -/
theorem sumsInside_of_small (hlt : offset < limit) (hlimit : limit < 2 ^ 43)
    (hcount : fragmentcount.natAbs < 2 ^ 20)
    (hcurrent : currentFragment limit fragmentcount offset ≠ 0) :
    SumsInside fragmentcount (currentFragment limit fragmentcount offset) ↔
      fragmentcount ≠ 1 ∧ fragmentcount ≠ 2 ∧ fragmentcount ≠ 3 := by
  rw [sumsInside_iff]
  obtain ⟨size, n, -, hoffset, hn, ⟨rfl, heq⟩ | ⟨rfl, heq⟩⟩ :=
    currentFragment_eq limit fragmentcount hlt hlimit hcount
  · rw [heq _ hoffset] at hcurrent ⊢
    rw [sumDigits_natCast]
    have hle : offset * (n + 1) / size < n + 1 :=
      (Nat.div_lt_iff_lt_mul (by omega)).mpr
        ((Nat.mul_comm _ _).trans_lt (Nat.mul_lt_mul_of_pos_left hoffset n.succ_pos))
    generalize offset * (n + 1) / size = current at hle hcurrent
    obtain ⟨m, rfl⟩ : ∃ m, current = m + 1 := ⟨current - 1, by omega⟩
    rw [sumStart_natCast n (by omega)]
    have hsum : m * 60 / n + 60 / n ≤ 60 :=
      calc
        m * 60 / n + 60 / n ≤ (m * 60 + 60) / n := Nat.div_add_div_le_add_div
        _ ≤ 60 := Nat.div_le_of_le_mul (by omega)
    constructor
    · rintro ⟨hdigits, -⟩
      refine ⟨?_, ?_, ?_⟩ <;> intro h <;> rw [Int.ofNat_inj.mp h] at hdigits <;>
        exact absurd hdigits (by decide)
    · rintro ⟨hone, htwo, hthree⟩
      have hfour : 60 / n ≤ 60 / 4 := Nat.div_le_div_left (by omega) (by omega)
      exact ⟨by omega, Int.natCast_nonneg _, by exact_mod_cast hsum⟩
  · rw [heq _ hoffset] at hcurrent ⊢
    rw [sumDigits_negative]
    have hle : offset * n / size ≤ n :=
      Nat.div_le_of_le_mul (Nat.mul_le_mul_right n hoffset.le)
    generalize offset * n / size = current at hle hcurrent
    refine iff_of_true ⟨by omega, ?_⟩ ⟨by omega, by omega, by omega⟩
    have hcast : (-(current : ℤ) - 1) * (FRAGMENT_SUM_LENGTH : ℕ) =
        -(((current + 1) * 60 : ℕ) : ℤ) := by
      push_cast
      omega
    have hstart : sumStart (-((n + 1 : ℕ) : ℤ)) (-(current : ℤ)) =
        (((current + 1) * 60 / (n + 1) : ℕ) : ℤ) := by
      unfold sumStart
      rw [hcast, Int.bmod_eq_of_le (by omega) (by omega), Int.tdiv_neg, Int.neg_tdiv, neg_neg,
        ← Int.ofNat_tdiv]
    have hfit : (current + 1) * 60 / (n + 1) ≤ 60 := Nat.div_le_of_le_mul (by omega)
    rw [hstart]
    exact ⟨Int.natCast_nonneg _, by exact_mod_cast hfit⟩

theorem tdiv_between {a b : ℤ} {n : ℕ} (hb : b ≠ 0) :
    0 ≤ a.tdiv b ∧ a.tdiv b ≤ n ↔
      a.natAbs < b.natAbs ∨ 0 < a * b ∧ a.natAbs < (n + 1) * b.natAbs := by
  have hpos : 0 < b.natAbs := Int.natAbs_pos.mpr hb
  have hquotient : a.natAbs / b.natAbs ≤ n ↔ a.natAbs < (n + 1) * b.natAbs := by
    rw [← Nat.lt_succ_iff, Nat.div_lt_iff_lt_mul hpos]
  have hzero : a.natAbs / b.natAbs = 0 ↔ a.natAbs < b.natAbs := Nat.div_eq_zero_iff_lt hpos
  have hlarge : a.natAbs < b.natAbs → a.natAbs < (n + 1) * b.natAbs :=
    fun h => h.trans_le (Nat.le_mul_of_pos_left _ n.succ_pos)
  by_cases hsmall : a.natAbs < b.natAbs
  · have hnone : a.tdiv b = 0 := by
      rw [← Int.natAbs_eq_zero, Int.natAbs_tdiv]
      exact hzero.mpr hsmall
    rw [hnone]
    exact iff_of_true ⟨Int.le_refl 0, Int.natCast_nonneg n⟩ (Or.inl hsmall)
  have hne : a.natAbs / b.natAbs ≠ 0 := fun h => hsmall (hzero.mp h)
  rw [or_iff_right hsmall]
  have habs : (a.tdiv b).natAbs = a.natAbs / b.natAbs := Int.natAbs_tdiv a b
  by_cases hsign : 0 < a * b
  · have hnonneg : 0 ≤ a.tdiv b := by
      rcases mul_pos_iff.mp hsign with ⟨ha, hb⟩ | ⟨ha, hb⟩
      · exact Int.tdiv_nonneg ha.le hb.le
      · exact Int.tdiv_nonneg_of_nonpos_of_nonpos ha.le hb.le
    rw [and_iff_right hnonneg, and_iff_right hsign, ← hquotient]
    omega
  · have hneg : a.tdiv b ≤ 0 := by
      rcases mul_nonpos_iff.mp (not_lt.mp hsign) with ⟨ha, hb⟩ | ⟨ha, hb⟩
      · exact Int.tdiv_nonpos_of_nonneg_of_nonpos ha hb
      · have hflip := Int.tdiv_nonneg (Int.neg_nonneg_of_nonpos ha) hb
        rw [Int.neg_tdiv] at hflip
        exact Int.nonpos_of_neg_nonneg hflip
    refine iff_of_false (fun h => hne ?_) (fun h => hsign h.1)
    omega

theorem sumsInside_of_large {current_fragment : ℤ} (hcount : 2 ^ 20 ≤ fragmentcount.natAbs) :
    SumsInside fragmentcount current_fragment ↔
      0 ≤ sumStart fragmentcount current_fragment ∧
        sumStart fragmentcount current_fragment ≤ 60 := by
  have hdigits : sumDigits fragmentcount = 0 := by
    by_cases hsign : 0 ≤ fragmentcount
    · obtain ⟨n, rfl⟩ := Int.eq_ofNat_of_zero_le hsign
      rw [sumDigits_natCast]
      exact Nat.div_eq_of_lt (by omega)
    · obtain ⟨n, rfl⟩ : ∃ n : ℕ, fragmentcount = -((n + 1 : ℕ) : ℤ) :=
        ⟨fragmentcount.natAbs - 1, by omega⟩
      exact sumDigits_negative n
  rw [sumsInside_iff, hdigits]
  omega

end

/-! ## The check of a medium -/

/-- What the program has on its stack before it writes there. -/
structure Buffers where
  pvd : Vector UInt8 2048
  fragmentsums : Vector UInt8 (FRAGMENT_SUM_LENGTH + 1)
  thisfragsum : Vector UInt8 (FRAGMENT_SUM_LENGTH + 1)

def Buffers.stack (b : Buffers) : Stack :=
  ⟨b.pvd.toList, b.fragmentsums.toList, b.thisfragsum.toList⟩

/-- A read in a run, and the state it is made in. -/
inductive Reached {σ ρ : Type} (step : σ → ℕ × Str → Except ρ σ) :
    List (ℕ × Str) → σ → ℕ × Str → σ → Prop
  | here {read rest s} : Reached step (read :: rest) s read s
  | later {read rest s s' read' s''} (hstep : step s read = .ok s')
      (hrest : Reached step rest s' read' s'') : Reached step (read :: rest) s read' s''

section
variable {γ : Type} (md5 : Md5 γ) (cuts : Cuts) (image : Str) (cb : Option (ℤ → ℤ → ℤ))
  (buffers : Buffers)

def appdataOf (cut : Cut) : Option Str :=
  (searchPvd cut image (16 * 2048) (16 * 2048) buffers.stack.pvd).map fun found =>
    readAt found.2 APPDATA_OFFSET 512

/-- `parsepvd` is called again if it has found something at first. -/
def Searches (cut : Cut) : Prop :=
  cut = cuts.media ∨
    (cut = cuts.check ∧ (parsepvd cuts.media image buffers.stack.pvd).isSome = true)

/-- The loop of `checkmd5sum` gets to this read of its buffer in this state. -/
def Checks (d : Descriptor) (read : ℕ × Str) (c : Check γ) : Prop :=
  (parsepvd cuts.media image buffers.stack.pvd).isSome = true ∧
    parsepvd cuts.check image buffers.stack.pvd = some d ∧
    Reached (pass md5 d (d.fragmentsums.getD buffers.stack.fragmentsums) cb)
      (reads cuts.data image d.limit 0) (start md5 buffers.stack) read c

/-- The sum of a fragment is compared behind this read. -/
def Compares (d : Descriptor) (read : ℕ × Str) (c : Check γ) : Prop :=
  (blankAppdata (d.offset + APPDATA_OFFSET) read.1 read.2).isSome = true ∧ d.fragmentcount ≠ 0 ∧
    currentFragment d.limit d.fragmentcount read.1 ≠ c.previous_fragment

/-- All indices are inside, and nothing behind the end of the image is checked. -/
structure Inside : Prop where
  appdata : ∀ cut, Searches cuts image buffers cut → ∀ appdata ∈ appdataOf image buffers cut,
    ∀ i ∈ appdataReads appdata, i < 512
  sums : ∀ d read (c : Check γ), Checks md5 cuts image cb buffers d read c → Compares d read c →
    SumsInside d.fragmentcount (currentFragment d.limit d.fragmentcount read.1)
  checked : ∀ d read (c : Check γ), Checks md5 cuts image cb buffers d read c →
    read.1 + read.2.length ≤ d.isosize.toNat ∧ read.1 + read.2.length ≤ image.length

/-- A count of one to three asks for more digits than a sum has bytes. From a million on the
products may overflow: what comes out must be less than the count, or have its sign and be less than
61 times as large. -/
def CountFits (limit fragmentcount : ℤ) (offset : ℕ) : Prop :=
  if fragmentcount.natAbs < 2 ^ 20 then
    fragmentcount ≠ 1 ∧ fragmentcount ≠ 2 ∧ fragmentcount ≠ 3
  else
    let product := Int.bmod ((currentFragment limit fragmentcount offset - 1) * 60) (2 ^ 32)
    product.natAbs < fragmentcount.natAbs ∨
      0 < product * fragmentcount ∧ product.natAbs < 61 * fragmentcount.natAbs

def insideReads (d : Descriptor) : List (ℕ × Str) :=
  (reads cuts.data image d.limit 0).takeWhile fun read =>
    read.1 + read.2.length ≤ d.isosize.toNat

/-- The medium goes on behind the image, and the reads in the image do not end the check. -/
structure Overruns (d : Descriptor) : Prop where
  positive : 0 < d.limit
  longer : d.isosize.toNat < image.length
  goesOn : ∃ c, (insideReads cuts image d).foldlM
    (pass md5 d (d.fragmentsums.getD buffers.stack.fragmentsums) cb) (start md5 buffers.stack) =
      .ok c

/-- All fields that are scanned end with semicolons, the count fits wherever a sum is compared, and
no sectors are added to the image, or the check does not get behind it. -/
structure Bounded : Prop where
  closed : ∀ cut, Searches cuts image buffers cut → ∀ appdata ∈ appdataOf image buffers cut,
    ∀ p ∈ scannedAppData appdata, Closed p
  count : ∀ d read (c : Check γ), Checks md5 cuts image cb buffers d read c → Compares d read c →
    CountFits d.limit d.fragmentcount read.1
  sectors : (parsepvd cuts.media image buffers.stack.pvd).isSome = true →
    ∀ d ∈ parsepvd cuts.check image buffers.stack.pvd,
      Int.bmod (d.skipsectors * 2048) (2 ^ 32) < 0 → ¬Overruns md5 cuts image cb buffers d

end

section Reached
variable {σ ρ : Type} {step : σ → ℕ × Str → Except ρ σ} {xs ys : List (ℕ × Str)}
  {read : ℕ × Str} {s s' : σ}

theorem reached_of_ok (h : xs.foldlM step s = .ok s') : Reached step (xs ++ read :: ys) s read s' := by
  induction xs generalizing s with
  | nil =>
    cases h
    exact .here
  | cons x xs ih =>
    rw [List.foldlM_cons] at h
    cases hstep : step s x with
    | error e =>
      rw [hstep] at h
      cases h
    | ok t =>
      rw [hstep] at h
      exact .later hstep (ih h)

theorem mem_of_reached {e : ρ} (h : Reached step (xs ++ ys) s read s')
    (herror : xs.foldlM step s = .error e) : read ∈ xs := by
  induction xs generalizing s with
  | nil => cases herror
  | cons x xs ih =>
    rw [List.foldlM_cons] at herror
    cases h with
    | here => exact List.mem_cons_self
    | later hstep hrest =>
      rw [hstep] at herror
      exact List.mem_cons_of_mem _ (ih hrest herror)

end Reached

section
variable {γ : Type} {md5 : Md5 γ} {cuts : Cuts} {image : Str} {cb : Option (ℤ → ℤ → ℤ)}
  {buffers : Buffers} {d : Descriptor} {read : ℕ × Str} {c c' : Check γ}

theorem length_searchPvd {cut : Cut} {pos offset : ℕ} {buf : Str} {found : ℕ × Str}
    (hbuf : buf.length = 2048) (h : found ∈ searchPvd cut image pos offset buf) :
    found.2.length = 2048 := by
  have hfill : ∀ pos (old : Str), old.length = 2048 →
      (fill old (readAt image pos (min 2048 (cut pos + 1)))).length = 2048 := by
    intro pos old hold
    rw [fill, List.length_append, List.length_drop, hold, readAt, List.length_take]
    omega
  fun_induction searchPvd cut image pos offset buf with
  | case1 pos offset buf hend => cases h
  | case2 pos offset old hend data buf hone =>
    cases h
    exact hfill _ _ hbuf
  | case3 pos offset old hend data buf hone hstop => cases h
  | case4 pos offset old hend data buf hone hstop ih => exact ih (hfill _ _ hbuf) h

theorem length_appdataOf {cut : Cut} {appdata : Str} (h : appdata ∈ appdataOf image buffers cut) :
    appdata.length = 512 := by
  obtain ⟨found, hfound, rfl⟩ := Option.map_eq_some_iff.mp h
  have hpvd : buffers.stack.pvd.length = 2048 := buffers.pvd.length_toList
  have hlen := length_searchPvd hpvd hfound
  rw [readAt, List.length_take, List.length_drop, hlen]
  rfl

theorem readDescriptor_isosize {offset : ℕ} {buf : Str} (h : readDescriptor offset buf = some d) :
    d.isosize = isosize buf := by
  unfold readDescriptor at h
  dsimp only at h
  generalize Int.bmod offset (2 ^ 32) = pvd_offset at h
  obtain ⟨_, _, h⟩ := Option.bind_eq_some_iff.mp h
  obtain ⟨_, _, h⟩ := Option.bind_eq_some_iff.mp h
  obtain ⟨_, _, h⟩ := Option.bind_eq_some_iff.mp h
  obtain ⟨_, _, h⟩ := Option.bind_eq_some_iff.mp h
  rw [← Option.some.inj h]

/-- What is added to the image fits an `int`, so the end of the check is far from an overflow. -/
theorem limit_lt {cut : Cut} {junk : Str} (h : parsepvd cut image junk = some d) :
    d.limit < 2 ^ 43 := by
  unfold parsepvd at h
  rw [Option.bind_eq_some_iff] at h
  obtain ⟨found, -, hd⟩ := h
  have hsize : d.isosize = Int.bmod (volumeSpace found.2) (2 ^ 32) * 2048 :=
    readDescriptor_isosize hd
  have hlimit : d.limit = d.isosize - Int.bmod (d.skipsectors * 2048) (2 ^ 32) := rfl
  have hsectors := Int.bmod_lt (x := volumeSpace found.2) (Nat.two_pow_pos 32)
  have hskip := Int.le_bmod (x := d.skipsectors * 2048) (Nat.two_pow_pos 32)
  omega

theorem compareFragment_ok {fragmentsums : Str} {fragmentcount current_fragment : ℤ}
    (h : compareFragment md5 fragmentsums fragmentcount current_fragment c = .ok c') :
    c'.md5ctx = c.md5ctx ∧ c'.previous_fragment = current_fragment := by
  unfold compareFragment at h
  dsimp only at h
  split at h
  · cases h
  split at h
  · cases h
  · cases h
    exact ⟨rfl, rfl⟩

theorem reportProgress_ok {offset total : ℤ} (h : reportProgress cb offset total c = .ok c') :
    c' = c := by
  unfold reportProgress at h
  split at h
  · exact (Except.ok.inj h).symm
  split at h
  · cases h
  · exact (Except.ok.inj h).symm

theorem pass_ok {fragmentsums : Str} (h : pass md5 d fragmentsums cb c read = .ok c') :
    (∃ data, blankAppdata (d.offset + APPDATA_OFFSET) read.1 read.2 = some data ∧
        c'.md5ctx = md5.update c.md5ctx data) ∧
      (c'.previous_fragment = c.previous_fragment ∨
        c'.previous_fragment = currentFragment d.limit d.fragmentcount read.1) := by
  unfold CheckReads.pass checkBuffer at h
  cases hblank : blankAppdata (d.offset + (APPDATA_OFFSET : ℕ)) read.1 read.2 with
  | none =>
    rw [hblank] at h
    cases h
  | some data =>
    rw [hblank] at h
    dsimp only at h
    split at h
    · cases hcompare : compareFragment md5 fragmentsums d.fragmentcount
        (currentFragment d.limit d.fragmentcount read.1)
        { c with md5ctx := md5.update c.md5ctx data } with
      | error stop =>
        rw [hcompare] at h
        cases h
      | ok compared =>
        rw [hcompare] at h
        obtain ⟨hctx, hprevious⟩ := compareFragment_ok hcompare
        rw [reportProgress_ok h]
        exact ⟨⟨data, rfl, hctx⟩, Or.inr hprevious⟩
    · rw [reportProgress_ok h]
      exact ⟨⟨data, rfl, rfl⟩, Or.inl rfl⟩

/-- The number is that of no fragment, or of a buffer before. -/
def Before (d : Descriptor) (offset : ℕ) (c : Check γ) : Prop :=
  c.previous_fragment = 0 ∨
    ∃ before < offset, c.previous_fragment = currentFragment d.limit d.fragmentcount before

theorem Before.mono {offset offset' : ℕ} (h : Before d offset c) (hle : offset ≤ offset') :
    Before d offset' c := by
  rcases h with h | ⟨before, hlt, h⟩
  · exact Or.inl h
  · exact Or.inr ⟨before, hlt.trans_le hle, h⟩

theorem before_step {fragmentsums buf : Str} {offset : ℕ} (h : Before d offset c)
    (hbuf : buf ≠ []) (hpass : pass md5 d fragmentsums cb c (offset, buf) = .ok c') :
    Before d (offset + buf.length) c' := by
  have hpos := List.length_pos_iff.mpr hbuf
  rcases (pass_ok hpass).2 with hsame | hnew
  · have hmono := h.mono (show offset ≤ offset + buf.length by omega)
    unfold Before at hmono ⊢
    rw [hsame]
    exact hmono
  · exact Or.inr ⟨offset, by omega, hnew⟩

theorem reached_reads {fragmentsums : Str} {cut : Cut} {rs : List (ℕ × Str)} {offset : ℕ}
    (h : Reached (pass md5 d fragmentsums cb) rs c read c')
    (hrs : rs = reads cut image d.limit offset) (hc : Before d offset c) :
    IsRead image d.limit read ∧ Before d read.1 c' := by
  induction h generalizing offset with
  | @here read rest s =>
    have hmem : read ∈ reads cut image d.limit offset := hrs ▸ List.mem_cons_self
    by_cases hgo : offset < d.limit ∧ piece cut image d.limit offset ≠ []
    · rw [reads_of_running hgo.1 hgo.2] at hrs
      cases hrs
      exact ⟨isRead_of_mem hmem, hc⟩
    · rw [reads_of_done hgo] at hrs
      cases hrs
  | @later read rest s s' read' s'' hstep _ ih =>
    by_cases hgo : offset < d.limit ∧ piece cut image d.limit offset ≠ []
    · rw [reads_of_running hgo.1 hgo.2] at hrs
      cases hrs
      exact ih rfl (before_step hc hgo.2 hstep)
    · rw [reads_of_done hgo] at hrs
      cases hrs

theorem checks_reads (h : Checks md5 cuts image cb buffers d read c) :
    IsRead image d.limit read ∧ Before d read.1 c :=
  reached_reads h.2.2 rfl (Or.inl rfl)

theorem compares_ne_zero (h : Checks md5 cuts image cb buffers d read c)
    (hcompares : Compares d read c) (hcount : d.fragmentcount.natAbs < 2 ^ 20) :
    currentFragment d.limit d.fragmentcount read.1 ≠ 0 := by
  obtain ⟨hread, hbefore⟩ := checks_reads h
  intro hzero
  apply hcompares.2.2
  rcases hbefore with hnone | ⟨before, hlt, hprevious⟩
  · rw [hzero, hnone]
  · rw [hzero, hprevious, currentFragment_zero hlt.le hread.lt (limit_lt h.2.1) hcount hzero]

theorem sumsInside_iff_countFits (h : Checks md5 cuts image cb buffers d read c)
    (hcompares : Compares d read c) :
    SumsInside d.fragmentcount (currentFragment d.limit d.fragmentcount read.1) ↔
      CountFits d.limit d.fragmentcount read.1 := by
  unfold CountFits
  split
  · rename_i hcount
    exact sumsInside_of_small (checks_reads h).1.lt (limit_lt h.2.1) hcount
      (compares_ne_zero h hcompares hcount)
  · rename_i hcount
    rw [sumsInside_of_large (not_lt.mp hcount), sumStart]
    exact tdiv_between (n := 60) (by omega)

theorem checked_le (h : Checks md5 cuts image cb buffers d read c)
    (hskip : 0 ≤ Int.bmod (d.skipsectors * 2048) (2 ^ 32)) :
    read.1 + read.2.length ≤ d.isosize.toNat := by
  have hle := (checks_reads h).1.le
  unfold Descriptor.limit at hle
  omega

/-- The reads go on to where the check ends, or the medium does. -/
theorem exists_lastRead (cut : Cut) {limit : ℤ} {offset : ℕ} (hlt : offset < limit)
    (hinside : offset < image.length) : ∃ read ∈ reads cut image limit offset,
      (limit ≤ (read.1 + read.2.length : ℕ) ∨ image.length ≤ read.1 + read.2.length) := by
  refine reads_induction (P := fun offset rs => offset < limit → offset < image.length →
    ∃ read ∈ rs, (limit ≤ (read.1 + read.2.length : ℕ) ∨ image.length ≤ read.1 + read.2.length))
    (fun offset hdone hlt hinside => absurd ⟨hlt, hinside⟩ hdone) ?_ offset hlt hinside
  intro offset buf rest _ ih _ _
  by_cases hend : limit ≤ (offset + buf.length : ℕ) ∨ image.length ≤ offset + buf.length
  · exact ⟨(offset, buf), List.mem_cons_self, hend⟩
  · obtain ⟨read, hmem, hread⟩ := ih (by omega) (by omega)
    exact ⟨read, List.mem_cons_of_mem _ hmem, hread⟩

theorem checked_iff (hmedia : (parsepvd cuts.media image buffers.stack.pvd).isSome = true)
    (hd : parsepvd cuts.check image buffers.stack.pvd = some d)
    (hskip : Int.bmod (d.skipsectors * 2048) (2 ^ 32) < 0) :
    (∀ read (c : Check γ), Checks md5 cuts image cb buffers d read c →
      read.1 + read.2.length ≤ d.isosize.toNat) ↔ ¬Overruns md5 cuts image cb buffers d := by
  have hsplit : reads cuts.data image d.limit 0 = insideReads cuts image d ++
      (reads cuts.data image d.limit 0).dropWhile fun read =>
        read.1 + read.2.length ≤ d.isosize.toNat := (List.takeWhile_append_dropWhile ..).symm
  have hlimit : d.isosize < d.limit := by
    unfold Descriptor.limit
    omega
  constructor
  · rintro h ⟨hpositive, hlonger, c, hgoesOn⟩
    cases hbehind : (reads cuts.data image d.limit 0).dropWhile fun read =>
        read.1 + read.2.length ≤ d.isosize.toNat with
    | nil =>
      have hall := List.dropWhile_eq_nil_iff.mp hbehind
      obtain ⟨read, hmem, hend⟩ := exists_lastRead cuts.data hpositive
        (Nat.zero_lt_of_lt hlonger)
      have hin := of_decide_eq_true (hall read hmem)
      omega
    | cons read rest =>
      have hnot := List.head?_dropWhile_not
        (fun read : ℕ × Str => decide (read.1 + read.2.length ≤ d.isosize.toNat))
        (reads cuts.data image d.limit 0)
      rw [hbehind] at hnot hsplit
      refine of_decide_eq_false hnot (h read c ⟨hmedia, hd, ?_⟩)
      rw [hsplit]
      exact reached_of_ok hgoesOn
  · intro h read c hchecks
    have hread := (checks_reads hchecks).1
    by_contra hout
    apply h
    refine ⟨by have := hread.lt; omega, by have := hread.inside; omega, ?_⟩
    cases hfold : (insideReads cuts image d).foldlM (pass md5 d
        (d.fragmentsums.getD buffers.stack.fragmentsums) cb) (start md5 buffers.stack) with
    | ok c => exact ⟨c, rfl⟩
    | error e =>
      have hreached := hchecks.2.2
      rw [hsplit] at hreached
      have hin := List.mem_takeWhile_imp (p := fun read : ℕ × Str =>
        decide (read.1 + read.2.length ≤ d.isosize.toNat)) (mem_of_reached hreached hfold)
      exact absurd (of_decide_eq_true hin) hout

end

/-- Medium, reads, hash, callback and what the stack holds are arbitrary. -/
theorem accesses_inside_iff {γ : Type} (md5 : Md5 γ) (cuts : Cuts) (image : Str)
    (cb : Option (ℤ → ℤ → ℤ)) (buffers : Buffers) :
    Inside md5 cuts image cb buffers ↔ Bounded md5 cuts image cb buffers := by
  constructor
  · rintro ⟨happdata, hsums, hchecked⟩
    refine ⟨fun cut hcut appdata h => ?_, fun d read c h hcompares => ?_,
      fun hmedia d hd hskip => (checked_iff hmedia hd hskip).mp fun read c h =>
        (hchecked d read c h).1⟩
    · exact (appdataReads_inside_iff (length_appdataOf h)).mp (happdata cut hcut appdata h)
    · exact (sumsInside_iff_countFits h hcompares).mp (hsums d read c h hcompares)
  · rintro ⟨hclosed, hcount, hsectors⟩
    refine ⟨fun cut hcut appdata h => ?_, fun d read c h hcompares => ?_, fun d read c h => ?_⟩
    · exact (appdataReads_inside_iff (length_appdataOf h)).mpr (hclosed cut hcut appdata h)
    · exact (sumsInside_iff_countFits h hcompares).mpr (hcount d read c h hcompares)
    · refine ⟨?_, (checks_reads h).1.inside⟩
      by_cases hskip : Int.bmod (d.skipsectors * 2048) (2 ^ 32) < 0
      · exact (checked_iff h.1 h.2.1 hskip).mpr (hsectors h.1 d h.2.1 hskip) read c h
      · exact checked_le h (Int.not_lt.mp hskip)

/-! ## A status without a semicolon -/

def openStatus : Str := ascii "RHLISOSTATUS=1" ++ List.replicate 498 0x20

/-- Nothing but a volume descriptor with that status. -/
def openSector : Str := (1 :: List.replicate 882 0) ++ openStatus ++ List.replicate 653 0

def openMedium : Str := List.replicate 32768 0 ++ openSector

def cleared : Buffers := ⟨.replicate 2048 0, .replicate 61 0, .replicate 61 0⟩

theorem appdataOf_openMedium : appdataOf openMedium cleared (fun _ => 2047) = some openStatus := by
  have harea : readAt openSector APPDATA_OFFSET 512 = openStatus := by decide +kernel
  have hfound := searchPvd_complete openMedium 32768 cleared.stack.pvd
  have hpvd : cleared.stack.pvd.length = 2048 := cleared.pvd.length_toList
  rw [openMedium, searchPvd_first (by decide +kernel) rfl hpvd] at hfound
  unfold appdataOf
  rw [show 16 * 2048 = 32768 from rfl, openMedium, hfound]
  exact congrArg some harea

theorem accesses_openStatus : ¬ Inside Md5.md5 completeReads openMedium none cleared := by
  intro h
  have hinside := h.appdata _ (Or.inl rfl) openStatus appdataOf_openMedium
  rw [appdataReads_inside_iff (by decide +kernel)] at hinside
  have hscanned : openStatus.take 511 ++ [0] ∈ scannedAppData openStatus := List.mem_cons_self
  exact absurd (hinside _ hscanned) (by decide +kernel)

end Comodoo.CheckAccesses
