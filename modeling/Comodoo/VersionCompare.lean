import Comodoo.CpioInstall
import Comodoo.DecimalText

set_option autoImplicit false

/-!
# Comparing names as versions

`rpmvercmp` and `simpleStringCmp` of `stage-1/loadermisc.c`. A name is read as segments of letters
and of digits, with separators between them; `compareVersions` is the comparison in these terms.
-/
namespace Comodoo.VersionCompare
open CString HttpHeaders DecimalText
open CpioInstall (strcmp strcmp_eq strcmp_gt strcmp_trans)

def isalpha (b : UInt8) : Bool := (0x41 ≤ b ∧ b ≤ 0x5a) ∨ (0x61 ≤ b ∧ b ≤ 0x7a)

def isalnum (b : UInt8) : Bool := isalpha b || isdigit b

def skipSeparators (s : Str) : Str := s.dropWhile (fun b => !isalnum b)

def skipZeros (s : Str) : Str := s.dropWhile (fun b => b = 0x30)

def signOf : Ordering → ℤ
  | .lt => -1
  | .eq => 0
  | .gt => 1

/-- Two segments of one kind; with 0 the loop goes on. -/
def compareSegments (isnum : Bool) (one two : Str) : ℤ :=
  if isnum then
    let one := skipZeros one
    let two := skipZeros two
    if one.length > two.length then 1
    else if two.length > one.length then -1
    else signOf (strcmp one two)
  else signOf (strcmp one two)

/-- What is left of both names at the head of the loop. The first argument is fuel. -/
def versionLoop : ℕ → Str → Str → ℤ
  | 0, _, _ => 0
  | fuel + 1, one, two =>
    if one ≠ [] ∧ two ≠ [] then
      let one := skipSeparators one
      let two := skipSeparators two
      let isnum := one.head?.any isdigit
      let kind := if isnum then isdigit else isalpha
      if one.takeWhile kind = [] then -1
      else if two.takeWhile kind = [] then (if isnum then 1 else -1)
      else
        let rc := compareSegments isnum (one.takeWhile kind) (two.takeWhile kind)
        if rc ≠ 0 then rc else versionLoop fuel (one.dropWhile kind) (two.dropWhile kind)
    else if one = [] ∧ two = [] then 0
    else if one = [] then -1
    else 1

/-- Every round takes a segment off `a`, so there are no more rounds than bytes in it. -/
def rpmvercmp (a b : Str) : ℤ := if a = b then 0 else versionLoop (a.length + 1) a b

def simpleStringCmp (a b : Str) : ℤ := rpmvercmp a b

/-- A name as the comparison sees it: leading zeros and the separators between two segments are
gone, those behind the last segment are not. -/
inductive Version where
  | done
  | separators
  | alpha (letters : Str) (rest : Version)
  | number (n : ℕ) (rest : Version)
  deriving DecidableEq, Repr

def versionOf (s : Str) : Version :=
  if s = [] then .done
  else
    match _h : skipSeparators s with
    | [] => .separators
    | b :: t =>
      if isdigit b then
        .number (digitsValue ((b :: t).takeWhile isdigit)) (versionOf (t.dropWhile isdigit))
      else .alpha ((b :: t).takeWhile isalpha) (versionOf (t.dropWhile isalpha))
termination_by s.length
decreasing_by
  all_goals
    have hskip := (List.dropWhile_suffix (l := s) (fun b => !isalnum b)).length_le
    have hrest := (List.dropWhile_suffix (l := t) isdigit).length_le
    have hrest' := (List.dropWhile_suffix (l := t) isalpha).length_le
    rw [← skipSeparators, _h, List.length_cons] at hskip
    omega

def compareNumbers (m n : ℕ) : ℤ := if m = n then 0 else if m < n then -1 else 1

def compareVersions : Version → Version → ℤ
  | .done, .done => 0
  | .done, _ => -1
  | _, .done => 1
  | .separators, _ => -1
  | .alpha _ _, .separators => -1
  | .number _ _, .separators => 1
  | .alpha _ _, .number _ _ => -1
  | .number _ _, .alpha _ _ => 1
  | .alpha s v, .alpha t w => if s = t then compareVersions v w else signOf (strcmp s t)
  | .number m v, .number n w =>
    if m = n then compareVersions v w else compareNumbers m n

section Segments
variable {ds es : Str}

theorem skipZeros_digits (hd : ∀ b ∈ ds, isdigit b = true) :
    ∀ b ∈ skipZeros ds, isdigit b = true :=
  fun b hb => hd b ((List.dropWhile_suffix _).subset hb)

theorem digitsValue_skipZeros (ds : Str) : digitsValue (skipZeros ds) = digitsValue ds := by
  induction ds with
  | nil => rfl
  | cons d ds ih =>
    by_cases hzero : d = 0x30
    · have hskip : skipZeros (d :: ds) = skipZeros ds := List.dropWhile_cons_of_pos (by simp [hzero])
      have hvalue : (0x30 : UInt8).toNat - 0x30 = 0 := rfl
      rw [hskip, ih, digitsValue_cons, hzero, hvalue, Nat.zero_mul, Nat.zero_add]
    · have hskip : skipZeros (d :: ds) = d :: ds := List.dropWhile_cons_of_neg (by simp [hzero])
      rw [hskip]

theorem digitsValue_lt_of_length (hd : ∀ b ∈ ds, isdigit b = true)
    (he : ∀ b ∈ es, isdigit b = true) (hlen : ds.length < (skipZeros es).length) :
    digitsValue ds < digitsValue es := by
  rw [← digitsValue_skipZeros es]
  cases hskip : skipZeros es with
  | nil =>
    rw [hskip] at hlen
    exact absurd hlen (Nat.not_lt_zero _)
  | cons e rest =>
    have hne : e ≠ 0x30 := by
      have hhead := List.head?_dropWhile_not (fun b : UInt8 => decide (b = 0x30)) es
      rw [← skipZeros, hskip] at hhead
      simpa using hhead
    have hdigit : 0x31 ≤ e.toNat := by
      have hrange := skipZeros_digits he e (by rw [hskip]; exact List.mem_cons_self)
      rw [isdigit, decide_eq_true_iff, UInt8.le_iff_toNat_le] at hrange
      have h48 : (0x30 : UInt8).toNat = 48 := rfl
      have hother : e.toNat ≠ 48 := fun h => hne (UInt8.toNat_inj.mp h)
      omega
    rw [hskip, List.length_cons] at hlen
    have hpow : 10 ^ ds.length ≤ 10 ^ rest.length :=
      Nat.pow_le_pow_right (by decide) (Nat.le_of_lt_succ hlen)
    have hmul := Nat.mul_le_mul_right (10 ^ rest.length) (show 1 ≤ e.toNat - 0x30 by omega)
    have hlow := digitsValue_lt hd
    rw [digitsValue_cons]
    omega

theorem strcmp_digits (hd : ∀ b ∈ ds, isdigit b = true) (he : ∀ b ∈ es, isdigit b = true)
    (hlen : ds.length = es.length) :
    signOf (strcmp ds es) = compareNumbers (digitsValue ds) (digitsValue es) := by
  induction ds generalizing es with
  | nil =>
    rw [List.length_eq_zero_iff.mp hlen.symm]
    rfl
  | cons d ds ih =>
    cases es with
    | nil => cases hlen
    | cons e es =>
      rw [List.length_cons, List.length_cons, Nat.add_right_cancel_iff] at hlen
      have hds := fun b hb => hd b (List.mem_cons_of_mem d hb)
      have hes := fun b hb => he b (List.mem_cons_of_mem e hb)
      have hdlow := digitsValue_lt hds
      have helow := digitsValue_lt hes
      have hdrange := hd d List.mem_cons_self
      have herange := he e List.mem_cons_self
      rw [isdigit, decide_eq_true_iff, UInt8.le_iff_toNat_le] at hdrange herange
      have h48 : (0x30 : UInt8).toNat = 48 := rfl
      rw [strcmp, digitsValue_cons, digitsValue_cons, ← hlen]
      rw [← hlen] at helow
      simp only [UInt8.lt_iff_toNat_lt]
      split_ifs with hlt hgt
      · have hmul := Nat.mul_le_mul_right (10 ^ ds.length)
          (show d.toNat - 0x30 + 1 ≤ e.toNat - 0x30 by omega)
        rw [Nat.add_mul] at hmul
        rw [compareNumbers, if_neg (by omega), if_pos (by omega)]
        rfl
      · have hmul := Nat.mul_le_mul_right (10 ^ ds.length)
          (show e.toNat - 0x30 + 1 ≤ d.toNat - 0x30 by omega)
        rw [Nat.add_mul] at hmul
        rw [compareNumbers, if_neg (by omega), if_neg (by omega)]
        rfl
      · have heq : d.toNat = e.toNat := by omega
        rw [ih hds hes hlen, heq, compareNumbers, compareNumbers]
        simp only [Nat.add_left_cancel_iff, Nat.add_lt_add_iff_left]

theorem compareSegments_digits (hd : ∀ b ∈ ds, isdigit b = true)
    (he : ∀ b ∈ es, isdigit b = true) :
    compareSegments true ds es = compareNumbers (digitsValue ds) (digitsValue es) := by
  have hd' := skipZeros_digits hd
  have he' := skipZeros_digits he
  have hdlow := digitsValue_lt_of_length he' hd
  have helow := digitsValue_lt_of_length hd' he
  rw [digitsValue_skipZeros] at hdlow helow
  rw [compareSegments, if_pos rfl]
  dsimp only
  split_ifs with hgt hlt
  · have := hdlow hgt
    rw [compareNumbers, if_neg (by omega), if_neg (by omega)]
  · have := helow hlt
    rw [compareNumbers, if_neg (by omega), if_pos (by omega)]
  · rw [strcmp_digits hd' he' (by omega), digitsValue_skipZeros, digitsValue_skipZeros]

theorem signOf_strcmp_eq_zero : signOf (strcmp ds es) = 0 ↔ ds = es := by
  rw [← strcmp_eq]
  cases strcmp ds es <;> decide

theorem compareNumbers_eq_zero (m n : ℕ) : compareNumbers m n = 0 ↔ m = n := by
  unfold compareNumbers
  split_ifs <;> simp [*]

end Segments

section Reading
variable {s t : Str} {b : UInt8}

theorem isalnum_of_skip (hskip : skipSeparators s = b :: t) : isalnum b = true := by
  have hhead := List.head?_dropWhile_not (fun b => !isalnum b) s
  rw [← skipSeparators, hskip] at hhead
  simpa using hhead

theorem versionOf_nil : versionOf [] = .done := by
  rw [versionOf, if_pos rfl]

theorem versionOf_separators (hne : s ≠ []) (hskip : skipSeparators s = []) :
    versionOf s = .separators := by
  rw [versionOf, if_neg hne]
  split
  · rfl
  · rename_i heq
    rw [hskip] at heq
    cases heq

theorem versionOf_number (hskip : skipSeparators s = b :: t) (hdigit : isdigit b = true) :
    versionOf s = .number (digitsValue ((b :: t).takeWhile isdigit))
      (versionOf ((b :: t).dropWhile isdigit)) := by
  have hne : s ≠ [] := by
    rintro rfl
    cases hskip
  rw [versionOf, if_neg hne]
  split
  · rename_i heq
    rw [hskip] at heq
    cases heq
  · rename_i heq
    rw [hskip] at heq
    cases heq
    rw [if_pos hdigit, List.dropWhile_cons_of_pos hdigit]

theorem versionOf_alpha (hskip : skipSeparators s = b :: t) (hdigit : isdigit b = false) :
    versionOf s = .alpha ((b :: t).takeWhile isalpha)
      (versionOf ((b :: t).dropWhile isalpha)) := by
  have hne : s ≠ [] := by
    rintro rfl
    cases hskip
  have halpha : isalpha b = true := by
    have hkind := isalnum_of_skip hskip
    rwa [isalnum, hdigit, Bool.or_false] at hkind
  rw [versionOf, if_neg hne]
  split
  · rename_i heq
    rw [hskip] at heq
    cases heq
  · rename_i heq
    rw [hskip] at heq
    cases heq
    rw [if_neg (by simp [hdigit]), List.dropWhile_cons_of_pos halpha]

theorem versionOf_eq_done (s : Str) : versionOf s = .done ↔ s = [] := by
  constructor
  · intro hdone
    by_contra hne
    cases hskip : skipSeparators s with
    | nil =>
      rw [versionOf_separators hne hskip] at hdone
      cases hdone
    | cons b t =>
      cases hdigit : isdigit b with
      | true =>
        rw [versionOf_number hskip hdigit] at hdone
        cases hdone
      | false =>
        rw [versionOf_alpha hskip hdigit] at hdone
        cases hdone
  · rintro rfl
    exact versionOf_nil

theorem done_compareVersions {v : Version} (hv : v ≠ .done) : compareVersions .done v = -1 := by
  cases v with
  | done => exact absurd rfl hv
  | separators | alpha | number => rfl

theorem compareVersions_done {v : Version} (hv : v ≠ .done) : compareVersions v .done = 1 := by
  cases v with
  | done => exact absurd rfl hv
  | separators | alpha | number => rfl

theorem separators_compareVersions {v : Version} (hv : v ≠ .done) :
    compareVersions .separators v = -1 := by
  cases v with
  | done => exact absurd rfl hv
  | separators | alpha | number => rfl

end Reading

theorem isalpha_of_digit {b : UInt8} (hdigit : isdigit b = true) : isalpha b = false := by
  have hall : ∀ n < 256, isdigit (UInt8.ofNat n) = true → isalpha (UInt8.ofNat n) = false := by
    decide +kernel
  have hcase := hall b.toNat b.toNat_lt
  rw [UInt8.ofNat_toNat] at hcase
  exact hcase hdigit

theorem isalpha_of_skip {s t : Str} {b : UInt8} (hskip : skipSeparators s = b :: t)
    (hdigit : isdigit b = false) : isalpha b = true := by
  have hkind := isalnum_of_skip hskip
  rwa [isalnum, hdigit, Bool.or_false] at hkind

section Rounds
variable {fuel : ℕ} {a b t u : Str} {c d : UInt8}

theorem versionLoop_digits (hb : b ≠ []) (ht : skipSeparators a = c :: t)
    (hdigit : isdigit c = true) :
    versionLoop (fuel + 1) a b =
      if (skipSeparators b).takeWhile isdigit = [] then 1
      else if compareNumbers (digitsValue ((c :: t).takeWhile isdigit))
          (digitsValue ((skipSeparators b).takeWhile isdigit)) ≠ 0 then
        compareNumbers (digitsValue ((c :: t).takeWhile isdigit))
          (digitsValue ((skipSeparators b).takeWhile isdigit))
      else versionLoop fuel ((c :: t).dropWhile isdigit) ((skipSeparators b).dropWhile isdigit) := by
  have ha : a ≠ [] := by
    rintro rfl
    cases ht
  have hne : (c :: t).takeWhile isdigit ≠ [] := by simp [hdigit]
  rw [versionLoop, if_pos ⟨ha, hb⟩, ht]
  simp only [List.head?_cons, Option.any_some, hdigit, ↓reduceIte]
  rw [if_neg hne, compareSegments_digits (fun x => List.mem_takeWhile_imp)
    (fun x => List.mem_takeWhile_imp)]

theorem versionLoop_letters (hb : b ≠ []) (ht : skipSeparators a = c :: t)
    (hdigit : isdigit c = false) :
    versionLoop (fuel + 1) a b =
      if (skipSeparators b).takeWhile isalpha = [] then -1
      else if signOf (strcmp ((c :: t).takeWhile isalpha)
          ((skipSeparators b).takeWhile isalpha)) ≠ 0 then
        signOf (strcmp ((c :: t).takeWhile isalpha) ((skipSeparators b).takeWhile isalpha))
      else versionLoop fuel ((c :: t).dropWhile isalpha) ((skipSeparators b).dropWhile isalpha) := by
  have ha : a ≠ [] := by
    rintro rfl
    cases ht
  have hne : (c :: t).takeWhile isalpha ≠ [] := by simp [isalpha_of_skip ht hdigit]
  rw [versionLoop, if_pos ⟨ha, hb⟩, ht]
  simp only [List.head?_cons, Option.any_some, hdigit, Bool.false_eq_true, ↓reduceIte]
  rw [if_neg hne]
  simp only [compareSegments, Bool.false_eq_true, ↓reduceIte]

theorem versionLoop_eq (hfuel : a.length < fuel) :
    versionLoop fuel a b = compareVersions (versionOf a) (versionOf b) := by
  induction fuel generalizing a b with
  | zero => exact absurd hfuel (Nat.not_lt_zero _)
  | succ fuel ih =>
    have hdone := versionOf_eq_done b
    by_cases ha : a = []
    · by_cases hb : b = []
      · rw [ha, hb, versionOf_nil]
        rfl
      · rw [ha, versionOf_nil, done_compareVersions (mt hdone.mp hb)]
        simp [versionLoop, hb]
    · by_cases hb : b = []
      · rw [hb, versionOf_nil, compareVersions_done (mt (versionOf_eq_done a).mp ha)]
        simp [versionLoop, ha]
      · have hshort := (List.dropWhile_suffix (l := a) (fun b => !isalnum b)).length_le
        rw [← skipSeparators] at hshort
        cases ht : skipSeparators a with
        | nil =>
          rw [versionOf_separators ha ht, separators_compareVersions (mt hdone.mp hb), versionLoop,
            if_pos ⟨ha, hb⟩, ht]
          rfl
        | cons c t =>
          rw [ht, List.length_cons] at hshort
          cases hdigit : isdigit c with
          | true =>
            have hrest : ((c :: t).dropWhile isdigit).length < fuel := by
              have hdrop := (List.dropWhile_suffix (l := t) isdigit).length_le
              rw [List.dropWhile_cons_of_pos hdigit]
              omega
            rw [versionLoop_digits hb ht hdigit, versionOf_number ht hdigit]
            cases hu : skipSeparators b with
            | nil =>
              rw [versionOf_separators hb hu]
              rfl
            | cons d u =>
              cases hd : isdigit d with
              | false =>
                rw [versionOf_alpha hu hd, if_pos (List.takeWhile_cons_of_neg (by simp [hd]))]
                rfl
              | true =>
                rw [versionOf_number hu hd, if_neg (by simp [hd]), compareVersions, ih hrest]
                simp only [ne_eq, compareNumbers_eq_zero, ite_not]
          | false =>
            have halpha := isalpha_of_skip ht hdigit
            have hrest : ((c :: t).dropWhile isalpha).length < fuel := by
              have hdrop := (List.dropWhile_suffix (l := t) isalpha).length_le
              rw [List.dropWhile_cons_of_pos halpha]
              omega
            rw [versionLoop_letters hb ht hdigit, versionOf_alpha ht hdigit]
            cases hu : skipSeparators b with
            | nil =>
              rw [versionOf_separators hb hu]
              rfl
            | cons d u =>
              cases hd : isdigit d with
              | true =>
                rw [versionOf_number hu hd,
                  if_pos (List.takeWhile_cons_of_neg (by simp [isalpha_of_digit hd]))]
                rfl
              | false =>
                have hdalpha := isalpha_of_skip hu hd
                rw [versionOf_alpha hu hd, if_neg (by simp [hdalpha]), compareVersions, ih hrest]
                simp only [ne_eq, signOf_strcmp_eq_zero, ite_not]

end Rounds

theorem rpmvercmp_eq (a b : Str) :
    rpmvercmp a b = if a = b then 0 else compareVersions (versionOf a) (versionOf b) := by
  rw [rpmvercmp, versionLoop_eq (Nat.lt_succ_self _)]

end Comodoo.VersionCompare
