import Comodoo.ComparisonSort
import Comodoo.VersionCompare

set_option autoImplicit false

/-!
# The order of versions

When `simpleStringCmp` is a comparison that `qsort` can use, and what it makes of lists of numbers.
-/
namespace Comodoo.VersionOrder
open CString HttpHeaders DecimalText VersionCompare ComparisonSort
open CpioInstall (strcmp strcmp_eq strcmp_gt strcmp_trans)

/-- Behind segments that are alike, separators end one name where the other ends in separators or
has letters. -/
def Clash : Version → Version → Prop
  | .separators, .separators => True
  | .separators, .alpha _ _ => True
  | .alpha _ _, .separators => True
  | .alpha s v, .alpha t w => s = t ∧ Clash v w
  | .number m v, .number n w => m = n ∧ Clash v w
  | _, _ => False

section Signs
variable {s t u : Str} {m n p : ℕ}

theorem signOf_strcmp_symm (s t : Str) : signOf (strcmp s t) = -signOf (strcmp t s) := by
  have hgt := strcmp_gt (s := s) (t := t)
  have hlt := strcmp_gt (s := t) (t := s)
  have heq := (strcmp_eq (s := s) (t := t)).trans eq_comm |>.trans strcmp_eq.symm
  cases h : strcmp s t with
  | lt =>
    rw [hlt.mpr h]
    rfl
  | eq =>
    rw [heq.mp h]
    rfl
  | gt =>
    rw [hgt.mp h]
    rfl

theorem signOf_strcmp_neg (hne : s ≠ t) : signOf (strcmp s t) ≤ 0 ↔ strcmp s t = .lt := by
  have heq := mt strcmp_eq.mp hne
  cases h : strcmp s t with
  | lt => decide
  | eq => exact absurd h heq
  | gt => decide

theorem compareNumbers_symm (m n : ℕ) : compareNumbers m n = -compareNumbers n m := by
  unfold compareNumbers
  split_ifs <;> omega

theorem compareNumbers_neg (hne : m ≠ n) : compareNumbers m n ≤ 0 ↔ m < n := by
  unfold compareNumbers
  split_ifs <;> omega

end Signs

theorem compareVersions_symm (v w : Version) (hclash : ¬ Clash v w) :
    compareVersions v w = -compareVersions w v := by
  induction v generalizing w with
  | done => cases w <;> rfl
  | separators =>
    cases w with
    | done | number => rfl
    | separators | alpha => exact absurd trivial hclash
  | alpha s v ih =>
    cases w with
    | done | number => rfl
    | separators => exact absurd trivial hclash
    | alpha t w =>
      rw [compareVersions, compareVersions]
      by_cases hst : s = t
      · rw [if_pos hst, if_pos hst.symm]
        exact ih w (fun h => hclash ⟨hst, h⟩)
      · rw [if_neg hst, if_neg (Ne.symm hst)]
        exact signOf_strcmp_symm s t
  | number m v ih =>
    cases w with
    | done | separators | alpha => rfl
    | number n w =>
      rw [compareVersions, compareVersions]
      by_cases hmn : m = n
      · rw [if_pos hmn, if_pos hmn.symm]
        exact ih w (fun h => hclash ⟨hmn, h⟩)
      · rw [if_neg hmn, if_neg (Ne.symm hmn)]
        exact compareNumbers_symm m n

/-- Where two names clash, each comes before the other. -/
theorem compareVersions_clash (v w : Version) (hclash : Clash v w) : compareVersions v w = -1 := by
  induction v generalizing w with
  | done => cases w <;> exact hclash.elim
  | separators =>
    cases w with
    | done | number => exact hclash.elim
    | separators | alpha => rfl
  | alpha s v ih =>
    cases w with
    | done | number => exact hclash.elim
    | separators => rfl
    | alpha t w =>
      rw [compareVersions, if_pos hclash.1]
      exact ih w hclash.2
  | number m v ih =>
    cases w with
    | done | separators | alpha => exact hclash.elim
    | number n w =>
      rw [compareVersions, if_pos hclash.1]
      exact ih w hclash.2

theorem clash_symm (v w : Version) (hclash : Clash v w) : Clash w v := by
  induction v generalizing w with
  | done => cases w <;> exact hclash
  | separators => cases w <;> exact hclash
  | alpha s v ih =>
    cases w with
    | alpha t w => exact ⟨hclash.1.symm, ih w hclash.2⟩
    | done | separators | number => exact hclash
  | number m v ih =>
    cases w with
    | number n w => exact ⟨hclash.1.symm, ih w hclash.2⟩
    | done | separators | alpha => exact hclash

theorem compareVersions_chained (u v w : Version) (hclash : ¬ Clash u v)
    (huv : compareVersions u v ≤ 0) (hvw : compareVersions v w ≤ 0) : compareVersions u w ≤ 0 := by
  induction u generalizing v w with
  | done => cases w <;> simp [compareVersions]
  | separators =>
    cases w with
    | done => cases v <;> simp [compareVersions] at huv hvw
    | separators | alpha | number => simp [compareVersions]
  | alpha s u ih =>
    cases v with
    | done => simp [compareVersions] at huv
    | separators => exact absurd trivial hclash
    | alpha t v =>
      cases w with
      | done => simp [compareVersions] at hvw
      | separators | number => simp [compareVersions]
      | alpha r w =>
        rw [compareVersions] at huv hvw ⊢
        by_cases hst : s = t
        · subst hst
          rw [if_pos rfl] at huv
          by_cases hsr : s = r
          · rw [if_pos hsr] at hvw ⊢
            exact ih v w (fun h => hclash ⟨rfl, h⟩) huv hvw
          · rw [if_neg hsr] at hvw ⊢
            exact hvw
        · rw [if_neg hst, signOf_strcmp_neg hst] at huv
          by_cases htr : t = r
          · subst htr
            rw [if_neg hst, huv]
            decide
          · rw [if_neg htr, signOf_strcmp_neg htr] at hvw
            have hlt := strcmp_trans huv hvw
            have hsr : s ≠ r := by
              rintro rfl
              rw [strcmp_eq.mpr rfl] at hlt
              cases hlt
            rw [if_neg hsr, hlt]
            decide
    | number n v => cases w <;> simp [compareVersions] at hvw ⊢
  | number m u ih =>
    cases v with
    | done | separators | alpha => simp [compareVersions] at huv
    | number n v =>
      cases w with
      | done | separators | alpha => simp [compareVersions] at hvw
      | number p w =>
        rw [compareVersions] at huv hvw ⊢
        by_cases hmn : m = n
        · subst hmn
          rw [if_pos rfl] at huv
          by_cases hmp : m = p
          · rw [if_pos hmp] at hvw ⊢
            exact ih v w (fun h => hclash ⟨rfl, h⟩) huv hvw
          · rw [if_neg hmp] at hvw ⊢
            exact hvw
        · rw [if_neg hmn, compareNumbers_neg hmn] at huv
          by_cases hnp : n = p
          · subst hnp
            rw [if_neg hmn, compareNumbers_neg hmn]
            exact huv
          · rw [if_neg hnp, compareNumbers_neg hnp] at hvw
            have hmp : m ≠ p := by omega
            rw [if_neg hmp, compareNumbers_neg hmp]
            omega

/-- Both laws hold of three names unless the first two are different and clash. -/
theorem simpleStringCmp_ordered_iff (a b c : Str) :
    (OppositeSigns simpleStringCmp a b ∧ Chained simpleStringCmp a b c) ↔
      ¬ (a ≠ b ∧ Clash (versionOf a) (versionOf b)) := by
  constructor
  · rintro ⟨hopposite, -⟩ ⟨hne, hclash⟩
    rw [OppositeSigns, simpleStringCmp, simpleStringCmp, rpmvercmp_eq, rpmvercmp_eq, if_neg hne,
      if_neg (Ne.symm hne), compareVersions_clash _ _ hclash,
      compareVersions_clash _ _ (clash_symm _ _ hclash)] at hopposite
    exact absurd hopposite (by decide)
  · intro hclear
    rw [OppositeSigns, Chained]
    simp only [simpleStringCmp, rpmvercmp_eq]
    by_cases hab : a = b
    · subst hab
      simp
    · have hclash : ¬ Clash (versionOf a) (versionOf b) := fun h => hclear ⟨hab, h⟩
      rw [if_neg hab, if_neg (Ne.symm hab)]
      refine ⟨?_, fun hle hle' => ?_⟩
      · rw [compareVersions_symm _ _ hclash, Int.sign_neg]
      · by_cases hac : a = c
        · rw [if_pos hac]
        · rw [if_neg hac]
          by_cases hbc : b = c
          · rw [← hbc]
            exact hle
          · rw [if_neg hbc] at hle'
            exact compareVersions_chained _ _ _ hclash hle hle'

/-- `eth.` and `eth-` each come before the other. -/
theorem trailing_separators_clash :
    ¬ ∀ a b c, OppositeSigns simpleStringCmp a b ∧ Chained simpleStringCmp a b c := by
  intro hall
  have hopposite := (hall (ascii "eth.") (ascii "eth-") []).1
  have hfirst : simpleStringCmp (ascii "eth.") (ascii "eth-") = -1 := by decide +kernel
  have hsecond : simpleStringCmp (ascii "eth-") (ascii "eth.") = -1 := by decide +kernel
  rw [OppositeSigns, hfirst, hsecond] at hopposite
  exact absurd hopposite (by decide)

section Numbers

/-- Decimal digits, with any leading zeros. -/
structure Numeral where
  digits : Str
  ne_nil : digits ≠ []
  all_digits : ∀ b ∈ digits, isdigit b = true

def Numeral.value (n : Numeral) : ℕ := digitsValue n.digits

abbrev dot : UInt8 := 0x2e

def dotted (first : Numeral) (more : List Numeral) : Str :=
  first.digits ++ more.flatMap (fun n => dot :: n.digits)

def lexicographic (ms ns : List ℕ) : ℤ := if ms < ns then -1 else if ms = ns then 0 else 1

def numbers : List ℕ → Version := List.foldr Version.number .done

theorem compareVersions_numbers (ms ns : List ℕ) :
    compareVersions (numbers ms) (numbers ns) = lexicographic ms ns := by
  induction ms generalizing ns with
  | nil =>
    cases ns with
    | nil => decide
    | cons n ns => simp [numbers, compareVersions, lexicographic]
  | cons m ms ih =>
    cases ns with
    | nil => simp [numbers, compareVersions, lexicographic]
    | cons n ns =>
      change (if m = n then compareVersions (numbers ms) (numbers ns) else compareNumbers m n) = _
      rw [ih, lexicographic, lexicographic, compareNumbers]
      simp only [List.cons_lt_cons_iff, List.cons.injEq]
      by_cases hmn : m = n
      · subst hmn
        simp
      · simp [hmn]

theorem versionOf_digits {s rest : Str} (n : Numeral) (hskip : skipSeparators s = n.digits ++ rest)
    (hrest : ∀ b, rest.head? = some b → isdigit b = false) :
    versionOf s = .number n.value (versionOf rest) := by
  have htake : (n.digits ++ rest).takeWhile isdigit = n.digits :=
    takeWhile_append_stop n.all_digits hrest
  have hdrop : (n.digits ++ rest).dropWhile isdigit = rest :=
    dropWhile_append_stop n.all_digits hrest
  cases hdigits : n.digits with
  | nil => exact absurd hdigits n.ne_nil
  | cons b t =>
    have hb : isdigit b = true := n.all_digits b (by simp [hdigits])
    rw [hdigits, List.cons_append] at htake hdrop hskip
    rw [versionOf_number hskip hb, htake, hdrop, Numeral.value, hdigits]

theorem skipSeparators_digits (n : Numeral) (rest : Str) :
    skipSeparators (n.digits ++ rest) = n.digits ++ rest := by
  cases hdigits : n.digits with
  | nil => exact absurd hdigits n.ne_nil
  | cons b t =>
    have hb : isdigit b = true := n.all_digits b (by simp [hdigits])
    exact List.dropWhile_cons_of_neg (by simp [isalnum, hb])

theorem head_more {more : List Numeral} {b : UInt8}
    (hhead : (more.flatMap (fun n => dot :: n.digits)).head? = some b) : isdigit b = false := by
  cases more with
  | nil => cases hhead
  | cons n more =>
    cases hhead
    rfl

theorem versionOf_more (more : List Numeral) :
    versionOf (more.flatMap (fun n => dot :: n.digits)) = numbers (more.map Numeral.value) := by
  induction more with
  | nil => exact versionOf_nil
  | cons n more ih =>
    have hskip : skipSeparators ((n :: more).flatMap (fun n => dot :: n.digits)) =
        n.digits ++ more.flatMap (fun n => dot :: n.digits) := by
      have hdot : isalnum dot = false := by decide
      rw [List.flatMap_cons, List.cons_append, skipSeparators,
        List.dropWhile_cons_of_pos (by simp [hdot])]
      exact skipSeparators_digits n _
    rw [versionOf_digits n hskip (fun b => head_more), ih]
    rfl

theorem versionOf_dotted (first : Numeral) (more : List Numeral) :
    versionOf (dotted first more) = numbers ((first :: more).map Numeral.value) := by
  rw [dotted, versionOf_digits first (skipSeparators_digits first _) (fun b => head_more),
    versionOf_more]
  rfl

/-- Lists of numbers compare number by number, the shorter one first where they are alike. -/
theorem rpmvercmp_dotted (first first' : Numeral) (more more' : List Numeral) :
    rpmvercmp (dotted first more) (dotted first' more') =
      lexicographic ((first :: more).map Numeral.value) ((first' :: more').map Numeral.value) := by
  have hversions := compareVersions_numbers ((first :: more).map Numeral.value)
    ((first' :: more').map Numeral.value)
  rw [← versionOf_dotted, ← versionOf_dotted] at hversions
  rw [rpmvercmp_eq, hversions]
  split_ifs with htext
  · rw [← hversions, htext, versionOf_dotted, compareVersions_numbers, lexicographic]
    simp
  · rfl

end Numbers

end Comodoo.VersionOrder
