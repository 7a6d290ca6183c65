import Comodoo.ComparisonSort
import Comodoo.CpioInstall

set_option autoImplicit false

/-!
# The order of drives

`compareDrives` of `isys.py`, which goes by the BIOS numbers of two drives if both have one, and by
their names otherwise.
-/
namespace Comodoo.DriveOrder
open CString ComparisonSort
open CpioInstall (strcmp strcmp_eq strcmp_gt strcmp_trans)

abbrev BiosDisks := Str → Option ℤ

/-- `type1` and `type2`. -/
def driveType (name : Str) : ℤ :=
  if (ascii "hd").isPrefixOf name then 0
  else if (ascii "sd").isPrefixOf name then 1
  else if (ascii "vd").isPrefixOf name ∨ (ascii "xvd").isPrefixOf name then -1
  else 2

/-- The part behind the BIOS numbers. Python compares strings as `strcmp` does. -/
def compareNames (first second : Str) : ℤ :=
  if driveType first < driveType second then -1
  else if driveType first > driveType second then 1
  else if first.length < second.length then -1
  else if first.length > second.length then 1
  else
    match strcmp first second with
    | .lt => -1
    | .gt => 1
    | .eq => 0

def compareDrives (biosdisks : BiosDisks) (first second : Str) : ℤ :=
  match biosdisks first, biosdisks second with
  | some one, some two =>
    if one < two then -1
    else if one > two then 1
    else compareNames first second
  | _, _ => compareNames first second

/-- The comparison is consistent, only equal names compare equal, and the order of the sorted list
does not depend on the order before. -/
structure WellOrdered (biosdisks : BiosDisks) (drives : List Str) : Prop where
  consistent : Consistent (compareDrives biosdisks) drives
  onlyEqual : ∀ a ∈ drives, ∀ b ∈ drives, compareDrives biosdisks a b = 0 → a = b
  oneOrder : ∀ sort, Sorts sort → ∀ others : List Str, others.Perm drives →
    sort (compareDrives biosdisks) others = sort (compareDrives biosdisks) drives

/-- Two drives whose numbers and names have opposite orders, and by its name a drive without a number
between them. -/
def Crossing (biosdisks : BiosDisks) (drives : List Str) : Prop :=
  ∃ x ∈ drives, ∃ y ∈ drives, ∃ z ∈ drives, ∃ m n, biosdisks x = some m ∧ biosdisks y = some n ∧
    n < m ∧ biosdisks z = none ∧ compareNames x z < 0 ∧ compareNames z y < 0

section Names
variable {a b c : Str}

theorem compareNames_neg_iff : compareNames a b < 0 ↔ driveType a < driveType b ∨
    (driveType a = driveType b ∧ (a.length < b.length ∨
      (a.length = b.length ∧ strcmp a b = .lt))) := by
  unfold compareNames
  split_ifs with hlow hhigh hshort hlong
  · simp [hlow]
  · refine iff_of_false (by decide) ?_
    omega
  · exact iff_of_true (by decide) (Or.inr ⟨by omega, Or.inl hshort⟩)
  · refine iff_of_false (by decide) ?_
    omega
  · have htype : driveType a = driveType b := by omega
    have hlen : a.length = b.length := by omega
    simp only [htype, hlen, lt_irrefl, true_and, false_or]
    cases strcmp a b <;> decide

theorem compareNames_zero_iff : compareNames a b = 0 ↔ a = b := by
  constructor
  · unfold compareNames
    split_ifs
    · exact fun h => absurd h (by decide)
    · exact fun h => absurd h (by decide)
    · exact fun h => absurd h (by decide)
    · exact fun h => absurd h (by decide)
    · rw [← strcmp_eq]
      cases strcmp a b <;> decide
  · rintro rfl
    have hself : strcmp a a = .eq := strcmp_eq.mpr rfl
    simp [compareNames, hself]

theorem compareNames_symm (a b : Str) : compareNames a b = -compareNames b a := by
  have hgt := strcmp_gt (s := a) (t := b)
  have hlt := strcmp_gt (s := b) (t := a)
  unfold compareNames
  split_ifs <;> first | omega | skip
  cases h : strcmp a b with
  | lt => rw [hlt.mpr h]
  | gt =>
    rw [hgt.mp h]
    rfl
  | eq =>
    rw [strcmp_eq.mpr (strcmp_eq.mp h).symm]
    rfl

theorem compareNames_trans (hab : compareNames a b < 0) (hbc : compareNames b c < 0) :
    compareNames a c < 0 := by
  rw [compareNames_neg_iff] at hab hbc ⊢
  rcases hab with htype | ⟨htype, hlen | ⟨hlen, htext⟩⟩
  · left
    omega
  · rcases hbc with htype' | ⟨htype', hlen' | ⟨hlen', -⟩⟩
    · left
      omega
    · exact Or.inr ⟨htype.trans htype', Or.inl (hlen.trans hlen')⟩
    · exact Or.inr ⟨htype.trans htype', Or.inl (hlen' ▸ hlen)⟩
  · rcases hbc with htype' | ⟨htype', hlen' | ⟨hlen', htext'⟩⟩
    · left
      omega
    · exact Or.inr ⟨htype.trans htype', Or.inl (hlen ▸ hlen')⟩
    · exact Or.inr ⟨htype.trans htype', Or.inr ⟨hlen.trans hlen', strcmp_trans htext htext'⟩⟩

theorem compareNames_le_trans (hab : compareNames a b ≤ 0) (hbc : compareNames b c ≤ 0) :
    compareNames a c ≤ 0 := by
  rcases Int.lt_or_eq_of_le hab with hab | hab
  · rcases Int.lt_or_eq_of_le hbc with hbc | hbc
    · exact Int.le_of_lt (compareNames_trans hab hbc)
    · rw [← compareNames_zero_iff.mp hbc]
      exact Int.le_of_lt hab
  · rw [compareNames_zero_iff.mp hab]
    exact hbc

end Names

section Drives
variable {biosdisks : BiosDisks} {drives : List Str} {a b c : Str} {m n : ℤ}

theorem compareDrives_numbers (ha : biosdisks a = some m) (hb : biosdisks b = some n) :
    compareDrives biosdisks a b =
      if m < n then -1 else if m > n then 1 else compareNames a b := by
  rw [compareDrives, ha, hb]

theorem compareDrives_first (ha : biosdisks a = none) :
    compareDrives biosdisks a b = compareNames a b := by
  rw [compareDrives, ha]

theorem compareDrives_second (hb : biosdisks b = none) :
    compareDrives biosdisks a b = compareNames a b := by
  rw [compareDrives, hb]
  cases biosdisks a <;> rfl

theorem compareDrives_symm (biosdisks : BiosDisks) (a b : Str) :
    compareDrives biosdisks a b = -compareDrives biosdisks b a := by
  cases ha : biosdisks a with
  | none =>
    rw [compareDrives_first ha, compareDrives_second ha]
    exact compareNames_symm a b
  | some m =>
    cases hb : biosdisks b with
    | none =>
      rw [compareDrives_first hb, compareDrives_second hb]
      exact compareNames_symm a b
    | some n =>
      have hnames := compareNames_symm a b
      rw [compareDrives_numbers ha hb, compareDrives_numbers hb ha]
      split_ifs <;> omega

theorem compareDrives_zero (h : compareDrives biosdisks a b = 0) : a = b := by
  cases ha : biosdisks a with
  | none =>
    rw [compareDrives_first ha] at h
    exact compareNames_zero_iff.mp h
  | some m =>
    cases hb : biosdisks b with
    | none =>
      rw [compareDrives_second hb] at h
      exact compareNames_zero_iff.mp h
    | some n =>
      rw [compareDrives_numbers ha hb] at h
      apply compareNames_zero_iff.mp
      split_ifs at h <;> omega

theorem compareDrives_nonpos (ha : biosdisks a = some m) (hb : biosdisks b = some n) :
    compareDrives biosdisks a b ≤ 0 ↔ m < n ∨ (m = n ∧ compareNames a b ≤ 0) := by
  rw [compareDrives_numbers ha hb]
  split_ifs with hlow hhigh
  · exact iff_of_true (by decide) (Or.inl hlow)
  · refine iff_of_false (by decide) ?_
    omega
  · have heq : m = n := by omega
    simp [heq]

/-- Of two drives only one of which has a number the names are not the same. -/
theorem names_strict (ha : biosdisks a = some m) (hb : biosdisks b = none)
    (hnames : compareNames a b ≤ 0) : compareNames a b < 0 := by
  refine lt_of_le_of_ne hnames (fun hzero => ?_)
  rw [compareNames_zero_iff.mp hzero, hb] at ha
  cases ha

theorem names_strict' (ha : biosdisks a = none) (hb : biosdisks b = some n)
    (hnames : compareNames a b ≤ 0) : compareNames a b < 0 := by
  refine lt_of_le_of_ne hnames (fun hzero => ?_)
  rw [compareNames_zero_iff.mp hzero, hb] at ha
  cases ha

theorem names_back (h : ¬ compareNames a c ≤ 0) : compareNames c a < 0 := by
  have hsymm := compareNames_symm a c
  omega

/-- Transitivity fails only where two numbers contradict two names. -/
theorem chained_of_not_crossing (hcross : ¬ Crossing biosdisks drives) (ha : a ∈ drives)
    (hb : b ∈ drives) (hc : c ∈ drives) : Chained (compareDrives biosdisks) a b c := by
  intro hab hbc
  cases hva : biosdisks a with
  | none =>
    rw [compareDrives_first hva] at hab ⊢
    cases hvb : biosdisks b with
    | none =>
      rw [compareDrives_first hvb] at hbc
      exact compareNames_le_trans hab hbc
    | some n =>
      cases hvc : biosdisks c with
      | none =>
        rw [compareDrives_second hvc] at hbc
        exact compareNames_le_trans hab hbc
      | some p =>
        rw [compareDrives_nonpos hvb hvc] at hbc
        rcases hbc with hlow | ⟨-, hbc⟩
        · by_contra hback
          exact hcross ⟨c, hc, b, hb, a, ha, p, n, hvc, hvb, hlow, hva, names_back hback,
            names_strict' hva hvb hab⟩
        · exact compareNames_le_trans hab hbc
  | some m =>
    cases hvb : biosdisks b with
    | none =>
      rw [compareDrives_second hvb] at hab
      rw [compareDrives_first hvb] at hbc
      have hac := compareNames_le_trans hab hbc
      cases hvc : biosdisks c with
      | none =>
        rw [compareDrives_second hvc]
        exact hac
      | some p =>
        rw [compareDrives_nonpos hva hvc]
        have hmp : m ≤ p := by
          by_contra hgt
          exact hcross ⟨a, ha, c, hc, b, hb, m, p, hva, hvc, by omega, hvb,
            names_strict hva hvb hab, names_strict' hvb hvc hbc⟩
        exact (Int.lt_or_eq_of_le hmp).imp id (fun heq => ⟨heq, hac⟩)
    | some n =>
      rw [compareDrives_nonpos hva hvb] at hab
      cases hvc : biosdisks c with
      | none =>
        rw [compareDrives_second hvc] at hbc ⊢
        rcases hab with hlow | ⟨-, hab⟩
        · by_contra hback
          exact hcross ⟨b, hb, a, ha, c, hc, n, m, hvb, hva, hlow, hvc,
            names_strict hvb hvc hbc, names_back hback⟩
        · exact compareNames_le_trans hab hbc
      | some p =>
        rw [compareDrives_nonpos hvb hvc] at hbc
        rw [compareDrives_nonpos hva hvc]
        rcases hab with hlow | ⟨hmn, hab⟩
        · left
          omega
        · rcases hbc with hlow | ⟨hnp, hbc⟩
          · left
            omega
          · exact Or.inr ⟨hmn.trans hnp, compareNames_le_trans hab hbc⟩

/-- `compareDrives` orders a list of drives unless a drive without a number comes between two whose
numbers contradict their names. -/
theorem compareDrives_wellOrdered_iff (biosdisks : BiosDisks) (drives : List Str) :
    WellOrdered biosdisks drives ↔ ¬ Crossing biosdisks drives := by
  constructor
  · rintro hwell ⟨x, hx, y, hy, z, hz, m, n, hvx, hvy, hlow, hvz, hxz, hzy⟩
    have hchained := hwell.consistent.chained x hx z hz y hy
    rw [Chained, compareDrives_second hvz, compareDrives_first hvz,
      compareDrives_nonpos hvx hvy] at hchained
    have hle := hchained (Int.le_of_lt hxz) (Int.le_of_lt hzy)
    omega
  · intro hcross
    have hconsistent : Consistent (compareDrives biosdisks) drives :=
      { opposite := fun a _ b _ => by
          rw [OppositeSigns, compareDrives_symm biosdisks a b, Int.sign_neg]
        chained := fun a ha b hb c hc => chained_of_not_crossing hcross ha hb hc }
    refine ⟨hconsistent, fun a _ b _ => compareDrives_zero, fun sort hsort others hperm => ?_⟩
    exact eq_of_inOrder hconsistent (fun a _ b _ => compareDrives_zero)
      ((hsort.perm _ others).trans hperm) (hsort.perm _ drives)
      (hsort.inOrder _ others (hconsistent.perm hperm)) (hsort.inOrder _ drives hconsistent)

end Drives

/-- The BIOS boots from `sda`, has `hda` for its second disk and does not know `hdb`. -/
def bootFromScsi : BiosDisks := fun name =>
  if name = ascii "sda" then some 80 else if name = ascii "hda" then some 81 else none

theorem bootFromScsi_not_ordered : ¬ ∀ biosdisks drives, WellOrdered biosdisks drives := by
  intro hall
  have hchained := (hall bootFromScsi [ascii "sda", ascii "hda", ascii "hdb"]).consistent.chained
    (ascii "hda") (by simp) (ascii "hdb") (by simp) (ascii "sda") (by simp)
  have hfirst : compareDrives bootFromScsi (ascii "hda") (ascii "hdb") = -1 := by decide +kernel
  have hsecond : compareDrives bootFromScsi (ascii "hdb") (ascii "sda") = -1 := by decide +kernel
  have hthird : compareDrives bootFromScsi (ascii "hda") (ascii "sda") = 1 := by decide +kernel
  rw [Chained, hfirst, hsecond, hthird] at hchained
  exact absurd (hchained (by decide) (by decide)) (by decide)

end Comodoo.DriveOrder
