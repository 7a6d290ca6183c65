import Mathlib.Data.Int.Order.Basic
import Mathlib.Data.List.Perm.Basic
import Mathlib.Data.List.Sort
import Mathlib.Tactic.Common

set_option autoImplicit false

/-!
# Sorting by a comparison function

A comparison function returns a number below, at or above zero. `Sorts` is what a sorting function of
a library promises: a permutation, which is in order if the comparison is consistent on the list.
-/
namespace Comodoo.ComparisonSort

variable {α : Type}

def OppositeSigns (cmp : α → α → ℤ) (a b : α) : Prop := (cmp a b).sign = -(cmp b a).sign

def Chained (cmp : α → α → ℤ) (a b c : α) : Prop := cmp a b ≤ 0 → cmp b c ≤ 0 → cmp a c ≤ 0

structure Consistent (cmp : α → α → ℤ) (xs : List α) : Prop where
  opposite : ∀ a ∈ xs, ∀ b ∈ xs, OppositeSigns cmp a b
  chained : ∀ a ∈ xs, ∀ b ∈ xs, ∀ c ∈ xs, Chained cmp a b c

def InOrder (cmp : α → α → ℤ) (xs : List α) : Prop := xs.Pairwise (fun a b => cmp a b ≤ 0)

structure Sorts (sort : (α → α → ℤ) → List α → List α) : Prop where
  perm : ∀ cmp xs, (sort cmp xs).Perm xs
  inOrder : ∀ cmp xs, Consistent cmp xs → InOrder cmp (sort cmp xs)

section Consistent
variable {cmp : α → α → ℤ} {xs ys zs : List α} {a b : α}

theorem OppositeSigns.pos_iff (h : OppositeSigns cmp a b) : 0 < cmp a b ↔ cmp b a < 0 := by
  rw [OppositeSigns] at h
  rw [← Int.sign_eq_one_iff_pos, ← Int.sign_eq_neg_one_iff_neg]
  omega

theorem OppositeSigns.zero_iff (h : OppositeSigns cmp a b) : cmp a b = 0 ↔ cmp b a = 0 := by
  rw [OppositeSigns] at h
  rw [← Int.sign_eq_zero_iff_zero, ← Int.sign_eq_zero_iff_zero (a := cmp b a)]
  omega

theorem opposite_self_iff : OppositeSigns cmp a a ↔ cmp a a = 0 := by
  rw [OppositeSigns, ← Int.sign_eq_zero_iff_zero]
  omega

theorem eq_of_inOrder (hcmp : Consistent cmp zs) (heq : ∀ a ∈ zs, ∀ b ∈ zs, cmp a b = 0 → a = b)
    (hx : xs.Perm zs) (hy : ys.Perm zs) (hxs : InOrder cmp xs) (hys : InOrder cmp ys) : xs = ys := by
  refine List.Perm.eq_of_pairwise ?_ hxs hys (hx.trans hy.symm)
  intro a b ha hb hab hba
  have ha' := hx.subset ha
  have hb' := hy.subset hb
  have hpos := (hcmp.opposite a ha' b hb').pos_iff
  have hneg := (hcmp.opposite b hb' a ha').pos_iff
  exact heq a ha' b hb' (by omega)

theorem Consistent.total (hcmp : Consistent cmp zs) (ha : a ∈ zs) (hb : b ∈ zs) :
    cmp a b ≤ 0 ∨ cmp b a ≤ 0 := by
  have hpos := (hcmp.opposite a ha b hb).pos_iff
  omega

theorem Consistent.perm (hcmp : Consistent cmp zs) (hx : xs.Perm zs) : Consistent cmp xs where
  opposite a ha b hb := hcmp.opposite a (hx.subset ha) b (hx.subset hb)
  chained a ha b hb c hc :=
    hcmp.chained a (hx.subset ha) b (hx.subset hb) c (hx.subset hc)

theorem exists_inOrder (hcmp : Consistent cmp zs) : ∃ xs, xs.Perm zs ∧ InOrder cmp xs := by
  let le : {x // x ∈ zs} → {x // x ∈ zs} → Bool := fun x y => decide (cmp x y ≤ 0)
  refine ⟨(zs.attach.mergeSort le).map Subtype.val, ?_, ?_⟩
  · have hperm := (List.mergeSort_perm zs.attach le).map Subtype.val
    rwa [List.attach_map_subtype_val] at hperm
  · have htrans : ∀ x y z, le x y = true → le y z = true → le x z = true := by
      intro x y z hxy hyz
      exact decide_eq_true (hcmp.chained x x.2 y y.2 z z.2 (of_decide_eq_true hxy)
        (of_decide_eq_true hyz))
    have htotal : ∀ x y, (le x y || le y x) = true := by
      intro x y
      rw [Bool.or_eq_true]
      exact (hcmp.total x.2 y.2).imp decide_eq_true decide_eq_true
    have hsorted := List.pairwise_mergeSort htrans htotal zs.attach
    refine List.Pairwise.map Subtype.val (fun x y hle => ?_) hsorted
    exact of_decide_eq_true hle

/-- A sorting function may leave two lists in any order that its promise allows. -/
theorem exists_sorts (hne : xs ≠ ys) {us vs : List α} (hu : us.Perm xs) (hv : vs.Perm ys)
    (hus : Consistent cmp xs → InOrder cmp us) (hvs : Consistent cmp ys → InOrder cmp vs) :
    ∃ sort, Sorts sort ∧ sort cmp xs = us ∧ sort cmp ys = vs := by
  classical
  refine ⟨fun cmp' zs => if cmp' = cmp ∧ zs = xs then us else if cmp' = cmp ∧ zs = ys then vs
    else if hcmp : Consistent cmp' zs then (exists_inOrder hcmp).choose else zs,
    ⟨fun cmp' zs => ?_, fun cmp' zs hcmp => ?_⟩, ?_, ?_⟩
  · split_ifs with hx hy hcmp
    · rw [hx.2]
      exact hu
    · rw [hy.2]
      exact hv
    · exact (exists_inOrder hcmp).choose_spec.1
    · exact List.Perm.refl zs
  · split_ifs with hx hy
    · rw [hx.1, hx.2] at hcmp
      rw [hx.1]
      exact hus hcmp
    · rw [hy.1, hy.2] at hcmp
      rw [hy.1]
      exact hvs hcmp
    · exact (exists_inOrder hcmp).choose_spec.2
  · exact if_pos ⟨rfl, rfl⟩
  · dsimp only
    rw [if_neg (fun h => hne h.2.symm), if_pos ⟨rfl, rfl⟩]

end Consistent

end Comodoo.ComparisonSort
