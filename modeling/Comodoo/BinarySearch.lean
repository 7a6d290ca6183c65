import Mathlib.Data.Int.Notation
import Mathlib.Data.List.Basic
import Mathlib.Tactic.Common

set_option autoImplicit false

/-!
# Binary search

`bsearch` of the C library, with any comparison function.
-/
namespace Comodoo.BinarySearch

variable {κ α : Type} (compar : κ → α → ℤ) (key : κ) (base : List α)

/-- The loop between `l` and `u`. Its first argument is fuel. -/
def search : ℕ → ℕ → ℕ → Option α
  | 0, _, _ => none
  | fuel + 1, l, u =>
    if l < u then
      match base[(l + u) / 2]? with
      | none => none
      | some p =>
        if compar key p < 0 then search fuel l ((l + u) / 2)
        else if 0 < compar key p then search fuel ((l + u) / 2 + 1) u
        else some p
    else none

def bsearch : Option α := search compar key base base.length 0 base.length

variable {compar key base}

theorem search_sound {fuel l u : ℕ} {p : α} (h : search compar key base fuel l u = some p) :
    p ∈ base ∧ compar key p = 0 := by
  induction fuel generalizing l u with
  | zero => cases h
  | succ fuel ih =>
    rw [search] at h
    split_ifs at h with hlu
    cases hget : base[(l + u) / 2]? with
    | none =>
      rw [hget] at h
      cases h
    | some q =>
      rw [hget] at h
      dsimp only at h
      split_ifs at h with hlow hhigh
      · exact ih h
      · exact ih h
      · cases h
        exact ⟨List.mem_of_getElem? hget, by omega⟩

/-- Elements that the key comes before stand behind those it comes after. -/
def Ordered (compar : κ → α → ℤ) (key : κ) (base : List α) : Prop :=
  base.Pairwise fun p q =>
    (compar key p < 0 → compar key q < 0) ∧ (0 < compar key q → 0 < compar key p)

theorem Ordered.getElem? (h : Ordered compar key base) {i j : ℕ} (hij : i < j) {p q : α}
    (hp : base[i]? = some p) (hq : base[j]? = some q) :
    (compar key p < 0 → compar key q < 0) ∧ (0 < compar key q → 0 < compar key p) := by
  obtain ⟨hi, rfl⟩ := List.getElem?_eq_some_iff.mp hp
  obtain ⟨hj, rfl⟩ := List.getElem?_eq_some_iff.mp hq
  exact List.pairwise_iff_getElem.mp h i j hi hj hij

theorem search_complete (h : Ordered compar key base) {p : α} {i fuel l u : ℕ}
    (hget : base[i]? = some p) (hp : compar key p = 0) (hl : l ≤ i) (hu : i < u)
    (hfuel : u - l ≤ fuel) (hlen : u ≤ base.length) :
    ∃ q, search compar key base fuel l u = some q := by
  induction fuel generalizing l u with
  | zero => omega
  | succ fuel ih =>
    have hmid : (l + u) / 2 < base.length := by omega
    obtain ⟨q, hq⟩ : ∃ q, base[(l + u) / 2]? = some q := ⟨_, List.getElem?_eq_getElem hmid⟩
    have hplace : (l + u) / 2 = i → compar key q = 0 := by
      intro heq
      rw [heq, hget] at hq
      cases hq
      exact hp
    rw [search, if_pos (by omega), hq]
    dsimp only
    split_ifs with hlow hhigh
    · apply ih hl _ (by omega) (by omega)
      by_contra hge
      rcases Nat.lt_or_eq_of_le (Nat.le_of_not_lt hge) with hlt | heq
      · have := (h.getElem? hlt hq hget).1 hlow
        omega
      · have := hplace heq
        omega
    · apply ih _ hu (by omega) hlen
      by_contra hle
      rcases Nat.lt_or_eq_of_le (Nat.le_of_lt_succ (Nat.lt_of_not_le hle)) with hlt | heq
      · have := (h.getElem? hlt hget hq).2 hhigh
        omega
      · have := hplace heq.symm
        omega
    · exact ⟨q, rfl⟩

theorem bsearch_sound {p : α} (h : bsearch compar key base = some p) :
    p ∈ base ∧ compar key p = 0 :=
  search_sound h

theorem bsearch_eq_none (h : ∀ p ∈ base, compar key p ≠ 0) : bsearch compar key base = none := by
  cases hfound : bsearch compar key base with
  | none => rfl
  | some p => exact absurd (bsearch_sound hfound).2 (h p (bsearch_sound hfound).1)

theorem bsearch_eq_some (h : Ordered compar key base) {p : α} (hp : p ∈ base)
    (hzero : compar key p = 0) (honly : ∀ q ∈ base, compar key q = 0 → q = p) :
    bsearch compar key base = some p := by
  obtain ⟨i, hi, hget⟩ := List.getElem_of_mem hp
  have hget' : base[i]? = some p := by rw [List.getElem?_eq_getElem hi, hget]
  obtain ⟨q, hq⟩ := search_complete h hget' hzero (Nat.zero_le i) hi (Nat.sub_le _ _)
    (Nat.le_refl _)
  obtain ⟨hmem, hqzero⟩ := search_sound hq
  rw [← honly q hmem hqzero]
  exact hq

end Comodoo.BinarySearch
