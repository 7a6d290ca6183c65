import Mathlib.Data.Fintype.Card
import Mathlib.Data.Finset.Card
import Mathlib.Logic.Relation
import Mathlib.Tactic.Common

set_option autoImplicit false

/-!
# Depth-first search in postorder

`visit` marks a node on entry, visits what must come before it and then puts the node out. On a
graph without cycles every node is put out once, behind all that must come before it.
-/
namespace Comodoo.Postorder

variable {α : Type} (before : α → List α)

/-- The nodes marked, and those put out so far. -/
structure Walk (α : Type) where
  seen : List α
  out : List α

def Precedes (x y : α) : Prop := x ∈ before y

theorem acyclic_of_rank {R : α → α → Prop} (rank : α → ℕ) (h : ∀ x y, R x y → rank x < rank y)
    (x : α) : ¬ Relation.TransGen R x x := by
  intro hx
  have hlt : ∀ y, Relation.TransGen R x y → rank x < rank y := by
    intro y hy
    induction hy with
    | single hr => exact h _ _ hr
    | tail _ hr ih => exact ih.trans (h _ _ hr)
  exact Nat.lt_irrefl _ (hlt x hx)

/-- Every node stands behind those that have to come before it. -/
def Ordered (out : List α) : Prop := ∀ l y r, out = l ++ y :: r → ∀ x, Precedes before x y → x ∈ l

/-- The state between two calls, with the nodes in `stack` still being visited. -/
structure Inv (stack : List α) (w : Walk α) : Prop where
  nodup : w.out.Nodup
  seen : ∀ z, z ∈ w.seen ↔ z ∈ w.out ∨ z ∈ stack
  apart : ∀ z ∈ w.out, z ∉ stack
  ordered : Ordered before w.out

variable {before} {w w' : Walk α} {stack : List α}

theorem Ordered.concat {out : List α} {y : α} (h : Ordered before out)
    (hy : ∀ x, Precedes before x y → x ∈ out) : Ordered before (out ++ [y]) := by
  intro l z r heq x hx
  rcases List.eq_nil_or_concat r with rfl | ⟨r', b, rfl⟩
  · obtain ⟨hl, hz⟩ := List.append_inj' heq rfl
    rw [← hl]
    exact hy x (by rw [List.cons.inj hz |>.1]; exact hx)
  · have hsplit : out ++ [y] = (l ++ z :: r') ++ [b] := by
      rw [heq, List.append_assoc, List.cons_append, List.concat_eq_append]
    exact h l z r' (List.append_inj' hsplit rfl).1 x hx

theorem inv_start (before : α → List α) : Inv before [] ⟨[], []⟩ := by
  refine ⟨List.nodup_nil, by simp, by simp, fun l y r heq => ?_⟩
  simp at heq

theorem Inv.putOut {y : α} (h : Inv before (y :: stack) w)
    (hy : ∀ x, Precedes before x y → x ∈ w.out) (hfresh : y ∉ stack) :
    Inv before stack ⟨w.seen, w.out ++ [y]⟩ := by
  have hout : y ∉ w.out := fun hm => h.apart y hm List.mem_cons_self
  refine ⟨?_, fun z => ?_, fun z hz => ?_, h.ordered.concat hy⟩
  · rw [List.nodup_append]
    refine ⟨h.nodup, List.nodup_singleton y, fun a ha b hb => ?_⟩
    rw [List.mem_singleton.mp hb]
    exact fun heq => hout (heq ▸ ha)
  · rw [h.seen, List.mem_append, List.mem_singleton, List.mem_cons]
    tauto
  · rw [List.mem_append, List.mem_singleton] at hz
    rcases hz with hz | rfl
    · exact fun hs => h.apart z hz (List.mem_cons_of_mem _ hs)
    · exact hfresh

theorem Inv.enter {y : α} (h : Inv before stack w) (hnew : y ∉ w.seen) :
    Inv before (y :: stack) ⟨y :: w.seen, w.out⟩ := by
  rw [h.seen, not_or] at hnew
  refine ⟨h.nodup, fun z => ?_, fun z hz => ?_, h.ordered⟩
  · rw [List.mem_cons, h.seen, List.mem_cons]
    tauto
  · rw [List.mem_cons, not_or]
    exact ⟨fun heq => hnew.1 (heq ▸ hz), h.apart z hz⟩

structure Visited (before : α → List α) (stack : List α) (w w' : Walk α) (x : α) : Prop where
  inv : Inv before stack w'
  done : x ∈ w'.out
  kept : ∀ z ∈ w.out, z ∈ w'.out

theorem foldlM_visited {f : Walk α → α → Option (Walk α)} {xs : List α}
    (hf : ∀ x ∈ xs, ∀ w w', f w x = some w' → Inv before stack w → Visited before stack w w' x)
    (h : Inv before stack w) (hrun : xs.foldlM f w = some w') :
    Inv before stack w' ∧ (∀ x ∈ xs, x ∈ w'.out) ∧ ∀ z ∈ w.out, z ∈ w'.out := by
  induction xs generalizing w with
  | nil =>
    cases hrun
    exact ⟨h, by simp, fun z hz => hz⟩
  | cons x xs ih =>
    rw [List.foldlM_cons] at hrun
    obtain ⟨w1, hw1, hrest⟩ := Option.bind_eq_some_iff.mp hrun
    have hx := hf x List.mem_cons_self w w1 hw1 h
    obtain ⟨hinv, hdone, hkept⟩ :=
      ih (fun x' hx' => hf x' (List.mem_cons_of_mem _ hx')) hx.inv hrest
    refine ⟨hinv, fun z hz => ?_, fun z hz => hkept z (hx.kept z hz)⟩
    rw [List.mem_cons] at hz
    rcases hz with rfl | hz
    · exact hkept z hx.done
    · exact hdone z hz

section Visit

variable [DecidableEq α]

variable (before) in
def visit : ℕ → Walk α → α → Option (Walk α)
  | 0, _, _ => none
  | fuel + 1, w, y =>
    if y ∈ w.seen then some w
    else ((before y).foldlM (visit fuel) ⟨y :: w.seen, w.out⟩).map (fun w => ⟨w.seen, w.out ++ [y]⟩)

/-- The nodes on the stack all wait for `y`, so on a graph without cycles none of them has to
come before it. -/
theorem visit_visited (hac : ∀ x, ¬ Relation.TransGen (Precedes before) x x) {fuel : ℕ} {y : α}
    (hrun : visit before fuel w y = some w') (h : Inv before stack w)
    (hwait : ∀ z ∈ stack, Relation.TransGen (Precedes before) y z) :
    Visited before stack w w' y := by
  induction fuel generalizing stack w w' y with
  | zero => cases hrun
  | succ fuel ih =>
    have hfresh : y ∉ stack := fun hm => hac y (hwait y hm)
    rw [visit] at hrun
    split at hrun
    · rename_i hseen
      cases hrun
      exact ⟨h, ((h.seen y).mp hseen).resolve_right hfresh, fun z hz => hz⟩
    · rename_i hnew
      obtain ⟨w1, hw1, rfl⟩ := Option.map_eq_some_iff.mp hrun
      have hloop := foldlM_visited (fun x hx v v' hv hinv => ih hv hinv (fun z hz => ?_))
        (h.enter hnew) hw1
      · obtain ⟨hinv, hdone, hkept⟩ := hloop
        exact ⟨hinv.putOut hdone hfresh, List.mem_append_right _ List.mem_cons_self,
          fun z hz => List.mem_append_left _ (hkept z hz)⟩
      · rw [List.mem_cons] at hz
        rcases hz with rfl | hz
        · exact .single hx
        · exact .head hx (hwait z hz)

end Visit

section Fuel

variable [DecidableEq α] [Fintype α]

def unseen (w : Walk α) : Finset α := Finset.univ.filter (fun z => z ∉ w.seen)

theorem unseen_mono (h : w.seen ⊆ w'.seen) : unseen w' ⊆ unseen w := by
  intro z hz
  simp only [unseen, Finset.mem_filter, Finset.mem_univ, true_and] at hz ⊢
  exact fun hm => hz (h hm)

theorem unseen_enter {y : α} (hy : y ∉ w.seen) :
    (unseen ⟨y :: w.seen, w.out⟩).card < (unseen w).card := by
  apply Finset.card_lt_card
  refine ⟨unseen_mono (List.subset_cons_self _ _), fun hsub => ?_⟩
  have hmem : y ∈ unseen w := by simp [unseen, hy]
  have := hsub hmem
  simp [unseen] at this

/-- Every call marks a node, so the fuel need only exceed the number of nodes left. -/
theorem visit_isSome (before : α → List α) {fuel : ℕ} (y : α) (hf : (unseen w).card < fuel) :
    ∃ w', visit before fuel w y = some w' ∧ w.seen ⊆ w'.seen := by
  induction fuel generalizing w y with
  | zero => omega
  | succ fuel ih =>
    have hloop : ∀ (xs : List α) (v : Walk α), (unseen v).card < fuel →
        ∃ v', xs.foldlM (visit before fuel) v = some v' ∧ v.seen ⊆ v'.seen := by
      intro xs
      induction xs with
      | nil => exact fun v _ => ⟨v, rfl, List.Subset.refl _⟩
      | cons x xs ihx =>
        intro v hv
        obtain ⟨v1, hv1, hsub⟩ := ih x hv
        obtain ⟨v', hv', hsub'⟩ :=
          ihx v1 ((Finset.card_le_card (unseen_mono hsub)).trans_lt hv)
        refine ⟨v', ?_, List.Subset.trans hsub hsub'⟩
        rw [List.foldlM_cons, hv1]
        exact hv'
    rw [visit]
    split
    · exact ⟨w, rfl, List.Subset.refl _⟩
    · rename_i hnew
      have hlt := unseen_enter hnew
      obtain ⟨v', hv', hsub⟩ := hloop (before y) ⟨y :: w.seen, w.out⟩ (by omega)
      refine ⟨⟨v'.seen, v'.out ++ [y]⟩, by rw [hv']; rfl, ?_⟩
      exact List.Subset.trans (List.subset_cons_self _ _) hsub

theorem unseen_card_lt {fuel : ℕ} (w : Walk α) (hf : Fintype.card α < fuel) :
    (unseen w).card < fuel := (Finset.card_le_univ _).trans_lt hf

theorem foldlM_visit_isSome (before : α → List α) {fuel : ℕ} (hf : Fintype.card α < fuel)
    (roots : List α) (w : Walk α) : ∃ w', roots.foldlM (visit before fuel) w = some w' := by
  induction roots generalizing w with
  | nil => exact ⟨w, rfl⟩
  | cons x roots ih =>
    obtain ⟨w1, hw1, -⟩ := visit_isSome before x (unseen_card_lt w hf)
    obtain ⟨w', hw'⟩ := ih w1
    refine ⟨w', ?_⟩
    rw [List.foldlM_cons, hw1]
    exact hw'

/-- A loop over roots puts all of them out, each once and behind what has to come before it. -/
theorem visit_roots (hac : ∀ x, ¬ Relation.TransGen (Precedes before) x x) {fuel : ℕ}
    (hf : Fintype.card α < fuel) (roots : List α) (h : Inv before [] w) :
    ∃ w', roots.foldlM (visit before fuel) w = some w' ∧ Inv before [] w' ∧
      ∀ x ∈ roots, x ∈ w'.out := by
  obtain ⟨w', hw'⟩ := foldlM_visit_isSome before hf roots w
  have hloop := foldlM_visited (fun x hx v v' hv hinv => visit_visited hac hv hinv
    (fun z hz => absurd hz List.not_mem_nil)) h hw'
  exact ⟨w', hw', hloop.1, hloop.2.1⟩

end Fuel

end Comodoo.Postorder
