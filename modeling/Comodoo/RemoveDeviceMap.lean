import Mathlib.Data.List.Nodup
import Mathlib.Data.Set.Card
import Mathlib.Data.Set.Lattice
import Mathlib.Logic.Relation

set_option autoImplicit false

/-!
# Taking a stack of device maps down

`removeDeviceMap` of `block/device.py`: before a map is removed, all that uses it is removed the
same way, each time over a fresh listing of the maps. The listing goes through a dictionary, whose
order is a parameter here.
-/
namespace Comodoo.UpwardCones
open Relation

/-! ## What stands on what

`r x y` says that `y` stands on `x`. The cone of `x` is `x` and all that stands on it, however
indirectly. Taking away a set that nothing outside it stands on leaves the rest of every cone as
it was.
-/

variable {α : Type*} {r : α → α → Prop} {U V : Set α} {x y z : α}

def cone (r : α → α → Prop) (x : α) : Set α := {y | ReflTransGen r x y}

def Upward (r : α → α → Prop) (U : Set α) : Prop := ∀ x ∈ U, ∀ y, r x y → y ∈ U

/-- The relation with the members of `U` taken away. -/
def outside (r : α → α → Prop) (U : Set α) : α → α → Prop := fun x y => r x y ∧ x ∉ U ∧ y ∉ U

theorem mem_cone_self (r : α → α → Prop) (x : α) : x ∈ cone r x := ReflTransGen.refl

theorem cone_subset_cone (h : y ∈ cone r x) : cone r y ⊆ cone r x :=
  fun _ hz => ReflTransGen.trans h hz

/-- A cone is its point and the cones of what stands on the point. -/
theorem mem_cone_iff : y ∈ cone r x ↔ y = x ∨ ∃ z, r x z ∧ y ∈ cone r z := by
  change ReflTransGen r x y ↔ _
  rw [ReflTransGen.cases_head_iff]
  exact or_congr_left eq_comm

theorem cone_outside (hU : Upward r U) (hx : x ∉ U) : cone (outside r U) x = cone r x \ U := by
  ext y
  constructor
  · intro hy
    induction hy with
    | refl => exact ⟨mem_cone_self r x, hx⟩
    | tail _ hstep ih => exact ⟨ReflTransGen.tail ih.1 hstep.1, hstep.2.2⟩
  · rintro ⟨hy, hyU⟩
    induction hy with
    | refl => exact mem_cone_self _ x
    | tail hpath hstep ih =>
      have hmid : _ ∉ U := fun hmid => hyU (hU _ hmid _ hstep)
      exact ReflTransGen.tail (ih hmid) ⟨hstep, hmid, hyU⟩

/-- What is upward in the rest is upward again with what was taken away. -/
theorem Upward.of_outside (hU : Upward r U) (hV : Upward (outside r U) V) : Upward r (U ∪ V) := by
  intro x hx y hxy
  by_cases hxU : x ∈ U
  · exact Or.inl (hU x hxU y hxy)
  · by_cases hyU : y ∈ U
    · exact Or.inl hyU
    · exact Or.inr (hV x (hx.resolve_left hxU) y ⟨hxy, hxU, hyU⟩)

/-- Where each thing stands on things of lower rank only, no thing stands on itself. -/
theorem rank_le_of_mem_cone {rank : α → ℕ} (hrank : ∀ x y, r x y → rank x < rank y)
    (h : y ∈ cone r x) : rank x ≤ rank y := by
  induction h with
  | refl => exact le_rfl
  | tail _ hstep ih => exact ih.trans (hrank _ _ hstep).le

end Comodoo.UpwardCones

namespace Comodoo.RemoveDeviceMap
open UpwardCones Relation

/-! ## The device mapper -/

structure DeviceMap where
  dev : ℕ
  deps : List ℕ
  deps_nodup : deps.Nodup

structure Mapper where
  maps : List DeviceMap
  nodup : (maps.map DeviceMap.dev).Nodup

def Mapper.devs (s : Mapper) : List ℕ := s.maps.map DeviceMap.dev

/-- `y` has `x` among its dependencies, and both are maps. -/
def Mapper.uses (s : Mapper) (x y : ℕ) : Prop := x ∈ s.devs ∧ ∃ m ∈ s.maps, m.dev = y ∧ x ∈ m.deps

def Mapper.without (s : Mapper) (d : ℕ) : Mapper where
  maps := s.maps.filter (fun m => m.dev != d)
  nodup := s.nodup.sublist (List.Sublist.map _ List.filter_sublist)

/-- The kernel removes a map that is there, that no table names and that nothing else holds open. -/
def Mapper.remove (busy : ℕ → Bool) (s : Mapper) (d : ℕ) : Option Mapper :=
  if d ∈ s.devs ∧ (∀ m ∈ s.maps, d ∉ m.deps) ∧ busy d = false then some (s.without d) else none

/-! ## The program -/

section Program
variable (items : List DeviceMap → List DeviceMap) (busy : ℕ → Bool)

def addDep (m : DeviceMap) (maps : ℕ → Option (List DeviceMap)) (mdep : ℕ) :
    ℕ → Option (List DeviceMap) :=
  Function.update maps mdep (some ((maps mdep).getD [] ++ [m]))

def deviceMaps (s : Mapper) : ℕ → Option (List DeviceMap) :=
  (items s.maps).foldl
    (fun maps m => (m.deps.filter (fun x => x ∈ s.devs)).foldl (addDep m) maps) (fun _ => none)

inductive Outcome where
  | done (s : Mapper)
  | raised (s : Mapper)
  | unfinished

def removeAll (remove : Mapper → ℕ → Outcome) : List ℕ → Mapper → Outcome
  | [], s => .done s
  | u :: us, s =>
    match remove s u with
    | .done s => removeAll remove us s
    | .raised s => .raised s
    | .unfinished => .unfinished

/-- The users of `d` in the order in which they are taken down; none where the key is missing. -/
def users (s : Mapper) (d : ℕ) : List ℕ := ((deviceMaps items s d).getD []).map DeviceMap.dev

def removeDeviceMap : ℕ → Mapper → ℕ → Outcome
  | 0, _, _ => .unfinished
  | fuel + 1, s, d =>
    match removeAll (removeDeviceMap fuel) (users items s d) s with
    | .done s =>
      match s.remove busy d with
      | some s' => .done s'
      | none => .raised s
    | .raised s => .raised s
    | .unfinished => .unfinished

end Program

/-! ## What the dictionary holds -/

variable {items : List DeviceMap → List DeviceMap} {busy : ℕ → Bool}

theorem foldl_addDep (m : DeviceMap) (deps : List ℕ) (hdeps : deps.Nodup)
    (maps : ℕ → Option (List DeviceMap)) (d : ℕ) :
    (deps.foldl (addDep m) maps d).getD [] =
      (maps d).getD [] ++ if d ∈ deps then [m] else [] := by
  induction deps generalizing maps with
  | nil => simp
  | cons x deps ih =>
    have hx : x ∉ deps := (List.nodup_cons.mp hdeps).1
    rw [List.foldl_cons, ih (List.nodup_cons.mp hdeps).2]
    by_cases hd : d = x
    · subst d
      simp [addDep, hx]
    · simp [addDep, hd]

theorem deviceMaps_getD (s : Mapper) (d : ℕ) :
    (deviceMaps items s d).getD [] =
      (items s.maps).filter (fun m => d ∈ s.devs ∧ d ∈ m.deps) := by
  have hfold : ∀ (l : List DeviceMap) (maps : ℕ → Option (List DeviceMap)),
      ((l.foldl (fun maps m => (m.deps.filter (fun x => x ∈ s.devs)).foldl (addDep m) maps)
        maps) d).getD [] = (maps d).getD [] ++ l.filter (fun m => d ∈ s.devs ∧ d ∈ m.deps) := by
    intro l
    induction l with
    | nil => simp
    | cons m l ih =>
      intro maps
      rw [List.foldl_cons, ih, foldl_addDep m _ (m.deps_nodup.filter _), List.append_assoc]
      congr 1
      by_cases hm : d ∈ s.devs ∧ d ∈ m.deps
      · simp [hm]
      · have hm' : ¬(d ∈ m.deps ∧ d ∈ s.devs) := fun h => hm h.symm
        simp [hm, hm']
  exact (hfold (items s.maps) (fun _ => none)).trans (List.nil_append _)

theorem users_eq (s : Mapper) (d : ℕ) : users items s d =
    ((items s.maps).filter (fun m => d ∈ s.devs ∧ d ∈ m.deps)).map DeviceMap.dev := by
  unfold users
  rw [deviceMaps_getD]

variable (hitems : ∀ l, (items l).Perm l)

section Order
include hitems

theorem mem_users_iff (s : Mapper) (d u : ℕ) : u ∈ users items s d ↔ s.uses d u := by
  rw [users_eq]
  simp only [List.mem_map, List.mem_filter, decide_eq_true_eq, (hitems s.maps).mem_iff]
  unfold Mapper.uses
  constructor
  · rintro ⟨m, ⟨hm, hd, hdep⟩, rfl⟩
    exact ⟨hd, m, hm, rfl, hdep⟩
  · rintro ⟨hd, m, hm, rfl, hdep⟩
    exact ⟨m, ⟨hm, hd, hdep⟩, rfl⟩

theorem users_nodup (s : Mapper) (d : ℕ) : (users items s d).Nodup := by
  rw [users_eq]
  have hnodup : ((items s.maps).map DeviceMap.dev).Nodup :=
    ((hitems s.maps).map DeviceMap.dev).nodup_iff.mpr s.nodup
  exact hnodup.sublist (List.Sublist.map _ List.filter_sublist)

end Order

/-! ## What is gone -/

/-- `s'` is `s` without the maps of `U`, and no map is left on one of `U`. -/
structure Gone (s s' : Mapper) (U : Set ℕ) : Prop where
  left : ∀ m, m ∈ s'.maps ↔ m ∈ s.maps ∧ m.dev ∉ U
  upward : Upward s.uses U

namespace Gone
variable {s s' s'' : Mapper} {U V : Set ℕ}

theorem none (s : Mapper) : Gone s s ∅ := ⟨by simp, fun _ hx => hx.elim⟩

theorem mem_devs (h : Gone s s' U) (d : ℕ) : d ∈ s'.devs ↔ d ∈ s.devs ∧ d ∉ U := by
  simp only [Mapper.devs, List.mem_map, h.left]
  constructor
  · rintro ⟨m, ⟨hm, hU⟩, rfl⟩
    exact ⟨⟨m, hm, rfl⟩, hU⟩
  · rintro ⟨⟨m, hm, rfl⟩, hU⟩
    exact ⟨m, ⟨hm, hU⟩, rfl⟩

theorem uses_eq (h : Gone s s' U) : s'.uses = outside s.uses U := by
  funext x y
  apply propext
  unfold Mapper.uses outside
  rw [h.mem_devs]
  constructor
  · rintro ⟨⟨hx, hxU⟩, m, hm, rfl, hdep⟩
    have hm' := (h.left m).mp hm
    exact ⟨⟨hx, m, hm'.1, rfl, hdep⟩, hxU, hm'.2⟩
  · rintro ⟨⟨hx, m, hm, rfl, hdep⟩, hxU, hyU⟩
    exact ⟨⟨hx, hxU⟩, m, (h.left m).mpr ⟨hm, hyU⟩, rfl, hdep⟩

theorem cone_eq (h : Gone s s' U) {x : ℕ} (hx : x ∉ U) : cone s'.uses x = cone s.uses x \ U := by
  rw [h.uses_eq]
  exact cone_outside h.upward hx

theorem trans (h : Gone s s' U) (h' : Gone s' s'' V) : Gone s s'' (U ∪ V) where
  left m := by
    rw [h'.left, h.left, Set.mem_union, not_or, and_assoc]
  upward := by
    have hV : Upward (outside s.uses U) V := h.uses_eq ▸ h'.upward
    exact h.upward.of_outside hV

end Gone

theorem remove_eq_some {s s' : Mapper} {d : ℕ} (h : s.remove busy d = some s') :
    d ∈ s.devs ∧ busy d = false ∧ Gone s s' {d} := by
  unfold Mapper.remove at h
  split at h
  · rename_i hc
    cases h
    refine ⟨hc.1, hc.2.2, ?_, ?_⟩
    · intro m
      simp [Mapper.without]
    · intro x hx y hxy
      cases hx
      have hunused : d ∉ _ := hc.2.1 _ hxy.2.choose_spec.1
      exact absurd hxy.2.choose_spec.2.2 hunused
  · cases h

theorem eq_of_mem_cone_of_absent {s : Mapper} {d x : ℕ} (hd : d ∉ s.devs)
    (hx : x ∈ cone s.uses d) : x = d := by
  cases mem_cone_iff.mp hx with
  | inl hx => exact hx
  | inr hx => exact absurd hx.choose_spec.1.1 hd

/-! ## What one call does -/

/-- What is said of every call that ends: only the cone loses maps, and a call that is done leaves
    nothing of it. -/
def Keeps (busy : ℕ → Bool) (s : Mapper) (d : ℕ) : Outcome → Prop
  | .done s' => d ∈ s.devs ∧ (∀ x ∈ cone s.uses d, busy x = false) ∧ Gone s s' (cone s.uses d)
  | .raised s' => ∃ U ⊆ cone s.uses d, Gone s s' U
  | .unfinished => True

def cones (s : Mapper) (us : List ℕ) : Set ℕ := {x | ∃ u ∈ us, x ∈ cone s.uses u}

theorem cones_cons (s : Mapper) (u : ℕ) (us : List ℕ) :
    cones s (u :: us) = cone s.uses u ∪ cones s us := by
  ext x
  simp [cones]

theorem cones_after {s s' : Mapper} {u : ℕ} {us : List ℕ} (h : Gone s s' (cone s.uses u))
    (hus : ∀ v ∈ us, v ∈ s'.devs) :
    cone s.uses u ∪ cones s' us = cone s.uses u ∪ cones s us := by
  have hcone : ∀ v ∈ us, cone s'.uses v = cone s.uses v \ cone s.uses u :=
    fun v hv => h.cone_eq ((h.mem_devs v).mp (hus v hv)).2
  ext x
  constructor
  · rintro (hx | ⟨v, hv, hx⟩)
    · exact Or.inl hx
    · rw [hcone v hv] at hx
      exact Or.inr ⟨v, hv, hx.1⟩
  · rintro (hx | ⟨v, hv, hx⟩)
    · exact Or.inl hx
    · by_cases hxu : x ∈ cone s.uses u
      · exact Or.inl hxu
      · exact Or.inr ⟨v, hv, (hcone v hv).symm ▸ ⟨hx, hxu⟩⟩

section All
variable {remove : Mapper → ℕ → Outcome} (hremove : ∀ s d, Keeps busy s d (remove s d))
include hremove

/-- A loop that ends took down the cones of its list, none of which was in the way of a later one. -/
theorem removeAll_done {us : List ℕ} {s s' : Mapper} (h : removeAll remove us s = .done s') :
    (∀ u ∈ us, u ∈ s.devs) ∧ us.Pairwise (fun u v => v ∉ cone s.uses u) ∧
      (∀ x ∈ cones s us, busy x = false) ∧ Gone s s' (cones s us) := by
  induction us generalizing s with
  | nil =>
    cases h
    have hnone : cones s' [] = ∅ := by
      ext x
      simp [cones]
    rw [hnone]
    exact ⟨(fun u hu => nomatch hu), List.Pairwise.nil, fun x hx => hx.elim, Gone.none s'⟩
  | cons u us ih =>
    unfold removeAll at h
    have hu := hremove s u
    cases hr : remove s u with
    | done s₁ =>
      rw [hr] at h hu
      obtain ⟨hdev, hbusy, hgone⟩ := hu
      obtain ⟨hdevs, hpair, hbusys, hgones⟩ := ih h
      have hstay : ∀ v ∈ us, v ∈ s.devs ∧ v ∉ cone s.uses u :=
        fun v hv => (hgone.mem_devs v).mp (hdevs v hv)
      have hcones := cones_after hgone hdevs
      rw [cones_cons, ← hcones]
      refine ⟨?_, ?_, ?_, hgone.trans hgones⟩
      · intro v hv
        cases List.mem_cons.mp hv with
        | inl hv => exact hv ▸ hdev
        | inr hv => exact (hstay v hv).1
      · apply List.Pairwise.cons
        · exact fun v hv => (hstay v hv).2
        · apply hpair.imp_of_mem
          intro v w hv hw hvw
          rw [hgone.cone_eq (hstay v hv).2] at hvw
          exact fun hin => hvw ⟨hin, (hstay w hw).2⟩
      · intro x hx
        cases hx with
        | inl hx => exact hbusy x hx
        | inr hx => exact hbusys x hx
    | raised s₁ =>
      rw [hr] at h
      cases h
    | unfinished =>
      rw [hr] at h
      cases h

theorem removeAll_raised {us : List ℕ} {s s' : Mapper} (h : removeAll remove us s = .raised s') :
    ∃ U ⊆ cones s us, Gone s s' U := by
  induction us generalizing s with
  | nil => cases h
  | cons u us ih =>
    unfold removeAll at h
    have hu := hremove s u
    rw [cones_cons]
    cases hr : remove s u with
    | done s₁ =>
      rw [hr] at h hu
      obtain ⟨V, hV, hgone⟩ := ih h
      refine ⟨cone s.uses u ∪ V, ?_, hu.2.2.trans hgone⟩
      apply Set.union_subset Set.subset_union_left
      intro x hx
      obtain ⟨v, hv, hxv⟩ := hV hx
      by_cases hvu : v ∈ cone s.uses u
      · -- a map that is gone has nothing on it, so its cone is the map itself
        have hgone' : v ∉ s₁.devs := fun hv' => ((hu.2.2.mem_devs v).mp hv').2 hvu
        rw [eq_of_mem_cone_of_absent hgone' hxv]
        exact Or.inl hvu
      · rw [hu.2.2.cone_eq hvu] at hxv
        exact Or.inr ⟨v, hv, hxv.1⟩
    | raised s₁ =>
      rw [hr] at h hu
      cases h
      obtain ⟨U, hU, hgone⟩ := hu
      exact ⟨U, hU.trans Set.subset_union_left, hgone⟩
    | unfinished =>
      rw [hr] at h
      cases h

end All

theorem cone_eq_cones (hitems : ∀ l, (items l).Perm l) (s : Mapper) (d : ℕ) :
    cone s.uses d = insert d (cones s (users items s d)) := by
  ext x
  rw [mem_cone_iff, Set.mem_insert_iff]
  simp only [cones, Set.mem_ofPred_eq, mem_users_iff hitems]

theorem removeDeviceMap_keeps (hitems : ∀ l, (items l).Perm l) (fuel : ℕ) (s : Mapper) (d : ℕ) :
    Keeps busy s d (removeDeviceMap items busy fuel s d) := by
  induction fuel generalizing s d with
  | zero => exact trivial
  | succ fuel ih =>
    have hcone := cone_eq_cones hitems s d
    unfold removeDeviceMap
    cases hall : removeAll (removeDeviceMap items busy fuel) (users items s d) s with
    | done s₁ =>
      obtain ⟨-, -, hbusy, hgone⟩ := removeAll_done ih hall
      have hsub : cones s (users items s d) ⊆ cone s.uses d := hcone ▸ Set.subset_insert _ _
      simp only
      cases hd : s₁.remove busy d with
      | none => exact ⟨_, hsub, hgone⟩
      | some s₂ =>
        obtain ⟨hdev, hidle, hlast⟩ := remove_eq_some hd
        refine ⟨((hgone.mem_devs d).mp hdev).1, ?_, ?_⟩
        · intro x hx
          rw [hcone] at hx
          cases hx with
          | inl hx => exact hx ▸ hidle
          | inr hx => exact hbusy x hx
        · rw [hcone, ← Set.union_singleton]
          exact hgone.trans hlast
    | raised s₁ =>
      obtain ⟨U, hU, hgone⟩ := removeAll_raised ih hall
      exact ⟨U, hU.trans (hcone ▸ Set.subset_insert _ _), hgone⟩
    | unfinished => exact trivial

/-- Users of one map are taken down in an order in which none stands on an earlier one. -/
theorem users_pairwise (hitems : ∀ l, (items l).Perm l) {fuel : ℕ} {s s' : Mapper} {d : ℕ}
    (h : removeDeviceMap items busy fuel s d = .done s') :
    (users items s d).Pairwise (fun u v => v ∉ cone s.uses u) := by
  cases fuel with
  | zero => cases h
  | succ fuel =>
    unfold removeDeviceMap at h
    cases hall : removeAll (removeDeviceMap items busy fuel) (users items s d) s with
    | done s₁ => exact (removeAll_done (removeDeviceMap_keeps hitems fuel) hall).2.1
    | raised s₁ =>
      rw [hall] at h
      cases h
    | unfinished =>
      rw [hall] at h
      cases h

theorem done_of_head (fuel : ℕ) {s s' : Mapper} {d u : ℕ} (hu : (users items s d).head? = some u)
    (h : removeDeviceMap items busy fuel s d = .done s') :
    ∃ fuel' s₁, removeDeviceMap items busy fuel' s u = .done s₁ := by
  cases fuel with
  | zero => cases h
  | succ fuel =>
    unfold removeDeviceMap at h
    cases hus : users items s d with
    | nil =>
      rw [hus] at hu
      cases hu
    | cons v us =>
      rw [hus] at h hu
      cases hu
      unfold removeAll at h
      cases hr : removeDeviceMap items busy fuel s u with
      | done s₁ => exact ⟨fuel, s₁, hr⟩
      | raised s₁ =>
        rw [hr] at h
        cases h
      | unfinished =>
        rw [hr] at h
        cases h

/-! ## When no order of the dictionary is in the way -/

/-- Every table was loaded over maps that were there before its own. -/
def Stacked (s : Mapper) : Prop := ∃ rank : ℕ → ℕ, ∀ x y, s.uses x y → rank x < rank y

/-- Nothing in the cone of `d` uses a map both directly and through another of its users. -/
def NoShortcut (s : Mapper) (d : ℕ) : Prop :=
  ∀ x ∈ cone s.uses d, ∀ u v, s.uses x u → s.uses x v → v ∈ cone s.uses u → u = v

theorem cone_subset_devs {s : Mapper} {d : ℕ} (hd : d ∈ s.devs) :
    cone s.uses d ⊆ {x | x ∈ s.devs} := by
  intro x hx
  induction hx with
  | refl => exact hd
  | tail _ hstep _ =>
    obtain ⟨m, hm, hdev, -⟩ := hstep.2
    exact hdev ▸ List.mem_map_of_mem hm

theorem cone_finite {s : Mapper} {d : ℕ} (hd : d ∈ s.devs) : (cone s.uses d).Finite :=
  (List.finite_toSet s.devs).subset (cone_subset_devs hd)

theorem ncard_cone_le {s : Mapper} {d : ℕ} (hd : d ∈ s.devs) :
    (cone s.uses d).ncard ≤ s.maps.length := by
  classical
  have hsub : cone s.uses d ⊆ ↑s.devs.toFinset := by
    intro x hx
    exact List.mem_toFinset.mpr (cone_subset_devs hd hx)
  calc
    (cone s.uses d).ncard ≤ (↑s.devs.toFinset : Set ℕ).ncard :=
      Set.ncard_le_ncard hsub (Finset.finite_toSet _)
    _ = s.devs.toFinset.card := Set.ncard_coe_finset _
    _ ≤ s.devs.length := List.toFinset_card_le _
    _ = s.maps.length := List.length_map _

theorem Stacked.not_mem_cone {s : Mapper} (hs : Stacked s) {d u : ℕ} (hu : s.uses d u) :
    d ∉ cone s.uses u := by
  intro hd
  obtain ⟨rank, hrank⟩ := hs
  have hle := rank_le_of_mem_cone hrank hd
  have hlt := hrank d u hu
  omega

theorem ncard_cone_lt {s : Mapper} (hs : Stacked s) {d u : ℕ} (hu : s.uses d u) :
    (cone s.uses u).ncard < (cone s.uses d).ncard := by
  have hsub : cone s.uses u ⊆ cone s.uses d := cone_subset_cone (ReflTransGen.single hu)
  have hd : d ∉ cone s.uses u := hs.not_mem_cone hu
  apply Set.ncard_lt_ncard _ (cone_finite hu.1)
  exact ⟨hsub, fun h => hd (h (mem_cone_self _ d))⟩

namespace Gone
variable {s s' : Mapper} {U : Set ℕ}

theorem uses_of (h : Gone s s' U) {x y : ℕ} (hxy : s'.uses x y) : s.uses x y := by
  rw [h.uses_eq] at hxy
  exact hxy.1

theorem stacked (h : Gone s s' U) (hs : Stacked s) : Stacked s' := by
  obtain ⟨rank, hrank⟩ := hs
  exact ⟨rank, fun x y hxy => hrank x y (h.uses_of hxy)⟩

theorem cone_subset (h : Gone s s' U) (x : ℕ) : cone s'.uses x ⊆ cone s.uses x :=
  fun y hy => ReflTransGen.mono (fun _ _ => h.uses_of) x y hy

theorem noShortcut (h : Gone s s' U) {d : ℕ} (hd : NoShortcut s d) : NoShortcut s' d := by
  intro x hx u v hu hv huv
  exact hd x (h.cone_subset d hx) u v (h.uses_of hu) (h.uses_of hv) (h.cone_subset u huv)

end Gone

theorem NoShortcut.of_uses {s : Mapper} {d u : ℕ} (hd : NoShortcut s d) (hu : s.uses d u) :
    NoShortcut s u :=
  fun x hx => hd x (cone_subset_cone (ReflTransGen.single hu) hx)

theorem removeAll_succeeds {remove : Mapper → ℕ → Outcome}
    (hremove : ∀ s d, Keeps busy s d (remove s d)) {us : List ℕ} {s : Mapper}
    (hdone : ∀ s' U, Gone s s' U → ∀ u ∈ us, u ∈ s'.devs → ∃ s'', remove s' u = .done s'')
    (hdevs : ∀ u ∈ us, u ∈ s.devs) (hpair : us.Pairwise (fun u v => v ∉ cone s.uses u)) :
    ∃ s', removeAll remove us s = .done s' := by
  induction us generalizing s with
  | nil => exact ⟨s, rfl⟩
  | cons u us ih =>
    obtain ⟨s₁, hs₁⟩ := hdone s ∅ (Gone.none s) u List.mem_cons_self (hdevs u List.mem_cons_self)
    have hkeep := hremove s u
    rw [hs₁] at hkeep
    have hgone := hkeep.2.2
    unfold removeAll
    rw [hs₁]
    obtain ⟨hhead, htail⟩ := List.pairwise_cons.mp hpair
    apply ih
    · intro s' U hU v hv hv'
      exact hdone s' _ (hgone.trans hU) v (List.mem_cons_of_mem u hv) hv'
    · intro v hv
      exact (hgone.mem_devs v).mpr ⟨hdevs v (List.mem_cons_of_mem u hv), hhead v hv⟩
    · exact htail.imp fun hvw hin => hvw (hgone.cone_subset _ hin)

theorem removeDeviceMap_succeeds (hitems : ∀ l, (items l).Perm l) {fuel : ℕ} {s : Mapper} {d : ℕ}
    (hs : Stacked s) (hd : d ∈ s.devs) (hidle : ∀ x ∈ cone s.uses d, busy x = false)
    (hshort : NoShortcut s d) (hfuel : (cone s.uses d).ncard ≤ fuel) :
    ∃ s', removeDeviceMap items busy fuel s d = .done s' := by
  induction fuel generalizing s d with
  | zero =>
    have hpos : 0 < (cone s.uses d).ncard :=
      (Set.ncard_pos (cone_finite hd)).mpr ⟨d, mem_cone_self _ d⟩
    omega
  | succ fuel ih =>
    have hkeeps : ∀ s d, Keeps busy s d (removeDeviceMap items busy fuel s d) :=
      fun s d => removeDeviceMap_keeps hitems fuel s d
    have huses : ∀ u ∈ users items s d, s.uses d u := fun u => (mem_users_iff hitems s d u).mp
    have hall : ∃ s₁, removeAll (removeDeviceMap items busy fuel) (users items s d) s = .done s₁ := by
      apply removeAll_succeeds hkeeps
      · intro s' U hU u hu hu'
        have hdu := huses u hu
        have hsub : cone s'.uses u ⊆ cone s.uses u := hU.cone_subset u
        have hle : (cone s'.uses u).ncard ≤ (cone s.uses u).ncard :=
          Set.ncard_le_ncard hsub ((cone_finite hd).subset (cone_subset_cone (ReflTransGen.single hdu)))
        have hlt := ncard_cone_lt hs hdu
        apply ih (hU.stacked hs) hu'
        · exact fun x hx => hidle x (cone_subset_cone (ReflTransGen.single hdu) (hsub hx))
        · exact hU.noShortcut (hshort.of_uses hdu)
        · omega
      · exact fun u hu => cone_subset_devs hd (ReflTransGen.single (huses u hu))
      · apply (users_nodup hitems s d).imp_of_mem
        intro u v hu hv hne hin
        exact hne (hshort d (mem_cone_self _ d) u v (huses u hu) (huses v hv) hin)
    obtain ⟨s₁, hs₁⟩ := hall
    have hgone := (removeAll_done hkeeps hs₁).2.2.2
    have hstay : d ∈ s₁.devs := by
      apply (hgone.mem_devs d).mpr ⟨hd, _⟩
      rintro ⟨u, hu, hdu⟩
      exact hs.not_mem_cone (huses u hu) hdu
    have hunused : ∀ m ∈ s₁.maps, d ∉ m.deps := by
      intro m hm hdep
      have hm' := (hgone.left m).mp hm
      have hu := (mem_users_iff hitems s d m.dev).mpr ⟨hd, m, hm'.1, rfl, hdep⟩
      exact hm'.2 ⟨m.dev, hu, mem_cone_self _ _⟩
    have hremove : s₁.remove busy d = some (s₁.without d) :=
      if_pos ⟨hstay, hunused, hidle d (mem_cone_self _ d)⟩
    refine ⟨s₁.without d, ?_⟩
    unfold removeDeviceMap
    rw [hs₁]
    simp only
    rw [hremove]

/-! ## An order that is in the way of a shortcut -/

def front (x : ℕ) (l : List DeviceMap) : List DeviceMap :=
  l.filter (fun m => m.dev == x) ++ l.filter (fun m => !(m.dev == x))

theorem front_perm (x : ℕ) (l : List DeviceMap) : (front x l).Perm l :=
  List.filter_append_perm _ l

theorem filter_front (x : ℕ) (p : DeviceMap → Bool) (l : List DeviceMap) :
    (front x l).filter p = front x (l.filter p) := by
  unfold front
  rw [List.filter_append, List.filter_comm, @List.filter_comm _ p]

theorem users_front (x : ℕ) (s : Mapper) (d : ℕ) : users (fun l => front x (items l)) s d =
    (front x ((items s.maps).filter (fun m => d ∈ s.devs ∧ d ∈ m.deps))).map DeviceMap.dev := by
  rw [users_eq, filter_front]

/-- `b` is the first map that is taken down for `a`. -/
def First (items : List DeviceMap → List DeviceMap) (s : Mapper) (a b : ℕ) : Prop :=
  (users items s a).head? = some b

section Order
include hitems

theorem First.uses {s : Mapper} {a b : ℕ} (h : First items s a b) : s.uses a b :=
  (mem_users_iff hitems s a b).mp (List.mem_of_head? h)

theorem users_front_of_not_uses {s : Mapper} {d x : ℕ} (hx : ¬s.uses d x) :
    users (fun l => front x (items l)) s d = users items s d := by
  have hnone : ∀ m ∈ (items s.maps).filter (fun m => d ∈ s.devs ∧ d ∈ m.deps), m.dev ≠ x := by
    intro m hm hdev
    have hm' := List.mem_filter.mp hm
    have hd := of_decide_eq_true hm'.2
    exact hx ⟨hd.1, m, (hitems s.maps).mem_iff.mp hm'.1, hdev, hd.2⟩
  rw [users_front, users_eq]
  unfold front
  rw [List.filter_eq_nil_iff.mpr (by simpa using hnone), List.nil_append]
  rw [List.filter_eq_self.mpr (by simpa using hnone)]

theorem first_front {s : Mapper} {d x : ℕ} (hx : s.uses d x) :
    First (fun l => front x (items l)) s d x := by
  obtain ⟨hd, m, hm, rfl, hdep⟩ := hx
  unfold First
  rw [users_front]
  unfold front
  have hmem : m ∈ (items s.maps).filter (fun m => d ∈ s.devs ∧ d ∈ m.deps) := by
    simp [(hitems s.maps).mem_iff, hm, hd, hdep]
  cases hl : ((items s.maps).filter (fun m => d ∈ s.devs ∧ d ∈ m.deps)).filter
      (fun m' => m'.dev == m.dev) with
  | nil =>
    have hnone := List.filter_eq_nil_iff.mp hl m hmem
    exact absurd (beq_self_eq_true m.dev) hnone
  | cons m' l =>
    have hin := List.mem_filter.mp (hl ▸ List.mem_cons_self)
    exact congrArg some (eq_of_beq hin.2)

end Order

/-- Some order asks, from map to map, for the next one on a given way up first, and for `u` at its
    end. -/
theorem exists_order {s : Mapper} (hs : Stacked s) {d x u : ℕ} (hpath : x ∈ cone s.uses d)
    (hu : s.uses x u) : ∃ items : List DeviceMap → List DeviceMap, (∀ l, (items l).Perm l) ∧
      ReflTransGen (First items s) d x ∧ First items s x u := by
  induction hpath using ReflTransGen.head_induction_on with
  | refl =>
    have hid : ∀ l : List DeviceMap, (id l).Perm l := List.Perm.refl
    exact ⟨fun l => front u (id l), front_perm u, ReflTransGen.refl, first_front hid hu⟩
  | @head a b hab hbx ih =>
    obtain ⟨items, hitems, hway, hend⟩ := ih
    -- nothing above `b` has `b` for a user, so the order stays what it was there
    have hsame : ∀ y ∈ cone s.uses b,
        users (fun l => front b (items l)) s y = users items s y :=
      fun y hy => users_front_of_not_uses hitems (fun hyb => hs.not_mem_cone hyb hy)
    have hrest : ReflTransGen (First (fun l => front b (items l)) s) b x ∧ x ∈ cone s.uses b := by
      clear hend hbx hu
      induction hway with
      | refl => exact ⟨ReflTransGen.refl, mem_cone_self _ b⟩
      | @tail y z _ hstep ih =>
        have hyz : First (fun l => front b (items l)) s y z :=
          (congrArg List.head? (hsame y ih.2)).trans hstep
        exact ⟨ih.1.tail hyz, ReflTransGen.tail ih.2 (hstep.uses hitems)⟩
    refine ⟨fun l => front b (items l), fun l => (front_perm b _).trans (hitems l), ?_, ?_⟩
    · exact ReflTransGen.head (first_front hitems hab) hrest.1
    · exact (congrArg List.head? (hsame x hrest.2)).trans hend

theorem done_along (fuel : ℕ) {s s' : Mapper} {d x : ℕ} (hway : ReflTransGen (First items s) d x)
    (h : removeDeviceMap items busy fuel s d = .done s') :
    ∃ fuel' s₁, removeDeviceMap items busy fuel' s x = .done s₁ := by
  induction hway with
  | refl => exact ⟨fuel, s', h⟩
  | tail _ hstep ih =>
    obtain ⟨fuel', s₁, h'⟩ := ih
    exact done_of_head fuel' hstep h'

/-! ## The results -/

/-- Whatever the order of the dictionary, a call that returns has removed the map with all that
    stands on it and nothing else, and one that raises has removed a part of that and left no map
    on a removed one. -/
theorem removeDeviceMap_spec (items : List DeviceMap → List DeviceMap) (busy : ℕ → Bool)
    (hitems : ∀ l, (items l).Perm l) (fuel : ℕ) (s : Mapper) (d : ℕ) :
    match removeDeviceMap items busy fuel s d with
    | .done s' => d ∈ s.devs ∧ (∀ x ∈ cone s.uses d, busy x = false) ∧
        (∀ m, m ∈ s'.maps ↔ m ∈ s.maps ∧ m.dev ∉ cone s.uses d)
    | .raised s' => (∀ m, m ∈ s.maps → m.dev ∉ cone s.uses d → m ∈ s'.maps) ∧
        (∀ m ∈ s'.maps, m ∈ s.maps ∧ ∀ x ∈ m.deps, x ∈ s.devs → x ∈ s'.devs)
    | .unfinished => True := by
  have hkeeps := @removeDeviceMap_keeps items busy hitems fuel s d
  cases hr : removeDeviceMap items busy fuel s d with
  | done s' =>
    rw [hr] at hkeeps
    exact ⟨hkeeps.1, hkeeps.2.1, hkeeps.2.2.left⟩
  | raised s' =>
    rw [hr] at hkeeps
    obtain ⟨U, hU, hgone⟩ := hkeeps
    constructor
    · exact fun m hm hout => (hgone.left m).mpr ⟨hm, fun hin => hout (hU hin)⟩
    · intro m hm
      have hm' := (hgone.left m).mp hm
      refine ⟨hm'.1, fun x hx hdev => (hgone.mem_devs x).mpr ⟨hdev, ?_⟩⟩
      exact fun hxU => hm'.2 (hgone.upward x hxU m.dev ⟨hdev, m, hm'.1, rfl, hx⟩)
  | unfinished => exact trivial

def partitioned : Mapper where
  maps := [⟨1, [100], by decide⟩, ⟨2, [1], by decide⟩, ⟨3, [1], by decide⟩]
  nodup := by decide

theorem partitioned_uses {x y : ℕ} (h : partitioned.uses x y) : x = 1 ∧ (y = 2 ∨ y = 3) := by
  obtain ⟨hx, m, hm, rfl, hdep⟩ := h
  simp [partitioned, Mapper.devs] at hx hm
  rcases hm with rfl | rfl | rfl
  · simp at hdep
    omega
  · exact ⟨List.mem_singleton.mp hdep, Or.inl rfl⟩
  · exact ⟨List.mem_singleton.mp hdep, Or.inr rfl⟩

theorem removeDeviceMap_spec_partitioned :
    removeDeviceMap List.reverse (fun _ => false) 2 partitioned 1 = .done ⟨[], List.nodup_nil⟩ ∧
      ∀ m ∈ partitioned.maps, m.dev ∈ cone partitioned.uses 1 := by
  have hrun : removeDeviceMap List.reverse (fun _ => false) 2 partitioned 1 =
      .done ⟨[], List.nodup_nil⟩ := by
    rfl
  have hspec := removeDeviceMap_spec List.reverse (fun _ => false) List.reverse_perm 2 partitioned 1
  rw [hrun] at hspec
  refine ⟨hrun, fun m hm => ?_⟩
  by_contra hout
  cases (hspec.2.2 m).mpr ⟨hm, hout⟩

/-- The map comes down in every order of the dictionary exactly when it is there, it and all that
    stands on it is idle, and no map is used both directly and through another of its users. -/
theorem removeDeviceMap_always_iff (busy : ℕ → Bool) (fuel : ℕ) (s : Mapper) (d : ℕ)
    (hs : Stacked s) (hfuel : s.maps.length ≤ fuel) :
    (∀ items : List DeviceMap → List DeviceMap, (∀ l, (items l).Perm l) →
      ∃ s', removeDeviceMap items busy fuel s d = .done s') ↔
    d ∈ s.devs ∧ (∀ x ∈ cone s.uses d, busy x = false) ∧ NoShortcut s d := by
  constructor
  · intro h
    obtain ⟨s', hs'⟩ := h id List.Perm.refl
    have hkeeps := @removeDeviceMap_keeps id busy List.Perm.refl fuel s d
    rw [hs'] at hkeeps
    refine ⟨hkeeps.1, hkeeps.2.1, ?_⟩
    intro x hx u v hu hv huv
    by_contra hne
    obtain ⟨items, hitems, hway, hfirst⟩ := exists_order hs hx hu
    obtain ⟨s₁, hs₁⟩ := h items hitems
    obtain ⟨fuel', s₂, hs₂⟩ := done_along fuel hway hs₁
    have hpair := users_pairwise hitems hs₂
    have hmem := (mem_users_iff hitems s x v).mpr hv
    cases hus : users items s x with
    | nil =>
      rw [hus] at hmem
      cases hmem
    | cons w us =>
      unfold First at hfirst
      rw [hus] at hfirst hmem hpair
      cases hfirst
      cases List.mem_cons.mp hmem with
      | inl heq => exact hne heq.symm
      | inr hin => exact (List.pairwise_cons.mp hpair).1 v hin huv
  · rintro ⟨hd, hidle, hshort⟩ items hitems
    exact removeDeviceMap_succeeds hitems hs hd hidle hshort ((ncard_cone_le hd).trans hfuel)

theorem removeDeviceMap_always_iff_partitioned :
    ∃ s', removeDeviceMap List.reverse (fun _ => false) 3 partitioned 1 = .done s' := by
  have hs : Stacked partitioned := by
    refine ⟨id, fun x y hxy => ?_⟩
    have hxy' := partitioned_uses hxy
    simp only [id]
    omega
  have halways := removeDeviceMap_always_iff (fun _ => false) 3 partitioned 1 hs le_rfl
  apply halways.mpr _ List.reverse List.reverse_perm
  refine ⟨by decide, fun _ _ => rfl, ?_⟩
  intro x _ u v hu _ huv
  cases mem_cone_iff.mp huv with
  | inl heq => exact heq.symm
  | inr hz =>
    obtain ⟨z, huz, -⟩ := hz
    have hu' := partitioned_uses hu
    have huz' := partitioned_uses huz
    omega

/-- Map 3 is on 1 and on 2, and 2 is on 1. -/
def shortcut : Mapper where
  maps := [⟨1, [], List.nodup_nil⟩, ⟨2, [1], by decide⟩, ⟨3, [1, 2], by decide⟩]
  nodup := by decide

example : removeDeviceMap List.reverse (fun _ => false) 3 shortcut 1 =
    .done ⟨[], List.nodup_nil⟩ := by
  rfl

example : removeDeviceMap id (fun _ => false) 3 shortcut 1 =
    .raised ⟨[⟨1, [], List.nodup_nil⟩], by decide⟩ := by
  rfl

end Comodoo.RemoveDeviceMap
