import Mathlib.Tactic.Common

set_option autoImplicit false

/-!
# Tables searched by first match

A table keeps a list of values under each key. `insert` adds to the first entry whose key
matches by `r`, and opens a new entry where none does. With equality for `r` every value goes
under its own key; here `r` is only reflexive and transitive.
-/
namespace Comodoo.FirstMatch

variable {κ ν : Type} (r : κ → κ → Bool)

def insert : List (κ × List ν) → κ → ν → List (κ × List ν)
  | [], k, v => [(k, [v])]
  | e :: t, k, v => if r e.1 k then (e.1, e.2 ++ [v]) :: t else e :: insert t k v

def insertAll (t : List (κ × List ν)) : List (κ × ν) → List (κ × List ν)
  | [] => t
  | c :: calls => insertAll (insert r t c.1 c.2) calls

/-- A key is inserted for the first time before all other keys that match it. -/
def OwnFirst : List κ → List (κ × ν) → Prop
  | _, [] => True
  | seen, c :: calls =>
    (c.1 ∉ seen → ∀ p ∈ seen, r p c.1 = false) ∧ OwnFirst (c.1 :: seen) calls

section Keys

variable {r} {t : List (κ × List ν)} {seen : List κ}

theorem insert_keys (k : κ) (v : ν) :
    (insert r t k v).map Prod.fst =
      if ∃ e ∈ t, r e.1 k = true then t.map Prod.fst else t.map Prod.fst ++ [k] := by
  induction t with
  | nil => simp [insert]
  | cons e t ih =>
    by_cases he : r e.1 k = true
    · simp [insert, he]
    · rw [insert, if_neg he, List.map_cons, ih]
      by_cases ht : ∃ e ∈ t, r e.1 k = true
      · rw [if_pos ht, if_pos (by simpa [he] using ht), List.map_cons]
      · rw [if_neg ht, if_neg (by simpa [he] using ht), List.map_cons, List.cons_append]

theorem subset_insert_keys (k : κ) (v : ν) :
    t.map Prod.fst ⊆ (insert r t k v).map Prod.fst := by
  rw [insert_keys]
  split
  · exact List.Subset.refl _
  · exact List.subset_append_left _ _

theorem insert_keys_subset (k : κ) (v : ν) :
    (insert r t k v).map Prod.fst ⊆ k :: t.map Prod.fst := by
  rw [insert_keys]
  split
  · exact List.subset_cons_self _ _
  · intro p hp
    rw [List.mem_append, List.mem_singleton] at hp
    exact hp.elim (List.mem_cons_of_mem _) (fun heq => heq ▸ List.mem_cons_self)

/-- The table while `OwnFirst` holds: its keys are those seen, and none is matched by an entry
in front of it. -/
structure Clean (r : κ → κ → Bool) (t : List (κ × List ν)) (seen : List κ) : Prop where
  keys : ∀ k, k ∈ t.map Prod.fst ↔ k ∈ seen
  apart : (t.map Prod.fst).Pairwise (fun a b => r a b = false)

theorem Clean.insert (hr : ∀ k, r k k = true) (h : Clean r t seen) (k : κ) (v : ν)
    (hfirst : k ∉ seen → ∀ p ∈ seen, r p k = false) : Clean r (insert r t k v) (k :: seen) := by
  have hkeys := insert_keys (r := r) (t := t) k v
  by_cases hk : k ∈ seen
  · obtain ⟨e, he, hek⟩ := List.mem_map.mp ((h.keys k).mpr hk)
    rw [if_pos ⟨e, he, hek ▸ hr e.1⟩] at hkeys
    refine ⟨fun m => ?_, hkeys ▸ h.apart⟩
    rw [hkeys, h.keys, List.mem_cons]
    exact ⟨Or.inr, fun hm => hm.elim (fun heq => heq ▸ hk) id⟩
  · have hno : ∀ p ∈ t.map Prod.fst, r p k = false := fun p hp => hfirst hk p ((h.keys p).mp hp)
    rw [if_neg] at hkeys
    · refine ⟨fun m => ?_, ?_⟩
      · rw [hkeys, List.mem_append, List.mem_singleton, h.keys, List.mem_cons, or_comm]
      · rw [hkeys, List.pairwise_append]
        refine ⟨h.apart, List.pairwise_singleton _ _, fun a ha b hb => ?_⟩
        rw [List.mem_singleton.mp hb]
        exact hno a ha
    · rintro ⟨e, he, hek⟩
      rw [hno e.1 (List.mem_map_of_mem he)] at hek
      cases hek

theorem find_own {k : κ} (hr : ∀ k, r k k = true) (hmem : k ∈ t.map Prod.fst)
    (hap : (t.map Prod.fst).Pairwise (fun a b => r a b = false)) (e : κ × List ν)
    (h : t.find? (fun e => r e.1 k) = some e) : e.1 = k := by
  induction t with
  | nil => cases h
  | cons a t ih =>
    rw [List.map_cons, List.pairwise_cons] at hap
    by_cases ha : r a.1 k = true
    · have hea : a = e := by simpa [ha] using h
      rw [← hea]
      rw [List.map_cons, List.mem_cons] at hmem
      rcases hmem with hk | hk
      · exact hk.symm
      · rw [hap.1 k hk] at ha
        cases ha
    · rw [List.map_cons, List.mem_cons] at hmem
      rcases hmem with hk | hk
      · rw [hk] at ha
        exact absurd (hr a.1) ha
      · exact ih hk hap.2 (by simpa [ha] using h)

/-- A key with no entry of its own, behind an entry that matches it. -/
def Shadowed (r : κ → κ → Bool) (t : List (κ × List ν)) (k : κ) : Prop :=
  k ∉ t.map Prod.fst ∧ ∃ p ∈ t.map Prod.fst, r p k = true

theorem Shadowed.insert {k : κ} (h : Shadowed r t k) (k' : κ) (v : ν) :
    Shadowed r (insert r t k' v) k := by
  obtain ⟨hno, p, hp, hrp⟩ := h
  refine ⟨fun hmem => ?_, p, subset_insert_keys k' v hp, hrp⟩
  obtain ⟨e, he, heq⟩ := List.mem_map.mp hp
  rw [insert_keys] at hmem
  split at hmem
  · exact hno hmem
  · rename_i hnone
    rw [List.mem_append, List.mem_singleton] at hmem
    refine hmem.elim hno (fun hk => hnone ⟨e, he, ?_⟩)
    rw [heq, ← hk]
    exact hrp

/-- Every key inserted so far matches some entry. -/
structure Covers (r : κ → κ → Bool) (t : List (κ × List ν)) (seen : List κ) : Prop where
  keys : t.map Prod.fst ⊆ seen
  matched : ∀ k ∈ seen, ∃ p ∈ t.map Prod.fst, r p k = true

theorem Covers.insert (hr : ∀ k, r k k = true) (h : Covers r t seen) (k : κ) (v : ν) :
    Covers r (insert r t k v) (k :: seen) := by
  constructor
  · intro p hp
    exact List.cons_subset_cons k h.keys (insert_keys_subset k v hp)
  · intro m hm
    rw [List.mem_cons] at hm
    rcases hm with rfl | hm
    · rw [insert_keys]
      split
      · rename_i hex
        obtain ⟨e, he, hek⟩ := hex
        exact ⟨e.1, List.mem_map_of_mem he, hek⟩
      · exact ⟨m, List.mem_append_right _ List.mem_cons_self, hr m⟩
    · obtain ⟨p, hp, hpm⟩ := h.matched m hm
      exact ⟨p, subset_insert_keys k v hp, hpm⟩

end Keys

section Lookup

variable [DecidableEq κ]

def lookup (t : List (κ × List ν)) (k : κ) : List ν :=
  match t with
  | [] => []
  | e :: t => if e.1 = k then e.2 else lookup t k

def valuesFor (k : κ) (calls : List (κ × ν)) : List ν :=
  (calls.filter (fun c => c.1 = k)).map Prod.snd

instance decidableOwnFirst : (seen : List κ) → (calls : List (κ × ν)) →
    Decidable (OwnFirst r seen calls)
  | _, [] => inferInstanceAs (Decidable True)
  | seen, c :: calls =>
    have := decidableOwnFirst (c.1 :: seen) calls
    inferInstanceAs (Decidable ((c.1 ∉ seen → ∀ p ∈ seen, r p c.1 = false) ∧ _))

variable {r} {t : List (κ × List ν)} {seen : List κ} {calls : List (κ × ν)}

theorem lookup_insert {k : κ} (hr : ∀ k, r k k = true)
    (hown : ∀ e, t.find? (fun e => r e.1 k) = some e → e.1 = k) (v : ν) (m : κ) :
    lookup (insert r t k v) m = lookup t m ++ (if k = m then [v] else []) := by
  induction t with
  | nil =>
    by_cases hk : k = m
    · simp [insert, lookup, hk]
    · simp [insert, lookup, hk]
  | cons e t ih =>
    by_cases he : r e.1 k = true
    · have hek : e.1 = k := hown e (by simp [he])
      rw [insert, if_pos he, lookup, lookup, hek]
      by_cases hk : k = m
      · rw [if_pos hk, if_pos hk, if_pos hk]
      · rw [if_neg hk, if_neg hk, if_neg hk, List.append_nil]
    · have hne : e.1 ≠ k := by
        intro heq
        rw [heq] at he
        exact he (hr k)
      have ih' := ih (fun e' h' => hown e' (by simpa [he] using h'))
      rw [insert, if_neg he, lookup, lookup]
      by_cases hm : e.1 = m
      · have hkm : k ≠ m := fun h => hne (hm.trans h.symm)
        simp [hm, hkm]
      · rw [if_neg hm, if_neg hm, ih']

theorem lookup_eq_nil {k : κ} (h : k ∉ t.map Prod.fst) : lookup t k = [] := by
  induction t with
  | nil => rfl
  | cons e t ih =>
    rw [List.map_cons, List.mem_cons, not_or] at h
    rw [lookup, if_neg (Ne.symm h.1), ih h.2]

theorem valuesFor_append (k : κ) (done calls : List (κ × ν)) :
    valuesFor k (done ++ calls) = valuesFor k done ++ valuesFor k calls := by
  rw [valuesFor, List.filter_append, List.map_append]
  rfl

theorem valuesFor_singleton (k m : κ) (v : ν) :
    valuesFor m [(k, v)] = if k = m then [v] else [] := by
  by_cases hk : k = m
  · simp [valuesFor, hk]
  · simp [valuesFor, hk]

theorem valuesFor_ne_nil {k : κ} (h : k ∈ calls.map Prod.fst) : valuesFor k calls ≠ [] := by
  obtain ⟨c, hc, hck⟩ := List.mem_map.mp h
  intro hnil
  rw [valuesFor, List.map_eq_nil_iff, List.filter_eq_nil_iff] at hnil
  exact hnil c hc (by simpa using hck)

theorem Clean.lookup_insert (hr : ∀ k, r k k = true) (h : Clean r t seen) {k : κ}
    (hfirst : k ∉ seen → ∀ p ∈ seen, r p k = false) (v : ν) (m : κ) :
    lookup (FirstMatch.insert r t k v) m = lookup t m ++ (if k = m then [v] else []) := by
  refine FirstMatch.lookup_insert hr (fun e he => ?_) v m
  by_cases hk : k ∈ seen
  · exact find_own hr ((h.keys k).mpr hk) h.apart e he
  · have hmem : e.1 ∈ seen := (h.keys e.1).mp (List.mem_map_of_mem (List.mem_of_find?_eq_some he))
    have hfalse := hfirst hk e.1 hmem
    have htrue := List.find?_some he
    simp only [hfalse] at htrue
    cases htrue

theorem insertAll_exact (hr : ∀ k, r k k = true) (h : Clean r t seen)
    (hfirst : OwnFirst r seen calls) (m : κ) :
    lookup (insertAll r t calls) m = lookup t m ++ valuesFor m calls := by
  induction calls generalizing t seen with
  | nil => simp [insertAll, valuesFor]
  | cons c calls ih =>
    rw [insertAll, ih (h.insert hr c.1 c.2 hfirst.1) hfirst.2, h.lookup_insert hr hfirst.1,
      ← valuesFor_singleton c.1 m c.2, List.append_assoc, ← valuesFor_append]
    rfl

theorem Shadowed.insertAll {k : κ} (h : Shadowed r t k) (calls : List (κ × ν)) :
    lookup (insertAll r t calls) k = [] := by
  induction calls generalizing t with
  | nil => exact lookup_eq_nil h.1
  | cons c calls ih => exact ih (h.insert c.1 c.2)

theorem exists_lost (hr : ∀ k, r k k = true)
    (htrans : ∀ a b c, r a b = true → r b c = true → r a c = true) (h : Covers r t seen)
    (hlate : ¬ OwnFirst r seen calls) :
    ∃ k ∈ calls.map Prod.fst, lookup (insertAll r t calls) k = [] := by
  induction calls generalizing t seen with
  | nil => exact absurd trivial hlate
  | cons c calls ih =>
    by_cases hfirst : c.1 ∉ seen → ∀ p ∈ seen, r p c.1 = false
    · obtain ⟨k, hk, hlost⟩ := ih (h.insert hr c.1 c.2) (fun hrest => hlate ⟨hfirst, hrest⟩)
      exact ⟨k, List.mem_cons_of_mem _ hk, hlost⟩
    · push Not at hfirst
      obtain ⟨hnew, p, hp, hpc⟩ := hfirst
      obtain ⟨q, hq, hqp⟩ := h.matched p hp
      have hshadow : Shadowed r t c.1 :=
        ⟨fun hmem => hnew (h.keys hmem), q, hq, htrans q p c.1 hqp (by simpa using hpc)⟩
      exact ⟨c.1, List.mem_cons_self, (hshadow.insert c.1 c.2).insertAll calls⟩

/-- Every value is under its own key exactly when no key comes behind one that matches it. -/
theorem insertAll_exact_iff (hr : ∀ k, r k k = true)
    (htrans : ∀ a b c, r a b = true → r b c = true → r a c = true) (calls : List (κ × ν)) :
    (∀ k, lookup (insertAll r [] calls) k = valuesFor k calls) ↔ OwnFirst r [] calls := by
  constructor
  · intro h
    by_contra hlate
    have hcov : Covers r ([] : List (κ × List ν)) [] :=
      ⟨List.Subset.refl _, fun k hk => absurd hk List.not_mem_nil⟩
    obtain ⟨k, hk, hlost⟩ := exists_lost hr htrans hcov hlate
    exact valuesFor_ne_nil hk ((h k).symm.trans hlost)
  · intro h k
    have hclean : Clean r ([] : List (κ × List ν)) [] := ⟨fun k => Iff.rfl, List.Pairwise.nil⟩
    exact insertAll_exact hr hclean h k



end Lookup

end Comodoo.FirstMatch
