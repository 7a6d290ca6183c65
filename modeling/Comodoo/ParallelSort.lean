import Comodoo.ComparisonSort
import Mathlib.Data.List.Pairwise

set_option autoImplicit false

/-!
# Sorting two arrays side by side

Two lists of keys of the same records, each sorted for itself by one comparison function, and when
they still belong together afterwards.
-/
namespace Comodoo.ParallelSort
open ComparisonSort

variable {ρ β : Type}

/-- The keys at one place are those of one record. -/
def Follows (sort : (β → β → ℤ) → List β → List β) (cmp : β → β → ℤ) (f g : ρ → β)
    (rs : List ρ) : Prop :=
  ∀ (i : ℕ) (x y : β), (sort cmp (rs.map f))[i]? = some x → (sort cmp (rs.map g))[i]? = some y →
    ∃ r ∈ rs, f r = x ∧ g r = y

/-- Of two records with different second keys one comes strictly before the other by both keys. -/
structure Agreeing (cmp : β → β → ℤ) (f g : ρ → β) (rs : List ρ) : Prop where
  first : Consistent cmp (rs.map f)
  second : Consistent cmp (rs.map g)
  strict : ∀ r ∈ rs, ∀ s ∈ rs, g r = g s ∨
    (cmp (f r) (f s) < 0 ∧ cmp (g r) (g s) < 0) ∨ (0 < cmp (f r) (f s) ∧ 0 < cmp (g r) (g s))

theorem exists_perm_of_perm_map {f : ρ → β} {rs : List ρ} {xs : List β}
    (hperm : (rs.map f).Perm xs) : ∃ ss : List ρ, ss.Perm rs ∧ ss.map f = xs := by
  generalize hys : rs.map f = ys at hperm
  induction hperm generalizing rs with
  | nil => exact ⟨rs, List.Perm.refl rs, hys⟩
  | cons x _ ih =>
    obtain ⟨r, rest, rfl, rfl, hrest⟩ := List.map_eq_cons_iff.mp hys
    obtain ⟨ss, hss, hmap⟩ := ih hrest
    exact ⟨r :: ss, hss.cons r, by rw [List.map_cons, hmap]⟩
  | swap x y l =>
    obtain ⟨r, rest, rfl, rfl, hrest⟩ := List.map_eq_cons_iff.mp hys
    obtain ⟨s, tail, rfl, rfl, htail⟩ := List.map_eq_cons_iff.mp hrest
    exact ⟨s :: r :: tail, List.Perm.swap r s tail, by rw [List.map_cons, List.map_cons, htail]⟩
  | trans _ _ ih ih' =>
    obtain ⟨ss, hss, hmap⟩ := ih hys
    obtain ⟨ts, hts, hmap'⟩ := ih' hmap
    exact ⟨ts, hts.trans hss, hmap'⟩

theorem pairwise_or {Q : β → β → Prop} {xs : List β} {a b : β} (h : xs.Pairwise Q) (ha : a ∈ xs)
    (hb : b ∈ xs) (hne : a ≠ b) : Q a b ∨ Q b a := by
  have hsymm : Std.Symm (fun a b => Q a b ∨ Q b a) := ⟨fun _ _ => Or.symm⟩
  exact (h.imp Or.inl : xs.Pairwise fun a b => Q a b ∨ Q b a).forall ha hb hne

theorem exists_inOrder_first {cmp : β → β → ℤ} {zs : List β} (hcmp : Consistent cmp zs) (a : β) :
    ∃ xs, xs.Perm zs ∧ InOrder cmp xs ∧ xs.Pairwise fun x y => cmp x y = 0 → y = a → x = a := by
  classical
  let rank : β → ℤ := fun x => if x = a then 0 else 1
  let cmp' : β → β → ℤ := fun x y => if cmp x y = 0 then rank x - rank y else cmp x y
  have hcmp' : Consistent cmp' zs := by
    refine ⟨fun x hx y hy => ?_, fun x hx y hy z hz hxy hyz => ?_⟩
    · have hopp := hcmp.opposite x hx y hy
      by_cases hzero : cmp x y = 0
      · have hback := hopp.zero_iff.mp hzero
        have hrank : rank x - rank y = -(rank y - rank x) := by omega
        rw [OppositeSigns]
        simp only [cmp', hzero, hback, if_true]
        rw [hrank, Int.sign_neg]
      · have hback := mt hopp.zero_iff.mpr hzero
        rw [OppositeSigns]
        simp only [cmp', hzero, hback, if_false]
        exact hopp
    · have hchain := hcmp.chained x hx y hy z hz
      have hback := hcmp.chained z hz x hx y hy
      have hback' := hcmp.chained y hy z hz x hx
      have hxyPos := (hcmp.opposite x hx y hy).pos_iff
      have hyxPos := (hcmp.opposite y hy x hx).pos_iff
      have hyzPos := (hcmp.opposite y hy z hz).pos_iff
      have hzyPos := (hcmp.opposite z hz y hy).pos_iff
      have hxzPos := (hcmp.opposite x hx z hz).pos_iff
      have hzxPos := (hcmp.opposite z hz x hx).pos_iff
      simp only [Chained] at hchain hback hback'
      simp only [cmp'] at hxy hyz ⊢
      split_ifs at hxy hyz ⊢ <;> omega
  obtain ⟨xs, hperm, horder⟩ := exists_inOrder hcmp'
  refine ⟨xs, hperm, horder.imp fun {x y} hle => ?_, horder.imp fun {x y} hle hzero hy => ?_⟩
  · simp only [cmp'] at hle
    split_ifs at hle <;> omega
  · by_contra hx
    simp only [cmp', if_pos hzero, rank, if_neg hx, if_pos hy] at hle
    omega

section Follows
variable {cmp : β → β → ℤ} {f g : ρ → β} {rs ss ts : List ρ}

theorem map_eq_of_follows (hnodup : (rs.map f).Nodup) (hne : rs.map f ≠ rs.map g)
    (hfollows : ∀ sort, Sorts sort → Follows sort cmp f g rs) (hss : ss.Perm rs) (hts : ts.Perm rs)
    (hf : Consistent cmp (rs.map f) → InOrder cmp (ss.map f))
    (hg : Consistent cmp (rs.map g) → InOrder cmp (ts.map g)) : ss.map g = ts.map g := by
  obtain ⟨sort, hsort, hfirst, hsecond⟩ := exists_sorts hne (hss.map f) (hts.map g) hf hg
  have hat := hfollows sort hsort
  rw [Follows, hfirst, hsecond] at hat
  have hlen : (ss.map g).length = (ts.map g).length := by
    rw [List.length_map, List.length_map, hss.length_eq, hts.length_eq]
  refine List.ext_getElem hlen fun i hi hi' => ?_
  have his : i < ss.length := by rwa [List.length_map] at hi
  have hif : i < (ss.map f).length := by rwa [List.length_map]
  obtain ⟨r, hr, hfr, hgr⟩ := hat i _ _ (List.getElem?_eq_getElem hif) (List.getElem?_eq_getElem hi')
  rw [List.getElem_map] at hfr
  have hsame : r = ss[i] :=
    List.inj_on_of_nodup_map hnodup hr (hss.subset (List.getElem_mem his)) hfr
  rw [← hgr, hsame, List.getElem_map]

theorem follows_of_agreeing {sort : (β → β → ℤ) → List β → List β} (hsort : Sorts sort)
    (hagree : Agreeing cmp f g rs) : Follows sort cmp f g rs := by
  obtain ⟨ss, hss, hmap⟩ := exists_perm_of_perm_map (hsort.perm cmp (rs.map f)).symm
  have hself : ∀ r ∈ rs, cmp (g r) (g r) = 0 := fun r hr =>
    opposite_self_iff.mp (hagree.second.opposite _ (List.mem_map_of_mem hr) _ (List.mem_map_of_mem hr))
  have hfirst : InOrder cmp (ss.map f) := by
    rw [hmap]
    exact hsort.inOrder cmp _ hagree.first
  have hsecond : InOrder cmp (ss.map g) := by
    rw [InOrder, List.pairwise_map] at hfirst ⊢
    refine List.Pairwise.imp_of_mem (fun {r s} hr hs hle => ?_) hfirst
    rcases hagree.strict r (hss.subset hr) s (hss.subset hs) with heq | ⟨-, hneg⟩ | ⟨hpos, -⟩
    · rw [← heq, hself r (hss.subset hr)]
    · exact Int.le_of_lt hneg
    · omega
  have hmap' : sort cmp (rs.map g) = ss.map g := by
    refine eq_of_inOrder hagree.second (fun x hx y hy hzero => ?_) (hsort.perm cmp _) (hss.map g)
      (hsort.inOrder cmp _ hagree.second) hsecond
    obtain ⟨r, hr, rfl⟩ := List.mem_map.mp hx
    obtain ⟨s, hs, rfl⟩ := List.mem_map.mp hy
    rcases hagree.strict r hr s hs with heq | ⟨-, hneg⟩ | ⟨-, hpos⟩
    · exact heq
    · omega
    · omega
  intro i x y hx hy
  rw [← hmap, List.getElem?_map, Option.map_eq_some_iff] at hx
  rw [hmap', List.getElem?_map, Option.map_eq_some_iff] at hy
  obtain ⟨r, hr, rfl⟩ := hx
  obtain ⟨s, hs, rfl⟩ := hy
  rw [hr, Option.some.injEq] at hs
  exact ⟨r, hss.subset (List.mem_of_getElem? hr), rfl, by rw [hs]⟩

theorem exists_perm_cons {r : ρ} (hr : r ∈ rs) : ∃ tail : List ρ, (r :: tail).Perm rs := by
  obtain ⟨l, l', rfl⟩ := List.append_of_mem hr
  exact ⟨l ++ l', List.perm_middle.symm⟩

/-- An order that a sorting function may leave a list of keys in. -/
theorem exists_allowed (cmp : β → β → ℤ) (f : ρ → β) (rs : List ρ) :
    ∃ ss : List ρ, ss.Perm rs ∧ (Consistent cmp (rs.map f) → InOrder cmp (ss.map f)) := by
  by_cases hcmp : Consistent cmp (rs.map f)
  · obtain ⟨xs, hperm, horder⟩ := exists_inOrder hcmp
    obtain ⟨ss, hss, hmap⟩ := exists_perm_of_perm_map hperm.symm
    exact ⟨ss, hss, fun _ => hmap ▸ horder⟩
  · exact ⟨rs, List.Perm.refl rs, fun h => absurd h hcmp⟩

section Converse
variable (hnodup : (rs.map f).Nodup) (hne : rs.map f ≠ rs.map g)
  (hfollows : ∀ sort, Sorts sort → Follows sort cmp f g rs)
include hnodup hne hfollows

theorem first_consistent {r s : ρ} (hr : r ∈ rs) (hs : s ∈ rs) (hgrs : g r ≠ g s) :
    Consistent cmp (rs.map f) := by
  by_contra hbad
  obtain ⟨ts, hts, hallowed⟩ := exists_allowed cmp g rs
  obtain ⟨tail, htail⟩ := exists_perm_cons hr
  obtain ⟨tail', htail'⟩ := exists_perm_cons hs
  have hrs := map_eq_of_follows hnodup hne hfollows htail hts (fun h => absurd h hbad) hallowed
  have hrs' := map_eq_of_follows hnodup hne hfollows htail' hts (fun h => absurd h hbad) hallowed
  rw [← hrs', List.map_cons, List.map_cons] at hrs
  exact hgrs (List.cons.inj hrs).1

theorem second_consistent {r s : ρ} (hr : r ∈ rs) (hs : s ∈ rs) (hgrs : g r ≠ g s) :
    Consistent cmp (rs.map g) := by
  by_contra hbad
  obtain ⟨ss, hss, hallowed⟩ := exists_allowed cmp f rs
  obtain ⟨tail, htail⟩ := exists_perm_cons hr
  obtain ⟨tail', htail'⟩ := exists_perm_cons hs
  have hrs := map_eq_of_follows hnodup hne hfollows hss htail hallowed (fun h => absurd h hbad)
  have hrs' := map_eq_of_follows hnodup hne hfollows hss htail' hallowed (fun h => absurd h hbad)
  rw [hrs, List.map_cons, List.map_cons] at hrs'
  exact hgrs (List.cons.inj hrs').1

theorem second_ties (hsecond : Consistent cmp (rs.map g)) {r s : ρ} (hr : r ∈ rs) (hs : s ∈ rs)
    (hzero : cmp (g r) (g s) = 0) : g r = g s := by
  by_contra hgrs
  have hzero' := (hsecond.opposite _ (List.mem_map_of_mem hr) _ (List.mem_map_of_mem hs)).zero_iff.mp
    hzero
  obtain ⟨ss, hss, hallowed⟩ := exists_allowed cmp f rs
  obtain ⟨xs, hxs, hxorder, hxfirst⟩ := exists_inOrder_first hsecond (g r)
  obtain ⟨ys, hys, hyorder, hyfirst⟩ := exists_inOrder_first hsecond (g s)
  obtain ⟨ts, hts, rfl⟩ := exists_perm_of_perm_map hxs.symm
  obtain ⟨us, hus, rfl⟩ := exists_perm_of_perm_map hys.symm
  have hx := map_eq_of_follows hnodup hne hfollows hss hts hallowed (fun _ => hxorder)
  have hy := map_eq_of_follows hnodup hne hfollows hss hus hallowed (fun _ => hyorder)
  rw [← hy, hx] at hyfirst
  have hmr : g r ∈ ts.map g := List.mem_map_of_mem (hts.symm.subset hr)
  have hms : g s ∈ ts.map g := List.mem_map_of_mem (hts.symm.subset hs)
  rcases pairwise_or (hxfirst.and hyfirst) hmr hms hgrs with ⟨-, hlater⟩ | ⟨hlater, -⟩
  · exact hgrs (hlater hzero rfl)
  · exact hgrs (hlater hzero' rfl).symm

theorem second_follows (hfirst : Consistent cmp (rs.map f)) (hsecond : Consistent cmp (rs.map g))
    {r s : ρ} (hr : r ∈ rs) (hs : s ∈ rs) (hrs : r ≠ s) (hle : cmp (f r) (f s) ≤ 0) :
    cmp (g r) (g s) ≤ 0 := by
  have hfne : f r ≠ f s := fun h => hrs (List.inj_on_of_nodup_map hnodup hr hs h)
  obtain ⟨ts, hts, hallowed⟩ := exists_allowed cmp g rs
  obtain ⟨xs, hxs, hxorder, hxfirst⟩ := exists_inOrder_first hfirst (f r)
  obtain ⟨ss, hss, rfl⟩ := exists_perm_of_perm_map hxs.symm
  have hmap := map_eq_of_follows hnodup hne hfollows hss hts (fun _ => hxorder) hallowed
  have hgorder := hallowed hsecond
  rw [← hmap] at hgorder
  rw [InOrder, List.pairwise_map] at hxorder hgorder
  rw [List.pairwise_map] at hxfirst
  rcases pairwise_or (hxorder.and (hxfirst.and hgorder)) (hss.symm.subset hr) (hss.symm.subset hs)
    hrs with ⟨-, -, hg⟩ | ⟨hback, hlater, -⟩
  · exact hg
  · have hpos := (hfirst.opposite _ (List.mem_map_of_mem hs) _ (List.mem_map_of_mem hr)).pos_iff
    have hneg := (hfirst.opposite _ (List.mem_map_of_mem hr) _ (List.mem_map_of_mem hs)).pos_iff
    have hzero : cmp (f s) (f r) = 0 := by omega
    exact absurd (hlater hzero rfl).symm hfne

theorem agreeing_of_follows {r s : ρ} (hr : r ∈ rs) (hs : s ∈ rs) (hgrs : g r ≠ g s) :
    Agreeing cmp f g rs := by
  have hfirst := first_consistent hnodup hne hfollows hr hs hgrs
  have hsecond := second_consistent hnodup hne hfollows hr hs hgrs
  refine ⟨hfirst, hsecond, fun x hx y hy => ?_⟩
  by_cases hgxy : g x = g y
  · exact Or.inl hgxy
  · right
    have hxy : x ≠ y := fun h => hgxy (congrArg g h)
    have htie := mt (second_ties hnodup hne hfollows hsecond hx hy) hgxy
    have hforth := second_follows hnodup hne hfollows hfirst hsecond hx hy hxy
    have hback := second_follows hnodup hne hfollows hfirst hsecond hy hx hxy.symm
    have hfpos := (hfirst.opposite _ (List.mem_map_of_mem hx) _ (List.mem_map_of_mem hy)).pos_iff
    have hgpos := (hsecond.opposite _ (List.mem_map_of_mem hx) _ (List.mem_map_of_mem hy)).pos_iff
    have hfneg := (hfirst.opposite _ (List.mem_map_of_mem hy) _ (List.mem_map_of_mem hx)).pos_iff
    have hgneg := (hsecond.opposite _ (List.mem_map_of_mem hy) _ (List.mem_map_of_mem hx)).pos_iff
    omega

end Converse

/-- Whatever order a sorting function may choose, the two lists still belong together: only if they
are one list, if all second keys are the same, or if the two orders agree strictly. -/
theorem follows_iff (hnodup : (rs.map f).Nodup) :
    (∀ sort, Sorts sort → Follows sort cmp f g rs) ↔
      rs.map f = rs.map g ∨ (∀ r ∈ rs, ∀ s ∈ rs, g r = g s) ∨ Agreeing cmp f g rs := by
  constructor
  · intro hfollows
    by_cases hne : rs.map f = rs.map g
    · exact Or.inl hne
    · right
      by_cases hsame : ∀ r ∈ rs, ∀ s ∈ rs, g r = g s
      · exact Or.inl hsame
      · push Not at hsame
        obtain ⟨r, hr, s, hs, hgrs⟩ := hsame
        exact Or.inr (agreeing_of_follows hnodup hne hfollows hr hs hgrs)
  · rintro (hsame | hsame | hagree) sort hsort
    · intro i x y hx hy
      rw [← hsame, hx, Option.some.injEq] at hy
      obtain ⟨r, hr, hfr⟩ := List.mem_map.mp ((hsort.perm cmp _).subset (List.mem_of_getElem? hx))
      exact ⟨r, hr, hfr, by rw [← hy, ← hfr, List.map_inj_left.mp hsame r hr]⟩
    · intro i x y hx hy
      obtain ⟨r, hr, hfr⟩ := List.mem_map.mp ((hsort.perm cmp _).subset (List.mem_of_getElem? hx))
      obtain ⟨s, hs, hgs⟩ := List.mem_map.mp ((hsort.perm cmp _).subset (List.mem_of_getElem? hy))
      exact ⟨r, hr, hfr, by rw [← hgs, hsame r hr s hs]⟩
    · exact follows_of_agreeing hsort hagree

end Follows

end Comodoo.ParallelSort
