import Comodoo.CpioTreeRun

set_option autoImplicit false

/-!
# The tree at the end

When the sweep has finished all groups the disk holds the tree of the archive. It can finish
them exactly when every group has data and every link can be made at the time the code makes it.
-/
namespace Comodoo.CpioTreeCorrect
open CString CpioSystem CpioRead CpioExpand CpioInstall CpioGroups CpioFormat CpioStream CpioDisk
open CpioDiskCalls CpioDiskFiles CpioDiskLinks CpioTree CpioTreeGroups CpioTreeSteps
open CpioTreeMembers CpioTreeRun FilePath

/-- The disk holds the tree of the archive and nothing else. -/
structure Describes (es : List Item) (d : Disk) : Prop where
  names : ∀ cs, d.ino cs ≠ none ↔ cs = [] ∨ ∃ e ∈ es, cs <+: place e
  files : ∀ e ∈ es, ∃ i, d.ino (place e) = some i ∧
    d.node i = nodeOf (origin es e).head (origin es e).data
  implied : ∀ cs i, d.ino cs = some i → (∀ e ∈ es, place e ≠ cs) → d.node i = dirNode
  linked : ∀ e ∈ es, ∀ m ∈ es, sameGroup e m = true → d.ino (place e) = d.ino (place m)
  apart : ∀ cs cs' i, d.ino cs = some i → d.ino cs' = some i →
    cs = cs' ∨ ∃ e ∈ es, ∃ m ∈ es, place e = cs ∧ place m = cs' ∧ sameGroup e m = true

section Sweep

variable {es : List Item} {d : Disk}

theorem hasDir_append_all {done : List Item} (rest : List Item) (hnodup : (done ++ rest).Nodup)
    {cs : Place} (h : HasDir done cs) : HasDir (done ++ rest) cs := by
  induction rest generalizing done with
  | nil => rwa [List.append_nil]
  | cons e rest ih =>
    rw [List.append_cons] at hnodup ⊢
    refine ih hnodup (hasDir_mono ?_ h)
    have hfront := (List.nodup_append.mp hnodup).1
    intro hin
    exact (List.nodup_append.mp hfront).2.2 e hin e (by simp) rfl

theorem installable_nodup (hes : Installable es) : es.Nodup := by
  refine hes.distinct.imp ?_
  rintro a b hne rfl
  exact hne rfl

theorem above_dir (h : Core es d) {e : Item} (hthere : d.ino (place e) ≠ none) :
    d.isDir (above e) = true := by
  obtain ⟨i, hi⟩ := Option.ne_none_iff_exists'.mp hthere
  by_cases hnil : place e = []
  · have habove : above e = [] := by rw [above, hnil, List.dropLast_nil]
    rw [habove]
    exact h.sound.root
  · exact h.sound.parents _ i hnil hi

theorem sim_sweep {links : List HardLink} {lastDir : Option Str}
    (h : Sim es es d links lastDir) : Sweep es d links :=
  ⟨h.built.core, h.built.dirs, h.groups.keyed, h.groups.each,
    fun m hm hmem => Or.inr (h.groups.known m hm hmem)⟩

theorem sim_group {links : List HardLink} {lastDir : Option Str} (h : Sim es es d links lastDir)
    {m : Item} (hm : m ∈ es) (hmem : isMember m = true) :
    ∃ li ∈ links, ∃ e, Group es d e li ∧ sameGroup e m = true := by
  obtain ⟨li, hli, hinode, hdev⟩ := h.groups.known m hm hmem
  obtain ⟨e, -, hemem, hgroup⟩ := h.groups.each li hli
  exact ⟨li, hli, e, hgroup, sameGroup_iff.mpr ⟨hemem, hmem, hinode.symm.trans hgroup.inode,
    hdev.symm.trans hgroup.dev⟩⟩

/-- The sweep can finish all groups exactly when the links of the archive are well placed. -/
theorem ready_iff (hes : Installable es) {links : List HardLink} {lastDir : Option Str}
    (h : Sim es es d links lastDir) : (∀ li ∈ links, Ready d li) ↔ LinksPlaced es := by
  constructor
  · intro hready
    refine ⟨?_, h.placed, ?_⟩
    · intro e he hmem
      obtain ⟨li, hli, m, hgroup, hsame⟩ := sim_group h he hmem
      obtain ⟨k, hk⟩ := Option.ne_none_iff_exists'.mp (hready li hli).1
      obtain ⟨-, c, hc, -⟩ := hgroup.made k hk
      rw [carrier_congr hsame, hc]
      exact Option.some_ne_none c
    · intro front c rest hsplit hc m hm hsame
      have hmem : m ∈ es := by simp [hsplit, hm]
      obtain ⟨li, hli, e, hgroup, hem⟩ := sim_group h hmem (sameGroup_iff.mp hsame).2.1
      rw [← h.built.dirs]
      rcases hgroup.covers m hmem hem with hwait | hthere
      · exact (hready li hli).2 _ hwait
      · exact above_dir h.built.core hthere
  · intro hplaced li hli
    obtain ⟨e, he, hmem, hgroup⟩ := h.groups.each li hli
    have hcreated : li.createdPath ≠ none := fun hnone =>
      hplaced.1 e he hmem (hgroup.unmade hnone).2
    refine ⟨hcreated, ?_⟩
    intro f hf
    obtain ⟨m, hm, hsame, rfl, habsent⟩ := hgroup.missing f hf
    obtain ⟨k, hk⟩ := Option.ne_none_iff_exists'.mp hcreated
    obtain ⟨-, c, hc, -, hthere⟩ := hgroup.made k hk
    obtain ⟨hcmem, hcsame, -⟩ := carrier_spec hc
    have hcm : sameGroup c m = true := sameGroup_trans (sameGroup_symm hcsame) hsame
    obtain ⟨front, rest, hsplit⟩ := List.append_of_mem hcmem
    refine (h.built.dirs (above m)).mpr ?_
    rw [hsplit, List.mem_append, List.mem_cons] at hm
    rcases hm with hm | rfl | hm
    · have hdir := hplaced.2.1 front c rest hsplit (carrier_self hc) m hm hcm
      rw [hsplit, List.append_cons]
      refine hasDir_append_all rest ?_ hdir
      rw [← List.append_cons, ← hsplit]
      exact installable_nodup hes
    · exact absurd habsent hthere
    · exact hplaced.2.2 front c rest hsplit (carrier_self hc) m hm hcm

theorem sweep_describes (h : Sweep es d []) : Describes es d := by
  have hmembers : ∀ m ∈ es, isMember m = true → d.ino (place m) ≠ none := by
    intro m hm hmem
    rcases h.known m hm hmem with hthere | ⟨li, hli, -⟩
    · exact hthere
    · cases hli
  have hthere : ∀ e ∈ es, d.ino (place e) ≠ none := by
    intro e he
    cases hmem : isMember e with
    | true => exact hmembers e he hmem
    | false =>
      obtain ⟨i, hi, -⟩ := h.core.plain e he hmem
      rw [hi]
      exact Option.some_ne_none i
  have hdir : ∀ {cs}, d.isDir cs = true → d.ino cs ≠ none := by
    intro cs hcs hnone
    obtain ⟨i, hi, -⟩ := isDir_iff.mp hcs
    rw [hi] at hnone
    cases hnone
  refine ⟨?_, ?_, h.core.implied, ?_, h.core.apart⟩
  · intro cs
    constructor
    · intro hcs
      rcases h.core.only cs hcs with hcs | ⟨e, he, rfl⟩
      · rcases (h.dirs cs).mp hcs with hroot | ⟨e, he, -, hle | ⟨-, rfl⟩⟩
        · exact Or.inl hroot
        · exact Or.inr ⟨e, he, prefix_place.mpr (Or.inl hle)⟩
        · exact Or.inr ⟨e, he, List.prefix_refl _⟩
      · exact Or.inr ⟨e, he, List.prefix_refl _⟩
    · rintro (rfl | ⟨e, he, hle⟩)
      · exact hdir h.core.sound.root
      · rcases prefix_place.mp hle with hle | rfl
        · exact hdir (h.core.sound.isDir_of_le (above_dir h.core (hthere e he)) hle)
        · exact hthere e he
  · intro e he
    cases hmem : isMember e with
    | false =>
      have horigin : origin es e = e := by
        have hnone : es.find? (sameGroup e) = none := by
          rw [List.find?_eq_none]
          intro m _ hsame
          rw [(sameGroup_iff.mp hsame).1] at hmem
          cases hmem
        rw [origin, carrier_not_member hmem, hnone]
        rfl
      rw [horigin]
      exact h.core.plain e he hmem
    | true =>
      obtain ⟨i, hi⟩ := Option.ne_none_iff_exists'.mp (hthere e he)
      obtain ⟨c, hc, -, hnode⟩ := h.core.linked e he hmem i hi
      refine ⟨i, hi, ?_⟩
      rw [origin, hc, Option.getD_some]
      exact hnode
  · intro e he m hm hsame
    obtain ⟨-, hmmem, -⟩ := sameGroup_iff.mp hsame
    obtain ⟨i, hi⟩ := Option.ne_none_iff_exists'.mp (hthere e he)
    obtain ⟨j, hj⟩ := Option.ne_none_iff_exists'.mp (hthere m hm)
    obtain ⟨c, hc, hci, -⟩ := h.core.linked e he (sameGroup_iff.mp hsame).1 i hi
    obtain ⟨c', hc', hcj, -⟩ := h.core.linked m hm hmmem j hj
    rw [carrier_congr hsame, hc] at hc'
    obtain rfl := Option.some.inj hc'
    rw [hi, hj, ← hci, ← hcj]

end Sweep

end Comodoo.CpioTreeCorrect
