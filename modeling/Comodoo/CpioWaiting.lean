import Comodoo.CpioGroups
import Comodoo.CpioLog

set_option autoImplicit false

/-!
# Entries that wait for their links

While no call fails, every entry has been created or has a slot in a group whose file is still
to be made.
-/
namespace Comodoo.CpioWaiting
open CString CpioSystem CpioRead CpioExpand CpioInstall CpioGroups CpioLog

variable {W : Type} {S : Sys W}

/-- The entry has a slot in a group whose file has not been made. -/
def Waits (links : List HardLink) (ch : CpioHeader) : Prop :=
  isLink ch = true ∧ ∃ li ∈ links, li.inode = ch.inode ∧ li.dev = ch.dev ∧
    li.createdPath = none ∧ some ch.path ∈ li.files

/-- What holds at the head of the loop while no call has failed. -/
structure Inv (links : List HardLink) (log : List Event) : Prop where
  distinct : Distinct links
  unmade : ∀ li ∈ links, li.createdPath = none → li.linksLeft ≠ 0
  made : ∀ li ∈ links, ∀ k, li.createdPath = some k →
    ∃ path, li.files[k]? = some (some path) ∧ (∀ j f, li.files[j]? = some (some f) → j = k) ∧
      GroupMade log li.inode li.dev path
  entries : ∀ front ch rest, log = front ++ .selected ch :: rest → Done log ch rest ∨ Waits links ch

section Step

variable {links links' : List HardLink} {log new : List Event} {ch : CpioHeader}

theorem Inv.congr (h : Inv links log) (hmem : ∀ l, l ∈ links' ↔ l ∈ links) : Inv links' log := by
  refine ⟨?_, ?_, ?_, ?_⟩
  · exact fun a ha b hb => h.distinct a ((hmem a).mp ha) b ((hmem b).mp hb)
  · exact fun li hli => h.unmade li ((hmem li).mp hli)
  · exact fun li hli => h.made li ((hmem li).mp hli)
  · intro front ch rest hlog
    refine (h.entries front ch rest hlog).imp_right ?_
    rintro ⟨hlink, li, hli, hwaits⟩
    exact ⟨hlink, li, (hmem li).mpr hli, hwaits⟩

theorem Inv.grow (h : Inv links log) (hnew : ∀ ev ∈ new, isSelected ev = false) :
    Inv links (log ++ new) := by
  refine ⟨h.distinct, h.unmade, ?_, ?_⟩
  · intro li hli k hk
    obtain ⟨path, hfile, honly, hmade⟩ := h.made li hli k hk
    exact ⟨path, hfile, honly, hmade.append new⟩
  · intro front ch rest hlog
    obtain ⟨old, hold, rfl⟩ := split_old hnew hlog
    exact (h.entries front ch old hold).imp_left (fun hdone => hdone.append new)

theorem Inv.plain (h : Inv links log) (hnew : ∀ ev ∈ new, isSelected ev = false)
    (hmade : Made ch new) : Inv links (log ++ .selected ch :: new) := by
  refine ⟨h.distinct, h.unmade, ?_, ?_⟩
  · intro li hli k hk
    obtain ⟨path, hfile, honly, hgroup⟩ := h.made li hli k hk
    exact ⟨path, hfile, honly, hgroup.append _⟩
  · intro front ch' rest hlog
    rcases split_cases hnew hlog with ⟨old, hold, rfl⟩ | ⟨rfl, rfl, rfl⟩
    · exact (h.entries front ch' old hold).imp_left (fun hdone => hdone.append _)
    · exact Or.inl (Or.inl hmade)

theorem freeSlot {files : List (Option Str)} {k : ℕ}
    (h : files.findIdx? (fun f => f.isNone) = some k) : k < files.length ∧ files[k]? = some none := by
  obtain ⟨hlt, hnone, -⟩ := List.findIdx?_eq_some_iff_getElem.mp h
  exact ⟨hlt, by rw [List.getElem?_eq_getElem hlt, Option.isNone_iff_eq_none.mp hnone]⟩

theorem Inv.defer (h : Inv links log) (hlink : isLink ch = true) {k : ℕ}
    (hk : (groupOf links ch).files.findIdx? (fun f => f.isNone) = some k)
    (hnone : (groupOf links ch).createdPath = none) :
    Inv (putGroup links
      { groupOf links ch with files := (groupOf links ch).files.set k (some ch.path) })
      (log ++ [.selected ch]) := by
  obtain ⟨hinode, hdev⟩ := groupOf_key links ch
  obtain ⟨hlt, hfree⟩ := freeSlot hk
  refine ⟨h.distinct.putGroup _, ?_, ?_, ?_⟩
  · intro li hli hcreated
    rcases mem_putGroup.mp hli with rfl | ⟨hli, -⟩
    · change (groupOf links ch).linksLeft ≠ 0
      rcases groupOf_cases links ch with hmem | ⟨hfresh, -⟩
      · exact h.unmade _ hmem hnone
      · have hleft : (groupOf links ch).linksLeft = ch.nlink := by rw [hfresh]; rfl
        simp only [isLink, decide_eq_true_eq] at hlink
        omega
    · exact h.unmade li hli hcreated
  · intro li hli j hj
    rcases mem_putGroup.mp hli with rfl | ⟨hli, -⟩
    · exact absurd (hnone.symm.trans hj) (by simp)
    · obtain ⟨path, hfile, honly, hmade⟩ := h.made li hli j hj
      exact ⟨path, hfile, honly, hmade.append _⟩
  · intro front ch' rest hlog
    rcases split_cases (by simp) hlog with ⟨old, hold, rfl⟩ | ⟨rfl, rfl, rfl⟩
    · rcases h.entries front ch' old hold with hdone | ⟨hlink', li, hli, hi, hd, hc, hslot⟩
      · exact Or.inl (hdone.append _)
      · refine Or.inr ⟨hlink', ?_⟩
        by_cases hkey : li.inode = ch.inode ∧ li.dev = ch.dev
        · -- the new member has taken a free slot, so the old one is still there
          obtain rfl := groupOf_unique h.distinct hli hkey.1 hkey.2
          refine ⟨_, mem_putGroup.mpr (Or.inl rfl), hi, hd, hnone, ?_⟩
          obtain ⟨j, hj⟩ := List.getElem?_of_mem hslot
          refine List.mem_of_getElem? (i := j) ?_
          rw [List.getElem?_set_ne, hj]
          rintro rfl
          rw [hfree] at hj
          cases hj
        · refine ⟨li, mem_putGroup.mpr (Or.inr ⟨hli, ?_⟩), hi, hd, hc, hslot⟩
          rintro ⟨hi', hd'⟩
          exact hkey ⟨hi'.trans hinode, hd'.trans hdev⟩
    · refine Or.inr ⟨hlink, _, mem_putGroup.mpr (Or.inl rfl), hinode, hdev, hnone, ?_⟩
      exact List.mem_of_getElem? (List.getElem?_set_self hlt)

theorem Inv.linkAll (h : Inv links log) (hlink : isLink ch = true) {li : HardLink} {k : ℕ}
    {source : Str} (hinode : li.inode = ch.inode) (hdev : li.dev = ch.dev)
    (hcreated : li.createdPath = some k) (hfile : li.files[k]? = some (some source))
    (honly : ∀ j f, li.files[j]? = some (some f) → j = k)
    (hnew : ∀ ev ∈ new, isSelected ev = false)
    (hgroup : GroupMade (log ++ .selected ch :: new) ch.inode ch.dev source)
    (hself : Made ch new ∨ .linked source ch.path ∈ new)
    (hwait : (groupOf links ch).createdPath = none →
      ∀ f, some f ∈ (groupOf links ch).files → .linked source f ∈ new) :
    Inv (putGroup links li) (log ++ .selected ch :: new) := by
  refine ⟨h.distinct.putGroup _, ?_, ?_, ?_⟩
  · intro li' hli' hnone
    rcases mem_putGroup.mp hli' with rfl | ⟨hli', -⟩
    · rw [hcreated] at hnone
      cases hnone
    · exact h.unmade li' hli' hnone
  · intro li' hli' j hj
    rcases mem_putGroup.mp hli' with rfl | ⟨hli', -⟩
    · obtain rfl : k = j := Option.some.inj (hcreated.symm.trans hj)
      exact ⟨source, hfile, honly, by rw [hinode, hdev]; exact hgroup⟩
    · obtain ⟨path, hfile', honly', hmade⟩ := h.made li' hli' j hj
      exact ⟨path, hfile', honly', hmade.append _⟩
  · intro front ch' rest hlog
    rcases split_cases hnew hlog with ⟨old, hold, rfl⟩ | ⟨rfl, rfl, rfl⟩
    · rcases h.entries front ch' old hold with hdone | ⟨hlink', li', hli', hi, hd, hc, hslot⟩
      · exact Or.inl (hdone.append _)
      · by_cases hkey : li'.inode = ch.inode ∧ li'.dev = ch.dev
        · obtain rfl := groupOf_unique h.distinct hli' hkey.1 hkey.2
          refine Or.inl (Or.inr ⟨hlink', source, ?_, ?_⟩)
          · rw [← hi, ← hd, hkey.1, hkey.2]
            exact hgroup
          · exact List.mem_append_right _ (List.mem_cons_of_mem _ (hwait hc _ hslot))
        · refine Or.inr ⟨hlink', li', mem_putGroup.mpr (Or.inr ⟨hli', ?_⟩), hi, hd, hc, hslot⟩
          rintro ⟨hi', hd'⟩
          exact hkey ⟨hi'.trans hinode, hd'.trans hdev⟩
    · exact Or.inl (hself.imp id (fun hlinked => ⟨hlink, source, hgroup, hlinked⟩))

theorem createLinks_ok {s : St W} {li : HardLink} {looked : Bool} {k : ℕ} {source : Str}
    (h : (createLinks S s li looked).1 = .ok) (hcreated : li.createdPath = some k)
    (hfile : li.files[k]? = some (some source)) :
    ∃ li', (createLinks S s li looked).2.links = putGroup s.links li' ∧ li'.inode = li.inode ∧
      li'.dev = li.dev ∧ li'.createdPath = some k ∧ li'.files[k]? = some (some source) ∧
      (∀ j f, li'.files[j]? = some (some f) → j = k) ∧
      ∀ j f, li.files[j]? = some (some f) → j ≠ k →
        .linked source f ∈ linkEvents S s li looked := by
  have hsource : li.source = source := by
    simp [HardLink.source, hcreated, List.getD_eq_getElem?_getD, hfile]
  obtain ⟨hlinked, hfiles⟩ := linkFiles_ok h
  simp only [hcreated, Option.getD_some, Nat.zero_add] at hlinked hfiles
  refine ⟨_, rfl, rfl, rfl, hcreated, ?_, ?_, ?_⟩
  · simp only [hcreated, Option.getD_some, hfiles, hfile, Option.map_some, if_true]
  · intro j f hj
    simp only [hcreated, Option.getD_some, hfiles] at hj
    by_contra hne
    simp [hne] at hj
  · intro j f hj hne
    rw [linkEvents, hsource, hcreated]
    refine List.mem_append_left _ (List.mem_map_of_mem ?_)
    rw [← hsource, Option.getD_some, hlinked]
    exact mem_waiting.mpr ⟨j, hj, by omega⟩

/-- The member that carries the data. `li` is its group with the name in slot `k`. -/
theorem Inv.carry (h : Inv links log) (hlink : isLink ch = true) {k : ℕ}
    (hk : (groupOf links ch).files.findIdx? (fun f => f.isNone) = some k) {s : St W}
    {old li : HardLink} {made : List Event} (hsel : ∀ ev ∈ made, isSelected ev = false)
    (hmade : Made ch made) (hlinks : s.links = putGroup links old)
    (hold : old.inode = ch.inode ∧ old.dev = ch.dev) (hkey : li.inode = ch.inode ∧ li.dev = ch.dev)
    (hfiles : li.files = (groupOf links ch).files.set k (some ch.path))
    (hcreated : li.createdPath = some k) (hok : (createLinks S s li true).1 = .ok) :
    Inv (createLinks S s li true).2.links
      (log ++ .selected ch :: (made ++ linkEvents S s li true)) := by
  obtain ⟨hlt, hfree⟩ := freeSlot hk
  have hslot : li.files[k]? = some (some ch.path) := by rw [hfiles, List.getElem?_set_self hlt]
  obtain ⟨li', hput, hi, hd, hc, hf, honly, hall⟩ := createLinks_ok hok hcreated hslot
  rw [hput, hlinks]
  refine Inv.congr ?_ (fun l => mem_putGroup_twice (hi.trans (hkey.1.trans hold.1.symm))
    (hd.trans (hkey.2.trans hold.2.symm)))
  refine h.linkAll hlink (hi.trans hkey.1) (hd.trans hkey.2) hc hf honly ?_ ?_
    (Or.inl (hmade.append _)) ?_
  · intro ev hev
    rcases List.mem_append.mp hev with hev | hev
    · exact hsel ev hev
    · exact (createLinks_log s li true).2.1 ev hev
  · exact ⟨log, ch, _, rfl, rfl, rfl, rfl, hlink, hmade.append _⟩
  · intro _ f hmem
    obtain ⟨j, hj⟩ := List.getElem?_of_mem hmem
    have hne : j ≠ k := by
      rintro rfl
      rw [hfree] at hj
      cases hj
    refine List.mem_append_right _ (hall j f ?_ hne)
    rw [hfiles, List.getElem?_set_ne (Ne.symm hne), hj]

theorem Inv.follow (h : Inv links log) (hlink : isLink ch = true) {k : ℕ}
    (hk : (groupOf links ch).files.findIdx? (fun f => f.isNone) = some k)
    (hcreated : (groupOf links ch).createdPath ≠ none) {s : St W} {old li : HardLink}
    {eaten : List Event} (hsel : ∀ ev ∈ eaten, isSelected ev = false)
    (hlinks : s.links = putGroup links old) (hold : old.inode = ch.inode ∧ old.dev = ch.dev)
    (hkey : li.inode = ch.inode ∧ li.dev = ch.dev)
    (hfiles : li.files = (groupOf links ch).files.set k (some ch.path))
    (hsame : li.createdPath = (groupOf links ch).createdPath)
    (hok : (createLinks S s li false).1 = .ok) :
    Inv (createLinks S s li false).2.links
      (log ++ .selected ch :: (linkEvents S s li false ++ eaten)) := by
  obtain ⟨hinode, hdev⟩ := groupOf_key links ch
  obtain ⟨hlt, hfree⟩ := freeSlot hk
  obtain ⟨c, hc⟩ := Option.ne_none_iff_exists'.mp hcreated
  have hmem : groupOf links ch ∈ links := by
    rcases groupOf_cases links ch with hmem | ⟨hfresh, -⟩
    · exact hmem
    · rw [hfresh] at hcreated
      exact absurd rfl hcreated
  obtain ⟨source, hfile, -, hgroup⟩ := h.made _ hmem c hc
  have hne : k ≠ c := by
    rintro rfl
    rw [hfree] at hfile
    cases hfile
  have hfile' : li.files[c]? = some (some source) := by
    rw [hfiles, List.getElem?_set_ne hne, hfile]
  obtain ⟨li', hput, hi, hd, hc', hf, honly, hall⟩ := createLinks_ok hok (hsame.trans hc) hfile'
  rw [hput, hlinks]
  refine Inv.congr ?_ (fun l => mem_putGroup_twice (hi.trans (hkey.1.trans hold.1.symm))
    (hd.trans (hkey.2.trans hold.2.symm)))
  refine h.linkAll hlink (hi.trans hkey.1) (hd.trans hkey.2) hc' hf honly ?_ ?_ (Or.inr ?_) ?_
  · intro ev hev
    rcases List.mem_append.mp hev with hev | hev
    · exact (createLinks_log s li false).2.1 ev hev
    · exact hsel ev hev
  · rw [← hinode, ← hdev]
    exact hgroup.append _
  · refine List.mem_append_left _ (hall k ch.path ?_ hne)
    rw [hfiles, List.getElem?_set_self hlt]
  · intro hnone
    exact absurd hnone hcreated

end Step

theorem inv_start : Inv [] [] where
  distinct := by simp [Distinct]
  unmade := by simp
  made := by simp
  entries := by simp

end Comodoo.CpioWaiting
