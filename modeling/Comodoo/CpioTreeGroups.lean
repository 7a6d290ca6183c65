import Comodoo.CpioTree
import Comodoo.CpioWaiting

set_option autoImplicit false

/-!
# The groups and the tree

The slots of a group hold the members that are not on the disk yet and, once it has been made,
the file of the group.
-/
namespace Comodoo.CpioTreeGroups
open CString CpioSystem CpioRead CpioExpand CpioInstall CpioGroups CpioDisk CpioDiskCalls
open CpioDiskFiles CpioDiskLinks CpioTree FilePath

def waits (li : HardLink) : List Str :=
  waiting (li.createdPath.getD li.files.length) 0 li.files

def members (done : List Item) (e : Item) : List Item := done.filter (sameGroup e)

/-- The group of `e`, an entry that may still be to come. -/
structure Group (done : List Item) (d : Disk) (e : Item) (li : HardLink) : Prop where
  inode : li.inode = e.head.inode
  dev : li.dev = e.head.dev
  size : (li.files.length : ℤ) = e.head.nlink
  left : li.linksLeft + (members done e).length = e.head.nlink + (waits li).length
  missing : ∀ f ∈ waits li, ∃ m ∈ done, sameGroup e m = true ∧ m.head.path = f ∧
    d.ino (place m) = none
  nodup : ((waits li).map names).Nodup
  covers : ∀ m ∈ done, sameGroup e m = true →
    m.head.path ∈ waits li ∨ d.ino (place m) ≠ none
  unmade : li.createdPath = none → li.linksLeft = e.head.nlink ∧ carrier done e = none
  made : ∀ k, li.createdPath = some k → li.linksLeft < e.head.nlink ∧
    ∃ c, carrier done e = some c ∧ li.files[k]? = some (some c.head.path) ∧
      d.ino (place c) ≠ none

structure Groups (done : List Item) (d : Disk) (links : List HardLink) : Prop where
  keyed : Keyed links
  known : ∀ m ∈ done, isMember m = true → ∃ li ∈ links, li.inode = m.head.inode ∧
    li.dev = m.head.dev
  each : ∀ li ∈ links, ∃ e ∈ done, isMember e = true ∧ Group done d e li

section Group

variable {done : List Item} {d d' : Disk} {e m : Item} {li : HardLink} {k : ℕ}

theorem isMember_nlink (h : isMember e = true) : 1 < e.head.nlink := by
  rw [isMember, isLink, decide_eq_true_iff] at h
  exact h.2

theorem sameGroup_self (h : isMember e = true) : sameGroup e e = true :=
  sameGroup_iff.mpr ⟨h, h, rfl, rfl⟩

theorem Group.congr (h : Group done d e li) (hsame : sameGroup e m = true)
    (hnlink : m.head.nlink = e.head.nlink) : Group done d m li := by
  have hgroup := sameGroup_congr hsame
  have hmembers : members done m = members done e := by rw [members, hgroup, members]
  have hcarrier : carrier done m = carrier done e := carrier_congr hsame
  obtain ⟨-, -, hinode, hdev⟩ := sameGroup_iff.mp hsame
  refine ⟨h.inode.trans hinode.symm, h.dev.trans hdev.symm, ?_, ?_, ?_, h.nodup, ?_, ?_, ?_⟩
  · rw [hnlink]
    exact h.size
  · rw [hmembers, hnlink]
    exact h.left
  · rw [hgroup]
    exact h.missing
  · rw [hgroup]
    exact h.covers
  · rw [hnlink, hcarrier]
    exact h.unmade
  · rw [hnlink, hcarrier]
    exact h.made

theorem members_append_same (h : sameGroup e m = true) :
    members (done ++ [m]) e = members done e ++ [m] := by
  rw [members, List.filter_append, List.filter_cons_of_pos h]
  rfl

theorem members_append_other (h : sameGroup e m = false) :
    members (done ++ [m]) e = members done e := by
  rw [members, List.filter_append, List.filter_cons_of_neg (by simp [h])]
  exact List.append_nil _

theorem carrier_append_other (h : sameGroup e m = false) :
    carrier (done ++ [m]) e = carrier done e := by
  cases hc : carrier done e with
  | some c => exact carrier_append_of_some hc _
  | none =>
    rw [carrier_append_of_none hc, carrier_single, if_neg]
    rintro ⟨hsame, -⟩
    rw [h] at hsame
    cases hsame

theorem Group.disjoint {done' : List Item} {a : Item} {l : HardLink} (h : Group done d e li)
    (h' : Group done' d' m l) (hkey : ¬ (l.inode = li.inode ∧ l.dev = li.dev))
    (hma : sameGroup m a = true) : sameGroup e a = false := by
  rw [Bool.eq_false_iff]
  intro hea
  obtain ⟨-, -, hi, hd⟩ := sameGroup_iff.mp hma
  obtain ⟨-, -, hi', hd'⟩ := sameGroup_iff.mp hea
  refine hkey ⟨?_, ?_⟩
  · rw [h.inode, h'.inode, ← hi, ← hi']
  · rw [h.dev, h'.dev, ← hd, ← hd']

theorem Group.move (h : Group done d e li)
    (hkeep : ∀ a ∈ done, sameGroup e a = true → d'.ino (place a) = d.ino (place a)) :
    Group done d' e li := by
  refine ⟨h.inode, h.dev, h.size, h.left, ?_, h.nodup, ?_, h.unmade, ?_⟩
  · intro f hf
    obtain ⟨a, ha, hsame, hpath, habsent⟩ := h.missing f hf
    exact ⟨a, ha, hsame, hpath, (hkeep a ha hsame).trans habsent⟩
  · intro a ha hsame
    rw [hkeep a ha hsame]
    exact h.covers a ha hsame
  · intro k hk
    obtain ⟨hleft, c, hc, hfile, hino⟩ := h.made k hk
    obtain ⟨hmem, hsame, -⟩ := carrier_spec hc
    exact ⟨hleft, c, hc, hfile, by rw [hkeep c hmem hsame]; exact hino⟩

theorem Group.other (h : Group done d e li) (hother : sameGroup e m = false) :
    Group (done ++ [m]) d e li := by
  have hcarrier : carrier (done ++ [m]) e = carrier done e := carrier_append_other hother
  refine ⟨h.inode, h.dev, h.size, ?_, ?_, h.nodup, ?_, ?_, ?_⟩
  · rw [members_append_other hother]
    exact h.left
  · intro f hf
    obtain ⟨a, ha, hrest⟩ := h.missing f hf
    exact ⟨a, List.mem_append_left _ ha, hrest⟩
  · intro a ha hsame
    rcases List.mem_append.mp ha with ha | ha
    · exact h.covers a ha hsame
    · obtain rfl := List.mem_singleton.mp ha
      rw [hother] at hsame
      cases hsame
  · rw [hcarrier]
    exact h.unmade
  · rw [hcarrier]
    exact h.made

theorem Group.slot (h : Group done d e li)
    (hroom : ((members done e).length : ℤ) < e.head.nlink) :
    ∃ k, li.files.findIdx? (fun f => f.isNone) = some k := by
  cases hidx : li.files.findIdx? (fun f => f.isNone) with
  | some k => exact ⟨k, rfl⟩
  | none =>
    have hfull : ∀ f ∈ li.files, f ≠ none := by
      rintro f hf rfl
      have hnot := List.findIdx?_eq_none_iff.mp hidx none hf
      cases hnot
    have hcount := waiting_full (c := li.createdPath.getD li.files.length) 0 hfull
    have hleft := h.left
    have hsize := h.size
    have hwaits : (waits li).length =
      (waiting (li.createdPath.getD li.files.length) 0 li.files).length := rfl
    cases hcreated : li.createdPath with
    | none =>
      have hunmade := (h.unmade hcreated).1
      rw [hcreated] at hcount hwaits
      simp only [Option.getD_none, Nat.zero_add, Nat.lt_irrefl, and_false, if_false] at hcount hwaits
      omega
    | some k =>
      have hmade := (h.made k hcreated).1
      rw [hcreated] at hcount hwaits
      simp only [Option.getD_some] at hcount hwaits
      split at hcount <;> omega

def withFile (li : HardLink) (k : ℕ) (path : Str) : HardLink :=
  { li with files := li.files.set k (some path) }

theorem waits_withFile (h : Group done d e li) (hfree : li.files[k]? = some none) (path : Str) :
    (waits (withFile li k path)).Perm (path :: waits li) := by
  obtain ⟨hlt, -⟩ := List.getElem?_eq_some_iff.mp hfree
  rw [waits, waits]
  simp only [withFile, List.length_set]
  refine waiting_set_perm 0 path hfree ?_
  cases hcreated : li.createdPath with
  | none =>
    simp only [Option.getD_none]
    omega
  | some j =>
    -- the slot of the file of the group is taken
    obtain ⟨-, c, -, hfile, -⟩ := h.made j hcreated
    simp only [Option.getD_some, Nat.zero_add]
    rintro rfl
    rw [hfree] at hfile
    cases hfile

theorem Group.defer (h : Group done d e li) (hmem : isMember e = true)
    (hfree : li.files[k]? = some none) (habsent : d.ino (place e) = none)
    (hnew : ∀ a ∈ done, place a ≠ place e) (hdata : li.createdPath = none → e.data = []) :
    Group (done ++ [e]) d e (withFile li k e.head.path) := by
  have hself := sameGroup_self hmem
  have hperm := waits_withFile h hfree e.head.path
  have hmemw : ∀ f, f ∈ waits (withFile li k e.head.path) ↔
      f = e.head.path ∨ f ∈ waits li := by
    intro f
    rw [hperm.mem_iff, List.mem_cons]
  refine ⟨h.inode, h.dev, ?_, ?_, ?_, ?_, ?_, ?_, ?_⟩
  · rw [withFile, List.length_set]
    exact h.size
  · have hleft := h.left
    have hlen := hperm.length_eq
    rw [List.length_cons] at hlen
    rw [members_append_same hself, List.length_append, List.length_singleton, hlen]
    simp only [withFile]
    omega
  · intro f hf
    rcases (hmemw f).mp hf with rfl | hf
    · exact ⟨e, by simp, hself, rfl, habsent⟩
    · obtain ⟨a, ha, hrest⟩ := h.missing f hf
      exact ⟨a, List.mem_append_left _ ha, hrest⟩
  · rw [(hperm.map names).nodup_iff, List.map_cons, List.nodup_cons]
    refine ⟨?_, h.nodup⟩
    intro hin
    obtain ⟨f, hf, hnames⟩ := List.mem_map.mp hin
    obtain ⟨a, ha, -, rfl, -⟩ := h.missing f hf
    exact hnew a ha hnames
  · intro a ha hsame
    rw [hmemw]
    rcases List.mem_append.mp ha with ha | ha
    · exact (h.covers a ha hsame).imp_left Or.inr
    · obtain rfl := List.mem_singleton.mp ha
      exact Or.inl (Or.inl rfl)
  · intro hcreated
    obtain ⟨hleft, hnone⟩ := h.unmade hcreated
    refine ⟨hleft, ?_⟩
    rw [carrier_append_of_none hnone, carrier_single, if_neg]
    rintro ⟨-, hne⟩
    exact hne (hdata hcreated)
  · intro j hj
    obtain ⟨hleft, c, hc, hfile, hino⟩ := h.made j hj
    refine ⟨hleft, c, carrier_append_of_some hc _, ?_, hino⟩
    simp only [withFile]
    rw [List.getElem?_set_ne, hfile]
    rintro rfl
    rw [hfree] at hfile
    cases hfile

theorem Group.create (h : Group done d e li) (hmem : isMember e = true)
    (hfree : li.files[k]? = some none) (hcreated : li.createdPath = none) (hdata : e.data ≠ [])
    (hino : d'.ino (place e) ≠ none)
    (hkeep : ∀ a ∈ done, d'.ino (place a) = d.ino (place a)) :
    Group (done ++ [e]) d' e { withFile li k e.head.path with
      createdPath := some k, linksLeft := li.linksLeft - 1 } := by
  have hself := sameGroup_self hmem
  obtain ⟨hlt, -⟩ := List.getElem?_eq_some_iff.mp hfree
  obtain ⟨hleft, hnone⟩ := h.unmade hcreated
  have hwaits : waits { withFile li k e.head.path with
      createdPath := some k, linksLeft := li.linksLeft - 1 } = waits li := by
    have hset := waiting_set_created 0 e.head.path hfree
    rw [Nat.zero_add] at hset
    simp only [waits, withFile, hcreated, Option.getD_some, Option.getD_none, hset]
    refine waiting_congr 0 (fun j f hj => ?_)
    obtain ⟨hj', -⟩ := List.getElem?_eq_some_iff.mp hj
    refine ⟨?_, by omega⟩
    rw [Nat.zero_add]
    rintro rfl
    rw [hfree] at hj
    cases hj
  have hcarrier : carrier (done ++ [e]) e = some e := by
    rw [carrier_append_of_none hnone, carrier_single, if_pos ⟨hself, hdata⟩]
  refine ⟨h.inode, h.dev, ?_, ?_, ?_, ?_, ?_, ?_, ?_⟩
  · simp only [withFile, List.length_set]
    exact h.size
  · have hcount := h.left
    rw [members_append_same hself, List.length_append, List.length_singleton, hwaits]
    simp only
    omega
  · rw [hwaits]
    intro f hf
    obtain ⟨a, ha, hsame, hpath, habsent⟩ := h.missing f hf
    exact ⟨a, List.mem_append_left _ ha, hsame, hpath, (hkeep a ha).trans habsent⟩
  · rw [hwaits]
    exact h.nodup
  · rw [hwaits]
    intro a ha hsame
    rcases List.mem_append.mp ha with ha | ha
    · rw [hkeep a ha]
      exact h.covers a ha hsame
    · obtain rfl := List.mem_singleton.mp ha
      exact Or.inr hino
  · intro hnone'
    cases hnone'
  · intro j hj
    obtain rfl := Option.some.inj hj
    refine ⟨by simp only; omega, e, hcarrier, ?_, hino⟩
    simp only [withFile]
    exact List.getElem?_set_self hlt

end Group

section Link

variable {done : List Item} {d : Disk} {e c : Item} {li : HardLink}

theorem core_joinAll (hcore : Core done d) {i : ℕ} {fs : List Str}
    (hapart : ∀ a ∈ done, ∀ b ∈ done, place a = place b → a = b)
    (hfs : ∀ f ∈ fs, reaches d f = true ∧ ∃ m ∈ done, sameGroup e m = true ∧ m.head.path = f ∧
      d.ino (place m) = none)
    (hnodup : (fs.map names).Nodup) (hcarry : carrier done e = some c)
    (hi : d.ino (place c) = some i) (hnode : d.node i = nodeOf c.head c.data) :
    Core done (joinAll i d fs) ∧ ∀ x, (joinAll i d fs).isDir x = d.isDir x := by
  induction fs generalizing d with
  | nil => exact ⟨hcore, fun _ => rfl⟩
  | cons f fs ih =>
    obtain ⟨hreach, m, hm, hsame, rfl, habsent⟩ := hfs f (by simp)
    rw [List.map_cons, List.nodup_cons] at hnodup
    have hne : place m ≠ [] := by
      intro hnil
      obtain ⟨j, hj, -⟩ := isDir_iff.mp hcore.sound.root
      rw [hnil, hj] at habsent
      cases habsent
    have hfile : S_ISDIR (d.node i).mode = false := by
      rw [hnode]
      exact member_notDir (sameGroup_iff.mp (carrier_spec hcarry).2.1).2.1 _
    have hdirs := isDir_join habsent hfile
    have hjoin := hcore.join hapart hm (sameGroup_iff.mp hsame).2.1
      ((carrier_congr hsame).trans hcarry) hi hnode ⟨hne, habsent, hreach⟩
    obtain ⟨hcore', hdirs'⟩ := ih hjoin (by
      intro g hg
      obtain ⟨hreach', m', hm', hsame', rfl, habsent'⟩ := hfs g (by simp [hg])
      refine ⟨(hdirs _).trans hreach', m', hm', hsame', rfl, ?_⟩
      rw [join_ino_ne, habsent']
      intro heq
      exact hnodup.1 (List.mem_map.mpr ⟨_, hg, heq⟩)) hnodup.2
      (by rw [join_ino_ne (ne_of_absent habsent hi), hi]) hnode
    exact ⟨hcore', fun x => (hdirs' x).trans (hdirs x)⟩

theorem Group.linked (h : Group done d e li) {k i : ℕ} (hcreated : li.createdPath = some k)
    {files : List (Option Str)} {now later : List Str}
    (hsplit : waits li = now ++ later) (hlen : files.length = li.files.length)
    (hlater : waiting k 0 files = later) (hkept : files[k]? = li.files[k]?) :
    Group done (joinAll i d now) e
      { li with files := files, linksLeft := li.linksLeft - now.length } := by
  have hnodup := h.nodup
  rw [hsplit, List.map_append] at hnodup
  have hwaits : waits { li with files := files, linksLeft := li.linksLeft - now.length } = later := by
    simp only [waits, hcreated, Option.getD_some]
    exact hlater
  have hino : ∀ x, (joinAll i d now).ino x = none ↔ x ∉ now.map names ∧ d.ino x = none := by
    intro x
    rw [joinAll_ino]
    split
    · rename_i hx
      simp [hx]
    · rename_i hx
      simp [hx]
  refine ⟨h.inode, h.dev, ?_, ?_, ?_, ?_, ?_, ?_, ?_⟩
  · rw [hlen]
    exact h.size
  · have hleft := h.left
    rw [hsplit, List.length_append] at hleft
    rw [hwaits]
    push_cast at hleft
    simp only
    omega
  · rw [hwaits]
    intro f hf
    obtain ⟨m, hm, hsame, rfl, habsent⟩ := h.missing f (by rw [hsplit]; simp [hf])
    refine ⟨m, hm, hsame, rfl, (hino _).mpr ⟨?_, habsent⟩⟩
    intro hnow
    exact (List.nodup_append.mp hnodup).2.2 _ hnow _ (List.mem_map_of_mem hf) rfl
  · rw [hwaits]
    exact (List.nodup_append.mp hnodup).2.1
  · rw [hwaits]
    intro m hm hsame
    by_cases hlate : m.head.path ∈ later
    · exact Or.inl hlate
    · right
      rw [ne_eq, hino]
      rintro ⟨hnow, habsent⟩
      rcases h.covers m hm hsame with hwait | hthere
      · rw [hsplit, List.mem_append] at hwait
        rcases hwait with hwait | hwait
        · exact hnow (List.mem_map_of_mem hwait)
        · exact hlate hwait
      · exact hthere habsent
  · intro hnone
    rw [hcreated] at hnone
    cases hnone
  · intro j hj
    obtain rfl := Option.some.inj (hcreated.symm.trans hj)
    obtain ⟨hleft, c, hc, hfile, hthere⟩ := h.made k hcreated
    refine ⟨by simp only; omega, c, hc, hkept.trans hfile, ?_⟩
    rw [ne_eq, hino]
    exact fun hnone => hthere hnone.2

theorem createLinks_disk {s : St Host} (hcore : Core done s.io.w.disk)
    (hgroup : Group done s.io.w.disk e li) {k : ℕ} (hcreated : li.createdPath = some k)
    (hproper : ∀ a ∈ done, Proper a.head.path)
    (hapart : ∀ a ∈ done, ∀ b ∈ done, place a = place b → a = b) (looked : Bool) :
    ∃ rc s' li', createLinks diskSys s li looked = (rc, s') ∧ s'.lastDir = s.lastDir ∧
      s'.links = putGroup s.links li' ∧ Core done s'.io.w.disk ∧ Group done s'.io.w.disk e li' ∧
      (∀ x, s'.io.w.disk.isDir x = s.io.w.disk.isDir x) ∧
      (∀ a ∈ done, sameGroup e a = false →
        s'.io.w.disk.ino (place a) = s.io.w.disk.ino (place a)) ∧
      (rc = .ok ↔ ∀ f ∈ waits li, reaches s.io.w.disk f = true) ∧ (rc = .ok → waits li' = []) := by
  obtain ⟨-, c, hc, hslot, hthere⟩ := hgroup.made k hcreated
  obtain ⟨hcmem, hcsame, -⟩ := carrier_spec hc
  have hclink := (sameGroup_iff.mp hcsame).2.1
  obtain ⟨i, hi⟩ := Option.ne_none_iff_exists'.mp hthere
  obtain ⟨c', hc', -, hnode⟩ := hcore.linked c hcmem hclink i hi
  obtain rfl := Option.some.inj ((carrier_self hc).symm.trans hc')
  have hsource : li.source = c.head.path := by
    simp [HardLink.source, hcreated, List.getD_eq_getElem?_getD, hslot]
  have hws : waiting k 0 li.files = waits li := by
    rw [waits, hcreated, Option.getD_some]
  have hfile : S_ISDIR (s.io.w.disk.node i).mode = false := by
    rw [hnode]
    exact member_notDir hclink _
  obtain ⟨files, failed, hrun, hlen, hlater, hkept⟩ :=
    linkFiles_disk (hproper c hcmem).locate li.files 0 hws hi hfile (by
      intro f hf
      obtain ⟨m, hm, -, rfl, -⟩ := hgroup.missing f hf
      exact hproper m hm) (by
      intro f hf
      obtain ⟨m, hm, -, rfl, habsent⟩ := hgroup.missing f hf
      refine ⟨?_, habsent⟩
      intro hnil
      obtain ⟨j, hj, -⟩ := isDir_iff.mp hcore.sound.root
      change s.io.w.disk.ino (names m.head.path) = none at habsent
      rw [hnil, hj] at habsent
      cases habsent) hgroup.nodup
  have hsplit := (List.takeWhile_append_dropWhile (p := reaches s.io.w.disk) (l := waits li)).symm
  have hnow : ∀ f ∈ (waits li).takeWhile (reaches s.io.w.disk),
      reaches s.io.w.disk f = true ∧ f ∈ waits li := by
    intro f hf
    exact ⟨List.mem_takeWhile_imp hf, (List.takeWhile_prefix _).subset hf⟩
  have hnodup := hgroup.nodup
  rw [hsplit, List.map_append] at hnodup
  obtain ⟨hcore', hdirs⟩ := core_joinAll hcore hapart (fun f hf =>
    ⟨(hnow f hf).1, hgroup.missing f (hnow f hf).2⟩) (List.nodup_append.mp hnodup).1 hc hi hnode
  have hgroup' := hgroup.linked (i := i) hcreated hsplit hlen hlater (hkept k (Nat.zero_add k))
  refine ⟨(createLinks diskSys s li looked).1, (createLinks diskSys s li looked).2,
    { li with
      files := files,
      linksLeft := li.linksLeft - ((waits li).takeWhile (reaches s.io.w.disk)).length },
    rfl, rfl, ?_, ?_, ?_, ?_, ?_, ?_, ?_⟩
  all_goals simp only [createLinks, hsource, hcreated, Option.getD_some, hrun]
  · exact hcore'
  · rw [hcreated] at hgroup'
    exact hgroup'
  · exact hdirs
  · intro a ha hother
    rw [joinAll_ino, if_neg]
    intro hin
    obtain ⟨f, hf, hnames⟩ := List.mem_map.mp hin
    obtain ⟨m, hm, hsame, rfl, -⟩ := hgroup.missing f (hnow f hf).2
    obtain rfl := hapart m hm a ha hnames
    rw [hother] at hsame
    cases hsame
  · simp only [ite_eq_left_iff, reduceCtorEq, imp_false, not_not, List.all_eq_true]
  · intro hok
    simp only [ite_eq_left_iff, reduceCtorEq, imp_false, not_not, List.all_eq_true] at hok
    rw [waits, Option.getD_some, hlater]
    exact List.dropWhile_eq_nil_iff.mpr hok

end Link

section Groups

variable {done : List Item} {d d' : Disk} {links links' : List HardLink} {e : Item} {li : HardLink}

theorem groups_nil (d : Disk) : Groups [] d [] :=
  ⟨List.Pairwise.nil, fun m hm => absurd hm (by simp), fun l hl => absurd hl (by simp)⟩

theorem group_fresh (hmem : isMember e = true) (hnone : ∀ m ∈ done, sameGroup e m = false) :
    Group done d e (.fresh e.head) := by
  have hnlink := isMember_nlink hmem
  have hcast : ((e.head.nlink.toNat : ℕ) : ℤ) = e.head.nlink := Int.toNat_of_nonneg (by omega)
  have hwaits : waits (.fresh e.head) = [] := by
    refine List.eq_nil_iff_forall_not_mem.mpr (fun f hf => ?_)
    obtain ⟨j, hj, -⟩ := mem_waiting.mp hf
    have hrep : some (some f) = (List.replicate e.head.nlink.toNat (none : Option Str))[j]? :=
      hj.symm
    rw [List.getElem?_replicate] at hrep
    split at hrep <;> cases hrep
  have hmembers : members done e = [] := by
    refine List.filter_eq_nil_iff.mpr (fun m hm => ?_)
    rw [hnone m hm]
    exact Bool.false_ne_true
  refine ⟨rfl, rfl, ?_, ?_, ?_, ?_, ?_, ?_, ?_⟩
  · simp only [HardLink.fresh, List.length_replicate]
    exact hcast
  · rw [hwaits, hmembers]
    rfl
  · rw [hwaits]
    simp
  · rw [hwaits]
    exact List.nodup_nil
  · intro m hm hsame
    rw [hnone m hm] at hsame
    cases hsame
  · refine fun _ => ⟨rfl, ?_⟩
    rw [carrier, List.find?_eq_none]
    intro m hm hfound
    rw [decide_eq_true_iff, hnone m hm] at hfound
    cases hfound.1
  · intro k hk
    cases hk

theorem Groups.group (h : Groups done d links) (hmem : isMember e = true)
    (hnlink : ∀ m ∈ done, sameGroup m e = true → e.head.nlink = m.head.nlink) :
    Group done d e (groupOf links e.head) := by
  obtain ⟨hinode, hdev⟩ := groupOf_key links e.head
  rcases groupOf_cases links e.head with hold | ⟨hfresh, hnone⟩
  · obtain ⟨m, hm, hmmem, hgroup⟩ := h.each _ hold
    have hsame : sameGroup m e = true := sameGroup_iff.mpr ⟨hmmem, hmem,
      hinode.symm.trans hgroup.inode, hdev.symm.trans hgroup.dev⟩
    exact hgroup.congr hsame (hnlink m hm hsame)
  · rw [hfresh]
    refine group_fresh hmem (fun m hm => ?_)
    rw [Bool.eq_false_iff]
    intro hsame
    obtain ⟨-, hmmem, hi, hd⟩ := sameGroup_iff.mp hsame
    obtain ⟨l, hl, hli, hld⟩ := h.known m hm hmmem
    exact hnone l hl ⟨hli.trans hi, hld.trans hd⟩

theorem Groups.put (h : Groups done d links) (hmem : isMember e = true)
    (hgroup : Group (done ++ [e]) d' e li)
    (hkeep : ∀ a ∈ done, sameGroup e a = false → d'.ino (place a) = d.ino (place a))
    (hkeyed : Keyed links') (hlinks : ∀ l, l ∈ links' ↔ l ∈ putGroup links li) :
    Groups (done ++ [e]) d' links' where
  keyed := hkeyed
  known m hm hmmem := by
    rcases List.mem_append.mp hm with hm | hm
    · obtain ⟨l, hl, hli, hld⟩ := h.known m hm hmmem
      by_cases hkey : l.inode = li.inode ∧ l.dev = li.dev
      · exact ⟨li, (hlinks _).mpr (mem_putGroup.mpr (Or.inl rfl)), hkey.1.symm.trans hli,
          hkey.2.symm.trans hld⟩
      · exact ⟨l, (hlinks _).mpr (mem_putGroup.mpr (Or.inr ⟨hl, hkey⟩)), hli, hld⟩
    · obtain rfl := List.mem_singleton.mp hm
      exact ⟨li, (hlinks _).mpr (mem_putGroup.mpr (Or.inl rfl)), hgroup.inode, hgroup.dev⟩
  each l hl := by
    rcases mem_putGroup.mp ((hlinks l).mp hl) with rfl | ⟨hl, hkey⟩
    · exact ⟨e, by simp, hmem, hgroup⟩
    · obtain ⟨m, hm, hmmem, hold⟩ := h.each l hl
      have hmove := hold.move
        (fun a ha hsame => hkeep a ha (hgroup.disjoint hold hkey hsame))
      refine ⟨m, List.mem_append_left _ hm, hmmem, hmove.other ?_⟩
      rw [Bool.eq_false_iff]
      intro hsame
      have hnot := hgroup.disjoint hold hkey hsame
      rw [sameGroup_self hmem] at hnot
      cases hnot

theorem Groups.plain (h : Groups done d links) (hplain : isMember e = false)
    (hkeep : ∀ a ∈ done, d'.ino (place a) = d.ino (place a)) : Groups (done ++ [e]) d' links where
  keyed := h.keyed
  known m hm hmmem := by
    rcases List.mem_append.mp hm with hm | hm
    · exact h.known m hm hmmem
    · obtain rfl := List.mem_singleton.mp hm
      rw [hplain] at hmmem
      cases hmmem
  each l hl := by
    obtain ⟨m, hm, hmmem, hold⟩ := h.each l hl
    have hmove := hold.move (fun a ha _ => hkeep a ha)
    refine ⟨m, List.mem_append_left _ hm, hmmem, hmove.other ?_⟩
    rw [Bool.eq_false_iff]
    intro hsame
    rw [(sameGroup_iff.mp hsame).2.1] at hplain
    cases hplain

end Groups

end Comodoo.CpioTreeGroups
