import Comodoo.CpioTreeCorrect

set_option autoImplicit false

/-!
# Installing the tree of an archive

`myCpioInstallArchive` from the empty directory, with calls that fail for no other reason than
the names they are given.
-/
namespace Comodoo.CpioTreeInstall
open CString CpioSystem CpioRead CpioExpand CpioInstall CpioFormat CpioStream CpioDisk
open CpioDiskCalls CpioDiskFiles CpioTree CpioTreeGroups CpioTreeSteps
open CpioTreeMembers CpioTreeRun CpioTreeCorrect FilePath

/-- The fields of an entry as they stand in the archive. -/
def stored (e : Entry) : CpioHeader :=
  ⟨e.fieldValue 0, e.fieldValue 1, e.fieldValue 2, e.fieldValue 3, e.fieldValue 4, e.fieldValue 5,
    e.fieldValue 6, makedev (e.fieldValue 7) (e.fieldValue 8),
    makedev (e.fieldValue 9) (e.fieldValue 10), e.path⟩

def items (A : Archive) : List Item := A.entries.map (fun e => ⟨stored e, e.data⟩)

/-- Fields that an `int` can hold, with one to spare for the name. -/
def Small (A : Archive) : Prop :=
  (∀ e ∈ A.entries, ∀ k < 13, e.fieldValue k < 2 ^ 31) ∧ A.NamesFit

instance (A : Archive) : Decidable (Small A) :=
  inferInstanceAs (Decidable ((∀ e ∈ A.entries, ∀ k < 13, e.fieldValue k < 2 ^ 31) ∧ A.NamesFit))

theorem fieldInt_small {e : Entry} {k : ℕ} (h : e.fieldValue k < 2 ^ 31) :
    e.fieldInt k = e.fieldValue k := bmod_small h

theorem unsigned32_natCast {n : ℕ} (h : n < 2 ^ 32) : unsigned32 n = n := by
  rw [unsigned32]
  omega

theorem header_stored {e : Entry} (h : ∀ k < 13, e.fieldValue k < 2 ^ 31) : e.header = stored e := by
  have hint : ∀ k < 13, e.fieldInt k = e.fieldValue k := fun k hk => fieldInt_small (h k hk)
  have h32 : ∀ k < 13, unsigned32 (e.fieldValue k) = e.fieldValue k := by
    intro k hk
    have hlt := h k hk
    exact unsigned32_natCast (by omega)
  have h64 : ∀ k < 13, unsigned64 (e.fieldValue k) = e.fieldValue k := by
    intro k hk
    have hlt := h k hk
    exact unsigned64_natCast (by omega)
  unfold Entry.header stored
  simp only [hint, h32, h64, Nat.reduceLT]

theorem items_eq {A : Archive} (h : Small A) : items A = A.entries.map itemOf := by
  refine List.map_congr_left (fun e he => ?_)
  rw [itemOf, header_stored (h.1 e he)]

theorem emptyDisk_isDir (cs : Place) : emptyDisk.isDir cs = true ↔ cs = [] := by
  unfold Disk.isDir emptyDisk
  by_cases hcs : cs = []
  · simp only [hcs, if_true, Option.any_some, iff_true]
    exact dirNode_isDir
  · simp [hcs]

theorem emptyDisk_ino {cs : Place} {i : ℕ} (h : emptyDisk.ino cs = some i) : cs = [] ∧ i = 0 := by
  simp only [emptyDisk] at h
  split at h
  · rename_i hcs
    exact ⟨hcs, (Option.some.inj h).symm⟩
  · cases h

theorem emptyDisk_sim (es : List Item) {lastDir : Option Str}
    (hmemo : Remembers es emptyDisk lastDir ∨ Listed es) : Sim es [] emptyDisk [] lastDir := by
  have hroot : emptyDisk.isDir [] = true := (emptyDisk_isDir []).mpr rfl
  have hsound : Sound emptyDisk := by
    refine ⟨hroot, ?_, ?_⟩
    · intro cs i hi
      rw [(emptyDisk_ino hi).2]
      exact Nat.one_pos
    · intro cs i hne hi
      exact absurd (emptyDisk_ino hi).1 hne
  refine ⟨⟨⟨hsound, ?_, ?_, by simp, by simp, ?_⟩, ?_, hmemo⟩, groups_nil _, ?_⟩
  · intro cs hcs
    obtain ⟨i, hi⟩ := Option.ne_none_iff_exists'.mp hcs
    rw [(emptyDisk_ino hi).1]
    exact Or.inl hroot
  · intro cs i _ _
    rfl
  · intro cs cs' i hcs hcs'
    exact Or.inl ((emptyDisk_ino hcs).1.trans (emptyDisk_ino hcs').1.symm)
  · intro cs
    rw [emptyDisk_isDir, HasDir]
    simp
  · intro front c rest hnil
    cases front <;> cases hnil

theorem install_spec {A : Archive} (hsmall : Small A) (hes : Installable (items A)) (tail : Str)
    {lastDir : Option Str} (hmemo : Remembers (items A) emptyDisk lastDir ∨ Listed (items A))
    (cb : Bool) {fuel : ℕ} (hfuel : A.entries.length < fuel) :
    ∃ rc s, myCpioInstallArchive diskSys cb none fuel ⟨A.bytes ++ tail, emptyDisk⟩ lastDir =
        (.returned rc, s) ∧
      (rc = .ok → Describes (items A) s.io.w.disk) ∧ (rc = .ok ↔ LinksPlaced (items A)) := by
  have hstart : At Host.input (startState (⟨A.bytes ++ tail, emptyDisk⟩ : Host) lastDir).io 0
      (encodeAll A.entries ++ (A.trailer.encode ++ tail)) :=
    ⟨rfl, List.append_assoc _ _ _⟩
  rcases run_sim (s := startState ⟨A.bytes ++ tail, emptyDisk⟩ lastDir) cb hes A.entries
      (items_eq hsmall) (emptyDisk_sim _ hmemo)
      (fun e he => ⟨A.wellFormed e he, hsmall.2.1 e he, A.noTrailer e he⟩) A.trailerWellFormed
      hsmall.2.2 A.isTrailer rfl hstart
      hfuel with ⟨s, hloop, hsim⟩ | ⟨rc, s, hloop, hrc, hnot⟩
  · obtain ⟨rc, s', hsweep, hdone, hok⟩ := sweepLinks_sim hes s.links (sim_sweep hsim)
    refine ⟨rc, s', ?_, fun hrc => sweep_describes (hdone hrc), hok.trans (ready_iff hes hsim)⟩
    rw [myCpioInstallArchive, hloop]
    simp only [hsweep]
  · refine ⟨rc, s, ?_, fun hok => absurd hok hrc, fun hok => absurd hok hrc,
      fun hplaced => absurd hplaced hnot⟩
    rw [myCpioInstallArchive, hloop]
    cases rc <;> first | rfl | exact absurd rfl hrc

/-- With directories in front of what is in them the links are well placed once every group has
data. -/
theorem listed_linksPlaced {es : List Item} (hlisted : Listed es)
    (hdata : ∀ e ∈ es, isMember e = true → ∃ m ∈ es, sameGroup e m = true ∧ m.data ≠ []) :
    LinksPlaced es := by
  have hparent : ∀ front m rest, es = front ++ m :: rest →
      ∀ more, HasDir (front ++ more) (above m) := by
    intro front m rest hsplit more
    rcases hlisted front m rest hsplit with hroot | ⟨a, ha, hdir, hplace⟩
    · exact Or.inl hroot
    · refine Or.inr ⟨a, List.mem_append_left _ ha, ?_, Or.inr ⟨hdir, hplace.symm⟩⟩
      rw [checked, decide_eq_true_iff]
      exact Or.inl (isDirEntry_plain hdir)
  refine ⟨?_, ?_, ?_⟩
  · intro e he hmem hnone
    obtain ⟨m, hm, hsame, hne⟩ := hdata e he hmem
    refine List.find?_eq_none.mp hnone m hm ?_
    rw [decide_eq_true_iff]
    exact ⟨hsame, hne⟩
  · intro front c rest hsplit _ m hm _
    obtain ⟨before, after, rfl⟩ := List.append_of_mem hm
    have hes : es = before ++ m :: (after ++ c :: rest) := by rw [hsplit]; simp
    have hdir := hparent before m _ hes (m :: after ++ [c])
    rwa [← List.append_assoc] at hdir
  · intro front c rest hsplit _ m hm _
    obtain ⟨before, after, rfl⟩ := List.append_of_mem hm
    have hes : es = (front ++ c :: before) ++ m :: after := by rw [hsplit]; simp
    have hdir := hparent _ m _ hes (m :: after)
    rwa [← hes] at hdir

theorem nodeOf_regular {ch ch' : CpioHeader} (hreg : S_ISREG ch.mode = true)
    (hmode : ch'.mode = ch.mode) (huid : ch'.uid = ch.uid) (hgid : ch'.gid = ch.gid) (data : Str) :
    nodeOf ch' data = nodeOf ch data := by
  have hdev : ¬ (S_ISCHR ch.mode = true ∨ S_ISBLK ch.mode = true) := by
    simp only [S_ISREG, S_ISCHR, S_ISBLK, decide_eq_true_eq] at hreg ⊢
    omega
  unfold nodeOf
  rw [hmode, huid, hgid, if_neg hdev, if_neg hdev]

theorem describes_own {es : List Item} {d : Disk} (h : Describes es d)
    (hagree : ∀ e ∈ es, ∀ m ∈ es, sameGroup e m = true →
      m.head.mode = e.head.mode ∧ m.head.uid = e.head.uid ∧ m.head.gid = e.head.gid) :
    ∀ e ∈ es, ∃ i, d.ino (place e) = some i ∧ d.node i = nodeOf e.head (origin es e).data := by
  intro e he
  obtain ⟨i, hi, hnode⟩ := h.files e he
  refine ⟨i, hi, hnode.trans ?_⟩
  have hcases : origin es e = e ∨ origin es e ∈ es ∧ sameGroup e (origin es e) = true := by
    rw [origin]
    cases hc : carrier es e with
    | some c =>
      obtain ⟨hmem, hsame, -⟩ := carrier_spec hc
      exact Or.inr ⟨hmem, hsame⟩
    | none =>
      cases hf : es.find? (sameGroup e) with
      | some m => exact Or.inr ⟨List.mem_of_find?_eq_some hf, List.find?_some hf⟩
      | none => exact Or.inl rfl
  rcases hcases with heq | ⟨hmem, hsame⟩
  · rw [heq]
  · obtain ⟨hmode, huid, hgid⟩ := hagree e he _ hmem hsame
    exact nodeOf_regular (member_isReg (sameGroup_iff.mp hsame).1) hmode huid hgid _

/-- The tree of an archive with its directories listed before their contents is installed,
wherever the data of the groups are. The members of a group are one file, made from the first
of them with data. -/
theorem myCpioInstallArchive_tree (A : Archive) (hsmall : Small A) (hes : Installable (items A))
    (hlisted : Listed (items A))
    (hdata : ∀ e ∈ items A, isMember e = true →
      ∃ m ∈ items A, sameGroup e m = true ∧ m.data ≠ [])
    (tail : Str) (lastDir : Option Str) (cb : Bool) (fuel : ℕ) (hfuel : A.entries.length < fuel) :
    ∃ s, myCpioInstallArchive diskSys cb none fuel ⟨A.bytes ++ tail, emptyDisk⟩ lastDir =
        (.returned .ok, s) ∧
      Describes (items A) s.io.w.disk ∧
      ((∀ e ∈ items A, ∀ m ∈ items A, sameGroup e m = true →
          m.head.mode = e.head.mode ∧ m.head.uid = e.head.uid ∧ m.head.gid = e.head.gid) →
        ∀ e ∈ items A, ∃ i, s.io.w.disk.ino (place e) = some i ∧
          s.io.w.disk.node i = nodeOf e.head (origin (items A) e).data) := by
  obtain ⟨rc, s, hrun, htree, hok⟩ := install_spec hsmall hes tail (Or.inr hlisted) cb hfuel
  obtain rfl := hok.mpr (listed_linksPlaced hlisted hdata)
  exact ⟨s, hrun, htree rfl, describes_own (htree rfl)⟩

/-- A directory with one of the names of a file in it, a symbolic link to that name, and the
other name with the data. -/
def mixedTree : Archive where
  entries := [newcEntry 1 0o040755 2 (ascii "d") [], newcEntry 7 0o100644 2 (ascii "d/x") [],
    newcEntry 3 0o120777 1 (ascii "l") (ascii "d/x"), newcEntry 7 0o100644 2 (ascii "y") (ascii "hi")]
  trailer := trailerEntry
  wellFormed := by decide +kernel
  trailerWellFormed := trailerEntry_wellFormed
  isTrailer := trailerEntry_path
  noTrailer := by decide +kernel

theorem mixedTree_installable : Installable (items mixedTree) :=
  ⟨by decide +kernel, by decide +kernel, by decide +kernel, by decide +kernel, by decide +kernel,
    by decide +kernel, by decide +kernel⟩

theorem myCpioInstallArchive_tree_mixedTree :
    ∃ s, myCpioInstallArchive diskSys true none 5 ⟨mixedTree.bytes ++ [], emptyDisk⟩
        (some (ascii "d")) = (.returned .ok, s) ∧
      Describes (items mixedTree) s.io.w.disk := by
  obtain ⟨s, hrun, htree, -⟩ := myCpioInstallArchive_tree mixedTree (by decide +kernel)
    mixedTree_installable (by decide +kernel) (by decide +kernel) [] (some (ascii "d")) true 5
    (by decide +kernel)
  exact ⟨s, hrun, htree⟩

/-- Without that order and without data in every group, the archive is installed exactly when
its links are well placed. -/
theorem myCpioInstallArchive_tree_iff (A : Archive) (hsmall : Small A)
    (hes : Installable (items A)) (tail : Str) (lastDir : Option Str)
    (hmemo : Remembers (items A) emptyDisk lastDir) (cb : Bool) (fuel : ℕ)
    (hfuel : A.entries.length < fuel) :
    (∃ s, myCpioInstallArchive diskSys cb none fuel ⟨A.bytes ++ tail, emptyDisk⟩ lastDir =
        (.returned .ok, s) ∧ Describes (items A) s.io.w.disk) ↔ LinksPlaced (items A) := by
  obtain ⟨rc, s, hrun, htree, hok⟩ := install_spec hsmall hes tail (Or.inl hmemo) cb hfuel
  rw [← hok]
  constructor
  · rintro ⟨s', hrun', -⟩
    rw [hrun] at hrun'
    exact Outcome.returned.inj (Prod.mk.inj hrun').1
  · rintro rfl
    exact ⟨s, hrun, htree rfl⟩

/-- The first name has the data, and the directory of the other one is made for a plain file. -/
def lateDirectory : Archive where
  entries := [newcEntry 7 0o100644 2 (ascii "x") (ascii "hi"),
    newcEntry 7 0o100644 2 (ascii "d/y") [], newcEntry 8 0o100644 1 (ascii "d/z") []]
  trailer := trailerEntry
  wellFormed := by decide +kernel
  trailerWellFormed := trailerEntry_wellFormed
  isTrailer := trailerEntry_path
  noTrailer := by decide +kernel

theorem lateDirectory_installable : Installable (items lateDirectory) :=
  ⟨by decide +kernel, by decide +kernel, by decide +kernel, by decide +kernel, by decide +kernel,
    by decide +kernel, by decide +kernel⟩

theorem myCpioInstallArchive_tree_iff_lateDirectory :
    ∃ s, myCpioInstallArchive diskSys false none 4 ⟨lateDirectory.bytes ++ [], emptyDisk⟩ none =
        (.returned .ok, s) ∧ Describes (items lateDirectory) s.io.w.disk :=
  (myCpioInstallArchive_tree_iff lateDirectory (by decide +kernel) lateDirectory_installable [] none
    (by simp [Remembers]) false 4 (by decide +kernel)).mpr (by decide +kernel)

def emptyPair : Archive where
  entries := [newcEntry 7 0o100644 2 (ascii "x") [], newcEntry 7 0o100644 2 (ascii "y") []]
  trailer := trailerEntry
  wellFormed := by decide +kernel
  trailerWellFormed := trailerEntry_wellFormed
  isTrailer := trailerEntry_path
  noTrailer := by decide +kernel

theorem emptyPair_installable : Installable (items emptyPair) :=
  ⟨by decide +kernel, by decide +kernel, by decide +kernel, by decide +kernel, by decide +kernel,
    by decide +kernel, by decide +kernel⟩

/-- The second name is in a directory that nobody makes. -/
def awayPair : Archive where
  entries := [newcEntry 7 0o100644 2 (ascii "x") (ascii "hi"),
    newcEntry 7 0o100644 2 (ascii "d/y") []]
  trailer := trailerEntry
  wellFormed := by decide +kernel
  trailerWellFormed := trailerEntry_wellFormed
  isTrailer := trailerEntry_path
  noTrailer := by decide +kernel

theorem awayPair_installable : Installable (items awayPair) :=
  ⟨by decide +kernel, by decide +kernel, by decide +kernel, by decide +kernel, by decide +kernel,
    by decide +kernel, by decide +kernel⟩

/-- Neither is installed. -/
theorem unplaced_links_fail :
    (Installable (items emptyPair) ∧
      (myCpioInstallArchive diskSys false none 3 ⟨emptyPair.bytes, emptyDisk⟩ none).1 =
        .returned .internal) ∧
    (Installable (items awayPair) ∧
      (myCpioInstallArchive diskSys false none 3 ⟨awayPair.bytes, emptyDisk⟩ none).1 =
        .returned .linkFailed) :=
  ⟨⟨emptyPair_installable, by decide +kernel⟩, ⟨awayPair_installable, by decide +kernel⟩⟩

end Comodoo.CpioTreeInstall
