import Comodoo.CpioDisk
import Mathlib.Data.List.Induction

set_option autoImplicit false

/-!
# The helpers on the disk

What the helpers of the installation do to a disk when nothing stands in their way.
-/
namespace Comodoo.CpioDiskCalls
open CString CpioSystem CpioRead CpioExpand CpioStream CpioDisk FilePath

/-- Names lead to inodes in use, through directories that start at the working directory. -/
structure Sound (d : Disk) : Prop where
  root : d.isDir [] = true
  bound : ∀ cs i, d.ino cs = some i → i < d.next
  parents : ∀ cs i, cs ≠ [] → d.ino cs = some i → d.isDir cs.dropLast = true

section Disk

variable {d : Disk} {cs : Place}

theorem isDir_iff : d.isDir cs = true ↔ ∃ i, d.ino cs = some i ∧ S_ISDIR (d.node i).mode = true := by
  rw [Disk.isDir, Option.any_eq_true]

theorem isDir_place (h : Sound d) (n : Node) (x : Place) :
    (d.place cs n).isDir x = if x = cs then S_ISDIR n.mode else d.isDir x := by
  split
  · rename_i hx
    subst hx
    unfold Disk.isDir
    rw [Disk.place_ino_self, Option.any_some, Disk.place_node_self]
  · rename_i hx
    unfold Disk.isDir
    rw [Disk.place_ino_ne d n hx]
    cases hino : d.ino x with
    | none => rw [Option.any_none, Option.any_none]
    | some i =>
      have hi := h.bound x i hino
      rw [Option.any_some, Option.any_some, Disk.place_node_ne d cs n (Nat.ne_of_lt hi)]

theorem Sound.place (h : Sound d) (hf : d.Fresh cs) (n : Node) : Sound (d.place cs n) := by
  have hkeep : ∀ x, d.isDir x = true → (d.place cs n).isDir x = true := by
    intro x hx
    rw [isDir_place h, if_neg]
    · exact hx
    · rintro rfl
      obtain ⟨i, hi, -⟩ := isDir_iff.mp hx
      rw [hf.absent] at hi
      cases hi
  refine ⟨hkeep _ h.root, ?_, ?_⟩
  · intro x i hx
    by_cases hcs : x = cs
    · subst hcs
      rw [Disk.place_ino_self] at hx
      obtain rfl := Option.some.inj hx
      exact Nat.lt_succ_self _
    · rw [Disk.place_ino_ne d n hcs] at hx
      exact Nat.lt_succ_of_lt (h.bound x i hx)
  · intro x i hne hx
    by_cases hcs : x = cs
    · subst hcs
      exact hkeep _ hf.parent
    · rw [Disk.place_ino_ne d n hcs] at hx
      exact hkeep _ (h.parents x i hne hx)

theorem Sound.isDir_of_le (h : Sound d) {x : Place} (hx : d.isDir x = true) {y : Place}
    (hy : y <+: x) : d.isDir y = true := by
  induction x using List.reverseRecOn with
  | nil =>
    obtain rfl := List.prefix_nil.mp hy
    exact hx
  | append_singleton x name ih =>
    rcases List.prefix_concat_iff.mp hy with rfl | hy
    · exact hx
    · obtain ⟨i, hi, -⟩ := isDir_iff.mp hx
      have hparent := h.parents _ i (by simp) hi
      rw [List.dropLast_concat] at hparent
      exact ih hparent hy

end Disk

section Calls

variable {w : Host} {path : Str} {cs : Place}

theorem create_fresh (hloc : locate path = some cs) (h : w.disk.Fresh cs) (n : Node) :
    w.create path n = (true, { w with disk := w.disk.place cs n }) := by
  rw [Host.create, hloc]
  exact if_pos (Disk.isFresh_iff.mpr h)

theorem modify_found {i : ℕ} (follow : Bool) (hloc : locate path = some cs)
    (hino : w.disk.ino cs = some i)
    (hlnk : follow = true → S_ISLNK (w.disk.node i).mode = false) (f : Node → Node) :
    w.modify path follow f = (true, { w with disk := w.disk.setNode i f }) := by
  rw [Host.modify, Disk.find_eq hloc, hino]
  refine if_neg ?_
  rintro ⟨hfollow, hmode⟩
  rw [hlnk hfollow] at hmode
  cases hmode

theorem lstat_absent (hloc : locate path = some cs) (h : w.disk.ino cs = none) :
    diskSys.lstat w path = (none, w) := by
  simp [diskSys, Disk.find_eq hloc, h]

theorem createDirectory_found (hloc : locate path = some cs) (h : w.disk.isDir cs = true)
    (perms : ℕ) : createDirectory diskSys w path perms = (.ok, w) := by
  obtain ⟨i, hino, hdir⟩ := isDir_iff.mp h
  have hlstat : diskSys.lstat w path =
      (some ⟨(w.disk.node i).mode, (w.disk.node i).rdev⟩, w) := by
    simp [diskSys, Disk.find_eq hloc, hino]
  rw [createDirectory, hlstat]
  simp [hdir]

theorem createDirectory_fresh (hloc : locate path = some cs) (h : w.disk.Fresh cs) (perms : ℕ) :
    createDirectory diskSys w path perms =
      (.ok, { w with disk := w.disk.place cs ⟨0o040000 + perms % 4096, 0, 0, 0, []⟩ }) := by
  have hmkdir : diskSys.mkdir w path 0 =
      (true, { w with disk := w.disk.place cs ⟨0o040000, 0, 0, 0, []⟩ }) := create_fresh hloc h _
  have hchmod := modify_found (w := { w with disk := w.disk.place cs ⟨0o040000, 0, 0, 0, []⟩ })
    (i := w.disk.next) true hloc (Disk.place_ino_self _ _ _)
    (fun _ => by rw [Disk.place_node_self]; rfl)
    (fun n => { n with mode := S_IFMT n.mode + perms % 4096 })
  rw [Disk.place_setNode] at hchmod
  rw [createDirectory, lstat_absent hloc h.absent]
  simp only [makeDirectory, hmkdir]
  have hcall : diskSys.chmod { w with disk := w.disk.place cs ⟨0o040000, 0, 0, 0, []⟩ } path perms =
      (true, { w with disk := w.disk.place cs ⟨0o040000 + perms % 4096, 0, 0, 0, []⟩ }) := hchmod
  rw [hcall]

end Calls

/-- A directory made on the way to a file. -/
def dirNode : Node := ⟨0o040755, 0, 0, 0, []⟩

theorem dirNode_isDir : S_ISDIR dirNode.mode = true := by
  simp [dirNode, S_ISDIR, S_IFMT]

/-- Directories have been added, one in the other. -/
inductive AddDirs : Disk → Disk → List Place → Prop
  | none (d : Disk) : AddDirs d d []
  | add {d d' : Disk} {cs : Place} {css : List Place} (hf : d.Fresh cs)
    (hrest : AddDirs (d.place cs dirNode) d' css) : AddDirs d d' (cs :: css)

theorem createDirectories_walk {cs last : Place} {ps : List Str} (hwalk : Walk cs ps last)
    {w : Host} (hs : Sound w.disk) (hcs : w.disk.isDir cs = true)
    (hclear : ∀ x, x <+: last → w.disk.ino x ≠ none → w.disk.isDir x = true) :
    ∃ d' css, createDirectories diskSys w ps = (.ok, { w with disk := d' }) ∧
      AddDirs w.disk d' css ∧ (∀ x ∈ css, x <+: last) ∧
      ∀ x, d'.isDir x = true ↔ w.disk.isDir x = true ∨ x <+: last := by
  induction hwalk generalizing w with
  | done cs =>
    refine ⟨w.disk, [], rfl, .none _, by simp, fun x => ⟨Or.inl, ?_⟩⟩
    rintro (hx | hx)
    · exact hx
    · exact hs.isDir_of_le hcs hx
  | stay hp _ ih =>
    obtain ⟨d', css, hrun, hadd, hcss, hdirs⟩ := ih hs hcs hclear
    refine ⟨d', css, ?_, hadd, hcss, hdirs⟩
    rw [createDirectories, createDirectory_found hp hcs]
    exact hrun
  | @down cs last p name ps hp hrest ih =>
    have hle := hrest.le
    by_cases hdir : w.disk.isDir (cs ++ [name]) = true
    · obtain ⟨d', css, hrun, hadd, hcss, hdirs⟩ := ih hs hdir hclear
      refine ⟨d', css, ?_, hadd, hcss, hdirs⟩
      rw [createDirectories, createDirectory_found hp hdir]
      exact hrun
    · have hfresh : w.disk.Fresh (cs ++ [name]) := by
        refine ⟨by simp, ?_, by rw [List.dropLast_concat]; exact hcs⟩
        by_contra hsome
        exact hdir (hclear _ hle hsome)
      have hplace : ∀ x, (w.disk.place (cs ++ [name]) dirNode).isDir x =
          if x = cs ++ [name] then S_ISDIR dirNode.mode else w.disk.isDir x :=
        isDir_place hs dirNode
      obtain ⟨d', css, hrun, hadd, hcss, hdirs⟩ :=
        ih (w := { w with disk := w.disk.place (cs ++ [name]) dirNode })
          (hs.place hfresh dirNode) (by rw [hplace, if_pos rfl, dirNode_isDir]) (by
            intro x hx hsome
            rw [hplace]
            split
            · exact dirNode_isDir
            · rename_i hne
              rw [Disk.place_ino_ne _ _ hne] at hsome
              exact hclear x hx hsome)
      refine ⟨d', (cs ++ [name]) :: css, ?_, .add hfresh hadd, ?_, ?_⟩
      · rw [createDirectories, createDirectory_fresh hp hfresh]
        exact hrun
      · intro x hx
        rcases List.mem_cons.mp hx with rfl | hx
        · exact hle
        · exact hcss x hx
      · intro x
        rw [hdirs, hplace]
        split
        · rename_i hx
          subst hx
          exact ⟨fun _ => Or.inr hle, fun _ => Or.inr hle⟩
        · rfl

section Paths

/-- One step of the walk: to the path up to a slash. -/
theorem walk_front {front l part : Str} (hfront : front = l ++ part)
    (hl : l = [] ∨ ∃ l', l = l' ++ [sep]) (hpart : sep ∉ part) (hne : front ≠ [])
    (hrel : front.head? ≠ some sep) (hdots : dotDot ∉ names front) {ps : List Str} {last : Place}
    (hrest : Walk (names front) ps last) : Walk (names l) (front :: ps) last := by
  have hloc : locate front = some (names front) := by
    rw [locate, if_neg]
    rintro (h | h | h)
    · exact hne h
    · exact hrel h
    · exact hdots h
  have hsplit : names front = names l ++ names part := by
    rcases hl with rfl | ⟨l', rfl⟩
    · rw [hfront, names_nil, List.nil_append, List.nil_append]
    · rw [hfront, List.append_assoc, List.singleton_append, names_append, names_append, names_nil,
        List.append_nil]
  rw [hsplit, names_segment hpart] at hloc hrest
  split at hloc
  · rename_i hseg
    rw [if_pos hseg] at hrest
    exact .down hloc hrest
  · rename_i hseg
    rw [if_neg hseg] at hrest
    rw [List.append_nil] at hloc hrest
    exact .stay hloc hrest

theorem walk_slashPrefixes {front l part : Str} (s : Str) (hfront : front = l ++ part)
    (hl : l = [] ∨ ∃ l', l = l' ++ [sep]) (hpart : sep ∉ part) (hne : front ≠ [])
    (hrel : front.head? ≠ some sep) (hdots : dotDot ∉ names (front ++ s)) :
    Walk (names l) (slashPrefixes front s ++ [front ++ s]) (names (front ++ s)) := by
  induction s generalizing front l part with
  | nil =>
    rw [List.append_nil] at hdots ⊢
    exact walk_front hfront hl hpart hne hrel hdots (.done _)
  | cons b s ih =>
    have hassoc : front ++ b :: s = front ++ [b] ++ s := by simp
    have hrel' : (front ++ [b]).head? ≠ some sep := by
      obtain ⟨c, front', rfl⟩ := List.exists_cons_of_ne_nil hne
      exact hrel
    rw [slashPrefixes]
    split
    · rename_i hb
      subst hb
      have hcut : names (front ++ [sep]) = names front := by
        rw [names_append, names_nil, List.append_nil]
      have hrest := @ih (front ++ [sep]) (front ++ [sep]) [] (by simp) (Or.inr ⟨front, rfl⟩)
        (by simp) (by simp) hrel' (by rw [← hassoc]; exact hdots)
      rw [hcut, ← hassoc] at hrest
      refine walk_front hfront hl hpart hne hrel ?_ hrest
      rw [names_append] at hdots
      exact fun h => hdots (List.mem_append_left _ h)
    · rename_i hb
      rw [hassoc] at hdots ⊢
      refine @ih (front ++ [b]) l (part ++ [b]) (by rw [hfront, List.append_assoc]) hl ?_ (by simp)
        hrel' hdots
      simp only [List.mem_append, List.mem_singleton, not_or]
      exact ⟨hpart, fun h => hb h.symm⟩

theorem walk_pathDirs {dir : Str} (hne : dir ≠ []) (hrel : dir.head? ≠ some sep)
    (hdots : dotDot ∉ names dir) : Walk [] (pathDirs dir) (names dir) := by
  obtain ⟨b, s, rfl⟩ := List.exists_cons_of_ne_nil hne
  have hb : sep ∉ [b] := by
    intro h
    rw [List.mem_singleton] at h
    exact hrel (by simp [h])
  exact @walk_slashPrefixes [b] [] [b] s rfl (Or.inl rfl) hb (by simp) hrel hdots

/-- The place is above the path, or the path leads to it without a name at its end. -/
def Above (path : Str) (last : Place) : Prop :=
  last = (names path).dropLast ∨ last = names path ∧ endsInName path = false

theorem dirPart_proper {path : Str} (h : Proper path) :
    (dirPart path = none ∧ (names path).dropLast = []) ∨
      ∃ dir, dirPart path = some dir ∧ locate dir = some (names dir) ∧
        Walk [] (pathDirs dir) (names dir) ∧ Above path (names dir) := by
  have hdots := h.noDotDot
  rcases h.cases with ⟨hnone, hnames⟩ | ⟨dir, last, hpath, hsome, hne, ⟨more, hnames⟩, habove⟩
  · left
    rw [hnames, dirPart, hnone]
    exact ⟨rfl, rfl⟩
  · right
    have hrel : dir.head? ≠ some sep := by
      obtain ⟨c, dir', rfl⟩ := List.exists_cons_of_ne_nil hne
      rw [hpath] at h
      exact h.relative
    have hdirDots : dotDot ∉ names dir := by
      rw [hnames] at hdots
      exact fun hd => hdots (List.mem_append_left _ hd)
    refine ⟨dir, ?_, ?_, walk_pathDirs hne hrel hdirDots, habove⟩
    · rw [dirPart, hsome]
      exact if_neg hne
    · rw [locate, if_neg]
      rintro (hd | hd | hd)
      · exact hne hd
      · exact hrel hd
      · exact hdirDots hd

theorem Above.dropLast_le {path : Str} {last : Place} (h : Above path last) :
    (names path).dropLast <+: last := by
  rcases h with rfl | ⟨rfl, -⟩
  · exact List.prefix_refl _
  · exact List.dropLast_prefix _

/-- A place above the path is a directory when the directory in front of its last slash is. -/
theorem isDir_of_dirPart {d : Disk} (hs : Sound d) {path dir : Str} (hp : Proper path)
    (hdir : dirPart path = some dir) (h : d.isDir (names dir) = true) :
    d.isDir (names path).dropLast = true := by
  rcases dirPart_proper hp with ⟨hnone, -⟩ | ⟨dir', hdir', -, -, habove⟩
  · rw [hdir] at hnone
    cases hnone
  · obtain rfl := Option.some.inj (hdir.symm.trans hdir')
    exact hs.isDir_of_le h habove.dropLast_le

end Paths

theorem AddDirs.sound {d d' : Disk} {css : List Place} (h : AddDirs d d' css) (hs : Sound d) :
    Sound d' := by
  induction h with
  | none => exact hs
  | add hf _ ih => exact ih (hs.place hf dirNode)

/-- `checkDirectory` makes the place above the file a directory, unless the memo says it is one. -/
theorem checkDirectory_disk {w : Host} {path : Str} (hp : Proper path) (lastDir : Option Str)
    (hs : Sound w.disk)
    (hclear : ∀ x, Above path x → ∀ y, y <+: x → w.disk.ino y ≠ none → w.disk.isDir y = true)
    (hmemo : ∀ dir, dirPart path = some dir → lastDir = some dir →
      w.disk.isDir (names path).dropLast = true) :
    ∃ d' css lastDir' last, checkDirectory diskSys w lastDir path =
        (.ok, { w with disk := d' }, lastDir') ∧
      Above path last ∧ AddDirs w.disk d' css ∧ (∀ x ∈ css, x <+: last) ∧
      (∀ x, d'.isDir x = true ↔ w.disk.isDir x = true ∨ x <+: last) ∧
      (lastDir' = lastDir ∨ ∃ dir, lastDir' = some dir ∧ d'.isDir (names dir) = true) := by
  have hstay : w.disk.isDir (names path).dropLast = true →
      ∀ x, w.disk.isDir x = true ↔ w.disk.isDir x = true ∨ x <+: (names path).dropLast := by
    intro hdir x
    refine ⟨Or.inl, ?_⟩
    rintro (hx | hx)
    · exact hx
    · exact hs.isDir_of_le hdir hx
  rcases dirPart_proper hp with ⟨hnone, hroot⟩ | ⟨dir, hdir, -, hwalk, habove⟩
  · refine ⟨w.disk, [], lastDir, _, by rw [checkDirectory, hnone], Or.inl rfl, .none _, by simp,
      hstay ?_, Or.inl rfl⟩
    rw [hroot]
    exact hs.root
  · by_cases hlast : lastDir = some dir
    · exact ⟨w.disk, [], lastDir, _, by simp [checkDirectory, hdir, hlast], Or.inl rfl, .none _,
        by simp, hstay (hmemo dir hdir hlast), Or.inl rfl⟩
    · obtain ⟨d', css, hrun, hadd, hcss, hdirs⟩ :=
        createDirectories_walk hwalk hs hs.root (hclear _ habove)
      have hmade : d'.isDir (names dir) = true := (hdirs _).mpr (Or.inr (List.prefix_refl _))
      refine ⟨d', css, some dir, _, ?_, habove, hadd, hcss, hdirs, Or.inr ⟨dir, rfl, hmade⟩⟩
      rw [checkDirectory, hdir]
      simp only [hlast, if_false, hrun]

end Comodoo.CpioDiskCalls
