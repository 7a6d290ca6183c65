import Comodoo.CpioTreeSteps

set_option autoImplicit false

/-!
# Entries and hard-link groups

One entry through `installEntry`. A member without data waits for the file of its group, the
member with the data makes the file and the links to it, and a member that comes later is
linked at once, or at the end if its directory is still missing.
-/
namespace Comodoo.CpioTreeMembers
open CString CpioSystem CpioRead CpioExpand CpioInstall CpioGroups CpioStream CpioDisk
open CpioDiskCalls CpioDiskFiles CpioDiskLinks CpioTree CpioTreeGroups CpioTreeSteps FilePath

/-- The names that wait when the file of their group is made can be linked to it. -/
def Placed (done : List Item) : Prop :=
  ∀ front c rest, done = front ++ c :: rest → carrier done c = some c →
    ∀ m ∈ front, sameGroup c m = true → HasDir (front ++ [c]) (above m)

/-- Every group has a member with data. The directory of a member that comes before the first
of these is there when that one has been made, and the directory of a later member is there at
the end. -/
def LinksPlaced (es : List Item) : Prop :=
  (∀ e ∈ es, isMember e = true → carrier es e ≠ none) ∧ Placed es ∧
    ∀ front c rest, es = front ++ c :: rest → carrier es c = some c →
      ∀ m ∈ rest, sameGroup c m = true → HasDir es (above m)

instance (done : List Item) : Decidable (Placed done) :=
  inferInstanceAs (Decidable (∀ front c rest, done = front ++ c :: rest → carrier done c = some c →
    ∀ m ∈ front, sameGroup c m = true → HasDir (front ++ [c]) (above m)))

instance (es : List Item) : Decidable (LinksPlaced es) :=
  inferInstanceAs (Decidable ((∀ e ∈ es, isMember e = true → carrier es e ≠ none) ∧ Placed es ∧
    ∀ front c rest, es = front ++ c :: rest → carrier es c = some c →
      ∀ m ∈ rest, sameGroup c m = true → HasDir es (above m)))

/-- The state of the installation after some of the entries. -/
structure Sim (es done : List Item) (d : Disk) (links : List HardLink) (lastDir : Option Str) :
    Prop where
  built : Built es done d lastDir
  groups : Groups done d links
  placed : Placed done

section Entry

variable {es done rest : List Item} {e : Item} {s : St Host}

theorem mem_of_split (hsplit : es = done ++ e :: rest) : ∀ a ∈ done ++ [e], a ∈ es := by
  intro a ha
  rw [hsplit, List.append_cons]
  exact List.mem_append_left _ ha

theorem Placed.append (h : Placed done) (he : e ∉ done)
    (hnew : carrier (done ++ [e]) e = some e →
      ∀ m ∈ done, sameGroup e m = true → HasDir (done ++ [e]) (above m)) :
    Placed (done ++ [e]) := by
  intro front c rest hsplit hc
  rcases List.eq_nil_or_concat rest with rfl | ⟨rest', e', rfl⟩
  · obtain ⟨rfl, heq⟩ := List.append_inj' hsplit rfl
    obtain rfl := (List.cons.inj heq).1
    exact hnew hc
  · rw [List.concat_eq_append, ← List.cons_append, ← List.append_assoc] at hsplit
    obtain ⟨hdone, -⟩ := List.append_inj' hsplit rfl
    exact h front c rest' hdone ((carrier_append_old (by simp [hdone]) he).mp hc)

theorem member_absent (hes : Installable es) (hsplit : es = done ++ e :: rest) {d : Disk}
    {lastDir : Option Str} (h : Built es done d lastDir) (hmem : isMember e = true) :
    d.ino (place e) = none := by
  by_contra hthere
  rcases h.core.only (place e) hthere with hdir | ⟨m, hm, heq⟩
  · have hentry := early_dir hes hsplit (Or.inl rfl) (Or.inl ((h.dirs _).mp hdir))
    rw [isDirEntry_plain hentry] at hmem
    cases hmem
  · exact installable_new hes hsplit m hm heq

theorem members_room (hes : Installable es) (hsplit : es = done ++ e :: rest)
    (hmem : isMember e = true) : ((members done e).length : ℤ) < e.head.nlink := by
  have hcount := hes.members e (by simp [hsplit]) hmem
  have hself := sameGroup_self hmem
  rw [hsplit, List.filter_append, List.filter_cons_of_pos hself, List.length_append,
    List.length_cons] at hcount
  rw [members]
  push_cast at hcount
  omega

theorem built_wait (hes : Installable es) (hsplit : es = done ++ e :: rest) {d : Disk}
    {lastDir : Option Str} (h : Built es done d lastDir) (hmem : isMember e = true)
    (hcarry : carrier (done ++ [e]) e ≠ some e) : Built es (done ++ [e]) d lastDir := by
  have hfresh : e ∉ done := fun hin => installable_new hes hsplit e hin rfl
  have hchecked : checked (done ++ [e]) e = false := by
    rw [checked, decide_eq_false_iff_not, hmem]
    rintro (hplain | hc)
    · cases hplain
    · exact hcarry hc
  refine ⟨h.core.addWaiting (member_absent hes hsplit h hmem) hmem, ?_, h.memo⟩
  intro x
  rw [hasDir_append hfresh, hchecked, h.dirs]
  simp

theorem built_links {d d' : Disk} {lastDir : Option Str} (h : Built es done d lastDir)
    (hcore : Core done d') (hdirs : ∀ x, d'.isDir x = d.isDir x) : Built es done d' lastDir := by
  refine ⟨hcore, fun x => by rw [hdirs, h.dirs], h.memo.imp_left (fun hrem => ?_)⟩
  intro a ha dir hdir hlast
  rw [hdirs]
  exact hrem a ha dir hdir hlast

theorem sim_plain (cb : Bool) (hes : Installable es) (hsplit : es = done ++ e :: rest)
    (h : Sim es done s.io.w.disk s.links s.lastDir) (hsize : e.head.size = e.data.length)
    (hplain : isMember e = false) {pos : ℤ} {tail : Str}
    (hat : At Host.input s.io pos (e.data ++ tail)) :
    ∃ s', createFile diskSys cb s e.head = some (.ok, s') ∧
      At Host.input s'.io (pos + e.data.length) tail ∧
      Sim es (done ++ [e]) s'.io.w.disk s'.links s'.lastDir := by
  have hfresh : e ∉ done := fun hin => installable_new hes hsplit e hin rfl
  have hnone : ∀ l, carrier l e ≠ some e := by
    intro l hc
    rw [carrier_not_member hplain] at hc
    cases hc
  obtain ⟨s', hrun, hat', hlinks, hbuilt, -, hkeep⟩ := h.built.create hes hsplit cb hsize
    (fun hmem => absurd hmem (by rw [hplain]; exact Bool.false_ne_true)) hat
  refine ⟨s', hrun, hat', hbuilt, ?_, h.placed.append hfresh (fun hc => absurd hc (hnone _))⟩
  rw [hlinks]
  exact h.groups.plain hplain hkeep

section Member

variable {li : HardLink} {k : ℕ}

theorem sim_defer (hes : Installable es) (hsplit : es = done ++ e :: rest) {d : Disk}
    {links : List HardLink} {lastDir : Option Str} (h : Sim es done d links lastDir)
    (hmem : isMember e = true) (hgroup : Group done d e li) (hfree : li.files[k]? = some none)
    (hdata : e.data = []) :
    Sim es (done ++ [e]) d (putGroup links (withFile li k e.head.path)) lastDir := by
  have hnew := installable_new hes hsplit
  have hcarry : carrier (done ++ [e]) e ≠ some e := fun hc => (carrier_spec hc).2.2 hdata
  have hdefer := hgroup.defer hmem hfree (member_absent hes hsplit h.built hmem) hnew
    (fun _ => hdata)
  exact ⟨built_wait hes hsplit h.built hmem hcarry,
    h.groups.put hmem hdefer (fun _ _ _ => rfl) (h.groups.keyed.putGroup _) (fun _ => Iff.rfl),
    h.placed.append (fun hin => hnew e hin rfl) (fun hc => absurd hc hcarry)⟩

theorem laterMember_links {s1 s2 : St Host} {li : HardLink} (ch : CpioHeader) {rc : Rc}
    (h : createLinks diskSys s1 li false = (rc, s2)) :
    (laterMember diskSys s1 li ch).io.w.disk = s2.io.w.disk ∧
      (laterMember diskSys s1 li ch).links = s2.links ∧
      (laterMember diskSys s1 li ch).lastDir = s2.lastDir := by
  rw [laterMember, h]
  by_cases hzero : ch.size = 0
  · simp only [hzero, if_true, and_self]
  · simp only [hzero, if_false, and_true]
    exact eatLoop_keeps diskSys_unread _ _ _

theorem sim_later (hes : Installable es) (hsplit : es = done ++ e :: rest)
    (h : Sim es done s.io.w.disk s.links s.lastDir) (hsize : e.head.size = e.data.length)
    (hmem : isMember e = true) (hgroup : Group done s.io.w.disk e li)
    (hfree : li.files[k]? = some none) (hcreated : li.createdPath ≠ none) {pos : ℤ} {tail : Str}
    (hat : At Host.input s.io pos (e.data ++ tail)) {s' : St Host}
    (hrun : laterMember diskSys { s with links := putGroup s.links (withFile li k e.head.path) }
      (withFile li k e.head.path) e.head = s') :
    At Host.input s'.io (pos + e.data.length) tail ∧
      Sim es (done ++ [e]) s'.io.w.disk s'.links s'.lastDir := by
  have hnew := installable_new hes hsplit
  have hfresh : e ∉ done := fun hin => hnew e hin rfl
  have hsub := mem_of_split hsplit
  obtain ⟨j, hj⟩ := Option.ne_none_iff_exists'.mp hcreated
  have hcarry : carrier (done ++ [e]) e ≠ some e := by
    obtain ⟨-, c, hc, -, -⟩ := hgroup.made j hj
    rw [carrier_append_of_some hc]
    intro heq
    exact hfresh (Option.some.inj heq ▸ (carrier_spec hc).1)
  have hdefer := hgroup.defer hmem hfree (member_absent hes hsplit h.built hmem) hnew
    (fun hnone => absurd hnone hcreated)
  have hbuilt := built_wait hes hsplit h.built hmem hcarry
  obtain ⟨rc, s2, li2, hcall, hlast, hlinks, hcore, hgroup2, hdirs, hkeep, -, -⟩ :=
    createLinks_disk (s := { s with links := putGroup s.links (withFile li k e.head.path) })
      hbuilt.core hdefer hj (fun a ha => hes.proper a (hsub a ha))
      (fun a ha b hb => installable_apart hes a (hsub a ha) b (hsub b hb)) false
  obtain ⟨hdisk', hlinks', hlast'⟩ := laterMember_links e.head hcall
  subst hrun
  refine ⟨CpioSync.laterMember_at diskSys_fullReads _ hsize (hat.move rfl rfl), ?_⟩
  rw [hdisk', hlinks', hlast', hlast, hlinks]
  refine ⟨built_links hbuilt hcore hdirs, ?_, h.placed.append hfresh (fun hc => absurd hc hcarry)⟩
  refine h.groups.put hmem hgroup2 (fun a ha hother => hkeep a (List.mem_append_left _ ha) hother)
    ((h.groups.keyed.putGroup _).putGroup _) (fun l => mem_putGroup_twice ?_ ?_)
  · rw [hgroup2.inode, hdefer.inode]
  · rw [hgroup2.dev, hdefer.dev]

theorem sim_carrier (cb : Bool) (hes : Installable es) (hsplit : es = done ++ e :: rest)
    (h : Sim es done s.io.w.disk s.links s.lastDir) (hsize : e.head.size = e.data.length)
    (hmem : isMember e = true) (hgroup : Group done s.io.w.disk e li)
    (hfree : li.files[k]? = some none) (hcreated : li.createdPath = none) (hdata : e.data ≠ [])
    {pos : ℤ} {tail : Str} (hat : At Host.input s.io pos (e.data ++ tail)) :
    ∃ rc s', dataMember diskSys cb { s with links := putGroup s.links (withFile li k e.head.path) }
        (withFile li k e.head.path) k e.head = some (rc, s') ∧
      ((rc = .ok ∧ At Host.input s'.io (pos + e.data.length) tail ∧
          Sim es (done ++ [e]) s'.io.w.disk s'.links s'.lastDir) ∨
        (rc ≠ .ok ∧ ¬ LinksPlaced es)) := by
  have hnew := installable_new hes hsplit
  have hfresh : e ∉ done := fun hin => hnew e hin rfl
  have hsub := mem_of_split hsplit
  have hnone := (hgroup.unmade hcreated).2
  have hcarry : carrier (done ++ [e]) e = some e := by
    rw [carrier_append_of_none hnone, carrier_single, if_pos ⟨sameGroup_self hmem, hdata⟩]
  obtain ⟨s1, hmade, hat1, hlinks1, hbuilt1, hthere, hkeep1⟩ :=
    Built.create (s := { s with links := putGroup s.links (withFile li k e.head.path) }) h.built hes
      hsplit cb hsize (fun _ => hcarry) hat
  have hgroup1 := hgroup.create hmem hfree hcreated hdata hthere hkeep1
  obtain ⟨rc, s2, li2, hcall, hlast, hlinks, hcore, hgroup2, hdirs, hkeep, hok, -⟩ :=
    createLinks_disk hbuilt1.core hgroup1 rfl (fun a ha => hes.proper a (hsub a ha))
      (fun a ha b hb => installable_apart hes a (hsub a ha) b (hsub b hb)) true
  have hreach : ∀ m, reaches s1.io.w.disk m.head.path = true ↔ HasDir (done ++ [e]) (above m) :=
    fun m => hbuilt1.dirs (above m)
  refine ⟨rc, s2, ?_, ?_⟩
  · rw [dataMember, hmade, Option.map_some]
    exact congrArg some hcall
  by_cases hrc : rc = .ok
  · have hat2 := CpioSync.createLinks_at diskSys_fullReads { withFile li k e.head.path with
      createdPath := some k, linksLeft := li.linksLeft - 1 } true hat1
    rw [hcall] at hat2
    refine Or.inl ⟨hrc, hat2, ?_⟩
    rw [hlast, hlinks, hlinks1]
    refine ⟨built_links hbuilt1 hcore hdirs, ?_, h.placed.append hfresh ?_⟩
    · refine h.groups.put hmem hgroup2 ?_ ((h.groups.keyed.putGroup _).putGroup _)
        (fun l => mem_putGroup_twice ?_ ?_)
      · intro a ha hother
        rw [hkeep a (List.mem_append_left _ ha) hother, hkeep1 a ha]
      · rw [hgroup2.inode]
        exact hgroup.inode.symm
      · rw [hgroup2.dev]
        exact hgroup.dev.symm
    · -- nobody in the group has been on the disk, so all of them have waited
      intro _ m hm hsame
      rcases hgroup1.covers m (List.mem_append_left _ hm) hsame with hwait | hdisk
      · exact (hreach m).mp (hok.mp hrc _ hwait)
      · rw [hkeep1 m hm] at hdisk
        obtain ⟨i, hi⟩ := Option.ne_none_iff_exists'.mp hdisk
        obtain ⟨c, hc, -, -⟩ := h.built.core.linked m hm (sameGroup_iff.mp hsame).2.1 i hi
        rw [carrier_congr hsame, hnone] at hc
        cases hc
  · refine Or.inr ⟨hrc, fun hplaced => hrc (hok.mpr ?_)⟩
    intro f hf
    obtain ⟨m, hm, hsame, rfl, habsent⟩ := hgroup1.missing f hf
    rcases List.mem_append.mp hm with hm | hm
    · rw [hreach]
      refine hplaced.2.1 done e rest hsplit ?_ m hm hsame
      rw [hsplit, List.append_cons]
      exact carrier_append_of_some hcarry rest
    · obtain rfl := List.mem_singleton.mp hm
      exact absurd habsent hthere

end Member

/-- One entry: the installation goes on, or it stops at an archive that it cannot install. -/
theorem installEntry_sim (cb : Bool) (hes : Installable es) (hsplit : es = done ++ e :: rest)
    (h : Sim es done s.io.w.disk s.links s.lastDir) (hsize : e.head.size = e.data.length)
    {pos : ℤ} {tail : Str} (hat : At Host.input s.io pos (e.data ++ tail)) :
    ∃ rc s', installEntry diskSys cb s e.head = some (rc, s') ∧
      ((rc = .ok ∧ At Host.input s'.io (pos + e.data.length) tail ∧
          Sim es (done ++ [e]) s'.io.w.disk s'.links s'.lastDir) ∨
        (rc ≠ .ok ∧ ¬ LinksPlaced es)) := by
  cases hmem : isMember e with
  | false =>
    have hlink : isLink e.head = false := hmem
    obtain ⟨s', hrun, hat', hsim⟩ := sim_plain cb hes hsplit h hsize hmem hat
    refine ⟨.ok, s', ?_, Or.inl ⟨rfl, hat', hsim⟩⟩
    simp only [installEntry, hlink, Bool.false_eq_true, if_false, hrun]
  | true =>
    have hlink : isLink e.head = true := hmem
    have he : e ∈ es := by simp [hsplit]
    have hgroup := h.groups.group hmem
      (fun m hm hsame => hes.nlinks m (mem_of_split hsplit m (by simp [hm])) e he hsame)
    obtain ⟨k, hk⟩ := hgroup.slot (members_room hes hsplit hmem)
    obtain ⟨-, hfree⟩ := CpioWaiting.freeSlot hk
    have hzero : e.head.size = 0 ↔ e.data = [] := by
      rw [hsize, List.length_eq_zero_iff]
    simp only [installEntry, hlink, if_true, hk]
    by_cases hdefer : e.head.size = 0 ∧ (groupOf s.links e.head).createdPath = none
    · have hdata := hzero.mp hdefer.1
      rw [if_pos hdefer]
      refine ⟨_, _, rfl, Or.inl ⟨rfl, ?_, sim_defer hes hsplit h hmem hgroup hfree hdata⟩⟩
      rw [hdata] at hat ⊢
      simpa using hat
    · rw [if_neg hdefer]
      by_cases hcreated : (groupOf s.links e.head).createdPath = none
      · have hdata : e.data ≠ [] := fun hnil => hdefer ⟨hzero.mpr hnil, hcreated⟩
        rw [if_neg (not_not_intro hcreated)]
        exact sim_carrier cb hes hsplit h hsize hmem hgroup hfree hcreated hdata hat
      · rw [if_pos hcreated]
        obtain ⟨hat', hsim⟩ := sim_later hes hsplit h hsize hmem hgroup hfree hcreated hat rfl
        exact ⟨_, _, rfl, Or.inl ⟨rfl, hat', hsim⟩⟩

end Entry

end Comodoo.CpioTreeMembers
