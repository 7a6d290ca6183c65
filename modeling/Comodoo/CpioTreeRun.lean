import Comodoo.CpioTreeMembers

set_option autoImplicit false

/-!
# A whole archive

The loop over the entries, and the sweep over the groups at its end.
-/
namespace Comodoo.CpioTreeRun
open CString CpioSystem CpioRead CpioExpand CpioInstall CpioGroups CpioFormat CpioStream CpioDisk
open CpioDiskCalls CpioDiskFiles CpioDiskLinks CpioTree CpioTreeGroups CpioTreeSteps
open CpioTreeMembers FilePath StepRun

def itemOf (e : Entry) : Item := ⟨e.header, e.data⟩

section Round

variable {W : Type} {S : Sys W} {s s1 : St W} {io : Io W} {ch ch' : CpioHeader} {phys : Str}
  {rc : Rc} {mappings : Option (List FileMapping)}

theorem loopBody_entry (cb : Bool) (hget : getNextHeader S s.io = (.header ch phys, io))
    (hne : ch.path ≠ TRAILER) (hsel : selectEntry mappings ch = some ch')
    (hrun : installEntry S cb { s with io := io, log := s.log ++ [.selected ch'] } ch' =
      some (rc, s1)) :
    loopBody S cb mappings s = finishEntry S cb rc (recordFailure S rc s1 ch') ch' := by
  rw [loopBody, hget]
  simp only [hne, if_false, hsel, hrun]

theorem loopBody_last (cb : Bool) (hget : getNextHeader S s.io = (.header ch phys, io))
    (htrail : ch.path = TRAILER) :
    loopBody S cb mappings s = .stopped (.ended .ok, { s with io := io }) := by
  rw [loopBody, hget]
  simp only [htrail, if_true]

end Round

section Loop

variable {es done rest : List Item} {e : Entry} {s : St Host} {pos : ℤ} {tail : Str}
  {mappings : Option (List FileMapping)} {ch : CpioHeader}

theorem loopBody_sim (cb : Bool) (hes : Installable es)
    (hsel : selectEntry mappings e.header = some ch) (hsize : ch.size = e.header.size)
    (hsplit : es = done ++ ⟨ch, e.data⟩ :: rest)
    (h : Sim es done s.io.w.disk s.links s.lastDir) (he : e.WellFormed) (hfits : e.NameFits)
    (hne : e.path ≠ TRAILER) (hpos : pos % 4 = 0) (hat : At Host.input s.io pos (e.encode ++ tail)) :
    (∃ s', loopBody diskSys cb mappings s = .running s' ∧
      At Host.input s'.io (pos + e.encode.length) tail ∧
      Sim es (done ++ [⟨ch, e.data⟩]) s'.io.w.disk s'.links s'.lastDir) ∨
    (∃ rc s', loopBody diskSys cb mappings s = .stopped (.ended rc, s') ∧ rc ≠ .ok ∧
      ¬ LinksPlaced es) := by
  have hpath : e.header.path = e.path := by rw [Entry.header]
  obtain ⟨io1, hget, hat1, -⟩ := getNextHeader_at diskSys_fullReads he hfits hat hpos
  have hdisk := getNextHeader_keeps diskSys_unread s.io
  rw [hget] at hdisk
  change io1.w.disk = s.io.w.disk at hdisk
  rw [← hdisk] at h
  obtain ⟨rc, s1, hrun, hcases⟩ := installEntry_sim
    (s := { s with io := io1, log := s.log ++ [.selected ch] }) cb hes hsplit h
    (hsize.trans he.header_size) hat1
  rw [loopBody_entry cb hget (by rw [hpath]; exact hne) hsel hrun]
  rcases hcases with ⟨rfl, hat2, hsim⟩ | ⟨hrc, hnot⟩
  · left
    obtain ⟨hat3, -⟩ := padinfd_at diskSys_fullReads hat2 (padAmount_data he hpos)
    have hkeep := padinfd_keeps diskSys_unread s1.io 4
    rw [← hkeep] at hsim
    simp only [recordFailure, finishEntry, ne_eq, not_true_eq_false, false_and, if_false, if_true]
    refine ⟨_, rfl, ?_, ?_⟩
    · rw [encode_length he]
      split
      · exact hat3.move rfl rfl
      · exact hat3
    · split <;> exact hsim
  · right
    rw [finishEntry, if_neg hrc]
    exact ⟨rc, _, rfl, hrc, hnot⟩

theorem loopBody_end (mappings : Option (List FileMapping)) (cb : Bool) {t : Entry}
    (ht : t.WellFormed) (hfits : t.NameFits) (htrail : t.path = TRAILER)
    (hpos : pos % 4 = 0) (hat : At Host.input s.io pos (t.encode ++ tail)) :
    ∃ s', loopBody diskSys cb mappings s = .stopped (.ended .ok, s') ∧
      s'.io.w.disk = s.io.w.disk ∧ s'.links = s.links ∧ s'.lastDir = s.lastDir ∧
      s'.log = s.log := by
  have hpath : t.header.path = TRAILER := by rw [← htrail, Entry.header]
  obtain ⟨io1, hget, -, -⟩ := getNextHeader_at diskSys_fullReads ht hfits hat hpos
  have hdisk := getNextHeader_keeps diskSys_unread s.io
  rw [hget] at hdisk
  exact ⟨{ s with io := io1 }, loopBody_last cb hget hpath, hdisk, rfl, rfl, rfl⟩

/-- The loop reads all entries, or stops at an archive that it cannot install. -/
theorem run_sim (cb : Bool) (hes : Installable es) (todo : List Entry)
    (hsplit : es = done ++ todo.map itemOf)
    (h : Sim es done s.io.w.disk s.links s.lastDir)
    (htodo : ∀ e ∈ todo, e.WellFormed ∧ e.NameFits ∧ e.path ≠ TRAILER) {t : Entry}
    (ht : t.WellFormed) (hfits : t.NameFits) (htrail : t.path = TRAILER) (hpos : pos % 4 = 0)
    (hat : At Host.input s.io pos (encodeAll todo ++ (t.encode ++ tail))) {fuel : ℕ}
    (hfuel : todo.length < fuel) :
    (∃ s', installLoop diskSys cb none fuel s = .stopped (.ended .ok, s') ∧
      Sim es es s'.io.w.disk s'.links s'.lastDir) ∨
    (∃ rc s', installLoop diskSys cb none fuel s = .stopped (.ended rc, s') ∧ rc ≠ .ok ∧
      ¬ LinksPlaced es) := by
  induction todo generalizing done s pos fuel with
  | nil =>
    obtain ⟨fuel, rfl⟩ := Nat.exists_eq_succ_of_ne_zero (Nat.ne_of_gt hfuel)
    obtain ⟨s', hbody, hdisk, hlinks, hlast, -⟩ := loopBody_end none cb ht hfits htrail hpos hat
    left
    refine ⟨s', by rw [installLoop, List.replicate_succ, run_cons_stopped _ hbody], ?_⟩
    rw [List.map_nil, List.append_nil] at hsplit
    subst hsplit
    rw [hdisk, hlinks, hlast]
    exact h
  | cons e todo ih =>
    obtain ⟨fuel, rfl⟩ := Nat.exists_eq_succ_of_ne_zero (Nat.ne_of_gt (Nat.zero_lt_of_lt hfuel))
    obtain ⟨he, hfite, hne⟩ := htodo e (by simp)
    have halign := he.aligned.2
    rw [encodeAll_cons, List.append_assoc] at hat
    rw [installLoop, List.replicate_succ]
    have hsel : selectEntry none e.header = some e.header := rfl
    rcases loopBody_sim cb hes hsel rfl hsplit h he hfite hne hpos hat with
      ⟨s', hbody, hat', hsim⟩ | ⟨rc, s', hbody, hrc, hnot⟩
    · rw [run_cons_running _ hbody]
      exact ih (by rw [hsplit]; simp [itemOf]) hsim (fun x hx => htodo x (by simp [hx])) (by omega)
        hat' (by simpa using hfuel)
    · right
      exact ⟨rc, s', by rw [run_cons_stopped _ hbody], hrc, hnot⟩

end Loop

section Sweep

variable {es : List Item}

def Ready (d : Disk) (li : HardLink) : Prop :=
  li.createdPath ≠ none ∧ ∀ f ∈ waits li, reaches d f = true

theorem group_finished (hes : Installable es) {d : Disk} {e : Item} {li : HardLink} (he : e ∈ es)
    (hmem : isMember e = true) (h : Group es d e li) (hleft : li.linksLeft = 0) :
    li.createdPath ≠ none ∧ waits li = [] := by
  have hnlink := isMember_nlink hmem
  have hcount := hes.members e he hmem
  have hall := h.left
  rw [members] at hall
  refine ⟨?_, List.length_eq_zero_iff.mp (by omega)⟩
  intro hnone
  have hunmade := (h.unmade hnone).1
  omega

/-- Groups that are still to be swept, and the members of the others on the disk. -/
structure Sweep (es : List Item) (d : Disk) (links : List HardLink) : Prop where
  core : Core es d
  dirs : ∀ cs, d.isDir cs = true ↔ HasDir es cs
  keyed : Keyed links
  each : ∀ li ∈ links, ∃ e ∈ es, isMember e = true ∧ Group es d e li
  known : ∀ m ∈ es, isMember m = true → d.ino (place m) ≠ none ∨
    ∃ li ∈ links, li.inode = m.head.inode ∧ li.dev = m.head.dev

theorem Sweep.tail {d : Disk} {li : HardLink} {links : List HardLink}
    (h : Sweep es d (li :: links)) {e : Item} (hgroup : Group es d e li) (hmem : isMember e = true)
    (hwaits : waits li = []) : Sweep es d links where
  core := h.core
  dirs := h.dirs
  keyed := (List.pairwise_cons.mp h.keyed).2
  each l hl := h.each l (by simp [hl])
  known m hm hmmem := by
    rcases h.known m hm hmmem with hthere | ⟨l, hl, hinode, hdev⟩
    · exact Or.inl hthere
    · rcases List.mem_cons.mp hl with rfl | hl
      · left
        have hsame : sameGroup e m = true := sameGroup_iff.mpr ⟨hmem, hmmem,
          hinode.symm.trans hgroup.inode, hdev.symm.trans hgroup.dev⟩
        rcases hgroup.covers m hm hsame with hwait | hthere
        · rw [hwaits] at hwait
          cases hwait
        · exact hthere
      · exact Or.inr ⟨l, hl, hinode, hdev⟩

theorem Sweep.linked {d d' : Disk} {li li' : HardLink} {links : List HardLink}
    (h : Sweep es d (li :: links)) {e : Item} (he : e ∈ es) (hmem : isMember e = true)
    (hold : Group es d e li) (hgroup : Group es d' e li')
    (hcore : Core es d') (hdirs : ∀ x, d'.isDir x = d.isDir x)
    (hkeep : ∀ a ∈ es, sameGroup e a = false → d'.ino (place a) = d.ino (place a)) :
    Sweep es d' (li' :: links) := by
  obtain ⟨hhead, htail⟩ := List.pairwise_cons.mp h.keyed
  have hinode := hgroup.inode.trans hold.inode.symm
  have hdev := hgroup.dev.trans hold.dev.symm
  refine ⟨hcore, fun x => by rw [hdirs, h.dirs], ?_, ?_, ?_⟩
  · refine List.pairwise_cons.mpr ⟨?_, htail⟩
    rw [hinode, hdev]
    exact hhead
  · intro l hl
    rcases List.mem_cons.mp hl with rfl | hl
    · exact ⟨e, he, hmem, hgroup⟩
    · obtain ⟨m, hm, hmmem, hrest⟩ := h.each l (by simp [hl])
      refine ⟨m, hm, hmmem, hrest.move (fun a ha hsame => hkeep a ha ?_)⟩
      exact hold.disjoint hrest (fun hkey => hhead l hl ⟨hkey.1.symm, hkey.2.symm⟩) hsame
  · intro m hm hmmem
    cases hsame : sameGroup e m with
    | true =>
      obtain ⟨-, -, hi, hd⟩ := sameGroup_iff.mp hsame
      exact Or.inr ⟨li', by simp, hgroup.inode.trans hi.symm, hgroup.dev.trans hd.symm⟩
    | false =>
      rw [hkeep m hm hsame]
      refine (h.known m hm hmmem).imp_right ?_
      rintro ⟨l, hl, hi, hd⟩
      rcases List.mem_cons.mp hl with rfl | hl
      · exact ⟨li', by simp, hinode.trans hi, hdev.trans hd⟩
      · exact ⟨l, by simp [hl], hi, hd⟩

theorem sweepLinks_sim (hes : Installable es) (links : List HardLink) {s : St Host}
    (h : Sweep es s.io.w.disk links) :
    ∃ rc s', sweepLinks diskSys links s = (rc, s') ∧
      (rc = .ok → Sweep es s'.io.w.disk []) ∧
      (rc = .ok ↔ ∀ li ∈ links, Ready s.io.w.disk li) := by
  induction links generalizing s with
  | nil => exact ⟨.ok, s, rfl, fun _ => h, by simp⟩
  | cons li links ih =>
    obtain ⟨e, he, hmem, hgroup⟩ := h.each li (by simp)
    rw [sweepLinks]
    by_cases hleft : li.linksLeft = 0
    · obtain ⟨hcreated, hwaits⟩ := group_finished hes he hmem hgroup hleft
      have hready : Ready s.io.w.disk li := ⟨hcreated, by simp [hwaits]⟩
      obtain ⟨rc, s', hrun, hdone, hok⟩ := ih (h.tail hgroup hmem hwaits)
      refine ⟨rc, s', by rw [if_neg (not_not_intro hleft), hrun], hdone, ?_⟩
      rw [hok, List.forall_mem_cons]
      simp only [hready, true_and]
    · rw [if_pos hleft]
      cases hcreated : li.createdPath with
      | none =>
        rw [if_pos rfl]
        refine ⟨.internal, s, rfl, nofun, nofun, ?_⟩
        intro hready
        exact absurd hcreated (hready li (by simp)).1
      | some k =>
        rw [if_neg (Option.some_ne_none k)]
        obtain ⟨rc, s1, li1, hcall, -, -, hcore, hgroup1, hdirs, hkeep, hok, hempty⟩ :=
          createLinks_disk h.core hgroup hcreated hes.proper (installable_apart hes) true
        rw [hcall]
        by_cases hrc : rc = .ok
        · subst hrc
          have hsweep := (h.linked he hmem hgroup hgroup1 hcore hdirs hkeep).tail hgroup1
            hmem (hempty rfl)
          have hready : Ready s.io.w.disk li := ⟨by simp [hcreated], hok.mp rfl⟩
          have hsame : ∀ l, Ready s1.io.w.disk l ↔ Ready s.io.w.disk l := by
            intro l
            simp only [Ready, reaches, hdirs]
          obtain ⟨rc, s', hrun, hdone, hok'⟩ := ih hsweep
          refine ⟨rc, s', hrun, hdone, ?_⟩
          rw [hok', List.forall_mem_cons]
          simp only [hready, true_and, hsame]
        · refine ⟨rc, s1, ?_, fun hok' => absurd hok' hrc, fun hok' => absurd hok' hrc, ?_⟩
          · cases rc <;> first | rfl | exact absurd rfl hrc
          · intro hready
            exact absurd (hok.mpr (hready li (by simp)).2) hrc

end Sweep

end Comodoo.CpioTreeRun
