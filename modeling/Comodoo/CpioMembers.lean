import Comodoo.CpioErrors
import Comodoo.CpioMade
import Comodoo.LinkSlots

set_option autoImplicit false

/-!
# Hard-link groups and their members

What the list of groups says about the entries so far, and one more entry in a run without a failing
call.
-/
namespace Comodoo.CpioMembers
open CString CpioSystem CpioRead CpioExpand CpioInstall CpioGroups CpioLog CpioErrors CpioFormat
open CpioStream CpioFrame CpioSync CpioQuiet CpioTree CpioMade LinkSlots StepRun

def joins (li : HardLink) (ch : CpioHeader) : Bool := isLink ch && li.holds ch

theorem joins_iff {li : HardLink} {ch : CpioHeader} :
    joins li ch = true ↔ isLink ch = true ∧ li.inode = ch.inode ∧ li.dev = ch.dev := by
  simp [joins, HardLink.holds]

/-- The groups after some entries: no more slots are taken than there have been members, and a group
has its file once a member has come with data. -/
structure Grouped (heads : List CpioHeader) (links : List HardLink) : Prop where
  taken : ∀ li ∈ links, taken li.files ≤ heads.countP (joins li)
  slots : ∀ li ∈ links, ∃ ch ∈ heads, joins li ch = true ∧ li.files.length = ch.nlink.toNat
  known : ∀ ch ∈ heads, isLink ch = true → ∃ li ∈ links, joins li ch = true
  made : ∀ li ∈ links, li.createdPath ≠ none ↔ ∃ ch ∈ heads, joins li ch = true ∧ ch.size ≠ 0

theorem grouped_nil : Grouped [] [] where
  taken := by simp
  slots := by simp
  known := by simp
  made := by simp

section Groups

variable {heads : List CpioHeader} {links links' : List HardLink} {li l : HardLink}
  {ch : CpioHeader}

theorem joins_congr (hinode : li.inode = l.inode) (hdev : li.dev = l.dev) (ch : CpioHeader) :
    joins li ch = joins l ch := by
  rw [joins, joins, HardLink.holds, HardLink.holds, hinode, hdev]

theorem Grouped.group (h : Grouped heads links) (hlink : isLink ch = true) :
    joins (groupOf links ch) ch = true ∧
      LinkSlots.taken (groupOf links ch).files ≤ heads.countP (joins (groupOf links ch)) ∧
      (∃ m ∈ heads ++ [ch], joins (groupOf links ch) m = true ∧
        (groupOf links ch).files.length = m.nlink.toNat) ∧
      ((groupOf links ch).createdPath ≠ none ↔
        ∃ m ∈ heads, joins (groupOf links ch) m = true ∧ m.size ≠ 0) := by
  have hself : joins (groupOf links ch) ch = true :=
    joins_iff.mpr ⟨hlink, groupOf_key links ch⟩
  refine ⟨hself, ?_⟩
  rcases groupOf_cases links ch with hmem | ⟨hfresh, hnone⟩
  · obtain ⟨m, hm, hrest⟩ := h.slots _ hmem
    exact ⟨h.taken _ hmem, ⟨m, List.mem_append_left _ hm, hrest⟩, h.made _ hmem⟩
  · have hnobody : ∀ m ∈ heads, joins (groupOf links ch) m = false := by
      intro m hm
      by_contra hjoins
      rw [Bool.not_eq_false, joins_iff] at hjoins
      obtain ⟨l, hl, hlm⟩ := h.known m hm hjoins.1
      obtain ⟨-, hinode, hdev⟩ := joins_iff.mp hlm
      obtain ⟨hi, hd⟩ := groupOf_key links ch
      exact hnone l hl ⟨hinode.trans (hjoins.2.1.symm.trans hi),
        hdev.trans (hjoins.2.2.symm.trans hd)⟩
    refine ⟨?_, ⟨ch, by simp, hself, ?_⟩, ?_⟩
    · rw [hfresh, taken_fresh]
      exact Nat.zero_le _
    · rw [hfresh]
      exact List.length_replicate
    · refine iff_of_false (by rw [hfresh]; simp [HardLink.fresh]) ?_
      rintro ⟨m, hm, hjoins, -⟩
      rw [hnobody m hm] at hjoins
      cases hjoins

theorem Grouped.plain (h : Grouped heads links) (hlink : isLink ch = false) :
    Grouped (heads ++ [ch]) links := by
  have hout : ∀ li, joins li ch = false := fun li => by rw [joins, hlink, Bool.false_and]
  refine ⟨?_, ?_, ?_, ?_⟩
  · intro li hli
    rw [List.countP_append]
    exact (h.taken li hli).trans (Nat.le_add_right _ _)
  · intro li hli
    obtain ⟨m, hm, hrest⟩ := h.slots li hli
    exact ⟨m, List.mem_append_left _ hm, hrest⟩
  · intro m hm hmem
    rcases List.mem_append.mp hm with hm | hm
    · exact h.known m hm hmem
    · rw [List.mem_singleton.mp hm, hlink] at hmem
      cases hmem
  · intro li hli
    rw [h.made li hli]
    simp [hout]

theorem Grouped.member (h : Grouped heads links) (hlink : isLink ch = true)
    (hinode : li.inode = ch.inode) (hdev : li.dev = ch.dev)
    (htaken : LinkSlots.taken li.files ≤ LinkSlots.taken (groupOf links ch).files + 1)
    (hlength : li.files.length = (groupOf links ch).files.length)
    (hmade : li.createdPath ≠ none ↔ (groupOf links ch).createdPath ≠ none ∨ ch.size ≠ 0)
    (hmem : ∀ l, l ∈ links' ↔ l ∈ putGroup links li) : Grouped (heads ++ [ch]) links' := by
  obtain ⟨hself, htaken0, hslots0, hmade0⟩ := h.group hlink
  obtain ⟨-, hi, hd⟩ := joins_iff.mp hself
  have hsame : ∀ m, joins li m = joins (groupOf links ch) m :=
    joins_congr (hinode.trans hi.symm) (hdev.trans hd.symm)
  have hcases : ∀ l ∈ links', l = li ∨ l ∈ links ∧ joins l ch = false := by
    intro l hl
    refine (mem_putGroup.mp ((hmem l).mp hl)).imp id (fun hold => ⟨hold.1, ?_⟩)
    rw [← Bool.not_eq_true, joins_iff]
    rintro ⟨-, hli, hld⟩
    exact hold.2 ⟨hli.trans hinode.symm, hld.trans hdev.symm⟩
  refine ⟨?_, ?_, ?_, ?_⟩
  · intro l hl
    rw [List.countP_append, List.countP_singleton]
    rcases hcases l hl with rfl | ⟨hold, hout⟩
    · rw [List.countP_congr (fun m _ => by rw [hsame m]), if_pos (by rw [hsame, hself])]
      exact htaken.trans (Nat.add_le_add_right htaken0 1)
    · exact (h.taken l hold).trans (Nat.le_add_right _ _)
  · intro l hl
    rcases hcases l hl with rfl | ⟨hold, -⟩
    · obtain ⟨m, hm, hjoins, hlen⟩ := hslots0
      exact ⟨m, hm, (hsame m).trans hjoins, hlength.trans hlen⟩
    · obtain ⟨m, hm, hrest⟩ := h.slots l hold
      exact ⟨m, List.mem_append_left _ hm, hrest⟩
  · intro m hm hmlink
    by_cases hkey : m.inode = ch.inode ∧ m.dev = ch.dev
    · exact ⟨li, (hmem li).mpr (mem_putGroup.mpr (Or.inl rfl)),
        joins_iff.mpr ⟨hmlink, hinode.trans hkey.1.symm, hdev.trans hkey.2.symm⟩⟩
    · rcases List.mem_append.mp hm with hm | hm
      · obtain ⟨l, hl, hjoins⟩ := h.known m hm hmlink
        obtain ⟨-, hli, hld⟩ := joins_iff.mp hjoins
        refine ⟨l, (hmem l).mpr (mem_putGroup.mpr (Or.inr ⟨hl, ?_⟩)), hjoins⟩
        rintro ⟨hi', hd'⟩
        exact hkey ⟨hli.symm.trans (hi'.trans hinode), hld.symm.trans (hd'.trans hdev)⟩
      · rw [List.mem_singleton.mp hm] at hkey
        exact absurd ⟨rfl, rfl⟩ hkey
  · intro l hl
    simp only [List.mem_append, List.mem_singleton, or_and_right, exists_or, exists_eq_left]
    rcases hcases l hl with rfl | ⟨hold, hout⟩
    · simp only [hsame, hself, true_and]
      rw [hmade, hmade0]
    · rw [h.made l hold]
      simp [hout]

/-- While there have been fewer members than there are to be, the next one finds a free slot. -/
theorem Grouped.free (h : Grouped heads links) (hlink : isLink ch = true)
    (hnlinks : ∀ m ∈ heads, joins (groupOf links ch) m = true → m.nlink = ch.nlink)
    (hroom : (heads.countP (joins (groupOf links ch)) : ℤ) < ch.nlink) :
    ∃ k, (groupOf links ch).files.findIdx? (fun f => f.isNone) = some k := by
  obtain ⟨-, htaken, ⟨m, hm, hjoins, hlen⟩, -⟩ := h.group hlink
  have hnlink : m.nlink = ch.nlink := by
    rcases List.mem_append.mp hm with hm | hm
    · exact hnlinks m hm hjoins
    · rw [List.mem_singleton.mp hm]
  rw [← taken_lt_iff]
  omega

end Groups

/-- The expansions in the log up to the next entry. -/
def expandedNext : List Event → List Call
  | [] => []
  | .selected _ :: _ => []
  | .linked _ _ :: log => expandedNext log
  | .result call _ _ _ :: log =>
    if isExpansion call then call :: expandedNext log else expandedNext log

section Expanded

variable {ch : CpioHeader} {a : Str} {log new : List Event}

def isExpanded : Event → Bool
  | .result call _ _ _ => isExpansion call
  | _ => false

theorem expandedNext_silent (h : ∀ ev ∈ new, isExpanded ev = false) :
    expandedNext (log ++ new) = expandedNext log := by
  induction log with
  | nil =>
    induction new with
    | nil => rfl
    | cons ev new ih =>
      rw [List.forall_mem_cons] at h
      cases ev with
      | selected ch => rfl
      | linked source target => exact ih h.2
      | result call path rc looked =>
        have hcall : ¬ isExpansion call = true := by simpa [isExpanded] using h.1
        change expandedNext (.result call path rc looked :: new) = []
        rw [expandedNext, if_neg hcall]
        exact ih h.2
  | cons ev log ih =>
    cases ev with
    | selected ch => rfl
    | linked source target => exact ih
    | result call path rc looked => rw [List.cons_append, expandedNext, expandedNext, ih]

theorem expansion_isExpansion (ch : CpioHeader) (data : Str) :
    isExpansion (expansion ch data) = true := by
  rw [expansion]
  split
  · rfl
  · split <;> rfl

/-- An entry that is made has one expansion, that of its data. -/
theorem expandedNext_made (h : ∀ ev ∈ new, isExpanded ev = false) :
    expandedNext (madeEvents ch a ++ new) = [expansion ch a] := by
  rw [expandedNext_silent h]
  simp only [madeEvents, expandedNext, expansion_isExpansion, if_true]
  rfl

theorem madeEvents_plain : ∀ ev ∈ madeEvents ch a, isSelected ev = false := by
  simp [madeEvents, isSelected]

theorem linkEvents_silent {W : Type} (S : Sys W) (s : St W) (li : HardLink) (looked : Bool) :
    ∀ ev ∈ linkEvents S s li looked, isExpanded ev = false := by
  intro ev hev
  simp only [linkEvents, List.mem_append, List.mem_map, List.mem_singleton] at hev
  rcases hev with ⟨f, -, rfl⟩ | rfl <;> rfl

end Expanded

section Install

variable {W : Type} {S : Sys W} {stream : W → Str} {quiet : W → Bool} {pos : ℤ} {a rest : Str}
  {ch : CpioHeader} {heads : List CpioHeader} {s : St W}

/-- What one entry leaves behind when no call has failed. -/
structure Installed (S : Sys W) (stream : W → Str) (cb : Bool) (heads : List CpioHeader) (pos : ℤ)
    (rest : Str) (ch : CpioHeader) (data : Str) (s s' : St W) : Prop where
  kept : entryKept S cb s ch = true
  place : At stream s'.io pos rest
  groups : Grouped (heads ++ [ch]) s'.links
  log : ∃ new, s'.log = s.log ++ new ∧ (∀ ev ∈ new, isSelected ev = false) ∧
    (expandedNext new = [expansion ch data] ∨ isLink ch = true ∧ expandedNext new = [])

theorem plainEntry_made (hF : FullReads S stream) (hQ : Watched S quiet) (cb : Bool)
    (hlink : isLink ch = false) (hfile : Suits ch a) (h : At stream s.io pos (a ++ rest))
    (hg : Grouped heads s.links) :
    ∃ rc s', installEntry S cb s ch = some (rc, s') ∧ (quiet s'.io.w = true →
      rc = .ok ∧ Installed S stream cb heads (pos + a.length) rest ch a s s') := by
  obtain ⟨rc, s', hrun, hmade⟩ := createFile_made hF hQ cb hfile h
  have hlink' : ¬ isLink ch = true := by simp [hlink]
  refine ⟨rc, s', by rw [installEntry, if_neg hlink', hrun], fun hquiet => ?_⟩
  obtain ⟨rfl, hlog⟩ := hmade hquiet
  obtain ⟨hlinks, -⟩ := createFile_log cb hrun
  refine ⟨rfl, by rw [entryKept, if_neg hlink'], ?_, ?_, madeEvents ch a, hlog, madeEvents_plain, ?_⟩
  · exact createFile_at hF cb hfile.size hfile.empty h (createFile_canCreate cb hrun) hrun
  · rw [hlinks]
    exact hg.plain hlink
  · left
    rw [← List.append_nil (madeEvents ch a)]
    exact expandedNext_made (by simp)

theorem createLinks_group (s : St W) (li : HardLink) (looked : Bool) :
    ∃ li', (createLinks S s li looked).2.links = putGroup s.links li' ∧ li'.inode = li.inode ∧
      li'.dev = li.dev ∧ li'.createdPath = li.createdPath ∧
      LinkSlots.taken li'.files ≤ LinkSlots.taken li.files ∧
      li'.files.length = li.files.length := by
  obtain ⟨htaken, hlen⟩ := taken_linkFiles S li.source (li.createdPath.getD 0) 0 li.files s.io.w
  refine ⟨_, rfl, rfl, rfl, rfl, ?_, hlen⟩
  dsimp only
  omega

section Member

variable {k : ℕ}

/-- The group with the name of the entry in its slot. -/
def named (links : List HardLink) (ch : CpioHeader) (k : ℕ) : HardLink :=
  { groupOf links ch with files := (groupOf links ch).files.set k (some ch.path) }

def filledBy (links : List HardLink) (ch : CpioHeader) (k : ℕ) : HardLink :=
  { named links ch k with
    createdPath := some k
    linksLeft := (named links ch k).linksLeft - 1 }

theorem named_key (links : List HardLink) (ch : CpioHeader) (k : ℕ) :
    (named links ch k).inode = ch.inode ∧ (named links ch k).dev = ch.dev :=
  groupOf_key links ch

theorem named_slots {links : List HardLink}
    (hfree : (groupOf links ch).files.findIdx? (fun f => f.isNone) = some k) :
    LinkSlots.taken (named links ch k).files = LinkSlots.taken (groupOf links ch).files + 1 ∧
      (named links ch k).files.length = (groupOf links ch).files.length :=
  ⟨taken_set ch.path hfree, List.length_set ..⟩

theorem entryKept_member (cb : Bool) (hlink : isLink ch = true)
    (hfree : (groupOf s.links ch).files.findIdx? (fun f => f.isNone) = some k) :
    entryKept S cb s ch =
      if ch.size = 0 ∧ (groupOf s.links ch).createdPath = none then true
      else if (groupOf s.links ch).createdPath ≠ none then
        decide ((createLinks S { s with links := putGroup s.links (named s.links ch k) }
            (named s.links ch k) false).1 = .ok ∧
          (ch.size = 0 ∨ (eatBytes S (createLinks S { s with
            links := putGroup s.links (named s.links ch k) } (named s.links ch k) false).2.io
              ch.size).1 = .ok))
      else (createFile S cb { s with links := putGroup s.links (named s.links ch k) } ch).all
        (fun r => r.1 = .ok) := by
  rw [entryKept, if_pos hlink]
  dsimp only
  rw [hfree]
  rfl

theorem laterMember_log (s : St W) (li : HardLink) (ch : CpioHeader) :
    ∃ new, (laterMember S s li ch).log = s.log ++ new ∧ (∀ ev ∈ new, isSelected ev = false) ∧
      ∀ ev ∈ new, isExpanded ev = false := by
  obtain ⟨hlog, hsel, -⟩ := createLinks_log (S := S) s li false
  have hsilent := linkEvents_silent S s li false
  rw [laterMember]
  dsimp only
  split
  · exact ⟨_, hlog, hsel, hsilent⟩
  · refine ⟨_, by rw [hlog, List.append_assoc], ?_, ?_⟩
    · intro ev hev
      rcases List.mem_append.mp hev with hev | hev
      · exact hsel ev hev
      · rw [List.mem_singleton.mp hev]
        rfl
    · intro ev hev
      rcases List.mem_append.mp hev with hev | hev
      · exact hsilent ev hev
      · rw [List.mem_singleton.mp hev]
        rfl

theorem deferred_made (cb : Bool) (hlink : isLink ch = true)
    (hfree : (groupOf s.links ch).files.findIdx? (fun f => f.isNone) = some k)
    (hdefer : ch.size = 0 ∧ (groupOf s.links ch).createdPath = none) (hsize : ch.size = a.length)
    (h : At stream s.io pos (a ++ rest)) (hg : Grouped heads s.links) :
    Installed S stream cb heads (pos + a.length) rest ch a s
      { s with links := putGroup s.links (named s.links ch k) } := by
  obtain rfl : a = [] := List.length_eq_zero_iff.mp (by omega)
  obtain ⟨htaken, hlen⟩ := named_slots hfree
  obtain ⟨hi, hd⟩ := named_key s.links ch k
  refine ⟨?_, by simpa using h, ?_, [], by simp, by simp, Or.inr ⟨hlink, rfl⟩⟩
  · rw [entryKept_member cb hlink hfree, if_pos hdefer]
  · refine hg.member hlink hi hd htaken.le hlen ?_ (fun _ => Iff.rfl)
    exact iff_of_false (not_not.mpr hdefer.2) (by simp [hdefer])

theorem laterMember_made (hF : FullReads S stream) (hQ : Watched S quiet) (cb : Bool)
    (hlink : isLink ch = true)
    (hfree : (groupOf s.links ch).files.findIdx? (fun f => f.isNone) = some k)
    (hlater : (groupOf s.links ch).createdPath ≠ none) (hsize : ch.size = a.length)
    (h : At stream s.io pos (a ++ rest)) (hg : Grouped heads s.links)
    (hquiet : quiet (laterMember S { s with links := putGroup s.links (named s.links ch k) }
      (named s.links ch k) ch).io.w = true) :
    Installed S stream cb heads (pos + a.length) rest ch a s
      (laterMember S { s with links := putGroup s.links (named s.links ch k) }
        (named s.links ch k) ch) := by
  have hat : At stream ({ s with links := putGroup s.links (named s.links ch k) } : St W).io pos
    (a ++ rest) := h
  generalize hs1 : ({ s with links := putGroup s.links (named s.links ch k) } : St W) = s1 at *
  have hlog1 : s1.log = s.log := by rw [← hs1]
  have hlinks1 : s1.links = putGroup s.links (named s.links ch k) := by rw [← hs1]
  obtain ⟨htaken, hlen⟩ := named_slots hfree
  obtain ⟨hi, hd⟩ := named_key s.links ch k
  obtain ⟨-, hok⟩ := laterMember_quiet hQ hquiet
  obtain ⟨li', hput, hinode, hdev, hcreated, htaken', hlen'⟩ :=
    createLinks_group (S := S) s1 (named s.links ch k) false
  have hlinked := createLinks_at (S := S) hF (named s.links ch k) false hat
  obtain ⟨io', heat, -, -⟩ := eatBytes_at hF hlinked
  obtain ⟨hlog, hsel, -⟩ := createLinks_log (S := S) s1 (named s.links ch k) false
  have hlast : (laterMember S s1 (named s.links ch k) ch).links =
      (createLinks S s1 (named s.links ch k) false).2.links := by
    rw [laterMember]
    split <;> rfl
  refine ⟨?_, laterMember_at hF _ hsize hat, ?_, ?_⟩
  · have hnot : ¬ (ch.size = 0 ∧ (groupOf s.links ch).createdPath = none) := fun h => hlater h.2
    rw [entryKept_member cb hlink hfree, if_neg hnot, if_pos hlater, decide_eq_true_iff, hs1, hsize,
      heat]
    exact ⟨hok, Or.inr rfl⟩
  · rw [hlast, hput]
    refine hg.member hlink (hinode.trans hi) (hdev.trans hd) (htaken'.trans htaken.le)
      (hlen'.trans hlen) ?_ ?_
    · rw [hcreated]
      exact iff_of_true hlater (Or.inl hlater)
    · intro l
      rw [hlinks1]
      exact mem_putGroup_twice hinode hdev
  · obtain ⟨new, hnew, hplain, hsilent⟩ := laterMember_log (S := S) s1 (named s.links ch k) ch
    have hnext : expandedNext ([] ++ new) = expandedNext [] := expandedNext_silent hsilent
    exact ⟨new, by rw [hnew, hlog1], hplain, Or.inr ⟨hlink, hnext⟩⟩

theorem dataMember_made (hF : FullReads S stream) (hQ : Watched S quiet) (cb : Bool)
    (hlink : isLink ch = true)
    (hfree : (groupOf s.links ch).files.findIdx? (fun f => f.isNone) = some k)
    (hdefer : ¬ (ch.size = 0 ∧ (groupOf s.links ch).createdPath = none))
    (hnone : (groupOf s.links ch).createdPath = none) (hfile : Suits ch a)
    (h : At stream s.io pos (a ++ rest)) (hg : Grouped heads s.links) :
    ∃ rc s', dataMember S cb { s with links := putGroup s.links (named s.links ch k) }
        (named s.links ch k) k ch = some (rc, s') ∧ (quiet s'.io.w = true →
      rc = .ok ∧ Installed S stream cb heads (pos + a.length) rest ch a s s') := by
  have hat : At stream ({ s with links := putGroup s.links (named s.links ch k) } : St W).io pos
    (a ++ rest) := h
  obtain ⟨rc1, s2, hcreate, hmade⟩ := createFile_made hF hQ cb hfile hat
  refine ⟨(createLinks S s2 (filledBy s.links ch k) true).1,
    (createLinks S s2 (filledBy s.links ch k) true).2, by rw [dataMember, hcreate]; rfl,
    fun hquiet => ?_⟩
  generalize hli : filledBy s.links ch k = li at hquiet ⊢
  obtain ⟨hs2, hok⟩ := before (createLinks_quiet hQ s2 li true) hquiet
  obtain ⟨rfl, hlog2⟩ := hmade hs2
  obtain ⟨hlinks2, -⟩ := createFile_log cb hcreate
  obtain ⟨htaken, hlen⟩ := named_slots hfree
  obtain ⟨hi, hd⟩ := named_key s.links ch k
  obtain ⟨hlog, hsel, -⟩ := createLinks_log (S := S) s2 li true
  obtain ⟨li', hput, hinode, hdev, hcreated, htaken', hlen'⟩ := createLinks_group (S := S) s2 li true
  have hfiles : li.files = (named s.links ch k).files := by rw [← hli, filledBy]
  have hkey : li.inode = (named s.links ch k).inode ∧ li.dev = (named s.links ch k).dev := by
    rw [← hli, filledBy]
    exact ⟨rfl, rfl⟩
  refine ⟨of_decide_eq_true hok, ?_, ?_, ?_, ?_⟩
  · rw [entryKept_member cb hlink hfree, if_neg hdefer, if_neg (not_not.mpr hnone), hcreate]
    rfl
  · exact createLinks_at hF li true
      (createFile_at hF cb hfile.size hfile.empty hat (createFile_canCreate cb hcreate) hcreate)
  · rw [hput]
    refine hg.member hlink (hinode.trans (hkey.1.trans hi)) (hdev.trans (hkey.2.trans hd)) ?_ ?_ ?_ ?_
    · rw [hfiles] at htaken'
      exact htaken'.trans htaken.le
    · rw [hlen', hfiles, hlen]
    · have hsome : li.createdPath = some k := by rw [← hli, filledBy]
      rw [hcreated, hsome]
      exact iff_of_true (by simp) (Or.inr fun hzero => hdefer ⟨hzero, hnone⟩)
    · intro l
      rw [hlinks2]
      exact mem_putGroup_twice (hinode.trans hkey.1) (hdev.trans hkey.2)
  · refine ⟨madeEvents ch a ++ linkEvents S s2 li true, by rw [hlog, hlog2, List.append_assoc], ?_,
      Or.inl (expandedNext_made (linkEvents_silent S s2 li true))⟩
    intro ev hev
    rcases List.mem_append.mp hev with hev | hev
    · exact madeEvents_plain ev hev
    · exact hsel ev hev

end Member

theorem installEntry_made (hF : FullReads S stream) (hQ : Watched S quiet) (cb : Bool)
    (hfile : Suits ch a)
    (hroom : isLink ch = true → ∃ k,
      (groupOf s.links ch).files.findIdx? (fun f => f.isNone) = some k)
    (h : At stream s.io pos (a ++ rest)) (hg : Grouped heads s.links) :
    ∃ rc s', installEntry S cb s ch = some (rc, s') ∧ (quiet s'.io.w = true →
      rc = .ok ∧ Installed S stream cb heads (pos + a.length) rest ch a s s') := by
  by_cases hlink : isLink ch = true
  · obtain ⟨k, hfree⟩ := hroom hlink
    rw [installEntry, if_pos hlink]
    dsimp only
    rw [hfree]
    dsimp only
    by_cases hdefer : ch.size = 0 ∧ (groupOf s.links ch).createdPath = none
    · rw [if_pos hdefer]
      exact ⟨_, _, rfl, fun _ => ⟨rfl, deferred_made cb hlink hfree hdefer hfile.size h hg⟩⟩
    · rw [if_neg hdefer]
      by_cases hlater : (groupOf s.links ch).createdPath ≠ none
      · rw [if_pos hlater]
        exact ⟨_, _, rfl, fun hquiet =>
          ⟨rfl, laterMember_made hF hQ cb hlink hfree hlater hfile.size h hg hquiet⟩⟩
      · rw [if_neg hlater]
        exact dataMember_made hF hQ cb hlink hfree hdefer (not_not.mp hlater) hfile h hg
  · exact plainEntry_made hF hQ cb (by simpa using hlink) hfile h hg

end Install

end Comodoo.CpioMembers
