import Comodoo.CpioErrors

set_option autoImplicit false

/-!
# The slots of hard links

`myCpioInstallArchive` puts the name of a member into the first free slot of its group. The ledger
is not part of the program; it is kept from the log alone.
-/
namespace Comodoo.LinkSlots
open CString CpioSystem CpioRead CpioExpand CpioInstall CpioFormat CpioStream CpioGroups CpioLog
open StepRun

/-- The index the search ends with; behind the last slot when none is free. -/
def firstFree (li : HardLink) : ℕ := (li.files.findIdx? (fun f => f.isNone)).getD li.nlink

/-- The device and the inode. -/
abbrev File := ℕ × ℕ

def file (ch : CpioHeader) : File := (ch.dev, ch.inode)

/-- For every file with members in the log, the number of links its first one speaks of, and how
many names have been listed that no link has been made for. `current` is the file of the last entry
if that is a member. -/
structure Ledger where
  current : Option File
  names : File → Option (ℕ × ℕ)

def Ledger.note (l : Ledger) : Event → Ledger
  | .selected ch =>
    if isLink ch then
      let (nlink, listed) := (l.names (file ch)).getD (ch.nlink.toNat, 0)
      ⟨some (file ch), Function.update l.names (file ch) (some (nlink, listed + 1))⟩
    else { l with current := none }
  | .linked _ _ =>
    match l.current with
    | none => l
    | some f =>
      { l with names := Function.update l.names f ((l.names f).map fun n => (n.1, n.2 - 1)) }
  | .result _ _ _ _ => l

def ledger (log : List Event) : Ledger := log.foldl Ledger.note ⟨none, fun _ => none⟩

variable {W : Type} (S : Sys W)

/-- The member of a hard-link group that the next round selects. -/
def nextMember (mappings : Option (List FileMapping)) (s : St W) : Option CpioHeader :=
  match getNextHeader S s.io with
  | (.header ch _, _) =>
    if ch.path = TRAILER then none else (selectEntry mappings ch).filter isLink
  | _ => none

section
variable (cb : Bool) (mappings : Option (List FileMapping)) (w : W) (lastDir : Option Str)

/-- In every round the slot is one of the array. -/
def SlotsBelow : Prop := ∀ rounds s ch,
  installLoop S cb mappings rounds (startState w lastDir) = .running s →
    nextMember S mappings s = some ch →
      firstFree (groupOf s.links ch) < (groupOf s.links ch).nlink

/-- Whenever a member comes, fewer names of its file wait for a link than the first member speaks
of. -/
def Room : Prop := ∀ rounds s ch,
  installLoop S cb mappings rounds (startState w lastDir) = .running s →
    nextMember S mappings s = some ch →
      ∀ nlink listed, (ledger s.log).names (file ch) = some (nlink, listed) → listed < nlink

end

section Groups
variable {links : List HardLink} {li : HardLink} {ch : CpioHeader} {f : File}

def groupAt (links : List HardLink) (f : File) : Option HardLink :=
  links.find? fun li => li.dev = f.1 ∧ li.inode = f.2

def HardLink.file (li : HardLink) : File := (li.dev, li.inode)

def taken (files : List (Option Str)) : ℕ := files.countP Option.isSome

theorem groupOf_eq (links : List HardLink) (ch : CpioHeader) :
    groupOf links ch = (groupAt links (file ch)).getD (.fresh ch) := by
  rw [groupOf, groupAt]
  congr 2
  funext li
  simp [HardLink.holds, file, and_comm]

theorem groupAt_cons (li : HardLink) (links : List HardLink) (f : File) :
    groupAt (li :: links) f = if f = HardLink.file li then some li else groupAt links f := by
  have hkey : (li.dev = f.1 ∧ li.inode = f.2) ↔ f = HardLink.file li := by
    rw [HardLink.file, Prod.ext_iff]
    exact and_congr eq_comm eq_comm
  rw [groupAt, List.find?_cons]
  by_cases hf : f = HardLink.file li
  · rw [if_pos hf, decide_eq_true (hkey.mpr hf)]
  · rw [if_neg hf, decide_eq_false (mt hkey.mp hf)]
    rfl

/-- The group that is written back is the one of its file, and those of the others stay. -/
theorem groupAt_putGroup (links : List HardLink) (li : HardLink) (f : ℕ × ℕ) :
    groupAt (putGroup links li) f = if f = HardLink.file li then some li else groupAt links f := by
  have hkey : ∀ l : HardLink, (l.inode = li.inode ∧ l.dev = li.dev) ↔
      HardLink.file l = HardLink.file li := by
    intro l
    rw [HardLink.file, HardLink.file, Prod.ext_iff, and_comm]
  rw [putGroup]
  split
  · rename_i hany
    simp only [hkey] at hany ⊢
    induction links with
    | nil => cases hany
    | cons l links ih =>
      rw [List.map_cons, groupAt_cons, groupAt_cons]
      by_cases hl : HardLink.file l = HardLink.file li
      · rw [if_pos hl, hl]
        split_ifs with hf
        · rfl
        · -- groups of other files are not touched
          clear ih hany
          induction links with
          | nil => rfl
          | cons l' links ih =>
            rw [List.map_cons, groupAt_cons, groupAt_cons, ih]
            by_cases hl' : HardLink.file l' = HardLink.file li
            · rw [if_pos hl', if_neg hf, hl', if_neg hf]
            · rw [if_neg hl']
      · have hrest : links.any (fun l => decide (HardLink.file l = HardLink.file li)) = true := by
          simpa [hl] using hany
        rw [if_neg hl, ih hrest]
        split_ifs with hf hf'
        · exact absurd (hf.symm.trans hf') hl
        · rfl
        · rfl
        · rfl
  · exact groupAt_cons li links f

theorem taken_lt_iff (files : List (Option Str)) :
    taken files < files.length ↔ ∃ k, files.findIdx? (fun f => f.isNone) = some k := by
  have hle : taken files ≤ files.length := List.countP_le_length
  have hfull : taken files = files.length ↔ ∀ f ∈ files, f.isSome = true := List.countP_eq_length
  cases hfree : files.findIdx? (fun f => f.isNone) with
  | none =>
    have hall : taken files = files.length := by
      rw [hfull]
      intro f hf
      simpa using List.findIdx?_eq_none_iff.mp hfree f hf
    simp [hall]
  | some k =>
    obtain ⟨hlt, hnone, -⟩ := List.findIdx?_eq_some_iff_getElem.mp hfree
    have hne : taken files ≠ files.length := by
      rw [Ne, hfull]
      intro hall
      have hsome := hall _ (List.getElem_mem hlt)
      rw [Option.isNone_iff_eq_none.mp hnone] at hsome
      cases hsome
    exact iff_of_true (by omega) ⟨k, rfl⟩

theorem taken_set {files : List (Option Str)} {k : ℕ} (path : Str)
    (h : files.findIdx? (fun f => f.isNone) = some k) :
    taken (files.set k (some path)) = taken files + 1 := by
  obtain ⟨hlt, hnone, -⟩ := List.findIdx?_eq_some_iff_getElem.mp h
  rw [taken, List.countP_set hlt, Option.isNone_iff_eq_none.mp hnone]
  rfl

theorem taken_fresh (ch : CpioHeader) : taken (HardLink.fresh ch).files = 0 := by
  rw [taken, List.countP_eq_zero]
  intro f hf
  rw [List.eq_of_mem_replicate hf]
  exact Bool.false_ne_true

/-- Every link that is made frees a slot, also when one of the others fails. -/
theorem taken_linkFiles (S : Sys W) (source : Str) (createdPath i : ℕ) (files : List (Option Str))
    (w : W) :
    taken (linkFiles S source createdPath i files w).files +
        (linkFiles S source createdPath i files w).linked.length = taken files ∧
      (linkFiles S source createdPath i files w).files.length = files.length := by
  induction files generalizing i w with
  | nil => exact ⟨rfl, rfl⟩
  | cons f fs ih =>
    cases f with
    | none =>
      obtain ⟨htaken, hlen⟩ := ih (i + 1) w
      rw [linkFiles]
      exact ⟨by simpa [taken] using htaken, congrArg (· + 1) hlen⟩
    | some f =>
      rw [linkFiles]
      split
      · obtain ⟨htaken, hlen⟩ := ih (i + 1) w
        simp only [taken, List.countP_cons, List.length_cons] at htaken ⊢
        omega
      · split
        · exact ⟨rfl, rfl⟩
        · split
          · exact ⟨rfl, rfl⟩
          · rename_i w' _
            obtain ⟨htaken, hlen⟩ := ih (i + 1) w'
            simp only [taken, List.countP_cons, List.length_cons] at htaken ⊢
            simp
            omega

end Groups

section Rounds
variable {S} {s s' : St W} {ch : CpioHeader} {li : HardLink} {log new : List Event} {f : File}
  {rc : Rc} {cb : Bool} {mappings : Option (List FileMapping)}

theorem ledger_append (log new : List Event) :
    ledger (log ++ new) = new.foldl Ledger.note (ledger log) := List.foldl_append

def isResult : Event → Bool
  | .result _ _ _ _ => true
  | _ => false

theorem note_results (hnew : ∀ ev ∈ new, isResult ev = true) (l : Ledger) :
    new.foldl Ledger.note l = l := by
  induction new generalizing l with
  | nil => rfl
  | cons ev new ih =>
    rw [List.forall_mem_cons] at hnew
    rw [List.foldl_cons]
    cases ev with
    | result call path rc looked => exact ih hnew.2 l
    | selected ch => exact absurd hnew.1 Bool.false_ne_true
    | linked source target => exact absurd hnew.1 Bool.false_ne_true

/-- The links that are made for a file are taken off its names. -/
theorem note_linked (source : Str) (linked : List Str) {l : Ledger} {nlink listed : ℕ}
    (hcurrent : l.current = some f) (hnames : l.names f = some (nlink, listed)) :
    (linked.map (Event.linked source)).foldl Ledger.note l =
      ⟨some f, Function.update l.names f (some (nlink, listed - linked.length))⟩ := by
  induction linked generalizing l listed with
  | nil =>
    rw [List.map_nil, List.foldl_nil, List.length_nil, Nat.sub_zero, ← hnames,
      Function.update_eq_self, ← hcurrent]
  | cons name linked ih =>
    have hnote : l.note (.linked source name) =
        ⟨some f, Function.update l.names f (some (nlink, listed - 1))⟩ := by
      rw [Ledger.note, hcurrent]
      dsimp only
      rw [hnames]
      rfl
    rw [List.map_cons, List.foldl_cons, hnote, ih rfl (Function.update_self ..),
      Function.update_idem, List.length_cons, Nat.sub_sub, Nat.add_comm 1]

/-- The ledger and the groups say the same, and every group has a slot for each of its links. -/
structure Balanced (s : St W) : Prop where
  names : ∀ f, (ledger s.log).names f =
    (groupAt s.links f).map fun li => (li.nlink, taken li.files)
  slots : ∀ f li, groupAt s.links f = some li → li.files.length = li.nlink

theorem balanced_start (w : W) (lastDir : Option Str) : Balanced (startState w lastDir) :=
  ⟨fun _ => rfl, fun _ _ h => by cases h⟩

theorem Balanced.congr (h : Balanced s) (hlinks : s'.links = s.links)
    (hledger : (ledger s'.log).names = (ledger s.log).names) : Balanced s' := by
  constructor
  · rw [hlinks, hledger]
    exact h.names
  · rw [hlinks]
    exact h.slots

theorem firstFree_lt_iff (hslots : li.files.length = li.nlink) :
    firstFree li < li.nlink ↔ taken li.files < li.nlink := by
  have htaken := taken_lt_iff li.files
  rw [hslots] at htaken
  rw [htaken, firstFree]
  cases hfree : li.files.findIdx? (fun f => f.isNone) with
  | none => simp
  | some k =>
    obtain ⟨hlt, -, -⟩ := List.findIdx?_eq_some_iff_getElem.mp hfree
    exact iff_of_true (hslots ▸ hlt) ⟨k, rfl⟩

/-- Where the search ends, by the ledger. -/
theorem Balanced.firstFree_lt_iff (h : Balanced s) (hlink : isLink ch = true) :
    firstFree (groupOf s.links ch) < (groupOf s.links ch).nlink ↔
      ∀ nlink listed, (ledger s.log).names (file ch) = some (nlink, listed) → listed < nlink := by
  rw [h.names, groupOf_eq]
  cases hgroup : groupAt s.links (file ch) with
  | none =>
    have htwo : 1 < ch.nlink := (of_decide_eq_true hlink).2
    rw [Option.getD_none, LinkSlots.firstFree_lt_iff List.length_replicate, taken_fresh]
    refine iff_of_true ?_ fun _ _ h => by cases h
    change 0 < ch.nlink.toNat
    omega
  | some li =>
    rw [Option.getD_some, LinkSlots.firstFree_lt_iff (h.slots _ _ hgroup)]
    simp

theorem createFile_results (h : createFile S cb s ch = some (rc, s')) :
    s'.links = s.links ∧ ledger s'.log = ledger s.log := by
  have hresults : ∃ new, s'.links = s.links ∧ s'.log = s.log ++ new ∧
      ∀ ev ∈ new, isResult ev = true := by
    rw [createFile] at h
    split at h
    · cases h
    · cases hdir : checkDirectory S s.io.w s.lastDir ch.path with
      | mk rc1 r =>
        simp only [hdir] at h
        split at h
        · obtain ⟨-, rfl⟩ := Prod.mk.inj (Option.some.inj h)
          exact ⟨_, rfl, rfl, by simp [isResult]⟩
        · cases hexp : expandEntry S cb { s.io with w := r.1 } ch with
          | none => simp [hexp] at h
          | some q =>
            simp only [hexp] at h
            split at h
            · obtain ⟨-, rfl⟩ := Prod.mk.inj (Option.some.inj h)
              exact ⟨_, rfl, List.append_assoc _ _ _, by simp [isResult]⟩
            · obtain ⟨-, rfl⟩ := Prod.mk.inj (Option.some.inj h)
              exact ⟨_, rfl, (List.append_assoc _ _ _).trans (List.append_assoc _ _ _),
                by simp [isResult]⟩
  obtain ⟨new, hlinks, hlog, hnew⟩ := hresults
  exact ⟨hlinks, by rw [hlog, ledger_append, note_results hnew]⟩

/-- `createLinks` for the group of the last member. -/
theorem Balanced.createLinks (h : Balanced s) (li : HardLink)
    (hcurrent : (ledger s.log).current = some f)
    {old : HardLink} (hold : groupAt s.links f = some old) (hfile : HardLink.file li = f)
    (hnlink : li.nlink = old.nlink) (hfiles : li.files = old.files) (looked : Bool) :
    Balanced (CpioInstall.createLinks S s li looked).2 := by
  have hnames : (ledger s.log).names f = some (old.nlink, taken old.files) := by
    rw [h.names, hold]
    rfl
  obtain ⟨htaken, hlen⟩ := taken_linkFiles S li.source (li.createdPath.getD 0) 0 li.files s.io.w
  generalize hr : linkFiles S li.source (li.createdPath.getD 0) 0 li.files s.io.w = r at htaken hlen
  have hlog : ledger (CpioInstall.createLinks S s li looked).2.log =
      ⟨some f, Function.update (ledger s.log).names f
        (some (old.nlink, taken old.files - r.linked.length))⟩ := by
    rw [CpioInstall.createLinks, hr]
    dsimp only
    rw [ledger_append, ledger_append, note_linked _ _ hcurrent hnames, List.foldl_cons,
      List.foldl_nil]
    rfl
  have hlinks : ∀ g, groupAt (CpioInstall.createLinks S s li looked).2.links g =
      if g = f then some { li with files := r.files, linksLeft := li.linksLeft - r.linked.length }
      else groupAt s.links g := by
    intro g
    rw [CpioInstall.createLinks, hr, ← hfile]
    exact groupAt_putGroup _ _ _
  constructor
  · intro g
    rw [hlog, hlinks]
    dsimp only
    rw [Function.update_apply]
    split_ifs with hg
    · rw [← hfiles, ← hnlink, Option.map_some, ← htaken, Nat.add_sub_cancel]
    · exact h.names g
  · intro g li' hli'
    rw [hlinks] at hli'
    split_ifs at hli' with hg
    · obtain rfl := Option.some.inj hli'
      change r.files.length = li.nlink
      rw [hlen, hfiles, hnlink]
      exact h.slots f old hold
    · exact h.slots g li' hli'

theorem file_groupOf (links : List HardLink) (ch : CpioHeader) :
    HardLink.file (groupOf links ch) = file ch := by
  obtain ⟨hinode, hdev⟩ := groupOf_key links ch
  exact Prod.ext hdev hinode

/-- What is entered for a member, and the slots of its group. -/
theorem Balanced.entry (h : Balanced s) (ch : CpioHeader) :
    ((ledger s.log).names (file ch)).getD (ch.nlink.toNat, 0) =
        ((groupOf s.links ch).nlink, taken (groupOf s.links ch).files) ∧
      (groupOf s.links ch).files.length = (groupOf s.links ch).nlink := by
  rw [h.names, groupOf_eq]
  cases hgroup : groupAt s.links (file ch) with
  | none =>
    refine ⟨?_, List.length_replicate⟩
    rw [Option.map_none, Option.getD_none, Option.getD_none]
    refine Prod.ext rfl ?_
    rw [taken_fresh]
  | some li => exact ⟨rfl, h.slots _ _ hgroup⟩

/-- A member in its slot: one more name, in the ledger too. -/
theorem Balanced.place (h : Balanced s) (hlink : isLink ch = true) {k : ℕ}
    (hk : (groupOf s.links ch).files.findIdx? (fun f => f.isNone) = some k)
    (hledger : ledger s'.log = (ledger s.log).note (.selected ch))
    (hlinks : s'.links = putGroup s.links
      { groupOf s.links ch with files := (groupOf s.links ch).files.set k (some ch.path) }) :
    Balanced s' := by
  obtain ⟨hentry, hslots⟩ := h.entry ch
  have hgroup : ∀ f, groupAt s'.links f = if f = file ch then
      some { groupOf s.links ch with files := (groupOf s.links ch).files.set k (some ch.path) }
      else groupAt s.links f := by
    intro f
    rw [hlinks, groupAt_putGroup, ← file_groupOf s.links ch]
    rfl
  constructor
  · intro f
    rw [hledger, hgroup, Ledger.note, if_pos hlink, hentry]
    dsimp only
    rw [Function.update_apply]
    split_ifs with hf
    · rw [Option.map_some, taken_set ch.path hk]
    · exact h.names f
  · intro f li hli
    rw [hgroup] at hli
    split_ifs at hli with hf
    · obtain rfl := Option.some.inj hli
      exact (List.length_set ..).trans hslots
    · exact h.slots f li hli

theorem current_selected (hlink : isLink ch = true) :
    (ledger (log ++ [.selected ch])).current = some (file ch) := by
  rw [ledger_append, List.foldl_cons, List.foldl_nil, Ledger.note, if_pos hlink]

theorem laterMember_balanced (h : Balanced s) (hcurrent : (ledger s.log).current = some f)
    (hgroup : groupAt s.links f = some li) (hfile : HardLink.file li = f) (ch : CpioHeader) :
    Balanced (laterMember S s li ch) := by
  have hlinked := h.createLinks (S := S) li hcurrent hgroup hfile rfl rfl false
  rw [laterMember]
  dsimp only
  split
  · exact hlinked
  · refine hlinked.congr rfl ?_
    dsimp only
    rw [ledger_append, note_results (by simp [isResult])]

theorem dataMember_balanced {k : ℕ} (h : Balanced s)
    (hcurrent : (ledger s.log).current = some f) (hgroup : groupAt s.links f = some li)
    (hfile : HardLink.file li = f) (hrun : dataMember S cb s li k ch = some (rc, s')) :
    Balanced s' := by
  rw [dataMember, Option.map_eq_some_iff] at hrun
  obtain ⟨⟨rc1, s1⟩, hcreate, hlinks⟩ := hrun
  obtain ⟨hsame, hledger⟩ := createFile_results hcreate
  have hmade : Balanced s1 := h.congr hsame (congrArg Ledger.names hledger)
  have hcurrent1 : (ledger s1.log).current = some f := by rw [hledger, hcurrent]
  have hgroup1 : groupAt s1.links f = some li := by rw [hsame, hgroup]
  have hlinked := hmade.createLinks (S := S) { li with
      createdPath := some k
      linksLeft := li.linksLeft - 1 } hcurrent1 hgroup1 hfile rfl rfl true
  rwa [hlinks] at hlinked

theorem installEntry_balanced (h : Balanced s)
    (hrun : installEntry S cb { s with log := s.log ++ [.selected ch] } ch = some (rc, s')) :
    Balanced s' := by
  rw [installEntry] at hrun
  by_cases hlink : isLink ch = true
  · rw [if_pos hlink] at hrun
    dsimp only at hrun
    cases hk : (groupOf s.links ch).files.findIdx? (fun f => f.isNone) with
    | none =>
      rw [hk] at hrun
      cases hrun
    | some k =>
      rw [hk] at hrun
      dsimp only at hrun
      have hplaced : Balanced { s with
          links := putGroup s.links
            { groupOf s.links ch with files := (groupOf s.links ch).files.set k (some ch.path) }
          log := s.log ++ [.selected ch] } :=
        h.place hlink hk (ledger_append _ _) rfl
      have hgroup := (groupAt_putGroup s.links { groupOf s.links ch with
        files := (groupOf s.links ch).files.set k (some ch.path) } (file ch)).trans
          (if_pos (file_groupOf s.links ch).symm)
      split at hrun
      · obtain ⟨-, rfl⟩ := Prod.mk.inj (Option.some.inj hrun)
        exact hplaced
      · split at hrun
        · obtain ⟨-, rfl⟩ := Prod.mk.inj (Option.some.inj hrun)
          exact laterMember_balanced hplaced (current_selected hlink) hgroup
            (file_groupOf s.links ch) ch
        · exact dataMember_balanced hplaced (current_selected hlink) hgroup
            (file_groupOf s.links ch) hrun
  · rw [if_neg hlink] at hrun
    obtain ⟨hlinks, hledger⟩ := createFile_results hrun
    refine h.congr hlinks ?_
    rw [hledger, ledger_append, List.foldl_cons, List.foldl_nil, Ledger.note, if_neg hlink]

theorem loopBody_balanced (h : Balanced s) (hrun : loopBody S cb mappings s = .running s') :
    Balanced s' := by
  rw [loopBody] at hrun
  generalize getNextHeader S s.io = next at hrun
  rcases next with ⟨rc | ⟨ch, phys⟩ | _, io⟩
  · cases hrun
  · simp only at hrun
    split at hrun
    · cases hrun
    · cases hsel : selectEntry mappings ch with
      | none =>
        simp only [hsel, skipEntry, finishEntry, if_true] at hrun
        obtain rfl := Status.running.inj hrun
        refine h.congr rfl ?_
        dsimp only
        rw [ledger_append, note_results (by simp [isResult])]
      | some ch' =>
        simp only [hsel] at hrun
        cases hinst : installEntry S cb
            { s with io := io, log := s.log ++ [.selected ch'] } ch' with
        | none => simp [hinst] at hrun
        | some r =>
          obtain ⟨rc, s1⟩ := r
          simp only [hinst, finishEntry] at hrun
          split at hrun
          · rename_i hrc
            subst hrc
            obtain rfl := Status.running.inj hrun
            have hio : Balanced { s with io := io } := h.congr rfl rfl
            have hinstalled : Balanced s1 := installEntry_balanced hio hinst
            exact hinstalled.congr rfl rfl
          · cases hrun
  · cases hrun

/-- Every round starts from a state in which the ledger is right. -/
theorem installLoop_balanced {w : W} {lastDir : Option Str} {rounds : ℕ}
    (hrun : installLoop S cb mappings rounds (startState w lastDir) = .running s) : Balanced s := by
  have hround : ∀ (s : St W) (_ : Unit), Balanced s →
      (loopBody S cb mappings s).Sat Balanced (fun _ => True) := by
    intro s _ hs
    cases hbody : loopBody S cb mappings s with
    | running s' => exact loopBody_balanced hs hbody
    | stopped o => trivial
  have hkept := run_keeps hround (startState w lastDir) (List.replicate rounds ())
    (balanced_start w lastDir)
  rw [installLoop] at hrun
  rwa [hrun] at hkept

theorem isLink_nextMember (h : nextMember S mappings s = some ch) : isLink ch = true := by
  rw [nextMember] at h
  split at h
  · split at h
    · cases h
    · exact (Option.filter_eq_some_iff.mp h).2
  · cases h

end Rounds

theorem slotsBelow_iff (cb : Bool) (mappings : Option (List FileMapping)) (w : W)
    (lastDir : Option Str) :
    SlotsBelow S cb mappings w lastDir ↔ Room S cb mappings w lastDir := by
  have hround : ∀ rounds s ch,
      installLoop S cb mappings rounds (startState w lastDir) = .running s →
        nextMember S mappings s = some ch →
          (firstFree (groupOf s.links ch) < (groupOf s.links ch).nlink ↔
            ∀ nlink listed, (ledger s.log).names (file ch) = some (nlink, listed) →
              listed < nlink) := fun rounds s ch hrun hnext =>
    (installLoop_balanced hrun).firstFree_lt_iff (isLink_nextMember hnext)
  constructor
  · intro h rounds s ch hrun hnext
    exact (hround rounds s ch hrun hnext).mp (h rounds s ch hrun hnext)
  · intro h rounds s ch hrun hnext
    exact (hround rounds s ch hrun hnext).mpr (h rounds s ch hrun hnext)

/-- Three names of a file that is said to have two, none of them with data. -/
def threeNames : Str :=
  encodeAll [newcEntry 1 0o100644 2 (ascii "a") [], newcEntry 1 0o100644 2 (ascii "b") [],
    newcEntry 1 0o100644 2 (ascii "c") [], trailerEntry]

theorem threeNames_not_below : ¬ SlotsBelow pipeSys false none (threeNames, []) none := by
  intro h
  have hthird := h 2 _ (newcEntry 1 0o100644 2 (ascii "c") []).header rfl (by decide +kernel)
  exact absurd hthird (by decide +kernel)

end Comodoo.LinkSlots
