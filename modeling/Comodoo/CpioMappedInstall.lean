import Mathlib.Data.List.Forall2
import Comodoo.CpioMapped
import Comodoo.CpioMembers

set_option autoImplicit false

/-!
# Installing the mapped entries

On any system, in a run without a failing call: exactly the entries in the mappings are installed,
each with its own data, if and only if no mapping changes a type, every target fits its buffer and
every group has data.
-/
namespace Comodoo.CpioMappedInstall
open CString CpioSystem CpioRead CpioExpand CpioInstall CpioGroups CpioLog CpioErrors CpioFormat
open CpioStream CpioFrame CpioDisk CpioDiskFiles CpioWaiting CpioSync CpioQuiet CpioTree CpioTreeRun
open CpioMade CpioMembers CpioMapped StepRun

def filled : List Event → List (CpioHeader × List Call)
  | [] => []
  | .selected ch :: log => (ch, expandedNext log) :: filled log
  | .result _ _ _ _ :: log => filled log
  | .linked _ _ :: log => filled log

/-- What was installed is the entry, expanded as its type with its data. A member of a group may be
a link instead. -/
def Fills (e : Item) (c : CpioHeader × List Call) : Prop :=
  trimmed c.1 = trimmed e.head ∧
    (c.2 = [expansion e.head e.data] ∨ isMember e = true ∧ c.2 = [])

def GroupsFilled (es : List Item) : Prop :=
  ∀ e ∈ es, isMember e = true → ∃ m ∈ es, sameGroup e m = true ∧ m.data ≠ []

instance (es : List Item) : Decidable (GroupsFilled es) :=
  inferInstanceAs (Decidable (∀ e ∈ es, isMember e = true →
    ∃ m ∈ es, sameGroup e m = true ∧ m.data ≠ []))

section Log

variable {log new : List Event} {ch : CpioHeader} {es : List Item}

theorem filled_entered (log : List Event) : (filled log).map Prod.fst = entered log := by
  induction log with
  | nil => rfl
  | cons ev log ih =>
    cases ev with
    | selected ch => exact congrArg (List.cons ch) ih
    | result call path rc looked => exact ih
    | linked source target => exact ih

theorem expandedNext_entry (log : List Event) :
    expandedNext (log ++ .selected ch :: new) = expandedNext log := by
  induction log with
  | nil => rfl
  | cons ev log ih =>
    cases ev with
    | selected ch => rfl
    | linked source target => exact ih
    | result call path rc looked => rw [List.cons_append, expandedNext, expandedNext, ih]

theorem filled_plain (h : ∀ ev ∈ new, isSelected ev = false) : filled new = [] := by
  induction new with
  | nil => rfl
  | cons ev new ih =>
    rw [List.forall_mem_cons] at h
    cases ev with
    | selected ch => cases h.1
    | result call path rc looked => exact ih h.2
    | linked source target => exact ih h.2

theorem filled_entry (log : List Event) (h : ∀ ev ∈ new, isSelected ev = false) :
    filled (log ++ .selected ch :: new) = filled log ++ [(ch, expandedNext new)] := by
  induction log with
  | nil =>
    change (ch, expandedNext new) :: filled new = _
    rw [filled_plain h]
    rfl
  | cons ev log ih =>
    cases ev with
    | selected ch' => rw [List.cons_append, filled, filled, ih, expandedNext_entry, List.cons_append]
    | result call path rc looked => exact ih
    | linked source target => exact ih

theorem filled_silent (log : List Event) (hsel : ∀ ev ∈ new, isSelected ev = false)
    (hsilent : ∀ ev ∈ new, isExpanded ev = false) : filled (log ++ new) = filled log := by
  induction log with
  | nil => exact filled_plain hsel
  | cons ev log ih =>
    cases ev with
    | selected ch => rw [List.cons_append, filled, filled, ih, expandedNext_silent hsilent]
    | result call path rc looked => exact ih
    | linked source target => exact ih

end Log

section Trimmed

variable {ch ch' : CpioHeader} {e : Item} {es done rest : List Item} {heads : List CpioHeader}
  {links : List HardLink} {li : HardLink}

theorem S_IFMT_trimmed (ch : CpioHeader) : S_IFMT (trimmed ch).mode = S_IFMT ch.mode := by
  simp only [trimmed, S_IFMT]
  omega

theorem isLink_trimmed (ch : CpioHeader) : isLink (trimmed ch) = isLink ch := by
  rw [isLink, isLink, S_ISREG, S_ISREG, S_IFMT_trimmed, trimmed]

theorem joins_trimmed (li : HardLink) (ch : CpioHeader) : joins li (trimmed ch) = joins li ch := by
  rw [joins, joins, isLink_trimmed, HardLink.holds, HardLink.holds, trimmed]

theorem expansion_trimmed (ch : CpioHeader) (data : Str) :
    expansion (trimmed ch) data = expansion ch data := by
  rw [expansion, expansion, S_ISREG, S_ISREG, S_ISLNK, S_ISLNK, S_IFMT_trimmed]

theorem usualType_trimmed (ch : CpioHeader) : usualType (trimmed ch).mode = usualType ch.mode := by
  simp only [usualType, S_ISREG, S_ISDIR, S_ISLNK, S_ISFIFO, S_ISCHR, S_ISBLK, S_ISSOCK,
    S_IFMT_trimmed]

theorem trimmed_eq (h : trimmed ch = trimmed ch') : ch.inode = ch'.inode ∧ ch.dev = ch'.dev ∧
    ch.nlink = ch'.nlink ∧ ch.size = ch'.size ∧ ch.path = ch'.path ∧
    S_IFMT ch.mode = S_IFMT ch'.mode := by
  have hmode := S_IFMT_trimmed ch
  rw [h, S_IFMT_trimmed] at hmode
  simp only [trimmed, CpioHeader.mk.injEq] at h
  exact ⟨h.1, by simp [h], by simp [h], by simp [h], by simp [h], hmode.symm⟩

theorem suits_of_trimmed {data : Str} (h : Suits ch' data) (ht : trimmed ch = trimmed ch') :
    Suits ch data := by
  obtain ⟨-, -, -, hsize, hpath, hmode⟩ := trimmed_eq ht
  refine ⟨hpath ▸ h.named, hsize.trans h.size, ?_, ?_, ?_⟩
  · rw [← usualType_trimmed, ht, usualType_trimmed]
    exact h.type
  · rw [S_ISLNK, hmode]
    exact h.target
  · rw [S_ISREG, S_ISLNK, hmode]
    exact h.empty

theorem fills_heads {cs : List (CpioHeader × List Call)} (h : List.Forall₂ Fills done cs) :
    (cs.map Prod.fst).map trimmed = done.map (fun e => trimmed e.head) := by
  induction h with
  | nil => rfl
  | cons hfills _ ih => rw [List.map_cons, List.map_cons, List.map_cons, ih, hfills.1]

theorem head_of_mem (h : heads.map trimmed = done.map (fun e => trimmed e.head))
    (hch : ch ∈ heads) : ∃ e ∈ done, trimmed e.head = trimmed ch := by
  have hmem : trimmed ch ∈ heads.map trimmed := List.mem_map_of_mem hch
  rwa [h, List.mem_map] at hmem

theorem mem_of_head (h : heads.map trimmed = done.map (fun e => trimmed e.head))
    (he : e ∈ done) : ∃ ch ∈ heads, trimmed ch = trimmed e.head := by
  have hmem : trimmed e.head ∈ done.map (fun e => trimmed e.head) :=
    List.mem_map_of_mem (f := fun e => trimmed e.head) he
  rwa [← h, List.mem_map] at hmem

/-- For a group that has the entry, its members are those of the group of the entry. -/
theorem joins_sameGroup {m : Item} (hlink : isMember e = true)
    (hinode : li.inode = e.head.inode) (hdev : li.dev = e.head.dev) :
    joins li m.head = sameGroup e m := by
  rw [Bool.eq_iff_iff, joins_iff, sameGroup_iff, hinode, hdev, isMember, isMember]
  exact ⟨fun h => ⟨hlink, h.1, h.2.1.symm, h.2.2.symm⟩,
    fun h => ⟨h.2.1, h.2.2.1.symm, h.2.2.2.symm⟩⟩

theorem joins_of_trimmed (h : trimmed ch = trimmed ch') : joins li ch = joins li ch' := by
  rw [← joins_trimmed, h, joins_trimmed]

/-- There is a slot for every member, if there are no more than the archive says. -/
theorem slot_free (hes : Makeable es) (hsplit : es = done ++ e :: rest)
    (hg : Grouped heads links) (hheads : heads.map trimmed = done.map (fun e => trimmed e.head))
    (htrim : trimmed ch = trimmed e.head) (hlink : isLink ch = true) :
    ∃ k, (groupOf links ch).files.findIdx? (fun f => f.isNone) = some k := by
  obtain ⟨hinode, hdev, hnlink, -⟩ := trimmed_eq htrim
  obtain ⟨hi, hd⟩ := groupOf_key links ch
  have hmember : isMember e = true := by
    rw [isMember, ← isLink_trimmed, ← htrim, isLink_trimmed, hlink]
  have he : e ∈ es := by simp [hsplit]
  have hsame : ∀ m : Item, joins (groupOf links ch) m.head = sameGroup e m :=
    fun m => joins_sameGroup hmember (hi.trans hinode) (hd.trans hdev)
  refine hg.free hlink ?_ ?_
  · intro m hm hjoins
    obtain ⟨x, hx, hxm⟩ := head_of_mem hheads hm
    rw [← joins_of_trimmed hxm, hsame] at hjoins
    have hcount := hes.nlinks e he x (by simp [hsplit, hx]) hjoins
    rw [hnlink, ← hcount, (trimmed_eq hxm).2.2.1]
  · have hbound := hes.members e he hmember
    have hself : sameGroup e e = true := sameGroup_iff.mpr ⟨hmember, hmember, rfl, rfl⟩
    have hcount : heads.countP (joins (groupOf links ch)) = done.countP (sameGroup e) := by
      have hmap := congrArg (List.countP (joins (groupOf links ch))) hheads
      rw [List.countP_map, List.countP_map] at hmap
      simpa only [Function.comp_def, joins_trimmed, hsame] using hmap
    rw [hsplit, ← List.countP_eq_length_filter, List.countP_append, List.countP_cons, hself] at hbound
    rw [hcount, hnlink]
    simp only [if_true] at hbound
    omega

/-- All groups have their files when each has a member with data. -/
theorem groups_made (hg : Grouped heads links)
    (hheads : heads.map trimmed = es.map (fun e => trimmed e.head))
    (hsize : ∀ e ∈ es, e.head.size = e.data.length) :
    (∀ li ∈ links, li.createdPath ≠ none) ↔ GroupsFilled es := by
  constructor
  · intro h e he hmember
    obtain ⟨c, hc, hce⟩ := mem_of_head hheads he
    have hlink : isLink c = true := by
      rw [← isLink_trimmed, hce, isLink_trimmed]
      exact hmember
    obtain ⟨li, hli, hjoins⟩ := hg.known c hc hlink
    obtain ⟨d, hd, hjoinsd, hne⟩ := (hg.made li hli).mp (h li hli)
    obtain ⟨m, hm, hmd⟩ := head_of_mem hheads hd
    rw [joins_of_trimmed hce, joins_iff] at hjoins
    rw [← joins_of_trimmed hmd, joins_sameGroup hmember hjoins.2.1 hjoins.2.2] at hjoinsd
    refine ⟨m, hm, hjoinsd, ?_⟩
    rintro hempty
    rw [← (trimmed_eq hmd).2.2.2.1, hsize m hm, hempty] at hne
    exact hne rfl
  · intro h li hli
    obtain ⟨c, hc, hjoins, -⟩ := hg.slots li hli
    obtain ⟨e, he, hec⟩ := head_of_mem hheads hc
    rw [← joins_of_trimmed hec, joins_iff] at hjoins
    obtain ⟨m, hm, hsame, hne⟩ := h e he hjoins.1
    obtain ⟨d, hd, hdm⟩ := mem_of_head hheads hm
    refine (hg.made li hli).mpr ⟨d, hd, ?_, ?_⟩
    · rw [joins_of_trimmed hdm, joins_sameGroup hjoins.1 hjoins.2.1 hjoins.2.2, hsame]
    · rw [(trimmed_eq hdm).2.2.2.1, hsize m hm]
      exact fun hzero => hne (List.length_eq_zero_iff.mp hzero)

end Trimmed

section Round

variable {W : Type} {S : Sys W} {stream : W → Str} {quiet : W → Bool} {ms : List FileMapping}
  {es done rest : List Item} {e : Entry} {s s' : St W} {pos : ℤ} {tail : Str}

/-- After the entries in `done`, at the place that is left to read. -/
structure Running (stream : W → Str) (done : List Item) (pos : ℤ) (left : Str) (s : St W) :
    Prop where
  place : At stream s.io pos left
  groups : Grouped (entered s.log) s.links
  fills : List.Forall₂ Fills done (filled s.log)

theorem Running.heads {left : Str} (h : Running stream done pos left s) :
    (entered s.log).map trimmed = done.map (fun e => trimmed e.head) := by
  rw [← filled_entered]
  exact fills_heads h.fills

theorem finishEntry_stops (hQ : Watched S quiet) (cb : Bool) {rc : Rc} (hrc : rc ≠ .ok)
    {ch : CpioHeader} (hloud : quiet s.io.w = false) :
    (finishEntry S cb rc (recordFailure S rc s ch) ch).Sat (fun _ => False)
      (fun o => quiet o.2.io.w = false) := by
  rw [finishEntry, if_neg hrc]
  change quiet (padinfd S (recordFailure S rc s ch).io 4).w = false
  rw [padinfd_keeps hQ.gunzipRead]
  by_contra hquiet
  rw [recordFailure_quiet hQ (by simpa using hquiet)] at hloud
  cases hloud

theorem skip_made (hF : FullReads S stream) (cb : Bool)
    {mappings : Option (List FileMapping)} (hsel : selectEntry mappings e.header = none)
    (he : e.WellFormed) (hfits : e.NameFits) (hne : e.path ≠ TRAILER) (hpos : pos % 4 = 0)
    (h : Running stream done pos (e.encode ++ tail) s) :
    ∃ s', loopBody S cb mappings s = .running s' ∧ nothingLost S cb mappings s = true ∧
      Running stream done (pos + e.encode.length) tail s' := by
  have hpath : e.header.path ≠ TRAILER := by rwa [Entry.header]
  obtain ⟨io1, hget, hat1, -⟩ := getNextHeader_at hF he hfits h.place hpos
  obtain ⟨io2, heat, hat2, -⟩ := eatBytes_at hF hat1
  obtain ⟨hat3, -⟩ := padinfd_at hF hat2 (padAmount_data he hpos)
  rw [← he.header_size] at heat
  obtain ⟨s', hrun, hpos', hw, hlinks, -, hlog⟩ := finishEntry_ok (S := S) cb
    (skipEntry S { s with io := io1 } e.header) e.header
  rw [skipEntry_eq (s := { s with io := io1 }) heat] at hpos' hw hlinks hlog
  refine ⟨s', by rw [loopBody_skip cb hget hpath hsel, hrun], ?_, ?_, ?_, ?_⟩
  · simp only [nothingLost, hget, hpath, if_false, hsel, heat, decide_true]
  · rw [encode_length he]
    exact hat3.move hpos' (by rw [hw])
  · rw [hlog, hlinks, entered_append]
    simpa [entered] using h.groups
  · rw [hlog, filled_silent s.log (by simp [isSelected]) (by simp [isExpanded, isExpansion])]
    exact h.fills

theorem select_made (hF : FullReads S stream) (hQ : Watched S quiet) (cb : Bool)
    {mappings : Option (List FileMapping)} (hes : Makeable es) {x : Item} {ch : CpioHeader}
    (hsplit : es = done ++ x :: rest) (hsel : selectEntry mappings e.header = some ch)
    (htrim : trimmed ch = trimmed x.head) (hsize : x.head.size = e.header.size)
    (hdata : x.data = e.data) (htarget : S_ISLNK x.head.mode = true → x.data.length < 2048)
    (he : e.WellFormed) (hfits : e.NameFits) (hne : e.path ≠ TRAILER) (hpos : pos % 4 = 0)
    (h : Running stream done pos (e.encode ++ tail) s) :
    (loopBody S cb mappings s).Sat
      (fun s' => quiet s'.io.w = true → nothingLost S cb mappings s = true ∧
        Running stream (done ++ [x]) (pos + e.encode.length) tail s')
      (fun o => quiet o.2.io.w = false) := by
  have hx : x ∈ es := by simp [hsplit]
  have hfile : Suits x.head e.data :=
    ⟨hes.named x hx, by rw [hsize, he.header_size], hes.type x hx, hdata ▸ htarget,
      hdata ▸ hes.empty x hx⟩
  have hpath : e.header.path ≠ TRAILER := by rwa [Entry.header]
  obtain ⟨io1, hget, hat1, -⟩ := getNextHeader_at hF he hfits h.place hpos
  generalize hs1 : ({ s with io := io1, log := s.log ++ [.selected ch] } : St W) = s1
  have hio1 : s1.io = io1 := by rw [← hs1]
  have hlinks1 : s1.links = s.links := by rw [← hs1]
  have hlog1 : s1.log = s.log ++ [.selected ch] := by rw [← hs1]
  obtain ⟨rc, s2, hrun, hmade⟩ := installEntry_made (s := s1) hF hQ cb (suits_of_trimmed hfile htrim)
    (by rw [hlinks1]; exact slot_free hes hsplit h.groups h.heads htrim)
    (by rw [hio1]; exact hat1) (by rw [hlinks1]; exact h.groups)
  rw [← hs1] at hrun
  rw [loopBody_entry cb hget hpath hsel hrun]
  by_cases hrc : rc = .ok
  · subst hrc
    have hrecord : recordFailure S .ok s2 ch = s2 := by simp [recordFailure]
    obtain ⟨s', hfinish, hpos', hw, hlinks, -, hlog⟩ := finishEntry_ok (S := S) cb s2 ch
    rw [hrecord, hfinish]
    intro hquiet
    rw [hw, padinfd_keeps hQ.gunzipRead] at hquiet
    obtain ⟨-, hmade⟩ := hmade hquiet
    obtain ⟨new, hnew, hplain, hexpanded⟩ := hmade.log
    have hlog2 : s'.log = s.log ++ .selected ch :: new := by rw [hlog, hnew, hlog1]; simp
    have hentered : entered s'.log = entered s.log ++ [ch] := by
      rw [hlog2, List.append_cons, entered_append, entered_append, entered_quiet hplain,
        List.append_nil]
      rfl
    refine ⟨?_, ?_, ?_, ?_⟩
    · simp only [nothingLost, hget, hpath, if_false, hsel, hs1]
      exact hmade.kept
    · obtain ⟨hat3, -⟩ := padinfd_at hF hmade.place (padAmount_data he hpos)
      rw [encode_length he]
      exact hat3.move hpos' (by rw [hw])
    · rw [hentered, hlinks]
      exact hmade.groups
    · rw [hlog2, filled_entry s.log hplain]
      refine List.rel_append h.fills (.cons ⟨htrim, ?_⟩ .nil)
      rw [isMember, ← isLink_trimmed, ← htrim, isLink_trimmed, ← expansion_trimmed, ← htrim,
        expansion_trimmed, hdata]
      exact hexpanded
  · refine (finishEntry_stops hQ cb hrc ?_).imp (fun _ h => h.elim) (fun _ h => h)
    by_contra hquiet
    exact hrc (hmade (by simpa using hquiet)).1

/-- The name and the target of an entry fit, and it keeps its type. -/
structure Kept (ms : List FileMapping) (e : Entry) : Prop where
  name : e.NameFits
  type : TypeKept ms e.header
  target : TargetsFit (choose ms (itemOf e)).toList

theorem loopBody_made (hF : FullReads S stream) (hQ : Watched S quiet) (cb : Bool)
    (hms : Sorted ms) (hes : Makeable es)
    (hsplit : es = done ++ ((choose ms (itemOf e)).toList ++ rest)) (hkept : Kept ms e)
    (he : e.WellFormed) (hne : e.path ≠ TRAILER) (hpos : pos % 4 = 0)
    (h : Running stream done pos (e.encode ++ tail) s) :
    (loopBody S cb (some ms) s).Sat
      (fun s' => quiet s'.io.w = true → nothingLost S cb (some ms) s = true ∧
        Running stream (done ++ (choose ms (itemOf e)).toList) (pos + e.encode.length) tail s')
      (fun o => quiet o.2.io.w = false) := by
  cases hmap : mappingOf ms e.header.path with
  | none =>
    obtain ⟨hsel, hchoose⟩ := selectEntry_eq_none hms hmap
    obtain ⟨s', hbody, hlost, hrunning⟩ := skip_made hF cb hsel he hkept.name hne hpos h
    rw [hbody, hchoose]
    exact fun _ => ⟨hlost, by simpa using hrunning⟩
  | some map =>
    obtain ⟨hsel, hchoose⟩ := selectEntry_eq_some hms hmap
    have htarget := hkept.target
    rw [hchoose] at hsplit htarget ⊢
    exact select_made hF hQ cb hes hsplit hsel (applyMapping_mapped.mpr (hkept.type map hmap))
      (mapped_size map e.header) rfl (htarget _ (by simp)) he hkept.name hne hpos h

end Round

section Loop

variable {W : Type} {S : Sys W} {stream : W → Str} {quiet : W → Bool} {ms : List FileMapping}
  {es done rest : List Item} {e t : Entry} {s s' : St W} {pos : ℤ} {tail : Str} {fuel : ℕ}

theorem typeKept_head (cb : Bool) (hms : Sorted ms) {io : Io W} {phys : Str}
    (hget : getNextHeader S s.io = (.header e.header phys, io)) (hne : e.header.path ≠ TRAILER)
    (hrun : installLoop S cb (some ms) (fuel + 1) s = .stopped (.ended .ok, s'))
    (hheads : (entered s.log).map trimmed = done.map (fun e => trimmed e.head))
    (hsplit : es = done ++ ((choose ms (itemOf e)).toList ++ rest))
    (hlog : (entered s'.log).map trimmed = es.map (fun e => trimmed e.head)) :
    TypeKept ms e.header := by
  intro map hmap hflag
  obtain ⟨hsel, hchoose⟩ := selectEntry_eq_some hms hmap
  have hentered := loopBody_entered (some ms) cb hget hne
  rw [hsel] at hentered
  rw [installLoop, List.replicate_succ] at hrun
  cases hbody : loopBody S cb (some ms) s with
  | stopped o =>
    rw [run_cons_stopped _ hbody] at hrun
    rw [hbody, Status.stopped.inj hrun] at hentered
    exact absurd rfl hentered.1
  | running s1 =>
    rw [run_cons_running _ hbody] at hrun
    rw [hbody] at hentered
    -- what has been entered stays, so it was what was to be chosen
    have hgrows := installLoop_grows S (some ms) cb fuel s1
    rw [installLoop, hrun] at hgrows
    change entered s1.log = entered s.log ++ [applyMapping map e.header] at hentered
    have hprefix : (entered s1.log).map trimmed <+: (entered s'.log).map trimmed :=
      List.IsPrefix.map trimmed hgrows
    rw [hentered, List.map_append, hheads, hlog, hsplit, hchoose, List.map_append,
      List.prefix_append_right_inj] at hprefix
    exact applyMapping_mapped.mp (List.cons_prefix_cons.mp hprefix).1 hflag

theorem target_head (cb : Bool) {mappings : Option (List FileMapping)} {io : Io W} {phys : Str}
    {ch ch' : CpioHeader} (hget : getNextHeader S s.io = (.header ch phys, io))
    (hne : ch.path ≠ TRAILER) (hsel : selectEntry mappings ch = some ch')
    (hrun : installLoop S cb mappings (fuel + 1) s = .stopped (.ended .ok, s')) :
    S_ISLNK ch'.mode = true → ch'.size < 2048 := by
  intro hlnk
  by_contra hlong
  have hlink : ¬ isLink ch' = true := by
    simp only [S_ISLNK, isLink, S_ISREG, decide_eq_true_eq] at hlnk ⊢
    omega
  rw [installLoop, List.replicate_succ, run, loopBody, hget] at hrun
  simp only [hne, if_false, hsel, installEntry, if_neg hlink] at hrun
  cases hcreate : createFile S cb { s with io := io, log := s.log ++ [.selected ch'] } ch' with
  | none => simp [hcreate] at hrun
  | some r =>
    obtain ⟨rc, s1⟩ := r
    have hrc : rc ≠ .ok := by
      rintro rfl
      exact createFile_long cb hlnk (by omega) hcreate
    simp [hcreate, finishEntry, hrc] at hrun

theorem targetsFit_head (cb : Bool) (hms : Sorted ms) {io : Io W} {phys : Str}
    (hget : getNextHeader S s.io = (.header e.header phys, io)) (hne : e.header.path ≠ TRAILER)
    (htype : TypeKept ms e.header) (he : e.WellFormed)
    (hrun : installLoop S cb (some ms) (fuel + 1) s = .stopped (.ended .ok, s')) :
    TargetsFit (choose ms (itemOf e)).toList := by
  intro x hx hlnk
  cases hmap : mappingOf ms e.header.path with
  | none =>
    rw [(selectEntry_eq_none hms hmap).2] at hx
    cases hx
  | some map =>
    obtain ⟨hsel, hchoose⟩ := selectEntry_eq_some hms hmap
    rw [hchoose, Option.toList_some, List.mem_singleton] at hx
    rw [hx] at hlnk ⊢
    change S_ISLNK (mapped map e.header).mode = true at hlnk
    change e.data.length < 2048
    obtain ⟨-, -, -, hsize, -, hmode⟩ := trimmed_eq (applyMapping_mapped.mpr (htype map hmap))
    rw [S_ISLNK, ← hmode] at hlnk
    have hshort := target_head cb hget hne hsel hrun hlnk
    rwa [hsize, mapped_size, he.header_size] at hshort

theorem run_made (hF : FullReads S stream) (hQ : Watched S quiet) (cb : Bool) (hms : Sorted ms)
    (hes : Makeable es) (todo : List Entry) (hsplit : es = done ++ chosen ms (todo.map itemOf))
    (htodo : ∀ e ∈ todo, e.WellFormed ∧ e.path ≠ TRAILER)
    (hkept : ∀ e ∈ todo, Kept ms e) (ht : t.WellFormed)
    (hfits : t.NameFits) (htrail : t.path = TRAILER) (hpos : pos % 4 = 0)
    (h : Running stream done pos (encodeAll todo ++ (t.encode ++ tail)) s)
    (hfuel : todo.length < fuel) :
    (installLoop S cb (some ms) fuel s).Sat (fun s' => quiet s'.io.w = false)
      (fun o => quiet o.2.io.w = true → o.1 = .ended .ok ∧
        along (fun s (_ : Unit) => loopBody S cb (some ms) s)
          (fun s _ => nothingLost S cb (some ms) s) s (List.replicate fuel ()) = true ∧
        Grouped (entered o.2.log) o.2.links ∧ List.Forall₂ Fills es (filled o.2.log)) := by
  induction todo generalizing done s pos fuel with
  | nil =>
    obtain ⟨fuel, rfl⟩ := Nat.exists_eq_succ_of_ne_zero (Nat.ne_of_gt hfuel)
    have hpath : t.header.path = TRAILER := by rw [← htrail, Entry.header]
    obtain ⟨io1, hget, -, -⟩ := getNextHeader_at hF ht hfits h.place hpos
    have hbody : loopBody S cb (some ms) s = .stopped (.ended .ok, { s with io := io1 }) :=
      loopBody_last cb hget hpath
    rw [installLoop, List.replicate_succ, run_cons_stopped _ hbody, along, hbody]
    obtain rfl : es = done := by rw [hsplit]; exact List.append_nil _
    refine fun _ => ⟨rfl, ?_, h.groups, h.fills⟩
    simp only [nothingLost, hget, hpath, if_true, Bool.and_self]
  | cons e todo ih =>
    obtain ⟨fuel, rfl⟩ := Nat.exists_eq_succ_of_ne_zero (Nat.ne_of_gt (Nat.zero_lt_of_lt hfuel))
    obtain ⟨he, hne⟩ := htodo e (by simp)
    have halign := he.aligned.2
    rw [encodeAll_cons, List.append_assoc] at h
    rw [List.map_cons, chosen_cons] at hsplit
    have hround := loopBody_made hF hQ cb hms hes hsplit (hkept e (by simp)) he hne hpos h
    rw [installLoop, List.replicate_succ, along]
    cases hbody : loopBody S cb (some ms) s with
    | stopped o =>
      rw [hbody] at hround
      rw [run_cons_stopped _ hbody]
      intro hquiet
      rw [show quiet o.2.io.w = false from hround] at hquiet
      cases hquiet
    | running s1 =>
      rw [hbody] at hround
      rw [run_cons_running _ hbody]
      have hback := @installLoop_quiet W S quiet (some ms) hQ cb fuel s1
      by_cases hs1 : quiet s1.io.w = true
      · obtain ⟨hlost, hrunning⟩ := hround hs1
        rw [← List.append_assoc] at hsplit
        have hrest := ih hsplit (fun x hx => htodo x (by simp [hx]))
          (fun x hx => hkept x (by simp [hx])) (by omega) hrunning (by simpa using hfuel)
        refine hrest.imp (fun _ h => h) (fun o ho hquiet => ?_)
        obtain ⟨hend, halong, hfinal⟩ := ho hquiet
        exact ⟨hend, by rw [hlost]; exact halong, hfinal⟩
      · refine hback.imp (fun s2 hs2 => ?_) (fun o ho hquiet => absurd (ho hquiet) hs1)
        by_contra hquiet
        exact hs1 (hs2 (by simpa using hquiet))

/-- A loop that ends well, and has entered what was to be chosen, has kept all entries. -/
theorem run_kept (hF : FullReads S stream) (hQ : Watched S quiet) (cb : Bool) (hms : Sorted ms)
    (hes : Makeable es) (todo : List Entry) (hsplit : es = done ++ chosen ms (todo.map itemOf))
    (htodo : ∀ e ∈ todo, e.WellFormed ∧ e.path ≠ TRAILER) (ht : t.WellFormed) (hpos : pos % 4 = 0)
    (h : Running stream done pos (encodeAll todo ++ (t.encode ++ tail)) s)
    (hrun : installLoop S cb (some ms) fuel s = .stopped (.ended .ok, s'))
    (hquiet : quiet s'.io.w = true)
    (hlog : (entered s'.log).map trimmed = es.map (fun e => trimmed e.head)) :
    (∀ e ∈ todo, Kept ms e) ∧ t.NameFits := by
  have hshort : ∀ (e : Entry) (left : Str) {pos : ℤ} {fuel : ℕ} {s : St W}, e.WellFormed →
      At stream s.io pos (e.encode ++ left) →
      installLoop S cb (some ms) fuel s = .stopped (.ended .ok, s') → e.NameFits := by
    intro e left pos fuel s he hat hrun
    by_contra hlong
    obtain ⟨s2, hfault⟩ := loopBody_long hF (some ms) cb he hlong hat
    cases fuel with
    | zero => cases hrun
    | succ fuel =>
      rw [installLoop, List.replicate_succ, run_cons_stopped _ hfault] at hrun
      cases hrun
  induction todo generalizing done s pos fuel with
  | nil => exact ⟨fun e he => absurd he List.not_mem_nil, hshort t tail ht h.place hrun⟩
  | cons e todo ih =>
    obtain ⟨he, hne⟩ := htodo e (by simp)
    have halign := he.aligned.2
    rw [encodeAll_cons, List.append_assoc] at h
    rw [List.map_cons, chosen_cons] at hsplit
    have hfite := hshort e _ he h.place hrun
    cases fuel with
    | zero => cases hrun
    | succ fuel =>
      obtain ⟨io1, hget, -, -⟩ := getNextHeader_at hF he hfite h.place hpos
      have hpath : e.header.path ≠ TRAILER := by rwa [Entry.header]
      have htype := typeKept_head cb hms hget hpath hrun h.heads hsplit hlog
      have hkept : Kept ms e := ⟨hfite, htype, targetsFit_head cb hms hget hpath htype he hrun⟩
      have hround := loopBody_made hF hQ cb hms hes hsplit hkept he hne hpos h
      rw [installLoop, List.replicate_succ] at hrun
      cases hbody : loopBody S cb (some ms) s with
      | stopped o =>
        rw [run_cons_stopped _ hbody] at hrun
        rw [hbody, Status.stopped.inj hrun] at hround
        rw [show quiet s'.io.w = false from hround] at hquiet
        cases hquiet
      | running s1 =>
        rw [run_cons_running _ hbody] at hrun
        rw [hbody] at hround
        have hback := @installLoop_quiet W S quiet (some ms) hQ cb fuel s1
        rw [installLoop, hrun] at hback
        obtain ⟨-, hrunning⟩ := hround (hback hquiet)
        rw [← List.append_assoc] at hsplit
        obtain ⟨hall, hfitt⟩ :=
          ih hsplit (fun x hx => htodo x (by simp [hx])) (by omega) hrunning hrun
        exact ⟨List.forall_mem_cons.mpr ⟨hkept, hall⟩, hfitt⟩

theorem sweepLinks_made (hQ : Watched S quiet) (links : List HardLink)
    (hmade : ∀ li ∈ links, li.createdPath ≠ none)
    (hquiet : quiet (sweepLinks S links s).2.io.w = true) :
    (sweepLinks S links s).1 = .ok ∧ filled (sweepLinks S links s).2.log = filled s.log := by
  induction links generalizing s with
  | nil => exact ⟨rfl, rfl⟩
  | cons li links ih =>
    rw [List.forall_mem_cons] at hmade
    rw [sweepLinks] at hquiet ⊢
    split
    · rename_i hleft
      rw [if_pos hleft, if_neg hmade.1] at hquiet
      rw [if_neg hmade.1]
      have hlinks := createLinks_quiet hQ s li true
      obtain ⟨hlog, hsel, -⟩ := createLinks_log (S := S) s li true
      have hsilent := linkEvents_silent S s li true
      cases hcall : createLinks S s li true with
      | mk rc s1 =>
        rw [hcall] at hquiet hlinks hlog
        cases rc with
        | ok =>
          obtain ⟨hrc, hfilled⟩ := ih hmade.2 hquiet
          refine ⟨hrc, hfilled.trans ?_⟩
          rw [hlog, filled_silent s.log hsel hsilent]
        | _ => exact absurd (before hlinks hquiet).2 (by simp)
    · rename_i hleft
      rw [if_neg hleft] at hquiet
      exact ih hmade.2 hquiet

end Loop

section Call

variable {W : Type} {S : Sys W} {stream : W → Str} {quiet : W → Bool} {ms : List FileMapping}

theorem chosen_size (ms : List FileMapping) (A : Archive) :
    ∀ x ∈ chosen ms (A.entries.map itemOf), x.head.size = x.data.length := by
  intro x hx
  obtain ⟨y, hy, hxy⟩ := List.mem_filterMap.mp hx
  obtain ⟨e, he, rfl⟩ := List.mem_map.mp hy
  rw [choose, Option.map_eq_some_iff] at hxy
  obtain ⟨map, -, rfl⟩ := hxy
  change (mapped map e.header).size = e.data.length
  rw [mapped_size, (A.wellFormed e he).header_size]

theorem keepsTypes_entries (hms : Sorted ms) (A : Archive) :
    KeepsTypes ms (A.entries.map itemOf) ↔ ∀ e ∈ A.entries, TypeKept ms e.header := by
  rw [keepsTypes_iff hms, List.forall_mem_map]
  rfl

theorem targetsFit_entries (ms : List FileMapping) (A : Archive) :
    TargetsFit (chosen ms (A.entries.map itemOf)) ↔
      ∀ e ∈ A.entries, TargetsFit (choose ms (itemOf e)).toList := by
  simp only [TargetsFit, chosen, List.mem_filterMap, List.mem_map, Option.mem_toList]
  constructor
  · exact fun h e he x hx => h x ⟨itemOf e, ⟨e, he, rfl⟩, hx⟩
  · rintro h x ⟨_, ⟨e, he, rfl⟩, hx⟩
    exact h e he x hx

theorem running_start {w : W} {left : Str} (hw : stream w = left) (lastDir : Option Str) :
    Running stream [] 0 left (startState w lastDir) :=
  ⟨⟨rfl, hw⟩, grouped_nil, .nil⟩

/-- The end of the loop in a call without a failing call. -/
theorem returned_quiet (hQ : Watched S quiet) {cb : Bool} {mappings : Option (List FileMapping)}
    {fuel : ℕ} {w : W} {lastDir : Option Str} {o : LoopEnd × St W}
    (hloop : installLoop S cb mappings fuel (startState w lastDir) = .stopped o)
    (hquiet : quiet (myCpioInstallArchive S cb mappings fuel w lastDir).2.io.w = true) :
    quiet o.2.io.w = true := by
  rw [myCpioInstallArchive, hloop] at hquiet
  obtain ⟨_ | _ | rc, s⟩ := o
  · exact hquiet
  · exact hquiet
  · cases rc
    case ok => exact sweepLinks_quiet hQ s.links hquiet
    all_goals exact hquiet

def smallTree : Archive where
  entries := [newcEntry 1 0o040755 2 (ascii "etc") [],
    newcEntry 2 0o100644 1 (ascii "etc/motd") (ascii "hi"),
    newcEntry 3 0o100644 1 (ascii "readme") (ascii "text")]
  trailer := trailerEntry
  wellFormed := by decide +kernel
  trailerWellFormed := trailerEntry_wellFormed
  isTrailer := trailerEntry_path
  noTrailer := by decide +kernel

/-- The directory as it is, and the file in it under another name for another owner, with a mode
that has the type of the file. -/
def smallMappings : List FileMapping :=
  [⟨ascii "etc", [], 0, 0, 0, 0⟩, ⟨ascii "etc/motd", ascii "etc/issue", 0o100600, 7, 8, 15⟩]

/-- A mode with permission bits alone, as `cpio.h` has it. -/
def permissionsOnly : List FileMapping := [⟨ascii "readme", [], 0o600, 0, 0, 2⟩]

end Call

end Comodoo.CpioMappedInstall
