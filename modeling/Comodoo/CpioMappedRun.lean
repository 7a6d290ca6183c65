import Comodoo.CpioMappedInstall

set_option autoImplicit false

/-!
# Mappings and the tree of an archive

On an empty disk the chosen entries leave the tree of what they are mapped to.
-/
namespace Comodoo.CpioMappedRun
open CString CpioSystem CpioRead CpioExpand CpioInstall CpioLog CpioFormat CpioStream CpioDisk
open CpioDiskCalls CpioDiskFiles CpioTree CpioTreeGroups CpioTreeSteps CpioTreeMembers
open CpioTreeRun CpioTreeCorrect CpioTreeInstall CpioMapped CpioMappedInstall FilePath StepRun

variable {ms : List FileMapping} {es done : List Item} {e : Entry} {s s' : St Host} {pos : ℤ}
  {tail : Str}

theorem applyMapping_eq {map : FileMapping} {ch : CpioHeader} (hfinal : map.finalMode < 65536)
    (hmode : ch.mode < 65536)
    (hkept : map.mapFlags.testBit 1 = true → S_IFMT map.finalMode = S_IFMT ch.mode) :
    applyMapping map ch = mapped map ch := by
  rw [applyMapping, mapped, CpioHeader.mk.injEq]
  by_cases hflag : map.mapFlags.testBit 1 = true
  · have htype := hkept hflag
    simp only [S_IFMT] at htype
    simp only [hflag, if_true, true_and, and_true]
    omega
  · simp [hflag]

section Round

theorem loopBody_skipped (cb : Bool) {mappings : Option (List FileMapping)}
    (hsel : selectEntry mappings e.header = none) (he : e.WellFormed) (hfits : e.NameFits)
    (hne : e.path ≠ TRAILER) (hpos : pos % 4 = 0) (hat : At Host.input s.io pos (e.encode ++ tail)) :
    ∃ s', loopBody diskSys cb mappings s = .running s' ∧
      At Host.input s'.io (pos + e.encode.length) tail ∧ s'.io.w.disk = s.io.w.disk ∧
      s'.links = s.links ∧ s'.lastDir = s.lastDir := by
  have hpath : e.header.path = e.path := by rw [Entry.header]
  obtain ⟨io1, hget, hat1, -⟩ := getNextHeader_at diskSys_fullReads he hfits hat hpos
  have hdisk1 := getNextHeader_keeps diskSys_unread s.io
  obtain ⟨io2, heat, hat2, -⟩ := eatBytes_at diskSys_fullReads hat1
  have hdisk2 := eatBytes_keeps diskSys_unread io1 e.data.length
  rw [heat] at hdisk2
  rw [hget] at hdisk1
  obtain ⟨hat3, -⟩ := padinfd_at diskSys_fullReads hat2 (padAmount_data he hpos)
  have hdisk3 := padinfd_keeps diskSys_unread io2 4
  have hdisk : (padinfd diskSys io2 4).w.disk = s.io.w.disk :=
    hdisk3.trans (hdisk2.trans hdisk1)
  rw [← he.header_size] at heat
  obtain ⟨s', hrun, hpos', hw, hlinks', hlast', -⟩ := finishEntry_ok (S := diskSys) cb
    (skipEntry diskSys { s with io := io1 } e.header) e.header
  rw [skipEntry_eq (s := { s with io := io1 }) heat] at hpos' hw hlinks' hlast'
  refine ⟨s', ?_, ?_, ?_, hlinks', hlast'⟩
  · rw [loopBody_skip cb hget (by rw [hpath]; exact hne) hsel, hrun]
  · rw [encode_length he]
    exact hat3.move hpos' (by rw [hw])
  · rw [hw, hdisk]

theorem loopBody_mapped (cb : Bool) (hms : Sorted ms) (hes : Installable es) {rest : List Item}
    (hsplit : es = done ++ ((choose ms (itemOf e)).toList ++ rest))
    (h : Sim es done s.io.w.disk s.links s.lastDir) (hkept : TypeKept ms e.header)
    (hmode : e.header.mode < 65536) (hfinal : ∀ map ∈ ms, map.finalMode < 65536)
    (he : e.WellFormed) (hfits : e.NameFits) (hne : e.path ≠ TRAILER) (hpos : pos % 4 = 0)
    (hat : At Host.input s.io pos (e.encode ++ tail)) :
    (∃ s', loopBody diskSys cb (some ms) s = .running s' ∧
      At Host.input s'.io (pos + e.encode.length) tail ∧
      Sim es (done ++ (choose ms (itemOf e)).toList) s'.io.w.disk s'.links s'.lastDir ∧
      entered s'.log = entered s.log ++ (choose ms (itemOf e)).toList.map Item.head) ∨
    (∃ rc s', loopBody diskSys cb (some ms) s = .stopped (.ended rc, s') ∧ rc ≠ .ok ∧
      ¬ LinksPlaced es) := by
  have hpath : e.header.path ≠ TRAILER := by rwa [Entry.header]
  obtain ⟨io1, hget, -, -⟩ := getNextHeader_at diskSys_fullReads he hfits hat hpos
  have hentered := loopBody_entered (some ms) cb hget hpath
  cases hmap : mappingOf ms e.header.path with
  | none =>
    obtain ⟨hsel, hchoose⟩ := selectEntry_eq_none hms hmap
    obtain ⟨s', hbody, hat', hdisk, hlinks, hlast⟩ := loopBody_skipped cb hsel he hfits hne hpos hat
    rw [hbody, hsel] at hentered
    rw [hchoose]
    refine Or.inl ⟨s', hbody, hat', ?_, hentered⟩
    rw [hdisk, hlinks, hlast]
    simpa using h
  | some map =>
    obtain ⟨hsel, hchoose⟩ := selectEntry_eq_some hms hmap
    have hmem := ((mappingOf_eq_some hms).mp hmap).1
    rw [applyMapping_eq (hfinal map hmem) hmode (hkept map hmap)] at hsel
    rw [hchoose] at hsplit ⊢
    rcases loopBody_sim cb hes hsel (mapped_size map e.header) hsplit h he hfits hne hpos hat with
      ⟨s', hbody, hat', hsim⟩ | hfail
    · rw [hbody, hsel] at hentered
      exact Or.inl ⟨s', hbody, hat', hsim, hentered⟩
    · exact Or.inr hfail

end Round

section Loop

variable {t : Entry}

/-- With all types kept the chosen entries are installed in order, or the loop stops at one that
cannot be. -/
theorem run_mapped (cb : Bool) (hms : Sorted ms) (hes : Installable es) (todo : List Entry)
    (hsplit : es = done ++ chosen ms (todo.map itemOf))
    (hkept : ∀ e ∈ todo, e.header.mode < 65536 ∧ TypeKept ms e.header)
    (hfinal : ∀ map ∈ ms, map.finalMode < 65536) (h : Sim es done s.io.w.disk s.links s.lastDir)
    (htodo : ∀ e ∈ todo, e.WellFormed ∧ e.NameFits ∧ e.path ≠ TRAILER) (ht : t.WellFormed)
    (hfitt : t.NameFits) (htrail : t.path = TRAILER) (hpos : pos % 4 = 0)
    (hat : At Host.input s.io pos (encodeAll todo ++ (t.encode ++ tail))) {fuel : ℕ}
    (hfuel : todo.length < fuel) :
    (∃ s', installLoop diskSys cb (some ms) fuel s = .stopped (.ended .ok, s') ∧
      Sim es es s'.io.w.disk s'.links s'.lastDir ∧
      entered s'.log = entered s.log ++ (chosen ms (todo.map itemOf)).map Item.head) ∨
    (∃ rc s', installLoop diskSys cb (some ms) fuel s = .stopped (.ended rc, s') ∧ rc ≠ .ok ∧
      ¬ LinksPlaced es) := by
  induction todo generalizing done s pos fuel with
  | nil =>
    obtain ⟨fuel, rfl⟩ := Nat.exists_eq_succ_of_ne_zero (Nat.ne_of_gt hfuel)
    obtain ⟨s', hbody, hdisk, hlinks, hlast, hlog⟩ :=
      loopBody_end (some ms) cb ht hfitt htrail hpos hat
    left
    refine ⟨s', by rw [installLoop, List.replicate_succ, run_cons_stopped _ hbody], ?_, ?_⟩
    · have hdone : es = done := by rw [hsplit]; exact List.append_nil _
      rw [hdisk, hlinks, hlast]
      rw [hdone] at h ⊢
      exact h
    · rw [hlog]
      exact (List.append_nil _).symm
  | cons e todo ih =>
    obtain ⟨fuel, rfl⟩ := Nat.exists_eq_succ_of_ne_zero (Nat.ne_of_gt (Nat.zero_lt_of_lt hfuel))
    obtain ⟨he, hfite, hne⟩ := htodo e (by simp)
    have halign := he.aligned.2
    rw [encodeAll_cons, List.append_assoc] at hat
    rw [List.map_cons, chosen_cons] at hsplit
    rw [installLoop, List.replicate_succ]
    rcases loopBody_mapped cb hms hes hsplit h (hkept e (by simp)).2
        (hkept e (by simp)).1 hfinal he hfite hne hpos hat with
      ⟨s1, hbody, hat1, hsim, hlog⟩ | ⟨rc, s', hbody, hrc, hnot⟩
    · rw [run_cons_running _ hbody]
      rw [← List.append_assoc] at hsplit
      rcases ih hsplit (fun x hx => hkept x (by simp [hx])) hsim
        (fun x hx => htodo x (by simp [hx])) (by omega) hat1 (by simpa using hfuel) with
        ⟨s', hrun, hsim', hlog'⟩ | hfail
      · refine Or.inl ⟨s', hrun, hsim', ?_⟩
        rw [hlog', hlog, List.map_cons, chosen_cons, List.map_append, List.append_assoc]
      · exact Or.inr hfail
    · exact Or.inr ⟨rc, s', by rw [run_cons_stopped _ hbody], hrc, hnot⟩

end Loop

section Call

variable {A : Archive} {lastDir : Option Str}

/-- On an empty disk the entries in the mappings are installed, each as it is mapped, if no mapping
changes a type and the links of the installed entries can be made. -/
theorem myCpioInstallArchive_mapped_tree (A : Archive) (hsmall : Small A) (ms : List FileMapping)
    (hms : Sorted ms) (hes : Installable (chosen ms (items A)))
    (hmodes : ∀ e ∈ items A, e.head.mode < 65536) (hfinal : ∀ map ∈ ms, map.finalMode < 65536)
    (hkept : KeepsTypes ms (items A)) (hplaced : LinksPlaced (chosen ms (items A)))
    (tail : Str) (lastDir : Option Str)
    (hmemo : Remembers (chosen ms (items A)) emptyDisk lastDir) (cb : Bool) (fuel : ℕ)
    (hfuel : A.entries.length < fuel) :
    ∃ s, myCpioInstallArchive diskSys cb (some ms) fuel ⟨A.bytes ++ tail, emptyDisk⟩ lastDir =
        (.returned .ok, s) ∧
      entered s.log = (chosen ms (items A)).map Item.head ∧
      Describes (chosen ms (items A)) s.io.w.disk := by
  have hstart : At Host.input (startState (⟨A.bytes ++ tail, emptyDisk⟩ : Host) lastDir).io 0
      (encodeAll A.entries ++ (A.trailer.encode ++ tail)) :=
    ⟨rfl, List.append_assoc _ _ _⟩
  have hsplit : chosen ms (items A) = [] ++ chosen ms (A.entries.map itemOf) := by
    rw [List.nil_append, items_eq hsmall]
  have hsim : Sim (chosen ms (items A)) [] emptyDisk [] lastDir :=
    emptyDisk_sim _ (Or.inl hmemo)
  have htodo : ∀ e ∈ A.entries, e.WellFormed ∧ e.NameFits ∧ e.path ≠ TRAILER :=
    fun e he => ⟨A.wellFormed e he, hsmall.2.1 e he, A.noTrailer e he⟩
  have hentries : ∀ e ∈ A.entries, e.header.mode < 65536 ∧ TypeKept ms e.header := by
    rw [keepsTypes_iff hms] at hkept
    rw [items_eq hsmall] at hmodes hkept
    intro e he
    have hmem : itemOf e ∈ A.entries.map itemOf := List.mem_map_of_mem he
    exact ⟨hmodes (itemOf e) hmem, hkept (itemOf e) hmem⟩
  rcases run_mapped cb hms hes A.entries hsplit hentries hfinal hsim htodo A.trailerWellFormed
    hsmall.2.2 A.isTrailer rfl hstart hfuel with ⟨s1, hloop, hsim', hlog⟩ | ⟨rc, s1, hloop, hrc, hnot⟩
  · obtain ⟨rc, s2, hsweep, hdone, hok⟩ := sweepLinks_sim hes s1.links (sim_sweep hsim')
    obtain rfl := (hok.trans (ready_iff hes hsim')).mpr hplaced
    refine ⟨s2, ?_, ?_, sweep_describes (hdone rfl)⟩
    · rw [myCpioInstallArchive, hloop]
      simp only [hsweep]
    · rw [sweepLinks_entered s1.links hsweep, hlog, items_eq hsmall]
      rfl
  · exact absurd hplaced hnot

theorem smallMappings_installable : Installable (chosen smallMappings (items smallTree)) :=
  ⟨by decide +kernel, by decide +kernel, by decide +kernel, by decide +kernel, by decide +kernel,
    by decide +kernel, by decide +kernel⟩

theorem myCpioInstallArchive_mapped_tree_smallTree :
    ∃ s, myCpioInstallArchive diskSys true (some smallMappings) 4
        ⟨smallTree.bytes ++ [], emptyDisk⟩ none = (.returned .ok, s) ∧
      entered s.log = (chosen smallMappings (items smallTree)).map Item.head ∧
      Describes (chosen smallMappings (items smallTree)) s.io.w.disk :=
  myCpioInstallArchive_mapped_tree smallTree (by decide +kernel) smallMappings (by decide +kernel)
    smallMappings_installable (by decide +kernel) (by decide +kernel) (by decide +kernel)
    (by decide +kernel) [] none (by simp [Remembers]) true 4 (by decide +kernel)

end Call

end Comodoo.CpioMappedRun
