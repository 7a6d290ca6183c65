import Comodoo.CpioStream
import Comodoo.CpioWaiting

set_option autoImplicit false

/-!
# A return value of 0

When the call returns 0, every entry that was selected has been made and no call has failed,
exactly when none of the results that the code drops or overwrites was an error. Nothing is
assumed of the system.
-/
namespace Comodoo.CpioErrors
open CString CpioSystem CpioRead CpioExpand CpioInstall CpioFormat CpioStream CpioGroups CpioLog
open CpioWaiting StepRun

variable {W : Type} {S : Sys W}

section Loop

variable {mappings : Option (List FileMapping)} {log : List Event} {ch : CpioHeader} {s s' : St W}

/-- None of the results that are dropped or overwritten while this entry is installed is an error:
`createLinks` and `eatBytes` of a later member, and `createFile` of the data member. -/
def entryKept (S : Sys W) (cb : Bool) (s : St W) (ch : CpioHeader) : Bool :=
  if isLink ch then
    let li := groupOf s.links ch
    match li.files.findIdx? (fun f => f.isNone) with
    | none => true
    | some linkNum =>
      let li := { li with files := li.files.set linkNum (some ch.path) }
      let s := { s with links := putGroup s.links li }
      if ch.size = 0 ∧ li.createdPath = none then true
      else if li.createdPath ≠ none then
        let r := createLinks S s li false
        r.1 = .ok ∧ (ch.size = 0 ∨ (eatBytes S r.2.io ch.size).1 = .ok)
      else (createFile S cb s ch).all (fun r => r.1 = .ok)
  else true

/-- None of the results that the next round drops or overwrites is an error. -/
def nothingLost (S : Sys W) (cb : Bool) (mappings : Option (List FileMapping)) (s : St W) : Bool :=
  match getNextHeader S s.io with
  | (.header ch _, io) =>
    if ch.path = TRAILER then true
    else
      match selectEntry mappings ch with
      | none => (eatBytes S io ch.size).1 = .ok
      | some ch => entryKept S cb { s with io := io, log := s.log ++ [.selected ch] } ch
  | _ => true

section Members

variable {links : List HardLink} {old li : HardLink} {k : ℕ}

theorem laterMember_round (hlog : s.log = log ++ [.selected ch]) (hlink : isLink ch = true)
    (hk : (groupOf links ch).files.findIdx? (fun f => f.isNone) = some k)
    (hcreated : (groupOf links ch).createdPath ≠ none) (hlinks : s.links = putGroup links old)
    (hold : old.inode = ch.inode ∧ old.dev = ch.dev) (hkey : li.inode = ch.inode ∧ li.dev = ch.dev)
    (hfiles : li.files = (groupOf links ch).files.set k (some ch.path))
    (hsame : li.createdPath = (groupOf links ch).createdPath) :
    ∃ new, (laterMember S s li ch).log = log ++ .selected ch :: new ∧
      (((createLinks S s li false).1 = .ok ∧
        (ch.size = 0 ∨ (eatBytes S (createLinks S s li false).2.io ch.size).1 = .ok)) ↔
        NoErrors new) ∧
      (Inv links log → NoErrors new → Inv (laterMember S s li ch).links
        (laterMember S s li ch).log) := by
  obtain ⟨hlog', -, hok⟩ := createLinks_log (S := S) s li false
  obtain ⟨eaten, hlate, hsel, hlast, heaten⟩ : ∃ eaten,
      (laterMember S s li ch).log = s.log ++ (linkEvents S s li false ++ eaten) ∧
      (∀ ev ∈ eaten, isSelected ev = false) ∧
      (laterMember S s li ch).links = (createLinks S s li false).2.links ∧
      (NoErrors eaten ↔
        ch.size = 0 ∨ (eatBytes S (createLinks S s li false).2.io ch.size).1 = .ok) := by
    rw [laterMember]
    split
    · rename_i hzero
      exact ⟨[], by simp [hlog'], by simp, rfl, by simp [NoErrors, hzero]⟩
    · rename_i hzero
      refine ⟨[.result .eatBytes ch.path
        (eatBytes S (createLinks S s li false).2.io ch.size).1 false], ?_, by simp [isSelected],
        rfl, by simp [NoErrors, okay, hzero]⟩
      simp [hlog']
  rw [hlog, List.append_assoc, List.singleton_append] at hlate
  refine ⟨_, hlate, by rw [noErrors_append, hok, heaten], fun hinv hnew => ?_⟩
  rw [noErrors_append, hok] at hnew
  rw [hlast, hlate]
  exact hinv.follow hlink hk hcreated hsel hlinks hold hkey hfiles hsame hnew.1

theorem dataMember_round (cb : Bool) (hrun : dataMember S cb s li k ch = some (.ok, s'))
    (hlog : s.log = log ++ [.selected ch]) (hlink : isLink ch = true)
    (hk : (groupOf links ch).files.findIdx? (fun f => f.isNone) = some k)
    (hlinks : s.links = putGroup links old) (hold : old.inode = ch.inode ∧ old.dev = ch.dev)
    (hkey : li.inode = ch.inode ∧ li.dev = ch.dev)
    (hfiles : li.files = (groupOf links ch).files.set k (some ch.path)) :
    ∃ new, s'.log = log ++ .selected ch :: new ∧
      ((createFile S cb s ch).all (fun r => r.1 = .ok) = true ↔ NoErrors new) ∧
      (Inv links log → NoErrors new → Inv s'.links s'.log) := by
  simp only [dataMember, Option.map_eq_some_iff, Prod.exists] at hrun
  obtain ⟨rc, s1, hcreate, hrun⟩ := hrun
  obtain ⟨hsame, made, hlog1, hsel, hmadeok, hmade⟩ := createFile_log cb hcreate
  generalize hli' : { li with createdPath := some k, linksLeft := li.linksLeft - 1 } = li' at hrun
  obtain ⟨hlog2, -, hok⟩ := createLinks_log (S := S) s1 li' true
  have hrc : (createLinks S s1 li' true).1 = .ok := by rw [hrun]
  have hs' : (createLinks S s1 li' true).2 = s' := by rw [hrun]
  rw [hlog1, hlog, hs'] at hlog2
  simp only [List.append_assoc, List.cons_append, List.nil_append] at hlog2
  refine ⟨_, hlog2, ?_, fun hinv hnew => ?_⟩
  · rw [noErrors_append, hmadeok, hok, hcreate]
    simp [hrc]
  · rw [noErrors_append, hmadeok] at hnew
    rw [hlog2, ← hs']
    refine hinv.carry hlink hk hsel (hmade hnew.1) (hsame.trans hlinks) hold ?_ ?_ ?_ hrc
    · rw [← hli']
      exact hkey
    · rw [← hli']
      exact hfiles
    · rw [← hli']

end Members

theorem installEntry_round (cb : Bool) (hlog : s.log = log ++ [.selected ch])
    (hrun : installEntry S cb s ch = some (.ok, s')) :
    ∃ new, s'.log = log ++ .selected ch :: new ∧ (entryKept S cb s ch = true ↔ NoErrors new) ∧
      (Inv s.links log → NoErrors new → Inv s'.links s'.log) := by
  rw [installEntry] at hrun
  rw [entryKept]
  by_cases hlink : isLink ch = true
  · simp only [hlink, if_true] at hrun ⊢
    obtain ⟨hinode, hdev⟩ := groupOf_key s.links ch
    cases hk : (groupOf s.links ch).files.findIdx? (fun f => f.isNone) with
    | none => simp [hk] at hrun
    | some k =>
      simp only [hk] at hrun ⊢
      split at hrun
      · -- deferred
        rename_i hdefer
        obtain ⟨-, rfl⟩ := Prod.mk.inj (Option.some.inj hrun)
        refine ⟨[], hlog, by simp [hdefer, NoErrors], fun hinv _ => ?_⟩
        rw [hlog]
        exact hinv.defer hlink hk hdefer.2
      · rename_i hdefer
        rw [if_neg hdefer]
        split at hrun
        · rename_i hlater
          rw [if_pos hlater]
          obtain ⟨-, rfl⟩ := Prod.mk.inj (Option.some.inj hrun)
          simp only [decide_eq_true_eq]
          exact laterMember_round hlog hlink hk hlater rfl ⟨hinode, hdev⟩ ⟨hinode, hdev⟩ rfl rfl
        · rename_i hlater
          rw [if_neg hlater]
          exact dataMember_round cb hrun hlog hlink hk rfl ⟨hinode, hdev⟩ ⟨hinode, hdev⟩ rfl
  · simp only [hlink, Bool.false_eq_true, if_false] at hrun ⊢
    obtain ⟨hsame, new, hlog', hsel, hnew, hmade⟩ := createFile_log cb hrun
    rw [hlog, List.append_assoc] at hlog'
    refine ⟨new, hlog', by simp [hnew], fun hinv _ => ?_⟩
    rw [hsame, hlog']
    exact hinv.plain hsel (hmade rfl)

theorem loopBody_round (cb : Bool) (hrun : loopBody S cb mappings s = .running s') :
    ∃ new, s'.log = s.log ++ new ∧ (nothingLost S cb mappings s = true ↔ NoErrors new) ∧
      (Inv s.links s.log → NoErrors new → Inv s'.links s'.log) := by
  rw [loopBody] at hrun
  rw [nothingLost]
  generalize getNextHeader S s.io = next at hrun ⊢
  rcases next with ⟨rc | ⟨ch, phys⟩ | _, io⟩
  · cases hrun
  · simp only at hrun ⊢
    split at hrun
    · cases hrun
    · rename_i hpath
      rw [if_neg hpath]
      cases hsel : selectEntry mappings ch with
      | none =>
        simp only [hsel, skipEntry, finishEntry, if_true] at hrun
        obtain rfl := Status.running.inj hrun
        refine ⟨_, rfl, by simp [NoErrors, okay], fun hinv _ => ?_⟩
        exact hinv.grow (by simp [isSelected])
      | some ch' =>
        simp only [hsel] at hrun ⊢
        cases hinst : installEntry S cb
            { s with io := io, log := s.log ++ [.selected ch'] } ch' with
        | none => simp [hinst] at hrun
        | some r =>
          obtain ⟨rc, s1⟩ := r
          simp only [hinst, finishEntry] at hrun
          split at hrun
          · rename_i hrc
            subst hrc
            obtain rfl := Status.running.inj hrun
            obtain ⟨new, hlog, hkept, hinv⟩ := installEntry_round cb rfl hinst
            have hcons : NoErrors (.selected ch' :: new) ↔ NoErrors new := by simp [NoErrors, okay]
            rw [← hcons] at hkept hinv
            exact ⟨_, hlog, hkept, hinv⟩
          · cases hrun
  · cases hrun

theorem loopBody_trailer (cb : Bool) (hrun : loopBody S cb mappings s = .stopped (.ended .ok, s')) :
    s'.log = s.log ∧ s'.links = s.links ∧ nothingLost S cb mappings s = true := by
  rw [loopBody] at hrun
  rw [nothingLost]
  generalize getNextHeader S s.io = next at hrun ⊢
  rcases next with ⟨rc | ⟨ch, phys⟩ | _, io⟩
  · simp at hrun
  · simp only at hrun ⊢
    split at hrun
    · rename_i hpath
      rw [if_pos hpath]
      obtain ⟨-, rfl⟩ := Prod.mk.inj (Status.stopped.inj hrun)
      exact ⟨rfl, rfl, rfl⟩
    · -- an entry ends the loop only with an error
      cases hsel : selectEntry mappings ch with
      | none => simp [hsel, finishEntry] at hrun
      | some ch' =>
        simp only [hsel] at hrun
        split at hrun
        · simp at hrun
        · rw [finishEntry] at hrun
          split at hrun
          · cases hrun
          · rename_i hrc
            obtain ⟨hend, -⟩ := Prod.mk.inj (Status.stopped.inj hrun)
            exact absurd (LoopEnd.ended.inj hend) hrc
  · simp at hrun

theorem run_round (cb : Bool) (fuel : ℕ)
    (hrun : run (fun s (_ : Unit) => loopBody S cb mappings s) s (List.replicate fuel ()) =
      .stopped (.ended .ok, s')) :
    ∃ new, s'.log = s.log ++ new ∧
      (along (fun s (_ : Unit) => loopBody S cb mappings s)
        (fun s _ => nothingLost S cb mappings s) s (List.replicate fuel ()) = true ↔
        NoErrors new) ∧
      (Inv s.links s.log → NoErrors new → Inv s'.links s'.log) := by
  induction fuel generalizing s with
  | zero => cases hrun
  | succ fuel ih =>
    rw [List.replicate_succ] at hrun ⊢
    rw [along]
    cases hbody : loopBody S cb mappings s with
    | stopped o =>
      rw [run_cons_stopped _ hbody] at hrun
      obtain rfl := Status.stopped.inj hrun
      obtain ⟨hlog, hlinks, hlost⟩ := loopBody_trailer cb hbody
      refine ⟨[], by simp [hlog], by simp [hlost, NoErrors], fun hinv _ => ?_⟩
      rw [hlog, hlinks]
      exact hinv
    | running s1 =>
      rw [run_cons_running _ hbody] at hrun
      obtain ⟨new1, hlog1, hlost1, hinv1⟩ := loopBody_round cb hbody
      obtain ⟨new2, hlog2, hlost2, hinv2⟩ := ih hrun
      refine ⟨new1 ++ new2, by rw [hlog2, hlog1, List.append_assoc], ?_, fun hinv hnew => ?_⟩
      · rw [Bool.and_eq_true, hlost1, noErrors_append]
        exact and_congr_right (fun _ => hlost2)
      · rw [noErrors_append] at hnew
        exact hinv2 (hinv1 hinv hnew.1) hnew.2

theorem sweepLinks_ok {ls : List HardLink} (hrun : sweepLinks S ls s = (.ok, s')) :
    (∀ li ∈ ls, li.linksLeft = 0 ∨ li.createdPath ≠ none) ∧
      ∃ new, s'.log = s.log ++ new ∧ NoErrors new ∧ ∀ ev ∈ new, isSelected ev = false := by
  induction ls generalizing s with
  | nil =>
    obtain ⟨-, rfl⟩ := Prod.mk.inj hrun
    exact ⟨by simp, [], by simp, by simp [NoErrors], by simp⟩
  | cons li ls ih =>
    rw [sweepLinks] at hrun
    split at hrun
    · split at hrun
      · simp at hrun
      · rename_i hleft hcreated
        obtain ⟨hlog, hsel, hok⟩ := createLinks_log (S := S) s li true
        split at hrun
        · rename_i s1 hlinks
          obtain ⟨hall, new, hlog', hnew, hsel'⟩ := ih hrun
          rw [hlinks] at hlog hok
          refine ⟨?_, linkEvents S s li true ++ new, ?_, ?_, ?_⟩
          · rintro li' (_ | ⟨_, hli'⟩)
            · exact Or.inr hcreated
            · exact hall li' hli'
          · rw [hlog', hlog, List.append_assoc]
          · exact noErrors_append.mpr ⟨hok.mpr rfl, hnew⟩
          · intro ev hev
            exact (List.mem_append.mp hev).elim (hsel ev) (hsel' ev)
        · rename_i rc s1 hne hlinks
          obtain ⟨rfl, -⟩ := Prod.mk.inj hrun
          exact absurd rfl hne
    · rename_i hleft
      obtain ⟨hall, hrest⟩ := ih hrun
      refine ⟨?_, hrest⟩
      rintro li' (_ | ⟨_, hli'⟩)
      · exact Or.inl (not_not.mp hleft)
      · exact hall li' hli'

theorem sweepLinks_created (h : Inv s.links s.log) (hrun : sweepLinks S s.links s = (.ok, s')) :
    AllCreated s'.log := by
  obtain ⟨hall, new, hlog, -, hsel⟩ := sweepLinks_ok hrun
  rw [hlog]
  intro front ch rest hsplit
  rcases (h.grow hsel).entries front ch rest hsplit with hdone | ⟨-, li, hli, -, -, hc, -⟩
  · exact hdone
  · -- a group without a file would have ended the sweep
    rcases hall li hli with hzero | hmade
    · exact absurd hzero (h.unmade li hli hc)
    · exact absurd hc hmade

end Loop

/-- When the call returns 0, everything selected has been created and no call has failed, exactly if
no result that the code drops or overwrites was an error. -/
theorem myCpioInstallArchive_created_iff (S : Sys W) (cb : Bool)
    (mappings : Option (List FileMapping)) (fuel : ℕ) (w : W) (lastDir : Option Str) (s : St W)
    (h : myCpioInstallArchive S cb mappings fuel w lastDir = (.returned .ok, s)) :
    along (fun s (_ : Unit) => loopBody S cb mappings s) (fun s _ => nothingLost S cb mappings s)
      (startState w lastDir) (List.replicate fuel ()) = true ↔
      NoErrors s.log ∧ AllCreated s.log := by
  rw [myCpioInstallArchive] at h
  split at h
  · cases (Prod.mk.inj h).1
  · cases (Prod.mk.inj h).1
  · cases (Prod.mk.inj h).1
  · rename_i s1 hloop
    obtain ⟨new, hlog, hlost, hinv⟩ := run_round cb fuel hloop
    obtain ⟨hrc, hs⟩ := Prod.mk.inj h
    have hsweep : sweepLinks S s1.links s1 = (.ok, s) := Prod.ext (Outcome.returned.inj hrc) hs
    obtain ⟨-, new', hlog', hnew', -⟩ := sweepLinks_ok hsweep
    have hnew : new = s1.log := by rw [hlog]; rfl
    rw [hlost, hnew]
    constructor
    · intro hok
      refine ⟨by rw [hlog', noErrors_append]; exact ⟨hok, hnew'⟩, ?_⟩
      exact sweepLinks_created (hinv inv_start (by rw [hnew]; exact hok)) hsweep
    · rw [hlog', noErrors_append]
      exact fun hok => hok.1.1
  · rename_i rc s1 hrc hloop
    obtain ⟨hrc', -⟩ := Prod.mk.inj h
    exact absurd (Outcome.returned.inj hrc') hrc

def linkPair : Str :=
  encodeAll [newcEntry 1 0o100644 2 (ascii "a") (ascii "x"),
    newcEntry 1 0o100644 2 (ascii "b") [], trailerEntry]

theorem myCpioInstallArchive_created_iff_linkPair :
    ∃ s, myCpioInstallArchive pipeSys false none 5 (linkPair, []) none = (.returned .ok, s) ∧
      NoErrors s.log ∧ AllCreated s.log := by
  refine ⟨_, rfl, ?_⟩
  exact (myCpioInstallArchive_created_iff pipeSys false none 5 (linkPair, []) none _ rfl).mp
    (by decide +kernel)

def fullDisk : Sys (Str × Str) := { pipeSys with write := fun w _ _ => (-1, w) }

/-- The file of the group is empty, and the call returns 0. -/
theorem failed_write_returns_zero :
    ∃ s, myCpioInstallArchive fullDisk false none 5 (linkPair, []) none = (.returned .ok, s) ∧
      .result (.expandRegular []) (ascii "a") .copyFailed false ∈ s.log ∧ ¬ AllCreated s.log := by
  refine ⟨_, rfl, by decide +kernel, fun hall => ?_⟩
  have hfirst := hall [] (newcEntry 1 0o100644 2 (ascii "a") (ascii "x")).header
    [.result .checkDirectory (ascii "a") .ok false,
      .result (.expandRegular []) (ascii "a") .copyFailed false,
      .result .createLinks (ascii "a") .ok true,
      .selected (newcEntry 1 0o100644 2 (ascii "b") []).header, .linked (ascii "a") (ascii "b"),
      .result .createLinks (ascii "a") .ok false] (by decide +kernel)
  rcases hfirst with ⟨call, looked, more, heq, -⟩ | ⟨-, source, -, hlinked⟩
  · simp at heq
  · have hpath : (newcEntry 1 0o100644 2 (ascii "a") (ascii "x")).header.path ≠ ascii "b" := by
      decide +kernel
    simp [hpath] at hlinked

end Comodoo.CpioErrors
