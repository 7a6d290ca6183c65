import Comodoo.CpioDiskFiles
import Comodoo.CpioGroups

set_option autoImplicit false

/-!
# Making the links of a group on the disk

The names of a group are linked in the order of their slots, up to the first one whose
directory is missing.
-/
namespace Comodoo.CpioDiskLinks
open CString CpioSystem CpioRead CpioExpand CpioInstall CpioGroups CpioDisk CpioDiskCalls FilePath

def reaches (d : Disk) (path : Str) : Bool := d.isDir (names path).dropLast

def joinAll (i : ℕ) : Disk → List Str → Disk
  | d, [] => d
  | d, f :: fs => joinAll i (d.join (names f) i) fs

section Join

variable {d : Disk} {cs : Place} {i : ℕ}

theorem isDir_join (habsent : d.ino cs = none) (hfile : S_ISDIR (d.node i).mode = false)
    (x : Place) : (d.join cs i).isDir x = d.isDir x := by
  by_cases hx : x = cs
  · subst hx
    have hjoin : (d.join x i).ino x = some i := by simp [Disk.join]
    have hnode : (d.join x i).node = d.node := rfl
    unfold Disk.isDir
    rw [hjoin, habsent, hnode, Option.any_some, hfile, Option.any_none]
  · have hjoin : (d.join cs i).ino x = d.ino x := by simp [Disk.join, hx]
    have hnode : (d.join cs i).node = d.node := rfl
    unfold Disk.isDir
    rw [hjoin, hnode]

theorem sound_join (h : Sound d) (hf : d.Fresh cs) (hi : i < d.next)
    (hfile : S_ISDIR (d.node i).mode = false) : Sound (d.join cs i) := by
  have hdir := isDir_join hf.absent hfile
  refine ⟨by rw [hdir]; exact h.root, ?_, ?_⟩
  · intro x j hx
    by_cases hcs : x = cs
    · subst hcs
      have hj : (d.join x i).ino x = some i := by simp [Disk.join]
      rw [hj] at hx
      obtain rfl := Option.some.inj hx
      exact hi
    · have hj : (d.join cs i).ino x = d.ino x := by simp [Disk.join, hcs]
      rw [hj] at hx
      exact h.bound x j hx
  · intro x j hne hx
    rw [hdir]
    by_cases hcs : x = cs
    · subst hcs
      exact hf.parent
    · have hj : (d.join cs i).ino x = d.ino x := by simp [Disk.join, hcs]
      rw [hj] at hx
      exact h.parents x j hne hx

theorem join_ino_ne {x : Place} (h : x ≠ cs) : (d.join cs i).ino x = d.ino x := by
  simp [Disk.join, h]

theorem joinAll_ino (d : Disk) (fs : List Str) (x : Place) :
    (joinAll i d fs).ino x = if x ∈ fs.map names then some i else d.ino x := by
  induction fs generalizing d with
  | nil => simp [joinAll]
  | cons f fs ih =>
    rw [joinAll, ih, List.map_cons]
    by_cases hx : x = names f
    · simp [hx, Disk.join]
    · simp [hx, join_ino_ne hx]

end Join

theorem link_free {source f : Str} {src : Place} {ino : ℕ} {w : Host}
    (hloc : locate source = some src) (hsrc : w.disk.ino src = some ino)
    (hfile : S_ISDIR (w.disk.node ino).mode = false) (hfloc : locate f = some (names f))
    (hne : names f ≠ []) (habsent : w.disk.ino (names f) = none) :
    diskSys.link w source f = if reaches w.disk f then
      (true, { w with disk := w.disk.join (names f) ino }) else (false, w) := by
  change w.link source f = _
  rw [Host.link, Disk.find_eq hloc, hsrc, hfloc]
  by_cases hreach : reaches w.disk f = true
  · rw [if_pos hreach]
    exact if_pos ⟨Disk.isFresh_iff.mpr ⟨hne, habsent, hreach⟩, hfile⟩
  · rw [if_neg hreach]
    exact if_neg (fun h => hreach (Disk.isFresh_iff.mp h.1).parent)

theorem linkFiles_disk {source : Str} {src : Place} {createdPath ino : ℕ}
    (hloc : locate source = some src) (files : List (Option Str)) (slot : ℕ) {ws : List Str}
    (hws : waiting createdPath slot files = ws) {w : Host} (hsrc : w.disk.ino src = some ino)
    (hfile : S_ISDIR (w.disk.node ino).mode = false) (hproper : ∀ f ∈ ws, Proper f)
    (hfree : ∀ f ∈ ws, names f ≠ [] ∧ w.disk.ino (names f) = none) (hnodup : (ws.map names).Nodup) :
    ∃ files' failed, linkFiles diskSys source createdPath slot files w =
        ⟨if ws.all (reaches w.disk) then .ok else .linkFailed, files',
          ws.takeWhile (reaches w.disk), failed,
          { w with disk := joinAll ino w.disk (ws.takeWhile (reaches w.disk)) }⟩ ∧
      files'.length = files.length ∧
      waiting createdPath slot files' = ws.dropWhile (reaches w.disk) ∧
      ∀ j, slot + j = createdPath → files'[j]? = files[j]? := by
  induction files generalizing slot w ws with
  | nil =>
    subst hws
    exact ⟨[], none, rfl, rfl, rfl, fun _ _ => rfl⟩
  | cons f fs ih =>
    cases f with
    | none =>
      obtain ⟨files', failed, hrun, hlen, hwait, hkept⟩ :=
        ih (slot + 1) hws hsrc hfile hproper hfree hnodup
      refine ⟨none :: files', failed, by rw [linkFiles, hrun], by simp [hlen], hwait, ?_⟩
      intro j hj
      cases j with
      | zero => rfl
      | succ j => exact hkept j (by omega)
    | some f =>
      rw [waiting] at hws
      by_cases hslot : slot = createdPath
      · rw [if_pos hslot] at hws
        obtain ⟨files', failed, hrun, hlen, hwait, hkept⟩ :=
          ih (slot + 1) hws hsrc hfile hproper hfree hnodup
        refine ⟨some f :: files', failed, by rw [linkFiles, if_pos hslot, hrun], by simp [hlen],
          by rw [waiting, if_pos hslot, hwait], ?_⟩
        intro j hj
        cases j with
        | zero => rfl
        | succ j => exact hkept j (by omega)
      · rw [if_neg hslot] at hws
        subst hws
        have hfloc := (hproper f (by simp)).locate
        obtain ⟨hne, habsent⟩ := hfree f (by simp)
        have hclear : clearPath diskSys w f = (true, w) :=
          CpioDiskFiles.clearPath_absent hfloc habsent
        rw [linkFiles, if_neg hslot, hclear]
        simp only [link_free hloc hsrc hfile hfloc hne habsent]
        by_cases hreach : reaches w.disk f = true
        · -- linked: the directories are what they were
          have hsame : reaches (w.disk.join (names f) ino) = reaches w.disk := by
            funext g
            exact isDir_join habsent hfile _
          have hsrc' : (w.disk.join (names f) ino).ino src = some ino := by
            rw [join_ino_ne, hsrc]
            rintro rfl
            rw [habsent] at hsrc
            cases hsrc
          rw [List.map_cons, List.nodup_cons] at hnodup
          obtain ⟨files', failed, hrun, hlen, hwait, hkept⟩ := ih (slot + 1) rfl
            (w := { w with disk := w.disk.join (names f) ino }) hsrc' hfile
            (fun g hg => hproper g (by simp [hg])) (by
              intro g hg
              rw [join_ino_ne]
              · exact hfree g (by simp [hg])
              · intro heq
                exact hnodup.1 (List.mem_map.mpr ⟨g, hg, heq⟩)) hnodup.2
          simp only [hsame] at hrun hwait
          refine ⟨none :: files', failed, ?_, by simp [hlen], ?_, ?_⟩
          · simp only [hreach, if_true, hrun, List.all_cons, Bool.true_and,
              List.takeWhile_cons_of_pos, joinAll]
          · rw [waiting, hwait, List.dropWhile_cons_of_pos hreach]
          · intro j hj
            cases j with
            | zero => exact absurd hj hslot
            | succ j => exact hkept j (by omega)
        · refine ⟨some f :: fs, some f, ?_, rfl, ?_, fun _ _ => rfl⟩
          · simp only [hreach, Bool.false_eq_true, if_false, List.all_cons, Bool.false_and,
              List.takeWhile_cons_of_neg, not_false_eq_true, joinAll]
          · rw [waiting, if_neg hslot, List.dropWhile_cons_of_neg hreach]

end Comodoo.CpioDiskLinks
