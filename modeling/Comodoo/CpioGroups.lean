import Comodoo.CpioInstall

set_option autoImplicit false

/-!
# Hard-link groups

The list of groups and the slots of one group.
-/
namespace Comodoo.CpioGroups
open CString CpioSystem CpioRead CpioExpand CpioInstall

section Table

variable {links : List HardLink} {li l : HardLink} {ch : CpioHeader}

def Distinct (links : List HardLink) : Prop :=
  ∀ a ∈ links, ∀ b ∈ links, a.inode = b.inode → a.dev = b.dev → a = b

theorem mem_putGroup : l ∈ putGroup links li ↔
    l = li ∨ l ∈ links ∧ ¬ (l.inode = li.inode ∧ l.dev = li.dev) := by
  rw [putGroup]
  split
  · rename_i hany
    simp only [List.any_eq_true, decide_eq_true_eq] at hany
    obtain ⟨l0, hl0, hkey0⟩ := hany
    rw [List.mem_map]
    constructor
    · rintro ⟨l1, hl1, rfl⟩
      split
      · exact Or.inl rfl
      · rename_i hkey
        exact Or.inr ⟨hl1, hkey⟩
    · rintro (rfl | ⟨hl, hkey⟩)
      · exact ⟨l0, hl0, if_pos hkey0⟩
      · exact ⟨l, hl, if_neg hkey⟩
  · rename_i hany
    simp only [List.any_eq_true, decide_eq_true_eq, not_exists, not_and] at hany
    rw [List.mem_cons]
    constructor
    · rintro (rfl | hl)
      · exact Or.inl rfl
      · exact Or.inr ⟨hl, fun hkey => hany l hl hkey.1 hkey.2⟩
    · rintro (rfl | ⟨hl, -⟩)
      · exact Or.inl rfl
      · exact Or.inr hl

theorem mem_putGroup_twice {li' : HardLink} (hinode : li'.inode = li.inode)
    (hdev : li'.dev = li.dev) :
    l ∈ putGroup (putGroup links li) li' ↔ l ∈ putGroup links li' := by
  simp only [mem_putGroup, hinode, hdev]
  constructor
  · rintro (h | ⟨rfl | ⟨hl, hkey⟩, hkey'⟩)
    · exact Or.inl h
    · exact absurd ⟨rfl, rfl⟩ hkey'
    · exact Or.inr ⟨hl, hkey⟩
  · rintro (h | ⟨hl, hkey⟩)
    · exact Or.inl h
    · exact Or.inr ⟨Or.inr ⟨hl, hkey⟩, hkey⟩

theorem Distinct.putGroup (h : Distinct links) (li : HardLink) :
    Distinct (putGroup links li) := by
  intro a ha b hb hinode hdev
  rcases mem_putGroup.mp ha with rfl | ⟨ha', hkeya⟩ <;>
    rcases mem_putGroup.mp hb with rfl | ⟨hb', hkeyb⟩
  · rfl
  · exact absurd ⟨hinode.symm, hdev.symm⟩ hkeyb
  · exact absurd ⟨hinode, hdev⟩ hkeya
  · exact h a ha' b hb' hinode hdev

/-- No file has two groups, not even two that are the same. -/
def Keyed (links : List HardLink) : Prop :=
  links.Pairwise (fun a b => ¬ (a.inode = b.inode ∧ a.dev = b.dev))

theorem Keyed.distinct (h : Keyed links) : Distinct links := by
  have hfirst : links.Pairwise (fun a b => a.inode = b.inode → a.dev = b.dev → a = b) :=
    h.imp (fun hab hinode hdev => absurd ⟨hinode, hdev⟩ hab)
  have hflip : links.Pairwise (flip (fun a b => a.inode = b.inode → a.dev = b.dev → a = b)) :=
    h.imp (fun hab hinode hdev => absurd ⟨hinode.symm, hdev.symm⟩ hab)
  intro a ha b hb
  exact List.Pairwise.forall_of_forall_of_flip (fun _ _ _ _ => rfl) hfirst hflip ha hb

theorem Keyed.putGroup (h : Keyed links) (li : HardLink) : Keyed (putGroup links li) := by
  rw [CpioInstall.putGroup]
  split
  · refine List.pairwise_map.mpr (h.imp ?_)
    intro a b hab
    split <;> split <;> simp_all
  · rename_i hany
    simp only [List.any_eq_true, decide_eq_true_eq, not_exists, not_and] at hany
    refine List.pairwise_cons.mpr ⟨?_, h⟩
    rintro l hl ⟨hinode, hdev⟩
    exact hany l hl hinode.symm hdev.symm

theorem groupOf_cases (links : List HardLink) (ch : CpioHeader) :
    (groupOf links ch ∈ links) ∨
      (groupOf links ch = .fresh ch ∧ ∀ l ∈ links, ¬ (l.inode = ch.inode ∧ l.dev = ch.dev)) := by
  rw [groupOf]
  cases hfind : links.find? (fun li => li.holds ch) with
  | none =>
    refine Or.inr ⟨rfl, fun l hl => ?_⟩
    have hnot := List.find?_eq_none.mp hfind l hl
    simpa [HardLink.holds] using hnot
  | some li => exact Or.inl (List.mem_of_find?_eq_some hfind)

theorem groupOf_key (links : List HardLink) (ch : CpioHeader) :
    (groupOf links ch).inode = ch.inode ∧ (groupOf links ch).dev = ch.dev := by
  rw [groupOf]
  cases hfind : links.find? (fun li => li.holds ch) with
  | none => exact ⟨rfl, rfl⟩
  | some li => simpa [HardLink.holds] using List.find?_some hfind

/-- The group of an entry is the only one for its file. -/
theorem groupOf_unique (h : Distinct links) (hl : l ∈ links) (hinode : l.inode = ch.inode)
    (hdev : l.dev = ch.dev) : l = groupOf links ch := by
  obtain ⟨hkey, hkey'⟩ := groupOf_key links ch
  rcases groupOf_cases links ch with hmem | ⟨-, hnone⟩
  · exact h l hl _ hmem (hinode.trans hkey.symm) (hdev.trans hkey'.symm)
  · exact absurd ⟨hinode, hdev⟩ (hnone l hl)

end Table

section Slots

variable {W : Type} {S : Sys W}

/-- The names that wait for a link, from slot `i` on. -/
def waiting (createdPath : ℕ) : ℕ → List (Option Str) → List Str
  | _, [] => []
  | i, none :: fs => waiting createdPath (i + 1) fs
  | i, some f :: fs =>
    if i = createdPath then waiting createdPath (i + 1) fs
    else f :: waiting createdPath (i + 1) fs

theorem mem_waiting {createdPath i : ℕ} {files : List (Option Str)} {f : Str} :
    f ∈ waiting createdPath i files ↔
      ∃ j, files[j]? = some (some f) ∧ i + j ≠ createdPath := by
  induction files generalizing i with
  | nil => simp [waiting]
  | cons g fs ih =>
    have hsucc : (∃ j, fs[j]? = some (some f) ∧ i + 1 + j ≠ createdPath) ↔
        ∃ j, (g :: fs)[j + 1]? = some (some f) ∧ i + (j + 1) ≠ createdPath := by
      simp only [List.getElem?_cons_succ, Nat.add_assoc, Nat.add_comm 1]
    have hsplit : (∃ j, (g :: fs)[j]? = some (some f) ∧ i + j ≠ createdPath) ↔
        (g = some f ∧ i ≠ createdPath) ∨ f ∈ waiting createdPath (i + 1) fs := by
      rw [ih, hsucc]
      constructor
      · rintro ⟨j, hj, hne⟩
        cases j with
        | zero => exact Or.inl ⟨by simpa using hj, hne⟩
        | succ j => exact Or.inr ⟨j, hj, hne⟩
      · rintro (⟨rfl, hne⟩ | ⟨j, hj, hne⟩)
        · exact ⟨0, rfl, hne⟩
        · exact ⟨j + 1, hj, hne⟩
    rw [hsplit]
    cases g with
    | none => simp [waiting]
    | some g =>
      rw [waiting]
      split
      · rename_i hi
        simp [hi]
      · rename_i hi
        simp [hi, eq_comm]

/-- A slot that nobody has taken can stand for the created file. -/
theorem waiting_congr {c c' : ℕ} {files : List (Option Str)} (i : ℕ)
    (h : ∀ j f, files[j]? = some (some f) → i + j ≠ c ∧ i + j ≠ c') :
    waiting c i files = waiting c' i files := by
  induction files generalizing i with
  | nil => rfl
  | cons g fs ih =>
    have htail := ih (i + 1) (fun j f hj => by
      have hne := h (j + 1) f hj
      omega)
    cases g with
    | none => exact htail
    | some g =>
      have hne : i ≠ c ∧ i ≠ c' := h 0 g rfl
      rw [waiting, waiting, if_neg hne.1, if_neg hne.2, htail]

theorem waiting_set_created {k : ℕ} {files : List (Option Str)} (i : ℕ) (f : Str)
    (hfree : files[k]? = some none) :
    waiting (i + k) i (files.set k (some f)) = waiting (i + k) i files := by
  induction files generalizing i k with
  | nil => rfl
  | cons g fs ih =>
    cases k with
    | zero =>
      obtain rfl : g = none := by simpa using hfree
      simp [waiting]
    | succ k =>
      have htail := ih (i + 1) (k := k) (by simpa using hfree)
      have hidx : i + 1 + k = i + (k + 1) := by omega
      rw [hidx] at htail
      cases g with
      | none => simpa [waiting] using htail
      | some g => simp [waiting, htail]

theorem waiting_set_perm {c k : ℕ} {files : List (Option Str)} (i : ℕ) (f : Str)
    (hfree : files[k]? = some none) (hne : i + k ≠ c) :
    (waiting c i (files.set k (some f))).Perm (f :: waiting c i files) := by
  induction files generalizing i k with
  | nil => simp at hfree
  | cons g fs ih =>
    cases k with
    | zero =>
      obtain rfl : g = none := by simpa using hfree
      have hi : i ≠ c := hne
      simp [waiting, hi]
    | succ k =>
      have htail := ih (i + 1) (k := k) (by simpa using hfree) (by omega)
      cases g with
      | none => simpa [waiting] using htail
      | some g =>
        rw [List.set_cons_succ, waiting, waiting]
        split
        · exact htail
        · exact (htail.cons g).trans (List.Perm.swap f g _)

theorem waiting_full {c : ℕ} {files : List (Option Str)} (i : ℕ)
    (h : ∀ f ∈ files, f ≠ none) :
    files.length ≤ (waiting c i files).length + if i ≤ c ∧ c < i + files.length then 1 else 0 := by
  induction files generalizing i with
  | nil => simp
  | cons g fs ih =>
    have htail := ih (i + 1) (fun f hf => h f (by simp [hf]))
    cases g with
    | none => exact absurd rfl (h none (by simp))
    | some g =>
      rw [waiting, List.length_cons]
      split
      · rename_i hi
        rw [if_pos (by omega)]
        rw [if_neg (by omega)] at htail
        omega
      · rename_i hi
        rw [List.length_cons]
        split at htail <;> split <;> omega

theorem linkFiles_ok {source : Str} {createdPath i : ℕ} {files : List (Option Str)} {w : W}
    (h : (linkFiles S source createdPath i files w).rc = .ok) :
    (linkFiles S source createdPath i files w).linked = waiting createdPath i files ∧
    ∀ j, (linkFiles S source createdPath i files w).files[j]? =
      files[j]?.map (fun f => if i + j = createdPath then f else none) := by
  induction files generalizing i w with
  | nil => exact ⟨rfl, fun j => by simp [linkFiles]⟩
  | cons f fs ih =>
    cases f with
    | none =>
      obtain ⟨hlinked, hfiles⟩ := ih h
      refine ⟨hlinked, fun j => ?_⟩
      cases j with
      | zero => simp [linkFiles]
      | succ j =>
        rw [linkFiles, List.getElem?_cons_succ, List.getElem?_cons_succ, hfiles j, Nat.add_assoc,
          Nat.add_comm 1 j]
    | some f =>
      rw [linkFiles, waiting] at *
      split at h
      · rename_i hi
        subst hi
        obtain ⟨hlinked, hfiles⟩ := ih h
        simp only [if_true]
        refine ⟨hlinked, fun j => ?_⟩
        cases j with
        | zero => simp
        | succ j =>
          rw [List.getElem?_cons_succ, List.getElem?_cons_succ, hfiles j, Nat.add_assoc,
            Nat.add_comm 1 j]
      · rename_i hi
        simp only [hi, if_false]
        split at h
        · simp at h
        · split at h
          · simp at h
          · rename_i w1 hclear w2 hlink
            obtain ⟨hlinked, hfiles⟩ := ih h
            refine ⟨by simp [hlinked], fun j => ?_⟩
            cases j with
            | zero => simp [hi]
            | succ j =>
              simp only [List.getElem?_cons_succ]
              rw [hfiles j, Nat.add_assoc, Nat.add_comm 1 j]

end Slots

end Comodoo.CpioGroups
