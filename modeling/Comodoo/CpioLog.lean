import Comodoo.CpioInstall

set_option autoImplicit false

/-!
# The log of an installation

What it means, in terms of the log, that an entry has been created, and what the helpers
write to it.
-/
namespace Comodoo.CpioLog
open CString CpioSystem CpioRead CpioExpand CpioInstall

variable {W : Type} {S : Sys W}

def okay : Event → Bool
  | .result _ _ rc _ => rc = .ok
  | _ => true

def isSelected : Event → Bool
  | .selected _ => true
  | _ => false

def NoErrors (log : List Event) : Prop := ∀ ev ∈ log, okay ev = true

/-- What follows an entry in the log when its directory, its contents and its attributes have been
made. A regular file has all its bytes. -/
def Made (ch : CpioHeader) (rest : List Event) : Prop :=
  ∃ call looked more,
    rest = .result .checkDirectory ch.path .ok looked :: .result call ch.path .ok looked ::
      .result .setInfo ch.path .ok looked :: more ∧
    (S_ISREG ch.mode = true → ∃ written, call = .expandRegular written ∧ written.length = ch.size)

/-- An entry with the same file behind it has been made at `path`. -/
def GroupMade (log : List Event) (inode dev : ℕ) (path : Str) : Prop :=
  ∃ front ch rest, log = front ++ .selected ch :: rest ∧ ch.inode = inode ∧ ch.dev = dev ∧
    ch.path = path ∧ isLink ch = true ∧ Made ch rest

/-- The entry has been made, or linked to a file of its group that has. -/
def Done (log : List Event) (ch : CpioHeader) (rest : List Event) : Prop :=
  Made ch rest ∨ isLink ch = true ∧
    ∃ source, GroupMade log ch.inode ch.dev source ∧ .linked source ch.path ∈ rest

def AllCreated (log : List Event) : Prop :=
  ∀ front ch rest, log = front ++ .selected ch :: rest → Done log ch rest

theorem noErrors_append {a b : List Event} : NoErrors (a ++ b) ↔ NoErrors a ∧ NoErrors b := by
  simp only [NoErrors, List.mem_append]
  constructor
  · exact fun h => ⟨fun ev hev => h ev (Or.inl hev), fun ev hev => h ev (Or.inr hev)⟩
  · rintro ⟨ha, hb⟩ ev (hev | hev)
    · exact ha ev hev
    · exact hb ev hev

section Growing

variable {log : List Event} {ch : CpioHeader} {rest : List Event}

theorem Made.append (h : Made ch rest) (new : List Event) : Made ch (rest ++ new) := by
  obtain ⟨call, looked, more, rfl, hreg⟩ := h
  exact ⟨call, looked, more ++ new, rfl, hreg⟩

theorem GroupMade.append {inode dev : ℕ} {path : Str} (h : GroupMade log inode dev path)
    (new : List Event) : GroupMade (log ++ new) inode dev path := by
  obtain ⟨front, ch, rest, rfl, hinode, hdev, hpath, hlink, hmade⟩ := h
  exact ⟨front, ch, rest ++ new, by simp, hinode, hdev, hpath, hlink, hmade.append new⟩

theorem Done.append (h : Done log ch rest) (new : List Event) :
    Done (log ++ new) ch (rest ++ new) := by
  rcases h with h | ⟨hlink, source, hgroup, hlinked⟩
  · exact Or.inl (h.append new)
  · exact Or.inr ⟨hlink, source, hgroup.append new, List.mem_append_left _ hlinked⟩

theorem split_cases {front new : List Event} {ch' : CpioHeader}
    (hnew : ∀ ev ∈ new, isSelected ev = false)
    (h : log ++ .selected ch' :: new = front ++ .selected ch :: rest) :
    (∃ old, log = front ++ .selected ch :: old ∧ rest = old ++ .selected ch' :: new) ∨
      (log = front ∧ ch' = ch ∧ new = rest) := by
  rcases List.append_eq_append_iff.mp h with ⟨mid, rfl, hmid⟩ | ⟨mid, rfl, hmid⟩
  · cases mid with
    | nil =>
      obtain ⟨hch, hrest⟩ := List.cons.inj hmid
      exact Or.inr ⟨by simp, Event.selected.inj hch, hrest⟩
    | cons ev mid =>
      obtain ⟨-, hrest⟩ := List.cons.inj hmid
      have hsel := hnew (.selected ch) (by rw [hrest]; simp)
      cases hsel
  · cases mid with
    | nil =>
      obtain ⟨hch, hrest⟩ := List.cons.inj hmid
      exact Or.inr ⟨by simp, (Event.selected.inj hch).symm, hrest.symm⟩
    | cons ev mid =>
      obtain ⟨rfl, hrest⟩ := List.cons.inj hmid
      exact Or.inl ⟨mid, rfl, hrest⟩

theorem split_old {front new : List Event} (hnew : ∀ ev ∈ new, isSelected ev = false)
    (h : log ++ new = front ++ .selected ch :: rest) :
    ∃ old, log = front ++ .selected ch :: old ∧ rest = old ++ new := by
  rcases List.append_eq_append_iff.mp h with ⟨mid, rfl, hmid⟩ | ⟨mid, rfl, hmid⟩
  · have hsel := hnew (.selected ch) (by rw [hmid]; simp)
    cases hsel
  · cases mid with
    | nil =>
      have hsel := hnew (.selected ch) (by rw [List.nil_append] at hmid; rw [← hmid]; simp)
      cases hsel
    | cons ev mid =>
      obtain ⟨rfl, hrest⟩ := List.cons.inj hmid
      exact ⟨mid, rfl, hrest⟩

end Growing

section Calls

theorem ourread_length {io io' : Io W} {n : ℕ} {buf : Str}
    (h : ourread S io n = (some buf, io')) : buf.length ≤ n := by
  rw [ourread] at h
  split at h
  · simp at h
  · obtain ⟨hbuf, -⟩ := Prod.mk.inj h
    rw [← Option.some.inj hbuf]
    exact List.length_take_le _ _

theorem expandLoop_written (cb : Bool) (hdr : CpioHeader) (out fuel : ℕ) {io io' : Io W}
    {left : ℕ} {written written' : Str} (hfuel : left ≤ fuel)
    (h : expandLoop S cb hdr out fuel io left written = (.ok, written', io')) :
    written'.length = written.length + left := by
  induction fuel generalizing io left written with
  | zero =>
    obtain ⟨rfl, -⟩ : written = written' ∧ io = io' := by simpa [expandLoop] using h
    omega
  | succ fuel ih =>
    rw [expandLoop] at h
    split at h
    · obtain ⟨rfl, -⟩ : written = written' ∧ io = io' := by simpa using h
      omega
    · split at h
      · simp at h
      · rename_i buf io1 hread
        have hlen := ourread_length hread
        split at h
        · simp at h
        · rename_i hne
          have hpos := List.length_pos_iff.mpr hne
          rcases S.write io1.w out buf with ⟨n, w⟩
          simp only at h
          split at h
          · simp at h
          · have hrest := ih (by omega) h
            rw [List.length_append] at hrest
            omega

theorem expandRegular_written (cb : Bool) {io : Io W} {hdr : CpioHeader}
    (h : (expandRegular S cb io hdr).1 = .ok) :
    (expandRegular S cb io hdr).2.1.length = hdr.size := by
  revert h
  rw [expandRegular]
  rcases clearPath S io.w hdr.path with ⟨_ | _, w⟩
  · intro h
    cases h
  · simp only
    rcases S.openFile w hdr.path with ⟨_ | out, w1⟩
    · intro h
      cases h
    · simp only
      intro h
      rw [expandLoop_written cb hdr out hdr.size (Nat.le_refl _) (Prod.ext h rfl)]
      simp

theorem expandEntry_regular (cb : Bool) {io io' : Io W} {ch : CpioHeader} {call : Call}
    (hreg : S_ISREG ch.mode = true) (h : expandEntry S cb io ch = some (.ok, call, io')) :
    ∃ written, call = .expandRegular written ∧ written.length = ch.size := by
  rw [expandEntry] at h
  simp only [hreg, if_true, Option.some.injEq, Prod.mk.injEq] at h
  obtain ⟨hrc, rfl, -⟩ := h
  exact ⟨_, rfl, expandRegular_written cb hrc⟩

variable {s s' : St W} {ch : CpioHeader} {rc : Rc}

theorem createFile_log (cb : Bool) (h : createFile S cb s ch = some (rc, s')) :
    s'.links = s.links ∧ ∃ new, s'.log = s.log ++ new ∧ (∀ ev ∈ new, isSelected ev = false) ∧
      (NoErrors new ↔ rc = .ok) ∧ (rc = .ok → Made ch new) := by
  rw [createFile] at h
  split at h
  · simp at h
  · cases hdir : checkDirectory S s.io.w s.lastDir ch.path with
    | mk rc1 r =>
      simp only [hdir] at h
      split at h
      · rename_i hrc1
        obtain ⟨rfl, rfl⟩ := Prod.mk.inj (Option.some.inj h)
        refine ⟨rfl, _, rfl, by simp [isSelected], by simp [NoErrors, okay], ?_⟩
        exact fun hrc => absurd hrc hrc1
      · rename_i hrc1
        obtain rfl := not_not.mp hrc1
        cases hexp : expandEntry S cb { s.io with w := r.1 } ch with
        | none => simp [hexp] at h
        | some q =>
          obtain ⟨rc2, call, io⟩ := q
          simp only [hexp] at h
          split at h
          · rename_i hrc2
            obtain ⟨rfl, rfl⟩ := Prod.mk.inj (Option.some.inj h)
            refine ⟨rfl, _, List.append_assoc _ _ _, by simp [isSelected],
              by simp [NoErrors, okay], ?_⟩
            exact fun hrc => absurd hrc hrc2
          · rename_i hrc2
            obtain rfl := not_not.mp hrc2
            obtain ⟨hrc, rfl⟩ := Prod.mk.inj (Option.some.inj h)
            refine ⟨rfl, [.result .checkDirectory ch.path .ok (!isLink ch),
              .result call ch.path .ok (!isLink ch), .result .setInfo ch.path rc (!isLink ch)],
              ?_, by simp [isSelected], by simp [NoErrors, okay], ?_⟩
            · simp [hrc]
            · rintro rfl
              exact ⟨call, !isLink ch, [], rfl, fun hreg => expandEntry_regular cb hreg hexp⟩

def linkEvents (S : Sys W) (s : St W) (li : HardLink) (looked : Bool) : List Event :=
  let r := linkFiles S li.source (li.createdPath.getD 0) 0 li.files s.io.w
  r.linked.map (Event.linked li.source) ++ [.result .createLinks li.source r.rc looked]

theorem createLinks_log (s : St W) (li : HardLink) (looked : Bool) :
    (createLinks S s li looked).2.log = s.log ++ linkEvents S s li looked ∧
      (∀ ev ∈ linkEvents S s li looked, isSelected ev = false) ∧
      (NoErrors (linkEvents S s li looked) ↔ (createLinks S s li looked).1 = .ok) := by
  refine ⟨by simp [createLinks, linkEvents], ?_, ?_⟩
  · intro ev hev
    simp only [linkEvents, List.mem_append, List.mem_map, List.mem_singleton] at hev
    rcases hev with ⟨f, -, rfl⟩ | rfl <;> rfl
  · rw [linkEvents, noErrors_append]
    simp [NoErrors, okay, createLinks]

end Calls

end Comodoo.CpioLog
