import Comodoo.CpioTreeGroups
import Comodoo.CpioSync

set_option autoImplicit false

/-!
# One entry of an archive

The disk is as far as the entries that have been read, and stays so over one more of them.
-/
namespace Comodoo.CpioTreeSteps
open CString CpioSystem CpioRead CpioExpand CpioInstall CpioGroups CpioStream CpioDisk
open CpioDiskCalls CpioDiskFiles CpioDiskLinks CpioTree CpioTreeGroups FilePath

/-- What `lastDir` names is there, if an entry asks for it. -/
def Remembers (es : List Item) (d : Disk) (lastDir : Option Str) : Prop :=
  ∀ e ∈ es, ∀ dir, dirPart e.head.path = some dir → lastDir = some dir → d.isDir (above e) = true

/-- Directories come before what is in them. -/
def Listed (es : List Item) : Prop :=
  ∀ front e rest, es = front ++ e :: rest →
    above e = [] ∨ ∃ m ∈ front, isDirEntry m = true ∧ place m = above e

instance (es : List Item) : Decidable (Listed es) :=
  inferInstanceAs (Decidable (∀ front e rest, es = front ++ e :: rest →
    above e = [] ∨ ∃ m ∈ front, isDirEntry m = true ∧ place m = above e))

structure Built (es done : List Item) (d : Disk) (lastDir : Option Str) : Prop where
  core : Core done d
  dirs : ∀ cs, d.isDir cs = true ↔ HasDir done cs
  memo : Remembers es d lastDir ∨ Listed es

section AddDirs

variable {d d' : Disk} {css : List Place}

theorem addDirs_absent (h : AddDirs d d' css) {x : Place} (hx : x ∈ css) : d.ino x = none := by
  induction h with
  | none => cases hx
  | @add d d' cs css hf _ ih =>
    by_cases hxc : x = cs
    · rw [hxc]
      exact hf.absent
    · have hlater := ih ((List.mem_cons.mp hx).resolve_left hxc)
      rwa [Disk.place_ino_ne d dirNode hxc] at hlater

theorem addDirs_ino (h : AddDirs d d' css) {x : Place} (hx : x ∉ css) : d'.ino x = d.ino x := by
  induction h with
  | none => rfl
  | @add d d' cs css hf _ ih =>
    rw [List.mem_cons, not_or] at hx
    rw [ih hx.2, Disk.place_ino_ne d dirNode hx.1]

end AddDirs

section Places

variable {es done rest : List Item} {e : Item}

theorem prefix_place {x : Place} : x <+: place e ↔ x <+: above e ∨ x = place e := by
  rw [above]
  constructor
  · intro h
    rcases List.eq_nil_or_concat (place e) with hnil | ⟨front, name, hplace⟩
    · exact Or.inr (by rw [hnil] at h ⊢; exact List.prefix_nil.mp h)
    · rw [List.concat_eq_append] at hplace
      rw [hplace] at h ⊢
      rw [List.dropLast_concat]
      exact (List.prefix_concat_iff.mp h).symm
  · rintro (h | rfl)
    · exact h.trans (List.dropLast_prefix _)
    · exact List.prefix_refl _

theorem installable_apart (h : Installable es) : ∀ a ∈ es, ∀ b ∈ es, place a = place b → a = b := by
  have hfirst : es.Pairwise (fun a b => place a = place b → a = b) :=
    h.distinct.imp (fun hne heq => absurd heq hne)
  have hflip : es.Pairwise (flip (fun a b => place a = place b → a = b)) :=
    h.distinct.imp (fun hne heq => absurd heq.symm hne)
  intro a ha b hb
  exact List.Pairwise.forall_of_forall_of_flip (fun _ _ _ => rfl) hfirst hflip ha hb

theorem installable_new (h : Installable es) (hes : es = done ++ e :: rest) :
    ∀ m ∈ done, place m ≠ place e := by
  have hdistinct := h.distinct
  rw [hes] at hdistinct
  intro m hm
  exact (List.pairwise_append.mp hdistinct).2.2 m hm e (by simp)

theorem isDirEntry_plain (h : isDirEntry e = true) : isMember e = false := by
  rw [Bool.eq_false_iff]
  intro hmem
  have hreg := member_isReg hmem
  unfold isDirEntry S_ISDIR at h
  unfold S_ISREG at hreg
  rw [decide_eq_true_iff] at h hreg
  omega

theorem isDirEntry_data (h : Installable es) (he : e ∈ es) (hdir : isDirEntry e = true) :
    e.data = [] := by
  unfold isDirEntry S_ISDIR at hdir
  rw [decide_eq_true_iff] at hdir
  refine (h.creatable e he).empty ?_ ?_
  · unfold S_ISREG
    rw [decide_eq_false_iff_not]
    omega
  · unfold S_ISLNK
    rw [decide_eq_false_iff_not]
    omega

end Places

section Check

variable {es done rest : List Item} {e : Item} {d : Disk} {lastDir : Option Str}

theorem Built.dirEntry (h : Built es done d lastDir) {m : Item} (hm : m ∈ done)
    (hdir : isDirEntry m = true) : d.isDir (place m) = true := by
  obtain ⟨i, hi, hnode⟩ := h.core.plain m hm (isDirEntry_plain hdir)
  refine isDir_iff.mpr ⟨i, hi, ?_⟩
  rw [hnode, nodeOf_isDir]
  exact hdir

theorem Built.clear (h : Built es done d lastDir) (hes : Installable es)
    (hsplit : es = done ++ e :: rest) {x : Place} (hx : x <+: place e) (hthere : d.ino x ≠ none) :
    d.isDir x = true := by
  rcases h.core.only x hthere with hdir | ⟨m, hm, rfl⟩
  · exact hdir
  · have hmem : m ∈ es := by simp [hsplit, hm]
    rcases prefix_place.mp hx with hle | heq
    · exact h.dirEntry hm (hes.nested e (by simp [hsplit]) m hmem hle)
    · exact absurd heq (installable_new hes hsplit m hm)

theorem above_le_place (hes : Installable es) (he : e ∈ es) {last : Place}
    (h : Above e.head.path last) :
    last <+: place e ∧ (last = above e ∨ last = place e ∧ isDirEntry e = true) := by
  rcases h with rfl | ⟨rfl, hend⟩
  · exact ⟨List.dropLast_prefix _, Or.inl rfl⟩
  · refine ⟨List.prefix_refl _, Or.inr ⟨rfl, ?_⟩⟩
    by_contra hdir
    rw [hes.named e he (by simpa using hdir)] at hend
    cases hend

theorem Built.parent (h : Built es done d lastDir) (hsplit : es = done ++ e :: rest)
    (hlisted : Listed es) : d.isDir (above e) = true := by
  rcases hlisted done e rest hsplit with hroot | ⟨m, hm, hdir, hplace⟩
  · rw [hroot]
    exact h.core.sound.root
  · rw [← hplace]
    exact h.dirEntry hm hdir

theorem Built.check (h : Built es done d lastDir) (hes : Installable es)
    (hsplit : es = done ++ e :: rest) {w : Host} (hw : w.disk = d) :
    ∃ d' lastDir' last, checkDirectory diskSys w lastDir e.head.path =
        (.ok, { w with disk := d' }, lastDir') ∧
      (last = above e ∨ last = place e ∧ isDirEntry e = true) ∧
      Core done d' ∧ (∀ x, d'.isDir x = true ↔ HasDir done x ∨ x <+: last) ∧
      (∀ m ∈ done, d'.ino (place m) = d.ino (place m)) ∧
      (Remembers es d' lastDir' ∨ Listed es) := by
  subst hw
  have he : e ∈ es := by simp [hsplit]
  obtain ⟨d', css, lastDir', last, hrun, habove, hadd, hcss, hdirs, hlast⟩ :=
    checkDirectory_disk (hes.proper e he) lastDir h.core.sound (by
      intro x hx y hy hthere
      exact h.clear hes hsplit (hy.trans (above_le_place hes he hx).1) hthere) (by
      intro dir hdir hlast
      exact h.memo.elim (fun hrem => hrem e he dir hdir hlast) (h.parent hsplit))
  obtain ⟨hle, hcases⟩ := above_le_place hes he habove
  -- the directories that were made are no entries
  have hnew : ∀ x ∈ css, ∀ m ∈ done, place m ≠ x := by
    rintro x hx m hm rfl
    have habsent := addDirs_absent hadd hx
    rcases prefix_place.mp ((hcss _ hx).trans hle) with hle' | heq
    · have hmem : m ∈ es := by simp [hsplit, hm]
      have hdir := h.dirEntry hm (hes.nested e he m hmem hle')
      obtain ⟨i, hi, -⟩ := isDir_iff.mp hdir
      rw [habsent] at hi
      cases hi
    · exact installable_new hes hsplit m hm heq
  have hsound := hadd.sound h.core.sound
  have hmono : ∀ x, w.disk.isDir x = true → d'.isDir x = true := fun x hx => (hdirs x).mpr (Or.inl hx)
  refine ⟨d', lastDir', last, hrun, hcases, h.core.addDirs hadd hnew, ?_, ?_, ?_⟩
  · intro x
    rw [hdirs, h.dirs]
  · intro m hm
    exact addDirs_ino hadd (fun hin => hnew _ hin m hm rfl)
  · refine h.memo.imp_left (fun hrem => ?_)
    intro a ha dir hdir hdir'
    rcases hlast with rfl | ⟨made, hmade, hthere⟩
    · exact hmono _ (hrem a ha dir hdir hdir')
    · obtain rfl := Option.some.inj (hmade.symm.trans hdir')
      exact isDir_of_dirPart hsound (hes.proper a ha) hdir hthere

theorem early_dir (hes : Installable es)
    (hsplit : es = done ++ e :: rest) {last : Place}
    (hlast : last = above e ∨ last = place e ∧ isDirEntry e = true)
    (hthere : HasDir done (place e) ∨ place e <+: last) : isDirEntry e = true := by
  have he : e ∈ es := by simp [hsplit]
  rcases hthere with (hroot | ⟨m, hm, -, hle | ⟨-, heq⟩⟩) | hle
  · refine hes.nested e he e he ?_
    rw [hroot]
    exact List.nil_prefix
  · exact hes.nested m (by simp [hsplit, hm]) e he hle
  · exact absurd heq.symm (installable_new hes hsplit m hm)
  · rcases hlast with rfl | ⟨-, hdir⟩
    · exact hes.nested e he e he hle
    · exact hdir

theorem hasDir_checked (he : e ∉ done) (hchecked : checked (done ++ [e]) e = true) {last : Place}
    (hlast : last = above e ∨ last = place e ∧ isDirEntry e = true) {p : Place → Prop}
    (hp : ∀ x, p x ↔ HasDir done x ∨ x <+: last) (x : Place) :
    HasDir (done ++ [e]) x ↔ p x ∨ isDirEntry e = true ∧ x = place e := by
  rw [hasDir_append he, hp, hchecked]
  rcases hlast with rfl | ⟨rfl, hdir⟩
  · simp only [true_and, or_assoc]
  · simp only [true_and, hdir, prefix_place, or_assoc, or_self]

theorem Built.create {s : St Host} (h : Built es done s.io.w.disk s.lastDir)
    (hes : Installable es) (hsplit : es = done ++ e :: rest) (cb : Bool)
    (hsize : e.head.size = e.data.length)
    (hcarry : isMember e = true → carrier (done ++ [e]) e = some e) {pos : ℤ} {tail : Str}
    (hat : At Host.input s.io pos (e.data ++ tail)) :
    ∃ s', createFile diskSys cb s e.head = some (.ok, s') ∧
      At Host.input s'.io (pos + e.data.length) tail ∧ s'.links = s.links ∧
      Built es (done ++ [e]) s'.io.w.disk s'.lastDir ∧ s'.io.w.disk.ino (place e) ≠ none ∧
      ∀ a ∈ done, s'.io.w.disk.ino (place a) = s.io.w.disk.ino (place a) := by
  have he : e ∈ es := by simp [hsplit]
  have hnew := installable_new hes hsplit
  have hfresh : e ∉ done := fun hin => hnew e hin rfl
  have hchecked : checked (done ++ [e]) e = true := by
    rw [checked, decide_eq_true_iff]
    cases hmem : isMember e with
    | false => exact Or.inl rfl
    | true => exact Or.inr (hcarry hmem)
  obtain ⟨d', lastDir', last, hrun, hlast, hcore, hdirs, hkeep, hmemo⟩ :=
    h.check hes hsplit (w := s.io.w) rfl
  have habove : d'.isDir (above e) = true := by
    refine (hdirs _).mpr (Or.inr ?_)
    rcases hlast with rfl | ⟨rfl, -⟩
    · exact List.prefix_refl _
    · exact List.dropLast_prefix _
  have hdirs' := hasDir_checked hfresh hchecked hlast hdirs
  cases hino : d'.ino (place e) with
  | none =>
    have hne : place e ≠ [] := by
      intro hnil
      obtain ⟨i, hi, -⟩ := isDir_iff.mp hcore.sound.root
      rw [hnil, hi] at hino
      cases hino
    have hf : d'.Fresh (place e) := ⟨hne, hino, habove⟩
    obtain ⟨s', hcreate, hat', hlinks, hlastDir, hdisk⟩ :=
      createFile_disk cb (hes.proper e he) (hes.creatable e he) hsize hat hrun hf
    change s'.io.w.disk = d'.place (place e) (nodeOf e.head e.data) at hdisk
    have hisDir : ∀ x, s'.io.w.disk.isDir x = true ↔
        d'.isDir x = true ∨ isDirEntry e = true ∧ x = place e := by
      intro x
      rw [hdisk, isDir_place hcore.sound, nodeOf_isDir]
      by_cases hx : x = place e
      · rw [if_pos hx, hx, Disk.isDir, hino, Option.any_none]
        simp [isDirEntry]
      · simp [hx]
    refine ⟨s', hcreate, hat', hlinks, ⟨?_, ?_, ?_⟩, ?_, ?_⟩
    · rw [hdisk]
      exact hcore.addFile hf hnew hcarry
    · intro x
      rw [hdirs', hisDir]
    · rw [hlastDir]
      refine hmemo.imp_left (fun hrem => ?_)
      intro a ha dir hdir hdir'
      exact (hisDir _).mpr (Or.inl (hrem a ha dir hdir hdir'))
    · rw [hdisk, Disk.place_ino_self]
      exact Option.some_ne_none _
    · intro a ha
      rw [hdisk, Disk.place_ino_ne d' _ (hnew a ha), hkeep a ha]
  | some i =>
    have hthere : d'.isDir (place e) = true := by
      rcases hcore.only (place e) (by rw [hino]; exact Option.some_ne_none i) with hdir | ⟨m, hm, heq⟩
      · exact hdir
      · exact absurd heq (hnew m hm)
    have hdir := early_dir hes hsplit hlast ((hdirs _).mp hthere)
    have hdata := isDirEntry_data hes he hdir
    have hnode := hcore.implied (place e) i hino hnew
    rw [hdata] at hat ⊢
    obtain ⟨s', hcreate, hat', hlinks, hlastDir, hdisk⟩ :=
      createFile_touch cb (hes.proper e he) hdir hat hrun hino hnode
    have hcore' := hcore.touch hdir hdata (isDirEntry_plain hdir) hino hnode hnew
    have hisDir : ∀ x, s'.io.w.disk.isDir x = d'.isDir x := by
      rw [hdisk]
      refine isDir_setNode ?_
      rw [hnode, dirNode_isDir, nodeOf_isDir]
      exact hdir
    refine ⟨s', hcreate, ?_, hlinks, ⟨?_, ?_, ?_⟩, ?_, ?_⟩
    · simpa using hat'
    · rw [hdisk]
      exact hcore'
    · intro x
      rw [hdirs', hisDir]
      refine ⟨Or.inl, ?_⟩
      rintro (hx | ⟨-, rfl⟩)
      · exact hx
      · exact hthere
    · rw [hlastDir]
      refine hmemo.imp_left (fun hrem => ?_)
      intro a ha dir hpart hpart'
      rw [hisDir]
      exact hrem a ha dir hpart hpart'
    · rw [hdisk]
      exact fun hnone => Option.some_ne_none i (hino.symm.trans hnone)
    · intro a ha
      rw [hdisk]
      exact hkeep a ha

end Check

end Comodoo.CpioTreeSteps
