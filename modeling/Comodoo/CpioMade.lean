import Comodoo.CpioLog
import Comodoo.CpioQuiet
import Comodoo.CpioSync
import Comodoo.CpioTree

set_option autoImplicit false

/-!
# Entries in a run without a failing call

On an intact stream and without a failing call, every entry that has a usual type is made: its
file is written with exactly its data.
-/
namespace Comodoo.CpioMade
open CString CpioSystem CpioRead CpioExpand CpioInstall CpioGroups CpioLog CpioFormat CpioStream
open CpioFrame CpioSync CpioQuiet CpioTree StepRun

variable {W : Type} {S : Sys W} {stream : W → Str} {quiet : W → Bool} {pos : ℤ} {a rest : Str}
  {ch : CpioHeader}

/-- A type that the code has a branch for. -/
def usualType (mode : ℕ) : Bool :=
  S_ISREG mode || S_ISDIR mode || S_ISLNK mode || S_ISFIFO mode || S_ISCHR mode || S_ISBLK mode ||
    S_ISSOCK mode

/-- Entries with names and usual types, data only where there is a place for it, and no more members
in a group than its members say there are. -/
structure Makeable (es : List Item) : Prop where
  named : ∀ e ∈ es, e.head.path ≠ []
  type : ∀ e ∈ es, usualType e.head.mode = true
  empty : ∀ e ∈ es, S_ISREG e.head.mode = false → S_ISLNK e.head.mode = false → e.data = []
  nlinks : ∀ e ∈ es, ∀ m ∈ es, sameGroup e m = true → m.head.nlink = e.head.nlink
  members : ∀ e ∈ es, isMember e = true → ((es.filter (sameGroup e)).length : ℤ) ≤ e.head.nlink

instance (es : List Item) : Decidable (Makeable es) :=
  decidable_of_iff
    ((∀ e ∈ es, e.head.path ≠ []) ∧ (∀ e ∈ es, usualType e.head.mode = true) ∧
      (∀ e ∈ es, S_ISREG e.head.mode = false → S_ISLNK e.head.mode = false → e.data = []) ∧
      (∀ e ∈ es, ∀ m ∈ es, sameGroup e m = true → m.head.nlink = e.head.nlink) ∧
      (∀ e ∈ es, isMember e = true → ((es.filter (sameGroup e)).length : ℤ) ≤ e.head.nlink))
    ⟨fun h => ⟨h.1, h.2.1, h.2.2.1, h.2.2.2.1, h.2.2.2.2⟩,
      fun h => ⟨h.named, h.type, h.empty, h.nlinks, h.members⟩⟩

/-- The targets of the links fit the buffer of `expandSymlink`. -/
def TargetsFit (es : List Item) : Prop :=
  ∀ e ∈ es, S_ISLNK e.head.mode = true → e.data.length < 2048

instance (es : List Item) : Decidable (TargetsFit es) :=
  inferInstanceAs (Decidable (∀ e ∈ es, S_ISLNK e.head.mode = true → e.data.length < 2048))

section File

theorem expandLoop_made (hF : FullReads S stream) (hQ : Watched S quiet) (cb : Bool)
    (hdr : CpioHeader) (out fuel : ℕ) {io : Io W} {written : Str}
    (h : At stream io pos (a ++ rest)) (hfuel : a.length ≤ fuel)
    (hquiet : quiet (expandLoop S cb hdr out fuel io a.length written).2.2.w = true) :
    (expandLoop S cb hdr out fuel io a.length written).1 = .ok ∧
      (expandLoop S cb hdr out fuel io a.length written).2.1 = written ++ a := by
  induction fuel generalizing io pos a written with
  | zero =>
    obtain rfl : a = [] := List.length_eq_zero_iff.mp (by omega)
    simp [expandLoop]
  | succ fuel ih =>
    rw [expandLoop] at hquiet ⊢
    by_cases ha : a.length = 0
    · obtain rfl := List.length_eq_zero_iff.mp ha
      simp
    · obtain ⟨io1, hread, hat, -⟩ := ourread_chunk hF h 8192
      have htake : (a.take 8192).length = min a.length 8192 := by rw [List.length_take, Nat.min_comm]
      have hdrop : a.length - (a.take 8192).length = (a.drop 8192).length := by
        rw [List.length_drop]
        omega
      have hwrite := hF.write io1.w out (a.take 8192)
      have hquietw := hQ.write io1.w out (a.take 8192)
      rw [if_neg ha] at hquiet ⊢
      simp only [hread] at hquiet ⊢
      rw [if_neg (List.ne_nil_of_length_pos (by omega))] at hquiet ⊢
      cases hw : S.write io1.w out (a.take 8192) with
      | mk n w =>
        rw [hw] at hwrite hquietw
        simp only [hw, hdrop] at hquiet ⊢
        by_cases hn : n = (a.take 8192).length
        · rw [if_neg (not_not.mpr hn)] at hquiet ⊢
          have hrest := ih (by split <;> exact hat.move rfl hwrite) (by omega) hquiet
          refine ⟨hrest.1, ?_⟩
          rw [hrest.2, List.append_assoc, List.take_append_drop]
        · rw [if_pos hn] at hquiet
          exact absurd (of_decide_eq_true (before hquietw hquiet).2) hn

theorem expandRegular_made (hF : FullReads S stream) (hQ : Watched S quiet) (cb : Bool) {io : Io W}
    (hsize : ch.size = a.length) (h : At stream io pos (a ++ rest))
    (hquiet : quiet (expandRegular S cb io ch).2.2.w = true) :
    (expandRegular S cb io ch).1 = .ok ∧ (expandRegular S cb io ch).2.1 = a := by
  have hclear := clearPath_quiet hQ io.w ch.path
  have hstream := clearPath_stream hF io.w ch.path
  rw [expandRegular] at hquiet ⊢
  cases hc : clearPath S io.w ch.path with
  | mk cleared w1 =>
    rw [hc] at hquiet hclear hstream
    cases cleared with
    | false => simpa using (before hclear hquiet).2
    | true =>
      have hopen := hQ.openFile w1 ch.path
      have hstream1 := hF.openFile w1 ch.path
      dsimp only at hquiet ⊢
      cases ho : S.openFile w1 ch.path with
      | mk fd w2 =>
        rw [ho] at hquiet hopen hstream1
        cases fd with
        | none => simpa using (before hopen hquiet).2
        | some out =>
          dsimp only at hquiet ⊢
          rw [hQ.close, hsize] at hquiet
          have hat : At stream { io with w := w2 } pos (a ++ rest) :=
            h.move rfl (hstream1.trans hstream)
          rw [hsize]
          simpa using expandLoop_made hF hQ cb ch out a.length hat (Nat.le_refl _) hquiet

theorem expandSymlink_made (hF : FullReads S stream) (hQ : Watched S quiet) {io : Io W}
    (hsize : ch.size = a.length) (hshort : a.length < 2048) (h : At stream io pos (a ++ rest)) :
    ∃ rc io', expandSymlink S io ch = some (rc, io') ∧ (quiet io'.w = true → rc = .ok) := by
  obtain ⟨io1, hread, -, -⟩ := ourread_at hF h
  rw [expandSymlink, hsize, if_neg (by omega), if_neg (by omega), hread]
  simp only [ne_eq, not_true_eq_false, if_false]
  refine ⟨_, _, rfl, fun hquiet => ?_⟩
  simpa using (before (placeSymlink_quiet hQ io1.w (a.takeWhile (· ≠ 0)) ch.path) hquiet).2

def isExpansion : Call → Bool
  | .expandRegular _ | .expandSymlink _ | .expandOther => true
  | _ => false

def expansion (ch : CpioHeader) (data : Str) : Call :=
  if S_ISREG ch.mode = true then .expandRegular data
  else if S_ISLNK ch.mode = true then .expandSymlink (data.takeWhile (· ≠ 0))
  else .expandOther

theorem linkTarget_at (hF : FullReads S stream) {io : Io W} (hsize : ch.size = a.length)
    (h : At stream io pos (a ++ rest)) : linkTarget S io ch = a.takeWhile (· ≠ 0) := by
  obtain ⟨io1, hread, -, -⟩ := ourread_at hF h
  rw [linkTarget, hsize, hread]
  rfl

theorem expandEntry_made (hF : FullReads S stream) (hQ : Watched S quiet) (cb : Bool) {io : Io W}
    (hsize : ch.size = a.length) (htype : usualType ch.mode = true)
    (htarget : S_ISLNK ch.mode = true → a.length < 2048) (h : At stream io pos (a ++ rest)) :
    ∃ rc call io', expandEntry S cb io ch = some (rc, call, io') ∧
      (quiet io'.w = true → rc = .ok ∧ call = expansion ch a) := by
  have hfiles : ∀ r : Rc × W, quiet r.2 = (quiet io.w && r.1 = .ok) →
      ¬ S_ISLNK ch.mode = true → ¬ S_ISREG ch.mode = true →
      ∃ rc call io', some (r.1, Call.expandOther, { io with w := r.2 }) = some (rc, call, io') ∧
        (quiet io'.w = true → rc = .ok ∧ call = expansion ch a) := by
    intro r hr hlnk hreg
    refine ⟨_, _, _, rfl, fun hquiet => ⟨of_decide_eq_true (before hr hquiet).2, ?_⟩⟩
    rw [expansion, if_neg hreg, if_neg hlnk]
  rw [expandEntry]
  dsimp only
  by_cases hreg : S_ISREG ch.mode = true
  · rw [if_pos hreg]
    refine ⟨_, _, _, rfl, fun hquiet => ?_⟩
    obtain ⟨hrc, hwritten⟩ := expandRegular_made hF hQ cb hsize h hquiet
    refine ⟨hrc, ?_⟩
    rw [expansion, if_pos hreg]
    exact congrArg Call.expandRegular hwritten
  · rw [if_neg hreg]
    by_cases hlnk : S_ISLNK ch.mode = true
    · have hdir : ¬ S_ISDIR ch.mode = true := by
        simp only [S_ISLNK, S_ISDIR, decide_eq_true_eq] at hlnk ⊢
        omega
      rw [if_neg hdir, if_pos hlnk, linkTarget_at hF hsize h]
      obtain ⟨rc, io', hrun, hok⟩ := expandSymlink_made hF hQ hsize (htarget hlnk) h
      refine ⟨rc, _, io', by rw [hrun]; rfl, fun hquiet => ⟨hok hquiet, ?_⟩⟩
      rw [expansion, if_neg hreg, if_pos hlnk]
    · split
      · exact hfiles _ (createDirectory_quiet hQ _ _ _) hlnk hreg
      · split
        · exact hfiles _ (expandFifo_quiet hQ _ _) hlnk hreg
        · split
          · exact hfiles _ (expandDevice_quiet hQ _ _) hlnk hreg
          · split
            · exact hfiles _ (expandFifo_quiet hQ _ _) hlnk hreg
            · -- no type is left
              exfalso
              simp_all [usualType]

def madeEvents (ch : CpioHeader) (data : Str) : List Event :=
  [.result .checkDirectory ch.path .ok (!isLink ch),
    .result (expansion ch data) ch.path .ok (!isLink ch),
    .result .setInfo ch.path .ok (!isLink ch)]

/-- An entry that can be made from its data. -/
structure Suits (ch : CpioHeader) (data : Str) : Prop where
  named : ch.path ≠ []
  size : ch.size = data.length
  type : usualType ch.mode = true
  target : S_ISLNK ch.mode = true → data.length < 2048
  empty : S_ISREG ch.mode = false → S_ISLNK ch.mode = false → data = []

theorem createFile_made (hF : FullReads S stream) (hQ : Watched S quiet) (cb : Bool) {s : St W}
    (hfile : Suits ch a) (h : At stream s.io pos (a ++ rest)) :
    ∃ rc s', createFile S cb s ch = some (rc, s') ∧
      (quiet s'.io.w = true → rc = .ok ∧ s'.log = s.log ++ madeEvents ch a) := by
  have hdir := checkDirectory_quiet hQ s.io.w s.lastDir ch.path
  have hstream := checkDirectory_stream hF s.io.w s.lastDir ch.path
  rw [createFile]
  simp only [if_neg hfile.named]
  cases hc : checkDirectory S s.io.w s.lastDir ch.path with
  | mk rc1 r =>
    rw [hc] at hdir hstream
    dsimp only
    by_cases hrc1 : rc1 = .ok
    · subst hrc1
      have hat : At stream { s.io with w := r.1 } pos (a ++ rest) := h.move rfl hstream
      obtain ⟨rc2, call, io, hexp, hmade⟩ :=
        expandEntry_made hF hQ cb hfile.size hfile.type hfile.target hat
      simp only [ne_eq, not_true_eq_false, if_false, hexp]
      have hinfo := setInfo_quiet hQ io.w ch
      by_cases hrc2 : rc2 = .ok
      · subst hrc2
        simp only [not_true_eq_false, if_false]
        refine ⟨_, _, rfl, fun hquiet => ?_⟩
        obtain ⟨hio, hrc⟩ := before hinfo hquiet
        obtain ⟨-, rfl⟩ := hmade hio
        have hrc3 := of_decide_eq_true hrc
        refine ⟨hrc3, ?_⟩
        simp [madeEvents, hrc3]
      · rw [if_pos hrc2]
        exact ⟨_, _, rfl, fun hquiet => absurd (hmade hquiet).1 hrc2⟩
    · rw [if_pos hrc1]
      exact ⟨_, _, rfl, fun hquiet => absurd (of_decide_eq_true (before hdir hquiet).2) hrc1⟩

theorem createFile_long (cb : Bool) {s s' : St W} (hlnk : S_ISLNK ch.mode = true)
    (hlong : 2048 ≤ ch.size) : createFile S cb s ch ≠ some (.ok, s') := by
  have hreg : ¬ S_ISREG ch.mode = true := by
    simp only [S_ISLNK, S_ISREG, decide_eq_true_eq] at hlnk ⊢
    omega
  have hdir : ¬ S_ISDIR ch.mode = true := by
    simp only [S_ISLNK, S_ISDIR, decide_eq_true_eq] at hlnk ⊢
    omega
  intro hrun
  rw [createFile] at hrun
  split at hrun
  · cases hrun
  · cases hc : checkDirectory S s.io.w s.lastDir ch.path with
    | mk rc1 r =>
      simp only [hc, expandEntry, hreg, hdir, hlnk, Bool.false_eq_true, if_false, if_true,
        expandSymlink, if_pos (show 2048 < ch.size + 1 by omega)] at hrun
      split_ifs at hrun <;> simp_all

end File

end Comodoo.CpioMade
