import Comodoo.CpioDiskFiles

set_option autoImplicit false

/-!
# The directory that is remembered

`checkDirectory` of `isys/uncpio.c` over the life of a process: calls for any names, with anything
else between them (other archives, `chdir`, removals).
-/
namespace Comodoo.CheckDirectory
open CString CpioSystem CpioExpand CpioDisk CpioDiskCalls CpioDiskFiles FilePath

variable {W : Type} {S : Sys W} {isDir : W → Str → Prop}

/-- How the calls below treat directories; `isDir w p` holds when `p`, followed from the working
directory, leads to a directory. -/
structure Directories (S : Sys W) (isDir : W → Str → Prop) : Prop where
  lstat : ∀ w p q, isDir w q → isDir (S.lstat w p).2 q
  lstat_found : ∀ w p sb, (S.lstat w p).1 = some sb → S_ISLNK sb.mode = false →
    (isDir (S.lstat w p).2 p ↔ S_ISDIR sb.mode = true)
  stat : ∀ w p q, isDir w q → isDir (S.stat w p).2 q
  stat_found : ∀ w p sb, (S.stat w p).1 = .found sb →
    (isDir (S.stat w p).2 p ↔ S_ISDIR sb.mode = true)
  stat_noEntry : ∀ w p, (S.stat w p).1 = .noEntry → ¬ isDir (S.stat w p).2 p
  unlink : ∀ w p q, ¬ isDir w p → isDir w q → isDir (S.unlink w p).2 q
  mkdir : ∀ w p m q, isDir w q → isDir (S.mkdir w p m).2 q
  mkdir_made : ∀ w p m, (S.mkdir w p m).1 = true → isDir (S.mkdir w p m).2 p
  chmod : ∀ w p m q, isDir w q → isDir (S.chmod w p m).2 q

inductive Event (W : Type) where
  | call (filename : Str)
  | other (change : W → W)

structure Process (W : Type) where
  w : W
  lastDir : Option Str

structure Done (W : Type) where
  filename : Str
  rc : Rc
  w : W

/-- One call; with the memo switched off it starts without `lastDir`. -/
def callOnce (S : Sys W) (memo : Bool) (p : Process W) (filename : Str) : Done W × Process W :=
  match checkDirectory S p.w (if memo then p.lastDir else none) filename with
  | (rc, w, lastDir) => (⟨filename, rc, w⟩, ⟨w, lastDir⟩)

/-- All calls of a process. For an empty name a NUL is written in front of the buffer, and the
process is followed no further. -/
def calls (S : Sys W) (memo : Bool) : Process W → List (Event W) → List (Done W)
  | _, [] => []
  | p, .other change :: events => calls S memo { p with w := change p.w } events
  | _, .call [] :: _ => []
  | p, .call (b :: name) :: events =>
    match callOnce S memo p (b :: name) with
    | (done, p) => done :: calls S memo p events

def ancestors (filename : Str) : List Str := ((dirPart filename).map pathDirs).getD []

def AllDirs (isDir : W → Str → Prop) (w : W) (dirs : List Str) : Prop := ∀ dir ∈ dirs, isDir w dir

/-- Whenever a call returns 0, the directories above its file name are there. -/
def Transparent (S : Sys W) (isDir : W → Str → Prop) (memo : Bool) (p : Process W)
    (events : List (Event W)) : Prop :=
  ∀ done ∈ calls S memo p events, done.rc = .ok → AllDirs isDir done.w (ancestors done.filename)

/-- A name is asked for whose directory is the one remembered. -/
def Hits (p : Process W) (filename : Str) : Prop :=
  ∃ dir, dirPart filename = some dir ∧ p.lastDir = some dir

/-- At every such call the directories above the name are there. -/
def MemoHolds (S : Sys W) (isDir : W → Str → Prop) : Process W → List (Event W) → Prop
  | _, [] => True
  | p, .other change :: events => MemoHolds S isDir { p with w := change p.w } events
  | _, .call [] :: _ => True
  | p, .call (b :: name) :: events =>
    (Hits p (b :: name) → AllDirs isDir p.w (ancestors (b :: name))) ∧
      MemoHolds S isDir (callOnce S true p (b :: name)).2 events

section Create
variable {w w' : W} {rc : Rc} {path : Str}

theorem makeDirectory_dirs (hD : Directories S isDir) (perms : ℕ)
    (h : makeDirectory S w path perms = (rc, w')) :
    (rc = .ok → isDir w' path) ∧ ∀ q, isDir w q → isDir w' q := by
  have hmkdir := hD.mkdir w path 0
  have hmade := hD.mkdir_made w path 0
  rw [makeDirectory] at h
  generalize S.mkdir w path 0 = made at h hmkdir hmade
  obtain ⟨ok, w1⟩ := made
  cases ok with
  | false =>
    rw [Prod.mk.injEq] at h
    rw [← h.1, ← h.2]
    exact ⟨by simp, hmkdir⟩
  | true =>
    have hchmod := hD.chmod w1 path perms
    dsimp only at h
    generalize S.chmod w1 path perms = changed at h hchmod
    obtain ⟨ok, w2⟩ := changed
    have hkeep : ∀ q, isDir w q → isDir w2 q := fun q hq => hchmod q (hmkdir q hq)
    cases ok with
    | false =>
      rw [Prod.mk.injEq] at h
      rw [← h.1, ← h.2]
      exact ⟨by simp, hkeep⟩
    | true =>
      rw [Prod.mk.injEq] at h
      rw [← h.1, ← h.2]
      exact ⟨fun _ => hchmod path (hmade rfl), hkeep⟩

theorem replaceByDirectory_dirs (hD : Directories S isDir) (perms : ℕ) (hpath : ¬ isDir w path)
    (h : replaceByDirectory S w path perms = (rc, w')) :
    (rc = .ok → isDir w' path) ∧ ∀ q, isDir w q → isDir w' q := by
  have hunlink : ∀ q, isDir w q → isDir (S.unlink w path).2 q := fun q => hD.unlink w path q hpath
  rw [replaceByDirectory] at h
  generalize S.unlink w path = removed at h hunlink
  obtain ⟨ok, w1⟩ := removed
  cases ok with
  | false =>
    rw [Prod.mk.injEq] at h
    rw [← h.1, ← h.2]
    exact ⟨by simp, hunlink⟩
  | true =>
    obtain ⟨hok, hkeep⟩ := makeDirectory_dirs hD perms h
    exact ⟨hok, fun q hq => hkeep q (hunlink q hq)⟩

theorem createDirectory_dirs (hD : Directories S isDir) (perms : ℕ)
    (h : createDirectory S w path perms = (rc, w')) :
    (rc = .ok → isDir w' path) ∧ ∀ q, isDir w q → isDir w' q := by
  have hlstat := hD.lstat w path
  have hfound := hD.lstat_found w path
  rw [createDirectory] at h
  generalize S.lstat w path = looked at h hlstat hfound
  obtain ⟨found, w1⟩ := looked
  cases found with
  | none =>
    obtain ⟨hok, hkeep⟩ := makeDirectory_dirs hD perms h
    exact ⟨hok, fun q hq => hkeep q (hlstat q hq)⟩
  | some sb =>
    dsimp only at h
    by_cases hlink : S_ISLNK sb.mode = true
    · have hdir : ¬ S_ISDIR sb.mode = true := by
        simp only [S_ISLNK, S_ISDIR, decide_eq_true_eq] at hlink ⊢
        omega
      have hstat := hD.stat w1 path
      have hsfound := hD.stat_found w1 path
      have hnone := hD.stat_noEntry w1 path
      rw [if_neg hdir, if_pos hlink] at h
      generalize S.stat w1 path = followed at h hstat hsfound hnone
      obtain ⟨result, w2⟩ := followed
      have hkeep2 : ∀ q, isDir w q → isDir w2 q := fun q hq => hstat q (hlstat q hq)
      cases result with
      | failed =>
        rw [Prod.mk.injEq] at h
        rw [← h.1, ← h.2]
        exact ⟨by simp, hkeep2⟩
      | noEntry =>
        obtain ⟨hok, hkeep⟩ := replaceByDirectory_dirs hD perms (hnone rfl) h
        exact ⟨hok, fun q hq => hkeep q (hkeep2 q hq)⟩
      | found sb' =>
        dsimp only at h
        have hiff := hsfound sb' rfl
        by_cases hdir' : S_ISDIR sb'.mode = true
        · rw [if_pos hdir', Prod.mk.injEq] at h
          rw [← h.1, ← h.2]
          exact ⟨fun _ => hiff.mpr hdir', hkeep2⟩
        · rw [if_neg hdir'] at h
          obtain ⟨hok, hkeep⟩ := replaceByDirectory_dirs hD perms (mt hiff.mp hdir') h
          exact ⟨hok, fun q hq => hkeep q (hkeep2 q hq)⟩
    · have hiff := hfound sb rfl (Bool.not_eq_true _ ▸ hlink)
      by_cases hdir : S_ISDIR sb.mode = true
      · rw [if_pos hdir, Prod.mk.injEq] at h
        rw [← h.1, ← h.2]
        exact ⟨fun _ => hiff.mpr hdir, hlstat⟩
      · rw [if_neg hdir, if_neg hlink] at h
        obtain ⟨hok, hkeep⟩ := replaceByDirectory_dirs hD perms (mt hiff.mp hdir) h
        exact ⟨hok, fun q hq => hkeep q (hlstat q hq)⟩

theorem createDirectories_dirs (hD : Directories S isDir) {dirs : List Str}
    (h : createDirectories S w dirs = (rc, w')) :
    (rc = .ok → AllDirs isDir w' dirs) ∧ ∀ q, isDir w q → isDir w' q := by
  induction dirs generalizing w with
  | nil =>
    rw [createDirectories, Prod.mk.injEq] at h
    rw [← h.2]
    exact ⟨fun _ dir hdir => absurd hdir (List.not_mem_nil), fun q hq => hq⟩
  | cons dir dirs ih =>
    rw [createDirectories] at h
    cases hone : createDirectory S w dir 0o755 with
    | mk rc1 w1 =>
      obtain ⟨hmade, hkeep⟩ := createDirectory_dirs hD 0o755 hone
      rw [hone] at h
      by_cases hrc : rc1 = .ok
      · subst hrc
        dsimp only at h
        obtain ⟨hall, hkeep'⟩ := ih h
        refine ⟨fun hok => ?_, fun q hq => hkeep' q (hkeep q hq)⟩
        exact List.forall_mem_cons.mpr ⟨hkeep' dir (hmade rfl), hall hok⟩
      · have hout : (rc1, w1) = (rc, w') := by
          cases rc1 <;> first | exact h | exact absurd rfl hrc
        rw [Prod.mk.injEq] at hout
        rw [← hout.1, ← hout.2]
        exact ⟨fun hok => absurd hok hrc, hkeep⟩

end Create

section Calls
variable {p : Process W} {filename : Str} {events : List (Event W)}

/-- A call that does not find its directory remembered has seen to all directories. -/
theorem callOnce_missed (hD : Directories S isDir) (memo : Bool)
    (hmiss : memo = true → ¬ Hits p filename)
    (hok : (callOnce S memo p filename).1.rc = .ok) :
    AllDirs isDir (callOnce S memo p filename).1.w (ancestors filename) := by
  rw [callOnce] at hok ⊢
  rw [ancestors]
  unfold checkDirectory at hok ⊢
  cases hdir : dirPart filename with
  | none => exact fun dir hmem => absurd hmem (List.not_mem_nil)
  | some dir =>
    have hother : (if memo then p.lastDir else none) ≠ some dir := by
      intro heq
      cases memo with
      | false => simp at heq
      | true => exact hmiss rfl ⟨dir, hdir, heq⟩
    rw [hdir] at hok
    dsimp only at hok ⊢
    rw [if_neg hother] at hok ⊢
    cases hcreate : createDirectories S p.w (pathDirs dir) with
    | mk rc w' =>
      rw [hcreate] at hok
      exact (createDirectories_dirs hD hcreate).1 hok

theorem callOnce_hit (h : Hits p filename) :
    (callOnce S true p filename).1 = ⟨filename, .ok, p.w⟩ := by
  obtain ⟨dir, hdir, hlast⟩ := h
  rw [callOnce, checkDirectory, hdir]
  dsimp only
  rw [if_pos rfl, if_pos hlast]

theorem calls_call (memo : Bool) (p : Process W) (b : UInt8) (name : Str)
    (events : List (Event W)) :
    calls S memo p (.call (b :: name) :: events) =
      (callOnce S memo p (b :: name)).1 :: calls S memo (callOnce S memo p (b :: name)).2 events :=
  rfl

theorem transparent_without_memo (hD : Directories S isDir) (p : Process W)
    (events : List (Event W)) : Transparent S isDir false p events := by
  induction events generalizing p with
  | nil => exact fun done hdone => absurd hdone (List.not_mem_nil)
  | cons event events ih =>
    cases event with
    | other change => exact ih { p with w := change p.w }
    | call filename =>
      cases filename with
      | nil => exact fun done hdone => absurd hdone (List.not_mem_nil)
      | cons b name =>
        rw [Transparent, calls_call, List.forall_mem_cons]
        exact ⟨callOnce_missed hD false (by simp), ih _⟩

/-- The memo is transparent if and only if, at each call that goes by it, the directories are
there; switched off, there is nothing to go wrong. -/
theorem checkDirectory_transparent_iff (hD : Directories S isDir) (p : Process W)
    (events : List (Event W)) :
    (Transparent S isDir true p events ↔ MemoHolds S isDir p events) ∧
      Transparent S isDir false p events := by
  refine ⟨?_, transparent_without_memo hD p events⟩
  induction events generalizing p with
  | nil => exact iff_of_true (fun done hdone => absurd hdone (List.not_mem_nil)) trivial
  | cons event events ih =>
    cases event with
    | other change => exact ih { p with w := change p.w }
    | call filename =>
      cases filename with
      | nil => exact iff_of_true (fun done hdone => absurd hdone (List.not_mem_nil)) trivial
      | cons b name =>
        rw [Transparent, calls_call, List.forall_mem_cons, MemoHolds]
        refine and_congr ?_ (ih _)
        by_cases hhit : Hits p (b :: name)
        · rw [callOnce_hit hhit]
          simp [hhit]
        · exact iff_of_true (callOnce_missed hD true (fun _ => hhit)) (fun h => absurd h hhit)

def Current (isDir : W → Str → Prop) (p : Process W) : Prop :=
  ∀ dir, p.lastDir = some dir → AllDirs isDir p.w (pathDirs dir)

/-- No call fails, and nothing in between takes a remembered directory away. -/
def Careful (S : Sys W) (isDir : W → Str → Prop) : Process W → List (Event W) → Prop
  | _, [] => True
  | p, .other change :: events =>
    (Current isDir p → Current isDir { p with w := change p.w }) ∧
      Careful S isDir { p with w := change p.w } events
  | _, .call [] :: _ => True
  | p, .call (b :: name) :: events =>
    (callOnce S true p (b :: name)).1.rc = .ok ∧
      Careful S isDir (callOnce S true p (b :: name)).2 events

theorem callOnce_current (hD : Directories S isDir) (hcurrent : Current isDir p)
    (hok : (callOnce S true p filename).1.rc = .ok) :
    Current isDir (callOnce S true p filename).2 := by
  rw [callOnce, checkDirectory] at hok ⊢
  cases hdir : dirPart filename with
  | none => exact hcurrent
  | some dir =>
    rw [hdir] at hok
    dsimp only at hok ⊢
    rw [if_pos rfl] at hok ⊢
    by_cases hlast : p.lastDir = some dir
    · rw [if_pos hlast]
      exact hcurrent
    · rw [if_neg hlast] at hok ⊢
      cases hcreate : createDirectories S p.w (pathDirs dir) with
      | mk rc w' =>
        rw [hcreate] at hok
        intro dir' hdir'
        rw [← Option.some.inj hdir']
        exact (createDirectories_dirs hD hcreate).1 hok

theorem memoHolds_of_careful (hD : Directories S isDir) (hcurrent : Current isDir p)
    (h : Careful S isDir p events) : MemoHolds S isDir p events := by
  induction events generalizing p with
  | nil => trivial
  | cons event events ih =>
    cases event with
    | other change => exact ih (h.1 hcurrent) h.2
    | call filename =>
      cases filename with
      | nil => trivial
      | cons b name =>
        refine ⟨?_, ih (callOnce_current hD hcurrent h.1) h.2⟩
        rintro ⟨dir, hdir, hlast⟩
        rw [ancestors, hdir]
        exact hcurrent dir hlast

end Calls

section Disk
variable {w : Host} {path : Str}

/-- On the disk, a path is followed without symbolic links. -/
def onDisk (w : Host) (path : Str) : Prop :=
  ∃ i, w.disk.find path = some i ∧ S_ISDIR (w.disk.node i).mode = true

theorem onDisk_iff {i : ℕ} (h : w.disk.find path = some i) :
    onDisk w path ↔ S_ISDIR (w.disk.node i).mode = true := by
  simp [onDisk, h]

theorem onDisk_create {n : Node} (hn : S_ISDIR n.mode = true) (h : onDisk w path) (name : Str) :
    onDisk (w.create name n).2 path := by
  obtain ⟨i, hfind, hdir⟩ := h
  rw [Host.create]
  split
  · rename_i cs hcs
    split
    · rename_i hfresh
      have hfresh' := Disk.isFresh_iff.mp hfresh
      obtain ⟨q, hq, hino⟩ := Option.bind_eq_some_iff.mp hfind
      have hne : q ≠ cs := by
        rintro rfl
        rw [hfresh'.absent] at hino
        simp at hino
      refine ⟨i, ?_, ?_⟩
      · rw [Disk.find_eq hq, Disk.place_ino_ne _ _ hne, hino]
      · by_cases hi : i = w.disk.next
        · rw [hi, Disk.place_node_self]
          exact hn
        · rw [Disk.place_node_ne _ _ _ hi]
          exact hdir
    · exact ⟨i, hfind, hdir⟩
  · exact ⟨i, hfind, hdir⟩

theorem onDisk_made {n : Node} (hn : S_ISDIR n.mode = true) (h : (w.create path n).1 = true) :
    onDisk (w.create path n).2 path := by
  rw [Host.create] at h ⊢
  split at h
  · rename_i cs hcs
    split at h
    · rename_i hfresh
      rw [if_pos hfresh]
      refine ⟨w.disk.next, ?_, ?_⟩
      · rw [Disk.find_eq hcs, Disk.place_ino_self]
      · rw [Disk.place_node_self]
        exact hn
    · simp at h
  · simp at h

theorem onDisk_unlink (h : onDisk w path) (name : Str) : onDisk (w.unlink name).2 path := by
  obtain ⟨i, hfind, hdir⟩ := h
  rw [Host.unlink]
  split
  · rename_i cs hcs
    split
    · exact ⟨i, hfind, hdir⟩
    · rename_i hkeep
      obtain ⟨q, hq, hino⟩ := Option.bind_eq_some_iff.mp hfind
      have hne : q ≠ cs := by
        rintro rfl
        exact hkeep (Or.inr (isDir_iff.mpr ⟨i, hino, hdir⟩))
      refine ⟨i, ?_, hdir⟩
      rw [Disk.find_eq hq]
      exact (Function.update_of_ne hne _ _).trans hino
  · exact ⟨i, hfind, hdir⟩

theorem onDisk_chmod (h : onDisk w path) (name : Str) (mode : ℕ) :
    onDisk (diskSys.chmod w name mode).2 path := by
  rw [diskSys_chmod, Host.modify]
  split
  · rename_i j hj
    split
    · exact h
    · obtain ⟨i, hfind, hdir⟩ := h
      refine ⟨i, hfind, ?_⟩
      by_cases hi : i = j
      · subst hi
        simpa [Disk.setNode, S_ISDIR, S_IFMT_perms] using hdir
      · simpa [Disk.setNode, hi] using hdir
  · exact h

def madeDir (mode : ℕ) : Node := ⟨0o040000 + mode % 4096, 0, 0, 0, []⟩

theorem madeDir_isDir (mode : ℕ) : S_ISDIR (madeDir mode).mode = true := by
  unfold S_ISDIR S_IFMT madeDir
  rw [decide_eq_true_iff]
  dsimp only
  omega

theorem diskSys_mkdir (w : Host) (path : Str) (mode : ℕ) :
    diskSys.mkdir w path mode = w.create path (madeDir mode) := rfl

theorem diskSys_directories : Directories diskSys onDisk where
  lstat _ _ _ h := h
  lstat_found w p sb h _ := by
    obtain ⟨i, hfind, rfl⟩ := Option.map_eq_some_iff.mp h
    exact onDisk_iff hfind
  stat w p q h := by
    change onDisk (w.stat p).2 q
    rw [Host.stat]
    split
    · dsimp only
      split <;> exact h
    · exact h
  stat_found w p sb h := by
    change (w.stat p).1 = _ at h
    change onDisk (w.stat p).2 p ↔ _
    rw [Host.stat] at h ⊢
    split at h
    · rename_i i hfind
      dsimp only at h ⊢
      split at h
      · simp at h
      · rename_i hlink
        rw [if_neg hlink]
        rw [StatResult.found.injEq] at h
        rw [← h]
        exact onDisk_iff hfind
    · simp at h
  stat_noEntry w p h := by
    change (w.stat p).1 = _ at h
    change ¬ onDisk (w.stat p).2 p
    rw [Host.stat] at h ⊢
    split at h
    · dsimp only at h
      split at h <;> simp at h
    · rename_i hfind
      rintro ⟨j, hj, _⟩
      rw [hfind] at hj
      simp at hj
  unlink _ p _ _ h := onDisk_unlink h p
  mkdir w p m q h := by
    rw [diskSys_mkdir]
    exact onDisk_create (madeDir_isDir m) h p
  mkdir_made w p m h := by
    rw [diskSys_mkdir] at h ⊢
    exact onDisk_made (madeDir_isDir m) h
  chmod _ p m _ h := onDisk_chmod h p m

/-- An empty working directory, and nothing remembered. -/
def fresh : Process Host := ⟨⟨[], emptyDisk⟩, none⟩

theorem fresh_lib : (callOnce diskSys true fresh (ascii "lib/a")).1.rc = .ok ∧
    (callOnce diskSys true fresh (ascii "lib/a")).2.lastDir = some (ascii "lib") := by
  decide +kernel

/-- Two files in one directory of one archive. -/
theorem checkDirectory_transparent_siblings :
    Transparent diskSys onDisk true fresh [.call (ascii "lib/a"), .call (ascii "lib/b")] := by
  apply (checkDirectory_transparent_iff diskSys_directories fresh _).1.mpr
  have hfirst : ¬ Hits fresh (ascii "lib/a") := by
    rintro ⟨dir, _, hlast⟩
    simp [fresh] at hlast
  have hmade := callOnce_missed diskSys_directories true (fun _ => hfirst) fresh_lib.1
  exact ⟨fun hit => absurd hit hfirst, fun _ => hmade, trivial⟩

/-- Two archives with a file in `lib`, the second unpacked in another, empty directory. -/
def twoArchives : List (Event Host) :=
  [.call (ascii "lib/a"), .other (fun _ => ⟨[], emptyDisk⟩), .call (ascii "lib/b")]

theorem twoArchives_not_transparent : ¬ Transparent diskSys onDisk true fresh twoArchives := by
  intro h
  have hhit : Hits (Process.mk (Host.mk [] emptyDisk)
      (callOnce diskSys true fresh (ascii "lib/a")).2.lastDir) (ascii "lib/b") :=
    ⟨ascii "lib", by decide +kernel, fresh_lib.2⟩
  have hsecond := callOnce_hit (S := diskSys) hhit
  have hdone : (⟨ascii "lib/b", .ok, ⟨[], emptyDisk⟩⟩ : Done Host) ∈
      calls diskSys true fresh twoArchives := by
    rw [← hsecond]
    exact List.mem_cons_of_mem _ (List.mem_cons_self ..)
  have hlib : ascii "lib" ∈ ancestors (ascii "lib/b") := by decide +kernel
  have hthere : onDisk ⟨[], emptyDisk⟩ (ascii "lib") := h _ hdone rfl _ hlib
  obtain ⟨i, hfind, _⟩ := hthere
  have hnone : emptyDisk.find (ascii "lib") = none := by decide +kernel
  rw [hnone] at hfind
  simp at hfind

end Disk

end Comodoo.CheckDirectory
