import Mathlib.Data.Bool.Basic
import Comodoo.CpioFrame

set_option autoImplicit false

/-!
# Runs without a failing call

`quiet` is a property of the world that a failing call takes away for good. Where it holds at the
end, it has held all along, and every helper that works on files has returned 0.
-/
namespace Comodoo.CpioQuiet
open CString CpioSystem CpioRead CpioExpand CpioInstall CpioFormat CpioStream CpioFrame StepRun

variable {W : Type} {S : Sys W} {quiet : W → Bool}

/-- A file that is not there is no failure of `lstat`, `stat` and `readlink`. -/
structure Watched (S : Sys W) (quiet : W → Bool) : Prop where
  gunzipRead : ∀ w n, quiet (S.gunzipRead w n).2 = quiet w
  lstat : ∀ w p, quiet (S.lstat w p).2 = quiet w
  stat : ∀ w p, quiet (S.stat w p).2 = (quiet w && (S.stat w p).1 ≠ .failed)
  unlink : ∀ w p, quiet (S.unlink w p).2 = (quiet w && (S.unlink w p).1)
  mkdir : ∀ w p m, quiet (S.mkdir w p m).2 = (quiet w && (S.mkdir w p m).1)
  chmod : ∀ w p m, quiet (S.chmod w p m).2 = (quiet w && (S.chmod w p m).1)
  chown : ∀ w p u g, quiet (S.chown w p u g).2 = (quiet w && (S.chown w p u g).1)
  lchown : ∀ w p u g, quiet (S.lchown w p u g).2 = (quiet w && (S.lchown w p u g).1)
  utime : ∀ w p t, quiet (S.utime w p t).2 = (quiet w && (S.utime w p t).1)
  openFile : ∀ w p, quiet (S.openFile w p).2 = (quiet w && (S.openFile w p).1 ≠ none)
  write : ∀ w fd b, quiet (S.write w fd b).2 = (quiet w && (S.write w fd b).1 = b.length)
  close : ∀ w fd, quiet (S.close w fd) = quiet w
  readlink : ∀ w p n, quiet (S.readlink w p n).2 = quiet w
  symlink : ∀ w t p, quiet (S.symlink w t p).2 = (quiet w && (S.symlink w t p).1)
  mkfifo : ∀ w p m, quiet (S.mkfifo w p m).2 = (quiet w && (S.mkfifo w p m).1)
  mknod : ∀ w p m d, quiet (S.mknod w p m d).2 = (quiet w && (S.mknod w p m d).1)
  link : ∀ w o p, quiet (S.link w o p).2 = (quiet w && (S.link w o p).1)

/-- Any system, with a note of whether a call has failed. -/
def watch (S : Sys W) : Sys (W × Bool) where
  gunzipRead w n := ((S.gunzipRead w.1 n).1, (S.gunzipRead w.1 n).2, w.2)
  gzipWrite w b := ((S.gzipWrite w.1 b).1, (S.gzipWrite w.1 b).2, w.2)
  lstat w p := ((S.lstat w.1 p).1, (S.lstat w.1 p).2, w.2)
  stat w p := ((S.stat w.1 p).1, (S.stat w.1 p).2, w.2 && (S.stat w.1 p).1 ≠ .failed)
  unlink w p := ((S.unlink w.1 p).1, (S.unlink w.1 p).2, w.2 && (S.unlink w.1 p).1)
  mkdir w p m := ((S.mkdir w.1 p m).1, (S.mkdir w.1 p m).2, w.2 && (S.mkdir w.1 p m).1)
  chmod w p m := ((S.chmod w.1 p m).1, (S.chmod w.1 p m).2, w.2 && (S.chmod w.1 p m).1)
  getuid w := S.getuid w.1
  chown w p u g := ((S.chown w.1 p u g).1, (S.chown w.1 p u g).2, w.2 && (S.chown w.1 p u g).1)
  lchown w p u g :=
    ((S.lchown w.1 p u g).1, (S.lchown w.1 p u g).2, w.2 && (S.lchown w.1 p u g).1)
  utime w p t := ((S.utime w.1 p t).1, (S.utime w.1 p t).2, w.2 && (S.utime w.1 p t).1)
  openFile w p := ((S.openFile w.1 p).1, (S.openFile w.1 p).2, w.2 && (S.openFile w.1 p).1 ≠ none)
  write w fd b :=
    ((S.write w.1 fd b).1, (S.write w.1 fd b).2, w.2 && (S.write w.1 fd b).1 = b.length)
  close w fd := (S.close w.1 fd, w.2)
  readlink w p n := ((S.readlink w.1 p n).1, (S.readlink w.1 p n).2, w.2)
  symlink w t p := ((S.symlink w.1 t p).1, (S.symlink w.1 t p).2, w.2 && (S.symlink w.1 t p).1)
  mkfifo w p m := ((S.mkfifo w.1 p m).1, (S.mkfifo w.1 p m).2, w.2 && (S.mkfifo w.1 p m).1)
  mknod w p m d := ((S.mknod w.1 p m d).1, (S.mknod w.1 p m d).2, w.2 && (S.mknod w.1 p m d).1)
  link w o p := ((S.link w.1 o p).1, (S.link w.1 o p).2, w.2 && (S.link w.1 o p).1)

theorem watch_watched (S : Sys W) : Watched (watch S) Prod.snd := by
  constructor <;> intros <;> rfl

theorem watch_fullReads {stream : W → Str} (hF : FullReads S stream) :
    FullReads (watch S) (fun w => stream w.1) where
  read w := hF.read w.1
  lstat w := hF.lstat w.1
  stat w := hF.stat w.1
  unlink w := hF.unlink w.1
  mkdir w := hF.mkdir w.1
  chmod w := hF.chmod w.1
  chown w := hF.chown w.1
  lchown w := hF.lchown w.1
  utime w := hF.utime w.1
  openFile w := hF.openFile w.1
  write w := hF.write w.1
  close w := hF.close w.1
  readlink w := hF.readlink w.1
  symlink w := hF.symlink w.1
  mkfifo w := hF.mkfifo w.1
  mknod w := hF.mknod w.1
  link w := hF.link w.1
  gzipWrite w := hF.gzipWrite w.1

section Files

theorem clearPath_quiet (hQ : Watched S quiet) (w : W) (path : Str) :
    quiet (clearPath S w path).2 = (quiet w && (clearPath S w path).1) := by
  grind [clearPath, hQ.lstat, hQ.unlink]

theorem makeDirectory_quiet (hQ : Watched S quiet) (w : W) (path : Str) (perms : ℕ) :
    quiet (makeDirectory S w path perms).2 =
      (quiet w && (makeDirectory S w path perms).1 = .ok) := by
  grind [makeDirectory, hQ.mkdir, hQ.chmod]

theorem replaceByDirectory_quiet (hQ : Watched S quiet) (w : W) (path : Str) (perms : ℕ) :
    quiet (replaceByDirectory S w path perms).2 =
      (quiet w && (replaceByDirectory S w path perms).1 = .ok) := by
  grind [replaceByDirectory, hQ.unlink, makeDirectory_quiet hQ]

theorem createDirectory_quiet (hQ : Watched S quiet) (w : W) (path : Str) (perms : ℕ) :
    quiet (createDirectory S w path perms).2 =
      (quiet w && (createDirectory S w path perms).1 = .ok) := by
  grind [createDirectory, hQ.lstat, hQ.stat, makeDirectory_quiet hQ, replaceByDirectory_quiet hQ]

theorem createDirectories_quiet (hQ : Watched S quiet) (dirs : List Str) (w : W) :
    quiet (createDirectories S w dirs).2 = (quiet w && (createDirectories S w dirs).1 = .ok) := by
  induction dirs generalizing w with
  | nil => simp [createDirectories]
  | cons dir dirs ih => grind [createDirectories, createDirectory_quiet hQ]

theorem checkDirectory_quiet (hQ : Watched S quiet) (w : W) (lastDir : Option Str)
    (filename : Str) :
    quiet (checkDirectory S w lastDir filename).2.1 =
      (quiet w && (checkDirectory S w lastDir filename).1 = .ok) := by
  grind [checkDirectory, createDirectories_quiet hQ]

theorem setInfo_quiet (hQ : Watched S quiet) (w : W) (hdr : CpioHeader) :
    quiet (setInfo S w hdr).2 = (quiet w && (setInfo S w hdr).1 = .ok) := by
  grind [setInfo, hQ.lchown, hQ.chown, hQ.chmod, hQ.utime]

theorem makeSymlink_quiet (hQ : Watched S quiet) (w : W) (target path : Str) :
    quiet (makeSymlink S w target path).2 = (quiet w && (makeSymlink S w target path).1 = .ok) := by
  grind [makeSymlink, hQ.symlink]

theorem replaceBySymlink_quiet (hQ : Watched S quiet) (w : W) (target path : Str) :
    quiet (replaceBySymlink S w target path).2 =
      (quiet w && (replaceBySymlink S w target path).1 = .ok) := by
  grind [replaceBySymlink, hQ.unlink, makeSymlink_quiet hQ]

theorem placeSymlink_quiet (hQ : Watched S quiet) (w : W) (target path : Str) :
    quiet (placeSymlink S w target path).2 =
      (quiet w && (placeSymlink S w target path).1 = .ok) := by
  grind [placeSymlink, hQ.lstat, hQ.readlink, makeSymlink_quiet hQ, replaceBySymlink_quiet hQ]

theorem expandFifo_quiet (hQ : Watched S quiet) (w : W) (hdr : CpioHeader) :
    quiet (expandFifo S w hdr).2 = (quiet w && (expandFifo S w hdr).1 = .ok) := by
  grind [expandFifo, hQ.lstat, hQ.unlink, hQ.mkfifo]

theorem expandDevice_quiet (hQ : Watched S quiet) (w : W) (hdr : CpioHeader) :
    quiet (expandDevice S w hdr).2 = (quiet w && (expandDevice S w hdr).1 = .ok) := by
  grind [expandDevice, hQ.lstat, hQ.unlink, hQ.mknod]

theorem linkFiles_quiet (hQ : Watched S quiet) (source : Str) (createdPath i : ℕ)
    (files : List (Option Str)) (w : W) :
    quiet (linkFiles S source createdPath i files w).w =
      (quiet w && (linkFiles S source createdPath i files w).rc = .ok) := by
  induction files generalizing i w with
  | nil => simp [linkFiles]
  | cons f fs ih =>
    cases f with
    | none => exact ih (i + 1) w
    | some f => grind [linkFiles, hQ.link, clearPath_quiet hQ]

end Files

section Stream

theorem expandLoop_quiet (hQ : Watched S quiet) (cb : Bool) (hdr : CpioHeader) (out fuel : ℕ)
    {io : Io W} {left : ℕ} {written : Str}
    (h : quiet (expandLoop S cb hdr out fuel io left written).2.2.w = true) :
    quiet io.w = true := by
  induction fuel generalizing io left written with
  | zero => exact h
  | succ fuel ih => grind [expandLoop, ourread_keeps hQ.gunzipRead, hQ.write]

theorem before {after now ok : Bool} (h : after = (now && ok)) (hafter : after = true) :
    now = true ∧ ok = true := by
  rwa [h, Bool.and_eq_true] at hafter

theorem expandRegular_quiet (hQ : Watched S quiet) (cb : Bool) {io : Io W} {hdr : CpioHeader}
    (h : quiet (expandRegular S cb io hdr).2.2.w = true) : quiet io.w = true := by
  have hclear := clearPath_quiet hQ io.w hdr.path
  rw [expandRegular] at h
  cases hc : clearPath S io.w hdr.path with
  | mk cleared w1 =>
    rw [hc] at h hclear
    cases cleared with
    | false => exact (before hclear h).1
    | true =>
      have hopen := hQ.openFile w1 hdr.path
      dsimp only at h
      cases ho : S.openFile w1 hdr.path with
      | mk fd w2 =>
        rw [ho] at h hopen
        cases fd with
        | none => exact (before hclear (before hopen h).1).1
        | some out =>
          dsimp only at h
          rw [hQ.close] at h
          have hloop := expandLoop_quiet hQ cb hdr out hdr.size h
          exact (before hclear (before hopen hloop).1).1

theorem expandSymlink_quiet (hQ : Watched S quiet) {io io' : Io W} {hdr : CpioHeader} {rc : Rc}
    (hrun : expandSymlink S io hdr = some (rc, io')) (h : quiet io'.w = true) :
    quiet io.w = true := by
  grind [expandSymlink, ourread_keeps hQ.gunzipRead, placeSymlink_quiet hQ]

theorem expandEntry_quiet (hQ : Watched S quiet) (cb : Bool) {io io' : Io W} {ch : CpioHeader}
    {rc : Rc} {call : Call} (hrun : expandEntry S cb io ch = some (rc, call, io'))
    (h : quiet io'.w = true) : quiet io.w = true := by
  have hfiles : ∀ r : Rc × W, quiet r.2 = (quiet io.w && r.1 = .ok) →
      some (r.1, Call.expandOther, { io with w := r.2 }) = some (rc, call, io') →
      quiet io.w = true := by
    rintro r hr heq
    obtain ⟨-, -, rfl⟩ : r.1 = rc ∧ Call.expandOther = call ∧ { io with w := r.2 } = io' := by
      simpa using heq
    exact (before hr h).1
  rw [expandEntry] at hrun
  dsimp only at hrun
  split at hrun
  · obtain ⟨-, -, rfl⟩ := (by simpa using hrun : _ ∧ _ ∧ _)
    exact expandRegular_quiet hQ cb h
  · split at hrun
    · exact hfiles _ (createDirectory_quiet hQ _ _ _) hrun
    · split at hrun
      · obtain ⟨⟨rc1, io1⟩, hlink, heq⟩ := Option.map_eq_some_iff.mp hrun
        obtain ⟨-, -, rfl⟩ := (by simpa using heq : _ ∧ _ ∧ _)
        exact expandSymlink_quiet hQ hlink h
      · split at hrun
        · exact hfiles _ (expandFifo_quiet hQ _ _) hrun
        · split at hrun
          · exact hfiles _ (expandDevice_quiet hQ _ _) hrun
          · split at hrun
            · exact hfiles _ (expandFifo_quiet hQ _ _) hrun
            · obtain ⟨-, -, rfl⟩ := (by simpa using hrun : _ ∧ _ ∧ _)
              exact h

end Stream

section Entry

variable {s s' : St W} {ch : CpioHeader} {rc : Rc}

theorem createFile_quiet (hQ : Watched S quiet) (cb : Bool)
    (hrun : createFile S cb s ch = some (rc, s')) (h : quiet s'.io.w = true) :
    quiet s.io.w = true := by
  have hdir := checkDirectory_quiet hQ s.io.w s.lastDir ch.path
  rw [createFile] at hrun
  split at hrun
  · cases hrun
  · cases hc : checkDirectory S s.io.w s.lastDir ch.path with
    | mk rc1 r =>
      rw [hc] at hdir
      simp only [hc] at hrun
      split at hrun
      · rw [← (Prod.mk.inj (Option.some.inj hrun)).2] at h
        exact (before hdir h).1
      · cases he : expandEntry S cb { s.io with w := r.1 } ch with
        | none => simp [he] at hrun
        | some q =>
          obtain ⟨rc2, call, io⟩ := q
          have hexp := fun hio => (before hdir (expandEntry_quiet hQ cb he hio)).1
          simp only [he] at hrun
          split at hrun
          · rw [← (Prod.mk.inj (Option.some.inj hrun)).2] at h
            exact hexp h
          · rw [← (Prod.mk.inj (Option.some.inj hrun)).2] at h
            exact hexp (before (setInfo_quiet hQ io.w ch) h).1

theorem createLinks_quiet (hQ : Watched S quiet) (s : St W) (li : HardLink) (looked : Bool) :
    quiet (createLinks S s li looked).2.io.w =
      (quiet s.io.w && (createLinks S s li looked).1 = .ok) :=
  linkFiles_quiet hQ _ _ _ _ _

theorem laterMember_quiet (hQ : Watched S quiet) {s : St W} {li : HardLink} {ch : CpioHeader}
    (h : quiet (laterMember S s li ch).io.w = true) :
    quiet s.io.w = true ∧ (createLinks S s li false).1 = .ok := by
  have hlinks : quiet (createLinks S s li false).2.io.w = true := by
    rw [laterMember] at h
    split at h
    · exact h
    · rwa [← eatBytes_keeps hQ.gunzipRead _ ch.size]
  simpa using before (createLinks_quiet hQ s li false) hlinks

theorem dataMember_quiet (hQ : Watched S quiet) (cb : Bool) {li : HardLink} {k : ℕ}
    (hrun : dataMember S cb s li k ch = some (rc, s')) (h : quiet s'.io.w = true) :
    quiet s.io.w = true ∧ rc = .ok ∧
      ∃ rc1 s1, createFile S cb s ch = some (rc1, s1) ∧ quiet s1.io.w = true := by
  rw [dataMember, Option.map_eq_some_iff] at hrun
  obtain ⟨⟨rc1, s1⟩, hcreate, hlinks⟩ := hrun
  have hquiet := createLinks_quiet hQ s1 { li with
    createdPath := some k, linksLeft := li.linksLeft - 1 } true
  rw [hlinks] at hquiet
  obtain ⟨hs1, hrc⟩ := before hquiet h
  exact ⟨createFile_quiet hQ cb hcreate hs1, of_decide_eq_true hrc, rc1, s1, hcreate, hs1⟩

theorem installEntry_quiet (hQ : Watched S quiet) (cb : Bool)
    (hrun : installEntry S cb s ch = some (rc, s')) (h : quiet s'.io.w = true) :
    quiet s.io.w = true := by
  rw [installEntry] at hrun
  split at hrun
  · dsimp only at hrun
    split at hrun
    · cases hrun
    · split at hrun
      · rw [← (Prod.mk.inj (Option.some.inj hrun)).2] at h
        exact h
      · split at hrun
        · rw [← (Prod.mk.inj (Option.some.inj hrun)).2] at h
          exact (laterMember_quiet hQ h).1
        · exact (dataMember_quiet hQ cb hrun h).1
  · exact createFile_quiet hQ cb hrun h

theorem recordFailure_quiet (hQ : Watched S quiet) {rc : Rc}
    (h : quiet (recordFailure S rc s ch).io.w = true) : quiet s.io.w = true := by
  rw [recordFailure] at h
  split at h
  · exact (before (hQ.unlink _ _) h).1
  · exact h

theorem finishEntry_quiet (hQ : Watched S quiet) (cb : Bool) (rc : Rc) (s : St W)
    (ch : CpioHeader) :
    (finishEntry S cb rc s ch).Sat (fun s' => quiet s'.io.w = quiet s.io.w)
      (fun o => quiet o.2.io.w = quiet s.io.w) := by
  have hpad := padinfd_keeps hQ.gunzipRead s.io 4
  rw [finishEntry]
  split
  · change quiet _ = _
    split <;> exact hpad
  · exact hpad

end Entry

section Loop

variable {mappings : Option (List FileMapping)}

theorem loopBody_quiet (hQ : Watched S quiet) (cb : Bool) (s : St W) :
    (loopBody S cb mappings s).Sat (fun s' => quiet s'.io.w = true → quiet s.io.w = true)
      (fun o => quiet o.2.io.w = true → quiet s.io.w = true) := by
  have hget := getNextHeader_keeps hQ.gunzipRead s.io
  rw [loopBody]
  generalize getNextHeader S s.io = next at hget
  rcases next with ⟨rc | ⟨ch, phys⟩ | _, io⟩
  · exact fun h => hget ▸ h
  · dsimp only at hget ⊢
    rw [← hget]
    split
    · exact id
    · split
      · have heat := eatBytes_keeps hQ.gunzipRead io ch.size
        refine (finishEntry_quiet hQ cb .ok _ ch).imp ?_ ?_
        · intro s' hs' h
          rw [← heat]
          exact hs'.symm.trans h
        · intro o ho h
          rw [← heat]
          exact ho.symm.trans h
      · rename_i ch' _
        split
        · exact id
        · rename_i rc1 s1 hrun
          have hback : quiet (recordFailure S rc1 s1 ch').io.w = true → quiet io.w = true :=
            fun h => installEntry_quiet hQ cb hrun (recordFailure_quiet hQ h)
          refine (finishEntry_quiet hQ cb rc1 _ ch').imp ?_ ?_
          · exact fun s' hs' h => hback (hs'.symm.trans h)
          · exact fun o ho h => hback (ho.symm.trans h)
  · exact fun h => hget ▸ h

theorem installLoop_quiet (hQ : Watched S quiet) (cb : Bool) (fuel : ℕ) (s : St W) :
    (installLoop S cb mappings fuel s).Sat (fun s' => quiet s'.io.w = true → quiet s.io.w = true)
      (fun o => quiet o.2.io.w = true → quiet s.io.w = true) := by
  have hbody : ∀ s1 (_ : Unit), (quiet s1.io.w = true → quiet s.io.w = true) →
      (loopBody S cb mappings s1).Sat (fun s' => quiet s'.io.w = true → quiet s.io.w = true)
        (fun o => quiet o.2.io.w = true → quiet s.io.w = true) :=
    fun s1 _ hs1 => (loopBody_quiet hQ cb s1).imp (fun _ h => hs1 ∘ h) (fun _ h => hs1 ∘ h)
  exact run_keeps hbody s _ id

theorem sweepLinks_quiet (hQ : Watched S quiet) (links : List HardLink) {s : St W}
    (h : quiet (sweepLinks S links s).2.io.w = true) : quiet s.io.w = true := by
  induction links generalizing s with
  | nil => exact h
  | cons li links ih =>
    have hlinks := createLinks_quiet hQ s li true
    rw [sweepLinks] at h
    split at h
    · split at h
      · exact h
      · split at h
        · rename_i s1 hcall
          rw [hcall] at hlinks
          exact (before hlinks (ih h)).1
        · rename_i rc s1 _ hcall
          rw [hcall] at hlinks
          exact (before hlinks h).1
    · exact ih h

end Loop

end Comodoo.CpioQuiet
