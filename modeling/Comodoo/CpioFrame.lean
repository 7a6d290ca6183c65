import Comodoo.CpioStream
import Comodoo.CpioInstall

set_option autoImplicit false

/-!
# What the helpers read

The helpers that work on files leave the stream alone, and an expansion that ends well has
read exactly the data of its entry.
-/
namespace Comodoo.CpioFrame
open CString CpioSystem CpioRead CpioExpand CpioInstall CpioFormat CpioStream

variable {W : Type} {S : Sys W} {stream : W → Str}

section Frame

theorem clearPath_stream (hF : FullReads S stream) (w : W) (path : Str) :
    stream (clearPath S w path).2 = stream w := by
  grind [clearPath, hF.lstat, hF.unlink]

theorem makeDirectory_stream (hF : FullReads S stream) (w : W) (path : Str) (perms : ℕ) :
    stream (makeDirectory S w path perms).2 = stream w := by
  grind [makeDirectory, hF.mkdir, hF.chmod]

theorem replaceByDirectory_stream (hF : FullReads S stream) (w : W) (path : Str) (perms : ℕ) :
    stream (replaceByDirectory S w path perms).2 = stream w := by
  grind [replaceByDirectory, hF.unlink, makeDirectory_stream hF]

theorem createDirectory_stream (hF : FullReads S stream) (w : W) (path : Str) (perms : ℕ) :
    stream (createDirectory S w path perms).2 = stream w := by
  grind [createDirectory, hF.lstat, hF.stat, makeDirectory_stream hF, replaceByDirectory_stream hF]

theorem createDirectories_stream (hF : FullReads S stream) (w : W) (dirs : List Str) :
    stream (createDirectories S w dirs).2 = stream w := by
  induction dirs generalizing w with
  | nil => rfl
  | cons dir dirs ih => grind [createDirectories, createDirectory_stream hF]

theorem checkDirectory_stream (hF : FullReads S stream) (w : W) (lastDir : Option Str)
    (filename : Str) : stream (checkDirectory S w lastDir filename).2.1 = stream w := by
  grind [checkDirectory, createDirectories_stream hF]

theorem setInfo_stream (hF : FullReads S stream) (w : W) (hdr : CpioHeader) :
    stream (setInfo S w hdr).2 = stream w := by
  grind [setInfo, hF.lchown, hF.chown, hF.chmod, hF.utime]

theorem makeSymlink_stream (hF : FullReads S stream) (w : W) (target path : Str) :
    stream (makeSymlink S w target path).2 = stream w := by
  grind [makeSymlink, hF.symlink]

theorem replaceBySymlink_stream (hF : FullReads S stream) (w : W) (target path : Str) :
    stream (replaceBySymlink S w target path).2 = stream w := by
  grind [replaceBySymlink, hF.unlink, makeSymlink_stream hF]

theorem placeSymlink_stream (hF : FullReads S stream) (w : W) (target path : Str) :
    stream (placeSymlink S w target path).2 = stream w := by
  grind [placeSymlink, hF.lstat, hF.readlink, makeSymlink_stream hF, replaceBySymlink_stream hF]

theorem expandFifo_stream (hF : FullReads S stream) (w : W) (hdr : CpioHeader) :
    stream (expandFifo S w hdr).2 = stream w := by
  grind [expandFifo, hF.lstat, hF.unlink, hF.mkfifo]

theorem expandDevice_stream (hF : FullReads S stream) (w : W) (hdr : CpioHeader) :
    stream (expandDevice S w hdr).2 = stream w := by
  grind [expandDevice, hF.lstat, hF.unlink, hF.mknod]

theorem linkFiles_stream (hF : FullReads S stream) (source : Str) (createdPath i : ℕ)
    (files : List (Option Str)) (w : W) :
    stream (linkFiles S source createdPath i files w).w = stream w := by
  induction files generalizing i w with
  | nil => rfl
  | cons f fs ih =>
    cases f with
    | none => exact ih (i + 1) w
    | some f => grind [linkFiles, hF.link, clearPath_stream hF]

end Frame

theorem expandLoop_at (hF : FullReads S stream) (cb : Bool) (hdr : CpioHeader) (out fuel : ℕ)
    {io io' : Io W} {pos : ℤ} {a rest written written' : Str} (h : At stream io pos (a ++ rest))
    (hfuel : a.length ≤ fuel)
    (hok : expandLoop S cb hdr out fuel io a.length written = (.ok, written', io')) :
    At stream io' (pos + a.length) rest := by
  induction fuel generalizing io pos a written with
  | zero =>
    obtain rfl : a = [] := List.length_eq_zero_iff.mp (by omega)
    obtain ⟨-, -, rfl⟩ : Rc.ok = Rc.ok ∧ written = written' ∧ io = io' := by
      simpa [expandLoop] using hok
    simpa using h
  | succ fuel ih =>
    rw [expandLoop] at hok
    by_cases ha : a.length = 0
    · obtain rfl := List.length_eq_zero_iff.mp ha
      obtain ⟨-, rfl⟩ : written = written' ∧ io = io' := by simpa using hok
      simpa using h
    · rw [if_neg ha] at hok
      obtain ⟨io1, hread, hat, -⟩ := ourread_chunk hF h 8192
      have htake : (a.take 8192).length = min a.length 8192 := by rw [List.length_take, Nat.min_comm]
      have hdrop : a.length - (a.take 8192).length = (a.drop 8192).length := by
        rw [List.length_drop]
        omega
      simp only [hread] at hok
      rw [if_neg (List.ne_nil_of_length_pos (by omega)), hdrop] at hok
      have hwrite := hF.write io1.w out (a.take 8192)
      split at hok
      · simp at hok
      · have hat2 := ih (by split <;> exact hat.move rfl hwrite) (by omega) hok
        convert hat2 using 1
        omega

section Entry

variable {pos : ℤ} {a rest : Str} {ch : CpioHeader}

theorem expandRegular_at (hF : FullReads S stream) (cb : Bool) {io : Io W}
    (hsize : ch.size = a.length) (h : At stream io pos (a ++ rest))
    (hok : (expandRegular S cb io ch).1 = .ok) :
    At stream (expandRegular S cb io ch).2.2 (pos + a.length) rest := by
  have hclear := clearPath_stream hF io.w ch.path
  rw [expandRegular] at hok ⊢
  cases hc : clearPath S io.w ch.path with
  | mk cleared w1 =>
    rw [hc] at hclear
    cases cleared with
    | false => simp [hc] at hok
    | true =>
      have hopen := hF.openFile w1 ch.path
      cases ho : S.openFile w1 ch.path with
      | mk fd w2 =>
        rw [ho] at hopen
        cases fd with
        | none => simp [hc, ho] at hok
        | some out =>
          simp only [hc, ho] at hok ⊢
          have hat : At stream { io with w := w2 } pos (a ++ rest) :=
            h.move rfl (hopen.trans hclear)
          cases he : expandLoop S cb ch out ch.size { io with w := w2 } ch.size [] with
          | mk rc r =>
            rw [he] at hok
            obtain rfl : rc = .ok := hok
            rw [hsize] at he
            have hend := expandLoop_at hF cb ch out a.length hat (Nat.le_refl _) he
            exact hend.move rfl (hF.close r.2.w out)

theorem expandSymlink_at (hF : FullReads S stream) {io io' : Io W} (hsize : ch.size = a.length)
    (h : At stream io pos (a ++ rest)) (hok : expandSymlink S io ch = some (.ok, io')) :
    At stream io' (pos + a.length) rest := by
  obtain ⟨io1, hread, hat, -⟩ := ourread_at hF h
  rw [expandSymlink, hsize] at hok
  simp only [hread, ne_eq, not_true_eq_false, if_false] at hok
  split at hok
  · simp at hok
  · split at hok
    · simp at hok
    · obtain ⟨-, rfl⟩ := Prod.mk.inj (Option.some.inj hok)
      exact hat.move rfl (placeSymlink_stream hF _ _ _)

theorem expandEntry_at (hF : FullReads S stream) (cb : Bool) {io io' : Io W} {call : Call}
    (hsize : ch.size = a.length)
    (hplain : S_ISREG ch.mode = false → S_ISLNK ch.mode = false → a = [])
    (h : At stream io pos (a ++ rest)) (hok : expandEntry S cb io ch = some (.ok, call, io')) :
    At stream io' (pos + a.length) rest := by
  rw [expandEntry] at hok
  by_cases hreg : S_ISREG ch.mode = true
  · simp only [hreg, if_true, Option.some.injEq, Prod.mk.injEq] at hok
    obtain ⟨hrc, -, rfl⟩ := hok
    exact expandRegular_at hF cb hsize h hrc
  · by_cases hlnk : S_ISLNK ch.mode = true
    · have hdir : S_ISDIR ch.mode = false := by
        simp only [S_ISLNK, S_ISDIR, decide_eq_true_eq, decide_eq_false_iff_not] at hlnk ⊢
        omega
      simp only [hreg, hdir, hlnk, if_true, Bool.false_eq_true, if_false, Option.map_eq_some_iff,
        Prod.exists, Prod.mk.injEq] at hok
      obtain ⟨rc, io1, hexp, rfl, -, rfl⟩ := hok
      exact expandSymlink_at hF hsize h hexp
    · obtain rfl := hplain (by simpa using hreg) (by simpa using hlnk)
      simp only [hreg, hlnk, Bool.false_eq_true, if_false] at hok
      have hstay : io'.pos = io.pos ∧ stream io'.w = stream io.w := by
        -- what is left makes its file without a look at the stream
        split at hok
        · obtain ⟨-, -, rfl⟩ := (by simpa using hok : _ ∧ _ ∧ _)
          exact ⟨rfl, createDirectory_stream hF _ _ _⟩
        · split at hok
          · obtain ⟨-, -, rfl⟩ := (by simpa using hok : _ ∧ _ ∧ _)
            exact ⟨rfl, expandFifo_stream hF _ _⟩
          · split at hok
            · obtain ⟨-, -, rfl⟩ := (by simpa using hok : _ ∧ _ ∧ _)
              exact ⟨rfl, expandDevice_stream hF _ _⟩
            · split at hok
              · obtain ⟨-, -, rfl⟩ := (by simpa using hok : _ ∧ _ ∧ _)
                exact ⟨rfl, expandFifo_stream hF _ _⟩
              · simp at hok
      simpa using h.move hstay.1 hstay.2

end Entry

end Comodoo.CpioFrame
