import Comodoo.CpioFormat

set_option autoImplicit false

/-!
# Reading from an intact stream

`FullReads` says that reads deliver what they are asked for as long as the stream has it, and
that nothing else touches the stream. Whatever the file system calls return is left open.
-/
namespace Comodoo.CpioStream
open CString CpioSystem CpioRead CpioFormat

variable {W : Type} {S : Sys W} {stream : W → Str}

structure FullReads (S : Sys W) (stream : W → Str) : Prop where
  read : ∀ w a rest, stream w = a ++ rest →
    (S.gunzipRead w a.length).1 = some a ∧ stream (S.gunzipRead w a.length).2 = rest
  lstat : ∀ w p, stream (S.lstat w p).2 = stream w
  stat : ∀ w p, stream (S.stat w p).2 = stream w
  unlink : ∀ w p, stream (S.unlink w p).2 = stream w
  mkdir : ∀ w p m, stream (S.mkdir w p m).2 = stream w
  chmod : ∀ w p m, stream (S.chmod w p m).2 = stream w
  chown : ∀ w p u g, stream (S.chown w p u g).2 = stream w
  lchown : ∀ w p u g, stream (S.lchown w p u g).2 = stream w
  utime : ∀ w p t, stream (S.utime w p t).2 = stream w
  openFile : ∀ w p, stream (S.openFile w p).2 = stream w
  write : ∀ w fd b, stream (S.write w fd b).2 = stream w
  close : ∀ w fd, stream (S.close w fd) = stream w
  readlink : ∀ w p n, stream (S.readlink w p n).2 = stream w
  symlink : ∀ w t p, stream (S.symlink w t p).2 = stream w
  mkfifo : ∀ w p m, stream (S.mkfifo w p m).2 = stream w
  mknod : ∀ w p m d, stream (S.mknod w p m d).2 = stream w
  link : ∀ w o p, stream (S.link w o p).2 = stream w
  gzipWrite : ∀ w b, stream (S.gzipWrite w b).2 = stream w

/-- The stream holds `rest` and `pos` bytes have been read. -/
structure At (stream : W → Str) (io : Io W) (pos : ℤ) (rest : Str) : Prop where
  pos_eq : io.pos = pos
  rest_eq : stream io.w = rest

theorem At.move {io io' : Io W} {pos : ℤ} {rest : Str} (h : At stream io pos rest)
    (hpos : io'.pos = io.pos) (hw : stream io'.w = stream io.w) : At stream io' pos rest :=
  ⟨hpos.trans h.pos_eq, hw.trans h.rest_eq⟩

theorem ourread_at (hF : FullReads S stream) {io : Io W} {pos : ℤ} {a rest : Str}
    (h : At stream io pos (a ++ rest)) :
    ∃ io', ourread S io a.length = (some a, io') ∧ At stream io' (pos + a.length) rest ∧
      io'.calls = io.calls := by
  obtain ⟨hgot, hrest⟩ := hF.read io.w a rest h.rest_eq
  refine ⟨{ io with w := (S.gunzipRead io.w a.length).2, pos := io.pos + a.length }, ?_, ?_, rfl⟩
  · have hpair : S.gunzipRead io.w a.length = (some a, (S.gunzipRead io.w a.length).2) :=
      Prod.ext hgot rfl
    rw [ourread, hpair]
    simp
  · exact ⟨by rw [h.pos_eq], hrest⟩

theorem padAmount_eq {pos : ℤ} {n k : ℕ} (h : pos % 4 = n % 4) (hk : k = (4 - n % 4) % 4) :
    padAmount pos 4 = k := by
  rw [padAmount]
  push_cast
  omega

theorem padinfd_at (hF : FullReads S stream) {io : Io W} {pos : ℤ} {pad rest : Str}
    (h : At stream io pos (pad ++ rest)) (hpad : padAmount pos 4 = pad.length) :
    At stream (padinfd S io 4) (pos + pad.length) rest ∧ (padinfd S io 4).calls = io.calls := by
  obtain ⟨io', hread, hat, hcalls⟩ := ourread_at hF h
  rw [padinfd, h.pos_eq, hpad, hread]
  exact ⟨hat, hcalls⟩

theorem ourread_chunk (hF : FullReads S stream) {io : Io W} {pos : ℤ} {a rest : Str}
    (h : At stream io pos (a ++ rest)) (k : ℕ) :
    ∃ io', ourread S io (min a.length k) = (some (a.take k), io') ∧
      At stream io' (pos + (a.take k).length) (a.drop k ++ rest) ∧ io'.calls = io.calls := by
  rw [← List.take_append_drop k a, List.append_assoc] at h
  obtain ⟨io', hread, hat, hcalls⟩ := ourread_at hF h
  rw [List.length_take, Nat.min_comm] at hread
  exact ⟨io', hread, hat, hcalls⟩

theorem eatLoop_at (hF : FullReads S stream) (fuel : ℕ) {io : Io W} {pos : ℤ} {a rest : Str}
    (h : At stream io pos (a ++ rest)) (hf : a.length ≤ fuel) :
    ∃ io', eatLoop S fuel io a.length = (.ok, io') ∧ At stream io' (pos + a.length) rest ∧
      io'.calls = io.calls := by
  induction fuel generalizing io pos a with
  | zero =>
    obtain rfl : a = [] := List.length_eq_zero_iff.mp (by omega)
    exact ⟨io, rfl, by simpa using h, rfl⟩
  | succ fuel ih =>
    by_cases ha : a.length = 0
    · obtain rfl := List.length_eq_zero_iff.mp ha
      exact ⟨io, by simp [eatLoop], by simpa using h, rfl⟩
    · obtain ⟨io1, hread, hat, hcalls⟩ := ourread_chunk hF h 4096
      have htake : (a.take 4096).length = min a.length 4096 := by rw [List.length_take, Nat.min_comm]
      have hdrop : (a.drop 4096).length = a.length - min a.length 4096 := by
        rw [List.length_drop]
        omega
      obtain ⟨io2, heat, hat2, hcalls2⟩ := ih hat (by omega)
      refine ⟨io2, ?_, ?_, hcalls2.trans hcalls⟩
      · rw [eatLoop, if_neg ha]
        simp only [hread, Option.map_some, htake, if_true]
        rwa [hdrop] at heat
      · convert hat2 using 1
        omega

theorem eatBytes_at (hF : FullReads S stream) {io : Io W} {pos : ℤ} {a rest : Str}
    (h : At stream io pos (a ++ rest)) :
    ∃ io', eatBytes S io a.length = (.ok, io') ∧ At stream io' (pos + a.length) rest ∧
      io'.calls = io.calls :=
  eatLoop_at hF a.length h (Nat.le_refl _)

theorem padAmount_data {e : Entry} (he : e.WellFormed) {pos : ℤ} (hpos : pos % 4 = 0) :
    padAmount (pos + (PHYS_HDR_SIZE + e.name.length + e.namePad.length : ℕ) + e.data.length) 4 =
      e.dataPad.length := by
  have halign : (110 + e.name.length + e.namePad.length) % 4 = 0 := he.aligned.1
  apply padAmount_eq (n := e.data.length) ?_ he.dataPad_length
  push_cast
  omega

theorem encode_length {e : Entry} (he : e.WellFormed) (pos : ℤ) :
    pos + e.encode.length = pos + (PHYS_HDR_SIZE + e.name.length + e.namePad.length : ℕ) +
      e.data.length + e.dataPad.length := by
  simp only [Entry.encode, List.length_append, he.physHeader_length]
  push_cast
  omega

theorem readHeader (hF : FullReads S stream) {io : Io W} {pos : ℤ} {e : Entry} {rest : Str}
    (he : e.WellFormed) (h : At stream io pos (e.encode ++ rest)) :
    ∃ io', At stream io' (pos + PHYS_HDR_SIZE)
        (e.name ++ (e.namePad ++ (e.data ++ (e.dataPad ++ rest)))) ∧ io'.calls = io.calls ∧
      getNextHeader S io =
        readName S io' e.physHeader { e.header with path := [] } e.name.length := by
  have hphys := he.physHeader_length
  have hsplit : e.encode ++ rest =
      e.physHeader ++ (e.name ++ (e.namePad ++ (e.data ++ (e.dataPad ++ rest)))) := by
    simp only [Entry.encode, List.append_assoc]
  rw [hsplit] at h
  obtain ⟨io1, hread1, hat1, hcalls1⟩ := ourread_at hF h
  rw [hphys] at hread1 hat1
  refine ⟨io1, hat1, hcalls1, ?_⟩
  have hmagic : ¬ (e.physHeader.take 6 ≠ CPIO_CRC_MAGIC ∧
      e.physHeader.take 6 ≠ CPIO_NEWC_MAGIC) := by
    rw [Entry.physHeader, ← e.magic_length, List.take_left, Entry.magic]
    split <;> simp
  rw [getNextHeader, hread1]
  simp only [hphys, he.parseFields_physHeader, ne_eq, not_true_eq_false, if_false]
  rw [if_neg hmagic, he.nameSize]

theorem getNextHeader_at (hF : FullReads S stream) {io : Io W} {pos : ℤ} {e : Entry} {rest : Str}
    (he : e.WellFormed) (hfits : e.NameFits) (h : At stream io pos (e.encode ++ rest))
    (hpos : pos % 4 = 0) :
    ∃ io', getNextHeader S io = (.header e.header e.physHeader, io') ∧
      At stream io' (pos + (PHYS_HDR_SIZE + e.name.length + e.namePad.length : ℕ))
        (e.data ++ (e.dataPad ++ rest)) ∧
      io'.calls = io.calls := by
  obtain ⟨io1, hat1, hcalls1, hget⟩ := readHeader hF he h
  obtain ⟨io2, hread2, hat2, hcalls2⟩ := ourread_at hF hat1
  have hpad : padAmount (pos + PHYS_HDR_SIZE + e.name.length) 4 = e.namePad.length := by
    apply padAmount_eq (n := PHYS_HDR_SIZE + e.name.length) ?_ he.namePad_length
    push_cast
    omega
  obtain ⟨hat3, hcalls3⟩ := padinfd_at hF hat2 hpad
  refine ⟨padinfd S io2 4, ?_, ?_, hcalls3.trans (hcalls2.trans hcalls1)⟩
  · have hsize : (e.name.length : ℤ).toNat = e.name.length := Int.toNat_natCast _
    have hblock : ¬ ((e.name.length : ℤ) + 1 = 2 ^ 31) := by
      rw [Entry.NameFits] at hfits
      omega
    rw [hget, readName, if_neg hblock, if_neg (by omega), hsize, hread2]
    simp only [ne_eq, not_true_eq_false, if_false, he.name_nul, if_true, Entry.header, Entry.path]
  · convert hat3 using 1
    push_cast
    omega

theorem getNextHeader_long (hF : FullReads S stream) {io : Io W} {pos : ℤ} {e : Entry} {rest : Str}
    (he : e.WellFormed) (hlong : ¬ e.NameFits) (h : At stream io pos (e.encode ++ rest)) :
    ∃ io', getNextHeader S io = (.fault, io') := by
  obtain ⟨io1, -, -, hget⟩ := readHeader hF he h
  have hshort := he.name_short
  have hblock : (e.name.length : ℤ) + 1 = 2 ^ 31 := by
    rw [Entry.NameFits] at hlong
    omega
  exact ⟨io1, by rw [hget, readName, if_pos hblock]⟩

section Keeps

variable {α : Type} {obs : W → α}

def Unread (S : Sys W) (obs : W → α) : Prop := ∀ w n, obs (S.gunzipRead w n).2 = obs w

theorem ourread_keeps (hobs : Unread S obs) (io : Io W) (n : ℕ) :
    obs (ourread S io n).2.w = obs io.w := by
  have h := hobs io.w n
  rw [ourread]
  split <;> (rename_i heq; rw [heq] at h; exact h)

theorem padinfd_keeps (hobs : Unread S obs) (io : Io W) (m : ℕ) :
    obs (padinfd S io m).w = obs io.w := ourread_keeps hobs io _

theorem eatLoop_keeps (hobs : Unread S obs) (fuel : ℕ) (io : Io W) (amount : ℕ) :
    obs (eatLoop S fuel io amount).2.w = obs io.w := by
  induction fuel generalizing io amount with
  | zero => rfl
  | succ fuel ih =>
    rw [eatLoop]
    split
    · rfl
    · simp only
      split
      · rw [ih, ourread_keeps hobs]
      · exact ourread_keeps hobs io _

theorem readNegative_keeps (hobs : Unread S obs) (io : Io W) (n : ℤ) :
    obs (readNegative S io n).2.w = obs io.w := by
  have h := ourread_keeps hobs io (unsigned32 n)
  rw [readNegative]
  split
  · rename_i heq
    rw [heq] at h
    split <;> exact h
  · rename_i heq
    rw [heq] at h
    exact h
  · rename_i heq
    rw [heq] at h
    exact h

theorem readName_keeps (hobs : Unread S obs) (io : Io W) (phys : Str) (ch : CpioHeader) (n : ℤ) :
    obs (readName S io phys ch n).2.w = obs io.w := by
  have h := ourread_keeps hobs io n.toNat
  rw [readName]
  split
  · rfl
  · split
    · exact readNegative_keeps hobs io n
    · split
      · rename_i heq
        rw [heq] at h
        split
        · exact h
        · split
          · rw [padinfd_keeps hobs]
            exact h
          · exact h
      · rename_i heq
        rw [heq] at h
        exact h

theorem eatBytes_keeps (hobs : Unread S obs) (io : Io W) (amount : ℕ) :
    obs (eatBytes S io amount).2.w = obs io.w := eatLoop_keeps hobs _ _ _

theorem getNextHeader_keeps (hobs : Unread S obs) (io : Io W) :
    obs (getNextHeader S io).2.w = obs io.w := by
  have h := ourread_keeps hobs io PHYS_HDR_SIZE
  rw [getNextHeader]
  split
  · rename_i heq
    rw [heq] at h
    split
    · exact h
    · split
      · exact h
      · split
        · exact h
        · rw [readName_keeps hobs]
          exact h
  · rename_i heq
    rw [heq] at h
    exact h

end Keeps

/-- A system with an input and an output stream. There is no file yet, and calls on files succeed
without a trace. -/
def pipeSys : Sys (Str × Str) where
  gunzipRead w n := (some (w.1.take n), (w.1.drop n, w.2))
  gzipWrite w b := (b.length, (w.1, w.2 ++ b))
  lstat w _ := (none, w)
  stat w _ := (.noEntry, w)
  unlink w _ := (true, w)
  mkdir w _ _ := (true, w)
  chmod w _ _ := (true, w)
  getuid _ := 0
  chown w _ _ _ := (true, w)
  lchown w _ _ _ := (true, w)
  utime w _ _ := (true, w)
  openFile w _ := (some 3, w)
  write w _ b := (b.length, w)
  close w _ := w
  readlink w _ _ := (none, w)
  symlink w _ _ := (true, w)
  mkfifo w _ _ := (true, w)
  mknod w _ _ _ := (true, w)
  link w _ _ := (true, w)

theorem pipeSys_fullReads : FullReads pipeSys Prod.fst where
  read w a rest h := by simp [pipeSys, h]
  lstat _ _ := rfl
  stat _ _ := rfl
  unlink _ _ := rfl
  mkdir _ _ _ := rfl
  chmod _ _ _ := rfl
  chown _ _ _ _ := rfl
  lchown _ _ _ _ := rfl
  utime _ _ _ := rfl
  openFile _ _ := rfl
  write _ _ _ := rfl
  close _ _ := rfl
  readlink _ _ _ := rfl
  symlink _ _ _ := rfl
  mkfifo _ _ _ := rfl
  mknod _ _ _ _ := rfl
  link _ _ _ := rfl
  gzipWrite _ _ := rfl

end Comodoo.CpioStream
