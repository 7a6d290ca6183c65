import Comodoo.CheckIso
import Comodoo.ImplantIso

set_option autoImplicit false

/-!
# The sums of the fragments

The writer and the checker walk over the same buffers. Their images differ in the application
data only, which are blank for the one and made blank by the other. One buffer moves the fragment
by at most one, so the writer stores all twenty sums, each where the checker looks for it.
-/
namespace Comodoo.IsoFragments
open CString IsoImage ReadLoop ImplantIso CheckIso

/-! ## The buffers -/

theorem chunk_natCast (file : Str) (size offset : ℕ) :
    chunk bufsize file size offset = (file.drop offset).take (min (size - offset) bufsize) := by
  unfold chunk
  congr 1
  omega

def withAppdata (pre appdata post : Str) : Str := pre ++ appdata ++ post

section
variable {pre appdata post : Str} {size offset : ℕ}

theorem drop_withAppdata (hpre : pre.length = 33651) (happ : appdata.length = 512)
    (hoffset : 65536 ≤ offset) :
    (withAppdata pre appdata post).drop offset = post.drop (offset - 34163) := by
  unfold withAppdata
  rw [List.drop_append, List.drop_eq_nil_of_le (by rw [List.length_append]; omega),
    List.length_append, List.nil_append, hpre, happ]

theorem chunk_first (hpre : pre.length = 33651) :
    chunk bufsize (withAppdata pre appdata post) size 0 = pre.take (min size bufsize) := by
  rw [chunk_natCast, List.drop_zero, Nat.sub_zero]
  unfold withAppdata
  rw [List.append_assoc, List.take_append_of_le_length]
  rw [hpre]
  exact (Nat.min_le_right _ _).trans (by decide)

theorem chunk_second (hpre : pre.length = 33651) (happ : appdata.length = 512)
    (hsize : 65536 ≤ size) :
    chunk bufsize (withAppdata pre appdata post) size 32768 =
      pre.drop 32768 ++ appdata ++ post.take 31373 := by
  have hmin : min (size - 32768) bufsize = 32768 := Nat.min_eq_right (Nat.le_sub_of_add_le hsize)
  have hhead : (pre.drop 32768).length = 883 := by rw [List.length_drop, hpre]
  rw [chunk_natCast, hmin]
  unfold withAppdata
  rw [List.append_assoc, List.drop_append_of_le_length (by omega), ← List.append_assoc,
    List.take_append, List.length_append, hhead, happ, List.take_of_length_le]
  rw [List.length_append]
  omega

theorem blankAppdata_chunk (hpre : pre.length = 33651) (happ : appdata.length = 512)
    (hsize : 65536 ≤ size) (hoffset : offset % 32768 = 0) (hlt : offset < size)
    (hlength : size ≤ 34163 + post.length) :
    blankAppdata 33651 offset (chunk bufsize (withAppdata pre appdata post) size offset) =
      some (chunk bufsize (withAppdata pre (List.replicate 512 0x20) post) size offset) := by
  have hblanks : (List.replicate 512 (0x20 : UInt8)).length = 512 := List.length_replicate
  have hcases : offset = 0 ∨ offset = 32768 ∨ 65536 ≤ offset := by omega
  rcases hcases with rfl | rfl | hbehind
  · -- the first buffer ends before the application data
    have hread : (chunk bufsize (withAppdata pre appdata post) size 0).length = 32768 := by
      rw [chunk_first hpre, List.length_take, hpre]
      change min (min size 32768) 33651 = 32768
      omega
    unfold blankAppdata
    dsimp only
    rw [hread, if_neg (by omega), if_neg (by omega), if_neg (by omega), chunk_first hpre,
      chunk_first hpre]
  · -- the second has all of them
    have hread : (chunk bufsize (withAppdata pre appdata post) size 32768).length = 32768 := by
      rw [chunk_second hpre happ hsize, List.length_append, List.length_append, List.length_drop,
        hpre, happ, List.length_take]
      omega
    have hhead : (pre.drop 32768).length = 883 := by rw [List.length_drop, hpre]
    have hblank : blank (pre.drop 32768 ++ appdata ++ post.take 31373) 883 1395 =
        some (pre.drop 32768 ++ List.replicate 512 0x20 ++ post.take 31373) := by
      have hwrite := writeAt_middle (pre.drop 32768) (post.take 31373)
        (hblanks.trans happ.symm)
      rw [hhead] at hwrite
      unfold blank
      rw [if_neg (by decide)]
      exact congrArg some hwrite
    unfold blankAppdata
    dsimp only
    rw [hread, if_pos (by omega), chunk_second hpre happ hsize, chunk_second hpre hblanks hsize]
    exact hblank
  · unfold blankAppdata
    dsimp only
    rw [if_neg (by omega), if_neg (by omega), if_neg (by omega), chunk_natCast, chunk_natCast,
      drop_withAppdata hpre happ hbehind, drop_withAppdata hpre hblanks hbehind]

end

/-! ## The writer -/

/-- The fragment that a buffer at this offset belongs to. -/
def fragment (size offset : ℕ) : ℕ := offset * 21 / size

theorem fragment_le {size offset : ℕ} (hlt : offset < size) : fragment size offset ≤ 20 := by
  unfold fragment
  have h : offset * 21 / size < 21 := (Nat.div_lt_iff_lt_mul (by omega)).mpr (by omega)
  omega

theorem fragment_step {size before offset : ℕ} (hsize : 21 * 32768 ≤ size)
    (hle : before ≤ offset) (hstep : offset ≤ before + 32768) :
    fragment size before ≤ fragment size offset ∧
      fragment size offset ≤ fragment size before + 1 := by
  unfold fragment
  refine ⟨Nat.div_le_div_right (by omega), ?_⟩
  calc
    offset * 21 / size ≤ (before * 21 + size) / size := Nat.div_le_div_right (by omega)
    _ = before * 21 / size + 1 := Nat.add_div_right _ (by omega)

/-- The buffer in front of the first one of a new fragment is in the fragment before. -/
theorem fragment_before {size k before : ℕ} (hsize : 21 * 32768 ≤ size)
    (hle : before ≤ (k + 1) * 32768) (hstep : (k + 1) * 32768 ≤ before + 32768)
    (hnew : fragment size ((k + 1) * 32768) = fragment size before + 1) :
    fragment size (k * 32768) = fragment size before := by
  rw [Nat.succ_mul] at hle hstep hnew
  have hfront : k * 32768 ≤ before := Nat.le_of_add_le_add_right hstep
  have hnext := (fragment_step hsize (Nat.le_add_right (k * 32768) 32768) le_rfl).2
  apply Nat.le_antisymm (fragment_step hsize hfront hle).1
  rw [hnew] at hnext
  exact Nat.le_of_succ_le_succ hnext

theorem fragment_last {size offset : ℕ} (hsize : 21 * 32768 ≤ size) (hlt : offset < size)
    (hend : size ≤ offset + 32768) : fragment size offset = 20 := by
  have hle := fragment_le hlt
  have hge : 20 ≤ offset * 21 / size := (Nat.le_div_iff_mul_le (by omega)).mpr (by omega)
  unfold fragment at hle ⊢
  omega

theorem tdiv_fragment (size offset : ℕ) :
    ((offset : ℤ) * (20 + 1)).tdiv size = (fragment size offset : ℕ) := by
  unfold fragment
  rw [Int.ofNat_tdiv]
  push_cast
  rfl

section
variable {γ : Type} {md5 : Md5 γ} {size offset : ℕ} {image : Str}

/-- Where the loop stands before a buffer: `previous` is the offset of the buffer before. -/
structure Invariant (size offset : ℕ) (s : Sums γ) : Prop where
  aligned : offset % 32768 = 0 ∨ size ≤ offset
  previous : ∃ previous, s.previous_fragment = (fragment size previous : ℕ) ∧ previous < size ∧
    previous ≤ offset ∧ offset ≤ previous + 32768 ∧
    s.fragstr.length = 3 * fragment size previous

theorem invariant_start (hsize : 0 < size) : Invariant size 0 (⟨md5.init, 0, []⟩ : Sums γ) := by
  have hzero : fragment size 0 = 0 := by simp [fragment]
  refine ⟨Or.inl rfl, 0, ?_, hsize, le_refl 0, Nat.zero_le _, ?_⟩ <;> rw [hzero] <;> rfl

theorem length_chunk (hlength : size ≤ image.length) :
    (chunk bufsize image size offset).length = min (size - offset) 32768 := by
  rw [chunk_natCast, List.length_take, List.length_drop]
  change min (min (size - offset) 32768) (image.length - offset) = _
  omega

theorem running_iff (hlength : size ≤ image.length) :
    Running bufsize image size offset ↔ offset < size := by
  unfold Running
  rw [← List.length_pos_iff, length_chunk hlength]
  omega

theorem sumBuffer_eq (buf : Str) (s : Sums γ) :
    sumBuffer md5 size offset buf s = .ok
      (if (fragment size offset : ℤ) ≠ s.previous_fragment then
        ⟨md5.update s.md5ctx buf, (fragment size offset : ℕ),
          s.fragstr ++ fragmentText (md5.final (md5.update s.md5ctx buf)) 3⟩
      else { s with md5ctx := md5.update s.md5ctx buf }) := by
  unfold sumBuffer
  have hcurrent := tdiv_fragment size offset
  dsimp only
  rw [show ((FRAGMENT_COUNT : ℕ) : ℤ) = 20 from rfl, hcurrent]
  exact (apply_ite _ _ _ _).symm

theorem fragment_new {s : Sums γ} (h : Invariant size offset s) (hsize : 21 * 32768 ≤ size)
    (hnew : (fragment size offset : ℤ) ≠ s.previous_fragment) :
    ∃ n, s.previous_fragment = (n : ℕ) ∧ fragment size offset = n + 1 ∧
      s.fragstr.length = 3 * n := by
  obtain ⟨previous, hprevious, _, hle, hstep, hlen⟩ := h.previous
  have hfragment := fragment_step hsize hle hstep
  refine ⟨fragment size previous, hprevious, ?_, hlen⟩
  rw [hprevious] at hnew
  omega

theorem invariant_step {buf : Str} {s s' : Sums γ} (h : Invariant size offset s)
    (hsize : 21 * 32768 ≤ size) (hlt : offset < size)
    (hs : sumBuffer md5 size offset buf s = .ok s') :
    Invariant size (offset + min (size - offset) 32768) s' := by
  rw [sumBuffer_eq] at hs
  cases hs
  have haligned : (offset + min (size - offset) 32768) % 32768 = 0 ∨
      size ≤ offset + min (size - offset) 32768 := by
    have := h.aligned
    omega
  refine ⟨haligned, offset, ?_⟩
  by_cases hnew : (fragment size offset : ℤ) ≠ s.previous_fragment
  · obtain ⟨n, _, hn, hlen⟩ := fragment_new h hsize hnew
    rw [if_pos hnew]
    refine ⟨rfl, hlt, by omega, by omega, ?_⟩
    rw [List.length_append, length_fragmentText _ (by decide), hlen, hn]
    omega
  · obtain ⟨previous, hprevious, _, _, _, hlen⟩ := h.previous
    rw [if_neg hnew]
    have hsame : fragment size offset = fragment size previous := by
      have := not_not.mp hnew
      rw [hprevious] at this
      exact Int.ofNat.inj this
    refine ⟨?_, hlt, by omega, by omega, ?_⟩
    · rw [hsame]
      exact hprevious
    · rw [hsame]
      exact hlen

/-- The writer's loop, from somewhere to its end. -/
abbrev WriterRun (md5 : Md5 γ) (image : Str) (size offset : ℕ) (s last : Sums γ) : Prop :=
  readLoop bufsize image size (sumBuffer md5 size) offset s = .ok last

theorem fragstr_grows {s last : Sums γ} (h : WriterRun md5 image size offset s last) :
    s.fragstr <+: last.fragstr := by
  refine readLoop_induction (P := fun _ s => s.fragstr <+: last.fragstr)
    (fun _ _ => List.prefix_refl _) ?_ h
  intro offset s s' _ hs _ ih
  rw [sumBuffer_eq] at hs
  cases hs
  refine List.IsPrefix.trans ?_ ih
  split
  · exact List.prefix_append _ _
  · exact List.prefix_refl _

theorem writerRun_complete {s last : Sums γ} (hsize : 21 * 32768 ≤ size)
    (hlength : size ≤ image.length) (hrun : WriterRun md5 image size offset s last)
    (h : Invariant size offset s) :
    last.previous_fragment = 20 ∧ last.fragstr.length = 60 := by
  refine readLoop_induction (P := fun offset s => Invariant size offset s →
    last.previous_fragment = 20 ∧ last.fragstr.length = 60) ?_ ?_ hrun h
  · intro offset hdone hinv
    rw [running_iff hlength] at hdone
    obtain ⟨previous, hprevious, hlt, _, hstep, hlen⟩ := hinv.previous
    rw [fragment_last hsize hlt (by omega)] at hprevious hlen
    exact ⟨hprevious, hlen⟩
  · intro offset s s' hgo hs _ ih hinv
    rw [running_iff hlength] at hgo
    apply ih
    rw [length_chunk hlength]
    exact invariant_step hinv hsize hgo hs

theorem readAt_of_prefix {fragmentsums old new : Str} {n : ℕ} (hold : old.length = 3 * n)
    (hnew : new.length = 3) (h : old ++ new <+: fragmentsums) :
    readAt fragmentsums (3 * n) 3 = new := by
  obtain ⟨rest, rfl⟩ := h
  unfold readAt
  rw [List.append_assoc, List.drop_left' hold, List.take_left' hnew]

/-- The hash after the first buffers of an image. -/
def hashBuffers (md5 : Md5 γ) (image : Str) (size : ℕ) : ℕ → γ
  | 0 => md5.init
  | k + 1 => md5.update (hashBuffers md5 image size k) (chunk bufsize image size (k * 32768))

/-- The sums of the first fragments: each is made when the first buffer behind the fragment has been
hashed too. -/
def SumsOf (md5 : Md5 γ) (image : Str) (size : ℕ) (fragstr : Str) (n : ℕ) : Prop :=
  ∀ i < n, ∃ k, fragment size (k * 32768) = i ∧ fragment size ((k + 1) * 32768) = i + 1 ∧
    readAt fragstr (3 * i) 3 = fragmentText (md5.final (hashBuffers md5 image size (k + 2))) 3

structure Summed (md5 : Md5 γ) (image : Str) (size offset : ℕ) (s : Sums γ) : Prop where
  inside : offset ≤ size
  md5ctx : s.md5ctx = hashBuffers md5 image size ((offset + 32767) / 32768)
  sums : ∃ n : ℕ, s.previous_fragment = n ∧ SumsOf md5 image size s.fragstr n

theorem summed_start (image : Str) : Summed md5 image size 0 ⟨md5.init, 0, []⟩ := by
  have hzero : (0 + 32767) / 32768 = 0 := Nat.div_eq_of_lt (by decide)
  refine ⟨Nat.zero_le _, ?_, 0, rfl, fun _ hi => absurd hi (Nat.not_lt_zero _)⟩
  rw [hzero]
  rfl

theorem sumsOf_append {old new : Str} {n : ℕ} (h : SumsOf md5 image size old n)
    (hlen : old.length = 3 * n) : SumsOf md5 image size (old ++ new) n := by
  intro i hi
  obtain ⟨k, hlast, hnext, hsum⟩ := h i hi
  refine ⟨k, hlast, hnext, ?_⟩
  rw [← hsum]
  unfold readAt
  rw [List.drop_append_of_le_length (by omega),
    List.take_append_of_le_length (by rw [List.length_drop]; omega)]

theorem buffers_next {k : ℕ} (hlt : k * 32768 < size) :
    (k * 32768 + min (size - k * 32768) 32768 + 32767) / 32768 = k + 1 := by
  omega

theorem summed_step {s s' : Sums γ} (hsize : 21 * 32768 ≤ size) (hlt : offset < size)
    (hinv : Invariant size offset s) (h : Summed md5 image size offset s)
    (hs : sumBuffer md5 size offset (chunk bufsize image size offset) s = .ok s') :
    Summed md5 image size (offset + min (size - offset) 32768) s' := by
  obtain ⟨k, rfl⟩ : ∃ k, offset = k * 32768 := by
    have haligned := hinv.aligned
    exact ⟨offset / 32768, by omega⟩
  have hbuffers : (k * 32768 + 32767) / 32768 = k := by omega
  have hnext := buffers_next hlt
  obtain ⟨n, hn, hsums⟩ := h.sums
  have hctx : md5.update s.md5ctx (chunk bufsize image size (k * 32768)) =
      hashBuffers md5 image size (k + 1) := by
    rw [h.md5ctx, hbuffers]
    rfl
  rw [sumBuffer_eq, hctx] at hs
  cases hs
  have hinside : k * 32768 + min (size - k * 32768) 32768 ≤ size := by omega
  by_cases hnew : (fragment size (k * 32768) : ℤ) ≠ s.previous_fragment
  · obtain ⟨n', hn', hcurrent, hlen⟩ := fragment_new hinv hsize hnew
    have hsame : n = n' := Int.ofNat.inj (hn.symm.trans hn')
    subst hsame
    rw [if_pos hnew]
    refine ⟨hinside, by rw [hnext], n + 1, by rw [hcurrent], ?_⟩
    intro i hi
    rcases Nat.lt_succ_iff_lt_or_eq.mp hi with hi | rfl
    · exact sumsOf_append hsums hlen i hi
    · cases k with
      | zero =>
        rw [Nat.zero_mul, fragment, Nat.zero_mul, Nat.zero_div] at hcurrent
        cases hcurrent
      | succ k =>
        obtain ⟨previous, hprevious, -, hle, hstep, -⟩ := hinv.previous
        have hfragment : fragment size previous = i :=
          Int.ofNat.inj (hprevious.symm.trans hn)
        rw [← hfragment] at hcurrent
        refine ⟨k, (fragment_before hsize hle hstep hcurrent).trans hfragment,
          hcurrent.trans (congrArg Nat.succ hfragment), ?_⟩
        exact readAt_of_prefix hlen (length_fragmentText _ (by decide)) (List.prefix_refl _)
  · rw [if_neg hnew]
    exact ⟨hinside, by rw [hnext], n, hn, hsums⟩

theorem writerRun_summed {s last : Sums γ} (hsize : 21 * 32768 ≤ size)
    (hlength : size ≤ image.length) (hrun : WriterRun md5 image size offset s last)
    (hinv : Invariant size offset s) (h : Summed md5 image size offset s) :
    Summed md5 image size size last := by
  refine readLoop_induction (P := fun offset s => Invariant size offset s →
    Summed md5 image size offset s → Summed md5 image size size last) ?_ ?_ hrun hinv h
  · intro offset hdone _ h
    rw [running_iff hlength] at hdone
    have hend : offset = size := Nat.le_antisymm h.inside (Nat.not_lt.mp hdone)
    rwa [hend] at h
  · intro offset s s' hgo hs _ ih hinv h
    rw [running_iff hlength] at hgo
    rw [length_chunk hlength] at ih
    exact ih (invariant_step hinv hsize hgo hs) (summed_step hsize hgo hinv h hs)

end

/-! ## The checker -/

/-- The first sums that are stored, each with its fragment. -/
def storedFragments (fragmentsums : Str) (n : ℕ) : List (ℤ × Str) :=
  (List.range n).map fun i => (((i + 1 : ℕ) : ℤ), readAt fragmentsums (3 * i) 3)

section
variable {γ : Type} {md5 : Md5 γ}

theorem currentFragment_natCast {size offset : ℕ} (count : ℕ) (hlt : offset < size)
    (hsize : size * (count + 1) ≤ 2 ^ 63) (hcount : count < 2 ^ 31) :
    currentFragment size count offset = ((offset * (count + 1) / size : ℕ) : ℤ) := by
  have hproduct : offset * (count + 1) < 2 ^ 63 :=
    (Nat.mul_lt_mul_of_pos_right hlt count.succ_pos).trans_le hsize
  have hle : offset * (count + 1) / size < count + 1 :=
    (Nat.div_lt_iff_lt_mul (by omega)).mpr
      ((Nat.mul_comm _ _).trans_lt (Nat.mul_lt_mul_of_pos_left hlt count.succ_pos))
  have hcast : (offset : ℤ) * ((count : ℤ) + 1) = ((offset * (count + 1) : ℕ) : ℤ) := by
    push_cast
    rfl
  have hquotient : (Int.bmod (offset * (count + 1)) (2 ^ 64)).tdiv size =
      ((offset * (count + 1) / size : ℕ) : ℤ) := by
    rw [hcast, Int.bmod_eq_of_le (by omega) (by omega), ← Int.ofNat_tdiv]
  unfold currentFragment
  rw [hquotient]
  generalize offset * (count + 1) / size = quotient at hle
  exact Int.bmod_eq_of_le (by omega) (by omega)

theorem sumStart_natCast (count : ℕ) {n : ℕ} (hn : n * 60 < 2 ^ 31) :
    sumStart count ((n + 1 : ℕ) : ℤ) = ((n * 60 / count : ℕ) : ℤ) := by
  have hcast : (((n + 1 : ℕ) : ℤ) - 1) * (FRAGMENT_SUM_LENGTH : ℕ) = ((n * 60 : ℕ) : ℤ) := by
    push_cast
    omega
  unfold sumStart
  rw [hcast, Int.bmod_eq_of_le (by omega) (by omega), ← Int.ofNat_tdiv]

/-- The string in the buffer is a sum only if the text in front is. -/
theorem cString_ne_fragmentText {digest : Vector UInt8 16} {n : ℕ} {sum : Str} (rest : Str)
    (hn : n ≤ 16) (hlen : sum.length = n) (hne : sum ≠ fragmentText digest n) :
    cString (sum ++ rest) ≠ fragmentText digest n := by
  intro h
  have hprefix : cString (sum ++ rest) <+: sum ++ rest := List.takeWhile_prefix _
  have hlength : (cString (sum ++ rest)).length = sum.length := by
    rw [h, length_fragmentText _ hn, hlen]
  rw [List.prefix_iff_eq_take, hlength, List.take_left, h] at hprefix
  exact hne hprefix.symm

section
variable {fragmentsums : Str} {fragmentcount current_fragment : ℤ} {j n : ℕ}

/-- The comparison when all indices are inside: the NUL is written `j` bytes behind the sum. -/
theorem compareFragment_inside (md5 : Md5 γ) (c : Check γ) (hcount : sumDigits fragmentcount = n)
    (hn : n ≤ 16) (hj : sumStart fragmentcount current_fragment = j) (hfit : j + n ≤ 60)
    (hlen : 60 ≤ fragmentsums.length) :
    compareFragment md5 fragmentsums fragmentcount current_fragment c =
      if cString (readAt fragmentsums j n ++ (c.thisfragsum.drop n).set j 0) =
          fragmentText (md5.final c.md5ctx) n then .ok { c with
        previous_fragment := current_fragment
        thisfragsum := readAt fragmentsums j n ++ (c.thisfragsum.drop n).set j 0
        matched := c.matched ++ [(current_fragment, fragmentText (md5.final c.md5ctx) n)] }
      else .error (.rc ISOMD5SUM_CHECK_FAILED) := by
  have hlen : (readAt fragmentsums j n).length = n := by
    rw [readAt, List.length_take, List.length_drop]
    omega
  have hcopied : writeAt c.thisfragsum 0 (readAt fragmentsums j n) =
      readAt fragmentsums j n ++ c.thisfragsum.drop n := by
    unfold writeAt
    rw [hlen]
    simp
  have hset : (readAt fragmentsums j n ++ c.thisfragsum.drop n).set (j + n) 0 =
      readAt fragmentsums j n ++ (c.thisfragsum.drop n).set j 0 := by
    rw [List.set_append_right _ _ (by omega), hlen, Nat.add_sub_cancel]
  have hinside : ¬ (16 < n ∨ (j : ℤ) < 0 ∨
      ((FRAGMENT_SUM_LENGTH : ℕ) : ℤ) < (j : ℤ) + (n : ℕ)) := by
    rw [show ((FRAGMENT_SUM_LENGTH : ℕ) : ℤ) = 60 from rfl]
    omega
  unfold compareFragment
  dsimp only
  rw [hcount, hj, if_neg hinside, show (j : ℤ).toNat = j from rfl,
    show ((j : ℤ) + (n : ℕ)).toNat = j + n from rfl, hcopied, hset]
  exact ite_not _ _ _

/-- The NUL falls behind the sum, as it does from the first fragment on. -/
theorem compareFragment_eq (md5 : Md5 γ) (c : Check γ) (hcount : sumDigits fragmentcount = n)
    (hn : n ≤ 16) (hj : sumStart fragmentcount current_fragment = j) (hfit : j + n ≤ 60)
    (hlen : 60 ≤ fragmentsums.length)
    (hnul : j ≠ 0 → ∀ b, (c.thisfragsum.drop n).head? = some b → b = 0) :
    ∃ thisfragsum, (∀ b, (thisfragsum.drop n).head? = some b → b = 0) ∧
      compareFragment md5 fragmentsums fragmentcount current_fragment c =
        if readAt fragmentsums j n = fragmentText (md5.final c.md5ctx) n then .ok { c with
          previous_fragment := current_fragment
          thisfragsum := thisfragsum
          matched := c.matched ++ [(current_fragment, readAt fragmentsums j n)] }
        else .error (.rc ISOMD5SUM_CHECK_FAILED) := by
  have hlength : (readAt fragmentsums j n).length = n := by
    rw [readAt, List.length_take, List.length_drop]
    omega
  have hhead : ∀ b, ((c.thisfragsum.drop n).set j 0).head? = some b → b = 0 := by
    intro b hb
    rw [List.head?_eq_getElem?] at hb
    by_cases hzero : j = 0
    · subst hzero
      rw [List.getElem?_set_self'] at hb
      cases hold : (c.thisfragsum.drop n)[0]? with
      | none =>
        rw [hold] at hb
        cases hb
      | some old =>
        rw [hold] at hb
        exact (Option.some.inj hb).symm
    · rw [List.getElem?_set_ne (by omega), ← List.head?_eq_getElem?] at hb
      exact hnul hzero b hb
  refine ⟨readAt fragmentsums j n ++ (c.thisfragsum.drop n).set j 0, ?_, ?_⟩
  · rw [List.drop_left' hlength]
    exact hhead
  · rw [compareFragment_inside md5 c hcount hn hj hfit hlen]
    by_cases hsum : readAt fragmentsums j n = fragmentText (md5.final c.md5ctx) n
    · have hstring : cString (readAt fragmentsums j n ++ (c.thisfragsum.drop n).set j 0) =
          fragmentText (md5.final c.md5ctx) n := by
        rw [hsum]
        exact cString_append (zero_notMem_fragmentText _ _) hhead
      rw [if_pos hstring, if_pos hsum, hsum]
    · rw [if_neg (cString_ne_fragmentText _ hn hlength hsum), if_neg hsum]

theorem compareFragment_succeeds {md5 : Md5 γ} {c c' : Check γ}
    (hcount : sumDigits fragmentcount = n) (hn : n ≤ 16)
    (hj : sumStart fragmentcount current_fragment = j) (hfit : j + n ≤ 60)
    (hlen : 60 ≤ fragmentsums.length)
    (h : compareFragment md5 fragmentsums fragmentcount current_fragment c = .ok c') :
    readAt fragmentsums j n = fragmentText (md5.final c.md5ctx) n ∧
      (j ≠ 0 → ∀ b, (c.thisfragsum.drop n).head? = some b → b = 0) := by
  have hlength : (readAt fragmentsums j n).length = n := by
    rw [readAt, List.length_take, List.length_drop]
    omega
  rw [compareFragment_inside md5 c hcount hn hj hfit hlen] at h
  split at h
  · rename_i hstring
    have hsum : readAt fragmentsums j n = fragmentText (md5.final c.md5ctx) n := by
      by_contra hne
      exact cString_ne_fragmentText _ hn hlength hne hstring
    refine ⟨hsum, fun hne b hb => ?_⟩
    by_contra hzero
    have hset : ((c.thisfragsum.drop n).set j 0).head? = some b := by
      rw [List.head?_eq_getElem?, List.getElem?_set_ne (by omega), ← List.head?_eq_getElem?, hb]
    obtain ⟨rest, hrest⟩ := List.head?_eq_some_iff.mp hset
    have hnul : ∀ x ∈ fragmentText (md5.final c.md5ctx) n, decide (x ≠ 0) = true :=
      fun x hx => decide_eq_true fun (h : x = 0) => zero_notMem_fragmentText _ _ (h ▸ hx)
    have hb' : decide (b ≠ 0) = true := decide_eq_true hzero
    rw [hsum, hrest, cString, List.takeWhile_append_of_pos hnul,
      List.takeWhile_cons, if_pos hb'] at hstring
    exact absurd (List.append_right_eq_self.mp hstring) (List.cons_ne_nil _ _)
  · cases h

end

/-- The checker stands where the writer stood, and has found all sums right. -/
structure Agrees (fragmentsums : Str) (s : Sums γ) (c : Check γ) : Prop where
  md5ctx : c.md5ctx = s.md5ctx
  previous : c.previous_fragment = s.previous_fragment
  terminated : s.previous_fragment ≠ 0 → ∀ b, (c.thisfragsum.drop 3).head? = some b → b = 0
  matched : ∃ n : ℕ, s.previous_fragment = n ∧ c.matched = storedFragments fragmentsums n

theorem storedFragments_succ (fragmentsums : Str) (n : ℕ) :
    storedFragments fragmentsums (n + 1) =
      storedFragments fragmentsums n ++ [(((n + 1 : ℕ) : ℤ), readAt fragmentsums (3 * n) 3)] := by
  unfold storedFragments
  rw [List.range_succ, List.map_append]
  rfl

variable {size offset : ℕ} {fragmentsums : Str} {cb : Option (ℤ → ℤ → ℤ)}

theorem reportProgress_eq (hcb : ∀ f ∈ cb, ∀ offset total, f offset total = 0) (offset total : ℤ)
    (c : Check γ) : reportProgress cb offset total c = .ok c := by
  cases cb with
  | none => rfl
  | some f =>
    unfold reportProgress
    dsimp only
    rw [hcb f rfl, if_neg (not_not_intro rfl)]

theorem checkBuffer_eq {apoff limit fragmentcount : ℤ} {buf data : Str} {c : Check γ}
    (hblank : blankAppdata apoff offset buf = some data)
    (hcb : ∀ f ∈ cb, ∀ offset total, f offset total = 0) :
    checkBuffer md5 apoff limit fragmentsums fragmentcount cb offset buf c =
      if fragmentcount ≠ 0 ∧
          currentFragment limit fragmentcount offset ≠ c.previous_fragment then
        compareFragment md5 fragmentsums fragmentcount
          (currentFragment limit fragmentcount offset)
          { c with md5ctx := md5.update c.md5ctx data }
      else .ok { c with md5ctx := md5.update c.md5ctx data } := by
  have hprogress : ∀ compared : Except Stop (Check γ),
      (compared >>= fun c => reportProgress cb (offset + buf.length) limit c) = compared := by
    intro compared
    cases compared with
    | error stop => rfl
    | ok c => exact reportProgress_eq hcb _ _ _
  unfold checkBuffer
  rw [hblank]
  dsimp only
  split
  · exact hprogress _
  · exact hprogress _

theorem checkBuffer_agrees {buf data : Str} {s s' : Sums γ} {c : Check γ}
    (hsize : 21 * 32768 ≤ size) (hmax : size < 2 ^ 42) (hlt : offset < size)
    (hinv : Invariant size offset s) (hblank : blankAppdata 33651 offset buf = some data)
    (hcb : ∀ f ∈ cb, ∀ offset total, f offset total = 0)
    (hs : sumBuffer md5 size offset data s = .ok s') (hbefore : s'.fragstr <+: fragmentsums)
    (hsums : fragmentsums.length = 60) (hc : Agrees fragmentsums s c) :
    ∃ c', checkBuffer md5 33651 size fragmentsums 20 cb offset buf c = .ok c' ∧
      Agrees fragmentsums s' c' := by
  obtain ⟨n, hn, hmatched⟩ := hc.matched
  obtain ⟨ctx, previous, oldsum, matched⟩ := c
  obtain ⟨rfl, rfl, hterminated, -⟩ := hc
  rw [sumBuffer_eq] at hs
  cases hs
  have hfragment : currentFragment size 20 offset = (fragment size offset : ℕ) :=
    currentFragment_natCast 20 hlt (by omega) (by decide)
  rw [checkBuffer_eq hblank hcb, hfragment]
  by_cases hnew : (fragment size offset : ℤ) ≠ s.previous_fragment
  · obtain ⟨n', hn', hcurrent, hlen⟩ := fragment_new hinv hsize hnew
    have hsame : n = n' := Int.ofNat.inj (hn.symm.trans hn')
    subst hsame
    rw [if_pos hnew] at hbefore
    have hsum := readAt_of_prefix hlen (length_fragmentText _ (by decide)) hbefore
    have hle := fragment_le hlt
    rw [hcurrent] at hle
    have hstart : sumStart 20 ((n + 1 : ℕ) : ℤ) = ((3 * n : ℕ) : ℤ) := by
      have hthree : n * 60 / 20 = 3 * n := by omega
      exact (sumStart_natCast 20 (by omega)).trans (congrArg _ hthree)
    obtain ⟨thisfragsum, hnul, hcompare⟩ := compareFragment_eq md5
      ⟨md5.update s.md5ctx data, s.previous_fragment, oldsum, matched⟩
      (by decide : sumDigits 20 = 3) (by decide) hstart (by omega) hsums.ge
      (fun hne => hterminated (by rw [hn]; omega))
    rw [if_pos hnew, if_pos ⟨by decide, hnew⟩, hcurrent, hcompare, if_pos hsum]
    refine ⟨_, rfl, rfl, rfl, fun _ => hnul, n + 1, rfl, ?_⟩
    rw [storedFragments_succ, ← hmatched]
  · rw [if_neg hnew, if_neg (fun h => hnew h.2)]
    exact ⟨_, rfl, rfl, rfl, hterminated, n, hn, hmatched⟩

theorem checker_follows {pre appdata post : Str} {s last : Sums γ} {c : Check γ}
    (hpre : pre.length = 33651) (happ : appdata.length = 512) (hsize : 21 * 32768 ≤ size)
    (hmax : size < 2 ^ 42) (hlength : size ≤ 34163 + post.length)
    (hcb : ∀ f ∈ cb, ∀ offset total, f offset total = 0) (hsums : last.fragstr.length = 60)
    (hrun : WriterRun md5 (withAppdata pre (List.replicate 512 0x20) post) size offset s last)
    (hinv : Invariant size offset s) (hc : Agrees last.fragstr s c) :
    ∃ c', readLoop bufsize (withAppdata pre appdata post) size
        (checkBuffer md5 33651 size last.fragstr 20 cb) offset c = .ok c' ∧
      Agrees last.fragstr last c' := by
  have hwriter : size ≤ (withAppdata pre (List.replicate 512 0x20) post).length := by
    unfold withAppdata
    rw [List.length_append, List.length_append, List.length_replicate, hpre]
    exact hlength
  have hchecker : size ≤ (withAppdata pre appdata post).length := by
    unfold withAppdata
    rw [List.length_append, List.length_append, happ, hpre]
    exact hlength
  refine readLoop_induction (P := fun offset s => Invariant size offset s →
    ∀ c, Agrees last.fragstr s c → ∃ c', readLoop bufsize (withAppdata pre appdata post) size
      (checkBuffer md5 33651 size last.fragstr 20 cb) offset c = .ok c' ∧
        Agrees last.fragstr last c') ?_ ?_ hrun hinv c hc
  · intro offset hdone _ c hc
    rw [running_iff hwriter, ← running_iff hchecker] at hdone
    exact ⟨c, readLoop_done hdone, hc⟩
  · intro offset s s' hgo hs hrest ih hinv c hc
    rw [running_iff hwriter] at hgo
    have hinv' := invariant_step hinv hsize hgo hs
    have haligned : offset % 32768 = 0 := hinv.aligned.resolve_right (by omega)
    obtain ⟨c₁, hcheck, hc₁⟩ := checkBuffer_agrees hsize hmax hgo hinv
      (blankAppdata_chunk hpre happ (by omega) haligned hgo hlength) hcb hs
      (fragstr_grows hrest) hsums hc
    rw [length_chunk hwriter] at ih
    rw [readLoop_running ((running_iff hchecker).mpr hgo) hcheck, length_chunk hchecker]
    exact ih hinv' c₁ hc₁

end

end Comodoo.IsoFragments
