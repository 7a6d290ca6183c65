import Comodoo.CpioFilterCorrect

set_option autoImplicit false

/-!
# When filtering an archive ends

The input is any finite sequence of bytes that ends or breaks off. `entryAt` is the header at its
beginning, and `Whole` follows the entries: the data of each one that is copied has to be there.
What `gzread` answers when it is asked for `2 ^ 31` bytes or more, as it is for a name of negative
size, is a parameter.
-/
namespace Comodoo.CpioFilterEnds
open CString CpioSystem CpioRead CpioFormat CpioFilter StepRun

variable {W : Type} {S : Sys W} {stream : W → Str} {large : ℕ → Str → Option Str}

/-- A read that asks for more than there is gives less or fails, and nothing is left behind it. -/
structure FiniteStream (S : Sys W) (stream : W → Str) (large : ℕ → Str → Option Str) : Prop where
  read_full : ∀ w n, n < 2 ^ 31 → n ≤ (stream w).length →
    (S.gunzipRead w n).1 = some ((stream w).take n) ∧
      stream (S.gunzipRead w n).2 = (stream w).drop n
  read_short : ∀ w n, n < 2 ^ 31 → (stream w).length < n →
    (∀ got, (S.gunzipRead w n).1 = some got → got.length ≤ (stream w).length) ∧
      stream (S.gunzipRead w n).2 = []
  read_large : ∀ w n, 2 ^ 31 ≤ n → (S.gunzipRead w n).1 = large n (stream w)
  write : ∀ w b, stream (S.gzipWrite w b).2 = stream w

inductive At where
  | bad
  | fault
  | entry (ch : CpioHeader) (pos : ℤ) (rest : Str)
  deriving DecidableEq

/-- The name behind the header, which ends at `pos`. -/
def nameAt (pos : ℤ) (s : Str) (ch : CpioHeader) (nameSize : ℕ) : At :=
  if s.length < nameSize then .bad
  else if 0 ∈ s.take nameSize then
    .entry { ch with path := (s.take nameSize).takeWhile (· ≠ 0) }
      (pos + nameSize + padAmount (pos + nameSize) 4)
      ((s.drop nameSize).drop (padAmount (pos + nameSize) 4))
  else .fault

/-- A name of negative size: -1 is also what a failed read returns. -/
def negativeAt (large : ℕ → Str → Option Str) (s : Str) (nameSize : ℤ) : At :=
  match large (unsigned32 nameSize) s with
  | none => if nameSize = -1 then .fault else .bad
  | some [] => .bad
  | some (_ :: _) => .fault

/-- `pos` bytes have been read before; the rest of an entry begins with its data. -/
def entryAt (large : ℕ → Str → Option Str) (pos : ℤ) (s : Str) : At :=
  if s.length < PHYS_HDR_SIZE then .bad
  else if s.take 6 ≠ CPIO_CRC_MAGIC ∧ s.take 6 ≠ CPIO_NEWC_MAGIC then .bad
  else
    match parseFields (s.take PHYS_HDR_SIZE) with
    | none => .bad
    | some (ch, nameSize) =>
      if nameSize + 1 = 2 ^ 31 then .fault
      else if nameSize < 0 then negativeAt large (s.drop PHYS_HDR_SIZE) nameSize
      else nameAt (pos + PHYS_HDR_SIZE) (s.drop PHYS_HDR_SIZE) ch nameSize.toNat

def nextPos (pos : ℤ) (size : ℕ) : ℤ := pos + size + padAmount (pos + size) 4

def nextRest (pos : ℤ) (size : ℕ) (rest : Str) : Str :=
  (rest.drop size).drop (padAmount (pos + size) 4)

/-- Every entry that is copied has all its data, and a name that can be counted, up to the trailer,
a defective header or the end of the stream; and no name leads outside memory. -/
inductive Whole (large : ℕ → Str → Option Str) (selects : Str → Bool) : ℤ → Str → Prop
  | bad (pos : ℤ) (s : Str) : entryAt large pos s = .bad → Whole large selects pos s
  | trailer (pos pos' : ℤ) (s rest : Str) (ch : CpioHeader) :
      entryAt large pos s = .entry ch pos' rest → ch.path = TRAILER → Whole large selects pos s
  | cut (pos pos' : ℤ) (s rest : Str) (ch : CpioHeader) :
      entryAt large pos s = .entry ch pos' rest → ch.path ≠ TRAILER → selects ch.path = false →
      rest.length < ch.size → Whole large selects pos s
  | next (pos pos' : ℤ) (s rest : Str) (ch : CpioHeader) :
      entryAt large pos s = .entry ch pos' rest → ch.path ≠ TRAILER →
      (selects ch.path = true → Counted ch) → ch.size ≤ rest.length →
      Whole large selects (nextPos pos' ch.size) (nextRest pos' ch.size rest) →
      Whole large selects pos s

/-- The stream holds all entries and their data up to the trailer's name. -/
inductive HasTrailer (large : ℕ → Str → Option Str) : ℤ → Str → Prop
  | here (pos pos' : ℤ) (s rest : Str) (ch : CpioHeader) :
      entryAt large pos s = .entry ch pos' rest → ch.path = TRAILER → HasTrailer large pos s
  | next (pos pos' : ℤ) (s rest : Str) (ch : CpioHeader) :
      entryAt large pos s = .entry ch pos' rest → ch.path ≠ TRAILER → ch.size ≤ rest.length →
      HasTrailer large (nextPos pos' ch.size) (nextRest pos' ch.size rest) →
      HasTrailer large pos s

section Reads

/-- The stream holds `s`; at its end the counter does not matter. -/
structure Holds (stream : W → Str) (io : Io W) (pos : ℤ) (s : Str) : Prop where
  rest_eq : stream io.w = s
  pos_eq : io.pos = pos ∨ s = []

variable {io : Io W} {pos : ℤ} {s : Str}

theorem ourread_full (hF : FiniteStream S stream large) (h : Holds stream io pos s) {n : ℕ}
    (hint : n < 2 ^ 31) (hn : n ≤ s.length) :
    (ourread S io n).1 = some (s.take n) ∧
      Holds stream (ourread S io n).2 (pos + n) (s.drop n) := by
  obtain ⟨hrest, hpos⟩ := h
  obtain ⟨hgot, hleft⟩ := hF.read_full io.w n hint (hrest ▸ hn)
  rw [hrest] at hgot hleft
  have hpair : S.gunzipRead io.w n = (some (s.take n), (S.gunzipRead io.w n).2) :=
    Prod.ext hgot rfl
  rw [ourread, hpair]
  dsimp only
  rw [List.take_take, Nat.min_self]
  refine ⟨rfl, hleft, ?_⟩
  rcases hpos with rfl | rfl
  · left
    simp [Nat.min_eq_left hn]
  · exact Or.inr (by simp)

theorem ourread_short (hF : FiniteStream S stream large) (h : Holds stream io pos s) {n : ℕ}
    (hint : n < 2 ^ 31) (hn : s.length < n) :
    (∀ got, (ourread S io n).1 = some got → got.length ≤ s.length) ∧
      stream (ourread S io n).2.w = [] := by
  obtain ⟨hgot, hleft⟩ := hF.read_short io.w n hint (h.rest_eq ▸ hn)
  rw [h.rest_eq] at hgot
  rw [ourread]
  split
  · rename_i w heq
    rw [heq] at hleft
    exact ⟨by simp, hleft⟩
  · rename_i got w heq
    rw [heq] at hleft hgot
    refine ⟨?_, hleft⟩
    intro got' hgot'
    have hlen := hgot got rfl
    rw [← Option.some.inj hgot', List.length_take]
    omega

theorem ourread_any (hF : FiniteStream S stream large) (h : Holds stream io pos s) {n : ℕ}
    (hint : n < 2 ^ 31) : Holds stream (ourread S io n).2 (pos + n) (s.drop n) := by
  by_cases hn : n ≤ s.length
  · exact (ourread_full hF h hint hn).2
  · have hnil : s.drop n = [] := List.drop_of_length_le (by omega)
    rw [hnil]
    exact ⟨(ourread_short hF h hint (by omega)).2, Or.inr rfl⟩

theorem padAmount_small (pos : ℤ) : padAmount pos 4 < 2 ^ 31 := by
  rw [padAmount]
  omega

theorem padinfd_holds (hF : FiniteStream S stream large) (h : Holds stream io pos s) :
    Holds stream (padinfd S io 4) (pos + padAmount pos 4) (s.drop (padAmount pos 4)) := by
  rcases h.pos_eq with hpos | hnil
  · rw [padinfd, hpos]
    exact ourread_any hF h (padAmount_small pos)
  · subst hnil
    have hany := ourread_any hF h (padAmount_small io.pos)
    rw [List.drop_nil] at hany ⊢
    exact ⟨hany.rest_eq, Or.inr rfl⟩

/-- What `getNextHeader` gives for the header at the beginning. -/
inductive Agrees (stream : W → Str) : HeaderResult × Io W → At → Prop
  | bad (rc : Rc) (io : Io W) : Agrees stream (.error rc, io) .bad
  | fault (io : Io W) : Agrees stream (.fault, io) .fault
  | entry (ch : CpioHeader) (phys : Str) (io : Io W) (pos : ℤ) (rest : Str) :
      Holds stream io pos rest → Agrees stream (.header ch phys, io) (.entry ch pos rest)

theorem readNegative_agrees (hF : FiniteStream S stream large) (h : Holds stream io pos s)
    {nameSize : ℤ} (hneg : nameSize < 0) (hint : -2 ^ 31 ≤ nameSize) :
    Agrees stream (readNegative S io nameSize) (negativeAt large s nameSize) := by
  have hsize : 2 ^ 31 ≤ unsigned32 nameSize := by
    rw [unsigned32]
    omega
  have hread := hF.read_large io.w _ hsize
  rw [h.rest_eq] at hread
  rw [readNegative, negativeAt, ourread, ← hread]
  cases hgot : S.gunzipRead io.w (unsigned32 nameSize) with
  | mk got w =>
    cases got with
    | none =>
      dsimp only
      split
      · exact Agrees.fault _
      · exact Agrees.bad _ _
    | some got =>
      cases got with
      | nil =>
        simp only [List.take_nil]
        exact Agrees.bad _ _
      | cons b got =>
        obtain ⟨n, hn⟩ := Nat.exists_eq_add_of_le' (Nat.lt_of_lt_of_le (by decide) hsize : 1 ≤ _)
        simp only [hn, List.take_succ_cons]
        exact Agrees.fault _

theorem readName_agrees (hF : FiniteStream S stream large) (h : Holds stream io pos s) (phys : Str)
    (ch : CpioHeader) {nameSize : ℤ} (hneg : ¬ nameSize < 0) (hlong : ¬ nameSize + 1 = 2 ^ 31)
    (hint : nameSize < 2 ^ 31) :
    Agrees stream (readName S io phys ch nameSize) (nameAt pos s ch nameSize.toNat) := by
  have hsize : nameSize.toNat < 2 ^ 31 := by omega
  rw [readName, if_neg hlong, if_neg hneg, nameAt]
  by_cases hshort : s.length < nameSize.toNat
  · have hread := (ourread_short hF h hsize hshort).1
    rw [if_pos hshort]
    split
    · rename_i name io1 hname
      rw [hname] at hread
      have hle := hread name rfl
      rw [if_pos (by omega)]
      exact Agrees.bad _ _
    · exact Agrees.bad _ _
  · obtain ⟨hgot, hhold⟩ := ourread_full hF h hsize (by omega)
    have hpair : ourread S io nameSize.toNat =
        (some (s.take nameSize.toNat), (ourread S io nameSize.toNat).2) := Prod.ext hgot rfl
    have htake : ((s.take nameSize.toNat).length : ℤ) = nameSize := by
      rw [List.length_take]
      omega
    rw [if_neg hshort, hpair]
    dsimp only
    rw [if_neg (not_not.mpr htake)]
    split
    · exact Agrees.entry _ _ _ _ _ (padinfd_holds hF hhold)
    · exact Agrees.fault _

theorem strntoul_int {field : Str} {n : ℤ} (h : strntoul field = some n) :
    -2 ^ 31 ≤ n ∧ n < 2 ^ 31 := by
  rw [strntoul] at h
  split at h
  · rename_i value _
    rw [← Option.some.inj h, Int.bmod_def]
    omega
  · cases h

theorem parseFields_int {phys : Str} {ch : CpioHeader} {nameSize : ℤ}
    (h : parseFields phys = some (ch, nameSize)) : -2 ^ 31 ≤ nameSize ∧ nameSize < 2 ^ 31 := by
  simp only [parseFields, Option.bind_eq_bind, Option.bind_eq_some_iff, Option.pure_def,
    Option.some.injEq, Prod.mk.injEq] at h
  obtain ⟨_, -, _, -, _, -, _, -, _, -, _, -, _, -, _, -, _, -, _, -, _, -, n, hn, -, rfl⟩ := h
  exact strntoul_int hn

theorem getNextHeader_agrees (hF : FiniteStream S stream large) (h : Holds stream io pos s) :
    Agrees stream (getNextHeader S io) (entryAt large pos s) := by
  rw [getNextHeader, entryAt]
  by_cases hlen : s.length < PHYS_HDR_SIZE
  · have hread := (ourread_short hF h (by decide) hlen).1
    rw [if_pos hlen]
    split
    · rename_i phys io1 hphys
      rw [hphys] at hread
      have hle := hread phys rfl
      rw [if_pos (by omega)]
      exact Agrees.bad _ _
    · exact Agrees.bad _ _
  · obtain ⟨hgot, hhold⟩ := ourread_full hF h (n := PHYS_HDR_SIZE) (by decide) (by omega)
    have hpair : ourread S io PHYS_HDR_SIZE =
        (some (s.take PHYS_HDR_SIZE), (ourread S io PHYS_HDR_SIZE).2) := Prod.ext hgot rfl
    have htake : (s.take PHYS_HDR_SIZE).length = PHYS_HDR_SIZE := by
      rw [List.length_take, Nat.min_eq_left (by omega)]
    have htake6 : (s.take PHYS_HDR_SIZE).take 6 = s.take 6 := by
      rw [List.take_take]
      rfl
    rw [if_neg hlen, hpair]
    dsimp only
    rw [htake, if_neg (not_not.mpr rfl), htake6]
    split
    · exact Agrees.bad _ _
    · cases hparse : parseFields (s.take PHYS_HDR_SIZE) with
      | none => exact Agrees.bad _ _
      | some parsed =>
        obtain ⟨ch, nameSize⟩ := parsed
        obtain ⟨hlow, hhigh⟩ := parseFields_int hparse
        dsimp only
        by_cases hlong : nameSize + 1 = 2 ^ 31
        · rw [readName, if_pos hlong, if_pos hlong]
          exact Agrees.fault _
        · rw [if_neg hlong]
          by_cases hneg : nameSize < 0
          · rw [readName, if_neg hlong, if_pos hneg, if_pos hneg]
            exact readNegative_agrees hF hhold hneg hlow
          · rw [if_neg hneg]
            exact readName_agrees hF hhold _ ch hneg hlong hhigh

/-- The data of an entry that is skipped, whether it is all there or not. -/
theorem eatLoop_holds (hF : FiniteStream S stream large) (fuel : ℕ) {amount : ℕ}
    (h : Holds stream io pos s) (hf : amount ≤ fuel) :
    Holds stream (eatLoop S fuel io amount).2 (pos + amount) (s.drop amount) := by
  induction fuel generalizing io pos s amount with
  | zero =>
    obtain rfl : amount = 0 := by omega
    simpa [eatLoop] using h
  | succ fuel ih =>
    rw [eatLoop]
    by_cases hzero : amount = 0
    · rw [if_pos hzero, hzero]
      simpa using h
    · rw [if_neg hzero]
      by_cases hbite : min amount 4096 ≤ s.length
      · obtain ⟨hgot, hhold⟩ := ourread_full hF h (by omega) hbite
        have hpair : ourread S io (min amount 4096) =
            (some (s.take (min amount 4096)), (ourread S io (min amount 4096)).2) :=
          Prod.ext hgot rfl
        have htake :
            (some (s.take (min amount 4096))).map List.length = some (min amount 4096) := by
          rw [Option.map_some, List.length_take, Nat.min_eq_left hbite]
        have hle : amount - min amount 4096 ≤ fuel := by omega
        have hrest := ih hhold hle
        rw [List.drop_drop, Nat.add_sub_cancel' (Nat.min_le_left _ _)] at hrest
        dsimp only
        rw [hpair]
        dsimp only
        rw [if_pos htake]
        refine ⟨hrest.rest_eq, hrest.pos_eq.imp (fun hpos => ?_) id⟩
        rw [hpos]
        omega
      · obtain ⟨hread, hnil⟩ := ourread_short hF h (n := min amount 4096) (by omega) (by omega)
        have hne : ((ourread S io (min amount 4096)).1).map List.length ≠
            some (min amount 4096) := by
          intro heq
          obtain ⟨got, hgot, hlen⟩ := Option.map_eq_some_iff.mp heq
          have hle := hread got hgot
          omega
        dsimp only
        rw [if_neg hne, List.drop_of_length_le (by omega)]
        exact ⟨hnil, Or.inr rfl⟩

theorem copyLoop_round (hF : FiniteStream S stream large) (fuel : ℕ) {size : ℕ}
    (h : Holds stream io pos s) (hzero : size ≠ 0) (hfull : min size 8192 ≤ s.length) :
    ∃ io1, copyLoop S (fuel + 1) io size = copyLoop S fuel io1 (size - min size 8192) ∧
      Holds stream io1 (pos + (min size 8192 : ℕ)) (s.drop (min size 8192)) := by
  obtain ⟨hgot, hhold⟩ := ourread_full hF h (by omega) hfull
  have hpair : ourread S io (min size 8192) =
      (some (s.take (min size 8192)), (ourread S io (min size 8192)).2) := Prod.ext hgot rfl
  rw [copyLoop, if_neg hzero, hpair]
  dsimp only
  rw [List.length_take, Nat.min_eq_left hfull]
  exact ⟨_, rfl, (hF.write _ _).trans hhold.rest_eq, hhold.pos_eq⟩

theorem copyLoop_cut (hF : FiniteStream S stream large) (fuel : ℕ) {size : ℕ}
    (h : Holds stream io pos s) (hcut : s.length < size) : copyLoop S fuel io size = none := by
  induction fuel generalizing io pos s size with
  | zero => rfl
  | succ fuel ih =>
    by_cases hfull : min size 8192 ≤ s.length
    · obtain ⟨io1, hround, hhold⟩ := copyLoop_round hF fuel h (by omega) hfull
      rw [hround]
      apply ih hhold
      rw [List.length_drop]
      omega
    · obtain ⟨hread, hnil⟩ := ourread_short hF h (n := min size 8192) (by omega) (by omega)
      rw [copyLoop, if_neg (by omega)]
      split
      · rfl
      · rename_i buf io1 hbuf
        rw [hbuf] at hread hnil
        have hle := hread buf rfl
        have hnew : Holds stream { io1 with w := (S.gzipWrite io1.w buf).2 } 0 [] :=
          ⟨(hF.write _ _).trans hnil, Or.inr rfl⟩
        apply ih hnew
        rw [List.length_nil]
        omega

theorem copyLoop_whole (hF : FiniteStream S stream large) (fuel : ℕ) {size : ℕ} {io' : Io W}
    (h : Holds stream io pos s) (hsize : size ≤ s.length)
    (hcopy : copyLoop S fuel io size = some io') :
    Holds stream io' (pos + size) (s.drop size) := by
  induction fuel generalizing io pos s size with
  | zero => simp [copyLoop] at hcopy
  | succ fuel ih =>
    by_cases hzero : size = 0
    · rw [copyLoop, if_pos hzero, Option.some.injEq] at hcopy
      rw [← hcopy, hzero]
      simpa using h
    · obtain ⟨io1, hround, hhold⟩ := copyLoop_round hF fuel h hzero (by omega)
      rw [hround] at hcopy
      have hrest := ih hhold (by rw [List.length_drop]; omega) hcopy
      rw [List.drop_drop, Nat.add_sub_cancel' (Nat.min_le_left _ _)] at hrest
      refine ⟨hrest.rest_eq, hrest.pos_eq.imp (fun hpos => ?_) id⟩
      rw [hpos]
      omega

theorem copyLoop_isSome (hF : FiniteStream S stream large) (fuel : ℕ) {size : ℕ}
    (h : Holds stream io pos s) (hsize : size ≤ s.length) (hf : size < fuel) :
    (copyLoop S fuel io size).isSome = true := by
  induction fuel generalizing io pos s size with
  | zero => omega
  | succ fuel ih =>
    by_cases hzero : size = 0
    · rw [copyLoop, if_pos hzero]
      rfl
    · obtain ⟨io1, hround, hhold⟩ := copyLoop_round hF fuel h hzero (by omega)
      rw [hround]
      exact ih hhold (by rw [List.length_drop]; omega) (by omega)

end Reads

section Rounds
variable {st : FilterSt W} {pos : ℤ} {s rest : Str} {ch : CpioHeader} {phys : Str} {fuel : ℕ}

theorem put_holds (hF : FiniteStream S stream large) (h : Holds stream st.io pos s) (bytes : Str) :
    Holds stream (put S st bytes).io pos s :=
  ⟨(hF.write _ _).trans h.rest_eq, h.pos_eq⟩

theorem padOut_holds (hF : FiniteStream S stream large) (st : FilterSt W)
    (h : Holds stream st.io pos s) (modulo : ℕ) :
    Holds stream (padOut S st modulo).2.io pos s :=
  ⟨(hF.write _ _).trans h.rest_eq, h.pos_eq⟩

def copyStart (S : Sys W) (st : FilterSt W) (ch : CpioHeader) (phys : Str) : FilterSt W :=
  let st := put S st (CPIO_NEWC_MAGIC ++ phys.drop 6)
  let st := put S st (ch.path ++ [0])
  (padOut S { st with outPos := st.outPos + PHYS_HDR_SIZE + (ch.path.length + 1) } 4).2

theorem copyFile_eq (fuel : ℕ) (st : FilterSt W) (phys : Str) (hcount : Counted ch) :
    copyFile S fuel st ch phys = (copyLoop S fuel (copyStart S st ch phys).io ch.size).map
      (fun io => (padOut S { copyStart S st ch phys with
        io := io, outPos := (copyStart S st ch phys).outPos + ch.size } 4).2) := by
  rw [copyFile, if_neg (not_not.mpr hcount)]
  rfl

theorem copyFile_uncounted (fuel : ℕ) (st : FilterSt W) (phys : Str) (hcount : ¬ Counted ch) :
    copyFile S fuel st ch phys = none := by
  rw [copyFile, if_pos hcount]

theorem copyStart_holds (hF : FiniteStream S stream large) (h : Holds stream st.io pos s)
    (ch : CpioHeader) (phys : Str) : Holds stream (copyStart S st ch phys).io pos s := by
  have hmagic := put_holds hF h (CPIO_NEWC_MAGIC ++ phys.drop 6)
  have hpath := put_holds hF hmagic (ch.path ++ [0])
  exact padOut_holds hF { put S (put S st (CPIO_NEWC_MAGIC ++ phys.drop 6)) (ch.path ++ [0])
    with outPos := (put S (put S st (CPIO_NEWC_MAGIC ++ phys.drop 6)) (ch.path ++ [0])).outPos +
      PHYS_HDR_SIZE + (ch.path.length + 1) } hpath 4

theorem copyFile_cut (hF : FiniteStream S stream large) (st : FilterSt W)
    (h : Holds stream st.io pos rest) (hcut : rest.length < ch.size) :
    copyFile S fuel st ch phys = none := by
  by_cases hcount : Counted ch
  · rw [copyFile_eq fuel st phys hcount, copyLoop_cut hF fuel (copyStart_holds hF h ch phys) hcut]
    rfl
  · exact copyFile_uncounted fuel st phys hcount

theorem copyFile_whole (hF : FiniteStream S stream large) (st : FilterSt W)
    (h : Holds stream st.io pos rest) (hsize : ch.size ≤ rest.length) (hcount : Counted ch)
    {st' : FilterSt W} (hcopy : copyFile S fuel st ch phys = some st') :
    Holds stream st'.io (pos + ch.size) (rest.drop ch.size) := by
  rw [copyFile_eq fuel st phys hcount, Option.map_eq_some_iff] at hcopy
  obtain ⟨io, hloop, rfl⟩ := hcopy
  have hio := copyLoop_whole hF fuel (copyStart_holds hF h ch phys) hsize hloop
  exact padOut_holds hF { copyStart S st ch phys with
    io := io, outPos := (copyStart S st ch phys).outPos + ch.size } hio 4

theorem copyFile_isSome (hF : FiniteStream S stream large) (st : FilterSt W) (phys : Str)
    (h : Holds stream st.io pos rest) (hsize : ch.size ≤ rest.length) (hcount : Counted ch)
    (hf : ch.size < fuel) : (copyFile S fuel st ch phys).isSome = true := by
  rw [copyFile_eq fuel st phys hcount, Option.isSome_map]
  exact copyLoop_isSome hF fuel (copyStart_holds hF h ch phys) hsize hf

/-- What one round does, by what stands at the beginning of the stream. -/
inductive Round (S : Sys W) (stream : W → Str) (fuel : ℕ) (selects : Str → Bool) :
    Status (FilterSt W) (FilterEnd × FilterSt W) → At → Prop
  | bad (st : FilterSt W) : Round S stream fuel selects (.stopped (.badHeader, st)) .bad
  | fault (st : FilterSt W) : Round S stream fuel selects (.stopped (.fault, st)) .fault
  | trailer (st : FilterSt W) (ch : CpioHeader) (pos : ℤ) (rest : Str) : ch.path = TRAILER →
      Round S stream fuel selects (.stopped (.ended, st)) (.entry ch pos rest)
  | stuck (st : FilterSt W) (ch : CpioHeader) (pos : ℤ) (rest : Str) : ch.path ≠ TRAILER →
      selects ch.path = true → (rest.length < ch.size ∨ ¬ Counted ch ∨ fuel ≤ ch.size) →
      Round S stream fuel selects (.stopped (.fault, st)) (.entry ch pos rest)
  | next (st : FilterSt W) (ch : CpioHeader) (pos : ℤ) (rest : Str) : ch.path ≠ TRAILER →
      (selects ch.path = true → ch.size ≤ rest.length ∧ Counted ch) →
      Holds stream st.io (nextPos pos ch.size) (nextRest pos ch.size rest) →
      Round S stream fuel selects (.running st) (.entry ch pos rest)

theorem filterBody_round (hF : FiniteStream S stream large) (fuel : ℕ) (selects : Str → Bool)
    (h : Holds stream st.io pos s) :
    Round S stream fuel selects (filterBody S fuel selects st) (entryAt large pos s) := by
  have hagrees := getNextHeader_agrees hF h
  rw [filterBody]
  generalize hget : getNextHeader S st.io = got at hagrees
  generalize entryAt large pos s = at_ at hagrees
  cases hagrees with
  | bad rc io => exact Round.bad _
  | fault io => exact Round.fault _
  | entry ch phys io pos rest hhold =>
    dsimp only
    by_cases htrailer : ch.path = TRAILER
    · rw [if_pos htrailer]
      exact Round.trailer _ ch pos rest htrailer
    · rw [if_neg htrailer]
      by_cases hsel : selects ch.path = true
      · rw [if_pos hsel]
        by_cases hcut : rest.length < ch.size
        · rw [copyFile_cut hF { st with io := io } hhold hcut]
          exact Round.stuck _ ch pos rest htrailer hsel (Or.inl hcut)
        by_cases hcount : Counted ch
        case neg =>
          rw [copyFile_uncounted fuel { st with io := io } phys hcount]
          exact Round.stuck _ ch pos rest htrailer hsel (Or.inr (Or.inl hcount))
        · cases hcopy : copyFile S fuel { st with io := io } ch phys with
          | none =>
            have hfuel : fuel ≤ ch.size := by
              by_contra hlt
              have hsome := copyFile_isSome hF { st with io := io } phys hhold (by omega) hcount
                (Nat.lt_of_not_le hlt)
              rw [hcopy] at hsome
              simp at hsome
            exact Round.stuck _ ch pos rest htrailer hsel (Or.inr (Or.inr hfuel))
          | some st' =>
            have hdata := copyFile_whole hF { st with io := io } hhold (by omega) hcount hcopy
            exact Round.next _ ch pos rest htrailer (fun _ => ⟨by omega, hcount⟩)
              (padinfd_holds hF hdata)
      · rw [if_neg hsel]
        have hdata := eatLoop_holds hF ch.size hhold (Nat.le_refl _)
        exact Round.next _ ch pos rest htrailer (fun h => absurd h hsel) (padinfd_holds hF hdata)

end Rounds

section Runs
variable {st : FilterSt W} {pos : ℤ} {s : Str} {selects : Str → Bool} {fuel : ℕ}

def loop (S : Sys W) (fuel : ℕ) (selects : Str → Bool) (st : FilterSt W) (n : ℕ) :
    Status (FilterSt W) (FilterEnd × FilterSt W) :=
  run (fun st (_ : Unit) => filterBody S fuel selects st) st (List.replicate n ())

theorem loop_stopped {n : ℕ} {o : FilterEnd × FilterSt W}
    (h : filterBody S fuel selects st = .stopped o) :
    loop S fuel selects st (n + 1) = .stopped o := by
  rw [loop, List.replicate_succ]
  exact run_cons_stopped _ h

theorem loop_running {n : ℕ} {st' : FilterSt W}
    (h : filterBody S fuel selects st = .running st') :
    loop S fuel selects st (n + 1) = loop S fuel selects st' n := by
  rw [loop, List.replicate_succ]
  exact run_cons_running (e := ()) _ h

theorem entryAt_length {ch : CpioHeader} {pos' : ℤ} {rest : Str}
    (h : entryAt large pos s = .entry ch pos' rest) : rest.length + 110 ≤ s.length := by
  have hphys : PHYS_HDR_SIZE = 110 := rfl
  rw [entryAt] at h
  split at h
  · simp at h
  · rename_i hlen
    split at h
    · simp at h
    · split at h
      · simp at h
      · split at h
        · simp at h
        · split at h
          · rw [negativeAt] at h
            split at h
            · split at h <;> simp at h
            · simp at h
            · simp at h
          · rw [nameAt] at h
            split at h
            · simp at h
            · split at h
              · rw [← (At.entry.inj h).2.2, List.length_drop, List.length_drop, List.length_drop]
                omega
              · simp at h

theorem nextRest_length (pos : ℤ) (size : ℕ) (rest : Str) :
    (nextRest pos size rest).length ≤ rest.length := by
  rw [nextRest, List.length_drop, List.length_drop]
  omega

theorem entryAt_nil (pos : ℤ) : entryAt large pos [] = .bad := by
  rw [entryAt, if_pos (by decide)]

/-- A run that leaves the loop without a fault has met only whole entries. -/
theorem whole_of_stopped (hF : FiniteStream S stream large) (n : ℕ) {e : FilterEnd} {st' : FilterSt W}
    (h : Holds stream st.io pos s) (hstop : loop S fuel selects st n = .stopped (e, st'))
    (hne : e ≠ .fault) : Whole large selects pos s := by
  induction n generalizing st pos s with
  | zero => simp [loop, run] at hstop
  | succ n ih =>
    have hround := filterBody_round hF fuel selects h
    generalize hbody : filterBody S fuel selects st = body at hround
    generalize hat : entryAt large pos s = at_ at hround
    cases hround with
    | bad st1 => exact Whole.bad pos s hat
    | fault st1 =>
      rw [loop_stopped hbody, Status.stopped.injEq, Prod.mk.injEq] at hstop
      exact absurd hstop.1.symm hne
    | trailer st1 ch pos' rest htrailer => exact Whole.trailer pos pos' s rest ch hat htrailer
    | stuck st1 ch pos' rest htrailer hsel hcut =>
      rw [loop_stopped hbody, Status.stopped.injEq, Prod.mk.injEq] at hstop
      exact absurd hstop.1.symm hne
    | next st1 ch pos' rest htrailer hsel hhold =>
      rw [loop_running hbody] at hstop
      by_cases hsize : ch.size ≤ rest.length
      · exact Whole.next pos pos' s rest ch hat htrailer (fun hsel' => (hsel hsel').2) hsize
          (ih hhold hstop)
      · have hskip : selects ch.path = false := by
          rw [← Bool.not_eq_true]
          exact fun hsel' => hsize (hsel hsel').1
        exact Whole.cut pos pos' s rest ch hat htrailer hskip (by omega)

/-- Where all entries are whole, the loop is left, by the trailer only if there is one. -/
theorem stopped_of_whole (hF : FiniteStream S stream large) (hwhole : Whole large selects pos s)
    (fuel n : ℕ)
    (h : Holds stream st.io pos s) (hf : s.length < fuel) (hn : s.length < n) :
    ∃ e st', loop S fuel selects st n = .stopped (e, st') ∧ e ≠ .fault ∧
      (e = .ended → HasTrailer large pos s) := by
  induction hwhole generalizing st n with
  | bad pos s hbad =>
    obtain ⟨n, rfl⟩ := Nat.exists_eq_add_of_le' (Nat.lt_of_le_of_lt (Nat.zero_le _) hn)
    have hround := filterBody_round hF fuel selects h
    rw [hbad] at hround
    generalize hbody : filterBody S fuel selects st = body at hround
    cases hround with
    | bad st1 => exact ⟨_, _, loop_stopped hbody, by simp, by simp⟩
  | trailer pos pos' s rest ch hat htrailer =>
    obtain ⟨n, rfl⟩ := Nat.exists_eq_add_of_le' (Nat.lt_of_le_of_lt (Nat.zero_le _) hn)
    have hround := filterBody_round hF fuel selects h
    rw [hat] at hround
    generalize hbody : filterBody S fuel selects st = body at hround
    cases hround with
    | trailer st1 ch pos' rest _ =>
      exact ⟨_, _, loop_stopped hbody, by simp, fun _ => HasTrailer.here pos pos' s rest ch hat
        htrailer⟩
    | stuck st1 ch pos' rest hother => exact absurd htrailer hother
    | next st1 ch pos' rest hother => exact absurd htrailer hother
  | cut pos pos' s rest ch hat hother hskip hcut =>
    have hlen := entryAt_length hat
    obtain ⟨n, rfl⟩ : ∃ m, n = m + 2 := ⟨n - 2, by omega⟩
    have hround := filterBody_round hF fuel selects h
    rw [hat] at hround
    generalize hbody : filterBody S fuel selects st = body at hround
    cases hround with
    | trailer st1 ch pos' rest htrailer => exact absurd htrailer hother
    | stuck st1 ch pos' rest _ hsel =>
      rw [hskip] at hsel
      simp at hsel
    | next st1 ch pos' rest _ _ hhold =>
      -- nothing is left for a header
      have hnil : nextRest pos' ch.size rest = [] := by
        rw [nextRest, List.drop_of_length_le (Nat.le_of_lt hcut), List.drop_nil]
      rw [hnil] at hhold
      have hround := filterBody_round hF fuel selects hhold
      rw [entryAt_nil] at hround
      generalize hbody1 : filterBody S fuel selects st1 = body1 at hround
      cases hround with
      | bad st2 =>
        exact ⟨_, _, (loop_running hbody).trans (loop_stopped hbody1), by simp, by simp⟩
  | next pos pos' s rest ch hat hother hcount hsize hwhole ih =>
    have hlen := entryAt_length hat
    have hnext := nextRest_length pos' ch.size rest
    obtain ⟨n, rfl⟩ := Nat.exists_eq_add_of_le' (Nat.lt_of_le_of_lt (Nat.zero_le _) hn)
    have hround := filterBody_round hF fuel selects h
    rw [hat] at hround
    generalize hbody : filterBody S fuel selects st = body at hround
    cases hround with
    | trailer st1 ch pos' rest htrailer => exact absurd htrailer hother
    | stuck st1 ch pos' rest _ hsel hstuck =>
      rcases hstuck with hcut | huncounted | hfuel
      · omega
      · exact absurd (hcount hsel) huncounted
      · omega
    | next st1 ch pos' rest _ _ hhold =>
      obtain ⟨e, st', hstop, hne, htrailer⟩ := ih n hhold (by omega) (by omega)
      refine ⟨e, st', (loop_running hbody).trans hstop, hne, fun hended => ?_⟩
      exact HasTrailer.next pos pos' s rest ch hat hother hsize (htrailer hended)

end Runs

section Call

/-- The call returns, and not with 0 if the input ends before the trailer. -/
def Returns (S : Sys W) (stream : W → Str) (large : ℕ → Str → Option Str)
    (fnmatch : Str → Str → Bool) (patterns : List Str)
    (w : W) : Prop :=
  ∃ fuel rc st, myCpioFilterArchive S fnmatch patterns fuel w = (.returned rc, st) ∧
    (¬ HasTrailer large 0 (stream w) → rc ≠ .ok)

theorem start_holds (w : W) : Holds stream (⟨⟨w, 0, []⟩, 0⟩ : FilterSt W).io 0 (stream w) :=
  ⟨rfl, Or.inl rfl⟩

/-- Filtering ends, with a non-zero code for an input that is cut short, if and only if the data
of every entry to be copied is there. -/
theorem myCpioFilterArchive_returns_iff (hF : FiniteStream S stream large)
    (fnmatch : Str → Str → Bool) (patterns : List Str) (w : W) :
    Returns S stream large fnmatch patterns w ↔
      Whole large (fun path => patterns.any (fun pattern => fnmatch pattern path)) 0 (stream w) := by
  constructor
  · rintro ⟨fuel, rc, st, hcall, _⟩
    rw [myCpioFilterArchive] at hcall
    split at hcall
    · simp at hcall
    · simp at hcall
    · rename_i st' hrun
      exact whole_of_stopped hF fuel (start_holds w) hrun (by simp)
    · rename_i st' hrun
      exact whole_of_stopped hF fuel (start_holds w) hrun (by simp)
  · intro hwhole
    obtain ⟨e, st', hstop, hne, htrailer⟩ := stopped_of_whole hF hwhole
      ((stream w).length + 1) ((stream w).length + 1) (start_holds w) (Nat.lt_succ_self _)
      (Nat.lt_succ_self _)
    refine ⟨(stream w).length + 1, ?_⟩
    rw [loop] at hstop
    rw [myCpioFilterArchive, hstop]
    cases e with
    | fault => exact absurd rfl hne
    | badHeader => exact ⟨_, _, rfl, by simp⟩
    | ended => exact ⟨_, _, rfl, fun hno => absurd (htrailer rfl) hno⟩

theorem pipeSys_finiteStream :
    FiniteStream CpioStream.pipeSys Prod.fst (fun n s => some (s.take n)) where
  read_full _ _ _ _ := ⟨rfl, rfl⟩
  read_short w n _ hn := by
    refine ⟨fun got hgot => ?_, List.drop_of_length_le (Nat.le_of_lt hn)⟩
    rw [← Option.some.inj hgot, List.length_take]
    exact Nat.min_le_right _ _
  read_large _ _ _ := rfl
  write _ _ := rfl

theorem myCpioFilterArchive_returns_cutHeader :
    Returns CpioStream.pipeSys Prod.fst (fun n s => some (s.take n))
      (fun pattern path => pattern == path) [ascii "a"] (ascii "070701", []) :=
  (myCpioFilterArchive_returns_iff pipeSys_finiteStream _ _ _).mpr
    (Whole.bad 0 _ (by decide +kernel))

theorem not_returns_of_cut (hF : FiniteStream S stream large) (fnmatch : Str → Str → Bool)
    (patterns : List Str) {w : W} {ch : CpioHeader} {pos : ℤ} {rest : Str}
    (hat : entryAt large 0 (stream w) = .entry ch pos rest) (hother : ch.path ≠ TRAILER)
    (hsel : patterns.any (fun pattern => fnmatch pattern ch.path) = true)
    (hcut : rest.length < ch.size) : ¬ Returns S stream large fnmatch patterns w := by
  rintro ⟨fuel, rc, st, hcall, _⟩
  have hround := filterBody_round hF fuel
    (fun path => patterns.any (fun pattern => fnmatch pattern path)) (start_holds w)
  rw [hat] at hround
  generalize hbody : filterBody S fuel _ _ = body at hround
  cases fuel with
  | zero => simp [myCpioFilterArchive, run] at hcall
  | succ n =>
    cases hround with
    | trailer st1 ch pos rest htrailer => exact hother htrailer
    | stuck st1 ch pos rest _ _ _ =>
      have hstop := loop_stopped (n := n) hbody
      rw [loop] at hstop
      rw [myCpioFilterArchive, hstop] at hcall
      simp at hcall
    | next st1 ch pos rest _ hwhole _ =>
      have hsize := (hwhole hsel).1
      omega

/-- The header and name of a file `a` of four bytes, and nothing behind them. -/
def cutEntry : Str := (newcEntry 1 0o100644 1 (ascii "a") (ascii "data")).encode.take 112

theorem cutEntry_never_returns :
    ¬ Returns CpioStream.pipeSys Prod.fst (fun n s => some (s.take n))
      (fun pattern path => pattern == path) [ascii "a"] (cutEntry, []) := by
  have hat : entryAt (fun n s => some (s.take n)) 0 cutEntry =
      .entry ⟨1, 0o100644, 0, 0, 1, 0, 4, 0, 0, ascii "a"⟩ 112 [] := by
    decide +kernel
  exact not_returns_of_cut pipeSys_finiteStream _ _ (w := (cutEntry, [])) hat (by decide +kernel)
    (by decide +kernel) (by decide)

end Call

end Comodoo.CpioFilterEnds
