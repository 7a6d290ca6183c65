import Comodoo.FtpReads
import Mathlib.Data.Nat.Init
import Mathlib.Data.Int.Notation

set_option autoImplicit false

/-!
# When the FTP reply loop ends

A pass that reads nothing scans only bytes that have been scanned before, so it cannot find the
end of a reply. `Quiet` says which bytes these are. Where the reads bring lines as `FtpReads` scans
them, the loop ends if and only if they bring a whole reply, or `select` gives up.
-/
namespace Comodoo.FtpTermination
open CString ByteMemory FtpResponse FtpReply FtpScan FtpReads

/-- Up to `c` there is no line end, and the scan stops at the two NULs there. -/
def QuietUpto (buf : Mem) (c : ℕ) : Prop :=
  c < BUFFER_SIZE ∧ (∀ i ≤ c, buf i ≠ LF) ∧ buf c = 0 ∧ buf (c + 1) = 0

def Quiet (r : Response) : Prop := ∃ c, r.bufLength ≤ c ∧ QuietUpto r.buf c

section Scan
variable {buf : Mem} {r r' : Response} {a c p fuel chptr start s : ℕ}

theorem nextStop_before (buf : Mem) (fuel a i : ℕ) (hi : a ≤ i) (hlt : i < nextStop buf fuel a) :
    buf i ≠ LF := by
  induction fuel generalizing a with
  | zero =>
    rw [nextStop] at hlt
    omega
  | succ fuel ih =>
    rw [nextStop] at hlt
    split at hlt
    · omega
    · rename_i hstop
      rcases Nat.eq_or_lt_of_le hi with rfl | hlater
      · exact fun h => hstop (Or.inl h)
      · exact ih (a + 1) hlater hlt

theorem nextStop_stops (buf : Mem) (fuel a : ℕ) (h : nextStop buf fuel a < a + fuel) :
    buf (nextStop buf fuel a) = LF ∨ buf (nextStop buf fuel a) = 0 := by
  induction fuel generalizing a with
  | zero =>
    rw [nextStop] at h
    omega
  | succ fuel ih =>
    rw [nextStop] at h ⊢
    split
    · assumption
    · rename_i hstop
      rw [if_neg hstop] at h
      exact ih (a + 1) (by omega)

theorem cutLine_other (buf : Mem) (p i : ℕ) : cutLine buf p i = buf i ∨ cutLine buf p i = 0 := by
  unfold cutLine
  have hone : ∀ (m : Mem) (a : ℕ), Function.update m a 0 i = m i ∨ Function.update m a 0 i = 0 := by
    intro m a
    by_cases hi : i = a
    · rw [hi, Function.update_self]
      exact Or.inr rfl
    · rw [Function.update_of_ne hi]
      exact Or.inl rfl
  split
  · rcases hone (Function.update buf p 0) (p - 1) with h | h
    · rw [h]
      exact hone buf p
    · exact Or.inr h
  · exact hone buf p

theorem cutLine_ne_lf {i : ℕ} (h : buf i ≠ LF) (p : ℕ) : cutLine buf p i ≠ LF := by
  rcases cutLine_other buf p i with heq | heq
  · rw [heq]
    exact h
  · rw [heq]
    decide

theorem checkLine_buf (h : checkLine r a = some r') : r'.buf = r.buf := by
  unfold checkLine at h
  split at h
  · split at h
    · split at h
      · simp at h
      · split at h <;> rw [← Option.some.inj h]
    · rw [← Option.some.inj h]
  · split at h
    · simp at h
    · split at h <;> rw [← Option.some.inj h]

theorem scanLines_cases {p : ℕ} (hp : nextStop r.buf (BUFFER_SIZE + 1 - chptr) chptr = p)
    (h : scanLines (fuel + 1) r chptr start = some (r', c, s)) :
    p < BUFFER_SIZE ∧ ∃ r1 start',
      (r.buf p = LF ∧ r1.buf = cutLine r.buf p ∨ r.buf p ≠ LF ∧ r1 = r) ∧
      (r1.buf (p + 1) ≠ 0 ∧ scanLines fuel r1 (p + 1) start' = some (r', c, s) ∨
        r1.buf (p + 1) = 0 ∧ r1 = r' ∧ p + 1 = c) := by
  rw [scanLines, hp] at h
  split at h
  · simp at h
  · split at h
    · rename_i hlf
      split at h
      · simp at h
      · split at h
        · simp at h
        · rename_i r1 hcheck
          split at h
          · simp at h
          · refine ⟨by omega, r1, p + 1, Or.inl ⟨hlf, checkLine_buf hcheck⟩, ?_⟩
            split at h
            · exact Or.inl ⟨by assumption, h⟩
            · rename_i hstop
              rw [Option.some.injEq, Prod.mk.injEq, Prod.mk.injEq] at h
              exact Or.inr ⟨not_not.mp hstop, h.1, h.2.1⟩
    · rename_i hlf
      split at h
      · simp at h
      · refine ⟨by omega, r, start, Or.inr ⟨hlf, rfl⟩, ?_⟩
        split at h
        · exact Or.inl ⟨by assumption, h⟩
        · rename_i hstop
          rw [Option.some.injEq, Prod.mk.injEq, Prod.mk.injEq] at h
          exact Or.inr ⟨not_not.mp hstop, h.1, h.2.1⟩

/-- Where a scan ends there are two NULs, and no line end before them. -/
theorem scanLines_quiet (h : scanLines fuel r chptr start = some (r', c, s))
    (hbefore : ∀ i < chptr, r.buf i ≠ LF) :
    1 ≤ c ∧ c ≤ BUFFER_SIZE ∧ (∀ i < c, r'.buf i ≠ LF) ∧ r'.buf (c - 1) = 0 ∧ r'.buf c = 0 := by
  induction fuel generalizing r chptr start with
  | zero => simp [scanLines] at h
  | succ fuel ih =>
    generalize hp : nextStop r.buf (BUFFER_SIZE + 1 - chptr) chptr = p
    have hclean : ∀ i < p, r.buf i ≠ LF := by
      intro i hi
      by_cases hlt : i < chptr
      · exact hbefore i hlt
      · exact nextStop_before r.buf (BUFFER_SIZE + 1 - chptr) chptr i (by omega) (by rwa [hp])
    obtain ⟨hin, r1, start', hround, hgo⟩ := scanLines_cases hp h
    have hhere : r1.buf p = 0 := by
      rcases hround with ⟨-, hbuf⟩ | ⟨hlf, rfl⟩
      · rw [hbuf, cutLine_zero]
      · have hstop := nextStop_stops r1.buf (BUFFER_SIZE + 1 - chptr) chptr (by omega)
        rw [hp] at hstop
        exact hstop.resolve_left hlf
    have hnext : ∀ i < p + 1, r1.buf i ≠ LF := by
      intro i hi
      by_cases hip : i = p
      · rw [hip, hhere]
        decide
      · rcases hround with ⟨-, hbuf⟩ | ⟨-, rfl⟩
        · rw [hbuf]
          exact cutLine_ne_lf (hclean i (by omega)) p
        · exact hclean i (by omega)
    rcases hgo with ⟨-, hrest⟩ | ⟨hzero, rfl, rfl⟩
    · exact ih hrest hnext
    · exact ⟨by omega, by omega, hnext, hhere, hzero⟩

theorem nextStop_le (buf : Mem) (fuel : ℕ) (ha : chptr ≤ a) (hstop : buf a = LF ∨ buf a = 0) :
    nextStop buf fuel chptr ≤ a := by
  induction fuel generalizing chptr with
  | zero => exact ha
  | succ fuel ih =>
    rw [nextStop]
    split
    · exact ha
    · rename_i hgo
      rcases Nat.eq_or_lt_of_le ha with rfl | hlt
      · exact absurd hstop hgo
      · exact ih hlt

theorem scanLines_no_line (hq : QuietUpto r.buf a) (h : scanLines fuel r chptr start =
    some (r', c, s)) (ha : chptr ≤ a) : r' = r := by
  induction fuel generalizing chptr start with
  | zero => simp [scanLines] at h
  | succ fuel ih =>
    obtain ⟨hin, hlf, hzero, hnext⟩ := hq
    generalize hp : nextStop r.buf (BUFFER_SIZE + 1 - chptr) chptr = p
    have hle : p ≤ a := by
      rw [← hp]
      exact nextStop_le _ _ ha (Or.inr hzero)
    obtain ⟨-, r1, start', hround, hgo⟩ := scanLines_cases hp h
    obtain ⟨-, rfl⟩ := hround.resolve_left (fun hline => hlf p hle hline.1)
    rcases hgo with ⟨hmore, hrest⟩ | ⟨-, rfl, -⟩
    · have hne : p ≠ a := by
        intro heq
        rw [heq] at hmore
        exact hmore hnext
      exact ih hrest (by omega)
    · rfl

end Scan

section Pass
variable {r r' : Response} {res : ReadResult}

def pass (r : Response) (res : ReadResult) : Option Response := (readInto r res).bind digest

/-- Behind the scan the unfinished line is copied, or nothing is kept. -/
theorem digest_cases (h : digest r = some r') : ∃ r1 c s,
    scanLines (BUFFER_SIZE + 1) r 0 0 = some (r1, c, s) ∧ r'.doesContinue = r1.doesContinue ∧
      ((r'.bufLength = c - s - 1 ∧
          r'.buf = fun i => if i < c - s - 1 then r1.buf (s + i) else r1.buf i) ∨
        (r'.bufLength = 0 ∧ r'.buf = r1.buf)) := by
  rw [digest] at h
  split at h
  · simp at h
  · rename_i r1 c s hscan
    refine ⟨r1, c, s, hscan, ?_⟩
    split at h
    · obtain ⟨buf, hcopy, rfl⟩ := Option.map_eq_some_iff.mp h
      unfold copyToFront at hcopy
      split at hcopy
      · simp at hcopy
      · exact ⟨rfl, Or.inl ⟨rfl, (Option.some.inj hcopy).symm⟩⟩
    · rw [← Option.some.inj h]
      exact ⟨rfl, Or.inr ⟨rfl, rfl⟩⟩

theorem digest_quiet (h : digest r = some r') : Quiet r' := by
  obtain ⟨r1, c, s, hscan, -, hkept⟩ := digest_cases h
  obtain ⟨hpos, hin, hlf, hlast, hstop⟩ := scanLines_quiet hscan (by omega)
  have hclean : ∀ i ≤ c - 1, r1.buf i ≠ LF := fun i hi => hlf i (by omega)
  have hstop' : r1.buf (c - 1 + 1) = 0 := by rw [Nat.sub_add_cancel hpos]; exact hstop
  rcases hkept with ⟨hlen, hbuf⟩ | ⟨hlen, hbuf⟩
  · refine ⟨c - 1, by omega, by omega, ?_, ?_, ?_⟩
    · intro i hi
      rw [hbuf]
      dsimp only
      split
      · exact hclean _ (by omega)
      · exact hclean i hi
    · rw [hbuf]
      dsimp only
      rw [if_neg (by omega)]
      exact hlast
    · rw [hbuf]
      dsimp only
      rw [if_neg (by omega)]
      exact hstop'
  · refine ⟨c - 1, by omega, by omega, ?_⟩
    rw [hbuf]
    exact ⟨hclean, hlast, hstop'⟩

theorem digest_length_le (h : digest r = some r') : r'.bufLength ≤ BUFFER_SIZE := by
  obtain ⟨r1, c, s, hscan, -, hkept⟩ := digest_cases h
  obtain ⟨_, hin, _⟩ := scanLines_quiet hscan (by omega)
  rcases hkept with ⟨hlen, -⟩ | ⟨hlen, -⟩ <;> omega

theorem digest_continues (hq : ∃ c, QuietUpto r.buf c) (h : digest r = some r') :
    r'.doesContinue = r.doesContinue := by
  obtain ⟨c, hc⟩ := hq
  obtain ⟨r1, chptr, s, hscan, hcont, -⟩ := digest_cases h
  rw [hcont, scanLines_no_line hc hscan (Nat.zero_le c)]

/-- End of file, or a read error. -/
def Closed (res : ReadResult) : Prop := res = .failed ∨ res = .bytes []

theorem quietUpto_update {buf : Mem} {c i : ℕ} (h : QuietUpto buf c) :
    QuietUpto (Function.update buf i 0) c := by
  obtain ⟨hin, hlf, hzero, hnext⟩ := h
  refine ⟨hin, ?_, ?_, ?_⟩
  · intro j hj
    rw [Function.update_apply]
    split
    · decide
    · exact hlf j hj
  · rw [Function.update_apply, hzero, ite_self]
  · rw [Function.update_apply, hnext, ite_self]

theorem pass_closed (hq : Quiet r) (hcont : r.doesContinue = true) (hres : Closed res)
    (h : pass r res = some r') : Quiet r' ∧ r'.doesContinue = true := by
  obtain ⟨c, hlen, hc⟩ := hq
  obtain ⟨r1, hread, hdigest⟩ := Option.bind_eq_some_iff.mp h
  have hr1 : QuietUpto r1.buf c ∧ r1.doesContinue = true := by
    rcases hres with rfl | rfl
    · rw [readInto] at hread
      split at hread
      · simp at hread
      · rw [← Option.some.inj hread]
        exact ⟨quietUpto_update hc, hcont⟩
    · simp only [readInto, List.take_nil, receive, store, Option.some.injEq] at hread
      rw [← hread]
      exact ⟨quietUpto_update hc, hcont⟩
  have hgoes : r'.doesContinue = true := by
    rw [digest_continues ⟨c, hr1.1⟩ hdigest]
    exact hr1.2
  exact ⟨digest_quiet hdigest, hgoes⟩

end Pass

section Ends
variable {r r' : Response} {rounds tail : List Round}

/-- Waiting ends in these rounds: a time-out, a failing `select`, or a pass that finds the last
line of the reply. -/
inductive Completes : Response → List Round → Prop
  | timeout (r : Response) (rounds : List Round) : Completes r (.timeout :: rounds)
  | selectFailed (r r' : Response) (res : ReadResult) (rounds : List Round) :
      pass r res = some r' → Completes r (.selectFailed res :: rounds)
  | last (r r' : Response) (res : ReadResult) (rounds : List Round) :
      pass r res = some r' → r'.doesContinue = false → Completes r (.ready res :: rounds)
  | more (r r' : Response) (res : ReadResult) (rounds : List Round) :
      pass r res = some r' → r'.doesContinue = true →
      Completes r' (leftover r res ++ rounds) → Completes r (.ready res :: rounds)

def Returned (o : Outcome) : Prop := ∃ rc str buf, o = .returned rc str buf

theorem finish_returned (r : Response) (rc : ℤ) : Returned (finish r rc) := by
  unfold finish
  split
  · split
    · exact ⟨_, _, _, rfl⟩
    · split <;> exact ⟨_, _, _, rfl⟩
  · exact ⟨_, _, _, rfl⟩

theorem not_returned_waiting : ¬ Returned .waiting := by
  rintro ⟨rc, str, buf, h⟩
  cases h

theorem not_returned_fault : ¬ Returned .fault := by
  rintro ⟨rc, str, buf, h⟩
  cases h

theorem loop_selectFailed (fuel : ℕ) (r : Response) (res : ReadResult) (rounds : List Round) :
    responseLoop (fuel + 1) r (.selectFailed res :: rounds) =
      (pass r res).elim .fault (fun r' => finish r' FTPERR_UNKNOWN) := by
  rw [responseLoop, pass]
  cases (readInto r res).bind digest <;> rfl

theorem loop_ready (fuel : ℕ) (r : Response) (res : ReadResult) (rounds : List Round) :
    responseLoop (fuel + 1) r (.ready res :: rounds) =
      (pass r res).elim .fault (fun r' =>
        if r'.doesContinue then responseLoop fuel r' (leftover r res ++ rounds)
        else finish r' 0) := by
  rw [responseLoop, pass]
  cases (readInto r res).bind digest <;> rfl

theorem returned_of_completes (h : Completes r rounds) (tail : List Round) :
    ∃ fuel, Returned (responseLoop fuel r (rounds ++ tail)) := by
  induction h with
  | timeout r rounds => exact ⟨1, _, _, _, rfl⟩
  | selectFailed r r' res rounds hpass =>
    refine ⟨1, ?_⟩
    rw [List.cons_append, loop_selectFailed, hpass]
    exact finish_returned r' _
  | last r r' res rounds hpass hlast =>
    refine ⟨1, ?_⟩
    rw [List.cons_append, loop_ready, hpass, Option.elim_some, hlast, if_neg (by simp)]
    exact finish_returned r' _
  | more r r' res rounds hpass hmore _ ih =>
    obtain ⟨fuel, hfuel⟩ := ih
    refine ⟨fuel + 1, ?_⟩
    rw [List.cons_append, loop_ready, hpass, Option.elim_some, if_pos hmore, ← List.append_assoc]
    exact hfuel

def Hangs (round : Round) : Prop := ∃ res, Closed res ∧ round = .ready res

theorem leftover_closed (r : Response) {res : ReadResult} (h : Closed res) :
    leftover r res = [] := by
  rcases h with rfl | rfl
  · rfl
  · simp [leftover]

/-- From a quiet buffer the loop never returns after the connection is closed. -/
theorem not_returned_of_quiet (hq : Quiet r) (hcont : r.doesContinue = true)
    (htail : ∀ round ∈ tail, Hangs round) (fuel : ℕ) :
    ¬ Returned (responseLoop fuel r tail) := by
  induction fuel generalizing r tail with
  | zero => exact not_returned_waiting
  | succ fuel ih =>
    cases tail with
    | nil => exact not_returned_waiting
    | cons round tail =>
      obtain ⟨⟨res, hclosed, rfl⟩, hrest⟩ := List.forall_mem_cons.mp htail
      rw [loop_ready]
      cases hpass : pass r res with
      | none => exact not_returned_fault
      | some r' =>
        obtain ⟨hq', hcont'⟩ := pass_closed hq hcont hclosed hpass
        rw [Option.elim_some, if_pos hcont', leftover_closed r hclosed, List.nil_append]
        exact ih hq' hcont' hrest

theorem completes_of_returned (fuel : ℕ)
    (hstart : rounds ≠ [] ∨ (Quiet r ∧ r.doesContinue = true))
    (htail : ∀ round ∈ tail, Hangs round)
    (h : Returned (responseLoop fuel r (rounds ++ tail))) : Completes r rounds := by
  induction fuel generalizing r rounds with
  | zero => exact absurd h not_returned_waiting
  | succ fuel ih =>
    cases rounds with
    | nil =>
      obtain ⟨hq, hcont⟩ := hstart.resolve_left (fun hne => hne rfl)
      exact absurd h (not_returned_of_quiet hq hcont htail _)
    | cons round rounds =>
      rw [List.cons_append] at h
      cases round with
      | timeout => exact Completes.timeout r rounds
      | selectFailed res =>
        rw [loop_selectFailed] at h
        cases hpass : pass r res with
        | none =>
          rw [hpass] at h
          exact absurd h not_returned_fault
        | some r' => exact Completes.selectFailed r r' res rounds hpass
      | ready res =>
        rw [loop_ready] at h
        cases hpass : pass r res with
        | none =>
          rw [hpass] at h
          exact absurd h not_returned_fault
        | some r' =>
          rw [hpass, Option.elim_some] at h
          by_cases hcont : r'.doesContinue = true
          · rw [if_pos hcont, ← List.append_assoc] at h
            obtain ⟨r1, _, hdigest⟩ := Option.bind_eq_some_iff.mp hpass
            exact Completes.more r r' res rounds hpass hcont
              (ih (Or.inr ⟨digest_quiet hdigest, hcont⟩) h)
          · exact Completes.last r r' res rounds hpass (Bool.eq_false_iff.mpr hcont)

end Ends

section Length
variable {r r' : Response} {rounds tail : List Round}

/-- `bufLength` after `read`. -/
def lengthRead (r : Response) : ReadResult → ℤ
  | .failed => r.bufLength - 1
  | .bytes s => r.bufLength + (s.take (BUFFER_SIZE - r.bufLength)).length

def bufLengths : ℕ → Response → List Round → List ℤ
  | 0, _, _ => []
  | _ + 1, _, [] => []
  | _ + 1, _, .timeout :: _ => []
  | _ + 1, r, .selectFailed res :: _ =>
    lengthRead r res :: (pass r res).elim [] (fun r' => [(r'.bufLength : ℤ)])
  | fuel + 1, r, .ready res :: rounds =>
    lengthRead r res :: (pass r res).elim [] (fun r' => (r'.bufLength : ℤ) ::
      if r'.doesContinue then bufLengths fuel r' (leftover r res ++ rounds) else [])

theorem lengthRead_le (res : ReadResult) (h : r.bufLength ≤ BUFFER_SIZE) :
    lengthRead r res ≤ BUFFER_SIZE := by
  cases res with
  | failed =>
    change (r.bufLength : ℤ) - 1 ≤ _
    omega
  | bytes s =>
    have htake := List.length_take_le (BUFFER_SIZE - r.bufLength) s
    change (r.bufLength : ℤ) + (s.take (BUFFER_SIZE - r.bufLength)).length ≤ _
    omega

theorem pass_length_le {res : ReadResult} (h : pass r res = some r') :
    r'.bufLength ≤ BUFFER_SIZE := by
  obtain ⟨r1, _, hdigest⟩ := Option.bind_eq_some_iff.mp h
  exact digest_length_le hdigest

theorem bufLengths_le (fuel : ℕ) (h : r.bufLength ≤ BUFFER_SIZE) :
    ∀ len ∈ bufLengths fuel r rounds, len ≤ BUFFER_SIZE := by
  induction fuel generalizing r rounds with
  | zero => simp [bufLengths]
  | succ fuel ih =>
    cases rounds with
    | nil => simp [bufLengths]
    | cons round rounds =>
      cases round with
      | timeout => simp [bufLengths]
      | selectFailed res =>
        rw [bufLengths, List.forall_mem_cons]
        refine ⟨lengthRead_le res h, ?_⟩
        cases hpass : pass r res with
        | none => simp
        | some r' =>
          have hlen := pass_length_le hpass
          simp only [Option.elim_some, List.mem_singleton, forall_eq]
          omega
      | ready res =>
        rw [bufLengths, List.forall_mem_cons]
        refine ⟨lengthRead_le res h, ?_⟩
        cases hpass : pass r res with
        | none => simp
        | some r' =>
          have hlen := pass_length_le hpass
          rw [Option.elim_some, List.forall_mem_cons]
          refine ⟨by omega, ?_⟩
          split
          · exact ih hlen
          · simp

theorem lengthRead_nonneg {res : ReadResult} (h : pass r res = some r') : 0 ≤ lengthRead r res := by
  cases res with
  | failed =>
    obtain ⟨r1, hread, _⟩ := Option.bind_eq_some_iff.mp h
    rw [readInto] at hread
    split at hread
    · simp at hread
    · change 0 ≤ (r.bufLength : ℤ) - 1
      omega
  | bytes s => exact Int.add_nonneg (Int.natCast_nonneg _) (Int.natCast_nonneg _)

theorem bufLengths_nonneg (h : Completes r rounds) (fuel : ℕ) (tail : List Round) :
    ∀ len ∈ bufLengths fuel r (rounds ++ tail), 0 ≤ len := by
  induction h generalizing fuel with
  | timeout r rounds => cases fuel <;> simp [bufLengths]
  | selectFailed r r' res rounds hpass =>
    cases fuel with
    | zero => simp [bufLengths]
    | succ fuel =>
      rw [List.cons_append, bufLengths, hpass, List.forall_mem_cons]
      exact ⟨lengthRead_nonneg hpass, by simp⟩
  | last r r' res rounds hpass hlast =>
    cases fuel with
    | zero => simp [bufLengths]
    | succ fuel =>
      rw [List.cons_append, bufLengths, hpass, List.forall_mem_cons]
      exact ⟨lengthRead_nonneg hpass, by simp [hlast]⟩
  | more r r' res rounds hpass hmore _ ih =>
    cases fuel with
    | zero => simp [bufLengths]
    | succ fuel =>
      rw [List.cons_append, bufLengths, hpass, List.forall_mem_cons, Option.elim_some,
        List.forall_mem_cons, if_pos hmore, ← List.append_assoc]
      exact ⟨lengthRead_nonneg hpass, Int.natCast_nonneg _, ih fuel⟩

end Length

section Server
variable {buf : Mem} {rounds : List Round} {closed : ℕ → ReadResult}

def start (buf : Mem) : Response := ⟨buf, 0, [], true, none⟩

/-- The server's rounds, and `n` reads after it has closed the connection. -/
def served (rounds : List Round) (closed : ℕ → ReadResult) (n : ℕ) : List Round :=
  rounds ++ (List.range n).map (fun k => .ready (closed k))

/-- The call returns, and the kept length is in its range all the time. -/
def Terminates (buf : Mem) (rounds : List Round) (closed : ℕ → ReadResult) : Prop :=
  (∃ n fuel, Returned (ftpCheckResponse fuel buf (served rounds closed n))) ∧
    ∀ n fuel, ∀ len ∈ bufLengths fuel (start buf) (served rounds closed n),
      0 ≤ len ∧ len ≤ BUFFER_SIZE

/-- The rounds in which waiting has to end. If the server sends nothing at all, the first pass
still scans what earlier calls left in the buffer. -/
def decisive (rounds : List Round) (closed : ℕ → ReadResult) : List Round :=
  if rounds = [] then [.ready (closed 0)] else rounds

theorem served_hangs (hclosed : ∀ k, Closed (closed k)) (ks : List ℕ) :
    ∀ round ∈ ks.map (fun k => Round.ready (closed k)), Hangs round := by
  intro round hround
  obtain ⟨k, _, rfl⟩ := List.mem_map.mp hround
  exact ⟨closed k, hclosed k, rfl⟩

theorem served_cases (rounds : List Round) (closed : ℕ → ReadResult) (n : ℕ) :
    served rounds closed n = [] ∨ ∃ ks, served rounds closed n =
      decisive rounds closed ++ List.map (fun k => Round.ready (closed k)) ks := by
  by_cases hnil : rounds = []
  · cases n with
    | zero =>
      rw [hnil]
      exact Or.inl rfl
    | succ n =>
      refine Or.inr ⟨(List.range n).map Nat.succ, ?_⟩
      rw [served, decisive, if_pos hnil, hnil, List.range_succ_eq_map]
      rfl
  · refine Or.inr ⟨List.range n, ?_⟩
    rw [served, decisive, if_neg hnil]

theorem loop_nil (fuel : ℕ) (r : Response) : responseLoop fuel r [] = .waiting := by
  cases fuel <;> rfl

theorem bufLengths_nil (fuel : ℕ) (r : Response) : bufLengths fuel r [] = [] := by
  cases fuel <;> rfl

theorem decisive_ne_nil (rounds : List Round) (closed : ℕ → ReadResult) :
    decisive rounds closed ≠ [] := by
  unfold decisive
  split
  · simp
  · assumption

/-- The call terminates if and only if it has done so before the end of file or the error. -/
theorem terminates_iff_completes (buf : Mem) (rounds : List Round) (closed : ℕ → ReadResult)
    (hclosed : ∀ k, Closed (closed k)) :
    Terminates buf rounds closed ↔ Completes (start buf) (decisive rounds closed) := by
  constructor
  · rintro ⟨⟨n, fuel, hret⟩, _⟩
    rw [ftpCheckResponse] at hret
    rcases served_cases rounds closed n with heq | ⟨ks, heq⟩
    · rw [heq, loop_nil] at hret
      exact absurd hret not_returned_waiting
    · rw [heq] at hret
      exact completes_of_returned fuel (Or.inl (decisive_ne_nil rounds closed))
        (served_hangs hclosed ks) hret
  · intro h
    constructor
    · rcases served_cases rounds closed 1 with heq | ⟨ks, heq⟩
      · simp [served] at heq
      · obtain ⟨fuel, hret⟩ := returned_of_completes h (ks.map (fun k => Round.ready (closed k)))
        rw [← heq] at hret
        exact ⟨1, fuel, hret⟩
    · intro n fuel len hlen
      refine ⟨?_, bufLengths_le fuel (Nat.zero_le _) len hlen⟩
      rcases served_cases rounds closed n with heq | ⟨ks, heq⟩
      · simp [heq, bufLengths_nil] at hlen
      · rw [heq] at hlen
        exact bufLengths_nonneg h fuel _ len hlen

end Server

/-! ## Which servers end the waiting -/

def replyOver : List Str → Bool
  | [] => false
  | t :: ts => t[3]? != some dash || ts.any (closes (t.take 3))

/-- A read that brings lines: it fits the buffer, has no NUL and no empty line, its end inside a line
is followed by a NUL, and the first line of the reply has three bytes. -/
def plainRead (buf : Mem) (done : List Str) (p c : Str) : Bool :=
  (p ++ c).length ≤ BUFFER_SIZE && !(p ++ c).contains 0 && noStaleByte buf (p ++ c) &&
    (arrived (p ++ c)).1.all (fun t => !t.isEmpty) &&
    (done ++ (arrived (p ++ c)).1).head?.all (fun t => 3 ≤ (text t).length)

/-- Every read brings lines, and what is kept of them can be copied to the front. -/
def fair : Mem → List Str → Str → List Round → Bool
  | _, _, _, [] => true
  | _, _, _, .timeout :: _ => true
  | _, _, _, .selectFailed .failed :: _ => false
  | buf, done, p, .selectFailed (.bytes c) :: _ =>
    plainRead buf done p c &&
      (replyOver ((done ++ (arrived (p ++ c)).1).map text) || apart (p ++ c))
  | _, _, _, .ready .failed :: _ => false
  | buf, done, p, .ready (.bytes c) :: rounds =>
    !c.isEmpty && plainRead buf done p c &&
      (replyOver ((done ++ (arrived (p ++ c)).1).map text) ||
        (apart (p ++ c) &&
          fair (left buf (p ++ c)) (done ++ (arrived (p ++ c)).1) (arrived (p ++ c)).2 rounds))

/-- The reply is whole, or `select` times out or fails. -/
def ends : List Str → Str → List Round → Bool
  | _, _, [] => false
  | _, _, .timeout :: _ => true
  | _, _, .selectFailed _ :: _ => true
  | _, _, .ready .failed :: _ => false
  | done, p, .ready (.bytes c) :: rounds =>
    replyOver ((done ++ (arrived (p ++ c)).1).map text) ||
      ends (done ++ (arrived (p ++ c)).1) (arrived (p ++ c)).2 rounds

section Fair
variable {buf : Mem} {r : Response} {done : List Str} {p c : Str} {rounds : List Round}

theorem foldl_lineStep {code : Str} (hcode : code ≠ []) (ts : List Str) (more : Bool) :
    ts.foldl lineStep (code, more) = (code, more && !ts.any (closes code)) := by
  induction ts generalizing more with
  | nil => simp
  | cons t ts ih =>
    have hstep : lineStep (code, more) t = (code, more && !closes code t) := by
      rw [lineStep, if_pos hcode]
      cases closes code t <;> simp
    rw [List.foldl_cons, hstep, ih, List.any_cons, Bool.not_or, Bool.and_assoc]

theorem progress_eq {ts : List Str} (h : ∀ t, ts.head? = some t → 3 ≤ t.length) :
    progress ts = ((ts.head?.map (List.take 3)).getD [], !replyOver ts) := by
  cases ts with
  | nil => rfl
  | cons t ts =>
    have hcode := take_three_ne_nil (h t rfl)
    have hfirst : lineStep ([], true) t = (t.take 3, t[3]? == some dash) := by
      rw [lineStep, if_neg (by simp)]
      by_cases hdash : t[3]? = some dash <;> simp [hdash]
    rw [progress, List.foldl_cons, hfirst, foldl_lineStep hcode, replyOver, Bool.not_or, bne,
      Bool.not_not]
    rfl

/-- One plain read ends the waiting, is kept for the next one, or is copied on itself. -/
theorem pass_plain (hw : Waiting r done p) (hplain : plainRead r.buf done p c = true) :
    leftover r (.bytes c) = [] ∧
      (if replyOver ((done ++ (arrived (p ++ c)).1).map text) = true then
        ∃ r', pass r (.bytes c) = some r' ∧ r'.doesContinue = false
      else if apart (p ++ c) = true then
        ∃ r', pass r (.bytes c) = some r' ∧ r'.doesContinue = true ∧
          r'.buf = left r.buf (p ++ c) ∧
          Waiting r' (done ++ (arrived (p ++ c)).1) (arrived (p ++ c)).2
      else pass r (.bytes c) = none) := by
  simp only [plainRead, Bool.and_eq_true, decide_eq_true_eq, Bool.not_eq_true', List.all_eq_true,
    List.isEmpty_eq_false_iff] at hplain
  obtain ⟨⟨⟨⟨hin, hnul⟩, hstale⟩, hempty⟩, hfirst⟩ := hplain
  obtain ⟨hgot, hlines, -⟩ := arrived_spec (p ++ c)
  have h0 : (0 : UInt8) ∉ p ++ c := by simpa using hnul
  have hfit : c.length ≤ BUFFER_SIZE - r.bufLength := by
    rw [List.length_append] at hin
    rw [hw.length]
    omega
  have hok : ∀ t ∈ (arrived (p ++ c)).1, LineOk t := by
    intro t ht
    refine ⟨hempty t ht, hlines t ht, fun hmem => h0 ?_⟩
    rw [hgot]
    exact List.mem_append_left _ (List.mem_flatMap.mpr ⟨t, ht, List.mem_append_left _ hmem⟩)
  have h0' : (0 : UInt8) ∉ (arrived (p ++ c)).2 := by
    intro hmem
    rw [hgot] at h0
    exact h0 (List.mem_append_right _ hmem)
  have hthree : ∀ t, ((done ++ (arrived (p ++ c)).1).map text).head? = some t → 3 ≤ t.length := by
    intro t ht
    rw [List.head?_map, Option.map_eq_some_iff] at ht
    obtain ⟨u, hu, rfl⟩ := ht
    simpa [hu] using hfirst
  have hfits : ∀ t, (arrived (p ++ c)).1.head? = some t → CodeFits r.errorCode (text t) := by
    intro t ht
    have hcode : r.errorCode = (progress (done.map text)).1 := congrArg Prod.fst hw.state
    cases done with
    | nil =>
      rw [hcode]
      refine ⟨fun _ => hthree (text t) ?_, fun hne => absurd rfl hne⟩
      rw [List.nil_append, List.head?_map, ht]
      rfl
    | cons u done =>
      have hu := hthree (text u) rfl
      rw [progress_eq (by simpa using hu)] at hcode
      have hlen : r.errorCode.length = 3 := by
        rw [hcode]
        change (List.take 3 (text u)).length = 3
        rw [List.length_take]
        omega
      exact ⟨fun hnil => by simp [hnil] at hlen, fun _ => hlen⟩
  refine ⟨by rw [leftover, if_pos hfit], ?_⟩
  have hpass : pass r (.bytes c) = digest (receive r c) := by
    rw [pass, readInto, List.take_of_length_le hfit, Option.bind_some]
  have hstate := progress_eq hthree
  obtain ⟨buf, str, hdig, -⟩ := digest_receive hw hok h0' hin hfits hstale hstate
  rw [hpass, hdig]
  cases hover : replyOver ((done ++ (arrived (p ++ c)).1).map text) with
  | true => exact ⟨_, rfl, rfl⟩
  | false =>
    rw [hover] at hstate
    cases happart : apart (p ++ c) with
    | true => exact ⟨_, rfl, rfl, rfl, hstate.symm, holds_store _ _ _, rfl⟩
    | false => rfl

theorem completes_of_ends (hw : Waiting r done p) (hfair : fair r.buf done p rounds = true)
    (hends : ends done p rounds = true) : Completes r rounds := by
  induction rounds generalizing r done p with
  | nil => simp [ends] at hends
  | cons round rounds ih =>
    cases round with
    | timeout => exact Completes.timeout r rounds
    | selectFailed res =>
      cases res with
      | failed => simp [fair] at hfair
      | bytes c =>
        rw [fair, Bool.and_eq_true] at hfair
        obtain ⟨-, hpass⟩ := pass_plain hw hfair.1
        by_cases hover : replyOver ((done ++ (arrived (p ++ c)).1).map text) = true
        · rw [if_pos hover] at hpass
          obtain ⟨r', hpass, -⟩ := hpass
          exact Completes.selectFailed r r' _ rounds hpass
        · have hapart := (Bool.or_eq_true_iff.mp hfair.2).resolve_left hover
          rw [if_neg hover, if_pos hapart] at hpass
          obtain ⟨r', hpass, -⟩ := hpass
          exact Completes.selectFailed r r' _ rounds hpass
    | ready res =>
      cases res with
      | failed => simp [ends] at hends
      | bytes c =>
        rw [fair, Bool.and_eq_true, Bool.and_eq_true] at hfair
        rw [ends] at hends
        obtain ⟨hleft, hpass⟩ := pass_plain hw hfair.1.2
        by_cases hover : replyOver ((done ++ (arrived (p ++ c)).1).map text) = true
        · rw [if_pos hover] at hpass
          obtain ⟨r', hpass, hlast⟩ := hpass
          exact Completes.last r r' _ rounds hpass hlast
        · have hmore := Bool.and_eq_true_iff.mp
            ((Bool.or_eq_true_iff.mp hfair.2).resolve_left hover)
          rw [if_neg hover, if_pos hmore.1] at hpass
          obtain ⟨r', hpass, hcont, hbuf, hw'⟩ := hpass
          refine Completes.more r r' _ rounds hpass hcont ?_
          rw [hleft, List.nil_append]
          exact ih hw' (by rw [hbuf]; exact hmore.2)
            ((Bool.or_eq_true_iff.mp hends).resolve_left hover)

theorem ends_of_completes (hw : Waiting r done p) (hfair : fair r.buf done p rounds = true)
    (h : Completes r rounds) : ends done p rounds = true := by
  induction rounds generalizing r done p with
  | nil => cases h
  | cons round rounds ih =>
    cases round with
    | timeout => rfl
    | selectFailed res => rfl
    | ready res =>
      cases res with
      | failed => simp [fair] at hfair
      | bytes c =>
        rw [fair, Bool.and_eq_true, Bool.and_eq_true] at hfair
        rw [ends, Bool.or_eq_true]
        obtain ⟨hleft, hpass⟩ := pass_plain hw hfair.1.2
        by_cases hover : replyOver ((done ++ (arrived (p ++ c)).1).map text) = true
        · exact Or.inl hover
        · right
          have hmore := Bool.and_eq_true_iff.mp
            ((Bool.or_eq_true_iff.mp hfair.2).resolve_left hover)
          rw [if_neg hover, if_pos hmore.1] at hpass
          obtain ⟨r', hpass, hcont, hbuf, hw'⟩ := hpass
          cases h with
          | last _ r'' _ _ hpass' hlast =>
            rw [hpass, Option.some.injEq] at hpass'
            rw [← hpass', hcont] at hlast
            cases hlast
          | more _ r'' _ _ hpass' _ hrest =>
            rw [hpass, Option.some.injEq] at hpass'
            rw [← hpass', hleft, List.nil_append] at hrest
            exact ih hw' (by rw [hbuf]; exact hmore.2) hrest

theorem waiting_start (buf : Mem) : Waiting (start buf) [] [] := ⟨rfl, trivial, rfl⟩

/-- Nothing is sent at all, and the byte behind the first NUL is NUL. -/
theorem not_completes_closed {closed : ReadResult} (hclosed : Closed closed) (h : buf 1 = 0) :
    ¬ Completes (start buf) [.ready closed] := by
  intro hcomplete
  rcases hclosed with rfl | rfl
  · cases hcomplete with
    | last _ _ _ _ hpass => simp [pass, readInto, start] at hpass
    | more _ _ _ _ hpass => simp [pass, readInto, start] at hpass
  · have hplain : plainRead (start buf).buf [] [] [] = true := by
      have hnul : noStaleByte buf [] = true := by simp [noStaleByte, h]
      simp [plainRead, start, hnul, arrived]
    obtain ⟨hleft, hpass⟩ := pass_plain (waiting_start buf) hplain
    have hover : ¬ replyOver (([] ++ (arrived ([] ++ [])).1).map text) = true := by decide
    have hapart : apart ([] ++ []) = true := by decide
    rw [if_neg hover, if_pos hapart] at hpass
    obtain ⟨r', hpass, hcont, -, -⟩ := hpass
    cases hcomplete with
    | last _ r'' _ _ hpass' hlast =>
      rw [hpass, Option.some.injEq] at hpass'
      rw [← hpass', hcont] at hlast
      cases hlast
    | more _ r'' _ _ hpass' _ hrest =>
      rw [hleft] at hrest
      cases hrest

end Fair

end Comodoo.FtpTermination
