import Comodoo.CheckShortReads

set_option autoImplicit false

/-!
# What a right answer needs

A hash with the stored sums makes the image good, and another one differs from it in a single
place. The answer must follow both.
-/
namespace Comodoo.CheckReadsNeeded
open CString IsoFragments CheckReads CheckAccesses CheckShortReads
open IsoImage hiding searchPvd
open CheckIso hiding parsepvd checkmd5sum mediaCheckFile

section
variable {γ : Type} {md5 : Md5 γ} {digest : Str → Vector UInt8 16} {cuts : Cuts} {image : Str}
  {stack : Stack} {d : Descriptor} {cb : Option (ℤ → ℤ → ℤ)}

/-- A hash that has the same digest for everything. -/
def constantHash : Md5 Unit := ⟨(), fun _ _ => (), fun _ => .replicate 16 0⟩

theorem incremental_constantHash : Incremental constantHash fun _ => .replicate 16 0 :=
  ⟨fun _ _ => rfl⟩

/-- A hash that keeps all bytes, with the digest that is asked for. -/
def collectingHash (digest : Str → Vector UInt8 16) : Md5 Str := ⟨[], (· ++ ·), digest⟩

theorem incremental_collectingHash (digest : Str → Vector UInt8 16) :
    Incremental (collectingHash digest) digest := by
  have hcollect : ∀ (pieces : List Str) (data : Str),
      pieces.foldl (· ++ ·) data = data ++ pieces.flatten := by
    intro pieces
    induction pieces with
    | nil => simp
    | cons piece pieces ih =>
      intro data
      rw [List.foldl_cons, ih, List.flatten_cons, List.append_assoc]
  exact ⟨fun pieces _ => congrArg digest (hcollect pieces [])⟩

theorem exists_other_digest (digest : Vector UInt8 16) :
    ∃ other : Vector UInt8 16, sumText digest ≠ sumText other := by
  by_cases hzeros : sumText digest = sumText (.replicate 16 0)
  · refine ⟨.replicate 16 1, ?_⟩
    rw [hzeros]
    decide
  · exact ⟨_, hzeros⟩

/-- A run that does not end early has hashed all its buffers, so all had room. -/
theorem run_ok {fragmentsums data : Str} {rs : List (ℕ × Str)} {c last : Check γ}
    (hfits : ∀ read ∈ rs, read.2.length ≤ bufsize) (hc : Hashed md5 c data)
    (h : rs.foldlM (pass md5 d fragmentsums cb) c = .ok last) :
    (∀ read ∈ rs, Room (apoff d) read) ∧
      Hashed md5 last (data ++ (rs.map (hashedOf d)).flatten) := by
  induction rs generalizing c data with
  | nil =>
    cases h
    rw [List.map_nil, List.flatten_nil, List.append_nil]
    exact ⟨nofun, hc⟩
  | cons read rs ih =>
    obtain ⟨hfit, hrest⟩ := List.forall_mem_cons.mp hfits
    rw [List.foldlM_cons] at h
    cases hpass : pass md5 d fragmentsums cb c read with
    | error stop =>
      rw [hpass] at h
      cases h
    | ok c' =>
      rw [hpass] at h
      obtain ⟨piece, hblank, hctx⟩ := (pass_ok hpass).1
      have hroom : Room (apoff d) read := by
        by_contra hno
        rw [blankAppdata_noRoom hno] at hblank
        cases hblank
      obtain ⟨data', hdata', hlength⟩ := blankAppdata_room hroom
      have hpiece : hashedOf d read = piece := by
        rw [hashedOf, hblank, Option.getD_some]
      rw [hdata'] at hblank
      cases hblank
      obtain ⟨hrooms, hhashed⟩ := ih hrest (hc.update (hlength.trans_le hfit) hctx) h
      rw [List.map_cons, List.flatten_cons, ← List.append_assoc, hpiece]
      exact ⟨List.forall_mem_cons.mpr ⟨hroom, hrooms⟩, hhashed⟩

theorem compareFragment_ne_passed {fragmentsums : Str} {fragmentcount current_fragment : ℤ}
    {c : Check γ} : compareFragment md5 fragmentsums fragmentcount current_fragment c ≠
      .error (.rc ISOMD5SUM_CHECK_PASSED) := by
  unfold compareFragment
  dsimp only
  split
  · nofun
  split <;> nofun

theorem reportProgress_ne_passed {offset total : ℤ} {c : Check γ} :
    reportProgress cb offset total c ≠ .error (.rc ISOMD5SUM_CHECK_PASSED) := by
  unfold reportProgress
  split
  · nofun
  split <;> nofun

theorem pass_ne_passed {fragmentsums : Str} {c : Check γ} {read : ℕ × Str} :
    pass md5 d fragmentsums cb c read ≠ .error (.rc ISOMD5SUM_CHECK_PASSED) := by
  intro h
  unfold CheckReads.pass checkBuffer at h
  cases hblank : blankAppdata (d.offset + (APPDATA_OFFSET : ℕ)) read.1 read.2 with
  | none =>
    rw [hblank] at h
    cases h
  | some data =>
    rw [hblank] at h
    dsimp only at h
    split at h
    · cases hcompare : compareFragment md5 fragmentsums d.fragmentcount
        (currentFragment d.limit d.fragmentcount read.1)
        { c with md5ctx := md5.update c.md5ctx data } with
      | error stop =>
        rw [hcompare] at h
        cases h
        exact compareFragment_ne_passed hcompare
      | ok compared =>
        rw [hcompare] at h
        exact reportProgress_ne_passed h
    · exact reportProgress_ne_passed h

theorem run_ne_passed {fragmentsums : Str} (rs : List (ℕ × Str)) (c : Check γ) :
    rs.foldlM (pass md5 d fragmentsums cb) c ≠ .error (.rc ISOMD5SUM_CHECK_PASSED) := by
  induction rs generalizing c with
  | nil => nofun
  | cons read rs ih =>
    rw [List.foldlM_cons]
    cases hpass : pass md5 d fragmentsums cb c read with
    | error stop =>
      intro h
      cases h
      exact pass_ne_passed hpass
    | ok c' => exact ih c'

theorem finish_passed {mediasum : Str} {last : Except Stop (Check γ)} {matched : List (ℤ × Str)}
    (hlast : last ≠ .error (.rc ISOMD5SUM_CHECK_PASSED))
    (h : finish md5 mediasum last = .returned ISOMD5SUM_CHECK_PASSED matched) :
    ∃ c, last = .ok c ∧ cString mediasum = sumText (md5.final c.md5ctx) := by
  rcases last with (rc | _) | c
  · cases h
    exact absurd rfl hlast
  · cases h
  · refine ⟨c, rfl, ?_⟩
    by_contra hsum
    rw [finish, if_pos hsum] at h
    cases h

/-- What a right answer to a good image shows: all buffers had room, and what has been hashed has
the stored sum. -/
theorem passed_of_right (hfound : Found cuts image stack.pvd)
    (hpvd : CheckIso.parsepvd image stack.pvd = some d) (hright : Right cuts image stack)
    (hgood : Good digest image d) :
    (∀ read ∈ reads cuts.data image d.limit 0, Room (apoff d) read) ∧
      cString d.mediasum =
        sumText (digest ((reads cuts.data image d.limit 0).map (hashedOf d)).flatten) := by
  obtain ⟨rc, matched, hreturned, hrc⟩ :=
    hright (collectingHash digest) digest (incremental_collectingHash digest) none nofun
  rw [hrc.mpr ⟨d, hpvd, hgood⟩, mediaCheckFile_eq hfound hpvd] at hreturned
  obtain ⟨last, hlast, hsum⟩ := finish_passed (run_ne_passed _ _) hreturned
  obtain ⟨hroom, hhashed⟩ := run_ok (fun read hread => (isRead_of_mem hread).fits)
    (hashed_start _ stack) hlast
  rw [hhashed.final (incremental_collectingHash digest), List.nil_append] at hsum
  exact ⟨hroom, hsum⟩

/-- When some blanks are missing, something else than the original image is hashed. -/
theorem hashedOf_ne_original
    (hroom : ∀ read ∈ reads cuts.data image d.limit 0, Room (apoff d) read) {read : ℕ × Str}
    (hread : read ∈ reads cuts.data image d.limit 0) (hblank : ¬ Blank (apoff d) read) :
    ((reads cuts.data image d.limit 0).map (hashedOf d)).flatten ≠
      original image d d.limit.toNat := by
  intro h
  rw [← flatten_original cuts.data] at h
  have hsame := eq_of_flatten_eq h (fun read hread => by
    rw [(hashedOf_spec hroom read hread).2, length_blanked]) read hread
  apply hblank
  rw [← blankAppdata_right_iff (hroom read hread), (hashedOf_spec hroom read hread).1, hsame]

theorem length_hashedOf
    (hroom : ∀ read ∈ reads cuts.data image d.limit 0, Room (apoff d) read) :
    (((reads cuts.data image d.limit 0).map (hashedOf d)).flatten).length =
      (original image d d.limit.toNat).length := by
  rw [← flatten_original cuts.data, List.length_flatten, List.length_flatten,
    List.map_map, List.map_map]
  congr 1
  refine List.map_congr_left fun read hread => ?_
  exact (hashedOf_spec hroom read hread).2.trans (length_blanked _ _ _).symm

theorem original_inj {a b : ℕ}
    (h : (original image d a).length = (original image d b).length) :
    original image d a = original image d b := by
  rw [original, original, length_blanked, length_blanked, List.length_take, List.length_take] at h
  have htake : image.take a = image.take b := List.take_eq_take_iff.mpr h
  rw [original, original, htake]

def changed (digest : Str → Vector UInt8 16) (data : Str) (other : Vector UInt8 16) :
    Str → Vector UInt8 16 := fun bytes => if bytes = data then other else digest bytes

theorem changed_self (digest : Str → Vector UInt8 16) (data : Str) (other : Vector UInt8 16) :
    changed digest data other data = other := if_pos rfl

theorem changed_of_ne {data bytes : Str} {other : Vector UInt8 16} (h : bytes ≠ data) :
    changed digest data other bytes = digest bytes := if_neg h

theorem harmless_none : ∀ f ∈ (none : Option (ℤ → ℤ → ℤ)), ∀ offset total, f offset total = 0 :=
  nofun

/-- There is a hash that has the stored sums. -/
def Storable (image : Str) (d : Descriptor) : Prop := ∃ digest, Good digest image d

theorem blanksSound_of_right (hfound : Found cuts image stack.pvd)
    (hpvd : CheckIso.parsepvd image stack.pvd = some d) (hright : Right cuts image stack)
    (hstorable : Storable image d) : BlanksSound cuts.data image d := by
  obtain ⟨digest, hgood⟩ := hstorable
  have hroom := (passed_of_right hfound hpvd hright hgood).1
  refine ⟨hroom, fun _ read hread => ?_⟩
  by_contra hblank
  have hne := hashedOf_ne_original hroom hread hblank
  have hlength := length_hashedOf hroom
  have hpassed : ∀ digest, Good digest image d → cString d.mediasum =
      sumText (digest ((reads cuts.data image d.limit 0).map (hashedOf d)).flatten) :=
    fun _ hgood => (passed_of_right hfound hpvd hright hgood).2
  generalize ((reads cuts.data image d.limit 0).map (hashedOf d)).flatten = hashed
    at hne hlength hpassed
  have hkeep : ∀ size, original image d size ≠ hashed := by
    intro size h
    exact hne (h.symm.trans (original_inj (by rw [h, hlength])))
  obtain ⟨other, hother⟩ := exists_other_digest (digest (original image d d.limit.toNat))
  have hgood' : Good (changed digest hashed other) image d := by
    refine ⟨?_, fun fragmentsums h mark hmark => ?_⟩
    · rw [changed_of_ne (hkeep _)]
      exact hgood.sum
    · rw [SumMatches, changed_of_ne (hkeep _)]
      exact hgood.fragments fragmentsums h mark hmark
  have hsum := hpassed _ hgood'
  rw [hgood.sum, changed_self] at hsum
  exact hother hsum

/-! ## The fragments -/

theorem exists_other_fragment (digest : Vector UInt8 16) {n : ℕ} (hn : n ≠ 0) :
    ∃ other : Vector UInt8 16, fragmentText digest n ≠ fragmentText other n := by
  obtain ⟨m, rfl⟩ := Nat.exists_eq_succ_of_ne_zero hn
  by_cases hzeros : fragmentText digest (m + 1) = fragmentText (.replicate 16 0) (m + 1)
  · refine ⟨.replicate 16 1, fun h => ?_⟩
    have hhead := congrArg List.head? (hzeros.symm.trans h)
    change some (hexStart 0) = some (hexStart 1) at hhead
    exact absurd hhead (by decide)
  · exact ⟨_, hzeros⟩

/-- A sum that others do not demand differs for some hash for which those are right. -/
theorem exists_digest_of_not_demanded {fragmentsums : Str} {ms : List (ℤ × ℕ)} {mark : ℤ × ℕ}
    (hdigits : sumDigits d.fragmentcount ≠ 0) (hno : ¬ Demanded image d fragmentsums ms mark)
    (hsum : cString d.mediasum = sumText (digest (original image d d.limit.toNat)))
    (hmark : SumMatches digest d fragmentsums mark.1 (original image d mark.2))
    (hall : ∀ other ∈ ms,
      SumMatches digest d fragmentsums other.1 (original image d other.2)) :
    ∃ digest', cString d.mediasum = sumText (digest' (original image d d.limit.toNat)) ∧
      (∀ other ∈ ms,
        SumMatches digest' d fragmentsums other.1 (original image d other.2)) ∧
      ¬ SumMatches digest' d fragmentsums mark.1 (original image d mark.2) := by
  obtain ⟨hmarks, hlast⟩ := not_or.mp hno
  obtain ⟨sum, hother⟩ := exists_other_fragment (digest (original image d mark.2)) hdigits
  refine ⟨changed digest (original image d mark.2) sum, ?_, fun other hmem => ?_, fun hmatch => ?_⟩
  · rw [changed_of_ne]
    · exact hsum
    · intro h
      refine hlast ⟨h.symm, _, hsum, ?_⟩
      rw [h]
      exact hmark
  · rw [SumMatches, changed_of_ne]
    · exact hall other hmem
    · intro h
      refine hmarks ⟨other, hmem, h, ?_⟩
      have hsame := hall other hmem
      rw [SumMatches, h] at hsame
      exact hsame.trans hmark.symm
  · rw [SumMatches, changed_self] at hmatch
    exact hother (hmark.symm.trans hmatch)

theorem pass_succeeds {fragmentsums piece data : Str} {c c' : Check γ} {read : ℕ × Str}
    (hinc : Incremental md5 digest) (hlen : 60 ≤ fragmentsums.length) (hc : Hashed md5 c data)
    (hblank : blankAppdata (apoff d) read.1 read.2 = some piece) (hpiece : piece.length ≤ bufsize)
    (hcb : ∀ f ∈ cb, ∀ offset total, f offset total = 0)
    (hnew : d.fragmentcount ≠ 0 ∧
      currentFragment d.limit d.fragmentcount read.1 ≠ c.previous_fragment)
    (h : pass md5 d fragmentsums cb c read = .ok c') :
    SumsInside d.fragmentcount (currentFragment d.limit d.fragmentcount read.1) ∧
      SumMatches digest d fragmentsums (currentFragment d.limit d.fragmentcount read.1)
        (data ++ piece) ∧
      (sumStart d.fragmentcount (currentFragment d.limit d.fragmentcount read.1) ≠ 0 →
        Terminated d c.thisfragsum) ∧
      c'.previous_fragment = currentFragment d.limit d.fragmentcount read.1 := by
  have hhashed : Hashed md5 { c with md5ctx := md5.update c.md5ctx piece } (data ++ piece) :=
    hc.update hpiece rfl
  rw [CheckReads.pass, checkBuffer_eq hblank hcb, if_pos hnew] at h
  have hinside : SumsInside d.fragmentcount
      (currentFragment d.limit d.fragmentcount read.1) := by
    by_contra hno
    rw [(compareFragment_fault_iff md5 fragmentsums _).mpr hno] at h
    cases h
  obtain ⟨hdigits, hstart, hfit⟩ := sumsInside_iff.mp hinside
  obtain ⟨j, hj⟩ := Int.eq_ofNat_of_zero_le hstart
  rw [hj] at hfit
  obtain ⟨hmatch, hnul⟩ := compareFragment_succeeds rfl hdigits hj (by omega) hlen h
  refine ⟨hinside, ?_, fun hne => hnul ?_, (compareFragment_ok h).2⟩
  · rw [SumMatches, storedSum, hj, Int.toNat_natCast, hmatch, hhashed.final hinc]
  · rw [hj] at hne
    exact_mod_cast hne

theorem run_succeeds {fragmentsums data : Str} {rs : List (ℕ × Str)} {c last : Check γ}
    {f : ℕ × Str → Str} (hinc : Incremental md5 digest) (hlen : 60 ≤ fragmentsums.length)
    (hcb : ∀ f ∈ cb, ∀ offset total, f offset total = 0)
    (hrs : ∀ read ∈ rs, blankAppdata (apoff d) read.1 read.2 = some (f read) ∧
      (f read).length ≤ bufsize) (hc : Hashed md5 c data)
    (h : rs.foldlM (pass md5 d fragmentsums cb) c = .ok last) :
    Ready d fragmentsums ((tests d f c.previous_fragment data rs).map Prod.fst) c.thisfragsum ∧
      ∀ test ∈ tests d f c.previous_fragment data rs,
        SumMatches digest d fragmentsums test.1 test.2 := by
  induction rs generalizing c data with
  | nil => exact ⟨⟨nofun, fun _ => hlen, nofun⟩, nofun⟩
  | cons read rs ih =>
    obtain ⟨⟨hblank, hpiece⟩, hrest⟩ := List.forall_mem_cons.mp hrs
    rw [List.foldlM_cons] at h
    by_cases hnew : d.fragmentcount ≠ 0 ∧
        currentFragment d.limit d.fragmentcount read.1 ≠ c.previous_fragment
    · have htests : tests d f c.previous_fragment data (read :: rs) =
          (currentFragment d.limit d.fragmentcount read.1, data ++ f read) ::
            tests d f (currentFragment d.limit d.fragmentcount read.1) (data ++ f read) rs :=
        if_pos hnew
      cases hpass : pass md5 d fragmentsums cb c read with
      | error stop =>
        rw [hpass] at h
        cases h
      | ok c' =>
        rw [hpass] at h
        obtain ⟨hinside, hmatch, hnul, hprevious⟩ :=
          pass_succeeds hinc hlen hc hblank hpiece hcb hnew hpass
        obtain ⟨data', hdata', hctx⟩ := (pass_ok hpass).1
        have hsame : f read = data' := Option.some.inj (hblank.symm.trans hdata')
        obtain ⟨hready, hall⟩ := ih hrest (hc.update hpiece (hsame ▸ hctx)) h
        rw [hprevious] at hready hall
        rw [htests, List.map_cons]
        refine ⟨⟨List.forall_mem_cons.mpr ⟨hinside, hready.inside⟩, fun _ => hlen, ?_⟩,
          List.forall_mem_cons.mpr ⟨hmatch, hall⟩⟩
        intro fragment hhead
        cases hhead
        exact hnul
    · have htests : tests d f c.previous_fragment data (read :: rs) =
          tests d f c.previous_fragment (data ++ f read) rs := if_neg hnew
      rw [pass_same hblank hcb hnew] at h
      have hhashed : Hashed md5 { c with md5ctx := md5.update c.md5ctx (f read) }
          (data ++ f read) := hc.update hpiece rfl
      rw [htests]
      have hnext := ih hrest hhashed h
      exact hnext

/-- A right answer to a good image finds all sums right that are compared. -/
theorem compared_of_right (hfound : Found cuts image stack.pvd)
    (hpvd : CheckIso.parsepvd image stack.pvd = some d) (hright : Right cuts image stack)
    (hlen : 60 ≤ (sumsOf stack d).length)
    (hroom : ∀ read ∈ reads cuts.data image d.limit 0, Room (apoff d) read)
    (hblank : ∀ read ∈ reads cuts.data image d.limit 0, Blank (apoff d) read)
    (hgood : Good digest image d) :
    Ready d (sumsOf stack d) ((marksOf cuts.data image d).map Prod.fst) stack.thisfragsum ∧
      ∀ mark ∈ marksOf cuts.data image d,
        SumMatches digest d (sumsOf stack d) mark.1 (original image d mark.2) := by
  obtain ⟨rc, matched, hreturned, hrc⟩ :=
    hright (collectingHash digest) digest (incremental_collectingHash digest) none nofun
  rw [hrc.mpr ⟨d, hpvd, hgood⟩, mediaCheckFile_eq hfound hpvd] at hreturned
  obtain ⟨last, hlast, -⟩ := finish_passed (run_ne_passed _ _) hreturned
  obtain ⟨hready, hall⟩ := run_succeeds (incremental_collectingHash digest) hlen harmless_none
    (blanked_spec hroom hblank) (hashed_start _ stack) hlast
  have htests : tests d (fun read => blanked (apoff d) read.1 read.2)
      (start (collectingHash digest) stack).previous_fragment []
      (reads cuts.data image d.limit 0) =
        (marksOf cuts.data image d).map fun mark => (mark.1, original image d mark.2) :=
    tests_start
  rw [htests] at hready hall
  rw [List.map_map] at hready
  refine ⟨hready, fun mark hmark => ?_⟩
  have hmatch := hall _ (List.mem_map_of_mem hmark)
  exact hmatch

theorem good_of_right (hfound : Found cuts image stack.pvd)
    (hpvd : CheckIso.parsepvd image stack.pvd = some d) (hright : Right cuts image stack)
    (hroom : ∀ read ∈ reads cuts.data image d.limit 0, Room (apoff d) read)
    (hblank : ∀ read ∈ reads cuts.data image d.limit 0, Blank (apoff d) read)
    (hready : Ready d (sumsOf stack d) ((marksOf cuts.data image d).map Prod.fst)
      stack.thisfragsum)
    (hsum : cString d.mediasum = sumText (digest (original image d d.limit.toNat)))
    (hall : ∀ mark ∈ marksOf cuts.data image d,
      SumMatches digest d (sumsOf stack d) mark.1 (original image d mark.2)) :
    Good digest image d := by
  have hinc := incremental_collectingHash digest
  have htests : tests d (fun read => blanked (apoff d) read.1 read.2)
      (start (collectingHash digest) stack).previous_fragment []
      (reads cuts.data image d.limit 0) =
        (marksOf cuts.data image d).map fun mark => (mark.1, original image d mark.2) :=
    tests_start
  have hready' : Ready d (sumsOf stack d) ((tests d (fun read => blanked (apoff d) read.1 read.2)
      (start (collectingHash digest) stack).previous_fragment []
      (reads cuts.data image d.limit 0)).map Prod.fst) stack.thisfragsum := by
    rw [htests, List.map_map]
    exact hready
  obtain ⟨rc, matched, hreturned, hrc⟩ := hright (collectingHash digest) digest hinc none nofun
  rw [mediaCheckFile_eq hfound hpvd] at hreturned
  rcases run_outcome hinc harmless_none (blanked_spec hroom hblank) (hashed_start _ stack)
    hready' with ⟨last, hlast, hhashed, -⟩ | ⟨-, test, htest, hno⟩
  · obtain ⟨rc', matched', hfinish, hrc'⟩ :=
      finish_ok (collectingHash digest) d.mediasum last
    rw [run, hlast, hfinish] at hreturned
    cases hreturned
    rw [hhashed.final hinc, List.nil_append, flatten_original] at hrc'
    obtain ⟨d', hd, hgood⟩ := hrc.mp (hrc'.mpr hsum)
    rw [hpvd] at hd
    cases hd
    exact hgood
  · rw [htests] at htest
    obtain ⟨mark, hmark, rfl⟩ := List.mem_map.mp htest
    exact absurd (hall mark hmark) hno

/-- Where the stored sums can be right, the comparisons must be those of complete reads. -/
theorem fragmentsSound_of_right (hfound : Found cuts image stack.pvd)
    (hpvd : CheckIso.parsepvd image stack.pvd = some d) (hright : Right cuts image stack)
    (hlen : 60 ≤ (sumsOf stack d).length) (hstorable : Storable image d) :
    FragmentsSound cuts.data image stack d := by
  have hblanks := blanksSound_of_right hfound hpvd hright hstorable
  obtain ⟨digest, hgood⟩ := hstorable
  have hblank := hblanks.blank ⟨_, hgood.sum⟩
  have hcompared : ∀ digest, Good digest image d → _ ∧ ∀ mark ∈ marksOf cuts.data image d,
      SumMatches digest d (sumsOf stack d) mark.1 (original image d mark.2) :=
    fun _ => compared_of_right hfound hpvd hright hlen hblanks.room hblank
  obtain ⟨hready, hall⟩ := hcompared digest hgood
  obtain ⟨hsum, hstored⟩ := (good_iff stack).mp hgood
  refine ⟨fun mark hmark => ?_, fun _ => hlen, fun mark hmark => ?_, fun hdigits mark hmark => ?_,
    fun hdigits mark hmark => ?_⟩
  · exact hready.inside _ (List.mem_map_of_mem hmark)
  · refine hready.first mark.1 ?_
    rw [List.head?_map, Option.mem_def.mp hmark]
    rfl
  · by_contra hno
    -- a hash that leaves the image good would not pass the comparison
    obtain ⟨digest', hsum', hstored', hdiffers⟩ :=
      exists_digest_of_not_demanded hdigits hno hsum (hall mark hmark) hstored
    have hgood' : Good digest' image d := (good_iff stack).mpr ⟨hsum', hstored'⟩
    exact hdiffers ((hcompared digest' hgood').2 mark hmark)
  · by_contra hno
    -- a hash that passes all comparisons would not make the image good
    obtain ⟨digest', hsum', hall', hdiffers⟩ :=
      exists_digest_of_not_demanded hdigits hno hsum (hstored mark hmark) hall
    have hgood' : Good digest' image d :=
      good_of_right hfound hpvd hright hblanks.room hblank hready hsum' hall'
    exact hdiffers (((good_iff stack).mp hgood').2 mark hmark)

/-! ## No fragments -/

/-- No sums of fragments are compared, and none are stored. -/
structure Uncompared (cut : Cut) (image : Str) (d : Descriptor) : Prop where
  marks : marksOf cut image d = []
  stored : storedMarks image d = []

theorem pass_fault {fragmentsums : Str} {c : Check γ} {read : ℕ × Str}
    (hroom : ¬ Room (apoff d) read) : pass md5 d fragmentsums cb c read = .error .fault := by
  rw [CheckReads.pass, checkBuffer, blankAppdata_noRoom hroom]

theorem run_fault {fragmentsums : Str} {rs : List (ℕ × Str)} {c : Check γ}
    (hcb : ∀ f ∈ cb, ∀ offset total, f offset total = 0)
    (hmarks : marks d.limit d.fragmentcount c.previous_fragment rs = [])
    (hroom : ∃ read ∈ rs, ¬ Room (apoff d) read) :
    rs.foldlM (pass md5 d fragmentsums cb) c = .error .fault := by
  induction rs generalizing c with
  | nil =>
    obtain ⟨read, hread, -⟩ := hroom
    cases hread
  | cons read rs ih =>
    rw [List.foldlM_cons]
    rw [marks] at hmarks
    split at hmarks
    · cases hmarks
    rename_i hsame
    by_cases hhead : Room (apoff d) read
    · obtain ⟨data, hdata, -⟩ := blankAppdata_room hhead
      rw [pass_same hdata hcb hsame]
      refine ih hmarks ?_
      obtain ⟨bad, hbad, hno⟩ := hroom
      rcases List.mem_cons.mp hbad with rfl | hbad
      · exact absurd hhead hno
      · exact ⟨bad, hbad, hno⟩
    · rw [pass_fault hhead]
      rfl

theorem fragmentsSound_of_uncompared (h : Uncompared cuts.data image d) :
    FragmentsSound cuts.data image stack d := by
  refine ⟨?_, fun hne => absurd h.marks hne, ?_, fun _ => ?_, fun _ => ?_⟩
  · rw [h.marks]
    nofun
  · rw [h.marks]
    nofun
  · rw [h.marks]
    nofun
  · rw [h.stored]
    nofun

theorem mediaCheckFile_fault (hfound : Found cuts image stack.pvd)
    (hpvd : CheckIso.parsepvd image stack.pvd = some d) (h : marksOf cuts.data image d = [])
    (hroom : ∃ read ∈ reads cuts.data image d.limit 0, ¬ Room (apoff d) read) :
    mediaCheckFile md5 cuts (some image) none stack = .fault := by
  have hrun : run md5 cuts.data image none stack d = .error .fault :=
    run_fault harmless_none h hroom
  rw [mediaCheckFile_eq hfound hpvd, hrun, finish]

theorem blanksSound_of_uncompared (hfound : Found cuts image stack.pvd)
    (hpvd : CheckIso.parsepvd image stack.pvd = some d) (hright : Right cuts image stack)
    (h : Uncompared cuts.data image d) : BlanksSound cuts.data image d := by
  refine ⟨?_, fun ⟨sum, hsum⟩ => ?_⟩
  · by_contra hno
    push Not at hno
    obtain ⟨rc, matched, hreturned, -⟩ :=
      hright constantHash _ incremental_constantHash none nofun
    rw [mediaCheckFile_fault hfound hpvd h.marks hno] at hreturned
    cases hreturned
  · -- a hash with the stored sum for all images is one that has the stored sums
    have hgood : Good (fun _ => sum) image d := by
      refine ⟨hsum, ?_⟩
      rw [h.stored]
      nofun
    exact (blanksSound_of_right hfound hpvd hright ⟨_, hgood⟩).blank ⟨sum, hsum⟩

end

/-! ## When short reads do no harm -/

/-- The searches find what complete reads find. The stored sums are there as a whole and are those
of some hash, or there are no fragments. -/
structure Proper (cuts : Cuts) (image : Str) (stack : Stack) : Prop where
  found : Found cuts image stack.pvd
  sums : ∀ d, CheckIso.parsepvd image stack.pvd = some d →
    (Storable image d ∧ 60 ≤ (sumsOf stack d).length) ∨ Uncompared cuts.data image d

theorem sound_of_right {cuts : Cuts} {image : Str} {stack : Stack} (h : Proper cuts image stack)
    (hright : Right cuts image stack) : Sound cuts image stack := by
  refine ⟨h.found, fun d hpvd => ?_, fun d hpvd => ?_⟩
  · rcases h.sums d hpvd with ⟨hstorable, -⟩ | hnone
    · exact blanksSound_of_right h.found hpvd hright hstorable
    · exact blanksSound_of_uncompared h.found hpvd hright hnone
  · rcases h.sums d hpvd with ⟨hstorable, hlen⟩ | hnone
    · exact fragmentsSound_of_right h.found hpvd hright hlen hstorable
    · exact fragmentsSound_of_uncompared hnone

/-- Image, size, sums and reads are arbitrary. -/
theorem mediaCheckFile_right (cuts : Cuts) (image : Str) (stack : Stack) :
    (Sound cuts image stack → Right cuts image stack) ∧
      (Proper cuts image stack → (Right cuts image stack ↔ Sound cuts image stack)) :=
  ⟨right_of_sound, fun h => ⟨sound_of_right h, right_of_sound⟩⟩

/-! ## A read that ends where the application data begin -/

def plainAppdata : Str :=
  ascii "ISO MD5SUM = 00000000000000000000000000000000;SKIPSECTORS = 0;" ++
    List.replicate 450 0x20

def plainSector : Str :=
  (1 :: List.replicate 83 0) ++ [0, 0, 0, 17] ++ List.replicate 795 0 ++ plainAppdata ++
    List.replicate 653 0

def plainImage : Str := List.replicate 32768 0 ++ plainSector

def plainDescriptor : Descriptor :=
  ⟨32768, 34816, ascii "00000000000000000000000000000000", 0, none, 0⟩

/-- The second read of the loop gives 883 bytes. -/
def cutAtAppdata : Cuts :=
  ⟨completeReads.media, completeReads.check, fun offset => if offset = 32768 then 882 else 32767⟩

theorem length_plainImage : plainImage.length = 34816 := by
  have hlength : plainSector.length = 2048 := by decide +kernel
  rw [plainImage, List.length_append, hlength, List.length_replicate]

theorem parsepvd_plainImage :
    CheckIso.parsepvd plainImage cleared.stack.pvd = some plainDescriptor := by
  have hdescriptor : readDescriptor 32768 plainSector = some plainDescriptor := by
    decide +kernel
  have hpvd : cleared.stack.pvd.length = 2048 := cleared.pvd.length_toList
  rw [CheckIso.parsepvd, show 16 * 2048 = 32768 from rfl, plainImage,
    searchPvd_first (by decide +kernel) rfl hpvd]
  exact hdescriptor

theorem marks_of_zero {limit fragmentcount : ℤ} (hcount : fragmentcount = 0)
    (previous_fragment : ℤ) (rs : List (ℕ × Str)) :
    marks limit fragmentcount previous_fragment rs = [] := by
  induction rs with
  | nil => rfl
  | cons read rs ih => exact (if_neg fun h => h.1 hcount).trans ih

theorem noRoom_of_length {buf : Str} (h : buf.length = 883) :
    ¬ Room (apoff plainDescriptor) (32768, buf) := by
  intro hroom
  have hbegins : Begins (apoff plainDescriptor) (32768, buf) := by
    unfold Begins
    dsimp only
    rw [h]
    decide
  have hhalf := hroom hbegins
  dsimp only at hhalf
  rw [h] at hhalf
  exact absurd hhalf (by decide)

theorem exists_read_without_room :
    ∃ read ∈ reads cutAtAppdata.data plainImage 34816 0, ¬ Room (apoff plainDescriptor) read := by
  have hfirst : (piece cutAtAppdata.data plainImage 34816 0).length = 32768 := by
    rw [length_piece, length_plainImage]
    rfl
  have hsecond : (piece cutAtAppdata.data plainImage 34816 32768).length = 883 := by
    rw [length_piece, length_plainImage]
    rfl
  have hread : piece cutAtAppdata.data plainImage 34816 0 ≠ [] :=
    List.length_pos_iff.mp (by rw [hfirst]; decide)
  have hread' : piece cutAtAppdata.data plainImage 34816 32768 ≠ [] :=
    List.length_pos_iff.mp (by rw [hsecond]; decide)
  have hrest := reads_of_running (by decide) hread'
  have hmem : (32768, piece cutAtAppdata.data plainImage 34816 32768) ∈
      reads cutAtAppdata.data plainImage 34816 0 := by
    rw [reads_of_running (by decide) hread, hfirst, Nat.zero_add, hrest]
    exact List.mem_cons_of_mem _ List.mem_cons_self
  exact ⟨_, hmem, noRoom_of_length hsecond⟩

theorem mediaCheckFile_cutAtAppdata : ¬ Right cutAtAppdata plainImage cleared.stack := by
  intro h
  have hfound : Found cutAtAppdata plainImage cleared.stack.pvd :=
    ⟨parsepvd_complete _ _, parsepvd_complete _ _⟩
  have hlimit : plainDescriptor.limit = 34816 := by decide
  have hroom := exists_read_without_room
  rw [← hlimit] at hroom
  obtain ⟨rc, matched, hreturned, -⟩ := h constantHash _ incremental_constantHash none nofun
  rw [mediaCheckFile_fault hfound parsepvd_plainImage (marks_of_zero rfl _ _) hroom] at hreturned
  cases hreturned

end Comodoo.CheckReadsNeeded
