import Comodoo.IsoFragments

set_option autoImplicit false

/-!
# Checking an ISO image in short reads

`mediaCheckFile` when a read may give less than it is asked for, which is more than nothing up to
the end of the file.
-/
namespace Comodoo.CheckReads
open CString IsoImage ReadLoop CheckIso

/-- How many bytes a read at an offset gives at most, besides the one that it gives in any case. -/
abbrev Cut := ℕ → ℕ

/-- How the reads of both searches and those of the loop are cut. -/
structure Cuts where
  media : Cut
  check : Cut
  data : Cut

/-- A short read leaves `pos`, where the file is read, behind `offset`. -/
def searchPvd (cut : Cut) (image : Str) (pos offset : ℕ) (buf : Str) : Option (ℕ × Str) :=
  if _hend : image.length ≤ pos then none
  else
    let data := readAt image pos (min 2048 (cut pos + 1))
    let buf := fill buf data
    if buf.head? = some 1 then some (offset, buf)
    else if buf.head? = some 255 then none
    else searchPvd cut image (pos + data.length) (offset + 2048) buf
termination_by image.length - pos
decreasing_by
  have hpos : 0 < (readAt image pos (min 2048 (cut pos + 1))).length := by
    rw [readAt, List.length_take, List.length_drop]
    omega
  omega

def parsepvd (cut : Cut) (image junk : Str) : Option Descriptor :=
  (searchPvd cut image (16 * 2048) (16 * 2048) junk).bind fun found =>
    readDescriptor found.1 found.2

def piece (cut : Cut) (image : Str) (limit : ℤ) (offset : ℕ) : Str :=
  (chunk bufsize image limit offset).take (cut offset + 1)

/-- What the reads of the loop give, each with its offset. -/
def reads (cut : Cut) (image : Str) (limit : ℤ) (offset : ℕ) : List (ℕ × Str) :=
  if _hlt : offset < limit then
    let buf := piece cut image limit offset
    if _hread : buf = [] then []
    else (offset, buf) :: reads cut image limit (offset + buf.length)
  else []
termination_by (limit - offset).toNat
decreasing_by
  have hpos : 0 < (piece cut image limit offset).length := List.length_pos_iff.mpr _hread
  omega

def pass {γ : Type} (md5 : Md5 γ) (d : Descriptor) (fragmentsums : Str)
    (cb : Option (ℤ → ℤ → ℤ)) (c : Check γ) (read : ℕ × Str) : Except Stop (Check γ) :=
  checkBuffer md5 (d.offset + APPDATA_OFFSET) d.limit fragmentsums d.fragmentcount cb read.1
    read.2 c

def start {γ : Type} (md5 : Md5 γ) (stack : Stack) : Check γ := ⟨md5.init, 0, stack.thisfragsum, []⟩

/-- What is compared at the end, and what is returned. -/
def finish {γ : Type} (md5 : Md5 γ) (mediasum : Str) (last : Except Stop (Check γ)) : Report :=
  match last with
  | .error .fault => .fault
  | .error (.rc rc) => .returned rc []
  | .ok c =>
    if cString mediasum ≠ sumText (md5.final c.md5ctx) then
      .returned ISOMD5SUM_CHECK_FAILED c.matched
    else .returned ISOMD5SUM_CHECK_PASSED c.matched

def checkmd5sum {γ : Type} (md5 : Md5 γ) (cuts : Cuts) (image : Str) (cb : Option (ℤ → ℤ → ℤ))
    (stack : Stack) : Report :=
  match parsepvd cuts.check image stack.pvd with
  | none => .returned ISOMD5SUM_CHECK_NOT_FOUND []
  | some d =>
    finish md5 d.mediasum
      ((reads cuts.data image d.limit 0).foldlM
        (pass md5 d (d.fragmentsums.getD stack.fragmentsums) cb) (start md5 stack))

def mediaCheckFile {γ : Type} (md5 : Md5 γ) (cuts : Cuts) (file : Option Str)
    (cb : Option (ℤ → ℤ → ℤ)) (stack : Stack) : Report :=
  match file with
  | none => .returned ISOMD5SUM_FILE_NOT_FOUND []
  | some image =>
    match parsepvd cuts.media image stack.pvd with
    | none => .returned ISOMD5SUM_CHECK_NOT_FOUND []
    | some _ => checkmd5sum md5 cuts image cb stack

/-! ## The reads -/

section
variable {cut : Cut} {image : Str} {limit : ℤ} {offset : ℕ}

theorem length_piece : (piece cut image limit offset).length =
    min (cut offset + 1) (min (min (limit - offset) bufsize).toNat (image.length - offset)) := by
  rw [piece, chunk, List.length_take, List.length_take, List.length_drop]

theorem piece_eq : piece cut image limit offset =
    (image.drop offset).take (piece cut image limit offset).length := by
  rw [length_piece, piece, chunk, List.take_take, ← List.length_drop (i := offset), ← min_assoc]
  exact List.take_eq_take_min

theorem reads_of_running (hlt : offset < limit) (hread : piece cut image limit offset ≠ []) :
    reads cut image limit offset = (offset, piece cut image limit offset) ::
      reads cut image limit (offset + (piece cut image limit offset).length) := by
  rw [reads, dif_pos hlt]
  exact dif_neg hread

theorem reads_of_done (hdone : ¬ (offset < limit ∧ piece cut image limit offset ≠ [])) :
    reads cut image limit offset = [] := by
  rw [reads]
  split
  · rename_i hlt
    exact dif_pos (not_not.mp fun hread => hdone ⟨hlt, hread⟩)
  · rfl

structure IsRead (image : Str) (limit : ℤ) (read : ℕ × Str) : Prop where
  lt : read.1 < limit
  ne : read.2 ≠ []
  eq : read.2 = (image.drop read.1).take read.2.length
  le : read.1 + read.2.length ≤ limit
  inside : read.1 + read.2.length ≤ image.length
  fits : read.2.length ≤ bufsize

theorem isRead_piece (hlt : offset < limit) (hread : piece cut image limit offset ≠ []) :
    IsRead image limit (offset, piece cut image limit offset) := by
  have hpos := List.length_pos_iff.mpr hread
  have hlen : (piece cut image limit offset).length = _ := length_piece
  refine ⟨hlt, hread, piece_eq, ?_, ?_, ?_⟩ <;> dsimp only <;> omega

theorem reads_induction {P : ℕ → List (ℕ × Str) → Prop}
    (hdone : ∀ offset : ℕ, ¬ (offset < limit ∧ offset < image.length) → P offset [])
    (hread : ∀ offset buf rest, IsRead image limit (offset, buf) → P (offset + buf.length) rest →
      P offset ((offset, buf) :: rest)) (offset : ℕ) : P offset (reads cut image limit offset) := by
  generalize hn : (limit - offset).toNat = n
  induction n using Nat.strong_induction_on generalizing offset with
  | _ n ih =>
    by_cases hgo : offset < limit ∧ piece cut image limit offset ≠ []
    · have hpos := List.length_pos_iff.mpr hgo.2
      rw [reads_of_running hgo.1 hgo.2]
      refine hread _ _ _ (isRead_piece hgo.1 hgo.2) (ih _ ?_ _ rfl)
      omega
    · rw [reads_of_done hgo]
      refine hdone offset fun h => hgo ⟨h.1, ?_⟩
      rw [← List.length_pos_iff, length_piece]
      change 0 < min _ (min (min (limit - offset) 32768).toNat _)
      omega

theorem isRead_of_mem {read : ℕ × Str} (h : read ∈ reads cut image limit offset) :
    IsRead image limit read := by
  revert h
  refine reads_induction (P := fun _ rs => read ∈ rs → IsRead image limit read)
    (fun _ _ h => by cases h) (fun offset buf rest hread ih h => ?_) offset
  rcases List.mem_cons.mp h with rfl | h
  · exact hread
  · exact ih h

theorem flatten_reads (offset : ℕ) : ((reads cut image limit offset).map Prod.snd).flatten =
    (image.drop offset).take (limit - offset).toNat := by
  refine reads_induction (P := fun offset rs => (rs.map Prod.snd).flatten =
    (image.drop offset).take (limit - offset).toNat) ?_ ?_ offset
  · intro offset hdone
    by_cases hlt : offset < limit
    · rw [List.drop_of_length_le (not_lt.mp fun h => hdone ⟨hlt, h⟩), List.take_nil]
      rfl
    · rw [show (limit - offset).toNat = 0 by omega, List.take_zero]
      rfl
  · intro offset buf rest hread ih
    have hle := hread.le
    have hsplit : (limit - offset).toNat =
        buf.length + (limit - (offset + buf.length : ℕ)).toNat := by
      dsimp only at hle
      omega
    rw [List.map_cons, List.flatten_cons, ih, hsplit, List.take_add, ← hread.eq, List.drop_drop]

end

/-! ## Complete reads -/

def completeReads : Cuts := ⟨fun _ => 2047, fun _ => 2047, fun _ => bufsize - 1⟩

section
variable {image : Str} {limit : ℤ}

theorem searchPvd_end {cut : Cut} {pos offset : ℕ} {buf : Str} (hend : image.length ≤ pos) :
    searchPvd cut image pos offset buf = none := by
  rw [searchPvd, dif_pos hend]

theorem searchPvd_complete (image : Str) (offset : ℕ) (buf : Str) :
    searchPvd (fun _ => 2047) image offset offset buf =
      match IsoImage.searchPvd (fun _ _ => .notFound) image offset buf with
      | .found offset buf => some (offset, buf)
      | _ => none := by
  fun_induction IsoImage.searchPvd (fun _ _ => .notFound) image offset buf with
  | case1 offset buf hend =>
    rw [searchPvd, dif_pos hend]
  | case2 offset old hend buf hfound =>
    rw [searchPvd, dif_neg hend]
    exact if_pos hfound
  | case3 offset old hend buf hfound hstop =>
    rw [searchPvd, dif_neg hend]
    exact (if_neg hfound).trans (if_pos hstop)
  | case4 offset old hend buf hfound hstop ih =>
    rw [← ih, searchPvd, dif_neg hend]
    refine (if_neg hfound).trans ((if_neg hstop).trans ?_)
    change searchPvd _ image (offset + (readAt image offset 2048).length) (offset + 2048) buf = _
    have hlen : (readAt image offset 2048).length = min 2048 (image.length - offset) := by
      rw [readAt, List.length_take, List.length_drop]
    by_cases hlast : image.length ≤ offset + 2048
    · -- the last sector, which may be cut off
      rw [searchPvd_end (by rw [hlen]; omega), searchPvd_end hlast]
    · rw [hlen, show min 2048 (image.length - offset) = 2048 by omega]

theorem searchPvd_first {sector junk : Str} (hlength : sector.length = 2048)
    (hone : sector.head? = some 1) (hjunk : junk.length = 2048) :
    IsoImage.searchPvd (fun _ _ => .notFound) (List.replicate 32768 0 ++ sector) 32768 junk =
      .found 32768 sector := by
  have hdrop : (List.replicate 32768 0 ++ sector).drop 32768 = sector :=
    List.drop_left' List.length_replicate
  have hfirst : (List.replicate 32768 0 ++ sector)[32768]? = some 1 := by
    rw [← List.head?_drop, hdrop, hone]
  have hread : readAt (List.replicate 32768 0 ++ sector) 32768 2048 = sector := by
    rw [readAt, hdrop, List.take_of_length_le hlength.le]
  have hfill : fill junk sector = sector := by
    rw [fill, hlength, List.drop_of_length_le hjunk.le, List.append_nil]
  have hsearch := searchPvd_eq (fun _ _ => .notFound) junk hfirst
  rwa [hread, hfill] at hsearch

theorem parsepvd_complete (image junk : Str) :
    parsepvd (fun _ => 2047) image junk = CheckIso.parsepvd image junk := by
  cases hfound : IsoImage.searchPvd (fun _ _ => .notFound) image (16 * 2048) junk with
  | found offset buf =>
    rw [parsepvd, searchPvd_complete, CheckIso.parsepvd, hfound]
    exact Option.bind_some _ _
  | notFound =>
    rw [parsepvd, searchPvd_complete, CheckIso.parsepvd, hfound]
    exact Option.bind_none _
  | endless =>
    rw [parsepvd, searchPvd_complete, CheckIso.parsepvd, hfound]
    exact Option.bind_none _

theorem piece_complete (offset : ℕ) :
    piece completeReads.data image limit offset = chunk bufsize image limit offset := by
  refine List.take_of_length_le ?_
  rw [chunk, List.length_take]
  change min (min (limit - offset) 32768).toNat _ ≤ 32767 + 1
  omega

theorem foldlM_reads_complete {σ ρ : Type} (image : Str) (limit : ℤ)
    (body : ℕ → Str → σ → Except ρ σ) (offset : ℕ) (s : σ) :
    (reads completeReads.data image limit offset).foldlM (fun s read => body read.1 read.2 s) s =
      readLoop bufsize image limit body offset s := by
  generalize hn : (limit - offset).toNat = n
  induction n using Nat.strong_induction_on generalizing offset s with
  | _ n ih =>
    by_cases hgo : Running bufsize image limit offset
    · have hpiece : piece completeReads.data image limit offset = _ := piece_complete offset
      have hpos := List.length_pos_iff.mpr hgo.2
      have hlt := hgo.1
      rw [reads_of_running hlt (by rw [hpiece]; exact hgo.2), hpiece, List.foldlM_cons]
      cases hbody : body offset (chunk bufsize image limit offset) s with
      | error r =>
        rw [readLoop, dif_pos hlt]
        dsimp only
        rw [dif_neg hgo.2, hbody]
        rfl
      | ok s' =>
        rw [readLoop_running hgo hbody]
        exact ih _ (by omega) _ _ rfl
    · rw [readLoop_done hgo, reads_of_done]
      · rfl
      · rw [piece_complete]
        exact hgo

theorem checkmd5sum_complete {γ : Type} (md5 : Md5 γ) (image : Str) (cb : Option (ℤ → ℤ → ℤ))
    (stack : Stack) :
    checkmd5sum md5 completeReads image cb stack = CheckIso.checkmd5sum md5 image cb stack := by
  have hpvd := parsepvd_complete image stack.pvd
  rw [checkmd5sum, CheckIso.checkmd5sum, show completeReads.check = fun _ => 2047 from rfl, hpvd]
  cases CheckIso.parsepvd image stack.pvd with
  | none => rfl
  | some d =>
    have hloop := foldlM_reads_complete image d.limit
      (checkBuffer md5 (d.offset + APPDATA_OFFSET) d.limit
        (d.fragmentsums.getD stack.fragmentsums) d.fragmentcount cb) 0 (start md5 stack)
    dsimp only
    unfold CheckReads.pass
    rw [hloop, start]
    cases readLoop bufsize image d.limit _ 0 _ with
    | error stop => cases stop <;> rfl
    | ok c => rfl

theorem mediaCheckFile_complete {γ : Type} (md5 : Md5 γ) (file : Option Str)
    (cb : Option (ℤ → ℤ → ℤ)) (stack : Stack) :
    mediaCheckFile md5 completeReads file cb stack = CheckIso.mediaCheckFile md5 file cb stack := by
  cases file with
  | none => rfl
  | some image =>
    have hpvd := parsepvd_complete image stack.pvd
    rw [mediaCheckFile, show completeReads.media = fun _ => 2047 from rfl, hpvd,
      checkmd5sum_complete]
    cases hfound : CheckIso.parsepvd image stack.pvd with
    | none => rw [CheckIso.mediaCheckFile, hfound]
    | some d => rw [CheckIso.mediaCheckFile, hfound]

end

end Comodoo.CheckReads
