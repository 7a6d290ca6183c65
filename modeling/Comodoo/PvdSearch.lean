import Comodoo.CheckIso
import Comodoo.ImplantIso

set_option autoImplicit false

/-!
# The search for the primary volume descriptor

The loops of both `parsepvd`, read by read. The implanter goes on when a read gives nothing; the
checker does not.
-/
namespace Comodoo.PvdSearch
open CString IsoImage

/-- The offset and the buffer at the end, or `none` for -1. It is `none` on the outside while the
loop has not come to an end. -/
def search (stopsAtEnd : Bool) (image : Str) : ℕ → ℕ → Str → Option (Option (ℕ × Str))
  | 0, _, _ => none
  | fuel + 1, offset, buf =>
    let data := readAt image offset 2048
    if stopsAtEnd ∧ data = [] then some none
    else
      let buf := fill buf data
      if buf.head? = some 1 then some (some (offset, buf))
      else if buf.head? = some 255 then some none
      else search stopsAtEnd image fuel (offset + 2048) buf

abbrev firstSector : ℕ := 16 * 2048

/-- What `buf` holds before the first read. -/
abbrev Buffer := Vector UInt8 2048

def Ends (stopsAtEnd : Bool) (image : Str) (junk : Buffer) (r : Option (ℕ × Str)) : Prop :=
  ∃ fuel, search stopsAtEnd image fuel firstSector junk.toList = some r

/-- The offset and the size that are returned. The offset is an `int`, and one below zero is a
failure. -/
def returned (r : Option (ℕ × Str)) : Option (ℤ × ℤ) :=
  match r with
  | none => none
  | some (offset, buf) =>
    let pvd_offset := Int.bmod offset (2 ^ 32)
    if pvd_offset < 0 then none else some (pvd_offset, isosize buf)

def Agree (image : Str) (implanter checker : Buffer) : Prop :=
  ∃ r r', Ends false image implanter r ∧ Ends true image checker r' ∧ returned r = returned r'

/-- A descriptor the loops stop at begins at this offset. -/
def StopsAt (image : Str) (offset : ℕ) : Prop :=
  image[offset]? = some 1 ∨ image[offset]? = some 255

/-- There is such a descriptor, and if the first sector has one that is cut off in front of its
size, both buffers complete it to the same size. Or the file ends before the first sector, and the
buffer of the implanter happens to begin with 255. -/
def Terminated (image : Str) (implanter checker : Buffer) : Prop :=
  ((∃ k, StopsAt image (firstSector + 2048 * k)) ∧
      (image[firstSector]? = some 1 → image.length < firstSector + 88 →
        isosize (fill implanter.toList (readAt image firstSector 2048)) =
          isosize (fill checker.toList (readAt image firstSector 2048)))) ∨
    (image.length ≤ firstSector ∧ implanter.toList.head? = some 255)

section Rounds
variable {stops : Bool} {image buf : Str} {fuel offset k : ℕ} {b : UInt8}

theorem head?_fill (h : image[offset]? = some b) :
    (fill buf (readAt image offset 2048)).head? = some b := by
  obtain ⟨hlt, hbyte⟩ := List.getElem?_eq_some_iff.mp h
  unfold fill readAt
  rw [List.drop_eq_getElem_cons hlt, List.take_succ_cons, hbyte]
  rfl

theorem StopsAt.lt (h : StopsAt image offset) : offset < image.length := by
  rcases h with h | h <;> exact (List.getElem?_eq_some_iff.mp h).1

theorem stopsAt_next {j : ℕ} :
    StopsAt image (offset + 2048 + 2048 * j) ↔ StopsAt image (offset + 2048 * (j + 1)) := by
  rw [show offset + 2048 + 2048 * j = offset + 2048 * (j + 1) by omega]

theorem readAt_eq_nil_iff : readAt image offset 2048 = [] ↔ image.length ≤ offset := by
  rw [readAt, List.take_eq_nil_iff, List.drop_eq_nil_iff]
  exact or_iff_right (by decide)

theorem search_read (hlt : offset < image.length) :
    search stops image (fuel + 1) offset buf =
      if (fill buf (readAt image offset 2048)).head? = some 1 then
        some (some (offset, fill buf (readAt image offset 2048)))
      else if (fill buf (readAt image offset 2048)).head? = some 255 then some none
      else search stops image fuel (offset + 2048) (fill buf (readAt image offset 2048)) := by
  have hdata : readAt image offset 2048 ≠ [] := by
    rw [Ne, readAt_eq_nil_iff]
    omega
  rw [search]
  exact if_neg fun hend => hdata hend.2

theorem search_found (h : image[offset]? = some 1) :
    search stops image (fuel + 1) offset buf =
      some (some (offset, fill buf (readAt image offset 2048))) := by
  rw [search_read (StopsAt.lt (Or.inl h)), if_pos (head?_fill h)]

theorem search_stopped (h : image[offset]? = some 255) :
    search stops image (fuel + 1) offset buf = some none := by
  rw [search_read (StopsAt.lt (Or.inr h)), head?_fill h, if_neg (by decide), if_pos rfl]

theorem search_next (hlt : offset < image.length) (hno : ¬ StopsAt image offset) :
    search stops image (fuel + 1) offset buf =
      search stops image fuel (offset + 2048) (fill buf (readAt image offset 2048)) := by
  have hbyte : image[offset]? = some image[offset] := List.getElem?_eq_getElem hlt
  rw [StopsAt, not_or, hbyte] at hno
  rw [search_read hlt, head?_fill hbyte, if_neg hno.1, if_neg hno.2]

theorem fill_full (junk : Buffer) (h : offset + 2048 ≤ image.length) :
    fill junk.toList (readAt image offset 2048) = readAt image offset 2048 := by
  have hlen : (readAt image offset 2048).length = 2048 := by
    rw [readAt, List.length_take, List.length_drop]
    omega
  rw [fill, hlen, List.drop_of_length_le (by simp), List.append_nil]

theorem search_eq (buf : Str) (hstop : StopsAt image (offset + 2048 * k)) (stops stops' : Bool) :
    ∃ r, search stops image (k + 1) offset buf = some r ∧
      search stops' image (k + 1) offset buf = some r := by
  induction k generalizing offset buf with
  | zero =>
    rcases hstop with hone | hend
    · exact ⟨_, search_found hone, search_found hone⟩
    · exact ⟨none, search_stopped hend, search_stopped hend⟩
  | succ k ih =>
    by_cases hnow : StopsAt image offset
    · rcases hnow with hone | hend
      · exact ⟨_, search_found hone, search_found hone⟩
      · exact ⟨none, search_stopped hend, search_stopped hend⟩
    · have hlt : offset < image.length := lt_of_le_of_lt (Nat.le_add_right _ _) hstop.lt
      rw [search_next hlt hnow, search_next hlt hnow]
      exact ih _ (stopsAt_next.mpr hstop)

theorem search_behind (hend : image.length ≤ offset) :
    search false image (fuel + 1) offset buf =
      if buf.head? = some 1 then some (some (offset, buf))
      else if buf.head? = some 255 then some none
      else search false image fuel (offset + 2048) buf := by
  rw [search, readAt_eq_nil_iff.mpr hend]
  rfl

theorem search_atEnd (hend : image.length ≤ offset) :
    search true image (fuel + 1) offset buf = some none := by
  rw [search]
  exact if_pos ⟨rfl, readAt_eq_nil_iff.mpr hend⟩

theorem search_endless (hno : ∀ j, ¬ StopsAt image (offset + 2048 * j))
    (hone : buf.head? ≠ some 1) (hend : buf.head? ≠ some 255) :
    search false image fuel offset buf = none := by
  induction fuel generalizing offset buf with
  | zero => rfl
  | succ fuel ih =>
    have hrest : ∀ j, ¬ StopsAt image (offset + 2048 + 2048 * j) :=
      fun j => stopsAt_next.not.mpr (hno (j + 1))
    by_cases hlt : offset < image.length
    · have hbyte : image[offset]? = some image[offset] := List.getElem?_eq_getElem hlt
      have hnow : ¬ StopsAt image offset := hno 0
      rw [search_next hlt hnow]
      rw [StopsAt, not_or, hbyte] at hnow
      refine ih hrest ?_ ?_
      · rw [head?_fill hbyte]
        exact hnow.1
      · rw [head?_fill hbyte]
        exact hnow.2
    · rw [search_behind (by omega), if_neg hone, if_neg hend]
      exact ih hrest hone hend

/-- A sector that has its size leaves nothing of it to what was in the buffer. -/
theorem isosize_fill (junk : Str) (h : offset + 88 ≤ image.length) :
    isosize (fill junk (readAt image offset 2048)) = isosize (readAt image offset 2048) := by
  have hlen : 88 ≤ (readAt image offset 2048).length := by
    rw [readAt, List.length_take, List.length_drop]
    omega
  generalize readAt image offset 2048 = data at hlen ⊢
  have hbyte : ∀ i < 88, (fill junk data).getD i 0 = data.getD i 0 := by
    intro i hi
    rw [fill]
    exact List.getD_append _ _ _ _ (by omega)
  unfold isosize volumeSpace
  rw [hbyte _ (by decide), hbyte _ (by decide), hbyte _ (by decide), hbyte _ (by decide)]

theorem returned_first (buf : Str) :
    returned (some (firstSector, buf)) = some (32768, isosize buf) := by
  have hoffset : Int.bmod (firstSector : ℕ) (2 ^ 32) = 32768 := by
    change Int.bmod (32768 : ℕ) (2 ^ 32) = 32768
    exact Int.bmod_eq_of_le (by omega) (by omega)
  unfold returned
  simp only [hoffset]
  exact if_neg (by decide)

end Rounds

section Models
variable {image buf : Str} {offset : ℕ} {stops : Bool}

/-- A result of the search that reads the file as long as it lasts. -/
def Matches (stops : Bool) (image : Str) (offset : ℕ) (buf : Str) : Search → Prop
  | .found offset' buf' => ∃ fuel, search stops image fuel offset buf = some (some (offset', buf'))
  | .notFound => ∃ fuel, search stops image fuel offset buf = some none
  | .endless => ∀ fuel, search stops image fuel offset buf = none

theorem matches_read {r : Search} (hlt : offset < image.length)
    (hone : (fill buf (readAt image offset 2048)).head? ≠ some 1)
    (hend : (fill buf (readAt image offset 2048)).head? ≠ some 255)
    (h : Matches stops image (offset + 2048) (fill buf (readAt image offset 2048)) r) :
    Matches stops image offset buf r := by
  have hnext : ∀ fuel, search stops image (fuel + 1) offset buf =
      search stops image fuel (offset + 2048) (fill buf (readAt image offset 2048)) := by
    intro fuel
    rw [search_read hlt, if_neg hone, if_neg hend]
  cases r with
  | found offset' buf' =>
    obtain ⟨fuel, hfuel⟩ := h
    exact ⟨fuel + 1, (hnext fuel).trans hfuel⟩
  | notFound =>
    obtain ⟨fuel, hfuel⟩ := h
    exact ⟨fuel + 1, (hnext fuel).trans hfuel⟩
  | endless =>
    intro fuel
    cases fuel with
    | zero => rfl
    | succ fuel => exact (hnext fuel).trans (h fuel)

theorem searchPvd_matches {atEnd : ℕ → Str → Search}
    (hatEnd : ∀ offset buf, image.length ≤ offset →
      Matches stops image offset buf (atEnd offset buf)) :
    Matches stops image offset buf (searchPvd atEnd image offset buf) := by
  induction offset, buf using searchPvd.induct image with
  | case1 offset buf hend =>
    rw [searchPvd, dif_pos hend]
    exact hatEnd offset buf hend
  | case2 offset buf hend buf' hone =>
    rw [searchPvd, dif_neg hend]
    dsimp only
    rw [if_pos hone]
    refine ⟨1, ?_⟩
    rw [search_read (Nat.lt_of_not_le hend), if_pos hone]
  | case3 offset buf hend buf' hone hlast =>
    rw [searchPvd, dif_neg hend]
    dsimp only
    rw [if_neg hone, if_pos hlast]
    refine ⟨1, ?_⟩
    rw [search_read (Nat.lt_of_not_le hend), if_neg hone, if_pos hlast]
  | case4 offset buf hend buf' hone hlast ih =>
    rw [searchPvd, dif_neg hend]
    dsimp only
    rw [if_neg hone, if_neg hlast]
    exact matches_read (Nat.lt_of_not_le hend) hone hlast ih

/-- The result that `ImplantIso` gives its search is the one of the reads. -/
theorem implant_parsepvd_matches (image : Str) (junk : Buffer) :
    Matches false image firstSector junk.toList (ImplantIso.parsepvd image junk.toList) := by
  refine searchPvd_matches fun offset buf hlen => ?_
  split_ifs with hone hend
  · exact ⟨1, by rw [search_behind hlen, if_pos hone]⟩
  · exact ⟨1, by rw [search_behind hlen, if_neg hone, if_pos hend]⟩
  · intro fuel
    induction fuel generalizing offset with
    | zero => rfl
    | succ fuel ih =>
      rw [search_behind hlen, if_neg hone, if_neg hend]
      exact ih (offset + 2048) (by omega)

/-- And so is the one that `CheckIso` gives its search. -/
theorem check_parsepvd_matches (image : Str) (junk : Buffer) :
    Matches true image firstSector junk.toList
      (searchPvd (fun _ _ => .notFound) image firstSector junk.toList) :=
  searchPvd_matches fun _ _ hlen => ⟨1, search_atEnd hlen⟩

end Models

section Agreement
variable {image : Str} {implanter checker : Buffer}

theorem agree_first (hone : image[firstSector]? = some 1) :
    Agree image implanter checker ↔
      isosize (fill implanter.toList (readAt image firstSector 2048)) =
        isosize (fill checker.toList (readAt image firstSector 2048)) := by
  constructor
  · rintro ⟨r, r', ⟨fuel, hr⟩, ⟨fuel', hr'⟩, heq⟩
    cases fuel with
    | zero => cases hr
    | succ fuel =>
      cases fuel' with
      | zero => cases hr'
      | succ fuel' =>
        rw [search_found hone] at hr hr'
        rw [← Option.some.inj hr, ← Option.some.inj hr', returned_first, returned_first] at heq
        exact (Prod.mk.inj (Option.some.inj heq)).2
  · intro hsize
    refine ⟨_, _, ⟨1, search_found hone⟩, ⟨1, search_found hone⟩, ?_⟩
    rw [returned_first, returned_first, hsize]

theorem agree_later {k : ℕ} (hno : ¬ StopsAt image firstSector)
    (hstop : StopsAt image (firstSector + 2048 * (k + 1))) : Agree image implanter checker := by
  have hlen : firstSector + 2048 * (k + 1) < image.length := hstop.lt
  have hfull : firstSector + 2048 ≤ image.length := by omega
  have hlt : firstSector < image.length := lt_of_le_of_lt (Nat.le_add_right _ _) hlen
  obtain ⟨r, hr, hr'⟩ :=
    search_eq (readAt image firstSector 2048) (stopsAt_next.mpr hstop) false true
  refine ⟨r, r, ⟨k + 1 + 1, ?_⟩, ⟨k + 1 + 1, ?_⟩, rfl⟩
  · rw [search_next hlt hno, fill_full _ hfull]
    exact hr
  · rw [search_next hlt hno, fill_full _ hfull]
    exact hr'

theorem agree_without (hno : ∀ k, ¬ StopsAt image (firstSector + 2048 * k)) :
    Agree image implanter checker ↔
      image.length ≤ firstSector ∧ implanter.toList.head? = some 255 := by
  constructor
  · rintro ⟨r, r', ⟨fuel, hr⟩, ⟨fuel', hr'⟩, heq⟩
    by_cases hlen : image.length ≤ firstSector
    · refine ⟨hlen, ?_⟩
      by_contra hend
      by_cases hone : implanter.toList.head? = some 1
      · cases fuel with
        | zero => cases hr
        | succ fuel =>
          cases fuel' with
          | zero => cases hr'
          | succ fuel' =>
            rw [search_behind hlen, if_pos hone] at hr
            rw [search_atEnd hlen] at hr'
            rw [← Option.some.inj hr, ← Option.some.inj hr', returned_first] at heq
            cases heq
      · rw [search_endless hno hone hend] at hr
        cases hr
    · cases fuel with
      | zero => cases hr
      | succ fuel =>
        have hlt : firstSector < image.length := Nat.lt_of_not_le hlen
        have hbyte : image[firstSector]? = some image[firstSector] := List.getElem?_eq_getElem hlt
        have hnow : ¬ StopsAt image firstSector := hno 0
        have hrest : ∀ j, ¬ StopsAt image (firstSector + 2048 + 2048 * j) :=
          fun j => stopsAt_next.not.mpr (hno (j + 1))
        rw [search_next hlt hnow] at hr
        rw [StopsAt, not_or, hbyte] at hnow
        rw [search_endless hrest (by rw [head?_fill hbyte]; exact hnow.1)
          (by rw [head?_fill hbyte]; exact hnow.2)] at hr
        cases hr
  · rintro ⟨hlen, hend⟩
    refine ⟨none, none, ⟨1, ?_⟩, ⟨1, search_atEnd hlen⟩, rfl⟩
    rw [search_behind hlen, hend, if_neg (by decide), if_pos rfl]

end Agreement

theorem parsepvd_agree_iff (image : Str) (implanter checker : Buffer) :
    Agree image implanter checker ↔ Terminated image implanter checker := by
  rw [Terminated]
  by_cases hex : ∃ k, StopsAt image (firstSector + 2048 * k)
  · have hlen : ¬ image.length ≤ firstSector := by
      obtain ⟨k, hstop⟩ := hex
      have hlt : firstSector + 2048 * k < image.length := hstop.lt
      omega
    rw [and_iff_right hex, or_iff_left fun h => hlen h.1]
    by_cases hone : image[firstSector]? = some 1
    · rw [agree_first hone, forall_prop_of_true hone]
      refine ⟨fun h _ => h, fun h => ?_⟩
      by_cases hcut : image.length < firstSector + 88
      · exact h hcut
      · rw [isosize_fill _ (Nat.le_of_not_lt hcut), isosize_fill _ (Nat.le_of_not_lt hcut)]
    · refine iff_of_true ?_ fun h => absurd h hone
      obtain ⟨k, hstop⟩ := hex
      by_cases hend : image[firstSector]? = some 255
      · exact ⟨none, none, ⟨1, search_stopped hend⟩, ⟨1, search_stopped hend⟩, rfl⟩
      · have hno : ¬ StopsAt image firstSector := not_or.mpr ⟨hone, hend⟩
        cases k with
        | zero => exact absurd hstop hno
        | succ k => exact agree_later hno hstop
  · rw [agree_without (not_exists.mp hex), or_iff_right fun h => hex h.1]

def cleared : Buffer := Vector.replicate 2048 0

/-- The implanter does not come to the end of an empty file. -/
theorem parsepvd_emptyFile : ¬ Agree [] cleared cleared := by
  have hno : ∀ k, ¬ StopsAt [] (firstSector + 2048 * k) := by
    rintro k (h | h) <;> cases h
  rw [agree_without hno]
  rintro ⟨_, hend⟩
  rw [cleared, Vector.toList_replicate, List.head?_replicate] at hend
  exact absurd hend (by decide)

end Comodoo.PvdSearch
