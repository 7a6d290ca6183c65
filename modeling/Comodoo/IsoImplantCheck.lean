import Comodoo.IsoAppData
import Comodoo.IsoFragments
import Comodoo.Md5

set_option autoImplicit false

/-!
# An implanted image passes the check

The image in the end is the one that was hashed, with the sums as its application data.
-/
namespace Comodoo.IsoImplantCheck
open CString IsoImage IsoFragments

section
variable {image pre appdata post : Str}

def beforeAppdata (image : Str) : Str := image.take 33651
def behindAppdata (image : Str) : Str := image.drop 34163

theorem length_beforeAppdata (h : 34163 ≤ image.length) : (beforeAppdata image).length = 33651 := by
  unfold beforeAppdata
  rw [List.length_take]
  omega

theorem length_behindAppdata (image : Str) :
    (behindAppdata image).length = image.length - 34163 := List.length_drop

theorem withAppdata_self (image : Str) :
    withAppdata (beforeAppdata image) (readAt image 33651 512) (behindAppdata image) = image := by
  unfold withAppdata beforeAppdata behindAppdata readAt
  rw [List.append_assoc, show (34163 : ℕ) = 33651 + 512 from rfl, ← List.drop_drop,
    List.take_append_drop, List.take_append_drop]

theorem writeAt_withAppdata (post : Str) {new : Str} (hpre : pre.length = 33651)
    (h : new.length = appdata.length) :
    writeAt (withAppdata pre appdata post) 33651 new = withAppdata pre new post := by
  have hwrite := writeAt_middle pre post h
  rw [hpre] at hwrite
  exact hwrite

theorem getD_fill {junk : Str} {offset i : ℕ} (hi : i < 2048) (h : offset + 2048 ≤ image.length) :
    (fill junk (readAt image offset 2048)).getD i 0 = (image.drop offset).getD i 0 := by
  have hlen : i < (readAt image offset 2048).length := by
    unfold readAt
    rw [List.length_take, List.length_drop]
    omega
  unfold fill
  rw [List.getD_append _ _ _ _ hlen]
  unfold readAt
  rw [List.getD_eq_getElem?_getD, List.getD_eq_getElem?_getD, List.getElem?_take_of_lt hi]

theorem volumeSpace_fill (junk : Str) {offset : ℕ} (h : offset + 2048 ≤ image.length) :
    volumeSpace (fill junk (readAt image offset 2048)) = volumeSpace (image.drop offset) := by
  unfold volumeSpace
  rw [getD_fill (by decide) h, getD_fill (by decide) h, getD_fill (by decide) h,
    getD_fill (by decide) h]

theorem volumeSpace_withAppdata (hpre : pre.length = 33651) :
    volumeSpace ((withAppdata pre appdata post).drop 32768) = volumeSpace (pre.drop 32768) := by
  have hlen : (pre.drop 32768).length = 883 := by rw [List.length_drop, hpre]
  have hbyte : ∀ i < 883, ((withAppdata pre appdata post).drop 32768).getD i 0 =
      (pre.drop 32768).getD i 0 := by
    intro i hi
    unfold withAppdata
    rw [List.append_assoc, List.drop_append_of_le_length (by omega),
      List.getD_append _ _ _ _ (by omega)]
  unfold volumeSpace
  rw [hbyte _ (by decide), hbyte _ (by decide), hbyte _ (by decide), hbyte _ (by decide)]

theorem readAt_fill {junk : Str} (hpre : pre.length = 33651) (happ : appdata.length = 512) :
    readAt (fill junk (readAt (withAppdata pre appdata post) 32768 2048)) 883 512 = appdata := by
  have hlen : (pre.drop 32768).length = 883 := by rw [List.length_drop, hpre]
  have hread : readAt (withAppdata pre appdata post) 32768 2048 =
      pre.drop 32768 ++ (appdata ++ post.take 653) := by
    unfold readAt withAppdata
    rw [List.append_assoc, List.drop_append_of_le_length (by omega), List.take_append, hlen,
      List.take_of_length_le (by omega), List.take_append, happ, List.take_of_length_le (by omega)]
  unfold fill
  rw [hread]
  unfold readAt
  rw [List.append_assoc, List.drop_left' hlen, List.append_assoc, List.take_left' happ]

theorem isosize_eq {buf : Str} (h : volumeSpace buf < 2 ^ 31) :
    isosize buf = ((volumeSpace buf * 2048 : ℕ) : ℤ) := by
  unfold isosize
  rw [Int.bmod_eq_of_le (by omega) (by omega)]
  push_cast
  rfl

end

/-! ## The writer -/

section
variable {γ : Type} (md5 : Md5 γ) {image image' : Str} {errstr : Option Str}
  {supported forceit : Bool}

theorem writerRun_sums (image : Str) (size : ℕ) :
    WriterRun md5 image size 0 ⟨md5.init, 0, []⟩ (ImplantIso.sums md5 image size) := by
  unfold WriterRun ImplantIso.sums
  cases ReadLoop.readLoop bufsize image size (ImplantIso.sumBuffer md5 size) 0
    ⟨md5.init, 0, []⟩ with
  | ok s => rfl
  | error e => exact e.elim

def hashed (pre post : Str) (sectors : ℕ) : ImplantIso.Sums γ :=
  ImplantIso.sums md5 (withAppdata pre (List.replicate 512 0x20) post)
    ((sectors * 2048 - 15 * 2048 : ℕ) : ℤ)

def implanted (pre post : Str) (sectors : ℕ) (supported : Bool) : Str :=
  (IsoAppData.fields (sumText (md5.final (hashed md5 pre post sectors).md5ctx))
    (hashed md5 pre post sectors).fragstr supported).flatten ++ List.replicate 285 0x20

section
variable {pre post : Str} {sectors : ℕ} (hpre : pre.length = 33651)
  (hsize : 21 * 32768 + 15 * 2048 ≤ sectors * 2048)
  (hlength : sectors * 2048 = 34163 + post.length)

include hpre hlength in
theorem length_blanked :
    sectors * 2048 ≤ (withAppdata pre (List.replicate 512 0x20) post).length := by
  unfold withAppdata
  rw [List.length_append, List.length_append, List.length_replicate, hpre]
  omega

include hpre hsize hlength

theorem hashed_complete : (hashed md5 pre post sectors).previous_fragment = 20 ∧
    (hashed md5 pre post sectors).fragstr.length = 60 := by
  have hbig : 21 * 32768 ≤ sectors * 2048 - 15 * 2048 := by omega
  have hlen := length_blanked hpre hlength
  have hrun := writerRun_sums md5 (withAppdata pre (List.replicate 512 0x20) post)
    (sectors * 2048 - 15 * 2048)
  exact writerRun_complete hbig ((Nat.sub_le _ _).trans hlen) hrun
    (invariant_start (Nat.lt_of_lt_of_le (by decide) hbig))

theorem hashed_summed : Summed md5 (withAppdata pre (List.replicate 512 0x20) post)
    (sectors * 2048 - 15 * 2048) (sectors * 2048 - 15 * 2048) (hashed md5 pre post sectors) := by
  have hbig : 21 * 32768 ≤ sectors * 2048 - 15 * 2048 := by omega
  have hlen := length_blanked hpre hlength
  have hrun := writerRun_sums md5 (withAppdata pre (List.replicate 512 0x20) post)
    (sectors * 2048 - 15 * 2048)
  exact writerRun_summed hbig ((Nat.sub_le _ _).trans hlen) hrun
    (invariant_start (Nat.lt_of_lt_of_le (by decide) hbig)) (summed_start _)

theorem length_implanted (supported : Bool) :
    (implanted md5 pre post sectors supported).length = 512 := by
  unfold implanted
  rw [List.length_append, IsoAppData.length_fields _ (length_sumText _)
    (hashed_complete md5 hpre hsize hlength).2, List.length_replicate]

theorem implantSums_eq :
    ImplantIso.implantSums md5 (withAppdata pre (List.replicate 512 0x20) post) 32768
        ((sectors * 2048 : ℕ) : ℤ) supported =
      .returned 0 none (withAppdata pre (implanted md5 pre post sectors supported) post) := by
  have hlimit : ((sectors * 2048 : ℕ) : ℤ) - (ImplantIso.SKIPSECTORS : ℕ) * 2048 =
      ((sectors * 2048 - 15 * 2048 : ℕ) : ℤ) := by
    change ((sectors * 2048 : ℕ) : ℤ) - 15 * 2048 = _
    omega
  have happ := IsoAppData.newAppdata_eq supported (length_sumText
    (md5.final (hashed md5 pre post sectors).md5ctx)) (hashed_complete md5 hpre hsize hlength).2
  have hblanks : (List.replicate 512 (0x20 : UInt8)).length = 512 := List.length_replicate
  have hwrite := writeAt_withAppdata post hpre
    ((length_implanted md5 hpre hsize hlength supported).trans hblanks.symm)
  unfold ImplantIso.implantSums
  dsimp only
  rw [hlimit]
  unfold hashed at happ
  rw [happ]
  exact congrArg _ hwrite

end

/-- An image whose descriptor is sector 16 and tells the size. -/
structure WellFormed (image : Str) : Prop where
  pvd : image[32768]? = some 1
  size : volumeSpace (image.drop 32768) * 2048 = image.length
  large : 21 * 32768 + 15 * 2048 ≤ image.length
  sectors : volumeSpace (image.drop 32768) < 2 ^ 31

/-- The image that is left when the writer returns 0. -/
def implantedImage (image : Str) (supported : Bool) : Str :=
  withAppdata (beforeAppdata image) (implanted md5 (beforeAppdata image) (behindAppdata image)
    (volumeSpace (image.drop 32768)) supported) (behindAppdata image)

theorem WellFormed.behind (h : WellFormed image) :
    volumeSpace (image.drop 32768) * 2048 = 34163 + (behindAppdata image).length := by
  have hlarge := h.large
  have hsize := h.size
  unfold behindAppdata
  rw [List.length_drop]
  omega

theorem implantSums_wellFormed (supported : Bool) (h : WellFormed image) (junk : Str) :
    ImplantIso.implantSums md5 (withAppdata (beforeAppdata image) (List.replicate 512 0x20)
        (behindAppdata image)) 32768 (isosize (fill junk (readAt image 32768 2048))) supported =
      .returned 0 none (implantedImage md5 image supported) := by
  have hlarge := h.large
  have hspace := volumeSpace_fill junk (show 32768 + 2048 ≤ image.length by omega)
  rw [isosize_eq (by rw [hspace]; exact h.sectors), hspace]
  exact implantSums_eq md5 (length_beforeAppdata (by omega)) (by rw [h.size]; exact hlarge) h.behind

theorem implantISOFile_found {stack : ImplantIso.Stack} {offset : ℕ} {buf : Str}
    (hfound : ImplantIso.parsepvd image stack.pvd = .found offset buf) (hoffset : offset < 2 ^ 31) :
    ImplantIso.implantISOFile md5 (some image) supported forceit stack =
      if ¬ forceit then
        if ∃ b ∈ fill stack.origAppdata (readAt image (offset + APPDATA_OFFSET) 512), b ≠ 0x20 then
          .returned (-1)
            (ascii "Application data has been used - not implanting md5sum!\n") image
        else ImplantIso.implantSums md5 image offset (isosize buf) supported
      else
        ImplantIso.implantSums md5 (writeAt image (offset + APPDATA_OFFSET)
          (List.replicate 512 0x20)) offset (isosize buf) supported := by
  have hint : Int.bmod offset (2 ^ 32) = offset := Int.bmod_eq_of_le (by omega) (by omega)
  rw [ImplantIso.implantISOFile, hfound]
  dsimp only
  rw [hint, if_neg (by omega), Int.toNat_natCast]

theorem parsepvd_found (h : WellFormed image) (junk : Str) :
    ImplantIso.parsepvd image junk = .found 32768 (fill junk (readAt image 32768 2048)) :=
  searchPvd_eq _ junk h.pvd

theorem blanks_written (h : WellFormed image) :
    writeAt image 33651 (List.replicate 512 0x20) =
      withAppdata (beforeAppdata image) (List.replicate 512 0x20) (behindAppdata image) := by
  have hlarge := h.large
  have hlength : (readAt image 33651 512).length = 512 := by
    unfold readAt
    rw [List.length_take, List.length_drop]
    omega
  rw [← writeAt_withAppdata _ (length_beforeAppdata (by omega))
    (List.length_replicate.trans hlength.symm), withAppdata_self]

theorem implantISOFile_force (supported : Bool) (h : WellFormed image)
    (stack : ImplantIso.Stack) :
    ImplantIso.implantISOFile md5 (some image) supported true stack =
      .returned 0 none (implantedImage md5 image supported) := by
  rw [implantISOFile_found md5 (parsepvd_found h _) (by decide), if_neg (by simp)]
  exact (congrArg (fun blanked => ImplantIso.implantSums md5 blanked 32768 _ supported)
    (blanks_written h)).trans
    (implantSums_wellFormed md5 supported h _)

/-- Without force the application data have to be blank already. -/
theorem implantISOFile_noForce (h : WellFormed image) {stack : ImplantIso.Stack}
    (himplant : ImplantIso.implantISOFile md5 (some image) supported false stack =
      .returned 0 errstr image') :
    image' = implantedImage md5 image supported := by
  have hlarge := h.large
  rw [implantISOFile_found md5 (parsepvd_found h _) (by decide), if_pos (by simp)] at himplant
  by_cases hdirty : ∃ b ∈ fill stack.origAppdata (readAt image (32768 + APPDATA_OFFSET) 512), b ≠ 0x20
  · rw [if_pos hdirty] at himplant
    cases himplant
  · rw [if_neg hdirty] at himplant
    have hblank : readAt image 33651 512 = List.replicate 512 0x20 := by
      rw [List.eq_replicate_iff]
      constructor
      · unfold readAt
        rw [List.length_take, List.length_drop]
        omega
      · intro b hb
        exact not_not.mp fun hne => hdirty ⟨b, List.mem_append_left _ hb, hne⟩
    have hself := withAppdata_self image
    rw [hblank] at hself
    have heq := implantSums_wellFormed md5 supported h stack.pvd
    rw [hself, himplant] at heq
    cases heq
    rfl

theorem implantISOFile_image (h : WellFormed image) {stack : ImplantIso.Stack}
    (himplant : ImplantIso.implantISOFile md5 (some image) supported forceit stack =
      .returned 0 errstr image') :
    image' = implantedImage md5 image supported := by
  cases forceit with
  | false => exact implantISOFile_noForce md5 h himplant
  | true =>
    rw [implantISOFile_force md5 supported h] at himplant
    cases himplant
    rfl

end

/-! ## The checker -/

section
variable {γ : Type} (md5 : Md5 γ) {image : Str} {supported : Bool}

theorem checkPvd_found {junk buf mediasum : Str} {offset : ℕ} {skipsectors fragmentcount : ℤ}
    {status : Option ℤ} {fragmentsums : Option Str}
    (hfound : searchPvd (fun _ _ => .notFound) image (16 * 2048) junk = .found offset buf)
    (hoffset : offset < 2 ^ 31)
    (hparse : CheckIso.parseAppData (readAt buf APPDATA_OFFSET 512) =
      some ⟨some mediasum, some skipsectors, status, fragmentsums, some fragmentcount⟩) :
    CheckIso.parsepvd image junk =
      some ⟨offset, isosize buf, mediasum, skipsectors, fragmentsums, fragmentcount⟩ := by
  have hint : Int.bmod offset (2 ^ 32) = offset := Int.bmod_eq_of_le (by omega) (by omega)
  rw [CheckIso.parsepvd, hfound]
  dsimp only
  rw [CheckIso.readDescriptor, hint, guard, if_pos (by omega), hparse]
  rfl

/-- What the checker finds out about an implanted image. -/
def descriptor (image : Str) : CheckIso.Descriptor :=
  let s := hashed md5 (beforeAppdata image) (behindAppdata image) (volumeSpace (image.drop 32768))
  ⟨32768, image.length, sumText (md5.final s.md5ctx), 15, some s.fragstr, 20⟩

theorem implantedImage_pvd (supported : Bool) (h : WellFormed image) :
    (implantedImage md5 image supported)[32768]? = some 1 := by
  have hlarge := h.large
  have hlen := length_beforeAppdata (by omega : 34163 ≤ image.length)
  unfold implantedImage withAppdata
  rw [List.append_assoc, List.getElem?_append_left (by omega)]
  unfold beforeAppdata
  rw [List.getElem?_take_of_lt (by omega)]
  exact h.pvd

theorem parsepvd_implantedImage (supported : Bool) (h : WellFormed image) (junk : Str) :
    CheckIso.parsepvd (implantedImage md5 image supported) junk = some (descriptor md5 image) := by
  have hlarge := h.large
  have hpre := length_beforeAppdata (by omega : 34163 ≤ image.length)
  have hsize : 21 * 32768 + 15 * 2048 ≤ volumeSpace (image.drop 32768) * 2048 := by
    rw [h.size]
    exact hlarge
  have happ := length_implanted md5 hpre hsize h.behind supported
  have hfound := searchPvd_eq (fun _ _ => .notFound) junk
    (implantedImage_pvd md5 supported h)
  have hspace : volumeSpace (fill junk (readAt (implantedImage md5 image supported) 32768 2048)) =
      volumeSpace (image.drop 32768) := by
    have hlen : 32768 + 2048 ≤ (implantedImage md5 image supported).length := by
      unfold implantedImage withAppdata
      rw [List.length_append, List.length_append, happ, hpre, length_behindAppdata]
      omega
    calc
      _ = volumeSpace ((implantedImage md5 image supported).drop 32768) := volumeSpace_fill junk hlen
      _ = volumeSpace ((beforeAppdata image).drop 32768) := volumeSpace_withAppdata hpre
      _ = volumeSpace ((withAppdata (beforeAppdata image) (readAt image 33651 512)
          (behindAppdata image)).drop 32768) := (volumeSpace_withAppdata hpre).symm
      _ = volumeSpace (image.drop 32768) := by rw [withAppdata_self]
  have happdata : readAt (fill junk (readAt (implantedImage md5 image supported) 32768 2048)) 883 512 =
      implanted md5 (beforeAppdata image) (behindAppdata image) (volumeSpace (image.drop 32768))
        supported := readAt_fill hpre happ
  have hparse := IsoAppData.parseAppData_fields (length_sumText (md5.final (hashed md5
    (beforeAppdata image) (behindAppdata image) (volumeSpace (image.drop 32768))).md5ctx))
    (hashed_complete md5 hpre hsize h.behind).2 supported
  have hpvd := checkPvd_found hfound (by decide) ((congrArg _ happdata).trans hparse)
  rw [hpvd, isosize_eq (by rw [hspace]; exact h.sectors), hspace, h.size]
  rfl

theorem mediaCheckFile_passed {image : Str} {cb : Option (ℤ → ℤ → ℤ)} {stack : CheckIso.Stack}
    {d : CheckIso.Descriptor} {c : CheckIso.Check γ} {limit apoff : ℤ} {fragmentsums : Str}
    (hpvd : CheckIso.parsepvd image stack.pvd = some d)
    (hlimit : d.limit = limit)
    (hapoff : d.offset + (APPDATA_OFFSET : ℕ) = apoff) (hsums : d.fragmentsums = some fragmentsums)
    (hloop : ReadLoop.readLoop bufsize image limit
      (CheckIso.checkBuffer md5 apoff limit fragmentsums d.fragmentcount cb) 0
        ⟨md5.init, 0, stack.thisfragsum, []⟩ = .ok c)
    (hsum : cString d.mediasum = sumText (md5.final c.md5ctx)) :
    CheckIso.mediaCheckFile md5 (some image) cb stack =
      .returned CheckIso.ISOMD5SUM_CHECK_PASSED c.matched := by
  have hcheck : CheckIso.checkmd5sum md5 image cb stack =
      .returned CheckIso.ISOMD5SUM_CHECK_PASSED c.matched := by
    rw [CheckIso.checkmd5sum, hpvd]
    dsimp only
    rw [hlimit, hapoff, hsums, Option.getD_some, hloop]
    dsimp only
    rw [if_neg (not_not_intro hsum)]
  rw [CheckIso.mediaCheckFile, hpvd]
  exact hcheck

/-- What is hashed of an image: all but the sectors at the end. -/
def hashedSize (image : Str) : ℕ := image.length - 15 * 2048

/-- The sums stored are those of the image with blanks as its application data. Image, flags, what
the buffers hold at first, and the callback are arbitrary, as long as the callback does not ask for
an end. -/
theorem mediaCheckFile_implanted {image' : Str} {errstr : Option Str} {supported forceit : Bool}
    {stack : ImplantIso.Stack} (h : WellFormed image)
    (himplant : ImplantIso.implantISOFile md5 (some image) supported forceit stack =
      .returned 0 errstr image')
    (cb : Option (ℤ → ℤ → ℤ)) (hcb : ∀ f ∈ cb, ∀ offset total, f offset total = 0)
    (checkStack : CheckIso.Stack) :
    ∃ fragmentsums, fragmentsums.length = 60 ∧
      (∃ d, CheckIso.parsepvd image' checkStack.pvd = some d ∧
        d.mediasum = sumText (md5.final (hashBuffers md5
          (writeAt image 33651 (List.replicate 512 0x20)) (hashedSize image)
            ((hashedSize image + 32767) / 32768))) ∧
        d.fragmentsums = some fragmentsums) ∧
      SumsOf md5 (writeAt image 33651 (List.replicate 512 0x20)) (hashedSize image)
        fragmentsums 20 ∧
      CheckIso.mediaCheckFile md5 (some image') cb checkStack =
        .returned CheckIso.ISOMD5SUM_CHECK_PASSED (storedFragments fragmentsums 20) := by
  have hlarge := h.large
  have hbig : 21 * 32768 ≤ volumeSpace (image.drop 32768) * 2048 - 15 * 2048 := by
    rw [h.size]
    omega
  have hlimit : (image.length : ℤ) - Int.bmod (15 * 2048) (2 ^ 32) =
      ((volumeSpace (image.drop 32768) * 2048 - 15 * 2048 : ℕ) : ℤ) := by
    rw [h.size, show Int.bmod (15 * 2048) (2 ^ 32) = 15 * 2048 by decide]
    omega
  have hmax : volumeSpace (image.drop 32768) * 2048 - 15 * 2048 < 2 ^ 42 := by
    have hsectors := h.sectors
    omega
  have hbehind := h.behind
  have hpost : volumeSpace (image.drop 32768) * 2048 - 15 * 2048 ≤
      34163 + (behindAppdata image).length := by omega
  have hpre := length_beforeAppdata (by omega : 34163 ≤ image.length)
  have hsize : 21 * 32768 + 15 * 2048 ≤ volumeSpace (image.drop 32768) * 2048 := by omega
  have happ := length_implanted md5 hpre hsize hbehind supported
  obtain ⟨h20, h60⟩ := hashed_complete md5 hpre hsize hbehind
  have hsummed := hashed_summed md5 hpre hsize hbehind
  rw [h.size, ← blanks_written h] at hsummed
  obtain ⟨n, hn, hsums⟩ := hsummed.sums
  have htwenty : n = 20 := Int.ofNat.inj (hn.symm.trans h20)
  rw [htwenty] at hsums
  have hpvd := parsepvd_implantedImage md5 supported h checkStack.pvd
  rw [implantISOFile_image md5 h himplant]
  refine ⟨_, h60, ⟨_, hpvd, congrArg (fun ctx => sumText (md5.final ctx)) hsummed.md5ctx, rfl⟩,
    hsums, ?_⟩
  have hstart : Agrees (hashed md5 (beforeAppdata image) (behindAppdata image)
      (volumeSpace (image.drop 32768))).fragstr ⟨md5.init, 0, []⟩
      (⟨md5.init, 0, checkStack.thisfragsum, []⟩ : CheckIso.Check γ) :=
    ⟨rfl, rfl, fun hne => absurd rfl hne, 0, rfl, rfl⟩
  obtain ⟨c, hloop, hc⟩ := checker_follows hpre happ hbig hmax hpost hcb h60
    (writerRun_sums md5 _ _) (invariant_start (by omega)) hstart
  obtain ⟨n, hn, hmatched⟩ := hc.matched
  have hcount : n = 20 := Int.ofNat.inj (hn.symm.trans h20)
  rw [hcount] at hmatched
  apply (mediaCheckFile_passed md5 hpvd hlimit rfl rfl hloop ?_).trans
  · exact congrArg _ hmatched
  rw [hc.md5ctx]
  exact cString_self (zero_notMem_sumText _)

end

/-! ## The smallest image -/

/-- A primary volume descriptor up to the number of sectors. -/
def smallestPvd : Str := 1 :: List.replicate 83 0 ++ [0, 0, 0x01, 0x5f]

def smallestImage : Str := List.replicate 32768 0 ++ (smallestPvd ++ List.replicate 685992 0)

theorem length_smallestPvd : smallestPvd.length = 88 := by decide

theorem drop_smallestImage :
    smallestImage.drop 32768 = smallestPvd ++ List.replicate 685992 0 :=
  List.drop_left' List.length_replicate

theorem volumeSpace_smallestImage : volumeSpace (smallestImage.drop 32768) = 351 := by
  have hbyte : ∀ i < 88, (smallestPvd ++ List.replicate 685992 (0 : UInt8)).getD i 0 =
      smallestPvd.getD i 0 := by
    intro i hi
    exact List.getD_append _ _ _ _ (hi.trans_eq length_smallestPvd.symm)
  rw [drop_smallestImage]
  unfold volumeSpace
  rw [hbyte _ (by decide), hbyte _ (by decide), hbyte _ (by decide), hbyte _ (by decide)]
  decide

theorem length_smallestImage : smallestImage.length = 718848 := by
  unfold smallestImage
  rw [List.length_append, List.length_append, length_smallestPvd, List.length_replicate,
    List.length_replicate]

theorem wellFormed_smallestImage : WellFormed smallestImage where
  pvd := by
    have h := congrArg List.head? drop_smallestImage
    rw [List.head?_drop] at h
    exact h
  size := by rw [volumeSpace_smallestImage, length_smallestImage]
  large := by rw [length_smallestImage]
  sectors := by
    rw [volumeSpace_smallestImage]
    decide

theorem mediaCheckFile_implanted_smallest :
    ∃ image', ImplantIso.implantISOFile Md5.md5 (some smallestImage) true true ⟨[], []⟩ =
        .returned 0 none image' ∧
      ∃ fragmentsums, fragmentsums.length = 60 ∧
        (∃ d, CheckIso.parsepvd image' [] = some d ∧
          d.mediasum = sumText (Md5.md5.final (hashBuffers Md5.md5
            (writeAt smallestImage 33651 (List.replicate 512 0x20)) (hashedSize smallestImage)
              ((hashedSize smallestImage + 32767) / 32768))) ∧
          d.fragmentsums = some fragmentsums) ∧
        SumsOf Md5.md5 (writeAt smallestImage 33651 (List.replicate 512 0x20))
          (hashedSize smallestImage) fragmentsums 20 ∧
        CheckIso.mediaCheckFile Md5.md5 (some image') none ⟨[], [], []⟩ =
          .returned CheckIso.ISOMD5SUM_CHECK_PASSED (storedFragments fragmentsums 20) := by
  have himplant := implantISOFile_force Md5.md5 true wellFormed_smallestImage ⟨[], []⟩
  exact ⟨_, himplant, mediaCheckFile_implanted Md5.md5 wellFormed_smallestImage himplant none nofun
    ⟨[], [], []⟩⟩

end Comodoo.IsoImplantCheck
