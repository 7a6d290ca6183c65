import Comodoo.CheckAccesses

set_option autoImplicit false

/-!
# What short reads do to the check of an ISO image

The blanks are counted from the end of the buffer in which the application data begin, and sums of
fragments are compared at the ends of buffers. So what is hashed and compared depends on how the
reads are cut.
-/
namespace Comodoo.CheckShortReads
open CString IsoFragments CheckReads CheckAccesses
open IsoImage hiding searchPvd
open CheckIso hiding parsepvd checkmd5sum mediaCheckFile

/-- The digest of a hash depends on the bytes, not on the pieces they come in. -/
structure Incremental {γ : Type} (md5 : Md5 γ) (digest : Str → Vector UInt8 16) : Prop where
  final : ∀ pieces : List Str, (∀ piece ∈ pieces, piece.length ≤ bufsize) →
    md5.final (pieces.foldl md5.update md5.init) = digest pieces.flatten

theorem incremental_md5 : Incremental Md5.md5 fun data =>
    Md5.md5.final ((data.map fun b => [b]).foldl Md5.md5.update Md5.md5.init) where
  final pieces hpieces := by
    refine Md5.md5_pieces (fun piece h => ?_) (fun piece h => ?_) ?_
    · exact (hpieces piece h).trans_lt (by decide)
    · obtain ⟨b, -, rfl⟩ := List.mem_map.mp h
      exact (by decide : 1 < 2 ^ 32)
    · induction pieces.flatten with
      | nil => rfl
      | cons b data ih => rw [List.map_cons, List.flatten_cons, ← ih, List.singleton_append]

abbrev apoff (d : Descriptor) : ℤ := d.offset + APPDATA_OFFSET

/-- Bytes from an offset on, those of the application data made blank. -/
def blanked (apoff : ℤ) (offset : ℕ) (data : Str) : Str :=
  data.mapIdx fun i b =>
    if apoff ≤ (offset + i : ℕ) ∧ ((offset + i : ℕ) : ℤ) < apoff + 512 then 0x20 else b

/-- The buffers at which the number of the fragment changes: the number, and where they end. -/
def marks (limit fragmentcount : ℤ) : ℤ → List (ℕ × Str) → List (ℤ × ℕ)
  | _, [] => []
  | previous_fragment, read :: rs =>
    let current_fragment := currentFragment limit fragmentcount read.1
    if fragmentcount ≠ 0 ∧ current_fragment ≠ previous_fragment then
      (current_fragment, read.1 + read.2.length) ::
        marks limit fragmentcount current_fragment rs
    else marks limit fragmentcount previous_fragment rs

def marksOf (cut : Cut) (image : Str) (d : Descriptor) : List (ℤ × ℕ) :=
  marks d.limit d.fragmentcount 0 (reads cut image d.limit 0)

/-- The sums are stored for buffers that are full. -/
def storedMarks (image : Str) (d : Descriptor) : List (ℤ × ℕ) :=
  if d.fragmentsums.isSome then marksOf completeReads.data image d else []

/-- The first bytes of the image, as they were before the sums were written. -/
def original (image : Str) (d : Descriptor) (size : ℕ) : Str :=
  blanked (apoff d) 0 (image.take size)

def storedSum (fragmentsums : Str) (d : Descriptor) (fragment : ℤ) : Str :=
  readAt fragmentsums (sumStart d.fragmentcount fragment).toNat (sumDigits d.fragmentcount)

def SumMatches (digest : Str → Vector UInt8 16) (d : Descriptor) (fragmentsums : Str)
    (fragment : ℤ) (data : Str) : Prop :=
  storedSum fragmentsums d fragment = fragmentText (digest data) (sumDigits d.fragmentcount)

/-- The sum of the image is the one that is stored, and so are those of its fragments, if any. -/
structure Good (digest : Str → Vector UInt8 16) (image : Str) (d : Descriptor) : Prop where
  sum : cString d.mediasum = sumText (digest (original image d d.limit.toNat))
  fragments : ∀ fragmentsums ∈ d.fragmentsums, ∀ mark ∈ storedMarks image d,
    SumMatches digest d fragmentsums mark.1 (original image d mark.2)

/-- Whatever the hash, a value is returned, and it says whether the image is good. -/
def Right (cuts : Cuts) (image : Str) (stack : Stack) : Prop :=
  ∀ {γ : Type} (md5 : Md5 γ) (digest : Str → Vector UInt8 16), Incremental md5 digest →
    ∀ cb : Option (ℤ → ℤ → ℤ), (∀ f ∈ cb, ∀ offset total, f offset total = 0) →
      ∃ rc matched, mediaCheckFile md5 cuts (some image) cb stack = .returned rc matched ∧
        (rc = ISOMD5SUM_CHECK_PASSED ↔
          ∃ d, CheckIso.parsepvd image stack.pvd = some d ∧ Good digest image d)

def Begins (apoff : ℤ) (read : ℕ × Str) : Prop :=
  read.1 < apoff ∧ apoff ≤ ((read.1 + read.2.length : ℕ) : ℤ)

/-- The buffer goes on behind the beginning of the application data for at least as long as it goes
on before. -/
def Room (apoff : ℤ) (read : ℕ × Str) : Prop :=
  Begins apoff read → 2 * (apoff - read.1) ≤ read.2.length

/-- What the end of the buffer has of the application data is blank anyway, for as many bytes as
there are in front of them. -/
def Blank (apoff : ℤ) (read : ℕ × Str) : Prop :=
  Begins apoff read → ∀ (i : ℕ) b, read.2[i]? = some b →
    read.2.length - (apoff - read.1) ≤ i → ((read.1 + i : ℕ) : ℤ) < apoff + 512 → b = 0x20

/-- The NUL behind a sum is already there. -/
def Terminated (d : Descriptor) (thisfragsum : Str) : Prop :=
  ∀ b, (thisfragsum.drop (sumDigits d.fragmentcount)).head? = some b → b = 0

/-- A sum is one of those, for the same bytes, or it begins the sum of the image. -/
def Demanded (image : Str) (d : Descriptor) (fragmentsums : Str) (ms : List (ℤ × ℕ))
    (mark : ℤ × ℕ) : Prop :=
  (∃ other ∈ ms, original image d other.2 = original image d mark.2 ∧
      storedSum fragmentsums d other.1 = storedSum fragmentsums d mark.1) ∨
    (original image d mark.2 = original image d d.limit.toNat ∧
      ∃ digest, cString d.mediasum = sumText digest ∧
        storedSum fragmentsums d mark.1 = fragmentText digest (sumDigits d.fragmentcount))

/-- Where the program finds the sums of the fragments. -/
abbrev sumsOf (stack : Stack) (d : Descriptor) : Str :=
  d.fragmentsums.getD stack.fragmentsums

/-- The sums are compared inside of their arrays, with a NUL behind the first. As far as they have
digits, they are compared for the bytes that they are stored for, and for no others. -/
structure FragmentsSound (cut : Cut) (image : Str) (stack : Stack) (d : Descriptor) : Prop where
  inside : ∀ mark ∈ marksOf cut image d, SumsInside d.fragmentcount mark.1
  stored : marksOf cut image d ≠ [] → 60 ≤ (sumsOf stack d).length
  first : ∀ mark ∈ (marksOf cut image d).head?, sumStart d.fragmentcount mark.1 ≠ 0 →
    Terminated d stack.thisfragsum
  compared : sumDigits d.fragmentcount ≠ 0 → ∀ mark ∈ marksOf cut image d,
    Demanded image d (sumsOf stack d) (storedMarks image d) mark
  complete : sumDigits d.fragmentcount ≠ 0 → ∀ mark ∈ storedMarks image d,
    Demanded image d (sumsOf stack d) (marksOf cut image d) mark

def Passable (d : Descriptor) : Prop := ∃ digest, cString d.mediasum = sumText digest

structure Found (cuts : Cuts) (image junk : Str) : Prop where
  media : parsepvd cuts.media image junk = CheckIso.parsepvd image junk
  check : parsepvd cuts.check image junk = CheckIso.parsepvd image junk

/-- No buffer ends too close to where the application data begin. When the stored sum is none,
nothing passes anyway. -/
structure BlanksSound (cut : Cut) (image : Str) (d : Descriptor) : Prop where
  room : ∀ read ∈ reads cut image d.limit 0, Room (apoff d) read
  blank : Passable d → ∀ read ∈ reads cut image d.limit 0, Blank (apoff d) read

structure Sound (cuts : Cuts) (image : Str) (stack : Stack) : Prop where
  found : Found cuts image stack.pvd
  blanks : ∀ d, CheckIso.parsepvd image stack.pvd = some d → BlanksSound cuts.data image d
  fragments : ∀ d, CheckIso.parsepvd image stack.pvd = some d →
    FragmentsSound cuts.data image stack d

/-! ## The blanks -/

section
variable {start stop apoff : ℤ} {offset : ℕ} {buf data : Str} {read : ℕ × Str}

theorem length_blanked (apoff : ℤ) (offset : ℕ) (data : Str) :
    (blanked apoff offset data).length = data.length := List.length_mapIdx

theorem blanked_append (apoff : ℤ) (offset : ℕ) (a b : Str) :
    blanked apoff offset (a ++ b) =
      blanked apoff offset a ++ blanked apoff (offset + a.length) b := by
  unfold blanked
  rw [List.mapIdx_append]
  congr 2
  funext i c
  rw [show offset + (i + a.length) = offset + a.length + i by omega]

theorem writeAt_blanks {n k : ℕ} (h : n + k ≤ buf.length) :
    writeAt buf n (List.replicate k 0x20) =
      buf.mapIdx fun i b => if n ≤ i ∧ i < n + k then 0x20 else b := by
  have hlen : (buf.take n).length = n := by
    rw [List.length_take]
    omega
  have hblanks : (List.replicate k (0x20 : UInt8)).length = k := List.length_replicate
  refine List.ext_getElem? fun i => ?_
  rw [List.getElem?_mapIdx, writeAt, show n - buf.length = 0 by omega, List.replicate_zero,
    List.append_nil, List.append_assoc, hblanks]
  rcases lt_or_ge i n with hi | hi
  · have hout : ¬ (n ≤ i ∧ i < n + k) := by omega
    rw [List.getElem?_append_left (by omega), List.getElem?_take_of_lt hi]
    simp [hout]
  rw [List.getElem?_append_right (by omega), hlen]
  rcases lt_or_ge i (n + k) with hk | hk
  · rw [List.getElem?_append_left (by omega), List.getElem?_replicate_of_lt (by omega),
      List.getElem?_eq_getElem (by omega)]
    simp [hi, hk]
  · have hout : ¬ (n ≤ i ∧ i < n + k) := by omega
    rw [List.getElem?_append_right (by omega), hblanks, List.getElem?_drop,
      show n + k + (i - n - k) = i by omega]
    simp [hout]

theorem blank_eq (hstart : 0 ≤ start) (hle : start ≤ stop) (hstop : stop ≤ buf.length) :
    blank buf start stop =
      some (buf.mapIdx fun i b => if start ≤ i ∧ (i : ℤ) < stop then 0x20 else b) := by
  obtain ⟨n, rfl⟩ := Int.eq_ofNat_of_zero_le hstart
  obtain ⟨k, hk⟩ := Int.eq_ofNat_of_zero_le (show 0 ≤ stop - n by omega)
  obtain rfl : stop = ((n + k : ℕ) : ℤ) := by omega
  rw [blank, if_neg (by omega), Int.toNat_natCast, show ((n + k : ℕ) : ℤ) - (n : ℤ) = k by omega,
    Int.toNat_natCast, writeAt_blanks (by omega)]
  simp only [Int.ofNat_le, Int.ofNat_lt]

theorem blankAppdata_other (hbegins : ¬ Begins apoff read) :
    blankAppdata apoff read.1 read.2 = some (blanked apoff read.1 read.2) := by
  unfold Begins at hbegins
  unfold blankAppdata blanked
  dsimp only
  rw [if_neg (by omega)]
  split
  · rw [blank_eq (by omega) (by omega) (by omega), Option.some.injEq,
      List.mapIdx_eq_mapIdx_iff]
    intro i hi
    rw [if_pos (by omega), if_pos (by omega)]
  split
  · rw [blank_eq (by omega) (by omega) (by omega), Option.some.injEq,
      List.mapIdx_eq_mapIdx_iff]
    intro i hi
    congr 1
    rw [eq_iff_iff]
    omega
  · rw [Option.some.injEq, eq_comm, List.mapIdx_eq_iff]
    intro i
    cases hb : read.2[i]? with
    | none => rfl
    | some b =>
      obtain ⟨hi, -⟩ := List.getElem?_eq_some_iff.mp hb
      rw [Option.map_some, if_neg (by omega)]

theorem blankAppdata_fault (hbegins : Begins apoff read)
    (hroom : ¬ 2 * (apoff - read.1) ≤ read.2.length) :
    blankAppdata apoff read.1 read.2 = none := by
  obtain ⟨hlt, hle⟩ := hbegins
  unfold blankAppdata
  dsimp only
  rw [if_pos (by omega), blank, if_pos (by omega)]

theorem blankAppdata_begins (hbegins : Begins apoff read)
    (hroom : 2 * (apoff - read.1) ≤ read.2.length) :
    blankAppdata apoff read.1 read.2 = some (read.2.mapIdx fun i b =>
      if apoff - read.1 ≤ i ∧ (i : ℤ) < min (apoff - read.1 + min (read.2.length : ℤ) 512)
        (read.1 + read.2.length - apoff) then 0x20 else b) := by
  obtain ⟨hlt, hle⟩ := hbegins
  unfold blankAppdata
  dsimp only
  rw [if_pos (by omega), blank_eq (by omega) (by omega) (by omega)]

theorem blankAppdata_room (hroom : Room apoff read) :
    ∃ data, blankAppdata apoff read.1 read.2 = some data ∧ data.length = read.2.length := by
  by_cases hbegins : Begins apoff read
  · exact ⟨_, blankAppdata_begins hbegins (hroom hbegins), List.length_mapIdx⟩
  · exact ⟨_, blankAppdata_other hbegins, length_blanked _ _ _⟩

theorem blankAppdata_noRoom (hroom : ¬ Room apoff read) :
    blankAppdata apoff read.1 read.2 = none := by
  obtain ⟨hbegins, hshort⟩ := Classical.not_imp.mp hroom
  exact blankAppdata_fault hbegins hshort

theorem blankAppdata_right_iff (hroom : Room apoff read) :
    blankAppdata apoff read.1 read.2 = some (blanked apoff read.1 read.2) ↔
      Blank apoff read := by
  by_cases hbegins : Begins apoff read
  · have hhalf := hroom hbegins
    have hlt := hbegins.1
    have hle := hbegins.2
    rw [blankAppdata_begins hbegins hhalf, Option.some.injEq, blanked, List.mapIdx_eq_mapIdx_iff]
    constructor
    · intro h _ i b hb hend hin
      obtain ⟨hi, rfl⟩ := List.getElem?_eq_some_iff.mp hb
      have hsame := h i hi
      rwa [if_neg (by omega), if_pos (by omega)] at hsame
    · intro h i hi
      by_cases hend : read.2.length - (apoff - read.1) ≤ i ∧ ((read.1 + i : ℕ) : ℤ) < apoff + 512
      · have hblank := h hbegins i read.2[i] (List.getElem?_eq_getElem hi) hend.1 hend.2
        rw [if_pos (show apoff ≤ ((read.1 + i : ℕ) : ℤ) ∧ _ from ⟨by omega, hend.2⟩), hblank,
          ite_self]
      · congr 1
        rw [eq_iff_iff]
        omega
  · exact iff_of_true (blankAppdata_other hbegins) fun h => absurd h hbegins

end

/-! ## A run -/

def Hashed {γ : Type} (md5 : Md5 γ) (c : Check γ) (data : Str) : Prop :=
  ∃ pieces : List Str, (∀ piece ∈ pieces, piece.length ≤ bufsize) ∧
    c.md5ctx = pieces.foldl md5.update md5.init ∧ pieces.flatten = data

/-- The comparisons of a run in which `f` gives what is hashed of a buffer: the numbers of the
fragments, and what has been hashed by then. -/
def tests (d : Descriptor) (f : ℕ × Str → Str) : ℤ → Str → List (ℕ × Str) → List (ℤ × Str)
  | _, _, [] => []
  | previous_fragment, data, read :: rs =>
    let current_fragment := currentFragment d.limit d.fragmentcount read.1
    if d.fragmentcount ≠ 0 ∧ current_fragment ≠ previous_fragment then
      (current_fragment, data ++ f read) :: tests d f current_fragment (data ++ f read) rs
    else tests d f previous_fragment (data ++ f read) rs

/-- The comparisons to come compare what is stored. -/
structure Ready (d : Descriptor) (fragmentsums : Str) (fragments : List ℤ) (thisfragsum : Str) :
    Prop where
  inside : ∀ fragment ∈ fragments, SumsInside d.fragmentcount fragment
  stored : fragments ≠ [] → 60 ≤ fragmentsums.length
  first : ∀ fragment ∈ fragments.head?, sumStart d.fragmentcount fragment ≠ 0 →
    Terminated d thisfragsum

section
variable {γ : Type} {md5 : Md5 γ} {digest : Str → Vector UInt8 16} {d : Descriptor}
  {fragmentsums data piece : Str} {cb : Option (ℤ → ℤ → ℤ)} {c c' : Check γ} {read : ℕ × Str}
  {rs : List (ℕ × Str)} {f : ℕ × Str → Str}

theorem hashed_start (md5 : Md5 γ) (stack : Stack) : Hashed md5 (start md5 stack) [] :=
  ⟨[], nofun, rfl, rfl⟩

theorem Hashed.update (h : Hashed md5 c data) (hpiece : piece.length ≤ bufsize)
    (hc : c'.md5ctx = md5.update c.md5ctx piece) : Hashed md5 c' (data ++ piece) := by
  obtain ⟨pieces, hpieces, hctx, rfl⟩ := h
  refine ⟨pieces ++ [piece], fun p hp => ?_, ?_, ?_⟩
  · rcases List.mem_append.mp hp with hp | hp
    · exact hpieces p hp
    · rw [List.mem_singleton.mp hp]
      exact hpiece
  · rw [hc, hctx, List.foldl_append]
    rfl
  · rw [List.flatten_append, List.flatten_singleton]

theorem Hashed.final (h : Hashed md5 c data) (hinc : Incremental md5 digest) :
    md5.final c.md5ctx = digest data := by
  obtain ⟨pieces, hpieces, hctx, rfl⟩ := h
  rw [hctx, hinc.final pieces hpieces]

theorem pass_same (hblank : blankAppdata (apoff d) read.1 read.2 = some piece)
    (hcb : ∀ f ∈ cb, ∀ offset total, f offset total = 0)
    (hsame : ¬ (d.fragmentcount ≠ 0 ∧
      currentFragment d.limit d.fragmentcount read.1 ≠ c.previous_fragment)) :
    pass md5 d fragmentsums cb c read = .ok { c with md5ctx := md5.update c.md5ctx piece } := by
  rw [CheckReads.pass, checkBuffer_eq hblank hcb, if_neg hsame]

theorem pass_new (hinc : Incremental md5 digest) (hc : Hashed md5 c data)
    (hblank : blankAppdata (apoff d) read.1 read.2 = some piece) (hpiece : piece.length ≤ bufsize)
    (hcb : ∀ f ∈ cb, ∀ offset total, f offset total = 0)
    (hnew : d.fragmentcount ≠ 0 ∧
      currentFragment d.limit d.fragmentcount read.1 ≠ c.previous_fragment)
    {rest : List ℤ} (hready : Ready d fragmentsums
      (currentFragment d.limit d.fragmentcount read.1 :: rest) c.thisfragsum) :
    (SumMatches digest d fragmentsums (currentFragment d.limit d.fragmentcount read.1)
        (data ++ piece) →
      ∃ c', pass md5 d fragmentsums cb c read = .ok c' ∧ Hashed md5 c' (data ++ piece) ∧
        c'.previous_fragment = currentFragment d.limit d.fragmentcount read.1 ∧
        Terminated d c'.thisfragsum) ∧
      (¬ SumMatches digest d fragmentsums (currentFragment d.limit d.fragmentcount read.1)
          (data ++ piece) →
        pass md5 d fragmentsums cb c read = .error (.rc ISOMD5SUM_CHECK_FAILED)) := by
  have hhashed : Hashed md5 { c with md5ctx := md5.update c.md5ctx piece } (data ++ piece) :=
    hc.update hpiece rfl
  obtain ⟨hdigits, hstart, hfit⟩ := sumsInside_iff.mp (hready.inside _ List.mem_cons_self)
  obtain ⟨j, hj⟩ := Int.eq_ofNat_of_zero_le hstart
  rw [hj] at hfit
  obtain ⟨thisfragsum, hnul, hcompare⟩ := compareFragment_eq md5
    { c with md5ctx := md5.update c.md5ctx piece } rfl hdigits hj (by omega)
    (hready.stored (List.cons_ne_nil _ _)) fun hne =>
      hready.first _ rfl (by rw [hj]; exact_mod_cast hne)
  have hstored : storedSum fragmentsums d (currentFragment d.limit d.fragmentcount read.1) =
      readAt fragmentsums j (sumDigits d.fragmentcount) := by
    rw [storedSum, hj, Int.toNat_natCast]
  rw [CheckReads.pass, checkBuffer_eq hblank hcb, if_pos hnew, hcompare, SumMatches, hstored,
    ← hhashed.final hinc]
  refine ⟨fun hmatch => ?_, fun hmatch => if_neg hmatch⟩
  rw [if_pos hmatch]
  exact ⟨_, rfl, hhashed, rfl, hnul⟩

/-- Either all comparisons succeed, and everything is hashed, or the first that does not ends the
run. -/
theorem run_outcome (hinc : Incremental md5 digest)
    (hcb : ∀ f ∈ cb, ∀ offset total, f offset total = 0)
    (hrs : ∀ read ∈ rs, blankAppdata (apoff d) read.1 read.2 = some (f read) ∧
      (f read).length ≤ bufsize) (hc : Hashed md5 c data)
    (hready : Ready d fragmentsums ((tests d f c.previous_fragment data rs).map Prod.fst)
      c.thisfragsum) :
    (∃ c', rs.foldlM (pass md5 d fragmentsums cb) c = .ok c' ∧
        Hashed md5 c' (data ++ (rs.map f).flatten) ∧
        ∀ test ∈ tests d f c.previous_fragment data rs,
          SumMatches digest d fragmentsums test.1 test.2) ∨
      (rs.foldlM (pass md5 d fragmentsums cb) c = .error (.rc ISOMD5SUM_CHECK_FAILED) ∧
        ∃ test ∈ tests d f c.previous_fragment data rs,
          ¬ SumMatches digest d fragmentsums test.1 test.2) := by
  induction rs generalizing c data with
  | nil =>
    refine Or.inl ⟨c, rfl, ?_, nofun⟩
    rw [List.map_nil, List.flatten_nil, List.append_nil]
    exact hc
  | cons read rs ih =>
    obtain ⟨⟨hblank, hpiece⟩, hrest⟩ := List.forall_mem_cons.mp hrs
    rw [List.map_cons, List.flatten_cons, ← List.append_assoc, List.foldlM_cons]
    by_cases hnew : d.fragmentcount ≠ 0 ∧
        currentFragment d.limit d.fragmentcount read.1 ≠ c.previous_fragment
    · have htests : tests d f c.previous_fragment data (read :: rs) =
          (currentFragment d.limit d.fragmentcount read.1, data ++ f read) ::
            tests d f (currentFragment d.limit d.fragmentcount read.1) (data ++ f read) rs :=
        if_pos hnew
      rw [htests] at hready ⊢
      rw [List.map_cons] at hready
      obtain ⟨hmatches, hfails⟩ := pass_new hinc hc hblank hpiece hcb hnew hready
      by_cases hmatch : SumMatches digest d fragmentsums
          (currentFragment d.limit d.fragmentcount read.1) (data ++ f read)
      · obtain ⟨c', hpass, hc', hprevious, hnul⟩ := hmatches hmatch
        have hready' : Ready d fragmentsums
            ((tests d f c'.previous_fragment (data ++ f read) rs).map Prod.fst)
            c'.thisfragsum := by
          rw [hprevious]
          exact ⟨fun fragment h => hready.inside _ (List.mem_cons_of_mem _ h),
            fun _ => hready.stored (List.cons_ne_nil _ _), fun _ _ _ => hnul⟩
        rw [hpass]
        rcases ih hrest hc' hready' with ⟨last, hlast, hhashed, hall⟩ | ⟨hlast, test, htest, hno⟩
        · rw [hprevious] at hall
          exact Or.inl ⟨last, hlast, hhashed, List.forall_mem_cons.mpr ⟨hmatch, hall⟩⟩
        · rw [hprevious] at htest
          exact Or.inr ⟨hlast, test, List.mem_cons_of_mem _ htest, hno⟩
      · rw [hfails hmatch]
        exact Or.inr ⟨rfl, _, List.mem_cons_self, hmatch⟩
    · have htests : tests d f c.previous_fragment data (read :: rs) =
          tests d f c.previous_fragment (data ++ f read) rs := if_neg hnew
      rw [htests] at hready ⊢
      rw [pass_same hblank hcb hnew]
      exact ih hrest (hc.update hpiece rfl) hready

end

/-! ## What is compared and what is stored -/

section
variable {cut : Cut} {image : Str} {d : Descriptor} {f g : ℕ × Str → Str}

theorem tests_fragments (f : ℕ × Str → Str) (previous_fragment : ℤ) (data : Str)
    (rs : List (ℕ × Str)) :
    (tests d f previous_fragment data rs).map Prod.fst =
      (marks d.limit d.fragmentcount previous_fragment rs).map Prod.fst := by
  induction rs generalizing previous_fragment data with
  | nil => rfl
  | cons read rs ih =>
    unfold tests marks
    dsimp only
    split
    · rw [List.map_cons, List.map_cons, ih]
    · rw [ih]

theorem original_read {limit : ℤ} {offset : ℕ} {buf : Str}
    (hread : IsRead image limit (offset, buf)) :
    original image d (offset + buf.length) =
      original image d offset ++ blanked (apoff d) offset buf := by
  have hinside := hread.inside
  have htake : (image.take offset).length = offset := by
    rw [List.length_take]
    dsimp only at hinside
    omega
  have heq : (image.drop offset).take buf.length = buf := hread.eq.symm
  rw [original, List.take_add, heq, blanked_append, htake, Nat.zero_add]
  rfl

/-- When the blanks are right, what has been hashed at a comparison is the original image up to the
end of the buffer. -/
theorem tests_original (offset : ℕ) (previous_fragment : ℤ) :
    tests d (fun read => blanked (apoff d) read.1 read.2) previous_fragment
        (original image d offset) (reads cut image d.limit offset) =
      (marks d.limit d.fragmentcount previous_fragment (reads cut image d.limit offset)).map
        fun mark => (mark.1, original image d mark.2) := by
  refine reads_induction (P := fun offset rs => ∀ previous_fragment,
    tests d (fun read => blanked (apoff d) read.1 read.2) previous_fragment
        (original image d offset) rs =
      (marks d.limit d.fragmentcount previous_fragment rs).map
        fun mark => (mark.1, original image d mark.2)) (fun _ _ _ => rfl) ?_ offset
    previous_fragment
  intro offset buf rest hread ih previous_fragment
  unfold tests marks
  dsimp only
  rw [← original_read hread]
  split
  · rw [List.map_cons, ih]
  · exact ih _

theorem flatten_original (cut : Cut) :
    ((reads cut image d.limit 0).map fun read => blanked (apoff d) read.1 read.2).flatten =
      original image d d.limit.toNat := by
  have hrest : ∀ offset : ℕ, offset ≤ d.limit.toNat →
      original image d offset ++ ((reads cut image d.limit offset).map
        fun read => blanked (apoff d) read.1 read.2).flatten = original image d d.limit.toNat := by
    intro offset
    refine reads_induction (P := fun offset rs => offset ≤ d.limit.toNat →
      original image d offset ++ (rs.map fun read => blanked (apoff d) read.1 read.2).flatten =
        original image d d.limit.toNat) ?_ ?_ offset
    · intro offset hdone hle
      have hall : image.take offset = image.take d.limit.toNat := by
        rw [List.take_eq_take_iff]
        omega
      rw [List.map_nil, List.flatten_nil, List.append_nil, original, original, hall]
    · intro offset buf rest hread ih _
      have hle := hread.le
      rw [List.map_cons, List.flatten_cons, ← List.append_assoc, ← original_read hread]
      dsimp only at hle
      exact ih (by omega)
  exact hrest 0 (Nat.zero_le _)

theorem blanked_spec (hroom : ∀ read ∈ reads cut image d.limit 0, Room (apoff d) read)
    (hblank : ∀ read ∈ reads cut image d.limit 0, Blank (apoff d) read) :
    ∀ read ∈ reads cut image d.limit 0,
      blankAppdata (apoff d) read.1 read.2 = some (blanked (apoff d) read.1 read.2) ∧
        (blanked (apoff d) read.1 read.2).length ≤ bufsize := by
  intro read hread
  rw [length_blanked]
  exact ⟨(blankAppdata_right_iff (hroom read hread)).mpr (hblank read hread),
    (isRead_of_mem hread).fits⟩

theorem hexByte_inj {a b : UInt8} (h : hexByte a = hexByte b) : a = b := by
  have hdigit : ∀ m < 16, ∀ n < 16, CpioFormat.hexDigit m = CpioFormat.hexDigit n → m = n := by
    decide
  have ha := UInt8.toNat_lt a
  have hb := UInt8.toNat_lt b
  obtain ⟨hhigh, hlow⟩ := List.cons.inj h
  have hhigh' := hdigit _ (by omega) _ (by omega) hhigh
  have hlow' := hdigit _ (by omega) _ (by omega) (List.cons.inj hlow).1
  rw [← UInt8.toNat_inj]
  omega

theorem sumText_inj {a b : Vector UInt8 16} (h : sumText a = sumText b) : a = b := by
  have hlist : ∀ l l' : List UInt8, l.length = l'.length →
      l.flatMap hexByte = l'.flatMap hexByte → l = l' := by
    intro l
    induction l with
    | nil =>
      intro l' hlength _
      exact (List.length_eq_zero_iff.mp hlength.symm).symm
    | cons b l ih =>
      intro l' hlength hsame
      cases l' with
      | nil => cases hlength
      | cons b' l' =>
        rw [List.flatMap_cons, List.flatMap_cons] at hsame
        obtain ⟨hhead, hrest⟩ := List.append_inj hsame rfl
        rw [hexByte_inj hhead, ih l' (Nat.succ.inj hlength) hrest]
  have hlength : a.toList.length = b.toList.length := by rw [a.length_toList, b.length_toList]
  exact Vector.toList_inj.mp (hlist _ _ hlength h)

/-- Buffers of the same lengths are the same when they make up the same image. -/
theorem eq_of_flatten_eq {rs : List (ℕ × Str)} (h : (rs.map f).flatten = (rs.map g).flatten)
    (hlength : ∀ read ∈ rs, (f read).length = (g read).length) : ∀ read ∈ rs, f read = g read := by
  induction rs with
  | nil => nofun
  | cons read rs ih =>
    obtain ⟨hhead, hrest⟩ := List.forall_mem_cons.mp hlength
    rw [List.map_cons, List.map_cons, List.flatten_cons, List.flatten_cons] at h
    obtain ⟨hfirst, hflatten⟩ := List.append_inj h hhead
    exact List.forall_mem_cons.mpr ⟨hfirst, ih hflatten hrest⟩

end

/-! ## The answer -/

section
variable {γ : Type} {md5 : Md5 γ} {digest : Str → Vector UInt8 16} {cuts : Cuts} {image : Str}
  {stack : Stack} {d : Descriptor} {cb : Option (ℤ → ℤ → ℤ)}

abbrev run {γ : Type} (md5 : Md5 γ) (cut : Cut) (image : Str) (cb : Option (ℤ → ℤ → ℤ))
    (stack : Stack) (d : Descriptor) : Except Stop (Check γ) :=
  (reads cut image d.limit 0).foldlM (pass md5 d (d.fragmentsums.getD stack.fragmentsums) cb)
    (start md5 stack)

theorem mediaCheckFile_eq (hfound : Found cuts image stack.pvd)
    (hpvd : CheckIso.parsepvd image stack.pvd = some d) :
    mediaCheckFile md5 cuts (some image) cb stack =
      finish md5 d.mediasum (run md5 cuts.data image cb stack d) := by
  rw [mediaCheckFile, hfound.media, hpvd]
  dsimp only
  rw [checkmd5sum, hfound.check, hpvd]

theorem ready_start (h : FragmentsSound cuts.data image stack d) (f : ℕ × Str → Str) :
    Ready d (sumsOf stack d)
      ((tests d f 0 [] (reads cuts.data image d.limit 0)).map Prod.fst) stack.thisfragsum := by
  rw [tests_fragments]
  change Ready d _ ((marksOf cuts.data image d).map Prod.fst) _
  refine ⟨fun fragment hmem => ?_, fun hne => ?_, fun fragment hmem => ?_⟩
  · obtain ⟨mark, hmark, rfl⟩ := List.mem_map.mp hmem
    exact h.inside mark hmark
  · exact h.stored fun hnil => hne (by rw [hnil]; rfl)
  · rw [List.head?_map] at hmem
    obtain ⟨mark, hmark, rfl⟩ := Option.map_eq_some_iff.mp hmem
    exact h.first mark hmark

theorem tests_start :
    tests d (fun read => blanked (apoff d) read.1 read.2) 0 [] (reads cuts.data image d.limit 0) =
      (marksOf cuts.data image d).map fun mark => (mark.1, original image d mark.2) :=
  tests_original 0 0

theorem finish_ok (md5 : Md5 γ) (mediasum : Str) (c : Check γ) :
    ∃ rc matched, finish md5 mediasum (.ok c) = .returned rc matched ∧
      (rc = ISOMD5SUM_CHECK_PASSED ↔ cString mediasum = sumText (md5.final c.md5ctx)) := by
  by_cases hsum : cString mediasum = sumText (md5.final c.md5ctx)
  · exact ⟨_, _, if_neg (not_not_intro hsum), iff_of_true rfl hsum⟩
  · exact ⟨_, _, if_pos hsum, iff_of_false (by decide) hsum⟩

theorem sumsOf_stored (stack : Stack) {mark : ℤ × ℕ} (h : mark ∈ storedMarks image d) :
    d.fragmentsums = some (sumsOf stack d) := by
  unfold storedMarks at h
  split at h
  · rename_i hsome
    obtain ⟨fragmentsums, hsums⟩ := Option.isSome_iff_exists.mp hsome
    rw [sumsOf, hsums, Option.getD_some]
  · cases h

theorem good_iff (stack : Stack) : Good digest image d ↔
    cString d.mediasum = sumText (digest (original image d d.limit.toNat)) ∧
      ∀ mark ∈ storedMarks image d,
        SumMatches digest d (sumsOf stack d) mark.1 (original image d mark.2) := by
  constructor
  · exact fun h => ⟨h.sum, fun mark hmark =>
      h.fragments _ (sumsOf_stored stack hmark) mark hmark⟩
  · rintro ⟨hsum, hfragments⟩
    refine ⟨hsum, fun fragmentsums hstored mark hmark => ?_⟩
    have hsame : some fragmentsums = some (sumsOf stack d) :=
      (Option.mem_def.mp hstored).symm.trans (sumsOf_stored stack hmark)
    rw [Option.some.inj hsame]
    exact hfragments mark hmark

theorem Demanded.matches {fragmentsums : Str} {ms : List (ℤ × ℕ)} {mark : ℤ × ℕ}
    (h : Demanded image d fragmentsums ms mark)
    (hsum : cString d.mediasum = sumText (digest (original image d d.limit.toNat)))
    (hall : ∀ other ∈ ms,
      SumMatches digest d fragmentsums other.1 (original image d other.2)) :
    SumMatches digest d fragmentsums mark.1 (original image d mark.2) := by
  rcases h with ⟨other, hmem, hbytes, htext⟩ | ⟨hbytes, sum, hdigest, htext⟩
  · have hmatch := hall other hmem
    rw [SumMatches, hbytes, htext] at hmatch
    exact hmatch
  · rw [SumMatches, htext, hbytes, sumText_inj (hdigest.symm.trans hsum)]

theorem sumMatches_of_zero {fragmentsums data : Str} {fragment : ℤ}
    (h : sumDigits d.fragmentcount = 0) : SumMatches digest d fragmentsums fragment data := by
  rw [SumMatches, storedSum, h]
  rfl

theorem run_blank (hinc : Incremental md5 digest)
    (hcb : ∀ f ∈ cb, ∀ offset total, f offset total = 0)
    (hroom : ∀ read ∈ reads cuts.data image d.limit 0, Room (apoff d) read)
    (hblank : ∀ read ∈ reads cuts.data image d.limit 0, Blank (apoff d) read)
    (hfragments : FragmentsSound cuts.data image stack d) :
    ∃ rc matched, finish md5 d.mediasum (run md5 cuts.data image cb stack d) =
        .returned rc matched ∧ (rc = ISOMD5SUM_CHECK_PASSED ↔ Good digest image d) := by
  rw [good_iff stack]
  rcases run_outcome hinc hcb (blanked_spec hroom hblank) (hashed_start md5 stack)
    (ready_start hfragments _) with ⟨last, hlast, hhashed, hall⟩ | ⟨hlast, test, htest, hno⟩
  · obtain ⟨rc, matched, hfinish, hrc⟩ := finish_ok md5 d.mediasum last
    refine ⟨rc, matched, (congrArg _ hlast).trans hfinish, hrc.trans ?_⟩
    rw [hhashed.final hinc, List.nil_append, flatten_original]
    refine ⟨fun hsum => ⟨hsum, fun mark hmark => ?_⟩, fun h => h.1⟩
    by_cases hdigits : sumDigits d.fragmentcount = 0
    · exact sumMatches_of_zero hdigits
    · refine (hfragments.complete hdigits mark hmark).matches hsum fun other hother => ?_
      exact hall (other.1, original image d other.2)
        (tests_start ▸ List.mem_map.mpr ⟨other, hother, rfl⟩)
  · refine ⟨ISOMD5SUM_CHECK_FAILED, [], congrArg _ hlast, iff_of_false (by decide) ?_⟩
    rintro ⟨hsum, hstored⟩
    change test ∈ tests d _ 0 [] _ at htest
    rw [tests_start] at htest
    obtain ⟨mark, hmark, rfl⟩ := List.mem_map.mp htest
    apply hno
    by_cases hdigits : sumDigits d.fragmentcount = 0
    · exact sumMatches_of_zero hdigits
    · exact (hfragments.compared hdigits mark hmark).matches hsum hstored

def hashedOf (d : Descriptor) (read : ℕ × Str) : Str :=
  (blankAppdata (apoff d) read.1 read.2).getD []

theorem hashedOf_spec (hroom : ∀ read ∈ reads cuts.data image d.limit 0, Room (apoff d) read) :
    ∀ read ∈ reads cuts.data image d.limit 0,
      blankAppdata (apoff d) read.1 read.2 = some (hashedOf d read) ∧
        (hashedOf d read).length = read.2.length := by
  intro read hread
  obtain ⟨data, hdata, hlength⟩ := blankAppdata_room (hroom read hread)
  rw [hashedOf, hdata, Option.getD_some]
  exact ⟨rfl, hlength⟩

theorem run_unpassable (hinc : Incremental md5 digest)
    (hcb : ∀ f ∈ cb, ∀ offset total, f offset total = 0)
    (hroom : ∀ read ∈ reads cuts.data image d.limit 0, Room (apoff d) read)
    (hno : ¬ Passable d) (hfragments : FragmentsSound cuts.data image stack d) :
    ∃ rc matched, finish md5 d.mediasum (run md5 cuts.data image cb stack d) =
        .returned rc matched ∧ (rc = ISOMD5SUM_CHECK_PASSED ↔ Good digest image d) := by
  have hgood : ¬ Good digest image d := fun h => hno ⟨_, h.sum⟩
  have hrs : ∀ read ∈ reads cuts.data image d.limit 0,
      blankAppdata (apoff d) read.1 read.2 = some (hashedOf d read) ∧
        (hashedOf d read).length ≤ bufsize := by
    intro read hread
    obtain ⟨hdata, hlength⟩ := hashedOf_spec hroom read hread
    exact ⟨hdata, hlength.trans_le (isRead_of_mem hread).fits⟩
  rcases run_outcome hinc hcb hrs (hashed_start md5 stack) (ready_start hfragments _) with
    ⟨last, hlast, -, -⟩ | ⟨hlast, -⟩
  · obtain ⟨rc, matched, hfinish, hrc⟩ := finish_ok md5 d.mediasum last
    exact ⟨rc, matched, (congrArg _ hlast).trans hfinish,
      hrc.trans (iff_of_false (fun h => hno ⟨_, h⟩) hgood)⟩
  · exact ⟨ISOMD5SUM_CHECK_FAILED, [], congrArg _ hlast, iff_of_false (by decide) hgood⟩

theorem right_of_sound (h : Sound cuts image stack) : Right cuts image stack := by
  intro γ md5 digest hinc cb hcb
  cases hpvd : CheckIso.parsepvd image stack.pvd with
  | none =>
    refine ⟨ISOMD5SUM_CHECK_NOT_FOUND, [], ?_, iff_of_false (by decide) ?_⟩
    · rw [mediaCheckFile, h.found.media, hpvd]
    · rintro ⟨d, hd, -⟩
      cases hd
  | some d =>
    have hgood : (∃ d', some d = some d' ∧ Good digest image d') ↔ Good digest image d := by
      constructor
      · rintro ⟨d', hd, hgood⟩
        cases hd
        exact hgood
      · exact fun hgood => ⟨d, rfl, hgood⟩
    rw [mediaCheckFile_eq h.found hpvd, hgood]
    by_cases hpass : Passable d
    · exact run_blank hinc hcb (h.blanks d hpvd).room ((h.blanks d hpvd).blank hpass)
        (h.fragments d hpvd)
    · exact run_unpassable hinc hcb (h.blanks d hpvd).room hpass (h.fragments d hpvd)

end

end Comodoo.CheckShortReads
