import Comodoo.CpioFilter
import Comodoo.CpioStream

set_option autoImplicit false

/-!
# The filtered archive

On an intact stream the output is the archive of the matching entries, and it reads back as
these entries, unless the size of a name makes an `int` overflow.
-/
namespace Comodoo.CpioFilterCorrect
open CString CpioSystem CpioRead CpioFormat CpioStream CpioFilter StepRun

variable {W : Type} (S : Sys W)

/-- Writes take all they are given, and reads do not touch the output. -/
structure FullWrites (S : Sys W) (out : W → Str) : Prop where
  write : ∀ w b, (S.gzipWrite w b).1 = b.length ∧ out (S.gzipWrite w b).2 = out w ++ b
  read : ∀ w n, out (S.gunzipRead w n).2 = out w

/-- The entry as it is written: new magic, NULs as padding. -/
def renew (e : Entry) : Entry :=
  { e with
    crc := false,
    namePad := List.replicate e.namePad.length 0,
    dataPad := List.replicate e.dataPad.length 0 }

/-- Position in the input, and what has been written. -/
structure Piped (stream out : W → Str) (s : FilterSt W) (pos : ℤ) (rest written : Str) : Prop where
  input : At stream s.io pos rest
  output : out s.io.w = written
  outPos : s.outPos = written.length

section Steps

variable {S} {stream out : W → Str}

theorem put_piped (hF : FullReads S stream) (hW : FullWrites S out) {s : FilterSt W} {pos : ℤ}
    {rest written : Str} (h : Piped stream out s pos rest written) (b : Str) :
    Piped stream out { put S s b with outPos := s.outPos + b.length } pos rest (written ++ b) := by
  refine ⟨⟨h.input.pos_eq, ?_⟩, ?_, ?_⟩
  · exact (hF.gzipWrite _ _).trans h.input.rest_eq
  · exact (hW.write _ _).2.trans (by rw [h.output])
  · simp [h.outPos]

theorem padOut_piped (hF : FullReads S stream) (hW : FullWrites S out) {s : FilterSt W} {pos : ℤ}
    {rest written : Str} (h : Piped stream out s pos rest written) (m : ℕ) :
    ∃ s', padOut S s m = (.ok, s') ∧ Piped stream out s' pos rest
      (written ++ List.replicate (padAmount written.length m) 0) := by
  obtain ⟨hn, hout⟩ := hW.write s.io.w (List.replicate (padAmount s.outPos m) 0)
  have hstream := hF.gzipWrite s.io.w (List.replicate (padAmount s.outPos m) 0)
  rw [List.length_replicate] at hn
  rw [padOut, padoutfd]
  simp only [hn, if_true]
  refine ⟨_, rfl, ⟨h.input.pos_eq, hstream.trans h.input.rest_eq⟩, ?_, ?_⟩
  · rw [hout, h.output, h.outPos]
  · simp [h.outPos]

theorem copyLoop_piped (hF : FullReads S stream) (hW : FullWrites S out) (fuel : ℕ) {io : Io W}
    {pos : ℤ} {a rest written : Str} (h : At stream io pos (a ++ rest))
    (hout : out io.w = written) (hf : a.length < fuel) :
    ∃ io', copyLoop S fuel io a.length = some io' ∧ At stream io' (pos + a.length) rest ∧
      out io'.w = written ++ a := by
  induction fuel generalizing io pos a written with
  | zero => omega
  | succ fuel ih =>
    by_cases ha : a.length = 0
    · obtain rfl := List.length_eq_zero_iff.mp ha
      exact ⟨io, by simp [copyLoop], by simpa using h, by simpa using hout⟩
    · obtain ⟨io1, hread, hat, -⟩ := ourread_chunk hF h 8192
      have hout1 := ourread_keeps hW.read io (min a.length 8192)
      rw [hread] at hout1
      have htake : (a.take 8192).length = min a.length 8192 := by rw [List.length_take, Nat.min_comm]
      have hdrop : (a.drop 8192).length = a.length - min a.length 8192 := by
        rw [List.length_drop]
        omega
      have hat1 : At stream { io1 with w := (S.gzipWrite io1.w (a.take 8192)).2 } _ _ :=
        hat.move rfl (hF.gzipWrite io1.w (a.take 8192))
      obtain ⟨io2, hcopy, hat2, hout2⟩ := ih hat1 (hW.write io1.w (a.take 8192)).2 (by omega)
      refine ⟨io2, ?_, ?_, ?_⟩
      · rw [copyLoop, if_neg ha]
        simp only [hread, htake]
        rwa [hdrop] at hcopy
      · convert hat2 using 1
        omega
      · rw [hout2, hout1, hout, List.append_assoc, List.take_append_drop]

theorem renew_wellFormed {e : Entry} (h : e.WellFormed) : (renew e).WellFormed :=
  ⟨h.fields_length, h.fields_hex, h.name_size, h.name_short, h.name_nul, h.data_size, h.data_short,
    by simpa [renew] using h.namePad_length, by simpa [renew] using h.dataPad_length⟩

theorem renew_physHeader (e : Entry) :
    (renew e).physHeader = CPIO_NEWC_MAGIC ++ e.physHeader.drop 6 := by
  rw [Entry.physHeader, Entry.physHeader, ← e.magic_length, List.drop_left]
  rfl

theorem putHeader_piped (hF : FullReads S stream) (hW : FullWrites S out) {s : FilterSt W} {pos : ℤ}
    {e : Entry} {rest written : Str} (he : e.WellFormed) (hname : e.name = e.path ++ [0])
    (h : Piped stream out s pos rest written) :
    Piped stream out
      { put S (put S s (CPIO_NEWC_MAGIC ++ e.physHeader.drop 6)) (e.path ++ [0]) with
        outPos := s.outPos + PHYS_HDR_SIZE + (e.path.length + 1) }
      pos rest (written ++ (renew e).physHeader ++ e.name) := by
  have h1 := put_piped hF hW h (CPIO_NEWC_MAGIC ++ e.physHeader.drop 6)
  have h2 := put_piped hF hW h1 (e.path ++ [0])
  have hlen : (CPIO_NEWC_MAGIC ++ e.physHeader.drop 6).length = PHYS_HDR_SIZE := by
    rw [← renew_physHeader]
    exact (renew_wellFormed he).physHeader_length
  have hlen' : ((e.path ++ [0]).length : ℤ) = e.path.length + 1 := by simp
  simp only [hlen, hlen'] at h2
  rw [renew_physHeader, hname]
  exact h2

theorem copyFile_piped (hF : FullReads S stream) (hW : FullWrites S out) (fuel : ℕ)
    {s : FilterSt W} {pos : ℤ} {e : Entry} {rest written : Str} (he : e.WellFormed)
    (hname : e.name = e.path ++ [0]) (hcount : Counted e.header) (hw : written.length % 4 = 0)
    (hf : e.data.length < fuel)
    (h : Piped stream out s pos (e.data ++ rest) written) :
    ∃ s', copyFile S fuel s e.header e.physHeader = some s' ∧
      Piped stream out s' (pos + e.data.length) rest (written ++ (renew e).encode) := by
  have hphys := (renew_wellFormed he).physHeader_length
  have hal : (110 + e.name.length + e.namePad.length) % 4 = 0 := he.aligned.1
  have h2 := putHeader_piped hF hW he hname h
  have hpad : padAmount ((written ++ (renew e).physHeader ++ e.name).length : ℕ) 4 =
      e.namePad.length := by
    apply padAmount_eq (n := PHYS_HDR_SIZE + e.name.length) ?_ he.namePad_length
    simp only [List.length_append, hphys]
    push_cast
    omega
  obtain ⟨s3, hpad3, h3⟩ := padOut_piped hF hW h2 4
  rw [hpad] at h3
  obtain ⟨io4, hcopy, hat4, hout4⟩ := copyLoop_piped hF hW fuel h3.input h3.output hf
  have h4 : Piped stream out { s3 with io := io4, outPos := s3.outPos + e.data.length }
      (pos + e.data.length) rest (written ++ (renew e).physHeader ++ e.name ++
        List.replicate e.namePad.length 0 ++ e.data) := by
    refine ⟨hat4, hout4, ?_⟩
    rw [h3.outPos]
    simp only [List.length_append]
    push_cast
    rfl
  have hpad' : padAmount ((written ++ (renew e).physHeader ++ e.name ++
      List.replicate e.namePad.length 0 ++ e.data).length : ℕ) 4 = e.dataPad.length := by
    apply padAmount_eq (n := e.data.length) ?_ he.dataPad_length
    simp only [List.length_append, hphys, List.length_replicate]
    push_cast
    omega
  obtain ⟨s5, hpad5, h5⟩ := padOut_piped hF hW h4 4
  rw [hpad'] at h5
  refine ⟨s5, ?_, ?_⟩
  · have hpath : e.header.path = e.path := by rw [Entry.header]
    rw [copyFile, if_neg (not_not.mpr hcount)]
    simp only [he.header_size, hpath]
    have hs : (put S (put S s (CPIO_NEWC_MAGIC ++ e.physHeader.drop 6)) (e.path ++ [0])).outPos =
        s.outPos := rfl
    rw [hs, hpad3]
    simp only [hcopy, Option.map_some, hpad5]
  · have henc : (renew e).encode = (renew e).physHeader ++ e.name ++
        List.replicate e.namePad.length 0 ++ e.data ++ List.replicate e.dataPad.length 0 := rfl
    rw [henc]
    simpa only [List.append_assoc] using h5

theorem filterBody_entry (hF : FullReads S stream) (hW : FullWrites S out) (fuel : ℕ)
    (selects : Str → Bool) {s : FilterSt W} {pos : ℤ} {e : Entry} {rest written : Str}
    (he : e.WellFormed) (hfits : e.NameFits) (hname : e.name = e.path ++ [0])
    (hcount : selects e.path = true → Counted e.header) (ht : e.path ≠ TRAILER)
    (hpos : pos % 4 = 0) (hw : written.length % 4 = 0) (hf : e.data.length < fuel)
    (h : Piped stream out s pos (e.encode ++ rest) written) :
    ∃ s', filterBody S fuel selects s = .running s' ∧
      Piped stream out s' (pos + e.encode.length) rest
        (written ++ if selects e.path then (renew e).encode else []) := by
  obtain ⟨io1, hget, hat1, -⟩ := getNextHeader_at hF he hfits h.input hpos
  have hout1 := getNextHeader_keeps hW.read s.io
  rw [hget] at hout1
  have hpath : e.header.path = e.path := by rw [Entry.header]
  have hal : (110 + e.name.length + e.namePad.length) % 4 = 0 := he.aligned.1
  have h1 : Piped stream out { s with io := io1 } _ (e.data ++ (e.dataPad ++ rest)) written :=
    ⟨hat1, hout1.trans h.output, h.outPos⟩
  have hlen : (pos + (PHYS_HDR_SIZE + e.name.length + e.namePad.length : ℕ) + e.data.length +
      e.dataPad.length : ℤ) = pos + e.encode.length := by
    simp only [Entry.encode, List.length_append, he.physHeader_length]
    push_cast
    omega
  have hpad : padAmount (pos + (PHYS_HDR_SIZE + e.name.length + e.namePad.length : ℕ) +
      e.data.length) 4 = e.dataPad.length := by
    apply padAmount_eq (n := e.data.length) ?_ he.dataPad_length
    push_cast
    omega
  rw [filterBody, hget]
  simp only [hpath]
  rw [if_neg ht]
  by_cases hsel : selects e.path = true
  · obtain ⟨s2, hcopy, h2⟩ := copyFile_piped hF hW fuel he hname (hcount hsel) hw hf h1
    rw [if_pos hsel, if_pos hsel, hcopy]
    obtain ⟨hat3, -⟩ := padinfd_at hF h2.input hpad
    refine ⟨_, rfl, hlen ▸ hat3, ?_, h2.outPos⟩
    exact (padinfd_keeps hW.read _ _).trans h2.output
  · obtain ⟨io2, heat, hat2, -⟩ := eatBytes_at hF hat1
    have hout2 : out (eatBytes S io1 e.data.length).2.w = out io1.w := eatLoop_keeps hW.read _ _ _
    rw [if_neg hsel, if_neg hsel, he.header_size, heat, List.append_nil]
    rw [heat] at hout2
    obtain ⟨hat3, -⟩ := padinfd_at hF hat2 hpad
    refine ⟨_, rfl, hlen ▸ hat3, ?_, h.outPos⟩
    exact (padinfd_keeps hW.read _ _).trans (hout2.trans h1.output)

theorem filterLoop_piped (hF : FullReads S stream) (hW : FullWrites S out) (fuel rounds : ℕ)
    (selects : Str → Bool) (es : List Entry) {t : Entry} {tail : Str}
    (hes : ∀ e ∈ es, e.WellFormed ∧ e.name = e.path ++ [0] ∧ e.path ≠ TRAILER)
    (hfit : ∀ e ∈ es, e.NameFits ∧ (selects e.path = true → Counted e.header))
    (ht : t.WellFormed) (hfitt : t.NameFits) (htrail : t.path = TRAILER)
    (hf : ∀ e ∈ es, e.data.length < fuel)
    {s : FilterSt W} {pos : ℤ} {written : Str} (hpos : pos % 4 = 0) (hw : written.length % 4 = 0)
    (h : Piped stream out s pos (encodeAll es ++ (t.encode ++ tail)) written) :
    ∃ s' pos' rest, run (fun s (_ : Unit) => filterBody S fuel selects s) s
        (List.replicate (es.length + 1 + rounds) ()) = .stopped (.ended, s') ∧
      Piped stream out s' pos' rest
        (written ++ encodeAll ((es.filter (fun e => selects e.path)).map renew)) := by
  induction es generalizing s pos written with
  | nil =>
    obtain ⟨io1, hget, hat1, -⟩ := getNextHeader_at hF ht hfitt h.input hpos
    have hout1 := getNextHeader_keeps hW.read s.io
    rw [hget] at hout1
    have hpath : t.header.path = TRAILER := by rw [← htrail, Entry.header]
    have hstop : filterBody S fuel selects s = .stopped (.ended, { s with io := io1 }) := by
      rw [filterBody, hget]
      simp only [hpath, if_true]
    refine ⟨{ s with io := io1 }, _, _, ?_, hat1, ?_, ?_⟩
    · rw [List.length_nil, Nat.zero_add, Nat.add_comm, List.replicate_succ]
      exact run_cons_stopped _ hstop
    · simpa [encodeAll] using hout1.trans h.output
    · simpa [encodeAll] using h.outPos
  | cons e es ih =>
    obtain ⟨he, hname, hne⟩ := hes e (by simp)
    obtain ⟨hfits, hcount⟩ := hfit e (by simp)
    rw [encodeAll_cons, List.append_assoc] at h
    obtain ⟨s1, hbody, h1⟩ := filterBody_entry hF hW fuel selects he hfits hname hcount hne hpos hw
      (hf e (by simp)) h
    have halign := he.aligned.2
    have halign' := (renew_wellFormed he).aligned.2
    have hw1 : (written ++ if selects e.path then (renew e).encode else []).length % 4 = 0 := by
      rw [List.length_append]
      split
      · omega
      · exact hw
    obtain ⟨s', pos', rest, hrun, h'⟩ := ih (fun x hx => hes x (by simp [hx]))
      (fun x hx => hfit x (by simp [hx])) (fun x hx => hf x (by simp [hx])) (by omega) hw1 h1
    refine ⟨s', pos', rest, ?_, ?_⟩
    · rw [List.length_cons, show es.length + 1 + 1 + rounds = (es.length + 1 + rounds) + 1 by omega,
        List.replicate_succ]
      exact (run_cons_running (e := ()) _ hbody).trans hrun
    · by_cases hsel : selects e.path = true
      · rw [if_pos hsel] at h'
        rw [List.filter_cons_of_pos (by simpa using hsel), List.map_cons, encodeAll_cons]
        simpa only [List.append_assoc] using h'
      · rw [if_neg hsel, List.append_nil] at h'
        rwa [List.filter_cons_of_neg (by simpa using hsel)]

/-- A name that does not fit, or cannot be counted when it is copied, ends in a fault. -/
theorem filterLoop_faults (hF : FullReads S stream) (hW : FullWrites S out) (fuel rounds : ℕ)
    (selects : Str → Bool) (es : List Entry) {t : Entry} {tail : Str}
    (hes : ∀ e ∈ es, e.WellFormed ∧ e.name = e.path ++ [0] ∧ e.path ≠ TRAILER)
    (ht : t.WellFormed) (hf : ∀ e ∈ es, e.data.length < fuel)
    (hlong : ¬ ((∀ e ∈ es, e.NameFits ∧ (selects e.path = true → Counted e.header)) ∧ t.NameFits))
    {s : FilterSt W} {pos : ℤ} {written : Str} (hpos : pos % 4 = 0) (hw : written.length % 4 = 0)
    (h : Piped stream out s pos (encodeAll es ++ (t.encode ++ tail)) written) :
    ∃ s', run (fun s (_ : Unit) => filterBody S fuel selects s) s
        (List.replicate (es.length + 1 + rounds) ()) = .stopped (.fault, s') := by
  induction es generalizing s pos written with
  | nil =>
    have hlongt : ¬ t.NameFits := fun hfitt => hlong ⟨by simp, hfitt⟩
    obtain ⟨io1, hget⟩ := getNextHeader_long hF ht hlongt h.input
    have hstop : filterBody S fuel selects s = .stopped (.fault, { s with io := io1 }) := by
      rw [filterBody, hget]
    refine ⟨{ s with io := io1 }, ?_⟩
    rw [List.length_nil, Nat.zero_add, Nat.add_comm, List.replicate_succ]
    exact run_cons_stopped _ hstop
  | cons e es ih =>
    obtain ⟨he, hname, hne⟩ := hes e (by simp)
    rw [encodeAll_cons, List.append_assoc] at h
    rw [List.length_cons, show es.length + 1 + 1 + rounds = (es.length + 1 + rounds) + 1 by omega,
      List.replicate_succ]
    by_cases hfits : e.NameFits
    case neg =>
      obtain ⟨io1, hget⟩ := getNextHeader_long hF he hfits h.input
      have hstop : filterBody S fuel selects s = .stopped (.fault, { s with io := io1 }) := by
        rw [filterBody, hget]
      exact ⟨_, run_cons_stopped _ hstop⟩
    by_cases hcount : selects e.path = true → Counted e.header
    · obtain ⟨s1, hbody, h1⟩ := filterBody_entry hF hW fuel selects he hfits hname hcount hne hpos hw
        (hf e (by simp)) h
      have halign := he.aligned.2
      have halign' := (renew_wellFormed he).aligned.2
      have hw1 : (written ++ if selects e.path then (renew e).encode else []).length % 4 = 0 := by
        rw [List.length_append]
        split
        · omega
        · exact hw
      have hlong1 : ¬ ((∀ x ∈ es, x.NameFits ∧ (selects x.path = true → Counted x.header)) ∧
          t.NameFits) := by
        rintro ⟨hall, hfitt⟩
        exact hlong ⟨List.forall_mem_cons.mpr ⟨⟨hfits, hcount⟩, hall⟩, hfitt⟩
      obtain ⟨s', hrun⟩ := ih (fun x hx => hes x (by simp [hx])) (fun x hx => hf x (by simp [hx]))
        hlong1 (by omega) hw1 h1
      exact ⟨s', (run_cons_running (e := ()) _ hbody).trans hrun⟩
    · obtain ⟨hsel, hover⟩ := Classical.not_imp.mp hcount
      obtain ⟨io1, hget, -, -⟩ := getNextHeader_at hF he hfits h.input hpos
      have hpath : e.header.path = e.path := by rw [Entry.header]
      have hfault : ∀ s1, copyFile S fuel s1 e.header e.physHeader = none := by
        intro s1
        rw [copyFile, if_pos hover]
      have hstop : filterBody S fuel selects s = .stopped (.fault, { s with io := io1 }) := by
        rw [filterBody, hget]
        simp only [hpath, hfault]
        rw [if_neg hne, if_pos hsel]
      exact ⟨_, run_cons_stopped _ hstop⟩

theorem trailerEntry_encode :
    trailerEntry.encode = trailerHeader ++ (TRAILER ++ [0]) ++ List.replicate 3 0 := by
  decide

theorem writeTrailer_piped (hF : FullReads S stream) (hW : FullWrites S out) {s : FilterSt W}
    {pos : ℤ} {rest written : Str} (hw : written.length % 4 = 0)
    (h : Piped stream out s pos rest written) :
    ∃ s', writeTrailer S s = (.ok, s') ∧ Piped stream out s' pos rest
      (written ++ trailerEntry.encode ++
        List.replicate (padAmount (written ++ trailerEntry.encode).length 512) 0) := by
  have h1 := put_piped hF hW h trailerHeader
  have h2 := put_piped hF hW h1 (TRAILER ++ [0])
  obtain ⟨s3, hpad3, h3⟩ := padOut_piped hF hW h2 4
  have hpad : padAmount ((written ++ trailerHeader ++ (TRAILER ++ [0])).length : ℕ) 4 = 3 := by
    apply padAmount_eq (n := 121) ?_ (by decide)
    have hl : (trailerHeader ++ (TRAILER ++ [0])).length = 121 := rfl
    rw [List.append_assoc, List.length_append, hl]
    push_cast
    omega
  have hwritten : written ++ trailerHeader ++ (TRAILER ++ [0]) ++ List.replicate 3 0 =
      written ++ trailerEntry.encode := by
    rw [trailerEntry_encode]
    simp only [List.append_assoc]
  rw [hpad, hwritten] at h3
  obtain ⟨s4, hpad4, h4⟩ := padOut_piped hF hW h3 512
  refine ⟨s4, ?_, h4⟩
  have hh : trailerHeader.length = PHYS_HDR_SIZE := rfl
  have ht : (TRAILER ++ [0]).length = 11 := rfl
  simp only [hh, ht] at hpad3
  rw [writeTrailer]
  have hs : (put S (put S s trailerHeader) (TRAILER ++ [0])).outPos = s.outPos := rfl
  simp only [hs]
  have hpad3' : padOut S { put S (put S s trailerHeader) (TRAILER ++ [0]) with
      outPos := s.outPos + PHYS_HDR_SIZE + 11 } 4 = (.ok, s3) := hpad3
  rw [hpad3']
  exact hpad4

end Steps

/-- What repeated `getNextHeader` makes of an archive: headers and data up to the trailer. -/
def listEntries (S : Sys W) : ℕ → Io W → Option (List (CpioHeader × Str))
  | 0, _ => none
  | fuel + 1, io =>
    match getNextHeader S io with
    | (.header ch _, io) =>
      if ch.path = TRAILER then some []
      else
        match ourread S io ch.size with
        | (some data, io) => (listEntries S fuel (padinfd S io 4)).map (fun l => (ch, data) :: l)
        | (none, _) => none
    | _ => none

theorem listEntries_at {S : Sys W} {stream : W → Str} (hF : FullReads S stream) (es : List Entry)
    {t : Entry} {tail : Str} (hes : ∀ e ∈ es, e.WellFormed ∧ e.NameFits ∧ e.path ≠ TRAILER)
    (ht : t.WellFormed) (hfitt : t.NameFits) (htrail : t.path = TRAILER) {io : Io W} {pos : ℤ}
    (hpos : pos % 4 = 0)
    (h : At stream io pos (encodeAll es ++ (t.encode ++ tail))) :
    listEntries S (es.length + 1) io = some (es.map (fun e => (e.header, e.data))) := by
  induction es generalizing io pos with
  | nil =>
    obtain ⟨io1, hget, -, -⟩ := getNextHeader_at hF ht hfitt h hpos
    have hpath : t.header.path = TRAILER := by rw [← htrail, Entry.header]
    rw [List.length_nil, listEntries, hget]
    simp only [hpath, if_true, List.map_nil]
  | cons e es ih =>
    obtain ⟨he, hfits, hne⟩ := hes e (by simp)
    have hpath : e.header.path = e.path := by rw [Entry.header]
    have hal : (110 + e.name.length + e.namePad.length) % 4 = 0 := he.aligned.1
    have hpad := he.dataPad_length
    rw [encodeAll_cons, List.append_assoc] at h
    obtain ⟨io1, hget, hat1, -⟩ := getNextHeader_at hF he hfits h hpos
    obtain ⟨io2, hread, hat2, -⟩ := ourread_at hF hat1
    have hamount : padAmount (pos + (PHYS_HDR_SIZE + e.name.length + e.namePad.length : ℕ) +
        e.data.length) 4 = e.dataPad.length := by
      apply padAmount_eq (n := e.data.length) ?_ hpad
      push_cast
      omega
    obtain ⟨hat3, -⟩ := padinfd_at hF hat2 hamount
    have hrest := ih (fun x hx => hes x (by simp [hx])) (by push_cast; omega) hat3
    rw [List.length_cons, listEntries, hget]
    simp only [hpath, hne, if_false, he.header_size, hread, hrest, Option.map_some, List.map_cons]

theorem padAmount_fills (n : ℕ) : (n + padAmount n 512) % 512 = 0 ∧ padAmount n 512 < 512 := by
  have hp : (padAmount n 512 : ℤ) = (512 - (n : ℤ) % 512) % 512 := by
    rw [padAmount]
    exact Int.toNat_of_nonneg (Int.emod_nonneg _ (by decide))
  omega

theorem renew_path (e : Entry) : (renew e).path = e.path := by
  rw [Entry.path, Entry.path, renew]

theorem fieldInt_congr {e e' : Entry} (hfields : e.fields = e'.fields) (k : ℕ) :
    e.fieldInt k = e'.fieldInt k := by
  unfold Entry.fieldInt Entry.fieldValue
  rw [hfields]

theorem header_congr {e e' : Entry} (hfields : e.fields = e'.fields) (hname : e.name = e'.name) :
    e.header = e'.header := by
  simp only [Entry.header, Entry.path, hname, fieldInt_congr hfields]

def selected (fnmatch : Str → Str → Bool) (patterns : List Str) (A : Archive) : List Entry :=
  (A.entries.filter (fun e => patterns.any (fun pattern => fnmatch pattern e.path))).map renew

theorem selected_wellFormed (fnmatch : Str → Str → Bool) (patterns : List Str) (A : Archive) :
    ∀ e ∈ selected fnmatch patterns A, e.WellFormed ∧ e.path ≠ TRAILER := by
  intro e he
  obtain ⟨e', he', rfl⟩ := List.mem_map.mp he
  have hmem := (List.mem_filter.mp he').1
  refine ⟨renew_wellFormed (A.wellFormed e' hmem), ?_⟩
  rw [renew_path]
  exact A.noTrailer e' hmem

theorem selected_nameFits (fnmatch : Str → Str → Bool) (patterns : List Str) {A : Archive}
    (hfits : A.NamesFit) : ∀ e ∈ selected fnmatch patterns A, e.NameFits := by
  intro e he
  obtain ⟨e', he', rfl⟩ := List.mem_map.mp he
  exact hfits.1 e' (List.mem_filter.mp he').1

theorem selected_listed (fnmatch : Str → Str → Bool) (patterns : List Str) (A : Archive) :
    (selected fnmatch patterns A).map (fun e => (e.header, e.data)) =
      (A.entries.filter (fun e => patterns.any (fun pattern => fnmatch pattern e.path))).map
        (fun e => (e.header, e.data)) := by
  rw [selected, List.map_map]
  apply List.map_congr_left
  intro e _
  have hheader : (renew e).header = e.header := header_congr rfl rfl
  rw [Function.comp_apply, hheader]
  rfl

theorem data_length_le {es : List Entry} {e : Entry} (h : e ∈ es) :
    e.data.length ≤ (encodeAll es).length := by
  induction es with
  | nil => simp at h
  | cons x es ih =>
    rw [encodeAll_cons, List.length_append]
    rcases List.mem_cons.mp h with rfl | h
    · simp only [Entry.encode, List.length_append]
      omega
    · have := ih h
      omega

theorem length_le_encodeAll {es : List Entry} (h : ∀ e ∈ es, e.WellFormed) :
    es.length ≤ (encodeAll es).length := by
  induction es with
  | nil => simp
  | cons e es ih =>
    have hes := ih (fun x hx => h x (by simp [hx]))
    have hphys : e.physHeader.length = 110 := (h e (by simp)).physHeader_length
    rw [encodeAll_cons, List.length_append, List.length_cons]
    simp only [Entry.encode, List.length_append, hphys]
    omega

/-- The call returns 0 and writes the archive of the matching entries, padded to 512 bytes; every
block is aligned, and the output reads back as the same entries. -/
def Filters (S : Sys W) (out : W → Str) (fnmatch : Str → Str → Bool) (patterns : List Str)
    (A : Archive) (fuel : ℕ) (w : W) : Prop :=
  ∃ s output pad, myCpioFilterArchive S fnmatch patterns fuel w = (.returned .ok, s) ∧
    out s.io.w = output ∧
    output = encodeAll (selected fnmatch patterns A) ++ trailerEntry.encode ++
      List.replicate pad 0 ∧
    output.length % 512 = 0 ∧ pad < 512 ∧
    (∀ front e rest, selected fnmatch patterns A = front ++ e :: rest →
      (encodeAll front).length % 4 = 0 ∧
      ((encodeAll front).length + PHYS_HDR_SIZE + e.name.length + e.namePad.length) % 4 = 0) ∧
    (∀ (V : Type) (S' : Sys V) (stream' : V → Str) (v : V), FullReads S' stream' →
      stream' v = output → listEntries S' ((selected fnmatch patterns A).length + 1) ⟨v, 0, []⟩ =
        some ((A.entries.filter
          (fun e => patterns.any (fun pattern => fnmatch pattern e.path))).map
            (fun e => (e.header, e.data))))

/-- No `int` overflows: no name has `2 ^ 31 - 1` bytes, and the name of an entry that is copied can
be counted together with its header. -/
def Countable (fnmatch : Str → Str → Bool) (patterns : List Str) (A : Archive) : Prop :=
  A.NamesFit ∧
    ∀ e ∈ A.entries, patterns.any (fun pattern => fnmatch pattern e.path) = true →
      Counted e.header

section Call
variable {S : Sys W} {stream out : W → Str} {fnmatch : Str → Str → Bool} {patterns : List Str}
  {A : Archive} {tail : Str} {w : W} {fuel : ℕ}

theorem start_piped (hin : stream w = A.bytes ++ tail) (hout : out w = []) :
    Piped stream out ⟨⟨w, 0, []⟩, 0⟩ 0 (encodeAll A.entries ++ (A.trailer.encode ++ tail)) [] := by
  refine ⟨⟨rfl, ?_⟩, hout, rfl⟩
  rw [← List.append_assoc]
  exact hin

theorem enough_rounds (hfuel : A.bytes.length < fuel) :
    A.entries.length + 1 + (fuel - (A.entries.length + 1)) = fuel ∧
      ∀ e ∈ A.entries, e.data.length < fuel := by
  have hcount := length_le_encodeAll A.wellFormed
  have hbytes : A.bytes.length = (encodeAll A.entries).length + A.trailer.encode.length :=
    List.length_append
  refine ⟨by omega, fun e he => ?_⟩
  have hdata := data_length_le he
  omega

theorem filters_of_countable (hF : FullReads S stream) (hW : FullWrites S out)
    (hname : ∀ e ∈ A.entries, e.name = e.path ++ [0]) (hin : stream w = A.bytes ++ tail)
    (hout : out w = []) (hfuel : A.bytes.length < fuel) (hfit : Countable fnmatch patterns A) :
    Filters S out fnmatch patterns A fuel w := by
  have hsel := selected_wellFormed fnmatch patterns A
  obtain ⟨hrounds, hdata⟩ := enough_rounds hfuel
  obtain ⟨s1, pos1, rest1, hrun, h1⟩ := filterLoop_piped hF hW fuel
    (fuel - (A.entries.length + 1)) (fun path => patterns.any (fun pattern => fnmatch pattern path))
    A.entries (fun e he => ⟨A.wellFormed e he, hname e he, A.noTrailer e he⟩)
    (fun e he => ⟨hfit.1.1 e he, hfit.2 e he⟩) A.trailerWellFormed hfit.1.2 A.isTrailer hdata rfl rfl
    (start_piped hin hout)
  rw [List.nil_append] at h1
  have hw1 := encodeAll_aligned (fun e he => (hsel e he).1)
  obtain ⟨s2, htrail, h2⟩ := writeTrailer_piped hF hW hw1 h1
  obtain ⟨hfill, hlt⟩ :=
    padAmount_fills (encodeAll (selected fnmatch patterns A) ++ trailerEntry.encode).length
  refine ⟨s2, _, _, ?_, h2.output, rfl, ?_, hlt, ?_, ?_⟩
  · rw [hrounds] at hrun
    simp only [myCpioFilterArchive, hrun, htrail]
  · rw [List.length_append, List.length_replicate]
    exact hfill
  · intro front e rest hsplit
    have hfront : (encodeAll front).length % 4 = 0 :=
      encodeAll_aligned (fun x hx => (hsel x (by rw [hsplit]; simp [hx])).1)
    have he : (110 + e.name.length + e.namePad.length) % 4 = 0 :=
      (hsel e (by rw [hsplit]; simp)).1.aligned.1
    refine ⟨hfront, ?_⟩
    have hphys : PHYS_HDR_SIZE = 110 := rfl
    omega
  · intro V S' stream' v hF' hv
    rw [← selected_listed]
    have hat : At stream' ⟨v, 0, []⟩ 0 (encodeAll (selected fnmatch patterns A) ++
        (trailerEntry.encode ++ List.replicate (padAmount
          (encodeAll (selected fnmatch patterns A) ++ trailerEntry.encode).length 512) 0)) := by
      refine ⟨rfl, ?_⟩
      rw [← List.append_assoc]
      exact hv
    have hfits := selected_nameFits fnmatch patterns hfit.1
    exact listEntries_at hF' (selected fnmatch patterns A)
      (fun e he => ⟨(hsel e he).1, hfits e he, (hsel e he).2⟩) trailerEntry_wellFormed
      trailerEntry_nameFits trailerEntry_path rfl hat

theorem countable_of_filters (hF : FullReads S stream) (hW : FullWrites S out)
    (hname : ∀ e ∈ A.entries, e.name = e.path ++ [0]) (hin : stream w = A.bytes ++ tail)
    (hout : out w = []) (hfuel : A.bytes.length < fuel)
    (h : Filters S out fnmatch patterns A fuel w) : Countable fnmatch patterns A := by
  obtain ⟨s, output, pad, hreturn, -⟩ := h
  by_contra hlong
  obtain ⟨hrounds, hdata⟩ := enough_rounds hfuel
  have hlong1 : ¬ ((∀ e ∈ A.entries, e.NameFits ∧
      (patterns.any (fun pattern => fnmatch pattern e.path) = true → Counted e.header)) ∧
      A.trailer.NameFits) := by
    rintro ⟨hall, hfitt⟩
    exact hlong ⟨⟨fun e he => (hall e he).1, hfitt⟩, fun e he => (hall e he).2⟩
  obtain ⟨s', hrun⟩ := filterLoop_faults hF hW fuel (fuel - (A.entries.length + 1))
    (fun path => patterns.any (fun pattern => fnmatch pattern path)) A.entries
    (fun e he => ⟨A.wellFormed e he, hname e he, A.noTrailer e he⟩) A.trailerWellFormed hdata
    hlong1 rfl rfl (start_piped hin hout)
  rw [hrounds] at hrun
  simp [myCpioFilterArchive, hrun] at hreturn

/-- On an intact stream the archive is filtered if and only if no `int` overflows. -/
theorem myCpioFilterArchive_correct_iff (hF : FullReads S stream) (hW : FullWrites S out)
    (fnmatch : Str → Str → Bool) (patterns : List Str) (A : Archive)
    (hname : ∀ e ∈ A.entries, e.name = e.path ++ [0]) (tail : Str) (w : W)
    (hin : stream w = A.bytes ++ tail) (hout : out w = []) (fuel : ℕ)
    (hfuel : A.bytes.length < fuel) :
    Filters S out fnmatch patterns A fuel w ↔ Countable fnmatch patterns A :=
  ⟨countable_of_filters hF hW hname hin hout hfuel, filters_of_countable hF hW hname hin hout hfuel⟩

end Call

def twoFiles : Archive where
  entries := [newcEntry 1 0o100644 1 (ascii "a") (ascii "x"), newcEntry 2 0o100644 1 (ascii "b") []]
  trailer := trailerEntry
  wellFormed e he := by
    simp only [List.mem_cons, List.not_mem_nil, or_false] at he
    rcases he with rfl | rfl <;> exact newcEntry_wellFormed _ _ _ (by decide) (by decide)
  trailerWellFormed := trailerEntry_wellFormed
  isTrailer := trailerEntry_path
  noTrailer := by decide

theorem pipeSys_fullWrites : FullWrites pipeSys Prod.snd :=
  ⟨fun _ _ => ⟨rfl, rfl⟩, fun _ _ => rfl⟩

theorem myCpioFilterArchive_correct_twoFiles :
    Filters pipeSys Prod.snd (fun pattern path => pattern == path) [ascii "a"] twoFiles 1000
      (twoFiles.bytes, []) :=
  (myCpioFilterArchive_correct_iff pipeSys_fullReads pipeSys_fullWrites
    (fun pattern path => pattern == path) [ascii "a"] twoFiles (by decide) [] (twoFiles.bytes, [])
    (by simp) rfl 1000 (by decide +kernel)).mpr ⟨by decide +kernel, by decide +kernel⟩

def emptyFile (path : Str) (hlength : path.length + 1 < 2 ^ 31) (hnul : (0 : UInt8) ∉ path)
    (htrailer : path ≠ TRAILER) : Archive where
  entries := [newcEntry 1 0o100644 1 path []]
  trailer := trailerEntry
  wellFormed := by simpa using newcEntry_wellFormed _ _ _ hlength (by decide)
  trailerWellFormed := trailerEntry_wellFormed
  isTrailer := trailerEntry_path
  noTrailer := by simpa [newcEntry_path hnul] using htrailer

@[irreducible] def longPath : Str := List.replicate (2 ^ 31 - 2) 0x61

theorem longPath_length : longPath.length = 2 ^ 31 - 2 := by
  rw [longPath]
  exact List.length_replicate

theorem longPath_short : longPath.length + 1 < 2 ^ 31 := by
  rw [longPath_length]
  decide

theorem longPath_nul : (0 : UInt8) ∉ longPath := by
  rw [longPath]
  exact fun h => absurd (List.eq_of_mem_replicate h) (by decide)

theorem longPath_other : longPath ≠ TRAILER := by
  intro h
  have hlength := longPath_length
  rw [h] at hlength
  revert hlength
  decide

theorem emptyFile_not_filtered {path : Str} (hlength : path.length + 1 < 2 ^ 31)
    (hnul : (0 : UInt8) ∉ path) (htrailer : path ≠ TRAILER) (hlong : path.length = 2 ^ 31 - 2)
    (fnmatch : Str → Str → Bool) (patterns : List Str) :
    ¬ Filters pipeSys Prod.snd fnmatch patterns (emptyFile path hlength hnul htrailer)
      ((emptyFile path hlength hnul htrailer).bytes.length + 1)
      ((emptyFile path hlength hnul htrailer).bytes, []) := by
  intro h
  have hname : ∀ e ∈ (emptyFile path hlength hnul htrailer).entries, e.name = e.path ++ [0] := by
    simp only [emptyFile, List.mem_singleton, forall_eq, newcEntry_path hnul]
    rfl
  have hfits := countable_of_filters pipeSys_fullReads pipeSys_fullWrites hname
    (List.append_nil _).symm rfl (Nat.lt_succ_self _) h
  have hentry : (newcEntry 1 0o100644 1 path []).NameFits :=
    hfits.1.1 _ (List.mem_singleton_self _)
  rw [Entry.NameFits, newcEntry, List.length_append, List.length_singleton] at hentry
  omega

theorem longName_not_filtered :
    ¬ Filters pipeSys Prod.snd (fun pattern path => pattern == path) [ascii "a"]
      (emptyFile longPath longPath_short longPath_nul longPath_other)
      ((emptyFile longPath longPath_short longPath_nul longPath_other).bytes.length + 1)
      ((emptyFile longPath longPath_short longPath_nul longPath_other).bytes, []) :=
  emptyFile_not_filtered longPath_short longPath_nul longPath_other longPath_length
    (fun pattern path => pattern == path) [ascii "a"]

end Comodoo.CpioFilterCorrect
