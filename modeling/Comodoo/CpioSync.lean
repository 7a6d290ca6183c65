import Comodoo.CpioFrame

set_option autoImplicit false

/-!
# The loop keeps its place in the stream

On an intact stream every round that goes on ends at the first byte of the next entry, unless
the data member of a hard-link group could not be made: that error is lost, and its data with
it. The calls on files are free to fail.
-/
namespace Comodoo.CpioSync
open CString CpioSystem CpioRead CpioExpand CpioInstall CpioFormat CpioStream CpioFrame StepRun

variable {W : Type} {S : Sys W} {stream : W → Str}

section Entry

variable {pos : ℤ} {a rest : Str} {ch : CpioHeader}

/-- The directory and the contents of an entry can be made. -/
def canCreate (S : Sys W) (cb : Bool) (io : Io W) (lastDir : Option Str) (ch : CpioHeader) : Bool :=
  match checkDirectory S io.w lastDir ch.path with
  | (rc, w, _) =>
    rc = .ok ∧ (expandEntry S cb { io with w := w } ch).all (fun r => r.1 = .ok) = true

theorem createFile_at (hF : FullReads S stream) (cb : Bool) {s s' : St W} {rc : Rc}
    (hsize : ch.size = a.length)
    (hplain : S_ISREG ch.mode = false → S_ISLNK ch.mode = false → a = [])
    (h : At stream s.io pos (a ++ rest)) (hcan : canCreate S cb s.io s.lastDir ch = true)
    (hrun : createFile S cb s ch = some (rc, s')) :
    At stream s'.io (pos + a.length) rest := by
  have hdir := checkDirectory_stream hF s.io.w s.lastDir ch.path
  rw [createFile] at hrun
  rw [canCreate] at hcan
  cases hc : checkDirectory S s.io.w s.lastDir ch.path with
  | mk rc1 r =>
    rw [hc] at hdir
    simp only [hc, decide_eq_true_eq] at hcan
    obtain ⟨rfl, hexp⟩ := hcan
    simp only [hc, ne_eq, not_true_eq_false, if_false] at hrun
    split at hrun
    · simp at hrun
    · cases he : expandEntry S cb { s.io with w := r.1 } ch with
      | none => simp [he] at hrun
      | some q =>
        obtain ⟨rc2, call, io⟩ := q
        simp only [he, Option.all_some, decide_eq_true_eq] at hexp
        subst hexp
        simp only [he, not_true_eq_false, if_false] at hrun
        obtain ⟨-, rfl⟩ := Prod.mk.inj (Option.some.inj hrun)
        have hat1 : At stream { s.io with w := r.1 } pos (a ++ rest) := h.move rfl hdir
        have hat := expandEntry_at hF cb hsize hplain hat1 he
        exact hat.move rfl (setInfo_stream hF _ _)

theorem createFile_canCreate (cb : Bool) {s s' : St W}
    (hrun : createFile S cb s ch = some (.ok, s')) : canCreate S cb s.io s.lastDir ch = true := by
  rw [createFile] at hrun
  rw [canCreate]
  cases hc : checkDirectory S s.io.w s.lastDir ch.path with
  | mk rc1 r =>
    simp only [hc] at hrun
    split at hrun
    · simp at hrun
    · split at hrun
      · rename_i hrc
        exact absurd (Prod.mk.inj (Option.some.inj hrun)).1 hrc
      · rename_i hrc
        cases he : expandEntry S cb { s.io with w := r.1 } ch with
        | none => simp [he] at hrun
        | some q =>
          simp only [he] at hrun
          split at hrun
          · rename_i hrc2
            exact absurd (Prod.mk.inj (Option.some.inj hrun)).1 hrc2
          · rename_i hrc2
            simp only [he, Option.all_some, decide_eq_true_eq]
            exact ⟨not_not.mp hrc, not_not.mp hrc2⟩

theorem createLinks_at (hF : FullReads S stream) {s : St W} (li : HardLink) (looked : Bool)
    (h : At stream s.io pos rest) : At stream (createLinks S s li looked).2.io pos rest :=
  h.move rfl (linkFiles_stream hF _ _ _ _ _)

theorem laterMember_at (hF : FullReads S stream) {s : St W} (li : HardLink)
    (hsize : ch.size = a.length) (h : At stream s.io pos (a ++ rest)) :
    At stream (laterMember S s li ch).io (pos + a.length) rest := by
  have hlinks := createLinks_at hF li false h
  obtain ⟨io', heat, hat, -⟩ := eatBytes_at hF hlinks
  rw [laterMember]
  split
  · rename_i hzero
    obtain rfl : a = [] := List.length_eq_zero_iff.mp (by omega)
    simpa using hlinks
  · rw [hsize, heat]
    exact hat

/-- The entry is the one that carries the data of its group. -/
def carries (links : List HardLink) (ch : CpioHeader) : Bool :=
  isLink ch = true ∧ ch.size ≠ 0 ∧ (groupOf links ch).createdPath = none

theorem installEntry_at (hF : FullReads S stream) (cb : Bool) {s s' : St W}
    (hsize : ch.size = a.length)
    (hplain : S_ISREG ch.mode = false → S_ISLNK ch.mode = false → a = [])
    (h : At stream s.io pos (a ++ rest))
    (hcarry : carries s.links ch = true → canCreate S cb s.io s.lastDir ch = true)
    (hrun : installEntry S cb s ch = some (.ok, s')) :
    At stream s'.io (pos + a.length) rest := by
  rw [installEntry] at hrun
  by_cases hlink : isLink ch = true
  · simp only [hlink, if_true] at hrun
    split at hrun
    · simp at hrun
    · split at hrun
      · -- deferred, with nothing to read
        rename_i hzero
        obtain rfl : a = [] := List.length_eq_zero_iff.mp (by omega)
        obtain ⟨-, rfl⟩ := Prod.mk.inj (Option.some.inj hrun)
        simpa using h
      · split at hrun
        · obtain ⟨-, rfl⟩ := Prod.mk.inj (Option.some.inj hrun)
          exact laterMember_at hF _ hsize h
        · rename_i hdefer hlater
          have hnone : (groupOf s.links ch).createdPath = none := not_not.mp hlater
          have hcan := hcarry (by
            simp only [carries, decide_eq_true_eq]
            exact ⟨hlink, fun hz => hdefer ⟨hz, hnone⟩, hnone⟩)
          simp only [dataMember, Option.map_eq_some_iff, Prod.exists] at hrun
          obtain ⟨rc, s1, hcreate, hlinks⟩ := hrun
          have hat := createFile_at hF cb hsize hplain (by exact h) (by exact hcan) hcreate
          have hs' : s' = (createLinks S s1 _ true).2 := (congrArg Prod.snd hlinks).symm
          rw [hs']
          exact createLinks_at hF _ true hat
  · simp only [hlink, Bool.false_eq_true, if_false] at hrun
    exact createFile_at hF cb hsize hplain h (createFile_canCreate cb hrun) hrun

end Entry

def KeepsMode (mappings : Option (List FileMapping)) : Prop :=
  ∀ ms, mappings = some ms → ∀ map ∈ ms, map.mapFlags.testBit 1 = false

theorem selectEntry_keeps {mappings : Option (List FileMapping)} (hmaps : KeepsMode mappings)
    {ch ch' : CpioHeader} (h : selectEntry mappings ch = some ch') :
    ch'.size = ch.size ∧ ch'.mode = ch.mode := by
  cases mappings with
  | none =>
    obtain rfl := Option.some.inj h
    exact ⟨rfl, rfl⟩
  | some ms =>
    simp only [selectEntry, Option.map_eq_some_iff] at h
    obtain ⟨map, hfound, rfl⟩ := h
    have hbit := hmaps ms rfl map (BinarySearch.bsearch_sound hfound).1
    simp [applyMapping, hbit]

/-- If the next entry carries the data of its group, its file can be made. -/
def carrierMade (S : Sys W) (cb : Bool) (mappings : Option (List FileMapping)) (s : St W) : Bool :=
  match getNextHeader S s.io with
  | (.header ch _, io) =>
    match selectEntry mappings ch with
    | some ch => !carries s.links ch || canCreate S cb io s.lastDir ch
    | none => true
  | _ => true

theorem finishEntry_at (hF : FullReads S stream) (cb : Bool) (rc : Rc) {s s' : St W}
    (ch : CpioHeader) {pos : ℤ} {pad rest : Str} (h : At stream s.io pos (pad ++ rest))
    (hpad : padAmount pos 4 = pad.length) (hrun : finishEntry S cb rc s ch = .running s') :
    At stream s'.io (pos + pad.length) rest := by
  obtain ⟨hat, -⟩ := padinfd_at hF h hpad
  rw [finishEntry] at hrun
  split at hrun
  · obtain rfl := Status.running.inj hrun
    split <;> exact hat.move rfl rfl
  · cases hrun

section Loop

variable {mappings : Option (List FileMapping)} {pos : ℤ} {rest : Str} {e : Entry}

theorem loopBody_long (hF : FullReads S stream) (mappings : Option (List FileMapping)) (cb : Bool)
    {s : St W} (he : e.WellFormed) (hlong : ¬ e.NameFits)
    (h : At stream s.io pos (e.encode ++ rest)) :
    ∃ s', loopBody S cb mappings s = .stopped (.fault, s') := by
  obtain ⟨io1, hget⟩ := getNextHeader_long hF he hlong h
  rw [loopBody, hget]
  exact ⟨_, rfl⟩

theorem loopBody_at (hF : FullReads S stream) (cb : Bool) (hmaps : KeepsMode mappings)
    {s s' : St W} (he : e.WellFormed) (hne : e.path ≠ TRAILER)
    (hplain : S_ISREG e.header.mode = false → S_ISLNK e.header.mode = false → e.data = [])
    (hpos : pos % 4 = 0) (h : At stream s.io pos (e.encode ++ rest))
    (hmade : carrierMade S cb mappings s = true)
    (hrun : loopBody S cb mappings s = .running s') :
    At stream s'.io (pos + e.encode.length) rest := by
  have hpath : e.header.path = e.path := by rw [Entry.header]
  have hamount := padAmount_data he hpos
  have hfits : e.NameFits := by
    by_contra hlong
    obtain ⟨s2, hfault⟩ := loopBody_long hF mappings cb he hlong h
    rw [hfault] at hrun
    cases hrun
  obtain ⟨io1, hget, hat1, -⟩ := getNextHeader_at hF he hfits h hpos
  rw [loopBody, hget] at hrun
  simp only [hpath, hne, if_false] at hrun
  simp only [carrierMade, hget] at hmade
  rw [encode_length he]
  split at hrun
  · obtain ⟨io2, heat, hat2, -⟩ := eatBytes_at hF hat1
    refine finishEntry_at hF cb .ok e.header ?_ hamount hrun
    rw [skipEntry, he.header_size, heat]
    exact hat2
  · rename_i ch hsel
    obtain ⟨hsize, hmode⟩ := selectEntry_keeps hmaps hsel
    rw [← hmode] at hplain
    rw [he.header_size] at hsize
    rw [hsel] at hmade
    cases hinst : installEntry S cb
        { s with io := io1, log := s.log ++ [.selected ch] } ch with
    | none => simp [hinst] at hrun
    | some r =>
      obtain ⟨rc, s1⟩ := r
      simp only [hinst] at hrun
      have hrc : rc = .ok := by
        by_contra hrc
        simp [finishEntry, hrc] at hrun
      subst hrc
      have hcarry : carries s.links ch = true → canCreate S cb io1 s.lastDir ch = true := by
        intro hc
        simpa [hc] using hmade
      have hat2 := installEntry_at hF cb hsize hplain (by exact hat1) hcarry hinst
      exact finishEntry_at hF cb .ok ch (by simpa [recordFailure] using hat2) hamount hrun

theorem loopBody_trailer (hF : FullReads S stream) (cb : Bool) {s s' : St W} (he : e.WellFormed)
    (htrail : e.path = TRAILER) (hpos : pos % 4 = 0) (h : At stream s.io pos (e.encode ++ rest)) :
    loopBody S cb mappings s ≠ .running s' := by
  by_cases hfits : e.NameFits
  case neg =>
    obtain ⟨s2, hfault⟩ := loopBody_long hF mappings cb he hfits h
    rw [hfault]
    simp
  have hpath : e.header.path = TRAILER := by rw [← htrail, Entry.header]
  obtain ⟨io1, hget, -, -⟩ := getNextHeader_at hF he hfits h hpos
  rw [loopBody, hget]
  simp only [hpath, if_true]
  intro hrun
  cases hrun

theorem run_at (hF : FullReads S stream) (cb : Bool) (hmaps : KeepsMode mappings) (es : List Entry)
    {t : Entry} {tail : Str} (hes : ∀ e ∈ es, e.WellFormed ∧ e.path ≠ TRAILER ∧
      (S_ISREG e.header.mode = false → S_ISLNK e.header.mode = false → e.data = []))
    (ht : t.WellFormed) (htrail : t.path = TRAILER) (n : ℕ) {s s' : St W} (hpos : pos % 4 = 0)
    (h : At stream s.io pos (encodeAll es ++ (t.encode ++ tail)))
    (hmade : along (fun s (_ : Unit) => loopBody S cb mappings s)
      (fun s _ => carrierMade S cb mappings s) s (List.replicate n ()) = true)
    (hrun : run (fun s (_ : Unit) => loopBody S cb mappings s) s (List.replicate n ()) =
      .running s') :
    n ≤ es.length ∧ At stream s'.io (pos + (encodeAll (es.take n)).length)
      (encodeAll (es.drop n) ++ (t.encode ++ tail)) := by
  induction n generalizing s pos es with
  | zero =>
    obtain rfl := Status.running.inj hrun
    exact ⟨Nat.zero_le _, by simpa [encodeAll] using h⟩
  | succ n ih =>
    rw [List.replicate_succ, along, Bool.and_eq_true] at hmade
    rw [List.replicate_succ] at hrun
    cases hbody : loopBody S cb mappings s with
    | stopped o =>
      rw [run_cons_stopped _ hbody] at hrun
      cases hrun
    | running s1 =>
      rw [run_cons_running _ hbody] at hrun
      rw [hbody] at hmade
      cases es with
      | nil => exact absurd hbody (loopBody_trailer hF cb ht htrail hpos h)
      | cons e es =>
        obtain ⟨he, hne, hplain⟩ := hes e (by simp)
        have halign := he.aligned.2
        rw [encodeAll_cons, List.append_assoc] at h
        have h1 := loopBody_at hF cb hmaps he hne hplain hpos h hmade.1 hbody
        obtain ⟨hn, h2⟩ := ih es (fun x hx => hes x (by simp [hx])) (by omega) h1 hmade.2 hrun
        refine ⟨Nat.succ_le_succ hn, ?_⟩
        rw [List.take_succ_cons, List.drop_succ_cons, encodeAll_cons, List.length_append]
        convert h2 using 1
        push_cast
        omega

end Loop

/-- Whatever the calls on files return: as long as every data member of a hard-link group can be
made, `n` rounds that go on have read exactly the first `n` entries. -/
theorem installLoop_synced (S : Sys W) (stream : W → Str) (hF : FullReads S stream) (cb : Bool)
    (mappings : Option (List FileMapping)) (hmaps : KeepsMode mappings) (A : Archive)
    (hplain : ∀ e ∈ A.entries, S_ISREG e.header.mode = false → S_ISLNK e.header.mode = false →
      e.data = [])
    (tail : Str) (w : W) (hin : stream w = A.bytes ++ tail) (lastDir : Option Str) (n : ℕ)
    (s : St W)
    (hmade : along (fun s (_ : Unit) => loopBody S cb mappings s)
      (fun s _ => carrierMade S cb mappings s) (startState w lastDir) (List.replicate n ()) = true)
    (hrun : installLoop S cb mappings n (startState w lastDir) = .running s) :
    n ≤ A.entries.length ∧
      stream s.io.w = encodeAll (A.entries.drop n) ++ A.trailer.encode ++ tail ∧
      s.io.pos = (encodeAll (A.entries.take n)).length ∧ s.io.pos % 4 = 0 := by
  have hstart : At stream (startState w lastDir).io 0
      (encodeAll A.entries ++ (A.trailer.encode ++ tail)) := by
    refine ⟨rfl, ?_⟩
    rw [← List.append_assoc]
    exact hin
  obtain ⟨hn, hat⟩ := run_at hF cb hmaps A.entries
    (fun e he => ⟨A.wellFormed e he, A.noTrailer e he, hplain e he⟩) A.trailerWellFormed
    A.isTrailer n rfl hstart hmade hrun
  have halign : (encodeAll (A.entries.take n)).length % 4 = 0 :=
    encodeAll_aligned (fun e he => A.wellFormed e (List.mem_of_mem_take he))
  have hpos : s.io.pos = (encodeAll (A.entries.take n)).length := by rw [hat.pos_eq, Int.zero_add]
  refine ⟨hn, ?_, hpos, by omega⟩
  rw [hat.rest_eq, List.append_assoc]

/-- One of the two names of a file, with the data. -/
def oneCarrier : Archive where
  entries := [newcEntry 1 0o100644 2 (ascii "a") (ascii "x")]
  trailer := trailerEntry
  wellFormed := by decide +kernel
  trailerWellFormed := trailerEntry_wellFormed
  isTrailer := trailerEntry_path
  noTrailer := by decide

theorem installLoop_synced_oneCarrier :
    ∃ s, installLoop pipeSys false none 1 (startState (oneCarrier.bytes, []) none) = .running s ∧
      s.io.w.1 = encodeAll (oneCarrier.entries.drop 1) ++ oneCarrier.trailer.encode ++ [] := by
  refine ⟨_, rfl, ?_⟩
  have h := installLoop_synced pipeSys Prod.fst pipeSys_fullReads false none (by simp [KeepsMode])
    oneCarrier (by decide +kernel) [] (oneCarrier.bytes, []) (by simp) none 1 _
    (by decide +kernel) rfl
  exact h.2.1

def noOpen : Sys (Str × Str) := { pipeSys with openFile := fun w _ => (none, w) }

theorem noOpen_fullReads : FullReads noOpen Prod.fst :=
  { pipeSys_fullReads with openFile := fun _ _ => rfl }

theorem lost_carrier_desyncs :
    FullReads noOpen Prod.fst ∧
    ∃ s, installLoop noOpen false none 1 (startState (oneCarrier.bytes, []) none) = .running s ∧
      s.io.w.1 ≠ encodeAll (oneCarrier.entries.drop 1) ++ oneCarrier.trailer.encode := by
  refine ⟨noOpen_fullReads, _, rfl, ?_⟩
  decide +kernel

end Comodoo.CpioSync
