import Comodoo.CpioLog
import Comodoo.CpioTreeInstall

set_option autoImplicit false

/-!
# Installing through mappings

`myCpioInstallArchive` of `isys/uncpio.c` with an array of `struct cpioFileMapping`. As `cpio.h`
has it, a mapping gives an entry another path, another owner and other permission bits, and leaves
the file type alone.
-/
namespace Comodoo.CpioMapped
open CString CpioSystem CpioRead CpioExpand CpioInstall CpioLog CpioFormat CpioStream CpioDisk
open CpioDiskCalls CpioDiskFiles CpioTree CpioTreeGroups CpioTreeSteps CpioTreeMembers
open CpioTreeRun CpioTreeCorrect CpioTreeInstall FilePath StepRun

def myCpioFileMapCmp (first second : FileMapping) : Ordering :=
  strcmp first.archivePath second.archivePath

def Sorted (mappings : List FileMapping) : Prop :=
  mappings.Pairwise (fun m m' => myCpioFileMapCmp m m' = .lt)

instance (mappings : List FileMapping) : Decidable (Sorted mappings) :=
  inferInstanceAs (Decidable (List.Pairwise _ _))

/-- What a mapping is meant to make of an entry. -/
def mapped (map : FileMapping) (ch : CpioHeader) : CpioHeader :=
  { ch with
    path := if map.mapFlags.testBit 0 then map.fsPath else ch.path,
    mode := if map.mapFlags.testBit 1 then ch.mode / 4096 * 4096 + map.finalMode % 4096
      else ch.mode,
    uid := if map.mapFlags.testBit 2 then map.finalUid else ch.uid,
    gid := if map.mapFlags.testBit 3 then map.finalGid else ch.gid }

theorem mapped_size (map : FileMapping) (ch : CpioHeader) : (mapped map ch).size = ch.size := rfl

def mappingOf (mappings : List FileMapping) (path : Str) : Option FileMapping :=
  mappings.find? (fun map => map.archivePath = path)

def choose (mappings : List FileMapping) (e : Item) : Option Item :=
  (mappingOf mappings e.head.path).map (fun map => ⟨mapped map e.head, e.data⟩)

def chosen (mappings : List FileMapping) (es : List Item) : List Item :=
  es.filterMap (choose mappings)

/-- Where the mapping of an entry has a mode, its file type is that of the entry. -/
def KeepsTypes (mappings : List FileMapping) (es : List Item) : Prop :=
  ∀ e ∈ es, ∀ map ∈ mappings, map.archivePath = e.head.path → map.mapFlags.testBit 1 = true →
    S_IFMT map.finalMode = S_IFMT e.head.mode

instance (mappings : List FileMapping) (es : List Item) : Decidable (KeepsTypes mappings es) :=
  inferInstanceAs (Decidable (∀ e ∈ es, ∀ map ∈ mappings, map.archivePath = e.head.path →
    map.mapFlags.testBit 1 = true → S_IFMT map.finalMode = S_IFMT e.head.mode))

/-- The bits of the mode that a file has. -/
def trimmed (ch : CpioHeader) : CpioHeader := { ch with mode := ch.mode % 65536 }

section Search

variable {s t u : Str} {ms : List FileMapping}

theorem comparNeedle_sign (path : Str) (map : FileMapping) :
    (comparNeedle path map < 0 ↔ strcmp path map.archivePath = .lt) ∧
      (comparNeedle path map = 0 ↔ path = map.archivePath) ∧
      (0 < comparNeedle path map ↔ strcmp map.archivePath path = .lt) := by
  rw [comparNeedle, ← strcmp_eq, ← strcmp_gt (s := path)]
  cases strcmp path map.archivePath <;> simp

theorem sorted_ordered (h : Sorted ms) (path : Str) :
    BinarySearch.Ordered comparNeedle path ms := by
  apply List.Pairwise.imp _ h
  intro m m' hlt
  obtain ⟨hneg, -, hpos⟩ := comparNeedle_sign path m
  obtain ⟨hneg', -, hpos'⟩ := comparNeedle_sign path m'
  rw [hneg, hneg', hpos, hpos']
  exact ⟨fun hm => strcmp_trans hm hlt, fun hm => strcmp_trans hlt hm⟩

theorem sorted_inj (h : Sorted ms) {m m' : FileMapping} (hm : m ∈ ms) (hm' : m' ∈ ms)
    (heq : m.archivePath = m'.archivePath) : m = m' := by
  have hne : ∀ m m', myCpioFileMapCmp m m' = .lt → m.archivePath ≠ m'.archivePath := by
    intro m m' hlt heq
    rw [myCpioFileMapCmp, strcmp_eq.mpr heq] at hlt
    cases hlt
  have hforward : ms.Pairwise (fun m m' => m.archivePath = m'.archivePath → m = m') :=
    h.imp (fun hlt heq => absurd heq (hne _ _ hlt))
  have hback : ms.Pairwise (fun m m' => m'.archivePath = m.archivePath → m' = m) :=
    h.imp (fun hlt heq => absurd heq.symm (hne _ _ hlt))
  exact List.Pairwise.forall_of_forall_of_flip (fun _ _ _ => rfl) hforward hback hm hm' heq

theorem bsearch_sorted (h : Sorted ms) (path : Str) :
    BinarySearch.bsearch comparNeedle path ms = mappingOf ms path := by
  cases hfound : mappingOf ms path with
  | none =>
    apply BinarySearch.bsearch_eq_none
    intro m hm hzero
    have hnot := List.find?_eq_none.mp hfound m hm
    simp [(comparNeedle_sign path m).2.1.mp hzero] at hnot
  | some map =>
    have hmem := List.mem_of_find?_eq_some hfound
    have hpath : map.archivePath = path := by simpa using List.find?_some hfound
    apply BinarySearch.bsearch_eq_some (sorted_ordered h path) hmem
      ((comparNeedle_sign path map).2.1.mpr hpath.symm)
    intro m hm hzero
    have hmpath := (comparNeedle_sign path m).2.1.mp hzero
    exact sorted_inj h hm hmem (hmpath.symm.trans hpath.symm)

theorem applyMapping_mapped {map : FileMapping} {ch : CpioHeader} :
    trimmed (applyMapping map ch) = trimmed (mapped map ch) ↔
      (map.mapFlags.testBit 1 = true → S_IFMT map.finalMode = S_IFMT ch.mode) := by
  rw [trimmed, trimmed, applyMapping, mapped, CpioHeader.mk.injEq, S_IFMT, S_IFMT]
  by_cases hflag : map.mapFlags.testBit 1 = true
  · simp only [hflag, if_true, true_and, and_true, forall_const]
    omega
  · simp [hflag]

end Search

section Choice

variable {ms : List FileMapping} {es : List Item} {e : Entry}

theorem mappingOf_eq_some (hms : Sorted ms) {path : Str} {map : FileMapping} :
    mappingOf ms path = some map ↔ map ∈ ms ∧ map.archivePath = path := by
  constructor
  · intro h
    exact ⟨List.mem_of_find?_eq_some h, by simpa using List.find?_some h⟩
  · rintro ⟨hmem, hpath⟩
    cases hfound : mappingOf ms path with
    | none =>
      have hnot := List.find?_eq_none.mp hfound map hmem
      simp [hpath] at hnot
    | some map' =>
      have hpath' : map'.archivePath = path := by simpa using List.find?_some hfound
      rw [sorted_inj hms (List.mem_of_find?_eq_some hfound) hmem (hpath'.trans hpath.symm)]

/-- The mapping of an entry, if it has a mode, has that of its type. -/
def TypeKept (mappings : List FileMapping) (ch : CpioHeader) : Prop :=
  ∀ map, mappingOf mappings ch.path = some map → map.mapFlags.testBit 1 = true →
    S_IFMT map.finalMode = S_IFMT ch.mode

theorem keepsTypes_iff (hms : Sorted ms) :
    KeepsTypes ms es ↔ ∀ e ∈ es, TypeKept ms e.head := by
  apply forall₂_congr
  intro e _
  constructor
  · intro h map hmap
    obtain ⟨hmem, hpath⟩ := (mappingOf_eq_some hms).mp hmap
    exact h map hmem hpath
  · intro h map hmem hpath
    exact h map ((mappingOf_eq_some hms).mpr ⟨hmem, hpath⟩)

theorem chosen_cons (ms : List FileMapping) (e : Item) (es : List Item) :
    chosen ms (e :: es) = (choose ms e).toList ++ chosen ms es := by
  rw [chosen, chosen, List.filterMap_cons]
  cases choose ms e <;> rfl

theorem selectEntry_eq_none (hms : Sorted ms) (h : mappingOf ms e.header.path = none) :
    selectEntry (some ms) e.header = none ∧ choose ms (itemOf e) = none := by
  rw [selectEntry, bsearch_sorted hms, choose, itemOf, h]
  exact ⟨rfl, rfl⟩

theorem selectEntry_eq_some (hms : Sorted ms) {map : FileMapping}
    (h : mappingOf ms e.header.path = some map) :
    selectEntry (some ms) e.header = some (applyMapping map e.header) ∧
      choose ms (itemOf e) = some ⟨mapped map e.header, e.data⟩ := by
  rw [selectEntry, bsearch_sorted hms, choose, itemOf, h]
  exact ⟨rfl, rfl⟩

end Choice

/-- The entries in the log, as they were to be created. -/
def entered (log : List Event) : List CpioHeader :=
  log.filterMap (fun ev => match ev with | .selected ch => some ch | _ => none)

section Log

variable {W : Type} {S : Sys W} {s s' : St W} {ch : CpioHeader} {rc : Rc} {log new : List Event}
  {mappings : Option (List FileMapping)}

theorem entered_append (log new : List Event) :
    entered (log ++ new) = entered log ++ entered new := by
  rw [entered, entered, entered, List.filterMap_append]

theorem entered_quiet (h : ∀ ev ∈ new, isSelected ev = false) : entered new = [] := by
  rw [entered, List.filterMap_eq_nil_iff]
  intro ev hev
  have hquiet := h ev hev
  cases ev with
  | selected ch => cases hquiet
  | result call path rc looked => rfl
  | linked source target => rfl

theorem createLinks_entered (s : St W) (li : HardLink) (looked : Bool) :
    entered (createLinks S s li looked).2.log = entered s.log := by
  obtain ⟨hlog, hquiet, -⟩ := createLinks_log (S := S) s li looked
  rw [hlog, entered_append, entered_quiet hquiet, List.append_nil]

theorem createFile_entered (cb : Bool) (h : createFile S cb s ch = some (rc, s')) :
    entered s'.log = entered s.log := by
  obtain ⟨-, new, hlog, hquiet, -⟩ := createFile_log cb h
  rw [hlog, entered_append, entered_quiet hquiet, List.append_nil]

theorem laterMember_entered (s : St W) (li : HardLink) (ch : CpioHeader) :
    entered (laterMember S s li ch).log = entered s.log := by
  rw [laterMember]
  split
  · exact createLinks_entered s li false
  · rw [entered_append, createLinks_entered]
    exact List.append_nil _

theorem installEntry_entered (cb : Bool) (h : installEntry S cb s ch = some (rc, s')) :
    entered s'.log = entered s.log := by
  rw [installEntry] at h
  split at h
  · dsimp only at h
    split at h
    · cases h
    · split at h
      · rw [← (Prod.mk.inj (Option.some.inj h)).2]
      · split at h
        · rw [← (Prod.mk.inj (Option.some.inj h)).2, laterMember_entered]
        · rw [dataMember, Option.map_eq_some_iff] at h
          obtain ⟨⟨rc1, s1⟩, hmade, hlinks⟩ := h
          have hs' := congrArg (fun r => entered r.2.log) hlinks
          dsimp only at hs'
          rw [← hs', createLinks_entered, createFile_entered cb hmade]
  · exact createFile_entered cb h

theorem recordFailure_log (rc : Rc) (s : St W) (ch : CpioHeader) :
    (recordFailure S rc s ch).log = s.log := by
  rw [recordFailure]
  split <;> rfl

theorem skipEntry_entered (s : St W) (ch : CpioHeader) :
    entered (skipEntry S s ch).log = entered s.log := by
  rw [skipEntry, entered_append]
  exact List.append_nil _

theorem skipEntry_eq {io : Io W} (h : eatBytes S s.io ch.size = (rc, io)) :
    skipEntry S s ch =
      { s with io := io, log := s.log ++ [.result .eatBytes ch.path rc false] } := by
  rw [skipEntry, h]

theorem finishEntry_log (cb : Bool) (rc : Rc) (s : St W) (ch : CpioHeader) :
    (finishEntry S cb rc s ch).Sat (fun s' => s'.log = s.log)
      (fun o => o.1 ≠ .ended .ok ∧ o.2.log = s.log) := by
  rw [finishEntry]
  split
  · rfl
  · rename_i hrc
    exact ⟨fun h => hrc (LoopEnd.ended.inj h), rfl⟩

theorem loopBody_entered (mappings : Option (List FileMapping)) (cb : Bool) {io : Io W} {phys : Str}
    (hget : getNextHeader S s.io = (.header ch phys, io)) (hne : ch.path ≠ TRAILER) :
    (loopBody S cb mappings s).Sat
      (fun s' => entered s'.log = entered s.log ++ (selectEntry mappings ch).toList)
      (fun o => o.1 ≠ .ended .ok ∧ entered s.log <+: entered o.2.log) := by
  rw [loopBody, hget]
  simp only [hne, if_false]
  cases hsel : selectEntry mappings ch with
  | none =>
    apply (finishEntry_log cb .ok (skipEntry S { s with io := io } ch) ch).imp
    · intro s' hlog
      rw [hlog, skipEntry_entered]
      simp
    · rintro o ⟨hend, hlog⟩
      rw [hlog, skipEntry_entered]
      exact ⟨hend, List.prefix_refl _⟩
  | some ch' =>
    dsimp only
    split
    · exact ⟨by simp, List.prefix_refl _⟩
    · rename_i rc s1 hrun
      have hlog1 := installEntry_entered cb hrun
      rw [entered_append] at hlog1
      apply (finishEntry_log cb rc (recordFailure S rc s1 ch') ch').imp
      · intro s' hlog
        rw [hlog, recordFailure_log, hlog1]
        rfl
      · rintro o ⟨hend, hlog⟩
        rw [hlog, recordFailure_log, hlog1]
        exact ⟨hend, List.prefix_append _ _⟩

theorem loopBody_skip {W : Type} {S : Sys W} {s : St W} {io : Io W} {ch : CpioHeader} {phys : Str}
    {mappings : Option (List FileMapping)} (cb : Bool)
    (hget : getNextHeader S s.io = (.header ch phys, io)) (hne : ch.path ≠ TRAILER)
    (hsel : selectEntry mappings ch = none) :
    loopBody S cb mappings s = finishEntry S cb .ok (skipEntry S { s with io := io } ch) ch := by
  rw [loopBody, hget]
  simp only [hne, if_false, hsel]

theorem finishEntry_ok {W : Type} {S : Sys W} (cb : Bool) (s : St W) (ch : CpioHeader) :
    ∃ s', finishEntry S cb .ok s ch = .running s' ∧ s'.io.pos = (padinfd S s.io 4).pos ∧
      s'.io.w = (padinfd S s.io 4).w ∧ s'.links = s.links ∧ s'.lastDir = s.lastDir ∧
      s'.log = s.log := by
  rw [finishEntry, if_pos rfl]
  refine ⟨_, rfl, ?_, ?_, rfl, rfl, rfl⟩
  · split <;> rfl
  · split <;> rfl

theorem loopBody_grows (S : Sys W) (mappings : Option (List FileMapping)) (cb : Bool) (s : St W) :
    (loopBody S cb mappings s).Sat (fun s' => entered s.log <+: entered s'.log)
      (fun o => entered s.log <+: entered o.2.log) := by
  cases hget : getNextHeader S s.io with
  | mk result io =>
    cases result with
    | fault => 
      rw [loopBody, hget]
      exact List.prefix_refl _
    | error rc =>
      rw [loopBody, hget]
      exact List.prefix_refl _
    | header ch phys =>
      by_cases htrail : ch.path = TRAILER
      · rw [loopBody_last cb hget htrail]
        exact List.prefix_refl _
      · apply (loopBody_entered mappings cb hget htrail).imp
        · intro s' hlog
          rw [hlog]
          exact List.prefix_append _ _
        · exact fun o ho => ho.2

theorem installLoop_grows (S : Sys W) (mappings : Option (List FileMapping)) (cb : Bool)
    (fuel : ℕ) (s : St W) :
    (installLoop S cb mappings fuel s).Sat (fun s' => entered s.log <+: entered s'.log)
      (fun o => entered s.log <+: entered o.2.log) := by
  induction fuel generalizing s with
  | zero => exact List.prefix_refl _
  | succ fuel ih =>
    have hbody := loopBody_grows S mappings cb s
    rw [installLoop, List.replicate_succ, run]
    cases hrun : loopBody S cb mappings s with
    | running s1 =>
      rw [hrun] at hbody
      exact (ih s1).imp (fun _ h => hbody.trans h) (fun _ h => hbody.trans h)
    | stopped o =>
      rw [hrun] at hbody
      exact hbody

theorem sweepLinks_entered (links : List HardLink) {s s' : St W}
    (h : sweepLinks S links s = (rc, s')) : entered s'.log = entered s.log := by
  induction links generalizing s with
  | nil => rw [← (Prod.mk.inj h).2]
  | cons li links ih =>
    rw [sweepLinks] at h
    split at h
    · split at h
      · rw [← (Prod.mk.inj h).2]
      · have hlinks := createLinks_entered (S := S) s li true
        split at h
        · rename_i s1 hcall
          rw [hcall] at hlinks
          rw [ih h, hlinks]
        · rename_i rc1 s1 _ hcall
          rw [hcall] at hlinks
          rw [← (Prod.mk.inj h).2, hlinks]
    · exact ih h

theorem returned_ok {W : Type} {S : Sys W} {cb : Bool} {mappings : Option (List FileMapping)}
    {fuel : ℕ} {w : W}
    {lastDir : Option Str} {s : St W}
    (h : myCpioInstallArchive S cb mappings fuel w lastDir = (.returned .ok, s)) :
    ∃ s1, installLoop S cb mappings fuel (startState w lastDir) = .stopped (.ended .ok, s1) ∧
      sweepLinks S s1.links s1 = (.ok, s) := by
  rw [myCpioInstallArchive] at h
  split at h
  · cases h
  · cases h
  · cases h
  · rename_i s1 hloop
    refine ⟨s1, hloop, ?_⟩
    cases hsweep : sweepLinks S s1.links s1 with
    | mk rc s2 =>
      rw [hsweep] at h
      obtain ⟨hrc, hs⟩ := Prod.mk.inj h
      rw [Outcome.returned.inj hrc, hs]
  · rename_i rc s1 hok hloop
    obtain ⟨hrc, -⟩ := Prod.mk.inj h
    obtain rfl := Outcome.returned.inj hrc
    exact absurd rfl hok

end Log

end Comodoo.CpioMapped
