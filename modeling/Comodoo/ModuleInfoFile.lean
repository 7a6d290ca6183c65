import Comodoo.ModuleListRead

set_option autoImplicit false

/-!
# Any file behind the version line

The pointers `readModuleInfo` uses while it cuts the buffer into lines, and where its loop ends.
A last line without newline leaves `chptr` NULL, and the test for a syntax error repeats the one
in front of it.
-/
namespace Comodoo.ModuleInfoFile
open CString ByteMemory ModuleList ModuleListScan ModuleListRead

/-- What a pointer points to: an offset into the buffer or, `none`, some other place. -/
abbrev Pointer := Option ℕ

/-- `strlen`, `strcmp` and `strdup` read up to the NUL. -/
def stringReads (m : Mem) (size start : ℕ) : List ℕ := scanReads (fun b => b = 0) m size start

/-- `while (isspace(*chptr)) chptr--` -/
def trimReads (m : Mem) : ℕ → List Pointer
  | 0 => some 0 :: if isspace (m 0) then [none] else []
  | chptr + 1 => some (chptr + 1) :: if isspace (m (chptr + 1)) then trimReads m chptr else []

/-- `while (!isspace(*chptr) && chptr > start) chptr--` -/
def wordBack (m : Mem) (start : ℕ) : ℕ → ℕ
  | 0 => 0
  | chptr + 1 => if !isspace (m (chptr + 1)) && start < chptr + 1 then wordBack m start chptr
      else chptr + 1

/-- `chptr = start + strlen(start) - 1` -/
def lastOf (m : Mem) (size start : ℕ) : ℕ := scanTo (fun b => b = 0) m size start - 1

def typeReads (m : Mem) (size start : ℕ) : List ℕ :=
  let chptr := wordBack m start (lastOf m size start)
  stringReads m size start ++ List.range' chptr (lastOf m size start + 1 - chptr) ++
    stringReads m size (if chptr = start then chptr else chptr + 1)

def descriptionReads (m : Mem) (size start : ℕ) : List ℕ :=
  let chptr := lastOf m size start
  stringReads m size start ++ [start, chptr] ++
    if m start = quote ∧ m chptr = quote then
      stringReads (Function.update m chptr 0) size (start + 1)
    else []

def argReads (m : Mem) (size start : ℕ) : List ℕ :=
  let chptr := scanTo (fun b => isspace b || b = 0) m size start
  scanReads (fun b => isspace b || b = 0) m size start ++
    if m chptr = 0 then []
    else
      let m := Function.update m chptr 0
      let quoted := scanTo (fun b => b = 0 || !isspace b) m size (chptr + 1)
      stringReads m size start ++ scanReads (fun b => b = 0 || !isspace b) m size (chptr + 1) ++
        if m quoted = quote then
          let close := scanTo (fun b => b = quote || b = 0) m size (quoted + 1)
          scanReads (fun b => b = quote || b = 0) m size (quoted + 1) ++
            if m close = 0 then []
            else stringReads (Function.update m close 0) size (quoted + 1)
        else []

/-- The entry `nextModule` points to decides what an indented line is read as. -/
def textReads (s : Parsed) (m : Mem) (size start : ℕ) : List ℕ :=
  match s.nextModule.bind (fun i => s.moduleList[i]?) with
  | none => []
  | some e =>
    if e.major = .none then typeReads m size start
    else if e.description = none then descriptionReads m size start
    else argReads m size start

/-- The line at `start`, cut in `buf`: its indentation, its first byte, and its text. -/
def lineReads (s : Parsed) (buf : Mem) (size start : ℕ) : List ℕ :=
  let isIndented := isspace (buf start)
  let text := if isIndented then scanTo (fun b => !isspace b || b = LF) buf size start else start
  start :: (if isIndented then scanReads (fun b => !isspace b || b = LF) buf size start else []) ++
    text :: if buf text = LF ∨ buf text = 0 ∨ buf text = hash then []
      else if isIndented then textReads s buf size text
      else stringReads buf size text

/-- Where a round's line ends, at a newline or at the NUL. -/
def lineEnd (size : ℕ) (s : Scan) : ℕ := scanTo (fun b => b = LF ∨ b = 0) s.buf size s.start

def linePointers (size : ℕ) (s : Scan) : List Pointer :=
  let stop := lineEnd size s
  (scanReads (fun b => b = LF ∨ b = 0) s.buf size s.start).map some ++
    -- an offset of NULL
    if s.buf stop = 0 then [none]
    else
      let chptr := trimEnd s.buf (stop - 1) + 1
      trimReads s.buf (stop - 1) ++
        (chptr :: lineReads s.parsed (Function.update s.buf chptr 0) size s.start).map some

def loopPointers (location : Option ℕ) (override : Bool) (size : ℕ) : ℕ → Scan → List Pointer
  | 0, _ => []
  | fuel + 1, s =>
    some s.start ::
      if s.buf s.start = 0 then []
      else linePointers size s ++
        match readLine location override size s with
        | none => []
        | some s => loopPointers location override size fuel s

def loopEnd (location : Option ℕ) (override : Bool) (size : ℕ) : ℕ → Scan → Option ℕ
  | 0, _ => none
  | fuel + 1, s =>
    if s.buf s.start = 0 then some s.start
    else (readLine location override size s).bind (loopEnd location override size fuel)

def fileOf (body : Str) : Str := ascii "Version 0\n" ++ body

def opened (m : Mem) (body : Str) (mis : List ModuleInfo) : Scan :=
  ⟨store m 0 (fileOf body ++ [0]), 10, ⟨mis, mis.length, mis.length, none, false⟩⟩

/-- What the lines ask for, a last one without newline included. -/
def asked (body : Str) (mis : List ModuleInfo) (location : Option ℕ) (override : Bool) :
    ReadResult :=
  match (kinds body).find? (fun k => k ≠ .skip) with
  | some (.text _) => .returned 1 mis
  | _ => .returned 0 ((blocksOf (kinds body)).foldl (applyBlock location override) mis)

/-- The call does what the lines ask for. Its pointers stay in the buffer, and without a syntax
error the loop ends behind the last line. -/
structure FileRight (m : Mem) (body : Str) (mis : List ModuleInfo) (location : Option ℕ)
    (override : Bool) : Prop where
  result : readModuleInfo m true true (fileOf body) mis location override =
    asked body mis location override
  inside : ∀ p ∈ loopPointers location override ((fileOf body).length + 1)
    ((fileOf body).length + 1) (opened m body mis), ∃ a, p = some a ∧ a ≤ (fileOf body).length
  ends : asked body mis location override ≠ .returned 1 mis →
    loopEnd location override ((fileOf body).length + 1) ((fileOf body).length + 1)
      (opened m body mis) = some (fileOf body).length

section Reads

variable {m : Mem} {size start z : ℕ}

theorem stringReads_le (hz : m z = 0) (ha : start ≤ z) : ∀ i ∈ stringReads m size start, i ≤ z :=
  fun i hi => (scanReads_within (by rw [hz]; rfl) ha i hi).2

theorem trimReads_inside (h0 : isspace (m 0) = false) {chptr : ℕ} (hle : chptr ≤ z) :
    ∀ p ∈ trimReads m chptr, ∃ a, p = some a ∧ a ≤ z := by
  induction chptr with
  | zero =>
    intro p hp
    rw [trimReads, if_neg (by rw [h0]; decide), List.mem_singleton] at hp
    exact ⟨0, hp, hle⟩
  | succ chptr ih =>
    intro p hp
    rw [trimReads, List.mem_cons] at hp
    rcases hp with rfl | hp
    · exact ⟨chptr + 1, rfl, hle⟩
    by_cases hspace : isspace (m (chptr + 1)) = true
    · rw [if_pos hspace] at hp
      exact ih (by omega) p hp
    · rw [if_neg hspace] at hp
      exact absurd hp List.not_mem_nil

theorem wordBack_le (m : Mem) (start chptr : ℕ) : wordBack m start chptr ≤ chptr := by
  induction chptr with
  | zero => exact Nat.le_refl 0
  | succ chptr ih =>
    rw [wordBack]
    split
    · omega
    · exact Nat.le_refl _

theorem lastOf_lt (hz : m z = 0) (hsize : z < size) (hpos : 0 < start) (ha : start ≤ z) :
    lastOf m size start < z := by
  obtain ⟨hlow, hhigh, -⟩ :=
    scanTo_spec (p := fun b => b = 0) (m := m) (by rw [hz]; rfl) ha (show z - start < size by omega)
  rw [lastOf]
  omega

theorem typeReads_le (hz : m z = 0) (hsize : z < size) (hpos : 0 < start) (ha : start ≤ z) :
    ∀ i ∈ typeReads m size start, i ≤ z := by
  have hlast := lastOf_lt hz hsize hpos ha
  have hword := wordBack_le m start (lastOf m size start)
  intro i hi
  rw [typeReads, List.mem_append, List.mem_append] at hi
  rcases hi with (hi | hi) | hi
  · exact stringReads_le hz ha i hi
  · rw [List.mem_range'_1] at hi
    omega
  · refine stringReads_le hz ?_ i hi
    split
    · omega
    · omega

theorem descriptionReads_le (hz : m z = 0) (hsize : z < size) (hpos : 0 < start) (ha : start ≤ z) :
    ∀ i ∈ descriptionReads m size start, i ≤ z := by
  have hlast := lastOf_lt hz hsize hpos ha
  intro i hi
  rw [descriptionReads, List.mem_append, List.mem_append] at hi
  rcases hi with (hi | hi) | hi
  · exact stringReads_le hz ha i hi
  · rw [List.mem_cons, List.mem_singleton] at hi
    omega
  · split at hi
    · rename_i hquoted
      have hne : start ≠ z := by
        rintro rfl
        rw [hz] at hquoted
        exact absurd hquoted.1 (by decide)
      exact stringReads_le (update_zero hz) (by omega) i hi
    · exact absurd hi List.not_mem_nil

/-- A scan that stops at a byte other than NUL leaves room for the next pointer. -/
theorem scanTo_lt {p : UInt8 → Bool} (hp : p 0 = true) (hz : m z = 0) (hsize : z < size)
    (ha : start ≤ z) (hne : m (scanTo p m size start) ≠ 0) : scanTo p m size start < z := by
  obtain ⟨-, hhigh, -⟩ := scanTo_spec (m := m) (by rw [hz]; exact hp) ha
    (show z - start < size by omega)
  refine Nat.lt_of_le_of_ne hhigh fun heq => hne ?_
  rw [heq, hz]

theorem argReads_le (hz : m z = 0) (hsize : z < size) (ha : start ≤ z) :
    ∀ i ∈ argReads m size start, i ≤ z := by
  intro i hi
  rw [argReads, List.mem_append] at hi
  rcases hi with hi | hi
  · exact (scanReads_within (by rw [hz]; rfl) ha i hi).2
  split at hi
  · exact absurd hi List.not_mem_nil
  rename_i hword
  have hchptr := scanTo_lt (by rfl) hz hsize ha hword
  generalize scanTo (fun b => isspace b || b = 0) m size start = chptr at hi hword hchptr
  have hz' : Function.update m chptr 0 z = 0 := update_zero hz
  generalize Function.update m chptr 0 = m' at hi hz'
  rw [List.mem_append, List.mem_append] at hi
  rcases hi with (hi | hi) | hi
  · exact stringReads_le hz' ha i hi
  · exact (scanReads_within (by rw [hz']; rfl) (by omega) i hi).2
  split at hi
  · rename_i hquoted
    have hne : m' (scanTo (fun b => b = 0 || !isspace b) m' size (chptr + 1)) ≠ 0 := by
      rw [hquoted]
      decide
    have hlt := scanTo_lt (by rfl) hz' hsize (by omega) hne
    rw [List.mem_append] at hi
    rcases hi with hi | hi
    · exact (scanReads_within (by rw [hz']; rfl) (by omega) i hi).2
    split at hi
    · exact absurd hi List.not_mem_nil
    · exact stringReads_le (update_zero hz') (by omega) i hi
  · exact absurd hi List.not_mem_nil

theorem textReads_le (s : Parsed) (hz : m z = 0) (hsize : z < size) (hpos : 0 < start)
    (ha : start ≤ z) : ∀ i ∈ textReads s m size start, i ≤ z := by
  intro i hi
  rw [textReads] at hi
  split at hi
  · exact absurd hi List.not_mem_nil
  split at hi
  · exact typeReads_le hz hsize hpos ha i hi
  split at hi
  · exact descriptionReads_le hz hsize hpos ha i hi
  · exact argReads_le hz hsize ha i hi

theorem lineReads_le (s : Parsed) (hz : m z = 0) (hsize : z < size) (hpos : 0 < start)
    (ha : start ≤ z) : ∀ i ∈ lineReads s m size start, i ≤ z := by
  have htext : start ≤ (if isspace (m start) then
        scanTo (fun b => !isspace b || b = LF) m size start else start) ∧
      (if isspace (m start) then
        scanTo (fun b => !isspace b || b = LF) m size start else start) ≤ z := by
    split
    · obtain ⟨hlow, hhigh, -⟩ := scanTo_spec (p := fun b => !isspace b || b = LF) (m := m)
        (by rw [hz]; rfl) ha (show z - start < size by omega)
      exact ⟨hlow, hhigh⟩
    · exact ⟨Nat.le_refl _, ha⟩
  intro i hi
  rw [lineReads] at hi
  generalize (if isspace (m start) then
    scanTo (fun b => !isspace b || b = LF) m size start else start) = text at hi htext
  rw [List.cons_append, List.mem_cons, List.mem_append, List.mem_cons] at hi
  rcases hi with rfl | hi | rfl | hi
  · exact ha
  · split at hi
    · exact (scanReads_within (by rw [hz]; rfl) ha i hi).2
    · exact absurd hi List.not_mem_nil
  · exact htext.2
  split at hi
  · exact absurd hi List.not_mem_nil
  split at hi
  · exact textReads_le s hz hsize (by omega) htext.2 i hi
  · exact stringReads_le hz htext.2 i hi

end Reads

section Rounds

variable {location : Option ℕ} {override : Bool} {size z : ℕ} {m : Mem} {s s' : Scan}

theorem trimEnd_le (m : Mem) (stop : ℕ) : trimEnd m stop ≤ stop := by
  induction stop with
  | zero => exact Nat.le_refl 0
  | succ stop ih =>
    rw [trimEnd]
    split
    · omega
    · exact Nat.le_refl _

/-- The buffer `m` with a NUL at `z`, after some rounds: lines are cut in front of `start` only,
and `start` follows a newline. -/
structure Cut (m : Mem) (z : ℕ) (s : Scan) : Prop where
  behind : ∀ i, s.start ≤ i → s.buf i = m i
  zeroed : ∀ i, s.buf i = m i ∨ s.buf i = 0
  low : 10 ≤ s.start
  high : s.start ≤ z
  line : s.start = 10 ∨ m (s.start - 1) = LF

theorem readLine_some (h : readLine location override size s = some s') :
    s.buf (lineEnd size s) ≠ 0 ∧ s'.start = lineEnd size s + 1 ∧
      s'.buf = Function.update s.buf (trimEnd s.buf (lineEnd size s - 1) + 1) 0 := by
  rw [readLine] at h
  split at h
  · cases h
  · rename_i hne
    obtain ⟨parsed, -, rfl⟩ := Option.map_eq_some_iff.mp h
    exact ⟨hne, rfl, rfl⟩

theorem Cut.lineEnd_spec (h : Cut m z s) (hz : m z = 0) (hsize : z < size) :
    s.start ≤ lineEnd size s ∧ lineEnd size s ≤ z ∧
      (s.buf (lineEnd size s) = LF ∨ s.buf (lineEnd size s) = 0) := by
  have hbuf : s.buf z = 0 := (h.behind z h.high).trans hz
  obtain ⟨hlow, hhigh, hstop⟩ := scanTo_spec (p := fun b => b = LF ∨ b = 0) (m := s.buf)
    (by rw [hbuf]; rfl) h.high (show z - s.start < size by omega)
  exact ⟨hlow, hhigh, of_decide_eq_true hstop⟩

theorem Cut.step (h : Cut m z s) (hz : m z = 0) (hsize : z < size)
    (hread : readLine location override size s = some s') : Cut m z s' := by
  obtain ⟨hne, hstart, hbuf⟩ := readLine_some hread
  obtain ⟨hlow, hhigh, hstop⟩ := h.lineEnd_spec hz hsize
  have hLF : m (lineEnd size s) = LF := by
    rw [← h.behind _ hlow]
    exact hstop.resolve_right hne
  have hcut := trimEnd_le s.buf (lineEnd size s - 1)
  have h10 := h.low
  have hlt : lineEnd size s ≠ z := by
    intro heq
    rw [heq, hz] at hLF
    exact absurd hLF (by decide)
  refine ⟨fun i hi => ?_, fun i => ?_, by omega, by omega, Or.inr ?_⟩
  · rw [hbuf, Function.update_of_ne (by omega)]
    exact h.behind i (by omega)
  · rw [hbuf]
    rcases h.zeroed i with hi | hi
    · by_cases heq : i = trimEnd s.buf (lineEnd size s - 1) + 1
      · exact Or.inr (heq ▸ Function.update_self ..)
      · exact Or.inl (by rw [Function.update_of_ne heq, hi])
    · exact Or.inr (update_zero hi)
  · rw [hstart, Nat.add_sub_cancel]
    exact hLF

theorem Cut.loopEnd_spec (h : Cut m z s) (hz : m z = 0) (hsize : z < size) {fuel stop : ℕ}
    (hend : loopEnd location override size fuel s = some stop) :
    m stop = 0 ∧ 10 ≤ stop ∧ stop ≤ z ∧ (stop = 10 ∨ m (stop - 1) = LF) := by
  induction fuel generalizing s with
  | zero => cases hend
  | succ fuel ih =>
    rw [loopEnd] at hend
    split at hend
    · rename_i hnul
      obtain rfl : s.start = stop := Option.some.inj hend
      exact ⟨(h.behind _ (Nat.le_refl _)).symm.trans hnul, h.low, h.high, h.line⟩
    · obtain ⟨s', hread, hrest⟩ := Option.bind_eq_some_iff.mp hend
      exact ih (h.step hz hsize hread) hrest

theorem loopEnd_of_returned {fuel : ℕ} {rc : ℤ} {mis : List ModuleInfo}
    (h : readLines location override size fuel s = .returned rc mis) :
    rc = 0 ∧ ∃ stop, loopEnd location override size fuel s = some stop := by
  induction fuel generalizing s with
  | zero => cases h
  | succ fuel ih =>
    rw [readLines] at h
    rw [loopEnd]
    split at h
    · rename_i hnul
      cases h
      exact ⟨rfl, s.start, if_pos hnul⟩
    · rename_i hnul
      rw [if_neg hnul]
      cases hread : readLine location override size s with
      | none =>
        rw [hread] at h
        cases h
      | some s' =>
        rw [hread] at h
        exact ih h

theorem Cut.linePointers_inside (h : Cut m z s) (hz : m z = 0) (h0 : isspace (m 0) = false)
    (hsize : z < size) (hne : s.buf (lineEnd size s) ≠ 0) :
    ∀ p ∈ linePointers size s, ∃ a, p = some a ∧ a ≤ z := by
  obtain ⟨hlow, hhigh, -⟩ := h.lineEnd_spec hz hsize
  have hbufz : s.buf z = 0 := (h.behind z h.high).trans hz
  have hbuf0 : isspace (s.buf 0) = false := by
    rcases h.zeroed 0 with heq | heq
    · rw [heq, h0]
    · rw [heq]
      rfl
  have h10 := h.low
  have hcut := trimEnd_le s.buf (lineEnd size s - 1)
  intro p hp
  rw [linePointers, if_neg hne, List.mem_append, List.mem_append] at hp
  rcases hp with hp | hp | hp
  · obtain ⟨i, hi, rfl⟩ := List.mem_map.mp hp
    exact ⟨i, rfl, (scanReads_within (by rw [hbufz]; rfl) h.high i hi).2⟩
  · exact trimReads_inside hbuf0 (by omega) p hp
  · obtain ⟨i, hi, rfl⟩ := List.mem_map.mp hp
    refine ⟨i, rfl, ?_⟩
    rw [List.mem_cons] at hi
    rcases hi with rfl | hi
    · omega
    · exact lineReads_le s.parsed (update_zero hbufz) hsize (by omega) h.high i hi

theorem Cut.loopPointers_inside (h : Cut m z s) (hz : m z = 0) (h0 : isspace (m 0) = false)
    (hsize : z < size) {fuel : ℕ} {rc : ℤ} {mis : List ModuleInfo}
    (hreturns : readLines location override size fuel s = .returned rc mis) :
    ∀ p ∈ loopPointers location override size fuel s, ∃ a, p = some a ∧ a ≤ z := by
  induction fuel generalizing s with
  | zero => cases hreturns
  | succ fuel ih =>
    intro p hp
    rw [readLines] at hreturns
    rw [loopPointers, List.mem_cons] at hp
    rcases hp with rfl | hp
    · exact ⟨s.start, rfl, h.high⟩
    split at hp
    · exact absurd hp List.not_mem_nil
    rename_i hgo
    rw [if_neg hgo] at hreturns
    cases hread : readLine location override size s with
    | none =>
      rw [hread] at hreturns
      cases hreturns
    | some s' =>
      rw [hread] at hreturns hp
      rw [List.mem_append] at hp
      rcases hp with hp | hp
      · exact h.linePointers_inside hz h0 hsize (readLine_some hread).1 p hp
      · exact ih (h.step hz hsize hread) hreturns p hp

end Rounds

section File

variable {body : Str}

theorem asked_cases (body : Str) (mis : List ModuleInfo) (location : Option ℕ) (override : Bool) :
    Headed (kinds body) ∧ asked body mis location override =
        .returned 0 ((blocksOf (kinds body)).foldl (applyBlock location override) mis) ∨
      ¬ Headed (kinds body) ∧ asked body mis location override = .returned 1 mis := by
  rw [asked]
  split
  · rename_i text hfirst
    exact Or.inr ⟨fun hh => hh text hfirst, rfl⟩
  · rename_i hfirst
    exact Or.inl ⟨hfirst, rfl⟩

theorem fileOf_length (body : Str) : (fileOf body).length = 10 + body.length := by
  rw [fileOf, List.length_append]
  rfl

theorem opened_holds (m : Mem) (body : Str) (mis : List ModuleInfo) :
    Holds (opened m body mis).buf 10 (body ++ [0]) := by
  have h := holds_store m 0 (fileOf body ++ [0])
  rw [fileOf, List.append_assoc] at h
  have hrest := ((holds_append _ _ _ _).mp h).2
  rw [← List.append_assoc] at hrest
  exact hrest

theorem opened_byte (m : Mem) (mis : List ModuleInfo) {i : ℕ} (hi : i < body.length) :
    (opened m body mis).buf (10 + i) = body[i] := by
  rw [holds_get (opened_holds m body mis) i (by rw [List.length_append]; omega),
    List.getElem_append_left hi]

theorem opened_end (m : Mem) (body : Str) (mis : List ModuleInfo) :
    (opened m body mis).buf (fileOf body).length = 0 := by
  rw [fileOf_length]
  exact ((holds_append _ _ _ _).mp (opened_holds m body mis)).2.1

theorem opened_first (m : Mem) (body : Str) (mis : List ModuleInfo) :
    isspace ((opened m body mis).buf 0) = false := by
  have h := holds_get (holds_store m 0 (fileOf body ++ [0])) 0 (by simp)
  rw [Nat.zero_add] at h
  have hbyte : (opened m body mis).buf 0 = 0x56 := h
  rw [hbyte]
  rfl

theorem opened_cut (m : Mem) (body : Str) (mis : List ModuleInfo) {z : ℕ} (hz : 10 ≤ z) :
    Cut (opened m body mis).buf z (opened m body mis) :=
  ⟨fun _ _ => rfl, fun _ => Or.inl rfl, Nat.le_refl _, hz, Or.inl rfl⟩

theorem readModuleInfo_lines (m : Mem) (body : Str) (mis : List ModuleInfo) (location : Option ℕ)
    (override : Bool) :
    readModuleInfo m true true (fileOf body) mis location override =
      readLines location override ((fileOf body).length + 1) ((fileOf body).length + 1)
        (opened m body mis) := by
  have hstarts : (ascii "Version 0\n").isPrefixOf (fileOf body) = true :=
    List.isPrefixOf_iff_prefix.mpr (List.prefix_append _ _)
  rw [readModuleInfo, hstarts, if_pos (by decide)]
  rfl

theorem last_line {m : Mem} {mis : List ModuleInfo}
    (h : (fileOf body).length = 10 ∨
      (opened m body mis).buf ((fileOf body).length - 1) = LF) : Terminated body := by
  rw [fileOf_length] at h
  by_cases hnil : body = []
  · exact Or.inl hnil
  have hpos := List.length_pos_iff.mpr hnil
  have hLF := h.resolve_left (by omega)
  rw [show 10 + body.length - 1 = 10 + (body.length - 1) by omega,
    opened_byte m mis (by omega)] at hLF
  right
  rw [List.getLast?_eq_getElem?, List.getElem?_eq_getElem (by omega), hLF]

/-- A file is read as its lines ask for exactly when every line ends in a newline, no byte is NUL
and a module's line comes first. -/
theorem readModuleInfo_right_iff (m : Mem) (body : Str) (mis : List ModuleInfo)
    (location : Option ℕ) (override : Bool) :
    FileRight m body mis location override ↔
      (0 : UInt8) ∉ body ∧ Terminated body ∧ Headed (kinds body) := by
  have hz := opened_end m body mis
  have hlen := fileOf_length body
  have hcut := opened_cut m body mis (z := (fileOf body).length) (by omega)
  constructor
  · intro h
    have hresult := h.result
    rw [readModuleInfo_lines] at hresult
    rcases asked_cases body mis location override with ⟨hhead, hasked⟩ | ⟨-, hasked⟩
    · have hend := h.ends (by rw [hasked]; simp)
      have hlast := (hcut.loopEnd_spec hz (Nat.lt_succ_self _) hend).2.2.2
      refine ⟨fun hmem => ?_, last_line hlast, hhead⟩
      -- the loop gets no further than the first NUL
      obtain ⟨i, hi, hnul⟩ := List.getElem_of_mem hmem
      have hzero := (opened_byte m mis hi).trans hnul
      have hle := ((opened_cut m body mis (by omega)).loopEnd_spec hzero (by omega) hend).2.2.1
      omega
    · -- no return has the result 1
      rw [hasked] at hresult
      exact absurd (loopEnd_of_returned hresult).1 (by decide)
  · rintro ⟨h0, hterm, hhead⟩
    have hasked := ((asked_cases body mis location override).resolve_right
      (fun h => h.1 hhead)).2
    have hwell : WellFormed (fileOf body) body := ⟨rfl, hterm, hhead⟩
    have hclean : (0 : UInt8) ∉ fileOf body := fun hmem =>
      (List.mem_append.mp hmem).elim (by decide) h0
    have hread := readModuleInfo_eq m hwell hclean mis location override
    have hreturns := hread
    rw [readModuleInfo_lines] at hreturns
    refine ⟨hread.trans hasked.symm, hcut.loopPointers_inside hz (opened_first m body mis)
      (Nat.lt_succ_self _) hreturns, fun _ => ?_⟩
    obtain ⟨stop, hstop⟩ := (loopEnd_of_returned hreturns).2
    obtain ⟨hnul, h10, hle, -⟩ := hcut.loopEnd_spec hz (Nat.lt_succ_self _) hstop
    rcases Nat.lt_or_eq_of_le hle with hlt | rfl
    · obtain ⟨i, rfl⟩ := Nat.exists_eq_add_of_le h10
      have hi : i < body.length := by omega
      rw [opened_byte m mis hi] at hnul
      exact absurd (hnul ▸ List.getElem_mem hi) h0
    · exact hstop

theorem FileRight.no_fault {m : Mem} {mis : List ModuleInfo} {location : Option ℕ}
    {override : Bool} (h : FileRight m body mis location override) :
    readModuleInfo m true true (fileOf body) mis location override ≠ .fault := by
  rw [h.result]
  rcases asked_cases body mis location override with ⟨-, hasked⟩ | ⟨-, hasked⟩
  · rw [hasked]
    simp
  · rw [hasked]
    simp

/-- A module's name without newline, and an indented line in front of all modules. -/
theorem readModuleInfo_not_right :
    ¬ FileRight (fun _ => 0) (ascii "e100") [] none false ∧
      ¬ FileRight (fun _ => 0) (ascii "\teth\n") [] none false :=
  ⟨fun h => h.no_fault (by decide +kernel), fun h => h.no_fault (by decide +kernel)⟩

end File

end Comodoo.ModuleInfoFile
