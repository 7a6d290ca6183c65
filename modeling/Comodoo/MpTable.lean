import Comodoo.ByteMemory

set_option autoImplicit false

/-!
# Counting processors

`groupForSMP` of `isys/smp.c`: the floating pointer structure of the multiprocessor specification
is searched for in physical memory, and the processors of the table behind it are counted.
-/
namespace Comodoo.MpTable
open LittleEndian

abbrev MP_SIG : ℕ := 0x5f504d5f

abbrev EBDA_POINTER : ℕ := 0x040e
abbrev TOPOFMEM_POINTER : ℕ := 0x0413
abbrev DEFAULT_TOPOFMEM : ℕ := 0xa0000
abbrev BIOS_BASE : ℕ := 0xf0000
abbrev BIOS_BASE2 : ℕ := 0xe0000
abbrev BIOS_SIZE : ℕ := 0x10000
abbrev ONE_KBYTE : ℕ := 1024

abbrev PROCENTRY_FLAG_EN : UInt8 := 0x01

/-- `/dev/mem`. -/
structure Memory where
  opens : Bool
  /-- none where it cannot be read -/
  byte : ℕ → Option UInt8
  seekFails : ℕ → Bool

structure Junk where
  buffer : List UInt8
  segment : List UInt8
  mpfps : List UInt8
  cth : List UInt8
  entry : ℕ → List UInt8

/-! ## The program -/

section Program
variable (m : Memory) (junk : Junk)

/-- What a `read` of `size` bytes gets. -/
def Memory.read : ℕ → ℕ → List UInt8
  | 0, _ => []
  | size + 1, pos =>
    match m.byte pos with
    | none => []
    | some b => b :: Memory.read size (pos + 1)

/-- The bytes that are read go to the front of `entry`; nobody asks how many they are. -/
def readEntry (entry : List UInt8) (size pos : ℕ) : List UInt8 × ℕ :=
  let data := m.read size pos
  (data ++ entry.drop data.length, pos + data.length)

def seekEntry (addr pos : ℕ) : Bool × ℕ := if m.seekFails addr then (true, pos) else (false, addr)

/-- Every fourth word of the buffer. -/
def scan (buffer : List UInt8) (size : ℕ) : Option ℕ :=
  (List.range' 0 (size / 4 / 4) 4).find? (fun x => value ((buffer.drop (4 * x)).take 4) = MP_SIG)

structure Area where
  place : ℕ
  target : ℕ
  size : ℕ

/-- The areas one after the other, whether or not their beginning can be found. -/
def probeAreas : List Area → List UInt8 × ℕ → Option (ℕ × ℕ) × ℕ
  | [], st => (none, st.2)
  | a :: areas, st =>
    let st := readEntry m st.1 a.size (seekEntry m a.target st.2).2
    match scan st.1 a.size with
    | some x => (some (a.place, x * 4 + a.target), st.2)
    | none => probeAreas areas st

def laterAreas (target : ℕ) : List Area :=
  ⟨2, target, ONE_KBYTE⟩ ::
    ((if target ≠ DEFAULT_TOPOFMEM - 1024 then [⟨3, DEFAULT_TOPOFMEM - 1024, ONE_KBYTE⟩] else []) ++
      [⟨4, BIOS_BASE, BIOS_SIZE⟩, ⟨5, BIOS_BASE2, BIOS_SIZE⟩])

def probeLater (segment : List UInt8) (st : List UInt8 × ℕ) : Option (ℕ × ℕ) × ℕ :=
  let seek := seekEntry m TOPOFMEM_POINTER st.2
  if seek.1 then (none, seek.2)
  else
    let r := readEntry m segment 2 seek.2
    -- `--segment` in 16 bits
    probeAreas m (laterAreas ((value (r.1.take 2) + 0xffff) % 0x10000 * 1024)) (st.1, r.2)

/-- `where` with `paddr`, or none for 0; and the position in the file. -/
def apicProbe : Option (ℕ × ℕ) × ℕ :=
  let seek := seekEntry m EBDA_POINTER 0
  if seek.1 then (none, seek.2)
  else
    let r := readEntry m junk.segment 2 seek.2
    let segment := value (r.1.take 2)
    if segment ≠ 0 then
      let seek := seekEntry m (segment * 16) r.2
      if seek.1 then (none, seek.2)
      else
        let st := readEntry m junk.buffer ONE_KBYTE seek.2
        match scan st.1 ONE_KBYTE with
        | some x => (some (1, x * 4 + segment * 16), st.2)
        | none => probeLater m r.1 st
    else probeLater m r.1 (junk.buffer, r.2)

/-- `readType` leaves the position, and so does an entry of another type. -/
def countProcessors : ℕ → ℕ → ℕ
  | 0, _ => 0
  | n + 1, pos =>
    if m.byte pos = some 0 then
      let r := readEntry m (junk.entry n) 20 pos
      (if (r.1.getD 3 0) &&& PROCENTRY_FLAG_EN ≠ 0 then 1 else 0) + countProcessors n r.2
    else countProcessors n pos

structure Result where
  rc : ℤ
  /-- `pfd` is still open -/
  leaked : Bool
  deriving DecidableEq, Repr

def groupForSMP : Result :=
  if m.opens = false then ⟨0, false⟩
  else
    match apicProbe m junk with
    | (none, _) => ⟨0, true⟩
    | (some (_, paddr), pos) =>
      let seek := seekEntry m paddr pos
      if seek.1 then ⟨0, true⟩
      else
        let mpfps := readEntry m junk.mpfps 16 seek.2
        if mpfps.1.getD 11 0 ≠ 0 then ⟨1, false⟩
        else
          let seek := seekEntry m (value ((mpfps.1.drop 4).take 4)) mpfps.2
          if seek.1 then ⟨0, true⟩
          else
            let cth := readEntry m junk.cth 44 seek.2
            let count := value ((cth.1.drop 34).take 2)
            if count ≤ 1 then ⟨0, false⟩
            else ⟨if countProcessors m junk count cth.2 > 1 then 1 else 0, false⟩

end Program

/-! ## What there is to find -/

section Specification
variable (mem : ℕ → UInt8)

def Memory.of : Memory := ⟨true, fun a => some (mem a), fun _ => false⟩

def window (a n : ℕ) : List UInt8 := (List.range n).map (fun i => mem (a + i))

def paragraphs (target size : ℕ) : List ℕ := (List.range (size / 16)).map (fun k => target + 16 * k)

def ebda : ℕ := value (window mem EBDA_POINTER 2) * 16

def topOfMemory : ℕ := (value (window mem TOPOFMEM_POINTER 2) + 0xffff) % 0x10000 * 1024

/-- The paragraphs in the order in which they are looked at. -/
def searched : List ℕ :=
  (if ebda mem ≠ 0 then paragraphs (ebda mem) ONE_KBYTE else []) ++
    (laterAreas (topOfMemory mem)).flatMap (fun a => paragraphs a.target a.size)

def firstStructure : Option ℕ :=
  (searched mem).find? (fun p => value (window mem p 4) = MP_SIG)

/-- The enabled processors among the first `n` entries at `a`, up to the first entry of another
type. -/
def leading : ℕ → ℕ → ℕ
  | 0, _ => 0
  | n + 1, a =>
    if mem a = 0 then
      (if mem (a + 3) &&& PROCENTRY_FLAG_EN ≠ 0 then 1 else 0) + leading n (a + 20)
    else 0

def table (p : ℕ) : ℕ := value (window mem (p + 4) 4)

def entryCount (p : ℕ) : ℕ := value (window mem (table mem p + 34) 2)

/-- The structure at `p` speaks of more than one processor. -/
def SaysMany (p : ℕ) : Prop :=
  mem (p + 11) ≠ 0 ∨ 1 < entryCount mem p ∧ 1 < leading mem (entryCount mem p) (table mem p + 44)

instance (p : ℕ) : Decidable (SaysMany mem p) :=
  inferInstanceAs (Decidable (mem (p + 11) ≠ 0 ∨
    1 < entryCount mem p ∧ 1 < leading mem (entryCount mem p) (table mem p + 44)))

end Specification

section Reading
variable {mem : ℕ → UInt8} {junk : Junk}

theorem length_window (a n : ℕ) : (window mem a n).length = n := by
  simp [window]

theorem read_of (size pos : ℕ) : (Memory.of mem).read size pos = window mem pos size := by
  induction size generalizing pos with
  | zero => rfl
  | succ size ih =>
    have hrest : window mem pos (size + 1) = mem pos :: window mem (pos + 1) size := by
      unfold window
      rw [List.range_succ_eq_map, List.map_cons, List.map_map]
      congr 2
      funext i
      exact congrArg mem (by simp only [Nat.succ_eq_add_one]; omega)
    rw [hrest, ← ih]
    rfl

theorem readEntry_of (entry : List UInt8) (size pos : ℕ) :
    readEntry (Memory.of mem) entry size pos =
      (window mem pos size ++ entry.drop size, pos + size) := by
  unfold readEntry
  rw [read_of]
  simp only [length_window]

theorem seekEntry_of (addr pos : ℕ) : seekEntry (Memory.of mem) addr pos = (false, addr) := rfl

theorem part_window {a n k j : ℕ} (rest : List UInt8) (h : k + j ≤ n) :
    ((window mem a n ++ rest).drop k).take j = window mem (a + k) j := by
  apply List.ext_getElem?
  intro i
  rw [List.getElem?_take]
  split
  · rename_i hi
    rw [List.getElem?_drop, List.getElem?_append_left (by rw [length_window]; omega)]
    simp only [window, List.getElem?_map]
    rw [List.getElem?_range (by omega), List.getElem?_range hi]
    exact congrArg (fun b => some (mem b)) (by omega)
  · rename_i hi
    rw [List.getElem?_eq_none (by rw [length_window]; omega)]

theorem getD_window {a n i : ℕ} (rest : List UInt8) (h : i < n) :
    (window mem a n ++ rest).getD i 0 = mem (a + i) := by
  rw [List.getD_eq_getElem?_getD, List.getElem?_append_left (by rw [length_window]; exact h)]
  simp only [window, List.getElem?_map]
  rw [List.getElem?_range h]
  rfl

end Reading

section Probing
variable {mem : ℕ → UInt8} {junk : Junk}

def signed (mem : ℕ → UInt8) (p : ℕ) : Bool := value (window mem p 4) = MP_SIG

theorem firstStructure_eq (mem : ℕ → UInt8) : firstStructure mem = (searched mem).find? (signed mem) :=
  rfl

theorem find_congr {α : Type} {p q : α → Bool} {l : List α} (h : ∀ x ∈ l, p x = q x) :
    l.find? p = l.find? q := by
  induction l with
  | nil => rfl
  | cons x l ih =>
    rw [List.find?_cons, List.find?_cons, h x List.mem_cons_self,
      ih (fun y hy => h y (List.mem_cons_of_mem x hy))]

theorem every_fourth (n : ℕ) : List.range' 0 n 4 = (List.range n).map (fun k => 4 * k) := by
  apply List.ext_getElem?
  intro i
  rw [List.getElem?_map]
  by_cases hi : i < n
  · rw [List.getElem?_range' hi, List.getElem?_range hi, Nat.zero_add]
    rfl
  · rw [List.getElem?_eq_none (by simp; omega), List.getElem?_eq_none (by simp; omega)]
    rfl

theorem scan_window (rest : List UInt8) (target size : ℕ) :
    (scan (window mem target size ++ rest) size).map (fun x => x * 4 + target) =
      (paragraphs target size).find? (signed mem) := by
  unfold scan paragraphs
  rw [every_fourth, List.find?_map, List.find?_map, Option.map_map, Nat.div_div_eq_div_mul]
  have hplace : (fun x => x * 4 + target) ∘ (fun k => 4 * k) = fun k => target + 16 * k := by
    funext k
    simp only [Function.comp_apply]
    omega
  rw [hplace]
  congr 1
  apply find_congr
  intro k hk
  have hk' := List.mem_range.mp hk
  have hfit : 16 * k + 4 ≤ size := by omega
  have hpos : 4 * (4 * k) = 16 * k := by omega
  simp only [Function.comp_apply, signed, hpos, part_window rest hfit]

theorem probeAreas_of (areas : List Area) (st : List UInt8 × ℕ) :
    (probeAreas (Memory.of mem) areas st).1.map Prod.snd =
      (areas.flatMap (fun a => paragraphs a.target a.size)).find? (signed mem) := by
  induction areas generalizing st with
  | nil => rfl
  | cons a areas ih =>
    rw [List.flatMap_cons, List.find?_append, ← scan_window (st.1.drop a.size)]
    unfold probeAreas
    rw [seekEntry_of, readEntry_of]
    simp only
    cases scan (window mem a.target a.size ++ st.1.drop a.size) a.size with
    | none => exact (ih _).trans Option.none_or.symm
    | some x => rfl

theorem probeLater_of (segment : List UInt8) (st : List UInt8 × ℕ) :
    (probeLater (Memory.of mem) segment st).1.map Prod.snd =
      ((laterAreas (topOfMemory mem)).flatMap (fun a => paragraphs a.target a.size)).find?
        (signed mem) := by
  unfold probeLater
  rw [seekEntry_of]
  simp only [Bool.false_eq_true, if_false, readEntry_of]
  have htop : value ((window mem TOPOFMEM_POINTER 2 ++ segment.drop 2).take 2) =
      value (window mem TOPOFMEM_POINTER 2) :=
    congrArg value (List.take_left' (length_window _ _))
  rw [htop]
  exact probeAreas_of _ _

/-- What is found is the first signed paragraph. -/
theorem apicProbe_of : (apicProbe (Memory.of mem) junk).1.map Prod.snd = firstStructure mem := by
  unfold apicProbe
  rw [seekEntry_of]
  simp only [Bool.false_eq_true, if_false, readEntry_of]
  have hsegment : value ((window mem EBDA_POINTER 2 ++ junk.segment.drop 2).take 2) =
      value (window mem EBDA_POINTER 2) :=
    congrArg value (List.take_left' (length_window _ _))
  rw [hsegment, firstStructure_eq]
  unfold searched
  by_cases hzero : value (window mem EBDA_POINTER 2) = 0
  · have hebda : ebda mem = 0 := by
      unfold ebda
      rw [hzero]
    rw [if_neg (by simpa using hzero), if_neg (by simpa using hebda), List.nil_append]
    exact probeLater_of _ _
  · have hebda : ebda mem ≠ 0 := by
      unfold ebda
      omega
    rw [if_pos hzero, if_pos hebda, List.find?_append,
      ← scan_window (junk.buffer.drop ONE_KBYTE)]
    have harea : value (window mem EBDA_POINTER 2) * 16 = ebda mem := rfl
    rw [harea, seekEntry_of]
    simp only [Bool.false_eq_true, if_false]
    cases scan (window mem (ebda mem) ONE_KBYTE ++ junk.buffer.drop ONE_KBYTE) ONE_KBYTE with
    | none => exact (probeLater_of _ _).trans Option.none_or.symm
    | some x => rfl

end Probing

/-! ## What is found -/

section Counting
variable {mem : ℕ → UInt8} {junk : Junk}

theorem countProcessors_other {a : ℕ} (h : mem a ≠ 0) (n : ℕ) :
    countProcessors (Memory.of mem) junk n a = 0 := by
  induction n with
  | zero => rfl
  | succ n ih =>
    have hother : ¬(Memory.of mem).byte a = some 0 := fun heq => h (Option.some.inj heq)
    unfold countProcessors
    rw [if_neg hother, ih]

theorem countProcessors_of (n a : ℕ) :
    countProcessors (Memory.of mem) junk n a = leading mem n a := by
  induction n generalizing a with
  | zero => rfl
  | succ n ih =>
    unfold leading
    by_cases ha : mem a = 0
    · have htype : (Memory.of mem).byte a = some 0 := congrArg some ha
      unfold countProcessors
      rw [if_pos htype, if_pos ha, readEntry_of]
      simp only
      rw [getD_window _ (by decide), ih]
    · rw [if_neg ha]
      exact countProcessors_other ha (n + 1)

theorem groupForSMP_eq : groupForSMP (Memory.of mem) junk =
    match firstStructure mem with
    | none => ⟨0, true⟩
    | some p => ⟨if SaysMany mem p then 1 else 0, false⟩ := by
  have hprobe := @apicProbe_of mem junk
  have hopens : ¬(Memory.of mem).opens = false := by
    change ¬true = false
    decide
  unfold groupForSMP
  rw [if_neg hopens]
  generalize apicProbe (Memory.of mem) junk = probe at hprobe ⊢
  obtain ⟨found, pos⟩ := probe
  cases found with
  | none =>
    rw [← hprobe]
    rfl
  | some r =>
    obtain ⟨place, p⟩ := r
    rw [← hprobe]
    simp only [Option.map_some, seekEntry_of, readEntry_of, Bool.false_eq_true, if_false,
      countProcessors_of]
    rw [getD_window _ (by decide), part_window _ (by decide), part_window _ (by decide)]
    change (if mem (p + 11) ≠ 0 then Result.mk 1 false
      else if entryCount mem p ≤ 1 then ⟨0, false⟩
      else ⟨if leading mem (entryCount mem p) (table mem p + 44) > 1 then 1 else 0, false⟩) = _
    by_cases hold : mem (p + 11) ≠ 0
    · have hsays : SaysMany mem p := Or.inl hold
      rw [if_pos hold, if_pos hsays]
    · rw [if_neg hold]
      by_cases hcount : entryCount mem p ≤ 1
      · have hsays : ¬SaysMany mem p := fun h => h.elim hold (fun h => absurd h.1 (by omega))
        rw [if_pos hcount, if_neg hsays]
      · rw [if_neg hcount]
        by_cases hlead : leading mem (entryCount mem p) (table mem p + 44) > 1
        · have hsays : SaysMany mem p := Or.inr ⟨by omega, hlead⟩
          rw [if_pos hlead, if_pos hsays]
        · have hsays : ¬SaysMany mem p := fun h => h.elim hold (fun h => hlead h.2)
          rw [if_neg hlead, if_neg hsays]

/-- Whatever memory holds, the answer is that of the first structure in the searched areas, and the
    descriptor stays open exactly when there is none. -/
theorem groupForSMP_of (mem : ℕ → UInt8) (junk : Junk) :
    ((groupForSMP (Memory.of mem) junk).rc = 1 ↔
      ∃ p, (searched mem).find? (fun p => value (window mem p 4) = MP_SIG) = some p ∧
        SaysMany mem p) ∧
    ((groupForSMP (Memory.of mem) junk).leaked = true ↔
      ∀ p ∈ searched mem, value (window mem p 4) ≠ MP_SIG) := by
  have hnone : firstStructure mem = none ↔ ∀ p ∈ searched mem, value (window mem p 4) ≠ MP_SIG := by
    unfold firstStructure
    rw [List.find?_eq_none]
    simp only [decide_eq_true_eq]
  rw [← hnone, groupForSMP_eq]
  change (_ ↔ ∃ p, firstStructure mem = some p ∧ _) ∧ _
  cases hfirst : firstStructure mem with
  | none => simp
  | some p =>
    by_cases hmany : SaysMany mem p
    · simp [hmany]
    · simp [hmany]

end Counting

/-! ## Tables -/

inductive Entry where
  | processor (apicID apicVersion cpuFlags : UInt8) (rest : List UInt8) (h : rest.length = 16)
  | other (type : UInt8) (data : List UInt8) (h : type ≠ 0)

namespace Entry

def bytes : Entry → List UInt8
  | .processor apicID apicVersion cpuFlags rest _ => 0 :: apicID :: apicVersion :: cpuFlags :: rest
  | .other type data _ => type :: data

def isProcessor : Entry → Bool
  | .processor .. => true
  | .other .. => false

def enabled : Entry → Bool
  | .processor _ _ cpuFlags _ _ => cpuFlags &&& PROCENTRY_FLAG_EN ≠ 0
  | .other .. => false

end Entry

def Holds (mem : ℕ → UInt8) (a : ℕ) (data : List UInt8) : Prop := window mem a data.length = data

instance (mem : ℕ → UInt8) (a : ℕ) (data : List UInt8) : Decidable (Holds mem a data) :=
  inferInstanceAs (Decidable (window mem a data.length = data))

/-- The structure at `p` points to a table of these entries. -/
structure Table (mem : ℕ → UInt8) (p : ℕ) (es : List Entry) : Prop where
  newStyle : mem (p + 11) = 0
  count : Holds mem (table mem p + 34) (bytes 2 es.length)
  fits : es.length < 256 ^ 2
  entries : Holds mem (table mem p + 44) (es.flatMap Entry.bytes)

section Tables
variable {mem : ℕ → UInt8} {a : ℕ}

theorem holds_cons {b : UInt8} {data : List UInt8} :
    Holds mem a (b :: data) ↔ mem a = b ∧ Holds mem (a + 1) data := by
  have hcons : window mem a (data.length + 1) = mem a :: window mem (a + 1) data.length := by
    rw [← read_of, ← read_of]
    rfl
  unfold Holds
  rw [List.length_cons, hcons, List.cons.injEq]

theorem holds_append {l r : List UInt8} (h : Holds mem a (l ++ r)) : Holds mem (a + l.length) r := by
  induction l generalizing a with
  | nil => exact h
  | cons b l ih =>
    have hrest := ih (holds_cons.mp h).2
    rw [List.length_cons]
    rw [show a + (l.length + 1) = a + 1 + l.length by omega]
    exact hrest

/-- The loop counts the enabled processors in front of the first entry that is none. -/
theorem leading_entries (es : List Entry) (h : Holds mem a (es.flatMap Entry.bytes)) :
    leading mem es.length a = ((es.takeWhile Entry.isProcessor).filter Entry.enabled).length := by
  induction es generalizing a with
  | nil => rfl
  | cons e es ih =>
    rw [List.flatMap_cons] at h
    cases e with
    | processor apicID apicVersion cpuFlags rest hrest =>
      have htail : Holds mem (a + 20) (es.flatMap Entry.bytes) := by
        have hlen : (Entry.processor apicID apicVersion cpuFlags rest hrest).bytes.length = 20 := by
          simp [Entry.bytes, hrest]
        have hafter := holds_append h
        rw [hlen] at hafter
        exact hafter
      obtain ⟨htype, h⟩ := holds_cons.mp h
      obtain ⟨-, h⟩ := holds_cons.mp h
      obtain ⟨-, h⟩ := holds_cons.mp h
      obtain ⟨hflags, -⟩ := holds_cons.mp h
      have hflags' : mem (a + 3) = cpuFlags := hflags
      rw [List.length_cons, leading, if_pos htype, hflags', ih htail,
        List.takeWhile_cons_of_pos rfl]
      by_cases hen : cpuFlags &&& PROCENTRY_FLAG_EN ≠ 0
      · have hon : (Entry.processor apicID apicVersion cpuFlags rest hrest).enabled = true :=
          decide_eq_true hen
        rw [if_pos hen, List.filter_cons_of_pos hon, List.length_cons, Nat.add_comm]
      · have hoff : ¬(Entry.processor apicID apicVersion cpuFlags rest hrest).enabled = true :=
          fun hon => hen (of_decide_eq_true hon)
        rw [if_neg hen, List.filter_cons_of_neg hoff, Nat.zero_add]
    | other type data htype =>
      obtain ⟨hfirst, -⟩ := holds_cons.mp h
      rw [List.length_cons, leading, if_neg (by rw [hfirst]; exact htype),
        List.takeWhile_cons_of_neg (by simp [Entry.isProcessor])]
      rfl

theorem entryCount_of {p : ℕ} {es : List Entry} (h : Table mem p es) :
    entryCount mem p = es.length := by
  have hcount := h.count
  unfold Holds at hcount
  rw [length_bytes] at hcount
  unfold entryCount
  rw [hcount, value_bytes h.fits]

/-- On a table the answer is 1 exactly when two processors are enabled in front of the first entry
    of another type, so it is right for every table that has its processors first. -/
theorem groupForSMP_table (mem : ℕ → UInt8) (junk : Junk) (p : ℕ) (es : List Entry)
    (hfirst : firstStructure mem = some p) (htable : Table mem p es) :
    ((groupForSMP (Memory.of mem) junk).rc = 1 ↔
      1 < ((es.takeWhile Entry.isProcessor).filter Entry.enabled).length) ∧
    ((es.dropWhile Entry.isProcessor).filter Entry.enabled = [] →
      ((groupForSMP (Memory.of mem) junk).rc = 1 ↔ 1 < (es.filter Entry.enabled).length)) := by
  have hanswer : (groupForSMP (Memory.of mem) junk).rc = 1 ↔
      1 < ((es.takeWhile Entry.isProcessor).filter Entry.enabled).length := by
    have hcount := entryCount_of htable
    have hlead := leading_entries es htable.entries
    have hfew : ((es.takeWhile Entry.isProcessor).filter Entry.enabled).length ≤ es.length :=
      (List.length_filter_le _ _).trans (List.takeWhile_sublist _).length_le
    have hsays : SaysMany mem p ↔
        1 < ((es.takeWhile Entry.isProcessor).filter Entry.enabled).length := by
      unfold SaysMany
      rw [hcount, hlead]
      constructor
      · intro h
        cases h with
        | inl hold => exact absurd htable.newStyle hold
        | inr hboth => exact hboth.2
      · intro h
        exact Or.inr ⟨by omega, h⟩
    rw [groupForSMP_eq, hfirst, ← hsays]
    simp
  refine ⟨hanswer, fun hlast => ?_⟩
  have hall : es.filter Entry.enabled = (es.takeWhile Entry.isProcessor).filter Entry.enabled := by
    calc
      es.filter Entry.enabled =
          (es.takeWhile Entry.isProcessor ++ es.dropWhile Entry.isProcessor).filter Entry.enabled := by
        rw [List.takeWhile_append_dropWhile]
      _ = (es.takeWhile Entry.isProcessor).filter Entry.enabled := by
        rw [List.filter_append, hlast, List.append_nil]
  rw [hall]
  exact hanswer

def twoProcessors : List Entry :=
  [.processor 0 0 1 (List.replicate 16 0) rfl, .processor 1 0 1 (List.replicate 16 0) rfl]

/-- The structure at 0x90000, to which the word at `EBDA_POINTER` points, and its table behind it. -/
def twoProcessorMemory (a : ℕ) : UInt8 :=
  if a = EBDA_POINTER + 1 then 0x90
  else if a < 0x90000 then 0
  else ([0x5f, 0x4d, 0x50, 0x5f, 0x10, 0x00, 0x09, 0x00] ++ List.replicate 42 0 ++ [2] ++
    List.replicate 9 0 ++ twoProcessors.flatMap Entry.bytes).getD (a - 0x90000) 0

theorem groupForSMP_table_two :
    (groupForSMP (Memory.of twoProcessorMemory) ⟨[], [], [], [], fun _ => []⟩).rc = 1 := by
  have htable : Table twoProcessorMemory 0x90000 twoProcessors :=
    ⟨by decide +kernel, by decide +kernel, by decide, by decide +kernel⟩
  have hanswer := groupForSMP_table twoProcessorMemory ⟨[], [], [], [], fun _ => []⟩ 0x90000
    twoProcessors (by decide +kernel) htable
  exact hanswer.1.mpr (by decide)

end Tables

end Comodoo.MpTable
