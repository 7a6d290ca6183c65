import Comodoo.CString
import Mathlib.Data.List.Range

set_option autoImplicit false

/-!
# Reading the messages of mount

`readFD` of `isys/imount.c`: the buffer grows by what has been read.
-/
namespace Comodoo.ReadFd
open CString

/-- Whether the heap has room for a block, and what a byte of `realloc` holds before it is
written. -/
structure Heap where
  room : ℕ → Bool
  fresh : ℕ → UInt8

inductive Last where
  | eof
  | error
  deriving DecidableEq, Repr

structure Reads where
  chunks : List Str
  last : Last
  sizes : ∀ c ∈ chunks, c ≠ [] ∧ c.length ≤ 4096

inductive Result where
  | returned (rc : ℤ) (buf : Option Str)
  | aborted
  | fault
  deriving DecidableEq, Repr

/-- `read` stores its bytes at `p`; `none` where one of them would not be in the block. -/
def storeAt (buf : Str) (p : ℤ) (bytes : Str) : Option Str :=
  if 0 ≤ p ∧ p + bytes.length ≤ buf.length then
    some (buf.take p.toNat ++ bytes ++ buf.drop (p.toNat + bytes.length))
  else none

def realloc (fresh : ℕ → UInt8) (buf : Str) (size : ℕ) : Str :=
  buf.take size ++ (List.range' buf.length (size - buf.length)).map fresh

/-- The loop and what follows it; `filesize` is an `int`. -/
def readChunks (h : Heap) (last : Last) : List Str → Str → ℤ → ℕ → Result
  | [], buf, filesize, _ =>
    if filesize = 0 ∧ last = .error then .returned (-1) none else .returned filesize (some buf)
  | bytes :: chunks, buf, filesize, size =>
    match storeAt buf filesize bytes with
    | none => .fault
    | some buf =>
      let filesize := Int.bmod (filesize + bytes.length) (2 ^ 32)
      let size := size + bytes.length
      if ¬ h.room size then .aborted
      else readChunks h last chunks (realloc h.fresh buf size) filesize size

def readFD (h : Heap) (r : Reads) : Result :=
  if ¬ h.room 4096 then .aborted else readChunks h r.last r.chunks (List.replicate 4096 0) 0 4096

/-- The bytes that were read with a NUL, and their number, unless -1 is returned or the program
aborts. -/
def Right (bytes : Str) : Result → Prop
  | .fault => False
  | .aborted => True
  | .returned rc buf => rc = -1 ∨
      (rc = bytes.length ∧ ∃ block, buf = some block ∧ bytes ++ [0] <+: block)

/-- With `n` bytes in the buffer, the heap has no room for what one of the reads asks for. -/
def RunsOut (h : Heap) : List Str → ℕ → Prop
  | [], _ => False
  | bytes :: chunks, n => n < 2 ^ 31 ∧
      (h.room (4096 + n + bytes.length) = false ∨ RunsOut h chunks (n + bytes.length))

/-- The byte behind the last one is one of those `calloc` has cleared, or `realloc` happens to hand
out a NUL. -/
def Terminated (h : Heap) (n : ℕ) : Prop := n < 4096 ∨ n < 2 ^ 31 ∧ h.fresh n = 0

section Block
variable {h : Heap} {data bytes : Str} {last : Last} {chunks : List Str}

def initial (h : Heap) (i : ℕ) : UInt8 := if i < 4096 then 0 else h.fresh i

/-- The block once `data` has been read: there is room for one more read. -/
def block (h : Heap) (data : Str) : Str := data ++ (List.range' data.length 4096).map (initial h)

theorem length_block : (block h data).length = data.length + 4096 := by
  simp [block]

theorem block_nil : block h [] = List.replicate 4096 0 := by
  rw [block, List.nil_append, List.length_nil]
  refine List.eq_replicate_iff.mpr ⟨by rw [List.length_map, List.length_range'], ?_⟩
  intro b hb
  obtain ⟨i, hi, rfl⟩ := List.mem_map.mp hb
  rw [List.mem_range'_1] at hi
  exact if_pos (by omega)

theorem storeAt_block (hlen : bytes.length ≤ 4096) :
    storeAt (block h data) data.length bytes = some (data ++ bytes ++
      (List.range' (data.length + bytes.length) (4096 - bytes.length)).map (initial h)) := by
  have hsplit : List.range' data.length 4096 =
      List.range' data.length bytes.length ++
        List.range' (data.length + bytes.length) (4096 - bytes.length) := by
    rw [List.range'_append_1]
    congr 1
    omega
  have hlow : ((List.range' data.length bytes.length).map (initial h)).length = bytes.length := by
    rw [List.length_map, List.length_range']
  rw [storeAt, if_pos ⟨by omega, by rw [length_block]; omega⟩, Int.toNat_natCast, block, hsplit,
    List.map_append, List.take_left, List.drop_length_add_append, List.drop_left' hlow]

theorem realloc_block (hlen : bytes.length ≤ 4096) :
    realloc h.fresh (data ++ bytes ++
        (List.range' (data.length + bytes.length) (4096 - bytes.length)).map (initial h))
      (4096 + data.length + bytes.length) = block h (data ++ bytes) := by
  have hsplit : List.range' (data.length + bytes.length) 4096 =
      List.range' (data.length + bytes.length) (4096 - bytes.length) ++
        List.range' (data.length + 4096) bytes.length := by
    rw [show data.length + 4096 = data.length + bytes.length + (4096 - bytes.length) by omega,
      List.range'_append_1]
    congr 1
    omega
  have hfresh : (List.range' (data.length + 4096) bytes.length).map (initial h) =
      (List.range' (data.length + 4096) bytes.length).map h.fresh := by
    apply List.map_congr_left
    intro i hi
    rw [List.mem_range'_1] at hi
    exact if_neg (by omega)
  have hold : (data ++ bytes ++
      (List.range' (data.length + bytes.length) (4096 - bytes.length)).map (initial h)).length =
        data.length + 4096 := by
    simp only [List.length_append, List.length_map, List.length_range']
    omega
  have hgrown : 4096 + data.length + bytes.length - (data.length + 4096) = bytes.length := by omega
  rw [realloc, List.take_of_length_le (by omega), hold, hgrown, block, List.length_append, hsplit,
    List.map_append, hfresh, ← List.append_assoc]

theorem terminated_iff (hn : data.length < 2 ^ 31) :
    data ++ [0] <+: block h data ↔ Terminated h data.length := by
  have hhead : block h data = data ++ initial h data.length ::
      (List.range' (data.length + 1) 4095).map (initial h) := rfl
  rw [hhead, List.prefix_append_right_inj, List.cons_prefix_cons, and_iff_left List.nil_prefix,
    Terminated, initial]
  by_cases hsmall : data.length < 4096
  · simp [hsmall]
  · rw [if_neg hsmall, or_iff_right hsmall, and_iff_right hn]
    exact eq_comm

theorem readChunks_cons (hlen : bytes.length ≤ 4096) :
    readChunks h last (bytes :: chunks) (block h data) data.length (4096 + data.length) =
      if h.room (4096 + data.length + bytes.length) = false then .aborted
      else readChunks h last chunks (block h (data ++ bytes))
        (Int.bmod (data ++ bytes).length (2 ^ 32)) (4096 + (data ++ bytes).length) := by
  rw [readChunks, storeAt_block hlen]
  dsimp only
  rw [realloc_block hlen, List.length_append, Nat.cast_add, Nat.add_assoc]
  simp only [Bool.not_eq_true]

/-- Once `int` does not hold the number of bytes, the next read would store in front of the
block, and the end of the file gives a number below zero. -/
theorem readChunks_overflow {buf : Str} {filesize : ℤ} {size : ℕ} (hneg : filesize < -1) :
    ¬ Right data (readChunks h last chunks buf filesize size) := by
  intro hright
  cases chunks with
  | nil =>
    rw [readChunks, if_neg (by omega)] at hright
    rcases hright with hrc | ⟨hrc, _⟩ <;> omega
  | cons bytes chunks =>
    rw [readChunks, storeAt, if_neg (by omega)] at hright
    exact hright

/-- From a block that holds `data` on, by induction over the reads that are left. -/
theorem readChunks_right_iff (h : Heap) (last : Last) (data : Str) (chunks : List Str)
    (hn : data.length < 2 ^ 31) (hsizes : ∀ c ∈ chunks, c.length ≤ 4096) :
    Right (data ++ chunks.flatten)
        (readChunks h last chunks (block h data) data.length (4096 + data.length)) ↔
      RunsOut h chunks data.length ∨ Terminated h (data ++ chunks.flatten).length := by
  induction chunks generalizing data with
  | nil =>
    rw [List.flatten_nil, List.append_nil, readChunks, RunsOut, false_or]
    by_cases hnone : (data.length : ℤ) = 0 ∧ last = .error
    · rw [if_pos hnone]
      have hterm : Terminated h data.length := Or.inl (by omega)
      exact iff_of_true (Or.inl rfl) hterm
    · rw [if_neg hnone, ← terminated_iff hn, Right, or_iff_right (by omega)]
      simp
  | cons bytes chunks ih =>
    have hlen : bytes.length ≤ 4096 := hsizes bytes List.mem_cons_self
    rw [readChunks_cons hlen, RunsOut, and_iff_right hn, List.flatten_cons, ← List.append_assoc]
    cases hroom : h.room (4096 + data.length + bytes.length) with
    | false => simp [Right]
    | true =>
      have hkept : true ≠ false := by decide
      rw [if_neg hkept, or_iff_right hkept, ← List.length_append]
      by_cases hbig : (data ++ bytes).length < 2 ^ 31
      · rw [Int.bmod_eq_of_le (by omega) (by omega)]
        exact ih _ hbig fun c hc => hsizes c (List.mem_cons_of_mem _ hc)
      · have hneg : Int.bmod (data ++ bytes).length (2 ^ 32) < -1 := by
          rw [List.length_append] at hbig ⊢
          rw [Int.bmod_def]
          omega
        have hout : ¬ RunsOut h chunks (data ++ bytes).length := by
          cases chunks with
          | nil => exact id
          | cons _ _ => exact fun hruns => hbig hruns.1
        have hterm : ¬ Terminated h (data ++ bytes ++ chunks.flatten).length := by
          rw [List.length_append, Terminated]
          omega
        exact iff_of_false (readChunks_overflow hneg) (not_or.mpr ⟨hout, hterm⟩)

end Block

section Runs
variable (h : Heap) (r : Reads)

/-- The condition on the series of reads and on what the heap does with it. -/
def Held : Prop :=
  h.room 4096 = false ∨ RunsOut h r.chunks 0 ∨ Terminated h r.chunks.flatten.length

variable {h}

theorem readFD_of_room (hroom : h.room 4096 = true) :
    Right r.chunks.flatten (readFD h r) ↔
      RunsOut h r.chunks 0 ∨ Terminated h r.chunks.flatten.length := by
  have hloop := readChunks_right_iff h r.last [] r.chunks
    (Nat.two_pow_pos 31) fun c hc => (r.sizes c hc).2
  rw [block_nil] at hloop
  rw [readFD, if_neg (by rw [hroom]; decide)]
  exact hloop

theorem not_runsOut (hroom : ∀ size, h.room size = true) (chunks : List Str) (n : ℕ) :
    ¬ RunsOut h chunks n := by
  induction chunks generalizing n with
  | nil => exact id
  | cons bytes chunks ih =>
    rintro ⟨_, hfull | hruns⟩
    · exact Bool.false_ne_true (hfull.symm.trans (hroom _))
    · exact ih _ hruns

end Runs

theorem readFD_right_iff (h : Heap) (r : Reads) :
    Right r.chunks.flatten (readFD h r) ↔ Held h r := by
  rw [Held]
  cases hroom : h.room 4096 with
  | false =>
    rw [readFD, if_pos (by rw [hroom]; decide)]
    exact iff_of_true trivial (Or.inl rfl)
  | true =>
    have hkept : true ≠ false := by decide
    rw [readFD_of_room r hroom, or_iff_right hkept]

/-- A heap without end that hands out the same bytes always. -/
def dirtyHeap : Heap := ⟨fun _ => true, fun _ => 0x78⟩

def longMessage : Reads where
  chunks := [List.replicate 4096 0x6d]
  last := .eof
  sizes := by
    intro c hc
    rw [List.mem_singleton.mp hc, ← List.length_pos_iff, List.length_replicate]
    exact ⟨by omega, le_refl _⟩

theorem readFD_longMessage : ¬ Right longMessage.chunks.flatten (readFD dirtyHeap longMessage) := by
  have hlen : longMessage.chunks.flatten.length = 4096 := by
    rw [longMessage, List.flatten_singleton, List.length_replicate]
  rw [readFD_of_room longMessage rfl, hlen]
  rintro (hruns | hshort | ⟨_, hzero⟩)
  · exact not_runsOut (fun _ => rfl) _ _ hruns
  · exact lt_irrefl _ hshort
  · exact absurd hzero (by decide)

end Comodoo.ReadFd
