import Comodoo.HttpHeaders

set_option autoImplicit false

/-!
# The block of HTTP headers

`read_headers` of `stage-1/ftp.c` with the memory it writes to: a block of `n` bytes that
`realloc` makes larger, and the pointer into it, which is not moved with the block.
-/
namespace Comodoo.HttpReadHeaders
open CString HttpHeaders

abbrev blockSize : ℕ := 4096

/-- The block: its size, the bytes in front of the terminator, and every write so far with the size
of the block at that moment. `stale` says that `nextChar` points into the block as it was before
`realloc` moved it; the terminator has not been moved then. -/
structure Block where
  size : ℕ
  text : Str
  stale : Bool
  writes : List (ℕ × ℕ)
  deriving DecidableEq, Repr

inductive Outcome where
  | done (b : Block)
  | stopped (b : Block)
  | fault (b : Block)
  deriving DecidableEq, Repr

def Outcome.block : Outcome → Block
  | .done b => b
  | .stopped b => b
  | .fault b => b

def headersEnd : Str := crlf ++ crlf

/-- The block as `malloc` gives it, with the first terminator. -/
def emptyBlock : Block := ⟨blockSize, [], false, [(0, blockSize)]⟩

def Block.store (b : Block) (c : UInt8) : Block :=
  { b with
    text := b.text ++ [c],
    writes := b.writes ++ [(b.text.length, b.size), (b.text.length + 1, b.size)] }

/-- `if (nextChar - *headers == n)`; `moves` says which calls of `realloc` move the block. -/
def Block.grow (moves : ℕ → Bool) (b : Block) : Block :=
  if b.text.length = b.size then
    { b with size := b.size + blockSize, stale := moves (b.size + blockSize) }
  else b

/-- The loop, over the bytes that are still to come. Through a stale pointer nothing is followed
any further. -/
def readLoop (moves : ℕ → Bool) : Block → Str → Outcome
  | b, [] => if (strstr headersEnd (cString b.text)).isSome then .done b else .stopped b
  | b, c :: bytes =>
    if (strstr headersEnd (cString b.text)).isSome then .done b
    else if b.stale then .fault b
    else readLoop moves ((b.store c).grow moves) bytes

/-- `read_headers`, when the server sends these bytes and then no more. -/
def readHeaders (moves : ℕ → Bool) (bytes : Str) : Outcome := readLoop moves emptyBlock bytes

/-- The bytes up to and including the first empty line. -/
def headerBlock (bytes : Str) : Option Str :=
  (strstr headersEnd bytes).map (fun r => r.1 ++ headersEnd)

/-- A header block is stored as it came, with its terminator, and no write is outside the block. -/
def Stores (moves : ℕ → Bool) (bytes : Str) : Prop :=
  (∀ p, headerBlock bytes = some p →
    ∃ b, readHeaders moves bytes = .done b ∧ b.text = p ∧ b.stale = false) ∧
  ∀ w ∈ (readHeaders moves bytes).block.writes, w.1 < w.2

section Loop

variable {moves : ℕ → Bool} {b : Block} {bytes p : Str}

theorem grow_writes (moves : ℕ → Bool) (b : Block) : (b.grow moves).writes = b.writes := by
  rw [Block.grow]
  split <;> rfl

theorem readLoop_writes (moves : ℕ → Bool) (b : Block) (bytes : Str) :
    b.writes <+: (readLoop moves b bytes).block.writes := by
  induction bytes generalizing b with
  | nil =>
    rw [readLoop]
    split <;> exact List.prefix_refl _
  | cons c bytes ih =>
    rw [readLoop]
    split
    · exact List.prefix_refl _
    · split
      · exact List.prefix_refl _
      · apply List.IsPrefix.trans _ (ih _)
        rw [grow_writes]
        exact List.prefix_append _ _

structure Roomy (b : Block) : Prop where
  size : b.size = blockSize
  room : b.text.length < blockSize
  fresh : b.stale = false
  inside : ∀ w ∈ b.writes, w.1 < w.2

theorem emptyBlock_text : emptyBlock.text = [] := rfl

theorem emptyBlock_roomy : Roomy emptyBlock :=
  ⟨rfl, by decide, rfl, by decide⟩

theorem Roomy.store (h : Roomy b) (moves : ℕ → Bool) (c : UInt8)
    (hroom : b.text.length + 1 < blockSize) :
    Roomy ((b.store c).grow moves) ∧ ((b.store c).grow moves).text = b.text ++ [c] := by
  have hgrow : (b.store c).grow moves = b.store c := by
    rw [Block.grow, if_neg]
    change (b.text ++ [c]).length ≠ b.size
    rw [List.length_append, List.length_singleton, h.size]
    omega
  rw [hgrow]
  refine ⟨⟨h.size, ?_, h.fresh, ?_⟩, rfl⟩
  · change (b.text ++ [c]).length < blockSize
    rw [List.length_append, List.length_singleton]
    exact hroom
  · have hsize := h.size
    change ∀ w ∈ b.writes ++ [(b.text.length, b.size), (b.text.length + 1, b.size)], w.1 < w.2
    rw [List.forall_mem_append]
    refine ⟨h.inside, ?_⟩
    simp only [List.forall_mem_cons]
    exact ⟨by omega, by omega, fun _ hnil => absurd hnil List.not_mem_nil⟩

/-- As long as no empty line has come and there is room, all bytes go into the block. -/
theorem readLoop_append (moves : ℕ → Bool) (h : Roomy b)
    (hroom : b.text.length + bytes.length < blockSize)
    (hopen : ∀ q, q <+: bytes → q ≠ bytes → ¬ headersEnd <:+: cString (b.text ++ q)) (rest : Str) :
    ∃ b', Roomy b' ∧ b'.text = b.text ++ bytes ∧
      readLoop moves b (bytes ++ rest) = readLoop moves b' rest := by
  induction bytes generalizing b with
  | nil => exact ⟨b, h, (List.append_nil _).symm, rfl⟩
  | cons c bytes ih =>
    have hnow : ¬ (strstr headersEnd (cString b.text)).isSome = true := by
      have hfirst := hopen [] List.nil_prefix (by simp)
      rw [List.append_nil] at hfirst
      rwa [strstr_isSome_iff]
    rw [List.length_cons] at hroom
    obtain ⟨hroomy, htext⟩ := h.store moves c (by omega)
    have hstep : readLoop moves b (c :: bytes ++ rest) =
        readLoop moves ((b.store c).grow moves) (bytes ++ rest) := by
      rw [List.cons_append, readLoop, if_neg hnow, if_neg (by rw [h.fresh]; simp)]
    obtain ⟨b', hroomy', htext', hrun⟩ := ih hroomy
      (by rw [htext, List.length_append, List.length_singleton]; omega) (by
        intro q hq hne
        rw [htext, List.append_assoc]
        exact hopen (c :: q) (List.cons_prefix_cons.mpr ⟨rfl, hq⟩) (by simpa using hne))
    refine ⟨b', hroomy', ?_, hstep.trans hrun⟩
    rw [htext', htext, List.append_assoc]
    rfl

theorem readLoop_done (h : headersEnd <:+: cString b.text) (bytes : Str) :
    readLoop moves b bytes = .done b := by
  have hfound := strstr_isSome_iff.mpr h
  cases bytes with
  | nil => rw [readLoop, if_pos hfound]
  | cons c bytes => rw [readLoop, if_pos hfound]

theorem readLoop_found {b' : Block} (h : readLoop moves b bytes = .done b') :
    headersEnd <:+: cString b'.text := by
  induction bytes generalizing b with
  | nil =>
    rw [readLoop] at h
    split at h
    · rename_i hfound
      rw [← Outcome.done.inj h]
      exact strstr_isSome_iff.mp hfound
    · cases h
  | cons c bytes ih =>
    rw [readLoop] at h
    split at h
    · rename_i hfound
      rw [← Outcome.done.inj h]
      exact strstr_isSome_iff.mp hfound
    · split at h
      · cases h
      · exact ih h

/-- The terminator of the byte that fills the block is written behind it. -/
theorem readLoop_overflow (h : Roomy b) (bytes : Str) (c : UInt8) (rest : Str)
    (hfull : b.text.length + bytes.length + 1 = blockSize)
    (hopen : ∀ q, q <+: bytes → ¬ headersEnd <:+: cString (b.text ++ q)) :
    (blockSize, blockSize) ∈ (readLoop moves b (bytes ++ c :: rest)).block.writes := by
  obtain ⟨b', hroomy, htext, hrun⟩ := readLoop_append moves h (by omega)
    (fun q hq _ => hopen q hq) (c :: rest)
  have hnow : ¬ (strstr headersEnd (cString b'.text)).isSome = true := by
    rw [strstr_isSome_iff, htext]
    exact hopen bytes (List.prefix_refl _)
  rw [hrun, readLoop, if_neg hnow, if_neg (by rw [hroomy.fresh]; simp)]
  apply (readLoop_writes moves _ rest).subset
  rw [grow_writes]
  have hlength : b'.text.length + 1 = blockSize := by
    rw [htext, List.length_append]
    exact hfull
  change (blockSize, blockSize) ∈ b'.writes ++
    [(b'.text.length, b'.size), (b'.text.length + 1, b'.size)]
  rw [hroomy.size, hlength]
  simp

end Loop

section Blocks

variable {moves : ℕ → Bool} {bytes p q : Str}

theorem cString_front (s : Str) : cString s <+: s := List.takeWhile_prefix _

theorem headerBlock_eq_some (h : headerBlock bytes = some p) :
    p <+: bytes ∧ headersEnd <:+: p ∧
      ∀ q, q <+: bytes → headersEnd <:+: q → p.length ≤ q.length := by
  rw [headerBlock, Option.map_eq_some_iff] at h
  obtain ⟨⟨l, r⟩, hfound, rfl⟩ := h
  have hbytes := strstr_eq_some hfound
  refine ⟨⟨r, by rw [hbytes, List.append_assoc]⟩, (List.suffix_append _ _).isInfix, ?_⟩
  rintro q ⟨rest, hq⟩ ⟨l', r', hinside⟩
  obtain ⟨l'', r'', hfound', hl⟩ := strstr_append headersEnd l' (r' ++ rest)
  have hsame : bytes = l' ++ (headersEnd ++ (r' ++ rest)) := by
    rw [← hq, ← hinside]
    simp
  rw [← hsame, hfound, Option.some.injEq, Prod.mk.injEq] at hfound'
  have hlen := hl.length_le
  rw [← hfound'.1] at hlen
  rw [← hinside]
  simp only [List.length_append]
  omega

theorem headerBlock_eq_none (h : headerBlock bytes = none) (hq : q <+: bytes) :
    ¬ headersEnd <:+: q := by
  intro hinside
  have hsome := strstr_isSome_iff.mpr (hinside.trans hq.isInfix)
  rw [headerBlock, Option.map_eq_none_iff] at h
  rw [h] at hsome
  cases hsome

/-- Where no beginning of less than a block has an empty line, more bytes than fit are written. -/
theorem overflows (moves : ℕ → Bool) (hlong : blockSize ≤ bytes.length)
    (hopen : ∀ q, q <+: bytes → q.length < blockSize → ¬ headersEnd <:+: q) :
    ∃ w ∈ (readHeaders moves bytes).block.writes, ¬ w.1 < w.2 := by
  have hsize : blockSize = 4096 := rfl
  have hlt : 4095 < bytes.length := by omega
  have hsplit : bytes = bytes.take 4095 ++ bytes[4095] :: bytes.drop 4096 := by
    rw [List.getElem_cons_drop, List.take_append_drop]
  have htake : (bytes.take 4095).length = 4095 := by
    rw [List.length_take]
    omega
  refine ⟨(blockSize, blockSize), ?_, Nat.lt_irrefl _⟩
  rw [readHeaders, hsplit]
  apply readLoop_overflow emptyBlock_roomy (bytes.take 4095)
  · change 0 + _ + 1 = blockSize
    omega
  · intro q hq hinside
    have hlen := hq.length_le
    exact hopen q (hq.trans (List.take_prefix _ _)) (by omega)
      (hinside.trans (cString_front q).isInfix)

/-- A header block that is found by the code is shorter than the block. -/
theorem short_of_stored (hp : headerBlock bytes = some p) (hstored : Stores moves bytes) :
    p.length < blockSize := by
  obtain ⟨hfront, -, hfirst⟩ := headerBlock_eq_some hp
  by_contra hlong
  have hlen := hfront.length_le
  have hopen : ∀ q, q <+: bytes → q.length < blockSize → ¬ headersEnd <:+: q := by
    intro q hq hlt hinside
    have hle := hfirst q hq hinside
    omega
  obtain ⟨w, hw, hout⟩ := overflows moves (by omega) hopen
  exact hout (hstored.2 w hw)

theorem clean_of_stored (hp : headerBlock bytes = some p) (hstored : Stores moves bytes) :
    (0 : UInt8) ∉ p := by
  obtain ⟨hfront, -, hfirst⟩ := headerBlock_eq_some hp
  obtain ⟨b, hrun, rfl, -⟩ := hstored.1 p hp
  intro hnul
  have hfound := readLoop_found hrun
  have hle := hfirst _ ((cString_front b.text).trans hfront) hfound
  have hwhole := (cString_front b.text).eq_of_length_le hle
  have hmem : (0 : UInt8) ∈ cString b.text := by rwa [hwhole]
  exact absurd (List.mem_takeWhile_imp hmem) (by simp)

theorem readHeaders_unfinished (moves : ℕ → Bool) (hp : headerBlock bytes = none)
    (hshort : bytes.length < blockSize) :
    ∃ b, Roomy b ∧ readHeaders moves bytes = .stopped b := by
  have hopen : ∀ q, q <+: bytes → ¬ headersEnd <:+: cString q := fun q hq hinside =>
    headerBlock_eq_none hp hq (hinside.trans (cString_front q).isInfix)
  have hroom : emptyBlock.text.length + bytes.length < blockSize := by
    rw [emptyBlock_text, List.length_nil, Nat.zero_add]
    exact hshort
  obtain ⟨b, hroomy, htext, hrun⟩ :=
    readLoop_append moves emptyBlock_roomy hroom (fun q hq _ => hopen q hq) []
  refine ⟨b, hroomy, ?_⟩
  rw [List.append_nil] at hrun
  rw [readHeaders, hrun, readLoop, if_neg]
  rw [strstr_isSome_iff, htext]
  exact hopen bytes (List.prefix_refl _)

theorem readHeaders_found (moves : ℕ → Bool) (hp : headerBlock bytes = some p)
    (hshort : p.length < blockSize) (hnul : (0 : UInt8) ∉ p) :
    ∃ b, Roomy b ∧ b.text = p ∧ readHeaders moves bytes = .done b := by
  obtain ⟨⟨rest, hrest⟩, hinside, hfirst⟩ := headerBlock_eq_some hp
  have hroom : emptyBlock.text.length + p.length < blockSize := by
    rw [emptyBlock_text, List.length_nil, Nat.zero_add]
    exact hshort
  have hopen : ∀ q, q <+: p → q ≠ p → ¬ headersEnd <:+: cString (emptyBlock.text ++ q) := by
    intro q hq hne hopen
    have hle := hfirst q (hq.trans ⟨rest, hrest⟩) (hopen.trans (cString_front q).isInfix)
    exact hne (hq.eq_of_length_le hle)
  obtain ⟨b, hroomy, htext, hrun⟩ := readLoop_append moves emptyBlock_roomy hroom hopen rest
  rw [emptyBlock_text, List.nil_append] at htext
  refine ⟨b, hroomy, htext, ?_⟩
  rw [readHeaders, ← hrest, hrun]
  apply readLoop_done
  rwa [htext, cString_self hnul]

/-- Header blocks are stored safely if and only if they are shorter than the first block and have
no NUL in them, and an unfinished one is shorter than that too. -/
theorem readHeaders_stores_iff (moves : ℕ → Bool) (bytes : Str) :
    Stores moves bytes ↔
      (∀ p, headerBlock bytes = some p → p.length < blockSize ∧ (0 : UInt8) ∉ p) ∧
        (headerBlock bytes = none → bytes.length < blockSize) := by
  constructor
  · intro hstored
    refine ⟨fun p hp => ⟨short_of_stored hp hstored, clean_of_stored hp hstored⟩, fun hnone => ?_⟩
    by_contra hlong
    obtain ⟨w, hw, hout⟩ := overflows moves (by omega) (fun q hq _ => headerBlock_eq_none hnone hq)
    exact hout (hstored.2 w hw)
  · rintro ⟨hsome, hnone⟩
    cases hp : headerBlock bytes with
    | none =>
      obtain ⟨b, hroomy, hstop⟩ := readHeaders_unfinished moves hp (hnone hp)
      refine ⟨fun p hp' => ?_, ?_⟩
      · rw [hp] at hp'
        cases hp'
      · rw [hstop]
        exact hroomy.inside
    | some p =>
      obtain ⟨hlt, hnul⟩ := hsome p hp
      obtain ⟨b, hroomy, htext, hdone⟩ := readHeaders_found moves hp hlt hnul
      refine ⟨fun p' hp' => ?_, ?_⟩
      · rw [hp, Option.some.injEq] at hp'
        exact ⟨b, hdone, by rw [htext, hp'], hroomy.fresh⟩
      · rw [hdone]
        exact hroomy.inside

/-- A status line that makes a header block of 4096 bytes. -/
def longStatus : Str := ascii "HTTP/1.0 200 " ++ List.replicate 4079 0x61 ++ headersEnd

theorem longStatus_overflows :
    headerBlock longStatus = some longStatus ∧ ¬ Stores (fun _ => false) longStatus := by
  have hlong : longStatus.length = blockSize := by decide +kernel
  have hopen : ∀ q, q <+: longStatus → q.length < blockSize → ¬ headersEnd <:+: q := by
    intro q hq hlt hinside
    -- only one of the two line ends is in a shorter beginning
    have hshort : q <+: longStatus.take 4095 := by
      rw [List.prefix_take_iff]
      have hsize : blockSize = 4096 := rfl
      exact ⟨hq, by omega⟩
    have hmost := hshort.sublist.count_le (0x0a : UInt8)
    have hleast := hinside.sublist.count_le (0x0a : UInt8)
    have hone : (longStatus.take 4095).count 0x0a = 1 := by decide +kernel
    have htwo : headersEnd.count 0x0a = 2 := by decide +kernel
    omega
  constructor
  · cases hp : headerBlock longStatus with
    | none =>
      exact absurd (List.suffix_append _ _).isInfix (headerBlock_eq_none hp (List.prefix_refl _))
    | some p =>
      obtain ⟨hfront, hinside, -⟩ := headerBlock_eq_some hp
      have hlen : longStatus.length ≤ p.length := by
        by_contra hlt
        exact hopen p hfront (by omega) hinside
      rw [hfront.eq_of_length_le hlen]
  · rintro ⟨-, hinside⟩
    obtain ⟨w, hw, hout⟩ := overflows (fun _ => false) (by omega) hopen
    exact hout (hinside w hw)

end Blocks

section Coarse

variable {moves : ℕ → Bool} {b : Block}

/-- `httpGetFileDesc` is followed with the block as it is here, up to the first write outside. -/
theorem readLoop_coarse (h : Roomy b) (bytes : Str) :
    (∃ b', readLoop moves b bytes = .done b' ∧ Roomy b' ∧
      HttpHeaders.readHeaders b.text bytes = .done b'.text) ∨
    (∃ b', readLoop moves b bytes = .stopped b' ∧ Roomy b' ∧
      HttpHeaders.readHeaders b.text bytes = .stopped) ∨
    (blockSize, blockSize) ∈ (readLoop moves b bytes).block.writes ∧
      HttpHeaders.readHeaders b.text bytes = .overflow := by
  induction bytes generalizing b with
  | nil =>
    rw [readLoop, HttpHeaders.readHeaders]
    by_cases hfound : (strstr headersEnd (cString b.text)).isSome = true
    · exact Or.inl ⟨b, if_pos hfound, h, if_pos hfound⟩
    · exact Or.inr (Or.inl ⟨b, if_neg hfound, h, if_neg hfound⟩)
  | cons c bytes ih =>
    rw [HttpHeaders.readHeaders]
    by_cases hfound : (strstr headersEnd (cString b.text)).isSome = true
    · rw [readLoop_done (strstr_isSome_iff.mp hfound)]
      exact Or.inl ⟨b, rfl, h, if_pos hfound⟩
    · have hcoarse : ¬ (strstr (crlf ++ crlf) (b.text.takeWhile (· ≠ 0))).isSome = true := hfound
      rw [if_neg hcoarse]
      by_cases hfull : b.text.length + 1 = blockSize
      · refine Or.inr (Or.inr ⟨?_, if_pos hfull⟩)
        apply readLoop_overflow h [] c bytes (by rw [List.length_nil]; omega)
        intro q hq
        rw [List.prefix_nil.mp hq, List.append_nil, ← strstr_isSome_iff]
        exact hfound
      · have hroom := h.room
        obtain ⟨hroomy, htext⟩ := h.store moves c (by omega)
        rw [if_neg hfull, readLoop, if_neg hfound, if_neg (by rw [h.fresh]; simp), ← htext]
        exact ih hroomy

end Coarse

end Comodoo.HttpReadHeaders
