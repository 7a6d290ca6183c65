import Comodoo.ByteMemory
import Mathlib.Algebra.Group.Int.Defs
import Mathlib.Algebra.Group.Nat.Defs
import Mathlib.Data.List.Count

set_option autoImplicit false

/-!
# Characters of a string

`strindex` and `strcount` of `isys/str.c`, in a memory that goes on behind the string.
-/
namespace Comodoo.StringCount
open ByteMemory

/-- The addresses that are read, and the result; `none` while the loop runs on. -/
structure Scan (α : Type) where
  reads : List ℕ
  result : Option α
  deriving DecidableEq, Repr

def strindexFrom (m : Mem) (ch : UInt8) : ℕ → ℕ → Scan (Option ℕ)
  | 0, _ => ⟨[], none⟩
  | fuel + 1, str =>
    if m str = ch then ⟨[str], some (some str)⟩
    else if m (str + 1) ≠ 0 then
      let rest := strindexFrom m ch fuel (str + 1)
      ⟨str :: (str + 1) :: rest.reads, rest.result⟩
    else ⟨[str, str + 1], some none⟩

/-- A pointer is `none` for NULL. -/
def strindex (m : Mem) (ch : UInt8) (fuel : ℕ) (str : Option ℕ) : Scan (Option ℕ) :=
  match str with
  | none => ⟨[], some none⟩
  | some str => strindexFrom m ch fuel str

/-- `retval` is an `int`. -/
def strcountFrom (m : Mem) (ch : UInt8) : ℕ → ℕ → ℤ → Scan ℤ
  | 0, _, _ => ⟨[], none⟩
  | fuel + 1, tmp, retval =>
    let hit := strindexFrom m ch (fuel + 1) tmp
    match hit.result with
    | none => ⟨hit.reads, none⟩
    | some none => ⟨hit.reads, some retval⟩
    | some (some tmp) =>
      let rest := strcountFrom m ch fuel (tmp + 1) (Int.bmod (retval + 1) (2 ^ 32))
      ⟨hit.reads ++ rest.reads, rest.result⟩

def strcount (m : Mem) (ch : UInt8) (fuel : ℕ) (str : Option ℕ) : Scan ℤ :=
  match str with
  | none => ⟨[], some 0⟩
  | some tmp => strcountFrom m ch fuel tmp 0

/-- A string with its terminator in the memory, and the character that is looked for. -/
structure Call where
  mem : Mem
  str : ℕ
  text : List UInt8
  ch : UInt8
  holds : Holds mem str (text ++ [0])
  no_nul : (0 : UInt8) ∉ text

def Within (str length : ℕ) (reads : List ℕ) : Prop := ∀ i ∈ reads, str ≤ i ∧ i ≤ str + length

/-- Both functions come to an end, with the right result, and read nothing behind the string. -/
structure Right (c : Call) : Prop where
  count : ∃ fuel, (strcount c.mem c.ch fuel (some c.str)).result = some (c.text.count c.ch : ℤ) ∧
    Within c.str c.text.length (strcount c.mem c.ch fuel (some c.str)).reads
  index : ∃ fuel, (strindex c.mem c.ch fuel (some c.str)).result =
      some ((c.text.idxOf? c.ch).map (c.str + ·)) ∧
    Within c.str c.text.length (strindex c.mem c.ch fuel (some c.str)).reads

section Scanning
variable {m : Mem} {ch : UInt8} {a fuel : ℕ} {s u v : List UInt8}

theorem within_mono {n k : ℕ} {reads : List ℕ} (h : Within a n reads) (hle : n ≤ k) :
    Within a k reads := by
  intro i hi
  have hi := h i hi
  omega

theorem within_append {n k b : ℕ} {first rest : List ℕ} (hfirst : Within a n first)
    (hrest : Within b k rest) (hlow : a ≤ b) (hhigh : b + k ≤ a + n) :
    Within a n (first ++ rest) := by
  intro i hi
  rcases List.mem_append.mp hi with hi | hi
  · exact hfirst i hi
  · have hi := hrest i hi
    omega

theorem strindexFrom_step (hb : m a ≠ ch) (hnext : m (a + 1) ≠ 0) :
    strindexFrom m ch (fuel + 1) a =
      ⟨[a, a + 1] ++ (strindexFrom m ch fuel (a + 1)).reads,
        (strindexFrom m ch fuel (a + 1)).result⟩ := by
  rw [strindexFrom, if_neg hb, if_pos hnext]
  rfl

theorem within_step {n : ℕ} {reads : List ℕ} (h : Within (a + 1) n reads) :
    Within a (n + 1) ([a, a + 1] ++ reads) := by
  refine within_append ?_ h (by omega) (by omega)
  intro i hi
  rcases List.mem_pair.mp hi with rfl | rfl <;> omega

theorem strindexFrom_hit (fuel : ℕ) (hch : ch ≠ 0) (hold : Holds m a (u ++ ch :: v)) (hnot : ch ∉ u)
    (hnul : (0 : UInt8) ∉ u) :
    (strindexFrom m ch fuel a).result =
        (if u.length < fuel then some (some (a + u.length)) else none) ∧
      Within a u.length (strindexFrom m ch fuel a).reads := by
  induction u generalizing a fuel with
  | nil =>
    cases fuel with
    | zero => exact ⟨rfl, by simp [strindexFrom, Within]⟩
    | succ fuel =>
      rw [strindexFrom, if_pos hold.1]
      exact ⟨by simp, by simp [Within]⟩
  | cons b u ih =>
    cases fuel with
    | zero => exact ⟨rfl, by simp [strindexFrom, Within]⟩
    | succ fuel =>
      simp only [List.mem_cons, not_or] at hnot hnul
      have hb : m a ≠ ch := hold.1 ▸ Ne.symm hnot.1
      have hnext : m (a + 1) ≠ 0 := by
        cases u with
        | nil => exact hold.2.1 ▸ hch
        | cons d u =>
          have hd : (0 : UInt8) ≠ d := fun h => hnul.2 (h ▸ List.mem_cons_self)
          exact hold.2.1 ▸ hd.symm
      obtain ⟨hresult, hreads⟩ := ih fuel hold.2 hnot.2 hnul.2
      rw [strindexFrom_step hb hnext, hresult]
      refine ⟨?_, within_step hreads⟩
      simp only [List.length_cons, Nat.add_lt_add_iff_right, Nat.add_assoc, Nat.add_comm 1]

theorem strindexFrom_miss (fuel : ℕ) (hne : s ≠ []) (hold : Holds m a (s ++ [0])) (hnot : ch ∉ s)
    (hnul : (0 : UInt8) ∉ s) :
    (strindexFrom m ch fuel a).result = (if s.length ≤ fuel then some none else none) ∧
      Within a s.length (strindexFrom m ch fuel a).reads := by
  induction s generalizing a fuel with
  | nil => exact absurd rfl hne
  | cons b s ih =>
    cases fuel with
    | zero => exact ⟨rfl, by simp [strindexFrom, Within]⟩
    | succ fuel =>
      simp only [List.mem_cons, not_or] at hnot hnul
      have hb : m a ≠ ch := hold.1 ▸ Ne.symm hnot.1
      cases s with
      | nil =>
        have hend : m (a + 1) = 0 := hold.2.1
        rw [strindexFrom, if_neg hb, if_neg (not_not.mpr hend)]
        exact ⟨by simp, by simp [Within]⟩
      | cons d s =>
        have hd : (0 : UInt8) ≠ d := fun h => hnul.2 (h ▸ List.mem_cons_self)
        have hnext : m (a + 1) ≠ 0 := hold.2.1 ▸ hd.symm
        obtain ⟨hresult, hreads⟩ := ih fuel (List.cons_ne_nil _ _) hold.2 hnot.2 hnul.2
        rw [strindexFrom_step hb hnext, hresult]
        refine ⟨?_, within_step hreads⟩
        simp only [List.length_cons, Nat.add_le_add_iff_right]

/-- With the first one of several characters taken off, the last one is still there. -/
theorem getLast?_behind (hv : v ≠ []) : (u ++ ch :: v).getLast? = v.getLast? := by
  rw [List.getLast?_append_of_ne_nil _ (List.cons_ne_nil _ _), List.getLast?_cons_of_ne_nil hv]

theorem strcountFrom_none {retval : ℤ} (h : (strindexFrom m ch (fuel + 1) a).result = none) :
    strcountFrom m ch (fuel + 1) a retval = ⟨(strindexFrom m ch (fuel + 1) a).reads, none⟩ := by
  rw [strcountFrom]
  dsimp only
  rw [h]

theorem strcountFrom_null {retval : ℤ}
    (h : (strindexFrom m ch (fuel + 1) a).result = some none) :
    strcountFrom m ch (fuel + 1) a retval =
      ⟨(strindexFrom m ch (fuel + 1) a).reads, some retval⟩ := by
  rw [strcountFrom]
  dsimp only
  rw [h]

theorem strcountFrom_some {retval : ℤ} {hit : ℕ}
    (h : (strindexFrom m ch (fuel + 1) a).result = some (some hit)) :
    strcountFrom m ch (fuel + 1) a retval =
      ⟨(strindexFrom m ch (fuel + 1) a).reads ++
          (strcountFrom m ch fuel (hit + 1) (Int.bmod (retval + 1) (2 ^ 32))).reads,
        (strcountFrom m ch fuel (hit + 1) (Int.bmod (retval + 1) (2 ^ 32))).result⟩ := by
  rw [strcountFrom]
  dsimp only
  rw [h]

theorem idxOf?_first (hu : ch ∉ u) : (u ++ ch :: v).idxOf? ch = some u.length := by
  induction u with
  | nil => simp [List.idxOf?_cons]
  | cons b u ih =>
    rw [List.mem_cons, not_or] at hu
    rw [List.cons_append, List.idxOf?_cons, ih hu.2, List.length_cons]
    simp [Ne.symm hu.1]

theorem holds_behind (hold : Holds m a (u ++ ch :: v ++ [0])) :
    Holds m (a + u.length + 1) (v ++ [0]) := by
  rw [List.append_assoc, List.cons_append, holds_append] at hold
  exact hold.2.2

/-- The loop over a string that does not end in the character: it needs as many passes as there
are bytes at most. The induction is on the passes, since every hit takes one. -/
theorem strcountFrom_spec (fuel : ℕ) (retval : ℤ) (hne : s ≠ []) (hlast : s.getLast? ≠ some ch)
    (hold : Holds m a (s ++ [0])) (hnul : (0 : UInt8) ∉ s)
    (hret : Int.bmod retval (2 ^ 32) = retval) :
    ((strcountFrom m ch fuel a retval).result = none ∧ fuel < s.length ∨
        (strcountFrom m ch fuel a retval).result =
          some (Int.bmod (retval + s.count ch) (2 ^ 32))) ∧
      Within a s.length (strcountFrom m ch fuel a retval).reads := by
  induction fuel generalizing a s retval with
  | zero => exact ⟨Or.inl ⟨rfl, List.length_pos_iff.mpr hne⟩, by simp [strcountFrom, Within]⟩
  | succ fuel ih =>
    by_cases hmem : ch ∈ s
    · obtain ⟨u, v, rfl, hu⟩ := List.eq_append_cons_of_mem hmem
      have hch : ch ≠ 0 := fun h => hnul (h ▸ hmem)
      have hv : v ≠ [] := by
        rintro rfl
        exact hlast List.getLast?_concat
      rw [getLast?_behind hv] at hlast
      simp only [List.mem_append, List.mem_cons, not_or] at hnul
      have hlen : (u ++ ch :: v).length = u.length + 1 + v.length := by simp; omega
      have hhit := strindexFrom_hit (fuel + 1) hch
        (by rwa [List.append_assoc] at hold) hu hnul.1
      by_cases hfuel : u.length < fuel + 1
      · rw [if_pos hfuel] at hhit
        obtain ⟨hresult, hreads⟩ := ih (Int.bmod (retval + 1) (2 ^ 32)) hv hlast
          (holds_behind hold) hnul.2.2 Int.bmod_bmod
        have hcount : Int.bmod (Int.bmod (retval + 1) (2 ^ 32) + v.count ch) (2 ^ 32) =
            Int.bmod (retval + (u ++ ch :: v).count ch) (2 ^ 32) := by
          rw [Int.bmod_add_bmod, List.count_append, List.count_cons_self,
            List.count_eq_zero_of_not_mem hu]
          congr 1
          omega
        rw [strcountFrom_some hhit.1, hlen]
        rw [hcount] at hresult
        refine ⟨hresult.imp_left fun h => ⟨h.1, by omega⟩, ?_⟩
        exact within_append (within_mono hhit.2 (by omega)) hreads (by omega) (by omega)
      · rw [if_neg hfuel] at hhit
        rw [strcountFrom_none hhit.1]
        exact ⟨Or.inl ⟨rfl, by omega⟩, within_mono hhit.2 (by omega)⟩
    · have hmiss := strindexFrom_miss (fuel + 1) hne hold hmem hnul
      by_cases hfuel : s.length ≤ fuel + 1
      · rw [if_pos hfuel] at hmiss
        rw [strcountFrom_null hmiss.1, List.count_eq_zero_of_not_mem hmem]
        refine ⟨Or.inr ?_, hmiss.2⟩
        rw [Int.natCast_zero, Int.add_zero, hret]
      · rw [if_neg hfuel] at hmiss
        rw [strcountFrom_none hmiss.1]
        exact ⟨Or.inl ⟨rfl, by omega⟩, hmiss.2⟩

theorem reads_subset {retval : ℤ} :
    (strindexFrom m ch (fuel + 1) a).reads ⊆ (strcountFrom m ch (fuel + 1) a retval).reads := by
  cases hresult : (strindexFrom m ch (fuel + 1) a).result with
  | none =>
    rw [strcountFrom_none hresult]
    exact List.Subset.refl _
  | some hit =>
    cases hit with
    | none =>
      rw [strcountFrom_null hresult]
      exact List.Subset.refl _
    | some hit =>
      rw [strcountFrom_some hresult]
      exact List.subset_append_left _ _

theorem mem_reads_of_ended {retval : ℤ}
    (hend : (strcountFrom m ch fuel a retval).result.isSome = true) :
    a ∈ (strcountFrom m ch fuel a retval).reads := by
  cases fuel with
  | zero => exact absurd hend Bool.false_ne_true
  | succ fuel =>
    apply reads_subset
    rw [strindexFrom]
    split
    · exact List.mem_cons_self
    · split <;> exact List.mem_cons_self

/-- The terminator is taken for a byte of the string, and the byte behind it is read. -/
theorem strcountFrom_empty {retval : ℤ}
    (hend : (strcountFrom m ch fuel a retval).result.isSome = true) :
    a + 1 ∈ (strcountFrom m ch fuel a retval).reads := by
  cases fuel with
  | zero => exact absurd hend Bool.false_ne_true
  | succ fuel =>
    by_cases hb : m a = ch
    · have hhit : (strindexFrom m ch (fuel + 1) a).result = some (some a) := by
        rw [strindexFrom, if_pos hb]
      rw [strcountFrom_some hhit] at hend ⊢
      exact List.mem_append_right _ (mem_reads_of_ended hend)
    · apply reads_subset
      rw [strindexFrom, if_neg hb]
      split <;> exact List.mem_cons_of_mem _ List.mem_cons_self

/-- A call that comes to an end has read behind the string when the string is empty or ends in the
character. -/
theorem strcountFrom_behind {retval : ℤ} (hlast : s = [] ∨ s.getLast? = some ch)
    (hold : Holds m a (s ++ [0])) (hnul : (0 : UInt8) ∉ s)
    (hend : (strcountFrom m ch fuel a retval).result.isSome = true) :
    a + s.length + 1 ∈ (strcountFrom m ch fuel a retval).reads := by
  induction fuel generalizing a s retval with
  | zero => exact absurd hend Bool.false_ne_true
  | succ fuel ih =>
    rcases hlast with rfl | hlast
    · exact strcountFrom_empty hend
    · have hmem : ch ∈ s := List.mem_of_getLast? hlast
      obtain ⟨u, v, rfl, hu⟩ := List.eq_append_cons_of_mem hmem
      have hch : ch ≠ 0 := fun h => hnul (h ▸ hmem)
      have hrest : v = [] ∨ v.getLast? = some ch := by
        rw [or_iff_not_imp_left]
        intro hv
        rwa [getLast?_behind hv] at hlast
      simp only [List.mem_append, List.mem_cons, not_or] at hnul
      obtain ⟨hhit, _⟩ := strindexFrom_hit (fuel + 1) hch
        (by rwa [List.append_assoc] at hold) hu hnul.1
      by_cases hfuel : u.length < fuel + 1
      · rw [if_pos hfuel] at hhit
        rw [strcountFrom_some hhit] at hend ⊢
        have hbehind := ih hrest (holds_behind hold) hnul.2.2 hend
        have hlen : a + (u ++ ch :: v).length + 1 = a + u.length + 1 + v.length + 1 := by
          simp
          omega
        rw [hlen]
        exact List.mem_append_right _ hbehind
      · rw [if_neg hfuel] at hhit
        rw [strcountFrom_none hhit] at hend
        exact absurd hend Bool.false_ne_true

end Scanning

section Calls
variable (c : Call)

/-- The string has a last character, which is not the one that is looked for, and `int` holds the
number of those. -/
def Stops : Prop :=
  c.text ≠ [] ∧ c.text.getLast? ≠ some c.ch ∧ c.text.count c.ch < 2 ^ 31

variable {c}

theorem not_count_of_behind (hlast : c.text = [] ∨ c.text.getLast? = some c.ch) : ¬ Right c := by
  rintro ⟨⟨fuel, hresult, hreads⟩, _⟩
  have hbehind := strcountFrom_behind hlast c.holds c.no_nul (Option.isSome_of_eq_some hresult)
  have hle := (hreads _ hbehind).2
  omega

theorem index_of_nonempty (hne : c.text ≠ []) :
    ∃ fuel, (strindex c.mem c.ch fuel (some c.str)).result =
      some ((c.text.idxOf? c.ch).map (c.str + ·)) ∧
    Within c.str c.text.length (strindex c.mem c.ch fuel (some c.str)).reads := by
  refine ⟨c.text.length, ?_⟩
  by_cases hmem : c.ch ∈ c.text
  · obtain ⟨u, v, htext, hu⟩ := List.eq_append_cons_of_mem hmem
    have hch : c.ch ≠ 0 := fun h => c.no_nul (h ▸ hmem)
    have hold := c.holds
    have hnul := c.no_nul
    have hlen : u.length < c.text.length := by simp [htext]
    rw [htext, List.append_assoc] at hold
    rw [htext, List.mem_append, not_or] at hnul
    obtain ⟨hresult, hreads⟩ := strindexFrom_hit c.text.length hch hold hu hnul.1
    rw [if_pos hlen] at hresult
    have hidx : c.text.idxOf? c.ch = some u.length := by
      rw [htext]
      exact idxOf?_first hu
    rw [hidx]
    exact ⟨hresult, within_mono hreads (Nat.le_of_lt hlen)⟩
  · obtain ⟨hresult, hreads⟩ :=
      strindexFrom_miss c.text.length hne c.holds hmem c.no_nul
    rw [if_pos (Nat.le_refl _)] at hresult
    rw [List.idxOf?_eq_none_iff.mpr hmem]
    exact ⟨hresult, hreads⟩

end Calls

theorem strcount_right_iff (c : Call) : Right c ↔ Stops c := by
  constructor
  · intro hright
    have hlast : c.text ≠ [] ∧ c.text.getLast? ≠ some c.ch :=
      not_or.mp fun hlast => not_count_of_behind hlast hright
    obtain ⟨fuel, hresult, _⟩ := hright.count
    obtain ⟨hspec, _⟩ := strcountFrom_spec fuel 0 hlast.1 hlast.2 c.holds
      c.no_nul (by decide)
    rcases hspec with ⟨hnone, _⟩ | hspec
    · exact absurd (hnone.symm.trans hresult) (by simp)
    · have hwrap : Int.bmod (0 + c.text.count c.ch) (2 ^ 32) = c.text.count c.ch :=
        Option.some.inj (hspec.symm.trans hresult)
      have hlt : Int.bmod (0 + c.text.count c.ch) (2 ^ 32) < ((2 ^ 32 : ℕ) + 1) / 2 :=
        Int.bmod_lt (by decide)
      exact ⟨hlast.1, hlast.2, by omega⟩
  · rintro ⟨hne, hlast, hsmall⟩
    refine ⟨⟨c.text.length, ?_⟩, index_of_nonempty hne⟩
    obtain ⟨hspec, hreads⟩ := strcountFrom_spec c.text.length 0 hne hlast
      c.holds c.no_nul (by decide)
    rcases hspec with ⟨_, hshort⟩ | hspec
    · exact absurd hshort (Nat.lt_irrefl _)
    · rw [Int.zero_add, Int.bmod_eq_of_le (by omega) (by omega)] at hspec
      exact ⟨hspec, hreads⟩

/-- The string `host:`, with another byte behind its terminator. -/
def trailingColon : Call where
  mem := fun i => [0x68, 0x6f, 0x73, 0x74, 0x3a, 0, 0x78].getD i 0
  str := 0
  text := [0x68, 0x6f, 0x73, 0x74, 0x3a]
  ch := 0x3a
  holds := by simp [Holds]
  no_nul := by decide

theorem strcount_trailingColon : ¬ Right trailingColon :=
  not_count_of_behind (Or.inr rfl)

end Comodoo.StringCount
