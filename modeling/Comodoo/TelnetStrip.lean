import Comodoo.TelnetInput
import Mathlib.Data.List.Induction
import Mathlib.Data.Nat.Init

set_option autoImplicit false

/-!
# What the telnet input filter deletes

`Stripped` says which bytes of one buffer are commands, in the words of the telnet protocol and
without the states of the scanner. `tracedLoop` is the scanner with the places it reads and writes
written down.
-/
namespace Comodoo.TelnetStrip
open TelnetInput

/-- The inside of a suboption: an IAC goes with the byte after it, and IAC SE is not there. -/
inductive Inside : List UInt8 → Prop
  | nil : Inside []
  | plain (b : UInt8) (body : List UInt8) : b ≠ IAC → Inside body → Inside (b :: body)
  | pair (b : UInt8) (body : List UInt8) : b ≠ SE → Inside body → Inside (IAC :: b :: body)

/-- `Stripped data out`: `out` is `data` without its commands. The last one may be cut. -/
inductive Stripped : List UInt8 → List UInt8 → Prop
  | nil : Stripped [] []
  | keep (b : UInt8) (data out : List UInt8) :
      b ≠ IAC → Stripped data out → Stripped (b :: data) (b :: out)
  | triple (verb object : UInt8) (data out : List UInt8) :
      verb ≠ SB → Stripped data out → Stripped (IAC :: verb :: object :: data) out
  | cutBeforeVerb : Stripped [IAC] []
  | cutBeforeObject (verb : UInt8) : verb ≠ SB → Stripped [IAC, verb] []
  | block (body data out : List UInt8) :
      Inside body → Stripped data out → Stripped (IAC :: SB :: (body ++ IAC :: SE :: data)) out
  | cutBlock (body : List UInt8) : Inside body → Stripped (IAC :: SB :: body) []
  | cutPair (body : List UInt8) : Inside body → Stripped (IAC :: SB :: (body ++ [IAC])) []

variable {data out body : List UInt8}

section Language

theorem strip_inside (h : Inside body) (rest : List UInt8) :
    strip .sb (body ++ rest) = strip .sb rest := by
  induction h with
  | nil => rfl
  | plain b body hb _ ih => rw [List.cons_append, strip, if_neg hb, ih]
  | pair b body hb _ ih =>
    rw [List.cons_append, List.cons_append, strip, if_pos rfl, strip, if_neg hb, ih]

theorem strip_block (bs : List UInt8) : strip .data (IAC :: SB :: bs) = strip .sb bs := by
  rw [strip, if_pos rfl, strip_suboption]

theorem strip_of_stripped (h : Stripped data out) : (strip .data data).1 = out := by
  induction h with
  | nil => rfl
  | keep b data out hb _ ih => rw [strip, if_neg hb, ih]
  | triple verb object data out hverb _ ih =>
    rw [strip, if_pos rfl, strip_verb _ _ hverb]
    exact ih
  | cutBeforeVerb => rfl
  | cutBeforeObject verb hverb => rw [strip, if_pos rfl, strip_verb _ _ hverb]; rfl
  | block body data out hbody _ ih =>
    rw [strip_block, strip_inside hbody, strip, if_pos rfl, strip, if_pos rfl, ih]
  | cutBlock body hbody =>
    have h := strip_inside hbody []
    rw [List.append_nil] at h
    rw [strip_block, h]
    rfl
  | cutPair body hbody =>
    rw [strip_block, strip_inside hbody]
    rfl

/-- Every text goes on inside a suboption in one of three ways. -/
theorem inside_cases (bs : List UInt8) :
    Inside bs ∨ (∃ body, Inside body ∧ bs = body ++ [IAC]) ∨
      ∃ body rest, Inside body ∧ bs = body ++ IAC :: SE :: rest := by
  induction bs using List.twoStepInduction with
  | nil => exact Or.inl Inside.nil
  | singleton b =>
    by_cases hb : b = IAC
    · exact Or.inr (Or.inl ⟨[], Inside.nil, by rw [hb]; rfl⟩)
    · exact Or.inl (Inside.plain b [] hb Inside.nil)
  | cons_cons b c bs ih ihc =>
    by_cases hb : b = IAC
    · by_cases hc : c = SE
      · exact Or.inr (Or.inr ⟨[], bs, Inside.nil, by rw [hb, hc]; rfl⟩)
      · rcases ih with h | ⟨body, h, heq⟩ | ⟨body, rest, h, heq⟩
        · exact Or.inl (hb ▸ Inside.pair c bs hc h)
        · exact Or.inr (Or.inl ⟨IAC :: c :: body, Inside.pair c body hc h, by rw [hb, heq]; rfl⟩)
        · exact Or.inr (Or.inr
            ⟨IAC :: c :: body, rest, Inside.pair c body hc h, by rw [hb, heq]; rfl⟩)
    · rcases ihc c with h | ⟨body, h, heq⟩ | ⟨body, rest, h, heq⟩
      · exact Or.inl (Inside.plain b _ hb h)
      · exact Or.inr (Or.inl ⟨b :: body, Inside.plain b body hb h, by rw [heq]; rfl⟩)
      · exact Or.inr (Or.inr ⟨b :: body, rest, Inside.plain b body hb h, by rw [heq]; rfl⟩)

theorem exists_stripped (data : List UInt8) : ∃ out, Stripped data out := by
  induction hn : data.length using Nat.strong_induction_on generalizing data with
  | _ n ih =>
    cases data with
    | nil => exact ⟨[], Stripped.nil⟩
    | cons b data =>
      rw [List.length_cons] at hn
      by_cases hb : b = IAC
      · subst hb
        cases data with
        | nil => exact ⟨[], Stripped.cutBeforeVerb⟩
        | cons verb data =>
          rw [List.length_cons] at hn
          by_cases hverb : verb = SB
          · subst hverb
            rcases inside_cases data with h | ⟨body, h, rfl⟩ | ⟨body, rest, h, rfl⟩
            · exact ⟨[], Stripped.cutBlock data h⟩
            · exact ⟨[], Stripped.cutPair body h⟩
            · rw [List.length_append, List.length_cons, List.length_cons] at hn
              obtain ⟨out, hout⟩ := ih rest.length (by omega) rest rfl
              exact ⟨out, Stripped.block body rest out h hout⟩
          · cases data with
            | nil => exact ⟨[], Stripped.cutBeforeObject verb hverb⟩
            | cons object data =>
              rw [List.length_cons] at hn
              obtain ⟨out, hout⟩ := ih data.length (by omega) data rfl
              exact ⟨out, Stripped.triple verb object data out hverb hout⟩
      · obtain ⟨out, hout⟩ := ih data.length (by omega) data rfl
        exact ⟨b :: out, Stripped.keep b data out hb hout⟩

theorem stripped_iff : Stripped data out ↔ (strip .data data).1 = out := by
  constructor
  · exact strip_of_stripped
  · intro h
    obtain ⟨out', hout⟩ := exists_stripped data
    rwa [← h, strip_of_stripped hout]

theorem stripped_sublist (h : Stripped data out) : out.Sublist data := by
  induction h with
  | nil => exact List.Sublist.refl []
  | keep b data out _ _ ih => exact ih.cons_cons b
  | triple verb object data out _ _ ih => exact ((ih.cons object).cons verb).cons IAC
  | cutBeforeVerb => exact List.nil_sublist _
  | cutBeforeObject verb _ => exact List.nil_sublist _
  | block body data out _ _ ih =>
    exact (((ih.cons SE).cons IAC).trans (List.sublist_append_right body _)).cons SB |>.cons IAC
  | cutBlock body _ => exact List.nil_sublist _
  | cutPair body _ => exact List.nil_sublist _

end Language

section Trace

inductive Access where
  | read (i : ℕ)
  | write (i : ℕ)
  deriving DecidableEq, Repr

/-- The reads of the inner `while` of `TS_SB` and of the test after it. -/
def skipReads (data : List UInt8) : ℕ → ℕ → List Access
  | 0, s => [.read s]
  | fuel + 1, s =>
    if s < data.length - 1 then
      if data.getD s 0 = IAC then [.read s, .read s]
      else .read s :: skipReads data fuel (s + 1)
    else [.read s]

structure Traced where
  result : TelnetState × List UInt8 × ℕ
  log : List Access
  deriving DecidableEq, Repr

def Traced.after (log : List Access) (r : Traced) : Traced := ⟨r.result, log ++ r.log⟩

/-- `processLoop`, with its accesses in the order in which the code makes them. -/
def tracedLoop : ℕ → TelnetState → List UInt8 → ℕ → ℕ → Traced
  | 0, ts, data, _, d => ⟨(ts, data, d), []⟩
  | fuel + 1, ts, data, s, d =>
    if s < data.length then
      match ts with
      | .data =>
        if data.getD s 0 = IAC then (tracedLoop fuel .iac data (s + 1) d).after [.read s]
        else if d < s then
          (tracedLoop fuel .data (data.set d (data.getD s 0)) (s + 1) (d + 1)).after
            [.read s, .read s, .write d]
        else (tracedLoop fuel .data data (s + 1) (d + 1)).after [.read s]
      | .iac =>
        if data.getD s 0 = SB then (tracedLoop fuel .sb data (s + 1) d).after [.read s]
        else (tracedLoop fuel .data data (s + 2) d).after [.read s]
      | .sb =>
        let s' := skipSB data data.length s
        if data.getD s' 0 = IAC then
          (tracedLoop fuel .sbIac data (s' + 1) d).after (skipReads data data.length s)
        else (tracedLoop fuel .sb data (s' + 1) d).after (skipReads data data.length s)
      | .sbIac =>
        if data.getD s 0 = SE then (tracedLoop fuel .data data (s + 1) d).after [.read s]
        else (tracedLoop fuel .sb data (s + 1) d).after [.read s]
    else ⟨(ts, data, d), []⟩

theorem tracedLoop_result (fuel : ℕ) (ts : TelnetState) (data : List UInt8) (s d : ℕ) :
    (tracedLoop fuel ts data s d).result = processLoop fuel ts data s d := by
  induction fuel generalizing ts data s d with
  | zero => rfl
  | succ fuel ih =>
    cases ts with
    | data =>
      dsimp only [tracedLoop, processLoop]
      split_ifs
      · exact ih _ _ _ _
      · exact ih _ _ _ _
      · exact ih _ _ _ _
      · rfl
    | iac =>
      dsimp only [tracedLoop, processLoop]
      split_ifs
      · exact ih _ _ _ _
      · exact ih _ _ _ _
      · rfl
    | sb =>
      dsimp only [tracedLoop, processLoop]
      split_ifs
      · exact ih _ _ _ _
      · exact ih _ _ _ _
      · rfl
    | sbIac =>
      dsimp only [tracedLoop, processLoop]
      split_ifs
      · exact ih _ _ _ _
      · exact ih _ _ _ _
      · rfl

/-- No byte is read after it has been written. -/
def NoReadAfterWrite (log : List Access) : Prop :=
  log.Pairwise (fun a b => ∀ i, a = .write i → b ≠ .read i)

def ReadsFrom (s : ℕ) (log : List Access) : Prop := ∀ a ∈ log, ∃ i, a = .read i ∧ s ≤ i

theorem skipReads_from (data : List UInt8) (fuel s : ℕ) :
    ReadsFrom s (skipReads data fuel s) := by
  induction fuel generalizing s with
  | zero => simp [skipReads, ReadsFrom]
  | succ fuel ih =>
    unfold skipReads
    split_ifs
    · simp [ReadsFrom]
    · intro a ha
      rcases List.mem_cons.mp ha with rfl | ha
      · exact ⟨s, rfl, Nat.le_refl s⟩
      · obtain ⟨i, rfl, hi⟩ := ih (s + 1) a ha
        exact ⟨i, rfl, by omega⟩
    · simp [ReadsFrom]

/-- From a round on, reads are at `s` or behind it, and no read follows a write at its place. -/
def SafeFrom (s : ℕ) (r : Traced) : Prop :=
  (∀ i, .read i ∈ r.log → s ≤ i) ∧ NoReadAfterWrite r.log

theorem safeFrom_reads {s s' : ℕ} {log : List Access} {r : Traced} (hlog : ReadsFrom s log)
    (hle : s ≤ s') (hr : SafeFrom s' r) : SafeFrom s (r.after log) := by
  constructor
  · intro i hi
    rcases List.mem_append.mp hi with hi | hi
    · obtain ⟨j, hj, hle⟩ := hlog _ hi
      cases hj
      exact hle
    · exact Nat.le_trans hle (hr.1 i hi)
  · refine List.pairwise_append.mpr ⟨?_, hr.2, ?_⟩
    · refine List.Pairwise.imp_of_mem ?_ (List.pairwise_of_forall (R := fun _ _ => True)
        (fun _ _ => trivial))
      intro a b ha _ _ i hai
      obtain ⟨j, hj, _⟩ := hlog a ha
      rw [hai] at hj
      cases hj
    · intro a ha b _ i hai
      obtain ⟨j, hj, _⟩ := hlog a ha
      rw [hai] at hj
      cases hj

theorem safeFrom_copy {s d : ℕ} {r : Traced} (hd : d < s) (hr : SafeFrom (s + 1) r) :
    SafeFrom s (r.after [.read s, .read s, .write d]) := by
  have hwrite : SafeFrom (s + 1) (r.after [.write d]) := by
    constructor
    · intro i hi
      rcases List.mem_append.mp hi with hi | hi
      · cases List.mem_singleton.mp hi
      · exact hr.1 i hi
    · refine List.pairwise_cons.mpr ⟨?_, hr.2⟩
      intro b hb i hi hread
      cases hi
      rw [hread] at hb
      have := hr.1 d hb
      omega
  have hreads : ReadsFrom s [.read s, .read s] := by simp [ReadsFrom]
  have hlog : r.after [.read s, .read s, .write d] =
      (r.after [.write d]).after [.read s, .read s] := rfl
  rw [hlog]
  exact safeFrom_reads hreads (Nat.le_succ s) hwrite

theorem tracedLoop_safe (fuel : ℕ) (ts : TelnetState) (data : List UInt8) (s d : ℕ)
    (hd : d ≤ s) : SafeFrom s (tracedLoop fuel ts data s d) := by
  have hnone : ∀ (r : TelnetState × List UInt8 × ℕ) (s : ℕ), SafeFrom s ⟨r, []⟩ := by
    intro r s
    exact ⟨fun i hi => absurd hi List.not_mem_nil, List.Pairwise.nil⟩
  have hone : ∀ s : ℕ, ReadsFrom s [.read s] := by
    intro s
    simp [ReadsFrom]
  induction fuel generalizing ts data s d with
  | zero => exact hnone _ s
  | succ fuel ih =>
    cases ts with
    | data =>
      dsimp only [tracedLoop]
      split_ifs with hs hiac hlt
      · exact safeFrom_reads (hone s) (by omega) (ih _ _ (s + 1) _ (by omega))
      · exact safeFrom_copy hlt (ih _ _ (s + 1) _ (by omega))
      · exact safeFrom_reads (hone s) (by omega) (ih _ _ (s + 1) _ (by omega))
      · exact hnone _ s
    | iac =>
      dsimp only [tracedLoop]
      split_ifs
      · exact safeFrom_reads (hone s) (by omega) (ih _ _ (s + 1) _ (by omega))
      · exact safeFrom_reads (hone s) (by omega) (ih _ _ (s + 2) _ (by omega))
      · exact hnone _ s
    | sb =>
      have hreads := skipReads_from data data.length s
      dsimp only [tracedLoop]
      split_ifs with hs hiac
      · have hskip := (skipSB_strip data data.length s hs (by omega)).1
        exact safeFrom_reads hreads (Nat.le_succ_of_le hskip) (ih _ _ _ _ (by omega))
      · have hskip := (skipSB_strip data data.length s hs (by omega)).1
        exact safeFrom_reads hreads (Nat.le_succ_of_le hskip) (ih _ _ _ _ (by omega))
      · exact hnone _ s
    | sbIac =>
      dsimp only [tracedLoop]
      split_ifs
      · exact safeFrom_reads (hone s) (by omega) (ih _ _ (s + 1) _ (by omega))
      · exact safeFrom_reads (hone s) (by omega) (ih _ _ (s + 1) _ (by omega))
      · exact hnone _ s

end Trace

/-- `telnet_process_input` from state `TS_DATA`, traced. -/
def traced (data : List UInt8) : Traced := tracedLoop data.length .data data 0 0

/-- What stays at the front of the buffer is the buffer without its commands. -/
theorem telnetProcessInput_strips (data : List UInt8) :
    (traced data).result = telnetProcessInput .data data ∧
      (∀ out, Stripped data out ↔ (relayed .data data).1 = out) ∧
      (telnetProcessInput .data data).2.2 ≤ data.length ∧ NoReadAfterWrite (traced data).log := by
  have hspec := processLoop_strip data.length .data data 0 0 (Nat.le_refl 0) (Nat.zero_le _)
    (by omega)
  refine ⟨tracedLoop_result _ _ _ _ _, ?_, hspec.2.2.2, ?_⟩
  · intro out
    rw [relayed_eq_strip, stripped_iff]
  · exact (tracedLoop_safe _ _ _ 0 0 (Nat.le_refl 0)).2

end Comodoo.TelnetStrip
