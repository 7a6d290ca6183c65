import Mathlib.Algebra.Ring.Int.Defs
import Mathlib.Algebra.Ring.Nat
import Mathlib.Data.Int.Notation
import Mathlib.Data.List.Basic
import Mathlib.Data.List.DropRight
import Mathlib.Data.List.TakeWhile
import Mathlib.Tactic.Common

set_option autoImplicit false

/-!
# C strings as byte lists

A C string is the list of its bytes before the terminating NUL. The functions
below return the parts of the string on both sides of a hit instead of a pointer.
-/
namespace Comodoo.CString

abbrev Str := List UInt8

def ascii (s : String) : Str := s.toList.map (fun c => c.toNat.toUInt8)

section Until

variable {p : UInt8 → Bool} {l r : Str}

theorem takeWhile_append_stop (hl : ∀ b ∈ l, p b = true)
    (hr : ∀ b, r.head? = some b → p b = false) : (l ++ r).takeWhile p = l := by
  rw [List.takeWhile_append_of_pos hl]
  cases r with
  | nil => simp
  | cons b r => simp [hr b rfl]

theorem dropWhile_append_stop (hl : ∀ b ∈ l, p b = true)
    (hr : ∀ b, r.head? = some b → p b = false) : (l ++ r).dropWhile p = r := by
  rw [List.dropWhile_append_of_pos hl]
  cases r with
  | nil => rfl
  | cons b r => simp [hr b rfl]

end Until

/-- `strchr`: the bytes before the first `c` and the bytes after it. -/
def strchr (c : UInt8) : Str → Option (Str × Str)
  | [] => none
  | b :: s => if b = c then some ([], s) else (strchr c s).map (fun r => (b :: r.1, r.2))

theorem strchr_eq_none_iff (c : UInt8) (s : Str) : strchr c s = none ↔ c ∉ s := by
  induction s with
  | nil => simp [strchr]
  | cons b s ih =>
    by_cases hb : b = c
    · simp [strchr, hb]
    · simp [strchr, hb, ih, Ne.symm hb]

theorem strchr_eq_some_iff (c : UInt8) (s l r : Str) :
    strchr c s = some (l, r) ↔ s = l ++ c :: r ∧ c ∉ l := by
  induction s generalizing l r with
  | nil => simp [strchr]
  | cons b s ih =>
    by_cases hb : b = c
    · cases l with
      | nil => simp [strchr, hb]
      | cons x l =>
        simp only [strchr, hb, ↓reduceIte, Option.some.injEq, Prod.mk.injEq, List.cons_append,
          List.cons.injEq, List.mem_cons]
        tauto
    · cases l with
      | nil => simp [strchr, hb]
      | cons x l =>
        simp only [strchr, hb, ↓reduceIte, Option.map_eq_some_iff, Prod.exists, ih, Prod.mk.injEq,
          List.cons.injEq, List.cons_append, List.mem_cons]
        constructor
        · rintro ⟨_, _, ⟨rfl, hc⟩, ⟨rfl, rfl⟩, rfl⟩
          exact ⟨⟨rfl, rfl⟩, by tauto⟩
        · rintro ⟨⟨rfl, rfl⟩, hc⟩
          exact ⟨l, r, ⟨rfl, by tauto⟩, ⟨rfl, rfl⟩, rfl⟩

theorem strchr_append (c : UInt8) (l r : Str) (h : c ∉ l) :
    strchr c (l ++ c :: r) = some (l, r) :=
  (strchr_eq_some_iff c _ l r).mpr ⟨rfl, h⟩

/-- `strrchr`: the bytes before the last `c` and the bytes after it. -/
def strrchr (c : UInt8) : Str → Option (Str × Str)
  | [] => none
  | b :: s =>
    match strrchr c s with
    | some (l, r) => some (b :: l, r)
    | none => if b = c then some ([], s) else none

theorem strrchr_eq_none {c : UInt8} {s : Str} (h : c ∉ s) : strrchr c s = none := by
  induction s with
  | nil => rfl
  | cons b s ih =>
    simp only [List.mem_cons, not_or] at h
    simp [strrchr, ih h.2, Ne.symm h.1]

theorem strrchr_append {c : UInt8} (l : Str) {r : Str} (h : c ∉ r) :
    strrchr c (l ++ c :: r) = some (l, r) := by
  induction l with
  | nil => simp [strrchr, strrchr_eq_none h]
  | cons b l ih => simp [strrchr, ih]

theorem strrchr_cases (c : UInt8) (s : Str) :
    (strrchr c s = none ∧ c ∉ s) ∨
      ∃ l r, strrchr c s = some (l, r) ∧ s = l ++ c :: r ∧ c ∉ r := by
  induction s with
  | nil => exact Or.inl ⟨rfl, List.not_mem_nil⟩
  | cons b s ih =>
    rcases ih with ⟨hnone, hnot⟩ | ⟨l, r, hsome, rfl, hnot⟩
    · by_cases hb : b = c
      · exact Or.inr ⟨[], s, by simp [strrchr, hnone, hb], by rw [hb]; rfl, hnot⟩
      · exact Or.inl ⟨by simp [strrchr, hnone, hb], by simp [hnot, Ne.symm hb]⟩
    · exact Or.inr ⟨b :: l, r, by simp [strrchr, hsome], rfl, hnot⟩

/-- `isspace` in the C locale. -/
def isspace (b : UInt8) : Bool := b = 0x20 ∨ (0x09 ≤ b ∧ b ≤ 0x0d)

/-- `strstr`: the bytes before the first occurrence of `needle` and the bytes after it. -/
def strstr (needle : Str) : Str → Option (Str × Str)
  | [] => if needle = [] then some ([], []) else none
  | b :: s =>
    if needle.isPrefixOf (b :: s) then some ([], (b :: s).drop needle.length)
    else (strstr needle s).map (fun r => (b :: r.1, r.2))

section Search

variable {needle s l r : Str}

theorem strstr_eq_some (h : strstr needle s = some (l, r)) : s = l ++ (needle ++ r) := by
  induction s generalizing l r with
  | nil =>
    rw [strstr] at h
    split at h
    · rename_i hn
      rw [Option.some.injEq, Prod.mk.injEq] at h
      rw [hn, ← h.1, ← h.2]
      rfl
    · cases h
  | cons b s ih =>
    rw [strstr] at h
    split at h
    · rename_i hn
      obtain ⟨t, ht⟩ := List.isPrefixOf_iff_prefix.mp hn
      rw [Option.some.injEq, Prod.mk.injEq, ← ht, List.drop_left] at h
      rw [← h.1, ← h.2, ← ht]
      rfl
    · rw [Option.map_eq_some_iff] at h
      obtain ⟨⟨l', r'⟩, hs, heq⟩ := h
      rw [Prod.mk.injEq] at heq
      rw [← heq.1, ← heq.2, ih hs]
      rfl

theorem strstr_append (needle l r : Str) : ∃ l' r', strstr needle (l ++ (needle ++ r)) =
    some (l', r') ∧ l' <+: l := by
  induction l with
  | nil =>
    cases hs : needle ++ r with
    | nil =>
      rw [List.append_eq_nil_iff] at hs
      exact ⟨[], [], by simp [strstr, hs.1], List.prefix_refl _⟩
    | cons b s =>
      have hfront : needle.isPrefixOf (b :: s) = true := by
        rw [← hs]
        exact List.isPrefixOf_iff_prefix.mpr (List.prefix_append _ _)
      exact ⟨[], _, by rw [List.nil_append, strstr, if_pos hfront], List.prefix_refl _⟩
  | cons b l ih =>
    obtain ⟨l', r', hs, hl⟩ := ih
    rw [List.cons_append, strstr]
    split
    · exact ⟨[], _, rfl, List.nil_prefix⟩
    · exact ⟨b :: l', r', by rw [hs]; rfl, List.cons_prefix_cons.mpr ⟨rfl, hl⟩⟩

theorem strstr_isSome_iff : (strstr needle s).isSome = true ↔ needle <:+: s := by
  constructor
  · intro h
    obtain ⟨⟨l, r⟩, hs⟩ := Option.isSome_iff_exists.mp h
    exact ⟨l, r, by rw [strstr_eq_some hs, List.append_assoc]⟩
  · rintro ⟨l, r, rfl⟩
    obtain ⟨l', r', hs, -⟩ := strstr_append needle l r
    rw [List.append_assoc, hs]
    rfl

/-- A needle whose first byte does not come again in it is found where it was put, unless it stands
further in front. -/
theorem strstr_append_iff {c : UInt8} {rest : Str} (hc : c ∉ rest) (l r : Str) :
    strstr (c :: rest) (l ++ (c :: rest ++ r)) = some (l, r) ↔ ¬ (c :: rest) <:+: l := by
  constructor
  · rintro hfound ⟨x, y, rfl⟩
    have happ : x ++ (c :: rest) ++ y ++ (c :: rest ++ r) =
        x ++ ((c :: rest) ++ (y ++ (c :: rest ++ r))) := by simp only [List.append_assoc]
    obtain ⟨l', r', hfirst, hle⟩ := strstr_append (c :: rest) x (y ++ (c :: rest ++ r))
    rw [happ, hfirst, Option.some.injEq, Prod.mk.injEq] at hfound
    have hlen := hle.length_le
    rw [hfound.1] at hlen
    simp only [List.length_append, List.length_cons] at hlen
    omega
  · intro hnot
    induction l with
    | nil =>
      have hfront : (c :: rest).isPrefixOf (c :: (rest ++ r)) = true :=
        List.isPrefixOf_iff_prefix.mpr (List.prefix_append _ _)
      rw [List.nil_append, List.cons_append, strstr, if_pos hfront, ← List.cons_append,
        List.drop_left]
    | cons b l ih =>
      have hfront : ¬ (c :: rest).isPrefixOf (b :: (l ++ (c :: rest ++ r))) = true := by
        intro hpre
        obtain ⟨t, ht⟩ := List.isPrefixOf_iff_prefix.mp hpre
        rw [← List.cons_append, List.append_eq_append_iff] at ht
        rcases ht with ⟨u, hu, -⟩ | ⟨u, hu, hrest⟩
        · exact hnot ⟨[], u, hu.symm⟩
        · -- the needle would overlap with itself
          rw [List.cons_append, List.cons.injEq] at hu
          cases u with
          | nil => exact hnot ⟨[], [], by rw [hu.1, hu.2]; simp⟩
          | cons d u =>
            rw [List.cons_append, List.cons_append, List.cons.injEq] at hrest
            apply hc
            rw [hu.2, hrest.1]
            exact List.mem_append_right l List.mem_cons_self
      have hlater : ¬ (c :: rest) <:+: l := fun h => hnot (h.trans (List.suffix_cons b l).isInfix)
      rw [List.cons_append, strstr, if_neg hfront, ih hlater]
      rfl

end Search

/-- `strtok` with one delimiter: the next token and what is left behind it. -/
def strtok (delim : UInt8) (s : Str) : Option (Str × Str) :=
  match s.dropWhile (· = delim) with
  | [] => none
  | b :: s => some ((b :: s).takeWhile (· ≠ delim), ((b :: s).dropWhile (· ≠ delim)).drop 1)

section
variable {c : UInt8} {s : Str}

theorem strtok_eq_none_iff : strtok c s = none ↔ ∀ b ∈ s, b = c := by
  have hdrop : s.dropWhile (· = c) = [] ↔ ∀ b ∈ s, b = c := by
    rw [List.dropWhile_eq_nil_iff]
    simp
  rw [← hdrop, strtok]
  cases s.dropWhile (· = c) with
  | nil => exact iff_of_true rfl rfl
  | cons b rest => exact iff_of_false (by simp) (List.cons_ne_nil _ _)

theorem strtok_delim (c : UInt8) (s : Str) : strtok c (c :: s) = strtok c s := by
  have hdrop : (c :: s).dropWhile (· = c) = s.dropWhile (· = c) :=
    List.dropWhile_cons_of_pos (by simp)
  rw [strtok, strtok, hdrop]

end

theorem strtok_infix {c : UInt8} {s t rest : Str} (h : strtok c s = some (t, rest)) :
    t ≠ [] ∧ c ∉ t ∧ ∃ a, (a ++ t = s ∧ rest = []) ∨ a ++ t ++ c :: rest = s := by
  unfold strtok at h
  cases hd : s.dropWhile (· = c) with
  | nil => simp [hd] at h
  | cons b u =>
    simp only [hd, Option.some.injEq, Prod.mk.injEq] at h
    obtain ⟨rfl, rfl⟩ := h
    have hb : b ≠ c := by
      have := List.head_dropWhile_not (p := (· = c)) (l := s) (by simp [hd])
      simpa [hd] using this
    have hs : s.takeWhile (· = c) ++ (b :: u) = s := by
      rw [← hd]
      exact List.takeWhile_append_dropWhile
    refine ⟨by simp [hb], ?_, s.takeWhile (· = c), ?_⟩
    · intro hm
      simpa using List.mem_takeWhile_imp hm
    · cases hr : (b :: u).dropWhile (· ≠ c) with
      | nil =>
        left
        have := List.takeWhile_append_dropWhile (p := (· ≠ c)) (l := b :: u)
        rw [hr, List.append_nil] at this
        exact ⟨by rw [this]; exact hs, rfl⟩
      | cons d w =>
        right
        have hdc : d = c := by
          have := List.head_dropWhile_not (p := (· ≠ c)) (l := b :: u) (by rw [hr]; simp)
          simp only [hr, List.head_cons] at this
          simpa using this
        have := List.takeWhile_append_dropWhile (p := (· ≠ c)) (l := b :: u)
        rw [hr, hdc] at this
        rw [List.append_assoc, List.drop_one, List.tail_cons, this]
        exact hs

theorem strtok_append {c : UInt8} {t : Str} (rest : Str) (hne : t ≠ []) (hc : c ∉ t) :
    strtok c (t ++ c :: rest) = some (t, rest) := by
  cases t with
  | nil => exact absurd rfl hne
  | cons b u =>
    have hb : b ≠ c := fun h => hc (h ▸ List.mem_cons_self)
    have hall : ∀ x ∈ b :: u, decide (x ≠ c) = true :=
      fun x hx => decide_eq_true (fun h => hc (h ▸ hx))
    have hstop : ∀ x, (c :: rest).head? = some x → decide (x ≠ c) = false := by simp
    have htake : (b :: u ++ c :: rest).takeWhile (· ≠ c) = b :: u :=
      takeWhile_append_stop hall hstop
    have hdrop : (b :: u ++ c :: rest).dropWhile (· ≠ c) = c :: rest :=
      dropWhile_append_stop hall hstop
    unfold strtok
    rw [List.cons_append, List.dropWhile_cons_of_neg (by simpa using hb)]
    simp only [← List.cons_append, htake, hdrop]
    rfl

theorem strtok_self {c : UInt8} {t : Str} (hne : t ≠ []) (hc : c ∉ t) :
    strtok c t = some (t, []) := by
  cases t with
  | nil => exact absurd rfl hne
  | cons b u =>
    have hb : b ≠ c := fun h => hc (h ▸ List.mem_cons_self)
    have hall : ∀ x ∈ b :: u, decide (x ≠ c) = true :=
      fun x hx => decide_eq_true (fun h => hc (h ▸ hx))
    unfold strtok
    rw [List.dropWhile_cons_of_neg (by simpa using hb)]
    simp only [List.takeWhile_eq_self_iff.mpr hall, List.dropWhile_eq_nil_iff.mpr hall]
    rfl

/-- `!strncmp(a, b, n)`, the terminators included. -/
def sameUpto (n : ℕ) (a b : Str) : Bool := (a ++ [0]).take n = (b ++ [0]).take n

theorem prefix_of_sameUpto {n : ℕ} {a b : Str} (h : sameUpto n a b = true) (hn : b.length ≤ n)
    (hb : 0 ∉ b) : b <+: a := by
  have hcut : b = (a ++ [0]).take b.length := by
    have htake := congrArg (List.take b.length) (of_decide_eq_true h)
    rw [List.take_take, List.take_take, Nat.min_eq_left hn, List.take_left] at htake
    exact htake.symm
  by_cases hlen : b.length ≤ a.length
  · rw [List.take_append_of_le_length hlen] at hcut
    rw [hcut]
    exact List.take_prefix _ _
  · rw [List.take_of_length_le (by simp; omega)] at hcut
    exact absurd (hcut ▸ List.mem_append_right a (List.mem_singleton_self 0)) hb

def cString (s : Str) : Str := s.takeWhile (· ≠ 0)

theorem cString_append {s t : Str} (hs : (0 : UInt8) ∉ s) (ht : ∀ b, t.head? = some b → b = 0) :
    cString (s ++ t) = s := by
  refine takeWhile_append_stop (fun b hb => ?_) (fun b hb => ?_)
  · exact decide_eq_true fun h => hs (h ▸ hb)
  · exact decide_eq_false (not_not_intro (ht b hb))

theorem cString_self {s : Str} (hs : (0 : UInt8) ∉ s) : cString s = s := by
  have h := cString_append (t := []) hs nofun
  rwa [List.append_nil] at h

section Tokens

/-- The non-empty pieces between delimiters, which `strtok` takes off one by one. -/
def tokens (delim : UInt8) (s : Str) : List Str := (s.splitOn delim).filter (fun t => t ≠ [])

variable {c : UInt8} {s t : Str}

theorem tokens_nil (c : UInt8) : tokens c [] = [] := rfl

theorem tokens_delim (c : UInt8) (s : Str) : tokens c (c :: s) = tokens c s := by
  have hsplit : (c :: s).splitOn c = [] :: s.splitOn c :=
    List.splitOn_append_cons_self_of_not_mem List.not_mem_nil s
  rw [tokens, hsplit]
  rfl

theorem tokens_append (rest : Str) (hne : t ≠ []) (hc : c ∉ t) :
    tokens c (t ++ c :: rest) = t :: tokens c rest := by
  rw [tokens, List.splitOn_append_cons_self_of_not_mem hc]
  exact List.filter_cons_of_pos (decide_eq_true hne)

theorem tokens_self (hne : t ≠ []) (hc : c ∉ t) : tokens c t = [t] := by
  rw [tokens, List.splitOn_eq_singleton hc]
  exact List.filter_cons_of_pos (decide_eq_true hne)

theorem strtok_tokens (c : UInt8) (s : Str) :
    (strtok c s = none ∧ tokens c s = []) ∨
      ∃ t rest, strtok c s = some (t, rest) ∧ tokens c s = t :: tokens c rest ∧ c ∉ t := by
  induction s with
  | nil => exact Or.inl ⟨rfl, tokens_nil c⟩
  | cons b s ih =>
    by_cases hb : b = c
    · rw [hb, strtok_delim, tokens_delim]
      exact ih
    · right
      by_cases hc : c ∈ b :: s
      · obtain ⟨t, rest, hsplit, hfree⟩ := List.eq_append_cons_of_mem hc
        have hne : t ≠ [] := by
          rintro rfl
          exact hb (List.cons.inj hsplit).1
        rw [hsplit]
        exact ⟨t, rest, strtok_append rest hne hfree, tokens_append rest hne hfree, hfree⟩
      · have hne : b :: s ≠ [] := List.cons_ne_nil b s
        refine ⟨b :: s, [], strtok_self hne hc, ?_, hc⟩
        rw [tokens_self hne hc, tokens_nil]

end Tokens

section Blanks

def trim (line : Str) : Str := (line.dropWhile isspace).rdropWhile isspace

theorem isspace_zero : isspace 0 = false := rfl

theorem trim_length_le (line : Str) : (trim line).length ≤ line.length :=
  ((List.rdropWhile_prefix _ _).length_le).trans (List.dropWhile_suffix _).length_le

theorem exists_trim (line : Str) :
    ∃ p q, line = p ++ trim line ++ q ∧ (∀ b ∈ p, isspace b = true) ∧
      (∀ b ∈ q, isspace b = true) ∧ (trim line = [] → q = []) ∧
      (∀ b, (trim line).head? = some b → isspace b = false) ∧
      (∀ b, (trim line).getLast? = some b → isspace b = false) := by
  by_cases ht : trim line = []
  · have hall : ∀ b ∈ line, isspace b = true := by
      have hdrop := List.rdropWhile_eq_nil_iff.mp ht
      intro b hb
      rw [← List.takeWhile_append_dropWhile (p := isspace) (l := line), List.mem_append] at hb
      exact hb.elim List.mem_takeWhile_imp (hdrop b)
    refine ⟨line, [], by simp [ht], hall, by simp, fun _ => rfl, by simp [ht], by simp [ht]⟩
  · refine ⟨line.takeWhile isspace, (line.dropWhile isspace).rtakeWhile isspace, ?_,
      fun b => List.mem_takeWhile_imp, fun b => List.mem_rtakeWhile_imp, fun h => absurd h ht,
      ?_, ?_⟩
    · rw [trim, List.append_assoc, List.rdropWhile_append_rtakeWhile,
        List.takeWhile_append_dropWhile]
    · intro b hb
      have hpre : trim line <+: line.dropWhile isspace := List.rdropWhile_prefix _ _
      obtain ⟨q, hq⟩ := hpre
      have hhead : (line.dropWhile isspace).head? = some b := by
        rw [← hq, List.head?_append, hb]
        rfl
      have hnot := List.head?_dropWhile_not isspace line
      rw [hhead] at hnot
      exact hnot
    · intro b hb
      rw [List.getLast?_eq_some_getLast ht, Option.some.injEq] at hb
      rw [← hb]
      exact Bool.eq_false_iff.mpr (List.rdropWhile_last_not _ _ ht)

end Blanks

end Comodoo.CString
