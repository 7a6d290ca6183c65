import Comodoo.SimpleMot

set_option autoImplicit false

/-!
# `.po` files

Entries of a `msgid` and a `msgstr`, each a string on one line or on several, with comments and
blank lines between them.
-/
namespace Comodoo.PoFile
open CString LineBuffer SimpleMot

/-- A byte that stands for itself. -/
abbrev PlainByte : Type := {c : UInt8 // c ≠ 0 ∧ c ≠ newline ∧ c ≠ quote ∧ c ≠ backslash}

inductive Token where
  | plain (c : PlainByte)
  | newline
  | tab
  | quote
  | backslash
  deriving DecidableEq

def Token.raw : Token → Str
  | .plain c => [c.val]
  | .newline => [SimpleMot.backslash, 0x6e]
  | .tab => [SimpleMot.backslash, 0x74]
  | .quote => [SimpleMot.backslash, SimpleMot.quote]
  | .backslash => [SimpleMot.backslash, SimpleMot.backslash]

def Token.value : Token → UInt8
  | .plain c => c.val
  | .newline => LineBuffer.newline
  | .tab => SimpleMot.tab
  | .quote => SimpleMot.quote
  | .backslash => SimpleMot.backslash

def raw (ts : List Token) : Str := ts.flatMap Token.raw

def value (ts : List Token) : Str := ts.map Token.value

structure PoString where
  first : List Token
  more : List (List Token)

def PoString.tokens (s : PoString) : List Token := s.first ++ s.more.flatten

def quoted (keyword : Str) (ts : List Token) : Str := keyword ++ quote :: (raw ts ++ [quote])

def PoString.lines (keyword : Str) (s : PoString) : List Str :=
  quoted keyword s.first :: s.more.map (quoted [])

/-- A comment or a blank line, or any other line that is no part of an entry. -/
structure Filler where
  line : Str
  oneLine : newline ∉ line
  noId : startsWith "msgid" (line ++ [newline]) = false
  noStr : startsWith "msgstr" (line ++ [newline]) = false
  noString : startsWith "\"" (line ++ [newline]) = false

structure Entry where
  msgid : PoString
  msgstr : PoString
  fillers : List Filler

def Entry.lines (e : Entry) : List Str :=
  e.msgid.lines (ascii "msgid ") ++ e.msgstr.lines (ascii "msgstr ") ++
    e.fillers.map Filler.line

structure File where
  header : List Filler
  entries : List Entry

def File.lines (po : File) : List Str :=
  po.header.map Filler.line ++ po.entries.flatMap Entry.lines

def File.text (po : File) : Str := po.lines.flatMap fun line => line ++ [newline]

/-! ## Lines -/

theorem newline_notMem_raw (ts : List Token) : newline ∉ raw ts := by
  intro h
  obtain ⟨t, -, ht⟩ := List.mem_flatMap.mp h
  cases t with
  | plain c => exact c.2.2.1 (List.mem_singleton.mp ht).symm
  | newline | tab | quote | backslash => exact absurd ht (by decide)

theorem newline_notMem_quoted {keyword : Str} (h : newline ∉ keyword) (ts : List Token) :
    newline ∉ quoted keyword ts := by
  unfold quoted
  simp only [List.mem_append, List.mem_cons, List.not_mem_nil, or_false, not_or]
  exact ⟨h, by decide, newline_notMem_raw ts, by decide⟩

theorem newline_notMem_lines {keyword : Str} (h : newline ∉ keyword) (s : PoString) :
    ∀ line ∈ s.lines keyword, newline ∉ line := by
  intro line hline
  rcases List.mem_cons.mp hline with rfl | hline
  · exact newline_notMem_quoted h s.first
  · obtain ⟨ts, -, rfl⟩ := List.mem_map.mp hline
    exact newline_notMem_quoted List.not_mem_nil ts

theorem newline_notMem_file (po : File) : ∀ line ∈ po.lines, newline ∉ line := by
  have hfillers : ∀ fs : List Filler, ∀ line ∈ fs.map Filler.line, newline ∉ line := by
    intro fs line hline
    obtain ⟨f, -, rfl⟩ := List.mem_map.mp hline
    exact f.oneLine
  intro line hline
  rcases List.mem_append.mp hline with hline | hline
  · exact hfillers _ line hline
  · obtain ⟨e, -, hline⟩ := List.mem_flatMap.mp hline
    rcases List.mem_append.mp hline with hline | hline
    · rcases List.mem_append.mp hline with hline | hline
      · exact newline_notMem_lines (by decide) e.msgid line hline
      · exact newline_notMem_lines (by decide) e.msgstr line hline
    · exact hfillers _ line hline

theorem inputLines_text (po : File) :
    inputLines po.text = po.lines.map fun line => line ++ [newline] := by
  have hpieces : ∀ line ∈ po.lines,
      pieces 0 [] (line ++ [newline]) = [line ++ [newline]] := by
    intro line hline
    exact pieces_unbounded (newline_notMem_file po line hline)
  unfold inputLines File.text
  rw [pieces_flatMap (fun line => line) po.lines (newline_notMem_file po),
    List.flatMap_congr hpieces, List.map_eq_flatMap]

/-! ## Unescaping -/

def substituteAll (f : UInt8 → Option UInt8) : Str → Str
  | [] => []
  | [b] => [b]
  | b :: b' :: str =>
    match (if b = backslash then f b' else none) with
    | some d => d :: substituteAll f str
    | none => b :: substituteAll f (b' :: str)

section Substitute

variable {f g : UInt8 → Option UInt8} {b b' d : UInt8} {str : Str}

theorem substituteAll_plain (hb : b ≠ backslash) (str : Str) :
    substituteAll f (b :: str) = b :: substituteAll f str := by
  cases str with
  | nil => rfl
  | cons b' str => rw [substituteAll, if_neg hb]

theorem substituteAll_special (hd : f b' = some d) (str : Str) :
    substituteAll f (backslash :: b' :: str) = d :: substituteAll f str := by
  rw [substituteAll, if_pos rfl, hd]

theorem substituteAll_other (hb' : f b' = none) (str : Str) :
    substituteAll f (backslash :: b' :: str) = backslash :: substituteAll f (b' :: str) := by
  rw [substituteAll, if_pos rfl, hb']

theorem substituteAll_backslash (str : Str) :
    ∃ h t, substituteAll f (backslash :: str) = h :: t ∧
      (h = backslash ∨ ∃ c, f c = some h) := by
  cases str with
  | nil => exact ⟨_, _, rfl, Or.inl rfl⟩
  | cons b' str =>
    cases hb' : f b' with
    | none => exact ⟨_, _, substituteAll_other hb' str, Or.inl rfl⟩
    | some d => exact ⟨_, _, substituteAll_special hb' str, Or.inr ⟨b', hb'⟩⟩

theorem substituteAll_eq_nil : substituteAll f str = [] ↔ str = [] := by
  cases str with
  | nil => exact iff_of_true rfl rfl
  | cons b str =>
    by_cases hb : b = backslash
    · subst hb
      obtain ⟨h, t, heq, -⟩ := substituteAll_backslash (f := f) str
      rw [heq]
      exact iff_of_false nofun nofun
    · rw [substituteAll_plain hb]
      exact iff_of_false nofun nofun

theorem length_substituteAll_le (f : UInt8 → Option UInt8) (str : Str) :
    (substituteAll f str).length ≤ str.length := by
  fun_induction substituteAll f str with
  | case1 => exact le_rfl
  | case2 b => exact le_rfl
  | case3 b b' str d hd ih =>
    rw [List.length_cons, List.length_cons, List.length_cons]
    omega
  | case4 b b' str hnone ih =>
    rw [List.length_cons, List.length_cons]
    omega

theorem mem_substituteAll (hb : b ∈ substituteAll f str) : b ∈ str ∨ ∃ c, f c = some b := by
  fun_induction substituteAll f str with
  | case1 => exact Or.inl hb
  | case2 c => exact Or.inl hb
  | case3 c c' str d hd ih =>
    rcases List.mem_cons.mp hb with rfl | hb
    · split_ifs at hd
      exact Or.inr ⟨c', hd⟩
    · exact (ih hb).imp_left fun h => List.mem_cons_of_mem c (List.mem_cons_of_mem c' h)
  | case4 c c' str hnone ih =>
    rcases List.mem_cons.mp hb with rfl | hb
    · exact Or.inl List.mem_cons_self
    · exact (ih hb).imp_left fun h => List.mem_cons_of_mem c h

/-- A second pass meets no backslash that the first one has made, and misses none. -/
theorem substituteAll_substituteAll (hf : ∀ c d, f c = some d → d ≠ backslash ∧ g d = none)
    (hfb : f backslash = none) (hgb : g backslash = none) (str : Str) :
    substituteAll g (substituteAll f str) = substituteAll (fun b => (f b).or (g b)) str := by
  induction hn : str.length using Nat.strong_induction_on generalizing str with
  | _ n ih =>
    subst hn
    cases str with
    | nil => rfl
    | cons b str =>
      by_cases hb : b = backslash
      · subst hb
        cases str with
        | nil => rfl
        | cons b' str =>
          cases hfb' : f b' with
          | some d =>
            have hor : (f b').or (g b') = some d := by rw [hfb', Option.some_or]
            rw [substituteAll_special hfb', substituteAll_plain (hf b' d hfb').1,
              substituteAll_special hor, ih _ (by simp only [List.length_cons]; omega) str rfl]
          | none =>
            have hrest := ih _ (by simp only [List.length_cons]; omega) (b' :: str) rfl
            rw [substituteAll_other hfb']
            by_cases hb' : b' = backslash
            · -- the next byte stays a backslash or is one that has just been put in
              subst hb'
              obtain ⟨h, t, heq, hh⟩ := substituteAll_backslash (f := f) str
              have hgh : g h = none := by
                rcases hh with rfl | ⟨c, hc⟩
                · exact hgb
                · exact (hf c h hc).2
              have hor : (f backslash).or (g backslash) = none := by rw [hfb, hgb]; rfl
              rw [substituteAll_other hor, ← hrest, heq, substituteAll_other hgh]
            · rw [substituteAll_plain hb' str] at hrest ⊢
              cases hgb' : g b' with
              | some d =>
                have hor : (f b').or (g b') = some d := by rw [hfb', hgb']; rfl
                have hstr := ih _ (by simp only [List.length_cons]; omega) str rfl
                rw [substituteAll_special hgb', substituteAll_special hor, hstr]
              | none =>
                have hor : (f b').or (g b') = none := by rw [hfb', hgb']; rfl
                rw [substituteAll_other hgb', substituteAll_other hor, hrest]
      · rw [substituteAll_plain hb, substituteAll_plain hb, substituteAll_plain hb,
          ih _ (Nat.lt_succ_self _) str rfl]

theorem substitute_eq (c d : UInt8) (str : Str) :
    substitute c d str = substituteAll (fun b => if b = c then some d else none) str := by
  fun_induction substitute c d str with
  | case1 => rfl
  | case2 b => rfl
  | case3 b b' str h ih =>
    rw [h.1, substituteAll_special (if_pos h.2), ih]
  | case4 b b' str h ih =>
    by_cases hb : b = backslash
    · rw [hb, substituteAll_other (if_neg fun hb' => h ⟨hb, hb'⟩), ih]
    · rw [substituteAll_plain hb, ih]

end Substitute

/-- The three escapes that the script knows. -/
def special (b : UInt8) : Option UInt8 :=
  if b = 0x6e then some newline
  else if b = 0x74 then some tab
  else if b = quote then some quote
  else none

theorem unescape_eq (str : Str) : unescape str = substituteAll special str := by
  have hspecial : special = fun b => (if b = 0x6e then some newline else none).or
      ((if b = 0x74 then some tab else none).or (if b = quote then some quote else none)) := by
    funext b
    unfold special
    split_ifs <;> rfl
  have hquote : ∀ c d : UInt8, (if c = 0x6e then some newline else none) = some d →
      d ≠ backslash ∧ ((if d = 0x74 then some tab else none).or
        (if d = quote then some quote else none)) = none := by
    intro c d h
    split_ifs at h
    cases h
    decide
  have htab : ∀ c d : UInt8, (if c = 0x74 then some tab else none) = some d →
      d ≠ backslash ∧ (if d = quote then some quote else none) = none := by
    intro c d h
    split_ifs at h
    cases h
    decide
  unfold unescape
  rw [substitute_eq, substitute_eq, substitute_eq,
    substituteAll_substituteAll htab (by decide) (by decide),
    substituteAll_substituteAll hquote (by decide) (by decide), hspecial]

theorem unescape_eq_nil {str : Str} : unescape str = [] ↔ str = [] := by
  rw [unescape_eq, substituteAll_eq_nil]

theorem length_unescape_le (str : Str) : (unescape str).length ≤ str.length := by
  rw [unescape_eq]
  exact length_substituteAll_le special str

theorem raw_eq_nil {ts : List Token} : raw ts = [] ↔ ts = [] := by
  cases ts with
  | nil => exact iff_of_true rfl rfl
  | cons t ts => cases t <;> exact iff_of_false nofun nofun

theorem zero_notMem_raw (ts : List Token) : 0 ∉ raw ts := by
  intro h
  obtain ⟨t, -, ht⟩ := List.mem_flatMap.mp h
  cases t with
  | plain c => exact c.2.1 (List.mem_singleton.mp ht).symm
  | newline | tab | quote | backslash => exact absurd ht (by decide)

theorem zero_notMem_unescape (ts : List Token) : 0 ∉ unescape (raw ts) := by
  intro h
  rw [unescape_eq] at h
  rcases mem_substituteAll h with h | ⟨c, hc⟩
  · exact zero_notMem_raw ts h
  · unfold special at hc
    split_ifs at hc <;> cases hc

theorem zero_notMem_value (ts : List Token) : 0 ∉ value ts := by
  intro h
  obtain ⟨t, -, ht⟩ := List.mem_map.mp h
  cases t with
  | plain c => exact c.2.1 ht
  | newline | tab | quote | backslash => exact absurd ht (by decide)

theorem length_raw_le (ts : List Token) : (raw ts).length ≤ 2 * (value ts).length := by
  induction ts with
  | nil => exact le_rfl
  | cons t ts ih =>
    have ht : t.raw.length ≤ 2 := by
      cases t with
      | plain c => exact Nat.le_succ 1
      | newline | tab | quote | backslash => exact le_rfl
    unfold raw value at *
    rw [List.flatMap_cons, List.length_append, List.map_cons, List.length_cons]
    omega

theorem eq_of_replicate_append {k : ℕ} {b c : UInt8} {str str' : Str}
    (h : List.replicate k backslash ++ b :: str = c :: str') : c = backslash ∨ c = b := by
  cases k with
  | zero => exact Or.inr (List.cons.inj h).1.symm
  | succ k => exact Or.inl (List.cons.inj h).1.symm

/-- What follows a backslash that is meant is not what follows it in the value. -/
theorem substituteAll_backslash_ne (k : ℕ) (ts : List Token) :
    List.replicate k backslash ++ substituteAll special (backslash :: raw ts) ≠ value ts := by
  induction ts generalizing k with
  | nil =>
    intro h
    have hlen := congrArg List.length h
    rw [List.length_append] at hlen
    cases hlen
  | cons t ts ih =>
    intro h
    cases t with
    | plain c =>
      have hraw : raw (.plain c :: ts) = c.val :: raw ts := rfl
      have hvalue : value (.plain c :: ts) = c.val :: value ts := rfl
      rw [hraw, hvalue] at h
      cases hc : special c.val with
      | none =>
        rw [substituteAll_other hc] at h
        exact (eq_of_replicate_append h).elim c.2.2.2.2 c.2.2.2.2
      | some d =>
        rw [substituteAll_special hc] at h
        apply (eq_of_replicate_append h).elim c.2.2.2.2
        intro hd
        rw [← hd] at hc
        unfold special at hc
        split_ifs at hc with hn ht hq
        · exact c.2.2.1 (Option.some.inj hc).symm
        · rw [ht] at hc
          cases hc
        · exact c.2.2.2.1 hq
    | newline | tab | quote =>
      have hspecial : special backslash = none := rfl
      have hother := substituteAll_other hspecial
      have hne := eq_of_replicate_append ((congrArg _ (hother _).symm).trans h)
      exact absurd hne (by decide)
    | backslash =>
      have hraw : raw (.backslash :: ts) = backslash :: backslash :: raw ts := rfl
      have hvalue : value (.backslash :: ts) = backslash :: value ts := rfl
      have hmove : ∀ str : Str, List.replicate k backslash ++ backslash :: str =
          backslash :: (List.replicate k backslash ++ str) := by
        intro str
        rw [List.append_cons, ← List.replicate_succ']
        rfl
      rw [hraw, hvalue, substituteAll_other rfl, substituteAll_other rfl, hmove, hmove] at h
      exact ih (k + 1) (List.cons.inj h).2

/-- The script unescapes a string as meant unless there is a backslash in it. -/
theorem unescape_raw_iff (ts : List Token) :
    unescape (raw ts) = value ts ↔ Token.backslash ∉ ts := by
  rw [unescape_eq]
  induction ts with
  | nil => exact iff_of_true rfl List.not_mem_nil
  | cons t ts ih =>
    have hcons : ∀ u : Token, u ≠ .backslash →
        substituteAll special (raw (u :: ts)) = u.value :: substituteAll special (raw ts) →
        (substituteAll special (raw (u :: ts)) = value (u :: ts) ↔
          Token.backslash ∉ u :: ts) := by
      intro u hu heq
      have hvalue : value (u :: ts) = u.value :: value ts := rfl
      rw [heq, hvalue, List.cons_inj_right, ih, List.mem_cons, not_or]
      exact (and_iff_right hu.symm).symm
    cases t with
    | plain c => exact hcons (.plain c) nofun (substituteAll_plain c.2.2.2.2 _)
    | newline =>
      have hs : special 0x6e = some newline := rfl
      exact hcons .newline nofun (substituteAll_special hs _)
    | tab =>
      have hs : special 0x74 = some tab := rfl
      exact hcons .tab nofun (substituteAll_special hs _)
    | quote =>
      have hs : special quote = some quote := rfl
      exact hcons .quote nofun (substituteAll_special hs _)
    | backslash =>
      apply iff_of_false
      · intro h
        have hraw : raw (.backslash :: ts) = backslash :: backslash :: raw ts := rfl
        rw [hraw, substituteAll_other rfl] at h
        exact substituteAll_backslash_ne 0 ts (List.cons.inj h).2
      · exact fun h => h List.mem_cons_self

end Comodoo.PoFile
