import Comodoo.CString
import Mathlib.Data.List.Nodup
import Mathlib.Data.List.Perm.Basic
import Mathlib.Logic.Function.Basic

set_option autoImplicit false

/-!
# Files of settings

`SimpleConfigFile` of `rhpl/simpleconfig.py`: a dictionary that is written as lines of the form
`KEY="value"` and read back.
-/
namespace Comodoo.SimpleConfigFile
open CString

abbrev equals : UInt8 := 0x3d
abbrev newline : UInt8 := 0x0a
abbrev quote : UInt8 := 0x22
abbrev apostrophe : UInt8 := 0x27

/-- Only strings are written. -/
inductive Value where
  | str (s : Str)
  | other
  deriving DecidableEq, Repr

def upper (b : UInt8) : UInt8 := if 0x61 ≤ b ∧ b ≤ 0x7a then b - 32 else b

def uppercaseASCIIString (s : Str) : Str := s.map upper

/-- The dictionary `info`. Every method puts a key into upper case before it is used. -/
structure Config where
  info : Str → Option Value
  keys : List Str
  nodup : keys.Nodup
  mem_keys : ∀ k, k ∈ keys ↔ info k ≠ none
  upper : ∀ k ∈ keys, uppercaseASCIIString k = k

theorem upper_of_lower {b : UInt8} (h : 0x61 ≤ b ∧ b ≤ 0x7a) : (upper b).toNat = b.toNat - 32 := by
  have hlow : 0x61 ≤ b.toNat := UInt8.le_iff_toNat_le.mp h.1
  have hb : (32 : UInt8) ≤ b := UInt8.le_iff_toNat_le.mpr (Nat.le_trans (by decide) hlow)
  unfold upper
  rw [if_pos h, UInt8.toNat_sub_of_le _ _ hb]
  rfl

theorem upper_upper (b : UInt8) : upper (upper b) = upper b := by
  by_cases h : 0x61 ≤ b ∧ b ≤ 0x7a
  · have hlow : 0x61 ≤ b.toNat := UInt8.le_iff_toNat_le.mp h.1
    have hhigh : b.toNat ≤ 0x7a := UInt8.le_iff_toNat_le.mp h.2
    have hupper := upper_of_lower h
    apply if_neg
    rintro ⟨hstill, -⟩
    have hstill' : 0x61 ≤ (upper b).toNat := UInt8.le_iff_toNat_le.mp hstill
    omega
  · have hsame : upper b = b := if_neg h
    rw [hsame, hsame]

theorem uppercase_uppercase (s : Str) :
    uppercaseASCIIString (uppercaseASCIIString s) = uppercaseASCIIString s := by
  unfold uppercaseASCIIString
  rw [List.map_map]
  exact List.map_congr_left (fun b _ => upper_upper b)

/-! ## The class -/

namespace Config

def empty : Config := ⟨fun _ => none, [], List.nodup_nil, by simp, by simp⟩

/-- `self.info[key] = data` -/
def put (c : Config) (key : Str) (data : Value) (hkey : uppercaseASCIIString key = key) : Config where
  info := Function.update c.info key (some data)
  keys := if c.keys.contains key then c.keys else c.keys ++ [key]
  nodup := by
    split
    · exact c.nodup
    · rename_i h
      apply List.nodup_append.mpr ⟨c.nodup, List.nodup_singleton key, _⟩
      intro k hk l hl
      rw [List.mem_singleton.mp hl]
      exact fun heq => h (List.contains_iff_mem.mpr (heq ▸ hk))
  mem_keys := by
    intro k
    by_cases hk : k = key
    · subst hk
      simp only [Function.update_self, ne_eq, reduceCtorEq, not_false_eq_true, iff_true]
      split
      · rename_i h
        exact List.contains_iff_mem.mp h
      · exact List.mem_append_right _ List.mem_cons_self
    · rw [Function.update_of_ne hk, ← c.mem_keys]
      split
      · rfl
      · simp [hk]
  upper := by
    intro k hk
    split at hk
    · exact c.upper k hk
    · cases List.mem_append.mp hk with
      | inl hk => exact c.upper k hk
      | inr hk => exact List.mem_singleton.mp hk ▸ hkey

def set (c : Config) (key : Str) (data : Value) : Config :=
  c.put (uppercaseASCIIString key) data (uppercase_uppercase key)

def unset (c : Config) (key : Str) : Config where
  info := Function.update c.info (uppercaseASCIIString key) none
  keys := c.keys.filter (fun k => k ≠ uppercaseASCIIString key)
  nodup := c.nodup.filter _
  mem_keys := by
    intro k
    by_cases hk : k = uppercaseASCIIString key
    · subst hk
      simp
    · rw [Function.update_of_ne hk, ← c.mem_keys]
      simp [hk]
  upper := fun k hk => c.upper k (List.mem_filter.mp hk).1

def get (c : Config) (key : Str) : Value := (c.info (uppercaseASCIIString key)).getD (.str [])

def line (key : Str) (data : Value) : Str :=
  match data with
  | .str s => key ++ equals :: quote :: s ++ [quote, newline]
  | .other => []

def str (c : Config) : Str :=
  (c.keys.mergeSort (fun k l => k ≤ l)).flatMap (fun k => (c.info k).elim [] (line k))

end Config

def readlines : Str → List Str
  | [] => []
  | b :: s =>
    if b = newline then [b] :: readlines s
    else
      match readlines s with
      | [] => [[b]]
      | l :: ls => (b :: l) :: ls

/-- `split('=', 2)` -/
def split (s : Str) : List Str :=
  match strchr equals s with
  | none => [s]
  | some (key, rest) =>
    match strchr equals rest with
    | none => [key, rest]
    | some (value, rest) => [key, value, rest]

def unquote (value : Str) : Str := (value.filter (fun b => b ≠ quote)).filter (fun b => b ≠ apostrophe)

namespace Config

/-- The last byte of a line is cut off, whatever it is. -/
def readLine (c : Config) (line : Str) : Config :=
  match split line.dropLast with
  | key :: value :: _ => c.set key (.str (unquote value))
  | _ => c

def read (c : Config) (file : Str) : Config := (readlines file).foldl readLine c

end Config

/-! ## Lines -/

section Lines
variable {l s : Str}

theorem readlines_line (h : newline ∉ l) (rest : Str) :
    readlines (l ++ newline :: rest) = (l ++ [newline]) :: readlines rest := by
  induction l with
  | nil => exact if_pos rfl
  | cons b l ih =>
    have hb : b ≠ newline := fun heq => h (heq ▸ List.mem_cons_self)
    have hl : newline ∉ l := fun hin => h (List.mem_cons_of_mem b hin)
    rw [List.cons_append, readlines, if_neg hb, ih hl]
    rfl

theorem mem_readlines (h : l ∈ readlines s) : newline ∉ l.dropLast := by
  induction s generalizing l with
  | nil => cases h
  | cons b s ih =>
    rw [readlines] at h
    by_cases hb : b = newline
    · rw [if_pos hb] at h
      cases List.mem_cons.mp h with
      | inl heq =>
        rw [heq]
        exact List.not_mem_nil
      | inr hin => exact ih hin
    · rw [if_neg hb] at h
      cases hs : readlines s with
      | nil =>
        rw [hs] at h
        rw [List.mem_singleton.mp h]
        exact List.not_mem_nil
      | cons l' ls =>
        rw [hs] at h
        cases List.mem_cons.mp h with
        | inl heq =>
          have hl' := @ih l' (hs ▸ List.mem_cons_self)
          subst heq
          cases l' with
          | nil => exact List.not_mem_nil
          | cons b' l' =>
            rw [List.dropLast_cons_of_ne_nil (List.cons_ne_nil _ _)]
            intro hin
            cases List.mem_cons.mp hin with
            | inl heq => exact hb heq.symm
            | inr hin => exact hl' hin
        | inr hin => exact @ih l (hs ▸ List.mem_cons_of_mem l' hin)

end Lines

/-! ## Writing and reading -/

/-- Nothing in keys and values is taken for a part of the format. -/
def Clean (c : Config) : Prop :=
  ∀ k v, c.info k = some v → equals ∉ k ∧ newline ∉ k ∧
    ∃ s, v = .str s ∧ ∀ b ∈ s, b ≠ equals ∧ b ≠ newline ∧ b ≠ quote ∧ b ≠ apostrophe

section Reading
variable {c : Config} {key s line : Str} {b : UInt8}

theorem mem_of_mem_uppercase (hb : b.toNat < 0x41) (h : b ∈ uppercaseASCIIString s) : b ∈ s := by
  obtain ⟨a, ha, hab⟩ := List.mem_map.mp h
  by_cases hlower : 0x61 ≤ a ∧ a ≤ 0x7a
  · have hlow : 0x61 ≤ a.toNat := UInt8.le_iff_toNat_le.mp hlower.1
    have hupper := upper_of_lower hlower
    rw [hab] at hupper
    omega
  · have hsame : upper a = a := if_neg hlower
    rw [← hab, hsame]
    exact ha

theorem mem_unquote : b ∈ unquote s ↔ b ∈ s ∧ b ≠ quote ∧ b ≠ apostrophe := by
  unfold unquote
  rw [List.mem_filter, List.mem_filter, decide_eq_true_eq, decide_eq_true_eq, and_assoc]

theorem split_cases (s : Str) : equals ∉ s ∧ split s = [s] ∨
    ∃ key value rest, s = key ++ equals :: (value ++ rest) ∧ equals ∉ key ∧ equals ∉ value ∧
      (rest = [] ∨ rest.head? = some equals) ∧ ∃ more, split s = key :: value :: more := by
  cases hs : strchr equals s with
  | none =>
    left
    unfold split
    rw [hs]
    exact ⟨(strchr_eq_none_iff _ _).mp hs, rfl⟩
  | some r =>
    right
    obtain ⟨key, behind⟩ := r
    obtain ⟨hsplit, hkey⟩ := (strchr_eq_some_iff _ _ _ _).mp hs
    cases hr : strchr equals behind with
    | none =>
      refine ⟨key, behind, [], by rw [List.append_nil]; exact hsplit, hkey,
        (strchr_eq_none_iff _ _).mp hr, Or.inl rfl, [], ?_⟩
      unfold split
      rw [hs]
      simp only [hr]
    | some r =>
      obtain ⟨value, rest⟩ := r
      obtain ⟨hvalue, hnone⟩ := (strchr_eq_some_iff _ _ _ _).mp hr
      refine ⟨key, value, equals :: rest, by rw [← hvalue]; exact hsplit, hkey, hnone,
        Or.inr rfl, [rest], ?_⟩
      unfold split
      rw [hs]
      simp only [hr]

theorem info_set (key : Str) (data : Value) : (c.set key data).info =
    Function.update c.info (uppercaseASCIIString key) (some data) :=
  rfl

theorem get_set (key key' : Str) (data : Value) : (c.set key data).get key' =
    if uppercaseASCIIString key' = uppercaseASCIIString key then data else c.get key' := by
  unfold Config.get
  rw [info_set, Function.update_apply]
  split <;> rfl

theorem get_unset (key key' : Str) : (c.unset key).get key' =
    if uppercaseASCIIString key' = uppercaseASCIIString key then .str [] else c.get key' := by
  unfold Config.get
  change (Function.update c.info (uppercaseASCIIString key) none _).getD _ = _
  rw [Function.update_apply]
  split <;> rfl

theorem readLine_clean (hline : newline ∉ line.dropLast) (hc : Clean c) :
    Clean (c.readLine line) := by
  unfold Config.readLine
  cases split_cases line.dropLast with
  | inl h =>
    rw [h.2]
    exact hc
  | inr h =>
    obtain ⟨key, value, rest, hparts, hkey, hvalue, -, more, hsplit⟩ := h
    rw [hsplit]
    rw [hparts] at hline
    have hkeyLine : newline ∉ key := fun hin => hline (List.mem_append_left _ hin)
    have hvalueLine : newline ∉ value := fun hin => hline
      (List.mem_append_right _ (List.mem_cons_of_mem _ (List.mem_append_left _ hin)))
    intro k v hv
    rw [info_set] at hv
    by_cases hk : k = uppercaseASCIIString key
    · subst hk
      rw [Function.update_self] at hv
      cases hv
      refine ⟨fun hin => hkey (mem_of_mem_uppercase (by decide) hin),
        fun hin => hkeyLine (mem_of_mem_uppercase (by decide) hin), unquote value, rfl, ?_⟩
      intro b hb
      obtain ⟨hin, hquote, hapostrophe⟩ := mem_unquote.mp hb
      exact ⟨fun heq => hvalue (heq ▸ hin), fun heq => hvalueLine (heq ▸ hin), hquote, hapostrophe⟩
    · rw [Function.update_of_ne hk] at hv
      exact hc k v hv

theorem read_clean (file : Str) (hc : Clean c) : Clean (c.read file) := by
  unfold Config.read
  have hlines : ∀ l ∈ readlines file, newline ∉ l.dropLast := fun l hl => mem_readlines hl
  generalize readlines file = ls at hlines
  induction ls generalizing c with
  | nil => exact hc
  | cons l ls ih =>
    apply ih (readLine_clean (hlines l List.mem_cons_self) hc)
    exact fun l' hl' => hlines l' (List.mem_cons_of_mem l hl')

theorem readLine_line (hkey : equals ∉ key) (hs : ∀ b ∈ s, b ≠ equals ∧ b ≠ quote ∧ b ≠ apostrophe) :
    c.readLine (key ++ equals :: quote :: s ++ [quote, newline]) = c.set key (.str s) := by
  have hcut : (key ++ equals :: quote :: s ++ [quote, newline]).dropLast =
      key ++ equals :: (quote :: s ++ [quote]) := by
    rw [show key ++ equals :: quote :: s ++ [quote, newline] =
      (key ++ equals :: (quote :: s ++ [quote])) ++ [newline] by simp]
    exact List.dropLast_concat
  have hfirst : strchr equals (key ++ equals :: (quote :: s ++ [quote])) =
      some (key, quote :: s ++ [quote]) :=
    (strchr_eq_some_iff _ _ _ _).mpr ⟨rfl, hkey⟩
  have hsecond : strchr equals (quote :: s ++ [quote]) = none := by
    apply (strchr_eq_none_iff _ _).mpr
    intro hin
    simp only [List.cons_append, List.mem_cons, List.mem_append, List.not_mem_nil, or_false] at hin
    rcases hin with hin | hin | hin
    · exact absurd hin (by decide)
    · exact (hs _ hin).1 rfl
    · exact absurd hin (by decide)
  have hunquote : unquote (quote :: s ++ [quote]) = s := by
    unfold unquote
    rw [List.cons_append, List.filter_cons_of_neg (by simp), List.filter_append,
      List.filter_cons_of_neg (by simp), List.filter_nil, List.append_nil]
    have hquote : s.filter (fun b => b ≠ quote) = s :=
      List.filter_eq_self.mpr (fun b hb => decide_eq_true (hs b hb).2.1)
    rw [hquote]
    exact List.filter_eq_self.mpr (fun b hb => decide_eq_true (hs b hb).2.2)
  unfold Config.readLine split
  rw [hcut, hfirst]
  simp only [hsecond]
  rw [hunquote]

theorem read_lines (hc : Clean c) (ks : List Str) (hks : ∀ k ∈ ks, k ∈ c.keys) (acc : Config)
    (x : Str) :
    (acc.read (ks.flatMap (fun k => (c.info k).elim [] (Config.line k)))).info x =
      if x ∈ ks then c.info x else acc.info x := by
  induction ks generalizing acc with
  | nil => rfl
  | cons k ks ih =>
    have hk := hks k List.mem_cons_self
    obtain ⟨v, hv⟩ := Option.ne_none_iff_exists'.mp ((c.mem_keys k).mp hk)
    obtain ⟨hequals, hnewline, s, rfl, hs⟩ := hc k v hv
    have hline : newline ∉ k ++ equals :: quote :: s ++ [quote] := by
      intro hin
      simp only [List.append_assoc, List.cons_append, List.mem_append, List.mem_cons,
        List.not_mem_nil, or_false] at hin
      rcases hin with hin | hin | hin | hin | hin
      · exact hnewline hin
      · exact absurd hin (by decide)
      · exact absurd hin (by decide)
      · exact (hs _ hin).2.1 rfl
      · exact absurd hin (by decide)
    have htext : ((k :: ks).flatMap (fun k => (c.info k).elim [] (Config.line k))) =
        (k ++ equals :: quote :: s ++ [quote]) ++
          newline :: ks.flatMap (fun k => (c.info k).elim [] (Config.line k)) := by
      rw [List.flatMap_cons, hv]
      simp [Config.line]
    have hread := @readLine_line acc k s hequals
      (fun b hb => ⟨(hs b hb).1, (hs b hb).2.2.1, (hs b hb).2.2.2⟩)
    unfold Config.read at ih ⊢
    rw [htext, readlines_line hline, List.foldl_cons, List.append_assoc, List.singleton_append]
    have hassoc : k ++ equals :: quote :: s ++ (quote :: [newline]) =
        k ++ equals :: quote :: s ++ [quote, newline] := rfl
    rw [hassoc, hread, ih (fun l hl => hks l (List.mem_cons_of_mem k hl)), info_set, c.upper k hk]
    by_cases hx : x = k
    · subst hx
      rw [Function.update_self, if_pos List.mem_cons_self, hv]
      split <;> rfl
    · rw [Function.update_of_ne hx]
      by_cases hin : x ∈ ks
      · rw [if_pos hin, if_pos (List.mem_cons_of_mem k hin)]
      · rw [if_neg hin, if_neg (fun h => (List.mem_cons.mp h).elim hx hin)]

end Reading

/-- What is written is read back exactly when no key has an equals sign or a line end, and every
    value is a string without these and without quotes. -/
theorem read_str_iff (c : Config) : (Config.empty.read c.str).info = c.info ↔ Clean c := by
  constructor
  · intro h k v hv
    have hempty : Clean Config.empty := fun k v hv => nomatch hv
    rw [← h] at hv
    exact read_clean c.str hempty k v hv
  · intro hc
    have hperm := List.mergeSort_perm c.keys (fun k l => decide (k ≤ l))
    funext x
    unfold Config.str
    rw [read_lines hc _ (fun k hk => hperm.mem_iff.mp hk)]
    by_cases hx : x ∈ c.keys
    · rw [if_pos (hperm.mem_iff.mpr hx)]
    · rw [if_neg (fun h => hx (hperm.mem_iff.mp h))]
      have hnone : c.info x = none := by
        by_contra h
        exact hx ((c.mem_keys x).mpr h)
      rw [hnone]
      rfl

/-- What has been read from any file is written and read back without a loss. -/
theorem read_str_read (file : Str) :
    (Config.empty.read (Config.empty.read file).str).info = (Config.empty.read file).info := by
  apply (read_str_iff _).mpr
  exact read_clean file (fun k v hv => nomatch hv)

end Comodoo.SimpleConfigFile
