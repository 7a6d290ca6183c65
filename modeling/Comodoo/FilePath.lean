import Comodoo.CString

set_option autoImplicit false

/-!
# Relative paths

A path names a place below the working directory by the names between its slashes. Empty
names and "." count for nothing; a path with ".." or with a slash in front has no place here.
-/
namespace Comodoo.FilePath
open CString

abbrev sep : UInt8 := 0x2f
abbrev dot : Str := [0x2e]
abbrev dotDot : Str := [0x2e, 0x2e]

/-- Names from the working directory on. -/
abbrev Place := List Str

def names (path : Str) : Place := (path.splitOn sep).filter (fun seg => seg ≠ [] ∧ seg ≠ dot)

def locate (path : Str) : Option Place :=
  if path = [] ∨ path.head? = some sep ∨ dotDot ∈ names path then none else some (names path)

def base (path : Str) : Str :=
  match strrchr sep path with
  | some (_, last) => last
  | none => path

/-- The path does not end in a slash or in ".". -/
def endsInName (path : Str) : Bool := base path ≠ [] ∧ base path ≠ dot

/-- A path to a place below the working directory, or to that directory. -/
structure Proper (path : Str) : Prop where
  ne_nil : path ≠ []
  relative : path.head? ≠ some sep
  noDotDot : dotDot ∉ names path

instance (path : Str) : Decidable (Proper path) :=
  decidable_of_iff (path ≠ [] ∧ path.head? ≠ some sep ∧ dotDot ∉ names path)
    ⟨fun h => ⟨h.1, h.2.1, h.2.2⟩, fun h => ⟨h.ne_nil, h.relative, h.noDotDot⟩⟩

theorem names_append (l r : Str) : names (l ++ sep :: r) = names l ++ names r := by
  rw [names, List.splitOn_append_cons_self, List.filter_append]
  rfl

theorem names_segment {seg : Str} (h : sep ∉ seg) :
    names seg = if seg ≠ [] ∧ seg ≠ dot then [seg] else [] := by
  rw [names, List.splitOn_eq_singleton h]
  by_cases hseg : seg ≠ [] ∧ seg ≠ dot
  · rw [if_pos hseg, List.filter_cons_of_pos (by simpa using hseg)]
    rfl
  · rw [if_neg hseg, List.filter_cons_of_neg (by simpa using hseg)]
    rfl

theorem names_nil : names [] = [] := rfl

theorem Proper.locate {path : Str} (h : Proper path) : locate path = some (names path) := by
  rw [FilePath.locate, if_neg]
  rintro (hnil | hsep | hdots)
  · exact h.ne_nil hnil
  · exact h.relative hsep
  · exact h.noDotDot hdots

/-- The directory in front of the last slash is the place above the path, or the place itself
when no name follows. -/
theorem Proper.cases {path : Str} (h : Proper path) :
    (strrchr sep path = none ∧ (names path).dropLast = []) ∨
      ∃ dir last, path = dir ++ sep :: last ∧ strrchr sep path = some (dir, last) ∧ dir ≠ [] ∧
        (∃ more, names path = names dir ++ more) ∧
        (names dir = (names path).dropLast ∨ names dir = names path ∧ endsInName path = false) := by
  rcases strrchr_cases sep path with ⟨hnone, hsep⟩ | ⟨dir, last, hsome, rfl, hlast⟩
  · refine Or.inl ⟨hnone, ?_⟩
    rw [names_segment hsep]
    split <;> rfl
  · have hnames : names (dir ++ sep :: last) = names dir ++ names last := names_append dir last
    refine Or.inr ⟨dir, last, rfl, hsome, ?_, ⟨_, hnames⟩, ?_⟩
    · rintro rfl
      exact h.relative rfl
    · rw [hnames, names_segment hlast, endsInName, base, hsome]
      split
      · left
        rw [List.dropLast_concat]
      · rename_i hend
        exact Or.inr ⟨(List.append_nil _).symm, decide_eq_false hend⟩

/-- Each path leads to the place of the one before it or to a name in it. -/
inductive Walk : Place → List Str → Place → Prop
  | done (cs : Place) : Walk cs [] cs
  | stay {cs last : Place} {p : Str} {ps : List Str} (hp : locate p = some cs)
    (hrest : Walk cs ps last) : Walk cs (p :: ps) last
  | down {cs last : Place} {p name : Str} {ps : List Str} (hp : locate p = some (cs ++ [name]))
    (hrest : Walk (cs ++ [name]) ps last) : Walk cs (p :: ps) last

theorem Walk.le {cs last : Place} {ps : List Str} (h : Walk cs ps last) : cs <+: last := by
  induction h with
  | done cs => exact List.prefix_refl cs
  | stay _ _ ih => exact ih
  | down _ _ ih => exact (List.prefix_append _ _).trans ih

end Comodoo.FilePath
