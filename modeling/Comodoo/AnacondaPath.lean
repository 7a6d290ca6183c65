import Comodoo.LoaderArgs

set_option autoImplicit false

/-!
# The second-stage program

The search of `main` in `loader.c` for `anaconda` along `PATH`, and the program it runs.
-/
namespace Comodoo.AnacondaPath
open CString LoaderArgs LoaderSettings

abbrev NUL : UInt8 := 0x00

/-- The value of `PATH`. A variable of the environment holds no NUL. -/
structure PathValue where
  text : Str
  clean : NUL ∉ text

inductive Search where
  | found (tested : List Str) (binpath : Str)
  | missing (tested : List Str)
  | overrun (tested : List Str)
  deriving DecidableEq, Repr

def binpathOf (component : Str) : Str := component ++ ascii "/anaconda"

def strcspnColon (path : Str) : ℕ := (path.takeWhile (fun b => b ≠ colon ∧ b ≠ NUL)).length

/-- The loop. `path` is what stands at the pointer, the NUL at the end included; nothing of the
variable is left behind the NUL. -/
def search (executable : Str → Bool) (path : Str) (tested : List Str) : Search :=
  match path with
  | [] => .overrun tested
  | b :: rest =>
    if b = NUL then .missing tested
    else
      let n := strcspnColon (b :: rest)
      let binpath := binpathOf ((b :: rest).take n)
      if executable binpath then .found (tested ++ [binpath]) binpath
      else search executable ((b :: rest).drop (n + 1)) (tested ++ [binpath])
termination_by path.length
decreasing_by
  simp only [List.length_drop, List.length_cons]
  omega

def searchPath (executable : Str → Bool) (path : Option PathValue) : Search :=
  match path with
  | none => .missing []
  | some p => search executable (p.text ++ [NUL]) []

inductive Launch where
  | fault (tested : List Str)
  | execv (tested : List Str) (argv : List (Option Str))
  deriving DecidableEq, Repr

/-- From the search to the `execv`, which is made outside tests only. When nothing was found, the log
message reads the word in front of `anacondaArgs` as a string; `stray` says whether that can be
done. -/
def launch (executable : Str → Bool) (path : Option PathValue) (stray : Bool) (b : Build)
    (m : MainData) (extraArgs : List (Option Str)) : Launch :=
  match searchPath executable path with
  | .overrun tested => .fault tested
  | .missing tested =>
    if stray then .execv tested (anacondaArgs b { m with anaconda := none } extraArgs)
    else .fault tested
  | .found tested binpath =>
    .execv tested (anacondaArgs b { m with anaconda := some binpath } extraArgs)

def components (path : Option PathValue) : List Str :=
  match path with
  | none => []
  | some p => p.text.splitOn colon

def hit (executable : Str → Bool) (component : Str) : Bool := executable (binpathOf component)

def untilHit (executable : Str → Bool) : List Str → List Str
  | [] => []
  | c :: cs => binpathOf c :: if hit executable c then [] else untilHit executable cs

/-- The components are tested in order until the first hit, and what is executed is that hit, so
nothing where there is none. -/
structure LaunchRight (executable : Str → Bool) (path : Option PathValue) (stray : Bool)
    (b : Build) (m : MainData) (extraArgs : List (Option Str)) : Prop where
  inside : ∀ tested, launch executable path stray b m extraArgs ≠ .fault tested
  order : ∀ tested argv, launch executable path stray b m extraArgs = .execv tested argv →
    tested = untilHit executable (components path)
  program : ∀ tested argv, launch executable path stray b m extraArgs = .execv tested argv →
    argv.head? = ((components path).find? (hit executable)).map (fun c => some (binpathOf c))

/-- The program stands in a component; an empty one at the end does not count. -/
def Reached (executable : Str → Bool) (comps : List Str) : Prop :=
  ∃ c ∈ comps, hit executable c = true ∧ (c ≠ [] ∨ c ∈ comps.dropLast)

section Search
variable {executable : Str → Bool} {c rest : Str} {cs : List Str} {tested : List Str}

theorem strcspnColon_append {d : UInt8} (hcolon : colon ∉ c) (hclean : NUL ∉ c)
    (hd : d = colon ∨ d = NUL) : strcspnColon (c ++ d :: rest) = c.length := by
  have htake : (c ++ d :: rest).takeWhile (fun b => b ≠ colon ∧ b ≠ NUL) = c := by
    refine takeWhile_append_stop (fun b hb => ?_) (fun b hb => ?_)
    · exact decide_eq_true ⟨fun h => hcolon (h ▸ hb), fun h => hclean (h ▸ hb)⟩
    · obtain rfl := Option.some.inj hb
      exact decide_eq_false fun h => hd.elim h.1 h.2
  rw [strcspnColon, htake]

theorem search_round {d : UInt8} (hcolon : colon ∉ c) (hclean : NUL ∉ c)
    (hd : d = colon ∨ d = NUL) (hround : c ≠ [] ∨ d = colon) :
    search executable (c ++ d :: rest) tested =
      if hit executable c then .found (tested ++ [binpathOf c]) (binpathOf c)
      else search executable rest (tested ++ [binpathOf c]) := by
  have hn : strcspnColon (c ++ d :: rest) = c.length := strcspnColon_append hcolon hclean hd
  have htake : (c ++ d :: rest).take c.length = c := List.take_left
  have hdrop : (c ++ d :: rest).drop (c.length + 1) = rest := by
    rw [List.drop_length_add_append]
    rfl
  obtain ⟨b, path, hpath⟩ : ∃ b path, c ++ d :: rest = b :: path :=
    List.exists_cons_of_ne_nil (by simp)
  have hb : b ≠ NUL := by
    rcases c with _ | ⟨a, c⟩
    · obtain rfl : d = b := (List.cons.inj hpath).1
      rcases hround with hne | rfl
      · exact absurd rfl hne
      · decide
    · obtain rfl : a = b := (List.cons.inj hpath).1
      exact fun h => hclean (h ▸ List.mem_cons_self)
  rw [hpath] at hn htake hdrop ⊢
  rw [search]
  simp only [hb, ↓reduceIte, hn, htake, hdrop, hit]
  rfl

theorem search_end : search executable [NUL] tested = .missing tested := by
  unfold search
  rfl

theorem search_nil : search executable [] tested = .overrun tested := by
  unfold search
  rfl

theorem splitOn_cases (text : Str) :
    (colon ∉ text ∧ text.splitOn colon = [text]) ∨
      ∃ c rest, text = c ++ colon :: rest ∧ colon ∉ c ∧
        text.splitOn colon = c :: rest.splitOn colon := by
  by_cases hmem : colon ∈ text
  · obtain ⟨c, rest, htext, hc⟩ := List.eq_append_cons_of_mem hmem
    refine Or.inr ⟨c, rest, htext, hc, ?_⟩
    rw [htext, List.splitOn_append_cons_self_of_not_mem hc]
  · exact Or.inl ⟨hmem, List.splitOn_eq_singleton hmem⟩

theorem reached_singleton : Reached executable [c] ↔ hit executable c = true ∧ c ≠ [] := by
  simp [Reached]

theorem reached_cons (hcs : cs ≠ []) :
    Reached executable (c :: cs) ↔ hit executable c = true ∨ Reached executable cs := by
  unfold Reached
  rw [List.dropLast_cons_of_ne_nil hcs]
  constructor
  · rintro ⟨x, hx, hhit, hlast⟩
    rcases List.mem_cons.mp hx with rfl | hx
    · exact Or.inl hhit
    · by_cases hxc : hit executable c = true
      · exact Or.inl hxc
      · refine Or.inr ⟨x, hx, hhit, hlast.imp_right fun hmem => ?_⟩
        rcases List.mem_cons.mp hmem with rfl | hmem
        · exact absurd hhit hxc
        · exact hmem
  · rintro (hhit | ⟨x, hx, hhit, hlast⟩)
    · exact ⟨c, List.mem_cons_self, hhit, Or.inr List.mem_cons_self⟩
    · exact ⟨x, List.mem_cons_of_mem _ hx, hhit, hlast.imp_right (List.mem_cons_of_mem _)⟩

/-- The search finds the first hit, or it ends in front of an empty last component, or it leaves
the variable. -/
theorem search_spec (text : Str) (hclean : NUL ∉ text) (tested : List Str) :
    (Reached executable (text.splitOn colon) → ∃ c,
      (text.splitOn colon).find? (hit executable) = some c ∧
      search executable (text ++ [NUL]) tested =
        .found (tested ++ untilHit executable (text.splitOn colon)) (binpathOf c)) ∧
    (¬ Reached executable (text.splitOn colon) → ∃ t,
      search executable (text ++ [NUL]) tested = .missing t ∨
        search executable (text ++ [NUL]) tested = .overrun t) := by
  rcases splitOn_cases text with ⟨hcolon, hsplit⟩ | ⟨c, rest, htext, hcolon, hsplit⟩
  · rw [hsplit, reached_singleton]
    by_cases hempty : text = []
    · subst hempty
      exact ⟨fun h => absurd rfl h.2, fun _ => ⟨tested, Or.inl search_end⟩⟩
    · rw [search_round hcolon hclean (Or.inr rfl) (Or.inl hempty), search_nil]
      by_cases hhit : hit executable text = true
      · refine ⟨fun _ => ⟨text, List.find?_cons_of_pos hhit, ?_⟩, fun h => absurd ⟨hhit, hempty⟩ h⟩
        rw [if_pos hhit, untilHit, if_pos hhit]
      · refine ⟨fun h => absurd h.1 hhit, fun _ => ⟨tested ++ [binpathOf text], Or.inr ?_⟩⟩
        rw [if_neg hhit]
  · have hlen : rest.length < text.length := by
      rw [htext, List.length_append, List.length_cons]
      omega
    have hc : NUL ∉ c := fun h => hclean (htext ▸ List.mem_append_left _ h)
    have hrest : NUL ∉ rest := fun h =>
      hclean (htext ▸ List.mem_append_right _ (List.mem_cons_of_mem _ h))
    obtain ⟨ihfound, ihlost⟩ := search_spec rest hrest (tested ++ [binpathOf c])
    have hround : search executable (text ++ [NUL]) tested =
        if hit executable c then .found (tested ++ [binpathOf c]) (binpathOf c)
        else search executable (rest ++ [NUL]) (tested ++ [binpathOf c]) := by
      rw [htext, List.append_assoc, List.cons_append]
      exact search_round hcolon hc (Or.inl rfl) (Or.inr rfl)
    rw [hsplit, reached_cons (List.splitOn_ne_nil _ _), hround]
    by_cases hhit : hit executable c = true
    · refine ⟨fun _ => ⟨c, List.find?_cons_of_pos hhit, ?_⟩, fun h => absurd (Or.inl hhit) h⟩
      rw [if_pos hhit, untilHit, if_pos hhit]
    · rw [if_neg hhit, List.find?_cons_of_neg hhit, untilHit, if_neg hhit]
      refine ⟨fun h => ?_, fun h => ihlost fun hr => h (Or.inr hr)⟩
      obtain ⟨x, hfind, hsearch⟩ := ihfound (h.resolve_left hhit)
      refine ⟨x, hfind, ?_⟩
      rw [hsearch, List.append_assoc, List.singleton_append]
termination_by text.length

end Search

section Launch
variable (executable : Str → Bool) (path : Option PathValue) (stray : Bool) (b : Build)
  (m : MainData) (extraArgs : List (Option Str))

theorem launch_of_reached (hreached : Reached executable (components path)) : ∃ c,
    (components path).find? (hit executable) = some c ∧
      launch executable path stray b m extraArgs =
        .execv (untilHit executable (components path))
          (anacondaArgs b { m with anaconda := some (binpathOf c) } extraArgs) := by
  rcases path with _ | p
  · obtain ⟨c, hc, -⟩ := hreached
    cases hc
  · obtain ⟨c, hfind, hsearch⟩ := (search_spec p.text p.clean []).1 hreached
    refine ⟨c, hfind, ?_⟩
    simp only [launch, searchPath, hsearch, List.nil_append]
    rfl

theorem launch_of_not_reached (hreached : ¬ Reached executable (components path)) : ∃ tested,
    launch executable path stray b m extraArgs = .fault tested ∨
      launch executable path stray b m extraArgs =
        .execv tested (anacondaArgs b { m with anaconda := none } extraArgs) := by
  have hmissing : ∀ tested : List Str, ∃ t, (if stray then
      Launch.execv tested (anacondaArgs b { m with anaconda := none } extraArgs)
      else .fault tested) = .fault t ∨ (if stray then
      Launch.execv tested (anacondaArgs b { m with anaconda := none } extraArgs)
      else .fault tested) = .execv t (anacondaArgs b { m with anaconda := none } extraArgs) := by
    intro tested
    refine ⟨tested, ?_⟩
    cases stray
    · exact Or.inl rfl
    · exact Or.inr rfl
  rcases path with _ | p
  · exact hmissing []
  · obtain ⟨tested, hsearch | hsearch⟩ := (search_spec p.text p.clean []).2 hreached
    · simp only [launch, searchPath, hsearch]
      exact hmissing tested
    · simp only [launch, searchPath, hsearch]
      exact ⟨tested, Or.inl rfl⟩

theorem anacondaArgs_head? (m : MainData) :
    (anacondaArgs b m extraArgs).head? = some (m.anaconda.or (some (ascii "--stage2"))) := by
  cases m with
  | mk anaconda => cases anaconda <;> rfl

theorem stage2_ne (c : Str) : ascii "--stage2" ≠ binpathOf c := by
  intro h
  have hlast := congrArg List.getLast? h
  rw [binpathOf, List.getLast?_append_of_ne_nil _ (by decide)] at hlast
  revert hlast
  decide

theorem launch_right_iff :
    LaunchRight executable path stray b m extraArgs ↔
      Reached executable (components path) := by
  constructor
  · rintro ⟨hinside, horder, hprogram⟩
    by_contra hreached
    obtain ⟨tested, hfault | hexec⟩ := launch_of_not_reached executable path stray b m extraArgs
      hreached
    · exact hinside tested hfault
    · have hhead := hprogram tested _ hexec
      rw [anacondaArgs_head?] at hhead
      cases hfind : (components path).find? (hit executable) with
      | none =>
        rw [hfind] at hhead
        cases hhead
      | some c =>
        rw [hfind] at hhead
        exact stage2_ne c (Option.some.inj (Option.some.inj hhead))
  · intro hreached
    obtain ⟨c, hfind, hlaunch⟩ := launch_of_reached executable path stray b m extraArgs hreached
    constructor
    · intro tested hfault
      rw [hlaunch] at hfault
      cases hfault
    · intro tested argv hexec
      rw [hlaunch] at hexec
      exact (Launch.execv.inj hexec).1.symm
    · intro tested argv hexec
      rw [hlaunch] at hexec
      rw [← (Launch.execv.inj hexec).2, anacondaArgs_head?, hfind]
      rfl

/-- `PATH=/bin` without a program there. -/
theorem launch_not_right :
    ¬ LaunchRight (fun _ => false) (some ⟨ascii "/bin", by decide⟩) true ⟨false, 64⟩ rescueData [] := by
  rintro ⟨hinside, -, -⟩
  apply hinside [ascii "/bin/anaconda"]
  have hsearch : search (fun _ => false) (ascii "/bin" ++ [NUL]) [] =
      .overrun [ascii "/bin/anaconda"] := by
    rw [search_round (by decide) (by decide) (Or.inr rfl) (Or.inl (by decide)), hit,
      if_neg Bool.false_ne_true, search_nil]
    rfl
  simp only [launch, searchPath, hsearch]

end Launch
end Comodoo.AnacondaPath
