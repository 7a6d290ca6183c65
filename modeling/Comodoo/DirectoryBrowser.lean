import Comodoo.MakeDirectories
import Comodoo.StepRun
import Mathlib.Data.List.Induction

set_option autoImplicit false

/-!
# Picking a file

`newt_select_file` of `stage-1/dirbrowser.c` on a tree of files without symbolic links: the user
goes from directory to directory and picks a file.
-/
namespace Comodoo.DirectoryBrowser
open CString FilePath MakeDirectories StepRun

/-! ## The tree -/

structure Disk where
  system : System
  /-- what `readdir` gives, or none for a directory that cannot be read -/
  entries : Place → Option (List Str)
  mem_entries : ∀ p names, entries p = some names → ∀ n,
    n ∈ names ↔ n = dot ∨ n = dotDot ∨ system.tree.kind (p ++ [n]) ≠ none
  proper : ∀ p n, system.tree.kind (p ++ [n]) ≠ none →
    n ≠ [] ∧ sep ∉ n ∧ n ≠ dot ∧ n ≠ dotDot

/-- The path of a place from the root on. -/
def text (p : Place) : Str := if p = [] then [sep] else p.flatMap (fun n => sep :: n)

namespace Disk
variable (d : Disk)

def resolve (path : Str) : Option Place :=
  if path = [] then none
  else walk d.system.tree (start d.system path) (components path)

def realpath (path : Str) : Option Str := (d.resolve path).map text

/-- `stat` and then `S_ISDIR`; none where `stat` fails. -/
def isDir (path : Str) : Option Bool :=
  (d.resolve path).map (fun p => d.system.tree.kind p = some .dir)

def opendir (path : Str) : Option (List Str) :=
  (d.resolve path).bind (fun p => if d.system.tree.kind p = some .dir then d.entries p else none)

end Disk

/-! ## The program -/

section Program
variable (d : Disk) (sort : List Str → List Str) (filterfunc : Option (Str → Str → Bool))

abbrev FSTEP : ℕ := 10

/-- The entries stored so far, and the room for them. -/
structure Files where
  files : List Str
  numfiles : ℕ

inductive Fault where
  | notOpened
  | overrun
  deriving DecidableEq, Repr

def addEntry (fl : Files) (name : Str) : Except Fault Files :=
  if fl.files.length < fl.numfiles then
    .ok ⟨fl.files ++ [name],
      if fl.files.length ≥ fl.numfiles - 1 then fl.numfiles + FSTEP else fl.numfiles⟩
  else .error .overrun

def skipped (dirname name : Str) : Bool :=
  name = dot ∨ name = dotDot ∨ filterfunc.any (fun f => f dirname name)

def addEntries (dirname : Str) : List Str → Files → Except Fault Files
  | [], fl => .ok fl
  | name :: names, fl =>
    if skipped filterfunc dirname name then addEntries dirname names fl
    else (addEntry fl name).bind (addEntries dirname names)

def getFileList (dirname : Str) : Except Fault (List Str) :=
  match d.opendir dirname with
  | none => .error .notOpened
  | some names => do
    let fl ← addEntries filterfunc dirname names ⟨[], FSTEP⟩
    if fl.files.length < fl.numfiles then .ok (sort fl.files) else .error .overrun

inductive Exit where
  | cancel
  | ok (cursor : ℕ)

inductive Outcome where
  | chosen (path : Str)
  | cancelled
  | crashed
  deriving DecidableEq, Repr

structure Browser where
  dir : Str
  /-- `S_ISDIR` of what the last `stat` that did not fail has left -/
  sb : Bool
  visited : List Str

def statEach (dir : Str) (files : List Str) (sb : Bool) : Bool :=
  files.foldl (fun sb n => if n = [] then sb else (d.isDir (dir ++ sep :: n)).getD sb) sb

def listbox (topdir dir : Str) (files : List Str) : List Str :=
  (if topdir ≠ dir then [dotDot] else []) ++ files.filter (fun n => n ≠ [])

def round (topdir : Str) (b : Browser) (e : Exit) : Status Browser (Browser × Outcome) :=
  let b := { b with visited := b.visited ++ [b.dir] }
  match getFileList d sort filterfunc b.dir with
  | .error _ => .stopped (b, .crashed)
  | .ok files =>
    let b := { b with sb := statEach d b.dir files b.sb }
    match e with
    | .cancel => .stopped (b, .cancelled)
    | .ok cursor =>
      let items := listbox topdir b.dir files
      -- the cursor stays in the list; without an item `newtListboxGetCurrent` gives NULL
      match items[min cursor (items.length - 1)]? with
      | none => .stopped (b, .crashed)
      | some fn =>
        let path := b.dir ++ sep :: fn
        let b := { b with sb := (d.isDir path).getD b.sb }
        if b.sb = false then .stopped (b, .chosen path)
        else
          -- `opendir(NULL)` fails in the next round, and its list is NULL
          match d.realpath path with
          | none => .stopped (b, .crashed)
          | some dir => .running { b with dir := dir }

def newtSelectFile (dirname : Str) (sb : Bool) (exits : List Exit) :
    Status Browser (Browser × Outcome) :=
  match d.realpath dirname with
  | none => .stopped (⟨[], sb, []⟩, .crashed)
  | some dir => run (round d sort filterfunc dirname) ⟨dir, sb, []⟩ exits

end Program

def visited : Status Browser (Browser × Outcome) → List Str
  | .running b => b.visited
  | .stopped o => o.1.visited

/-! ## The list of files -/

section Listing
variable {d : Disk} {sort : List Str → List Str} {filterfunc : Option (Str → Str → Bool)}

theorem addEntries_fits (dirname : Str) (names : List Str) (fl : Files)
    (h : fl.files.length < fl.numfiles) : ∃ fl', addEntries filterfunc dirname names fl = .ok fl' ∧
      fl'.files = fl.files ++ names.filter (fun n => !skipped filterfunc dirname n) ∧
      fl'.files.length < fl'.numfiles := by
  induction names generalizing fl with
  | nil => exact ⟨fl, rfl, (List.append_nil _).symm, h⟩
  | cons name names ih =>
    unfold addEntries
    by_cases hskip : skipped filterfunc dirname name = true
    · rw [if_pos hskip, List.filter_cons_of_neg (by simp [hskip])]
      exact ih fl h
    · rw [if_neg hskip, List.filter_cons_of_pos (by simp [hskip])]
      have hadd : addEntry fl name = .ok ⟨fl.files ++ [name],
          if fl.files.length ≥ fl.numfiles - 1 then fl.numfiles + FSTEP else fl.numfiles⟩ :=
        if_pos h
      rw [hadd]
      have hroom : (fl.files ++ [name]).length <
          if fl.files.length ≥ fl.numfiles - 1 then fl.numfiles + FSTEP else fl.numfiles := by
        rw [List.length_append, List.length_singleton]
        split
        · change _ < fl.numfiles + 10
          omega
        · omega
      obtain ⟨fl', hok, hfiles, hlt⟩ := ih ⟨_, _⟩ hroom
      refine ⟨fl', hok, ?_, hlt⟩
      rw [hfiles, List.append_assoc, List.singleton_append]

theorem getFileList_eq (dirname : Str) : getFileList d sort filterfunc dirname =
    match d.opendir dirname with
    | none => .error .notOpened
    | some names => .ok (sort (names.filter (fun n => !skipped filterfunc dirname n))) := by
  unfold getFileList
  cases d.opendir dirname with
  | none => rfl
  | some names =>
    obtain ⟨fl, hok, hfiles, hlt⟩ :=
      @addEntries_fits filterfunc dirname names ⟨[], FSTEP⟩ (by decide)
    simp only [hok]
    change (if fl.files.length < fl.numfiles then _ else _) = _
    rw [if_pos hlt, hfiles, List.nil_append]

end Listing

/-! ## Paths and places -/

section Paths
variable {d : Disk} {p q : Place} {n : Str}

theorem dir_of_child (h : d.system.tree.kind (p ++ [n]) ≠ none) :
    d.system.tree.kind p = some .dir := by
  have hparent := d.system.tree.parent (p ++ [n]) (by simp) h
  rw [List.dropLast_concat] at hparent
  exact hparent

theorem text_head (p : Place) : (text p).head? = some sep := by
  cases p <;> rfl

theorem text_concat (hp : p ≠ []) : text (p ++ [n]) = text p ++ sep :: n := by
  unfold text
  rw [if_neg (by simp), if_neg hp, List.flatMap_append]
  simp

theorem components_text (h : d.system.tree.kind p ≠ none) : components (text p) = p := by
  induction p using List.reverseRecOn with
  | nil => rfl
  | append_singleton p n ih =>
    have hn := d.proper p n h
    have hp : d.system.tree.kind p ≠ none := by
      rw [dir_of_child h]
      simp
    have hlast : components n = [n] := by
      rw [components_segment hn.2.1, if_neg hn.1]
    by_cases hnil : p = []
    · subst hnil
      have hsplit := components_append [] n
      rw [List.nil_append] at hsplit
      change components (sep :: n ++ []) = _
      rw [List.append_nil, hsplit, hlast]
      rfl
    · rw [text_concat hnil, components_append, ih hp, hlast]

theorem text_injective (hp : d.system.tree.kind p ≠ none) (hq : d.system.tree.kind q ≠ none)
    (h : text p = text q) : p = q := by
  rw [← components_text hp, ← components_text hq, h]

theorem walk_self (h : d.system.tree.kind p ≠ none) : walk d.system.tree [] p = some p := by
  induction p using List.reverseRecOn with
  | nil => exact if_pos (by rw [d.system.tree.root]; rfl)
  | append_singleton p n ih =>
    have hn := d.proper p n h
    have hdir := dir_of_child h
    have hfollow : follow p n = p ++ [n] := by
      unfold follow
      rw [if_neg hn.2.2.1, if_neg hn.2.2.2]
    rw [walk_concat, ih (by rw [hdir]; simp), Option.bind_some, hfollow]
    exact if_pos ⟨hdir, Option.isSome_iff_ne_none.mpr h⟩

theorem resolve_text (h : d.system.tree.kind p ≠ none) : d.resolve (text p) = some p := by
  have hne : text p ≠ [] := by
    intro hnil
    have hhead := text_head p
    rw [hnil] at hhead
    cases hhead
  unfold Disk.resolve start
  rw [if_neg hne, if_pos (text_head p), components_text h, walk_self h]

theorem resolve_name (hdir : d.system.tree.kind p = some .dir) (hn : n ≠ []) (hsep : sep ∉ n) :
    d.resolve (text p ++ sep :: n) =
      if (d.system.tree.kind (follow p n)).isSome then some (follow p n) else none := by
  have hp : d.system.tree.kind p ≠ none := by
    rw [hdir]
    simp
  have hhead : (text p ++ sep :: n).head? = some sep := by
    rw [List.head?_append, text_head]
    rfl
  unfold Disk.resolve start
  rw [if_neg (by simp), if_pos hhead, components_append, components_text hp,
    components_segment hsep, if_neg hn, walk_concat, walk_self hp, Option.bind_some]
  simp only [hdir, true_and]

theorem resolve_child (h : d.system.tree.kind (p ++ [n]) ≠ none) :
    d.resolve (text p ++ sep :: n) = some (p ++ [n]) := by
  have hn := d.proper p n h
  have hfollow : follow p n = p ++ [n] := by
    unfold follow
    rw [if_neg hn.2.2.1, if_neg hn.2.2.2]
  rw [resolve_name (dir_of_child h) hn.1 hn.2.1, hfollow]
  exact if_pos (Option.isSome_iff_ne_none.mpr h)

theorem dir_dropLast (h : d.system.tree.kind p = some .dir) :
    d.system.tree.kind p.dropLast = some .dir := by
  by_cases hp : p = []
  · subst hp
    exact d.system.tree.root
  · exact d.system.tree.parent p hp (by rw [h]; simp)

theorem resolve_dotDot (h : d.system.tree.kind p = some .dir) :
    d.resolve (text p ++ sep :: dotDot) = some p.dropLast := by
  rw [resolve_name h (by decide) (by decide)]
  change (if (d.system.tree.kind p.dropLast).isSome then some p.dropLast else none) = _
  rw [dir_dropLast h]
  rfl

end Paths

/-! ## The browser on places -/

section Places
variable (d : Disk) (sort : List Str → List Str) (filterfunc : Option (Str → Str → Bool))

structure Walk where
  here : Place
  seen : List Place

def listed (p : Place) : List Str :=
  ((d.entries p).getD []).filter (fun n => !skipped filterfunc (text p) n)

/-- The way up is offered everywhere but at the top, if there is one. -/
def items (top : Option Place) (p : Place) : List Str :=
  (if top = some p then [] else [dotDot]) ++ sort (listed d filterfunc p)

def walkRound (top : Option Place) (w : Walk) (e : Exit) : Status Walk (List Place × Outcome) :=
  let seen := w.seen ++ [w.here]
  if d.entries w.here = none then .stopped (seen, .crashed)
  else
    match e with
    | .cancel => .stopped (seen, .cancelled)
    | .ok cursor =>
      let all := items d sort filterfunc top w.here
      match all[min cursor (all.length - 1)]? with
      | none => .stopped (seen, .crashed)
      | some n =>
        if n = dotDot then .running ⟨w.here.dropLast, seen⟩
        else if d.system.tree.kind (w.here ++ [n]) = some .dir then .running ⟨w.here ++ [n], seen⟩
        else .stopped (seen, .chosen (text w.here ++ sep :: n))

def Matches : Status Browser (Browser × Outcome) → Status Walk (List Place × Outcome) → Prop
  | .running b, .running w => b.dir = text w.here ∧ b.visited = w.seen.map text
  | .stopped o, .stopped o' => o.2 = o'.2 ∧ o.1.visited = o'.1.map text
  | _, _ => False

end Places

section Refinement
variable {d : Disk} {sort : List Str → List Str} {filterfunc : Option (Str → Str → Bool)}

theorem kind_of_listed {p : Place} {n : Str} (h : n ∈ listed d filterfunc p) :
    d.system.tree.kind (p ++ [n]) ≠ none := by
  have hmem := List.mem_filter.mp h
  cases he : d.entries p with
  | none =>
    rw [he] at hmem
    cases hmem.1
  | some names =>
    rw [he] at hmem
    have hskip : ¬skipped filterfunc (text p) n = true := by
      simpa using hmem.2
    have hnames := (d.mem_entries p names he n).mp hmem.1
    unfold skipped at hskip
    simp only [decide_eq_true_eq, not_or] at hskip
    exact (hnames.resolve_left hskip.1).resolve_left hskip.2.1

variable (hsort : ∀ l, (sort l).Perm l)
include hsort

theorem kind_of_item {top : Option Place} {p : Place} {n : Str} {i : ℕ}
    (h : (items d sort filterfunc top p)[i]? = some n) (hn : n ≠ dotDot) :
    d.system.tree.kind (p ++ [n]) ≠ none := by
  have hmem := List.mem_of_getElem? h
  unfold items at hmem
  cases List.mem_append.mp hmem with
  | inl hup =>
    split at hup
    · cases hup
    · exact absurd (List.mem_singleton.mp hup) hn
  | inr hin => exact kind_of_listed ((hsort _).mem_iff.mp hin)

theorem listbox_eq {topdir : Str} {top : Option Place} {p : Place}
    (htop : topdir = text p ↔ top = some p) :
    listbox topdir (text p) (sort (listed d filterfunc p)) = items d sort filterfunc top p := by
  have hall : (sort (listed d filterfunc p)).filter (fun n => n ≠ []) =
      sort (listed d filterfunc p) := by
    apply List.filter_eq_self.mpr
    intro n hn
    have hkind := kind_of_listed ((hsort _).mem_iff.mp hn)
    simpa using (d.proper p n hkind).1
  unfold listbox items
  rw [hall]
  by_cases h : topdir = text p
  · rw [if_neg (by simpa using h), if_pos (htop.mp h)]
  · rw [if_pos h, if_neg (fun h' => h (htop.mpr h'))]

theorem round_matches {topdir : Str} {top : Option Place} {b : Browser} {w : Walk} (e : Exit)
    (hdir : d.system.tree.kind w.here = some .dir) (htop : topdir = text w.here ↔ top = some w.here)
    (hb : b.dir = text w.here) (hv : b.visited = w.seen.map text) :
    Matches (round d sort filterfunc topdir b e) (walkRound d sort filterfunc top w e) := by
  have hp : d.system.tree.kind w.here ≠ none := by
    rw [hdir]
    simp
  have hseen : b.visited ++ [b.dir] = (w.seen ++ [w.here]).map text := by
    rw [hv, hb, List.map_append]
    rfl
  have hopen : d.opendir b.dir = d.entries w.here := by
    unfold Disk.opendir
    rw [hb, resolve_text hp, Option.bind_some, if_pos hdir]
  unfold round walkRound
  simp only [getFileList_eq, hopen]
  cases he : d.entries w.here with
  | none => exact ⟨rfl, hseen⟩
  | some names =>
    have hlisted : names.filter (fun n => !skipped filterfunc b.dir n) =
        listed d filterfunc w.here := by
      unfold listed
      rw [he, hb]
      rfl
    simp only [hlisted, reduceCtorEq, if_false]
    cases e with
    | cancel => exact ⟨rfl, hseen⟩
    | ok cursor =>
      simp only
      rw [hb, listbox_eq hsort htop]
      cases hi : (items d sort filterfunc top w.here)[min cursor
          ((items d sort filterfunc top w.here).length - 1)]? with
      | none => exact ⟨rfl, hb ▸ hseen⟩
      | some n =>
        simp only
        by_cases hup : n = dotDot
        · subst hup
          have hres := resolve_dotDot hdir
          have hisDir : d.isDir (text w.here ++ sep :: dotDot) = some true := by
            unfold Disk.isDir
            rw [hres, Option.map_some, dir_dropLast hdir]
            rfl
          have hreal : d.realpath (text w.here ++ sep :: dotDot) = some (text w.here.dropLast) := by
            unfold Disk.realpath
            rw [hres]
            rfl
          rw [hisDir, hreal]
          exact ⟨rfl, hb ▸ hseen⟩
        · have hkind := kind_of_item hsort hi hup
          have hres := resolve_child hkind
          have hisDir : d.isDir (text w.here ++ sep :: n) =
              some (decide (d.system.tree.kind (w.here ++ [n]) = some .dir)) := by
            unfold Disk.isDir
            rw [hres]
            rfl
          have hreal : d.realpath (text w.here ++ sep :: n) = some (text (w.here ++ [n])) := by
            unfold Disk.realpath
            rw [hres]
            rfl
          rw [hisDir, hreal, if_neg hup]
          by_cases hk : d.system.tree.kind (w.here ++ [n]) = some .dir
          · simp only [hk, decide_true, Option.getD_some, if_true]
            exact ⟨rfl, hb ▸ hseen⟩
          · simp only [hk, decide_false, Option.getD_some, if_true, if_false]
            exact ⟨rfl, hb ▸ hseen⟩

omit hsort in
theorem top_of_no_item {top : Option Place} {p : Place} {cursor : ℕ}
    (h : (items d sort filterfunc top p)[min cursor
      ((items d sort filterfunc top p).length - 1)]? = none) :
    top = some p ∧ sort (listed d filterfunc p) = [] := by
  have hlen := List.getElem?_eq_none_iff.mp h
  have hnil : items d sort filterfunc top p = [] := by
    apply List.eq_nil_of_length_eq_zero
    omega
  unfold items at hnil
  have hboth := List.append_eq_nil_iff.mp hnil
  refine ⟨?_, hboth.2⟩
  by_contra htop
  rw [if_neg htop] at hboth
  cases hboth.1

theorem not_top_of_dotDot {top : Option Place} {p : Place} {i : ℕ}
    (h : (items d sort filterfunc top p)[i]? = some dotDot) : top ≠ some p := by
  intro htop
  have hmem := List.mem_of_getElem? h
  unfold items at hmem
  rw [if_pos htop, List.nil_append] at hmem
  exact (d.proper p dotDot (kind_of_listed ((hsort _).mem_iff.mp hmem))).2.2.2 rfl

omit hsort in
theorem walkRound_dir {top : Option Place} {w w' : Walk} {e : Exit}
    (hdir : d.system.tree.kind w.here = some .dir)
    (h : walkRound d sort filterfunc top w e = .running w') :
    d.system.tree.kind w'.here = some .dir := by
  unfold walkRound at h
  split at h
  · cases h
  · split at h
    · cases h
    · simp only at h
      split at h
      · cases h
      · split at h
        · cases h
          exact dir_dropLast hdir
        · split at h
          · rename_i hk
            cases h
            exact hk
          · cases h

theorem run_matches {topdir : Str} {top : Option Place} (exits : List Exit)
    (htop : ∀ p, d.system.tree.kind p = some .dir → (topdir = text p ↔ top = some p))
    {b : Browser} {w : Walk} (hdir : d.system.tree.kind w.here = some .dir)
    (hb : b.dir = text w.here) (hv : b.visited = w.seen.map text) :
    Matches (run (round d sort filterfunc topdir) b exits)
      (run (walkRound d sort filterfunc top) w exits) := by
  induction exits generalizing b w with
  | nil => exact ⟨hb, hv⟩
  | cons e exits ih =>
    have hround := @round_matches d sort filterfunc hsort _ _ _ _ e hdir (htop w.here hdir) hb hv
    unfold run
    cases hr : round d sort filterfunc topdir b e with
    | running b' =>
      cases hw : walkRound d sort filterfunc top w e with
      | running w' =>
        rw [hr, hw] at hround
        exact ih (walkRound_dir hdir hw) hround.1 hround.2
      | stopped o' =>
        rw [hr, hw] at hround
        exact hround.elim
    | stopped o =>
      cases hw : walkRound d sort filterfunc top w e with
      | running w' =>
        rw [hr, hw] at hround
        exact hround.elim
      | stopped o' =>
        rw [hr, hw] at hround
        exact hround

/-- The top is the place of `dirname` where `dirname` is spelt as `realpath` spells it; another
    spelling leaves the browser without a top. -/
theorem newtSelectFile_matches {dirname : Str} {root : Place} (sb : Bool) (exits : List Exit)
    (hroot : d.resolve dirname = some root) (hdir : d.system.tree.kind root = some .dir) :
    Matches (newtSelectFile d sort filterfunc dirname sb exits)
      (run (walkRound d sort filterfunc (if dirname = text root then some root else none))
        ⟨root, []⟩ exits) := by
  have hreal : d.realpath dirname = some (text root) := by
    unfold Disk.realpath
    rw [hroot]
    rfl
  unfold newtSelectFile
  rw [hreal]
  apply run_matches hsort exits _ hdir rfl rfl
  intro p hp
  have hne : ∀ q, d.system.tree.kind q = some .dir → d.system.tree.kind q ≠ none := by
    intro q hq
    rw [hq]
    simp
  by_cases hsame : dirname = text root
  · rw [if_pos hsame, hsame, Option.some.injEq]
    exact ⟨text_injective (hne root hdir) (hne p hp), fun h => h ▸ rfl⟩
  · rw [if_neg hsame]
    constructor
    · intro h
      rw [h, resolve_text (hne p hp)] at hroot
      cases hroot
      exact absurd h hsame
    · intro h
      cases h

end Refinement

/-! ## Where the user gets -/

section Results
variable {d : Disk} {sort : List Str → List Str} {filterfunc : Option (Str → Str → Bool)}
variable {root : Place}

theorem prefix_dropLast {p : Place} (h : root <+: p) (hne : root ≠ p) : root <+: p.dropLast := by
  obtain ⟨q, rfl⟩ := h
  have hq : q ≠ [] := by
    rintro rfl
    exact hne (List.append_nil root).symm
  rw [List.dropLast_append_of_ne_nil hq]
  exact List.prefix_append root _

structure Below (d : Disk) (root : Place) (w : Walk) : Prop where
  here : root <+: w.here
  dir : d.system.tree.kind w.here = some .dir
  seen : ∀ p ∈ w.seen, root <+: p ∧ d.system.tree.kind p = some .dir

structure Ends (d : Disk) (filterfunc : Option (Str → Str → Bool)) (root : Place)
    (o : List Place × Outcome) : Prop where
  seen : ∀ p ∈ o.1, root <+: p ∧ d.system.tree.kind p = some .dir
  chosen : ∀ path, o.2 = .chosen path → ∃ p n x, root <+: p ∧ path = text p ++ sep :: n ∧
    d.system.tree.kind (p ++ [n]) = some (.file x)
  crashed : o.2 = .crashed → (∃ p, d.system.tree.kind p = some .dir ∧ d.entries p = none) ∨
    listed d filterfunc root = []

theorem walkRound_below (hsort : ∀ l, (sort l).Perm l) {w : Walk} (e : Exit)
    (hw : Below d root w) :
    (walkRound d sort filterfunc (some root) w e).Sat (Below d root) (Ends d filterfunc root) := by
  have hseen : ∀ p ∈ w.seen ++ [w.here], root <+: p ∧ d.system.tree.kind p = some .dir := by
    intro p hp
    cases List.mem_append.mp hp with
    | inl hp => exact hw.seen p hp
    | inr hp => exact List.mem_singleton.mp hp ▸ ⟨hw.here, hw.dir⟩
  unfold walkRound
  by_cases hopen : d.entries w.here = none
  · rw [if_pos hopen]
    exact ⟨hseen, nofun, fun _ => Or.inl ⟨w.here, hw.dir, hopen⟩⟩
  rw [if_neg hopen]
  cases e with
  | cancel => exact ⟨hseen, nofun, nofun⟩
  | ok cursor =>
    simp only
    cases hi : (items d sort filterfunc (some root) w.here)[min cursor
        ((items d sort filterfunc (some root) w.here).length - 1)]? with
    | none =>
      obtain ⟨htop, hnil⟩ := top_of_no_item hi
      cases htop
      refine ⟨hseen, fun path hpath => (by cases hpath), fun _ => Or.inr ?_⟩
      have hperm := hsort (listed d filterfunc w.here)
      rw [hnil] at hperm
      exact hperm.nil_eq.symm
    | some n =>
      simp only
      by_cases hup : n = dotDot
      · rw [if_pos hup]
        subst hup
        have hne : root ≠ w.here := fun h => not_top_of_dotDot hsort hi (congrArg some h)
        exact ⟨prefix_dropLast hw.here hne, dir_dropLast hw.dir, hseen⟩
      · rw [if_neg hup]
        have hkind := kind_of_item hsort hi hup
        split
        · rename_i hk
          exact ⟨hw.here.trans (List.prefix_append _ _), hk, hseen⟩
        · rename_i hk
          refine ⟨hseen, ?_, fun hcrash => (by cases hcrash)⟩
          intro path hpath
          cases hpath
          cases hkd : d.system.tree.kind (w.here ++ [n]) with
          | none => exact absurd hkd hkind
          | some k =>
            cases k with
            | dir => exact absurd hkd hk
            | file x => exact ⟨w.here, n, x, hw.here, rfl, hkd⟩

theorem run_below (hsort : ∀ l, (sort l).Perm l) (hdir : d.system.tree.kind root = some .dir)
    (exits : List Exit) : (run (walkRound d sort filterfunc (some root)) ⟨root, []⟩ exits).Sat
      (Below d root) (Ends d filterfunc root) :=
  run_keeps (fun _ e hw => walkRound_below hsort e hw) _ exits
    ⟨List.prefix_refl root, hdir, fun _ hp => nomatch hp⟩

def seen : Status Walk (List Place × Outcome) → List Place
  | .running w => w.seen
  | .stopped o => o.1

theorem visited_of_matches {x : Status Browser (Browser × Outcome)}
    {y : Status Walk (List Place × Outcome)} (h : Matches x y) :
    visited x = (seen y).map text := by
  cases x with
  | running b =>
    cases y with
    | running w => exact h.2
    | stopped o => exact h.elim
  | stopped o =>
    cases y with
    | running w => exact h.elim
    | stopped o' => exact h.2

theorem seen_below (hsort : ∀ l, (sort l).Perm l) (hdir : d.system.tree.kind root = some .dir)
    (exits : List Exit) :
    ∀ p ∈ seen (run (walkRound d sort filterfunc (some root)) ⟨root, []⟩ exits),
      root <+: p ∧ d.system.tree.kind p = some .dir := by
  have hbelow := @run_below d sort filterfunc root hsort hdir exits
  cases hrun : run (walkRound d sort filterfunc (some root)) ⟨root, []⟩ exits with
  | running w =>
    rw [hrun] at hbelow
    exact hbelow.seen
  | stopped o =>
    rw [hrun] at hbelow
    exact hbelow.seen

theorem seen_above (hopen : d.entries root ≠ none) :
    root.dropLast ∈ seen (run (walkRound d sort filterfunc none) ⟨root, []⟩ [.ok 0, .cancel]) := by
  have hup : walkRound d sort filterfunc none ⟨root, []⟩ (.ok 0) =
      .running ⟨root.dropLast, [root]⟩ := by
    unfold walkRound
    rw [if_neg hopen]
    rfl
  rw [run_cons_running _ hup]
  by_cases habove : d.entries root.dropLast = none
  · have hstop : walkRound d sort filterfunc none ⟨root.dropLast, [root]⟩ .cancel =
        .stopped ([root, root.dropLast], .crashed) := if_pos habove
    rw [run_cons_stopped _ hstop]
    exact List.mem_cons_of_mem root List.mem_cons_self
  · have hstop : walkRound d sort filterfunc none ⟨root.dropLast, [root]⟩ .cancel =
        .stopped ([root, root.dropLast], .cancelled) := if_neg habove
    rw [run_cons_stopped _ hstop]
    exact List.mem_cons_of_mem root List.mem_cons_self

/-- The user cannot go up above `dirname` exactly when it is spelt as `realpath` spells it. -/
theorem newtSelectFile_stays_iff (d : Disk) (sort : List Str → List Str)
    (filterfunc : Option (Str → Str → Bool)) (dirname : Str) (root : Place) (sb : Bool)
    (hsort : ∀ l, (sort l).Perm l) (hroot : d.resolve dirname = some root)
    (hdir : d.system.tree.kind root = some .dir) (hopen : d.entries root ≠ none)
    (hne : root ≠ []) :
    (∀ exits, ∀ dir ∈ visited (newtSelectFile d sort filterfunc dirname sb exits),
      ∃ p, dir = text (root ++ p) ∧ d.system.tree.kind (root ++ p) = some .dir) ↔
    dirname = text root := by
  constructor
  · intro h
    by_contra hother
    have hmatch := @newtSelectFile_matches d sort filterfunc hsort dirname root sb
      [.ok 0, .cancel] hroot hdir
    rw [if_neg hother] at hmatch
    have hin : text root.dropLast ∈
        visited (newtSelectFile d sort filterfunc dirname sb [.ok 0, .cancel]) := by
      rw [visited_of_matches hmatch]
      exact List.mem_map_of_mem (seen_above hopen)
    obtain ⟨p, htext, hp⟩ := h _ _ hin
    have hsame : root.dropLast = root ++ p := by
      apply @text_injective d _ _ _ _ htext
      · rw [dir_dropLast hdir]
        simp
      · rw [hp]
        simp
    have hlen := congrArg List.length hsame
    have hpos := List.length_pos_of_ne_nil hne
    simp only [List.length_dropLast, List.length_append] at hlen
    omega
  · intro h exits dir hin
    have hmatch := @newtSelectFile_matches d sort filterfunc hsort dirname root sb exits hroot hdir
    rw [if_pos h] at hmatch
    rw [visited_of_matches hmatch] at hin
    obtain ⟨p, hp, rfl⟩ := List.mem_map.mp hin
    obtain ⟨⟨q, rfl⟩, hkind⟩ := seen_below hsort hdir exits p hp
    exact ⟨q, rfl, hkind⟩

def oneFile : Disk where
  system :=
    { tree :=
        { kind := fun p =>
            if p = [] ∨ p = [[0x74]] ∨ p = [[0x74], [0x64]] then some .dir
            else if p = [[0x74], [0x64], [0x66]] then some (.file false)
            else none
          root := rfl
          parent := by
            intro p hp hkind
            split at hkind
            · rename_i h
              rcases h with rfl | rfl | rfl
              · exact absurd rfl hp
              · rfl
              · rfl
            · split at hkind
              · rename_i h
                subst h
                rfl
              · exact absurd rfl hkind }
      cwd := []
      cwdDir := rfl
      refused := fun _ => false }
  entries := fun p =>
    if p = [] then some [dot, dotDot, [0x74]]
    else if p = [[0x74]] then some [dot, dotDot, [0x64]]
    else if p = [[0x74], [0x64]] then some [dot, dotDot, [0x66]]
    else none
  mem_entries := by
    intro p names h n
    split at h
    · rename_i hp
      cases h
      subst hp
      simp
    split at h
    · rename_i hp
      cases h
      subst hp
      simp
    split at h
    · rename_i hp
      cases h
      subst hp
      simp
    · cases h
  proper := by
    intro p n h
    have hn : n = [0x74] ∨ n = [0x64] ∨ n = [0x66] := by
      by_contra hother
      simp only [not_or] at hother
      cases p with
      | nil => simp [hother] at h
      | cons a p =>
        cases p with
        | nil => simp [hother] at h
        | cons b p =>
          cases p with
          | nil => simp [hother] at h
          | cons c p => simp at h
    rcases hn with rfl | rfl | rfl <;> decide

/-- With a slash behind the name of the directory the user gets out of it. -/
theorem newtSelectFile_stays_iff_oneFile :
    ¬∀ exits, ∀ dir ∈ visited (newtSelectFile oneFile id none [sep, 0x74, sep, 0x64, sep] true exits),
      ∃ p, dir = text ([[0x74], [0x64]] ++ p) ∧
        oneFile.system.tree.kind ([[0x74], [0x64]] ++ p) = some .dir := by
  have hiff := newtSelectFile_stays_iff oneFile id none [sep, 0x74, sep, 0x64, sep]
    [[0x74], [0x64]] true List.Perm.refl (by decide) (by decide) (by decide) (by decide)
  exact hiff.not.mpr (by decide)

/-! ## What can be picked -/

theorem dir_of_below {p q : Place} (h : d.system.tree.kind (p ++ q) ≠ none) (hq : q ≠ []) :
    d.system.tree.kind p = some .dir := by
  induction q using List.reverseRecOn with
  | nil => exact absurd rfl hq
  | append_singleton q n ih =>
    rw [← List.append_assoc] at h
    have hdir := dir_of_child h
    by_cases hnil : q = []
    · rw [hnil, List.append_nil] at hdir
      exact hdir
    · exact ih (by rw [hdir]; simp) hnil

theorem cursor_of_item {l : List Str} {n : Str} (h : n ∈ l) :
    ∃ cursor : ℕ, l[min cursor (l.length - 1)]? = some n := by
  obtain ⟨i, hi, hget⟩ := List.getElem_of_mem h
  refine ⟨i, ?_⟩
  rw [min_eq_left (by omega), List.getElem?_eq_getElem hi, hget]

theorem walkRound_pick (hsort : ∀ l, (sort l).Perm l) {p : Place} {n : Str}
    (hopen : d.entries p ≠ none) (hn : d.system.tree.kind (p ++ [n]) ≠ none) (top : Option Place)
    (before : List Place) : ∃ cursor, walkRound d sort none top ⟨p, before⟩ (.ok cursor) =
      if d.system.tree.kind (p ++ [n]) = some .dir then .running ⟨p ++ [n], before ++ [p]⟩
      else .stopped (before ++ [p], .chosen (text p ++ sep :: n)) := by
  have hproper := d.proper p n hn
  have hlisted : n ∈ listed d none p := by
    cases he : d.entries p with
    | none => exact absurd he hopen
    | some names =>
      unfold listed
      rw [he]
      apply List.mem_filter.mpr ⟨(d.mem_entries p names he n).mpr (Or.inr (Or.inr hn)), _⟩
      simp [skipped, hproper.2.2.1, hproper.2.2.2]
  have hitem : n ∈ items d sort none top p :=
    List.mem_append_right _ ((hsort _).mem_iff.mpr hlisted)
  obtain ⟨cursor, hcursor⟩ := cursor_of_item hitem
  refine ⟨cursor, ?_⟩
  unfold walkRound
  rw [if_neg hopen]
  simp only [hcursor]
  rw [if_neg hproper.2.2.2]

theorem walk_reaches (hsort : ∀ l, (sort l).Perm l)
    (hopen : ∀ p, d.system.tree.kind p = some .dir → d.entries p ≠ none) (top : Option Place)
    {n : Str} {x : Bool} (q : Place) {p : Place} (before : List Place)
    (h : d.system.tree.kind (p ++ q ++ [n]) = some (.file x)) :
    ∃ exits after, run (walkRound d sort none top) ⟨p, before⟩ exits =
      .stopped (after, .chosen (text (p ++ q) ++ sep :: n)) := by
  have hn : d.system.tree.kind (p ++ q ++ [n]) ≠ none := by
    rw [h]
    simp
  induction q generalizing p before with
  | nil =>
    rw [List.append_nil] at h hn ⊢
    have hp := hopen p (dir_of_child hn)
    obtain ⟨cursor, hround⟩ := walkRound_pick hsort hp hn top before
    rw [if_neg (by rw [h]; simp)] at hround
    exact ⟨[.ok cursor], _, run_cons_stopped [] hround⟩
  | cons m q ih =>
    have hassoc : p ++ m :: q = p ++ [m] ++ q := List.append_cons p m q
    rw [hassoc] at h hn ⊢
    have hm : d.system.tree.kind (p ++ [m]) = some .dir :=
      @dir_of_below d (p ++ [m]) (q ++ [n]) (by rw [← List.append_assoc]; exact hn) (by simp)
    have hm' : d.system.tree.kind (p ++ [m]) ≠ none := by
      rw [hm]
      simp
    have hp := hopen p (dir_of_child hm')
    obtain ⟨cursor, hround⟩ := walkRound_pick hsort hp hm' top before
    rw [if_pos hm] at hround
    obtain ⟨exits, after, hrun⟩ := ih (before ++ [p]) h hn
    exact ⟨.ok cursor :: exits, after, (run_cons_running exits hround).trans hrun⟩

theorem outcome_of_matches {x : Status Browser (Browser × Outcome)} {o : List Place × Outcome}
    (h : Matches x (.stopped o)) : ∃ b, x = .stopped (b, o.2) := by
  cases x with
  | running b => exact h.elim
  | stopped o' => exact ⟨o'.1, congrArg _ (Prod.ext rfl h.1)⟩

theorem ends_of_stopped (hsort : ∀ l, (sort l).Perm l) (hroot : d.resolve (text root) = some root)
    (hdir : d.system.tree.kind root = some .dir) {sb : Bool} {exits : List Exit} {b : Browser}
    {out : Outcome}
    (h : newtSelectFile d sort filterfunc (text root) sb exits = .stopped (b, out)) :
    ∃ o, o.2 = out ∧ Ends d filterfunc root o := by
  have hmatch := @newtSelectFile_matches d sort filterfunc hsort (text root) root sb exits hroot hdir
  rw [if_pos rfl, h] at hmatch
  have hbelow := @run_below d sort filterfunc root hsort hdir exits
  cases hrun : run (walkRound d sort filterfunc (some root)) ⟨root, []⟩ exits with
  | running w =>
    rw [hrun] at hmatch
    exact hmatch.elim
  | stopped o =>
    rw [hrun] at hmatch hbelow
    exact ⟨o, hmatch.1.symm, hbelow⟩

theorem walkRound_empty (hsort : ∀ l, (sort l).Perm l) (hopen : d.entries root ≠ none)
    (hnil : listed d filterfunc root = []) (cursor : ℕ) :
    walkRound d sort filterfunc (some root) ⟨root, []⟩ (.ok cursor) =
      .stopped ([root], .crashed) := by
  have hempty : items d sort filterfunc (some root) root = [] := by
    have hperm := hsort (listed d filterfunc root)
    rw [hnil] at hperm
    unfold items
    rw [if_pos rfl, hnil, hperm.eq_nil]
    rfl
  unfold walkRound
  rw [if_neg hopen, hempty]
  rfl

/-- The files that the user can pick below a canonical directory are the files there are, and the
    program crashes only over a directory that has nothing to show. -/
theorem newtSelectFile_picks (d : Disk) (sort : List Str → List Str) (root : Place) (sb : Bool)
    (hsort : ∀ l, (sort l).Perm l) (hdir : d.system.tree.kind root = some .dir) (hne : root ≠ [])
    (hopen : ∀ p, d.system.tree.kind p = some .dir → d.entries p ≠ none) :
    (∀ path, (∃ exits b, newtSelectFile d sort none (text root) sb exits =
        .stopped (b, .chosen path)) ↔
      ∃ q x, d.system.tree.kind (root ++ q) = some (.file x) ∧ path = text (root ++ q)) ∧
    ((∃ exits b, newtSelectFile d sort none (text root) sb exits = .stopped (b, .crashed)) ↔
      ∀ n, d.system.tree.kind (root ++ [n]) = none) := by
  have hkind : d.system.tree.kind root ≠ none := by
    rw [hdir]
    simp
  have hroot := resolve_text hkind
  have hmatches : ∀ exits {o}, run (walkRound d sort none (some root)) ⟨root, []⟩ exits =
      .stopped o → ∃ b, newtSelectFile d sort none (text root) sb exits = .stopped (b, o.2) := by
    intro exits o hrun
    have hmatch := @newtSelectFile_matches d sort none hsort (text root) root sb exits hroot hdir
    rw [if_pos rfl, hrun] at hmatch
    exact outcome_of_matches hmatch
  constructor
  · intro path
    constructor
    · rintro ⟨exits, b, h⟩
      obtain ⟨o, ho, hends⟩ := ends_of_stopped hsort hroot hdir h
      obtain ⟨p, n, x, ⟨q, rfl⟩, hpath, hfile⟩ := hends.chosen path ho
      refine ⟨q ++ [n], x, ?_, ?_⟩
      · rw [← List.append_assoc]
        exact hfile
      · rw [hpath, ← List.append_assoc, text_concat (by simp [hne])]
    · rintro ⟨q, x, hfile, rfl⟩
      cases q using List.reverseRecOn with
      | nil =>
        rw [List.append_nil, hdir] at hfile
        cases hfile
      | append_singleton q n _ =>
        rw [← List.append_assoc] at hfile ⊢
        obtain ⟨exits, after, hrun⟩ := walk_reaches hsort hopen (some root) q [] hfile
        obtain ⟨b, hb⟩ := hmatches exits hrun
        rw [text_concat (by simp [hne])]
        exact ⟨exits, b, hb⟩
  · constructor
    · rintro ⟨exits, b, h⟩ n
      obtain ⟨o, ho, hends⟩ := ends_of_stopped hsort hroot hdir h
      cases hends.crashed ho with
      | inl hbad =>
        obtain ⟨p, hp, hnone⟩ := hbad
        exact absurd hnone (hopen p hp)
      | inr hnil =>
        by_contra hn
        obtain ⟨cursor, hround⟩ := walkRound_pick hsort (hopen root hdir) hn (some root) []
        rw [walkRound_empty hsort (hopen root hdir) hnil cursor] at hround
        split at hround <;> cases hround
    · intro hnone
      have hnil : listed d none root = [] := by
        apply List.eq_nil_iff_forall_not_mem.mpr
        intro n hn
        exact kind_of_listed hn (hnone n)
      have hround := walkRound_empty hsort (hopen root hdir) hnil 0
      obtain ⟨b, hb⟩ := hmatches [.ok 0] (run_cons_stopped [] hround)
      exact ⟨[.ok 0], b, hb⟩

theorem newtSelectFile_picks_oneFile : ∃ exits b,
    newtSelectFile oneFile id none [sep, 0x74, sep, 0x64] true exits =
      .stopped (b, .chosen [sep, 0x74, sep, 0x64, sep, 0x66]) := by
  have hopen : ∀ p, oneFile.system.tree.kind p = some .dir → oneFile.entries p ≠ none := by
    intro p hp
    have hplace : p = [] ∨ p = [[0x74]] ∨ p = [[0x74], [0x64]] := by
      by_contra hother
      have hkind : (if p = [[0x74], [0x64], [0x66]] then some (Kind.file false) else none) =
          some Kind.dir := by
        rw [← hp]
        exact (if_neg hother).symm
      split at hkind <;> cases hkind
    rcases hplace with rfl | rfl | rfl <;> decide
  have hpicks := newtSelectFile_picks oneFile id [[0x74], [0x64]] true List.Perm.refl (by decide)
    (by decide) hopen
  exact (hpicks.1 [sep, 0x74, sep, 0x64, sep, 0x66]).mpr ⟨[[0x66]], false, by decide, by decide⟩

end Results

end Comodoo.DirectoryBrowser
