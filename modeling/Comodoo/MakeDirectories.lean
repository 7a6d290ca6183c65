import Comodoo.FilePath
import Mathlib.Logic.Function.Basic

set_option autoImplicit false

/-!
# Directories for a mount

`mkdirChain` of `isys/imount.c` on a tree of files without symbolic links.
-/
namespace Comodoo.MakeDirectories
open CString FilePath

abbrev IMOUNT_ERR_ERRNO : ℤ := 1

inductive Kind where
  | dir
  | file (executable : Bool)
  deriving DecidableEq, Repr

/-- What stands in a directory stands in one that exists. -/
structure Tree where
  kind : Place → Option Kind
  root : kind [] = some .dir
  parent : ∀ p, p ≠ [] → kind p ≠ none → kind p.dropLast = some .dir

structure System where
  tree : Tree
  cwd : Place
  cwdDir : tree.kind cwd = some .dir
  /-- no directory can be made there, for want of space or rights -/
  refused : Place → Bool

def components (path : Str) : List Str := (path.splitOn sep).filter (fun c => c ≠ [])

def start (s : System) (path : Str) : Place := if path.head? = some sep then [] else s.cwd

def follow (p : Place) (c : Str) : Place :=
  if c = dot then p else if c = dotDot then p.dropLast else p ++ [c]

/-- The names are looked up one after the other, each in a directory. -/
def walk (t : Tree) (p : Place) : List Str → Option Place
  | [] => if (t.kind p).isSome then some p else none
  | c :: cs => if t.kind p = some .dir then walk t (follow p c) cs else none

/-- `access(path, X_OK)` for root; a slash at the end wants a directory. -/
def access (s : System) (path : Str) : Bool :=
  path ≠ [] ∧ ((walk s.tree (start s path) (components path)).bind s.tree.kind).any (fun k =>
    k = .dir ∨ (k = .file true ∧ path.getLast? ≠ some sep))

theorem add_parent {t : Tree} {p : Place} {name : Str} (hdir : t.kind p = some .dir) (q : Place)
    (hq : q ≠ [])
    (hsome : Function.update t.kind (p ++ [name]) (some .dir) q ≠ none) :
    Function.update t.kind (p ++ [name]) (some .dir) q.dropLast = some .dir := by
  have hparent : t.kind q.dropLast = some .dir := by
    by_cases heq : q = p ++ [name]
    · rw [heq, List.dropLast_concat]
      exact hdir
    · rw [Function.update_of_ne heq] at hsome
      exact t.parent q hq hsome
  by_cases hsame : q.dropLast = p ++ [name]
  · rw [hsame, Function.update_self]
  · rw [Function.update_of_ne hsame]
    exact hparent

def System.add (s : System) (p : Place) (name : Str) (hdir : s.tree.kind p = some .dir)
    (hfree : s.tree.kind (p ++ [name]) = none) : System where
  tree :=
    { kind := Function.update s.tree.kind (p ++ [name]) (some .dir)
      root := by
        rw [Function.update_of_ne (by simp)]
        exact s.tree.root
      parent := add_parent hdir }
  cwd := s.cwd
  cwdDir := by
    have hne : s.cwd ≠ p ++ [name] := by
      intro heq
      have hcwd := s.cwdDir
      rw [heq, hfree] at hcwd
      cases hcwd
    exact (Function.update_of_ne hne _ _).trans s.cwdDir
  refused := s.refused

inductive Errno where
  | ok
  | eexist
  | other
  deriving DecidableEq, Repr

/-- `mkdir(path, 0755)`. -/
def mkdir (s : System) (path : Str) : System × Errno :=
  match (components path).getLast? with
  | none => (s, if path = [] then .other else .eexist)
  | some name =>
    match walk s.tree (start s path) (components path).dropLast with
    | none => (s, .other)
    | some p =>
      if hdir : s.tree.kind p = some .dir then
        if name = dot ∨ name = dotDot then (s, .eexist)
        else if hfree : s.tree.kind (p ++ [name]) = none then
          if s.refused (p ++ [name]) then (s, .other) else (s.add p name hdir hfree, .ok)
        else (s, .eexist)
      else (s, .other)

def mkdirIfNone (s : System) (directory : Str) : System × ℤ :=
  if access s directory then (s, 0)
  else if directory.all (fun b => b = sep) then (s, 0)
  else
    match mkdir s directory with
    | (s, .other) => (s, IMOUNT_ERR_ERRNO)
    | (s, _) => (s, 0)

/-- The loop, with the text in front of `chptr`, and the last call. -/
def mkdirChainFrom (s : System) (front : Str) : Str → System × ℤ
  | [] =>
    let r := mkdirIfNone s front
    (r.1, if r.2 ≠ 0 then IMOUNT_ERR_ERRNO else 0)
  | b :: rest =>
    if b = sep then
      let r := mkdirIfNone s front
      if r.2 ≠ 0 then (r.1, IMOUNT_ERR_ERRNO) else mkdirChainFrom r.1 (front ++ [b]) rest
    else mkdirChainFrom s (front ++ [b]) rest

def mkdirChain (s : System) (origChain : Str) : System × ℤ := mkdirChainFrom s [] origChain

def trail (p : Place) : List Str → List Place
  | [] => []
  | c :: cs => follow p c :: trail (follow p c) cs

def withDirs (kind : Place → Option Kind) (ps : List Place) (q : Place) : Option Kind :=
  if kind q = none ∧ q ∈ ps then some .dir else kind q

/-- Nothing stands in the way: no file where the path goes on, and no missing directory is
refused. -/
def Passable (s : System) (path : Str) : Prop :=
  (∀ q ∈ (trail (start s path) (components path)).dropLast, ∀ x,
    s.tree.kind q ≠ some (.file x)) ∧
  ∀ q ∈ trail (start s path) (components path), s.tree.kind q = none → s.refused q = false

/-- The names one after the other, and whether all of them could be followed. -/
def grow (refused : Place → Bool) (kind : Place → Option Kind) (p : Place) :
    List Str → (Place → Option Kind) × Bool
  | [] => (kind, true)
  | c :: cs =>
    if kind p = some .dir ∧ (kind (follow p c) = none → refused (follow p c) = false) then
      grow refused (withDirs kind [follow p c]) (follow p c) cs
    else (kind, false)

section Paths

theorem components_append (l r : Str) :
    components (l ++ sep :: r) = components l ++ components r := by
  rw [components, List.splitOn_append_cons_self, List.filter_append]
  rfl

theorem components_segment {seg : Str} (h : sep ∉ seg) :
    components seg = if seg = [] then [] else [seg] := by
  rw [components, List.splitOn_eq_singleton h]
  by_cases hseg : seg = [] <;> simp [hseg]

theorem components_eq_nil_iff {path : Str} :
    components path = [] ↔ path.all (fun b => b = sep) = true := by
  induction path with
  | nil => exact ⟨fun _ => rfl, fun _ => rfl⟩
  | cons b path ih =>
    by_cases hb : b = sep
    · subst hb
      have happ : components (sep :: path) = components path := components_append [] path
      rw [happ, ih]
      simp
    · have hhead : (b :: path).splitOn sep = (path.splitOn sep).modifyHead (List.cons b) := by
        rw [List.splitOn_cons_eq_if_modifyHead, if_neg (by simpa using hb)]
      have hne : components (b :: path) ≠ [] := by
        rw [components, hhead]
        cases hs : path.splitOn sep with
        | nil => exact absurd hs (List.splitOn_ne_nil _ _)
        | cons seg segs => simp
      simp [hne, hb]

end Paths

section Walk

variable {t u : Tree} {p q : Place} {c : Str} {cs ds : List Str}

theorem walk_append : walk t p (cs ++ ds) = (walk t p cs).bind (fun q => walk t q ds) := by
  induction cs generalizing p with
  | nil =>
    rw [List.nil_append, walk]
    split
    · rfl
    · rename_i hnone
      cases ds with
      | nil => rw [walk, if_neg hnone, Option.bind_none]
      | cons d ds =>
        have hdir : t.kind p ≠ some .dir := by
          intro hp
          rw [hp] at hnone
          exact hnone rfl
        rw [walk, if_neg hdir, Option.bind_none]
  | cons c cs ih =>
    rw [List.cons_append, walk, walk]
    split
    · exact ih
    · rfl

theorem walk_concat : walk t p (cs ++ [c]) = (walk t p cs).bind (fun q =>
    if t.kind q = some .dir ∧ (t.kind (follow q c)).isSome then some (follow q c) else none) := by
  rw [walk_append]
  congr 1
  funext q
  rw [walk, walk]
  by_cases hq : t.kind q = some .dir <;> simp [hq]

theorem kind_of_walk (h : walk t p cs = some q) : t.kind q ≠ none := by
  induction cs generalizing p with
  | nil =>
    rw [walk] at h
    split at h
    · rename_i hsome
      cases h
      exact Option.isSome_iff_ne_none.mp hsome
    · cases h
  | cons c cs ih =>
    rw [walk] at h
    split at h
    · exact ih h
    · cases h

theorem walk_mono (hmono : ∀ q k, t.kind q = some k → u.kind q = some k)
    (h : walk t p cs = some q) : walk u p cs = some q := by
  induction cs generalizing p with
  | nil =>
    have hkind := kind_of_walk h
    rw [walk] at h
    split at h
    · cases h
      obtain ⟨k, hk⟩ := Option.ne_none_iff_exists'.mp hkind
      rw [walk, hmono _ _ hk]
      rfl
    · cases h
  | cons c cs ih =>
    rw [walk] at h
    split at h
    · rename_i hdir
      rw [walk, if_pos (hmono _ _ hdir)]
      exact ih h
    · cases h

/-- Only a name that is no dot leads to where there is nothing. -/
theorem follow_of_free (hdir : t.kind p = some .dir) (hfree : t.kind (follow p c) = none) :
    c ≠ dot ∧ c ≠ dotDot ∧ follow p c = p ++ [c] := by
  have hdot : c ≠ dot := by
    intro hc
    rw [follow, if_pos hc, hdir] at hfree
    cases hfree
  have hdotDot : c ≠ dotDot := by
    intro hc
    rw [follow, if_neg hdot, if_pos hc] at hfree
    by_cases hp : p = []
    · rw [hp, List.dropLast_nil, t.root] at hfree
      cases hfree
    · rw [t.parent p hp (by rw [hdir]; simp)] at hfree
      cases hfree
  refine ⟨hdot, hdotDot, ?_⟩
  rw [follow, if_neg hdot, if_neg hdotDot]

theorem withDirs_of_some {kind : Place → Option Kind} (h : kind q ≠ none) :
    withDirs kind [q] = kind := by
  funext r
  rw [withDirs, if_neg]
  intro ⟨hr, hmem⟩
  rw [List.mem_singleton.mp hmem] at hr
  exact h hr

theorem withDirs_of_none {kind : Place → Option Kind} (h : kind q = none) :
    withDirs kind [q] = Function.update kind q (some .dir) := by
  funext r
  by_cases hr : r = q
  · subst hr
    rw [Function.update_self, withDirs, if_pos ⟨h, List.mem_singleton.mpr rfl⟩]
  · rw [Function.update_of_ne hr, withDirs, if_neg (by simp [hr])]

end Walk

section Calls

variable {s s' : System} {p q root : Place} {front part rest : Str} {c : Str} {cs : List Str} {rc : ℤ}

theorem mkdirIfNone_walked (hfront : components front = cs)
    (hwalk : walk s.tree (start s front) cs = some p) : mkdirIfNone s front = (s, 0) := by
  unfold mkdirIfNone
  split
  · rfl
  split
  · rfl
  rename_i hall
  rcases List.eq_nil_or_concat cs with hnil | ⟨ds, d, hcs⟩
  · rw [hnil] at hfront
    exact absurd (components_eq_nil_iff.mp hfront) hall
  · rw [hcs, List.concat_eq_append] at hfront
    rw [hcs, List.concat_eq_append, walk_concat] at hwalk
    obtain ⟨q, hq, hd⟩ := Option.bind_eq_some_iff.mp hwalk
    split at hd
    · rename_i hboth
      have hmkdir : mkdir s front = (s, .eexist) := by
        unfold mkdir
        simp only [hfront, List.getLast?_concat, List.dropLast_concat, hq]
        rw [dif_pos hboth.1]
        split
        · rfl
        · rename_i hname
          have hplace : follow q d = q ++ [d] := by
            rw [follow, if_neg (fun h => hname (Or.inl h)), if_neg (fun h => hname (Or.inr h))]
          rw [hplace] at hboth
          rw [dif_neg (Option.isSome_iff_ne_none.mp hboth.2)]
      rw [hmkdir]
    · cases hd

/-- What one more name does to the files. -/
structure Follows (s s' : System) (p : Place) (c : Str) (rc : ℤ) : Prop where
  cwd : s'.cwd = s.cwd
  refused : s'.refused = s.refused
  made : (s.tree.kind p = some .dir ∧
    (s.tree.kind (follow p c) = none → s.refused (follow p c) = false)) →
      rc = 0 ∧ s'.tree.kind = withDirs s.tree.kind [follow p c]
  failed : ¬(s.tree.kind p = some .dir ∧
    (s.tree.kind (follow p c) = none → s.refused (follow p c) = false)) →
      rc = IMOUNT_ERR_ERRNO ∧ s'.tree.kind = s.tree.kind

theorem access_of_walk_none (hfront : components front = cs)
    (hwalk : walk s.tree (start s front) cs = none) : access s front = false := by
  rw [access, hfront, hwalk]
  simp

theorem mkdirIfNone_follows (hfront : components front = cs ++ [c])
    (hwalk : walk s.tree (start s front) cs = some p) (h : mkdirIfNone s front = (s', rc)) :
    Follows s s' p c rc := by
  have hall : ¬front.all (fun b => b = sep) = true := by
    rw [← components_eq_nil_iff, hfront]
    simp
  have hmkdir : mkdir s front =
      if hdir : s.tree.kind p = some .dir then
        if c = dot ∨ c = dotDot then (s, .eexist)
        else if hfree : s.tree.kind (p ++ [c]) = none then
          if s.refused (p ++ [c]) then (s, .other) else (s.add p c hdir hfree, .ok)
        else (s, .eexist)
      else (s, .other) := by
    unfold mkdir
    simp only [hfront, List.getLast?_concat, List.dropLast_concat, hwalk]
  have hnext : walk s.tree (start s front) (cs ++ [c]) =
      if s.tree.kind p = some .dir ∧ (s.tree.kind (follow p c)).isSome then some (follow p c)
      else none := by
    rw [walk_concat, hwalk]
    rfl
  by_cases hdir : s.tree.kind p = some .dir
  · by_cases hfree : s.tree.kind (follow p c) = none
    · obtain ⟨hdot, hdotDot, hplace⟩ := follow_of_free hdir hfree
      rw [if_neg (by simp [hfree])] at hnext
      rw [hplace] at hfree
      rw [mkdirIfNone, access_of_walk_none hfront hnext, if_neg (by simp), if_neg hall, hmkdir,
        dif_pos hdir, if_neg (by simp [hdot, hdotDot]), dif_pos hfree] at h
      cases hrefused : s.refused (p ++ [c]) with
      | true =>
        rw [hrefused, if_pos rfl] at h
        cases h
        exact ⟨rfl, rfl, by simp [hplace, hfree, hrefused], fun _ => ⟨rfl, rfl⟩⟩
      | false =>
        rw [hrefused, if_neg (by simp)] at h
        cases h
        refine ⟨rfl, rfl, ?_, by simp [hplace, hdir, hrefused]⟩
        rw [hplace, withDirs_of_none hfree]
        exact fun _ => ⟨rfl, rfl⟩
    · have hsame : mkdirIfNone s front = (s, 0) :=
        mkdirIfNone_walked hfront (by rw [hnext, if_pos ⟨hdir, Option.isSome_iff_ne_none.mpr hfree⟩])
      rw [hsame] at h
      cases h
      exact ⟨rfl, rfl, fun _ => ⟨rfl, (withDirs_of_some hfree).symm⟩, by simp [hdir, hfree]⟩
  · rw [if_neg (by simp [hdir])] at hnext
    rw [mkdirIfNone, access_of_walk_none hfront hnext, if_neg (by simp), if_neg hall, hmkdir,
      dif_neg hdir] at h
    cases h
    exact ⟨rfl, rfl, by simp [hdir], fun _ => ⟨rfl, rfl⟩⟩

theorem withDirs_mono {kind : Place → Option Kind} {ps : List Place} (q : Place) (k : Kind)
    (h : kind q = some k) : withDirs kind ps q = some k := by
  rw [withDirs, if_neg (by simp [h]), h]

/-- One call of the loop: the text in front ends in the names that were followed and perhaps one
more. -/
structure Visits (s s' : System) (root p p' : Place) (cs : List Str) (part : Str) (rc : ℤ) :
    Prop where
  cwd : s'.cwd = s.cwd
  refused : s'.refused = s.refused
  grows : ∀ ds, grow s.refused s.tree.kind p (components part ++ ds) =
    if rc = 0 then grow s.refused s'.tree.kind p' ds else (s'.tree.kind, false)
  walked : rc = 0 → walk s'.tree root (cs ++ components part) = some p'

theorem mkdirIfNone_visits (hpart : sep ∉ part) (hfront : components front = cs ++ components part)
    (hroot : front ≠ [] → start s front = root) (hwalk : walk s.tree root cs = some p)
    (h : mkdirIfNone s front = (s', rc)) : ∃ p', Visits s s' root p p' cs part rc := by
  by_cases hpartNil : part = []
  · have hnone : components part = [] := by rw [hpartNil]; rfl
    have hsame : mkdirIfNone s front = (s, 0) := by
      by_cases hfrontNil : front = []
      · rw [hfrontNil]
        simp [mkdirIfNone, access]
      · rw [hnone, List.append_nil] at hfront
        apply mkdirIfNone_walked hfront
        rw [hroot hfrontNil]
        exact hwalk
    rw [hsame] at h
    cases h
    refine ⟨p, rfl, rfl, fun ds => ?_, fun _ => ?_⟩
    · rw [hnone, if_pos rfl]
      rfl
    · rw [hnone, List.append_nil]
      exact hwalk
  · have hone : components part = [part] := by
      rw [components_segment hpart, if_neg hpartNil]
    have hfrontNil : front ≠ [] := by
      intro hnil
      rw [hnil, hone] at hfront
      have hlen := congrArg List.length hfront
      simp [components] at hlen
    rw [hone] at hfront
    have hfollows := mkdirIfNone_follows hfront (by rw [hroot hfrontNil]; exact hwalk) h
    refine ⟨follow p part, hfollows.cwd, hfollows.refused, fun ds => ?_, fun hrc => ?_⟩
    · rw [hone, List.singleton_append, grow]
      split
      · rename_i hgo
        rw [if_pos (hfollows.made hgo).1, (hfollows.made hgo).2]
      · rename_i hstop
        rw [if_neg (by rw [(hfollows.failed hstop).1]; decide), (hfollows.failed hstop).2]
    · have hgo := Classical.not_not.mp (fun hstop => by
        have hfail := (hfollows.failed hstop).1
        rw [hrc] at hfail
        exact absurd hfail (by decide))
      have hkind := (hfollows.made hgo).2
      have hkept : walk s'.tree root cs = some p := by
        apply walk_mono _ hwalk
        intro q k hq
        rw [hkind]
        exact withDirs_mono q k hq
      rw [hone, walk_concat, hkept, Option.bind_some, hkind, if_pos]
      constructor
      · exact withDirs_mono p _ hgo.1
      · rw [withDirs]
        split
        · rfl
        · rename_i hsome
          cases hq : s.tree.kind (follow p part) with
          | none => exact absurd ⟨hq, List.mem_singleton.mpr rfl⟩ hsome
          | some k => rfl

theorem start_append (hfront : front ≠ []) : start s (front ++ rest) = start s front := by
  cases front with
  | nil => exact absurd rfl hfront
  | cons b front => rfl

/-- The loop follows the names that are left; the path up to the last slash has been walked. -/
theorem mkdirChainFrom_grow {l : Str} (hl : ∀ more, components (l ++ more) = cs ++ components more)
    (hpart : sep ∉ part) (hroot : start s (l ++ part ++ rest) = root)
    (hwalk : walk s.tree root cs = some p) (h : mkdirChainFrom s (l ++ part) rest = (s', rc)) :
    s'.cwd = s.cwd ∧ s'.refused = s.refused ∧
      grow s.refused s.tree.kind p (components (part ++ rest)) = (s'.tree.kind, decide (rc = 0)) := by
  induction rest generalizing s l part cs p with
  | nil =>
    rw [mkdirChainFrom] at h
    rw [List.append_nil] at hroot ⊢
    have hcall : ∃ p', Visits s (mkdirIfNone s (l ++ part)).1 root p p' cs part
        (mkdirIfNone s (l ++ part)).2 :=
      mkdirIfNone_visits hpart (hl part) (fun _ => hroot) hwalk rfl
    obtain ⟨p', hvisits⟩ := hcall
    have hgrow := hvisits.grows []
    rw [List.append_nil] at hgrow
    rw [hgrow]
    cases h
    refine ⟨hvisits.cwd, hvisits.refused, ?_⟩
    by_cases hrc : (mkdirIfNone s (l ++ part)).2 = 0
    · rw [if_pos hrc, if_neg (by simp [hrc])]
      rfl
    · rw [if_neg hrc, if_pos hrc]
      rfl
  | cons b rest ih =>
    rw [mkdirChainFrom] at h
    by_cases hb : b = sep
    · subst hb
      rw [if_pos rfl] at h
      have hfrontRoot : l ++ part ≠ [] → start s (l ++ part) = root := by
        intro hne
        rw [← hroot, start_append hne]
      have hcall : ∃ p', Visits s (mkdirIfNone s (l ++ part)).1 root p p' cs part
          (mkdirIfNone s (l ++ part)).2 :=
        mkdirIfNone_visits hpart (hl part) hfrontRoot hwalk rfl
      obtain ⟨p', hvisits⟩ := hcall
      have hgrow := hvisits.grows (components rest)
      rw [components_append, hgrow]
      by_cases hrc : (mkdirIfNone s (l ++ part)).2 = 0
      · have hl' : ∀ more, components (l ++ part ++ [sep] ++ more) =
            (cs ++ components part) ++ components more := by
          intro more
          have hmore : l ++ part ++ [sep] ++ more = l ++ (part ++ sep :: more) := by simp
          rw [hmore, hl, components_append, List.append_assoc]
        have hroot' : start (mkdirIfNone s (l ++ part)).1 (l ++ part ++ [sep] ++ [] ++ rest) =
            root := by
          have hpath : l ++ part ++ [sep] ++ [] ++ rest = l ++ part ++ sep :: rest := by simp
          rw [hpath, start, hvisits.cwd]
          exact hroot
        have hrest : mkdirChainFrom (mkdirIfNone s (l ++ part)).1 (l ++ part ++ [sep] ++ []) rest =
            (s', rc) := by
          rw [List.append_nil, ← h]
          exact (if_neg (by simp [hrc])).symm
        have hind := ih hl' (by simp) hroot' (hvisits.walked hrc) hrest
        rw [hvisits.cwd, hvisits.refused] at hind
        rw [if_pos hrc]
        exact hind
      · dsimp only at h
        rw [if_pos hrc] at h
        cases h
        rw [if_neg hrc]
        exact ⟨hvisits.cwd, hvisits.refused, rfl⟩
    · rw [if_neg hb, List.append_assoc] at h
      have hcons : part ++ b :: rest = (part ++ [b]) ++ rest := by simp
      have hpath : l ++ part ++ b :: rest = l ++ (part ++ [b]) ++ rest := by simp
      rw [hcons]
      rw [hpath] at hroot
      exact ih hl (by simp [hpart, Ne.symm hb]) hroot hwalk h

end Calls

section Growth

variable {refused : Place → Bool} {kind : Place → Option Kind} {p : Place} {cs : List Str}

theorem withDirs_nil : withDirs kind [] = kind := by
  funext r
  rw [withDirs, if_neg (by simp)]

theorem withDirs_cons (q : Place) (qs : List Place) :
    withDirs (withDirs kind [q]) qs = withDirs kind (q :: qs) := by
  funext r
  by_cases hr : kind r = none
  · by_cases hq : r = q
    · subst hq
      simp [withDirs, hr]
    · simp [withDirs, hr, hq]
  · simp [withDirs, hr]

theorem withDirs_eq_file {q r : Place} {x : Bool} :
    withDirs kind [q] r = some (.file x) ↔ kind r = some (.file x) := by
  rw [withDirs]
  split
  · rename_i hr
    simp [hr.1]
  · rfl

theorem withDirs_eq_none {q r : Place} : withDirs kind [q] r = none ↔ kind r = none ∧ r ≠ q := by
  rw [withDirs]
  split
  · rename_i hr
    simp [List.mem_singleton.mp hr.2]
  · rename_i hr
    constructor
    · intro hnone
      exact ⟨hnone, fun hq => hr ⟨hnone, List.mem_singleton.mpr hq⟩⟩
    · exact fun hnone => hnone.1

/-- `grow` makes the missing directories up to the first name it cannot follow. -/
theorem grow_spec (hp : kind p ≠ none) :
    ((grow refused kind p cs).2 = true ↔
      (∀ q ∈ (p :: trail p cs).dropLast, ∀ x, kind q ≠ some (.file x)) ∧
      ∀ q ∈ trail p cs, kind q = none → refused q = false) ∧
    ∃ k, (grow refused kind p cs).1 = withDirs kind ((trail p cs).take k) ∧
      ((grow refused kind p cs).2 = true → k = (trail p cs).length) := by
  induction cs generalizing kind p with
  | nil =>
    refine ⟨?_, 0, withDirs_nil.symm, fun _ => rfl⟩
    simp [grow, trail]
  | cons c cs ih =>
    rw [grow, trail, List.dropLast_cons_cons]
    split
    · rename_i hgo
      have hq : withDirs kind [follow p c] (follow p c) ≠ none := by
        rw [Ne, withDirs_eq_none]
        simp
      obtain ⟨hpass, k, hkind, hk⟩ := @ih (withDirs kind [follow p c]) (follow p c) hq
      constructor
      · rw [hpass]
        simp only [withDirs_eq_file, withDirs_eq_none, List.mem_cons, forall_eq_or_imp, ne_eq]
        constructor
        · intro ⟨hfile, hfree⟩
          refine ⟨⟨by simp [hgo.1], hfile⟩, hgo.2, ?_⟩
          intro r hr hnone
          by_cases heq : r = follow p c
          · rw [heq] at hnone ⊢
            exact hgo.2 hnone
          · exact hfree r hr ⟨hnone, heq⟩
        · intro ⟨hfile, hfree⟩
          exact ⟨hfile.2, fun r hr hnone => hfree.2 r hr hnone.1⟩
      · refine ⟨k + 1, ?_, ?_⟩
        · rw [hkind, withDirs_cons, List.take_succ_cons]
        · intro hok
          rw [hk hok, List.length_cons]
    · rename_i hstop
      constructor
      · simp only [Bool.false_eq_true, false_iff]
        intro ⟨hfile, hfree⟩
        apply hstop
        constructor
        · cases hkind : kind p with
          | none => exact absurd hkind hp
          | some k =>
            cases k with
            | dir => rfl
            | file x => exact absurd hkind (hfile p List.mem_cons_self x)
        · exact hfree (follow p c) List.mem_cons_self
      · exact ⟨0, withDirs_nil.symm, fun h => by cases h⟩

end Growth

section Chain

variable (s : System) (path : Str)

theorem start_isDir : s.tree.kind (start s path) = some .dir := by
  unfold start
  split
  · exact s.tree.root
  · exact s.cwdDir

theorem mkdirChain_grow : (mkdirChain s path).1.cwd = s.cwd ∧
    grow s.refused s.tree.kind (start s path) (components path) =
      ((mkdirChain s path).1.tree.kind, decide ((mkdirChain s path).2 = 0)) := by
  have hwalk : walk s.tree (start s path) [] = some (start s path) := by
    rw [walk, start_isDir]
    rfl
  have hgrow := @mkdirChainFrom_grow s (mkdirChain s path).1 (start s path) (start s path) [] path []
    (mkdirChain s path).2 [] (fun _ => rfl) (by simp) rfl hwalk rfl
  rw [List.nil_append] at hgrow
  exact ⟨hgrow.1, hgrow.2.2⟩

theorem mkdirChain_passable : ((mkdirChain s path).2 = 0 ↔ Passable s path) ∧
    ∃ k, (mkdirChain s path).1.tree.kind =
        withDirs s.tree.kind ((trail (start s path) (components path)).take k) ∧
      ((mkdirChain s path).2 = 0 → k = (trail (start s path) (components path)).length) := by
  have hroot := start_isDir s path
  have hspec := @grow_spec s.refused s.tree.kind (start s path) (components path) (by simp [hroot])
  rw [(mkdirChain_grow s path).2] at hspec
  simp only [decide_eq_true_eq] at hspec
  refine ⟨?_, hspec.2⟩
  rw [hspec.1, Passable]
  cases htrail : trail (start s path) (components path) with
  | nil => simp
  | cons q qs =>
    rw [List.dropLast_cons_cons]
    simp [hroot]

theorem withDirs_of_all {kind : Place → Option Kind} {qs : List Place}
    (h : ∀ q ∈ qs, kind q ≠ none) : withDirs kind qs = kind := by
  funext r
  rw [withDirs, if_neg]
  intro ⟨hnone, hr⟩
  exact h r hr hnone

/-- `mkdirChain` succeeds exactly when nothing stands in the way. It makes directories only, only
where there was nothing and only on the path, and all of them when it succeeds. Another call then
succeeds too and makes nothing. -/
theorem mkdirChain_spec :
    ((mkdirChain s path).2 = 0 ↔ Passable s path) ∧
    (∃ k, (mkdirChain s path).1.tree.kind =
        withDirs s.tree.kind ((trail (start s path) (components path)).take k) ∧
      ((mkdirChain s path).2 = 0 → k = (trail (start s path) (components path)).length)) ∧
    ((mkdirChain s path).2 = 0 → (mkdirChain (mkdirChain s path).1 path).2 = 0 ∧
      (mkdirChain (mkdirChain s path).1 path).1.tree.kind = (mkdirChain s path).1.tree.kind) := by
  obtain ⟨hpass, k, hkind, hk⟩ := mkdirChain_passable s path
  refine ⟨hpass, ⟨k, hkind, hk⟩, ?_⟩
  intro hrc
  rw [hk hrc, List.take_length] at hkind
  have hstart : start (mkdirChain s path).1 path = start s path := by
    rw [start, (mkdirChain_grow s path).1]
    rfl
  have hthere : ∀ q ∈ trail (start s path) (components path),
      (mkdirChain s path).1.tree.kind q ≠ none := by
    intro q hq hnone
    rw [hkind, withDirs] at hnone
    split at hnone
    · cases hnone
    · rename_i hold
      exact hold ⟨hnone, hq⟩
  have hagain : Passable (mkdirChain s path).1 path := by
    unfold Passable
    rw [hstart]
    constructor
    · intro q hq x hfile
      rw [hkind, withDirs] at hfile
      split at hfile
      · cases hfile
      · exact (hpass.mp hrc).1 q hq x hfile
    · intro q hq hnone
      exact absurd hnone (hthere q hq)
  obtain ⟨hpass', j, hkind', -⟩ := mkdirChain_passable (mkdirChain s path).1 path
  refine ⟨hpass'.mpr hagain, ?_⟩
  rw [hkind', hstart]
  exact withDirs_of_all (fun q hq => hthere q (List.mem_of_mem_take hq))

end Chain

end Comodoo.MakeDirectories
