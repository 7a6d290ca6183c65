import Mathlib.Data.List.TakeDrop
import Comodoo.CopyFile

set_option autoImplicit false

/-!
# Copies of directories

`copyDirectory` of `stage-1/copy.c`. A source tree is given with what the calls for its entries
return.
-/
namespace Comodoo.CopyDirectory
open CString CopyFile

/-- `sizeof(filespec)`. -/
abbrev FILESPEC : ℕ := 256

/-- `sizeof(link) - 1`. -/
abbrev LINK : ℕ := 1023

/-- Whether the source can be opened and the destination created, and what the reads and writes
return. -/
structure FileAnswers where
  opens : Bool
  creates : Bool
  rounds : ℕ → Round

structure LinkAnswers where
  reads : Bool
  makes : Bool
  deriving DecidableEq, Repr

/-- Whether a directory stands at the destination after `mkdir`, and whether the source opens. -/
structure DirAnswers where
  made : Bool
  opens : Bool
  deriving DecidableEq, Repr

/-- The entries that `readdir` gives. It may fail with entries left. What is no directory and no
link is copied like a regular file. -/
inductive Entries where
  | nil
  | lost (rest : Entries)
  | file (regular : Bool) (name : Str) (a : FileAnswers) (content : Str) (rest : Entries)
  | link (name : Str) (a : LinkAnswers) (target : Str) (rest : Entries)
  | dir (name : Str) (a : DirAnswers) (children : Entries) (rest : Entries)

inductive Thing where
  | file (content : Str)
  | link (target : Str)
  | dir
  deriving DecidableEq, Repr

abbrev Made := List (Str × Option Thing)

/-- The return code, whether a function of the caller has been called, and what has been made. -/
structure Outcome where
  rc : ℤ
  reported : Bool
  made : Made
  deriving DecidableEq, Repr

/-- The functions of the caller; each may be NULL. -/
structure Functions where
  warnFn : Bool
  errorFn : Bool
  deriving DecidableEq, Repr

def join (path name : Str) : Str := path ++ ascii "/" ++ name

def fits (source dest : Str) : Bool := source.length < FILESPEC && dest.length < FILESPEC

/-- The bytes that reach the destination. The result of `write` is overwritten by the one of the next
`read`. -/
def copyRounds (rounds : ℕ → Round) (rest written : Str) : Str :=
  match (rounds 0).read with
  | none => written
  | some n =>
    if _hrest : rest = [] then written
    else
      let buf := readBuf n rest
      copyRounds (fun k => rounds (k + 1)) (rest.drop buf.length)
        (written ++ buf.take ((rounds 0).write.getD 0))
termination_by rest.length
decreasing_by
  have hpos : 0 < (readBuf n rest).length := readBuf_pos _hrest
  have hlen : (readBuf n rest).length ≤ rest.length := List.length_take_le' _ _
  rw [List.length_drop]
  omega

def ifRegular (regular : Bool) (made : Made) : Made := if regular then made else []

def copyEntry (f : Functions) (regular : Bool) (dest : Str) (a : FileAnswers) (content : Str) :
    Outcome :=
  if !a.opens then ⟨1, f.errorFn, []⟩
  else if !a.creates then ⟨0, f.warnFn, ifRegular regular [(dest, none)]⟩
  else ⟨0, false, ifRegular regular [(dest, some (.file (copyRounds a.rounds content [])))]⟩

/-- When `readlink` fails, the NUL goes in front of the buffer. -/
def copyLink (f : Functions) (dest : Str) (a : LinkAnswers) (target : Str) : Option Outcome :=
  if !a.reads then none
  else if !a.makes then some ⟨0, f.warnFn, [(dest, none)]⟩
  else some ⟨0, false, [(dest, some (.link (target.take LINK)))]⟩

def madeDir (dest : Str) (a : DirAnswers) : Made := [(dest, if a.made then some .dir else none)]

/-- The beginning of `copyDirectory`; `inside` is what its loop does. -/
def enter (f : Functions) (dest : Str) (a : DirAnswers) (inside : Option Outcome) :
    Option Outcome :=
  if !a.opens then some ⟨1, f.errorFn, madeDir dest a⟩
  else inside.map (fun o => { o with made := madeDir dest a ++ o.made })

/-- The loop goes on behind an entry unless that has failed. -/
def andThen (o : Outcome) (next : Option Outcome) : Option Outcome :=
  if o.rc ≠ 0 then some o
  else next.map (fun n => ⟨n.rc, o.reported || n.reported, o.made ++ n.made⟩)

/-- The loop; `none` when a path does not fit or a link cannot be read. -/
def copyEntries (f : Functions) (source dest : Str) : Entries → Option Outcome
  | .nil => some ⟨0, false, []⟩
  | .lost _ => some ⟨0, false, []⟩
  | .file regular name a content rest =>
    if fits (join source name) (join dest name) then
      andThen (copyEntry f regular (join dest name) a content) (copyEntries f source dest rest)
    else none
  | .link name a target rest =>
    if fits (join source name) (join dest name) then
      (copyLink f (join dest name) a target).bind fun o => andThen o (copyEntries f source dest rest)
    else none
  | .dir name a children rest =>
    if fits (join source name) (join dest name) then
      (enter f (join dest name) a (copyEntries f (join source name) (join dest name) children)).bind
        fun o => andThen o (copyEntries f source dest rest)
    else none

def copyDirectory (f : Functions) (source dest : Str) (a : DirAnswers) (entries : Entries) :
    Option Outcome :=
  enter f dest a (copyEntries f source dest entries)

/-! ## What is asked of it -/

def wanted (dest : Str) : Entries → Made
  | .nil => []
  | .lost rest => wanted dest rest
  | .file regular name _ content rest =>
    ifRegular regular [(join dest name, some (.file content))] ++ wanted dest rest
  | .link name _ target rest => (join dest name, some (.link target)) :: wanted dest rest
  | .dir name _ children rest =>
    (join dest name, some .dir) :: (wanted (join dest name) children ++ wanted dest rest)

/-- The paths fit their buffers, and a copy that reports nothing is a whole one. -/
def CopyRight (f : Functions) (source dest : Str) (a : DirAnswers) (entries : Entries) : Prop :=
  ∃ o, copyDirectory f source dest a entries = some o ∧
    (o.rc = 0 → o.reported = false → o.made = (dest, some .dir) :: wanted dest entries)

def whole (rounds : ℕ → Round) (rest : Str) : Bool :=
  if _hrest : rest = [] then true
  else
    match (rounds 0).read, (rounds 0).write with
    | some n, some m =>
      (readBuf n rest).length ≤ m &&
        whole (fun k => rounds (k + 1)) (rest.drop (readBuf n rest).length)
    | _, _ => false
termination_by rest.length
decreasing_by
  have hpos : 0 < (readBuf n rest).length := readBuf_pos _hrest
  have hlen : (readBuf n rest).length ≤ rest.length := List.length_take_le' _ _
  rw [List.length_drop]
  omega

def fails : Entries → Bool
  | .nil => false
  | .lost _ => false
  | .file _ _ a _ rest => !a.opens || fails rest
  | .link _ _ _ rest => fails rest
  | .dir _ a children rest => !a.opens || fails children || fails rest

def unmade : Entries → Bool
  | .nil => false
  | .lost _ => false
  | .file _ _ a _ rest => !a.creates || unmade rest
  | .link _ a _ rest => !a.makes || unmade rest
  | .dir _ _ children rest => unmade children || unmade rest

/-- Until the run ends, every path fits and every link can be read. -/
def safe (source dest : Str) : Entries → Bool
  | .nil => true
  | .lost _ => true
  | .file _ name a _ rest =>
    fits (join source name) (join dest name) && (!a.opens || safe source dest rest)
  | .link name a _ rest =>
    fits (join source name) (join dest name) && a.reads && safe source dest rest
  | .dir name a children rest =>
    fits (join source name) (join dest name) &&
      (!a.opens || (safe (join source name) (join dest name) children &&
        (fails children || safe source dest rest)))

/-- Every entry is read and made as a whole. -/
def clean : Entries → Bool
  | .nil => true
  | .lost rest => wanted [] rest = []
  | .file regular _ a content rest => (!regular || (a.creates && whole a.rounds content)) && clean rest
  | .link _ a target rest => a.makes && target.length ≤ LINK && clean rest
  | .dir _ a children rest => a.made && clean children && clean rest

/-- The run stays inside its buffers; and it fails, or warns, or nothing goes wrong. -/
def Noticed (f : Functions) (source dest : Str) (a : DirAnswers) (entries : Entries) : Prop :=
  a.opens = false ∨ (safe source dest entries = true ∧ (fails entries = true ∨
    (f.warnFn = true ∧ unmade entries = true) ∨ (a.made = true ∧ clean entries = true)))

section Rounds
variable {α : Type} {x x' y y' : List α} {rest : Str} {rounds : ℕ → Round} {n m : ℕ}

theorem append_eq_append_iff_of_le (hx : x.length ≤ y.length) (hx' : x'.length ≤ y'.length) :
    x ++ x' = y ++ y' ↔ x = y ∧ x' = y' := by
  refine ⟨fun h => ?_, fun h => by rw [h.1, h.2]⟩
  have hlen := congrArg List.length h
  rw [List.length_append, List.length_append] at hlen
  exact List.append_inj h (by omega)

theorem whole_nil (rounds : ℕ → Round) : whole rounds [] = true := by
  rw [whole, dif_pos rfl]

theorem whole_eq (hrest : rest ≠ []) (hread : (rounds 0).read = some n)
    (hwrite : (rounds 0).write = some m) :
    whole rounds rest = (decide ((readBuf n rest).length ≤ m) &&
      whole (fun k => rounds (k + 1)) (rest.drop (readBuf n rest).length)) := by
  rw [whole, dif_neg hrest, hread, hwrite]

theorem whole_none (hrest : rest ≠ []) (hwrite : (rounds 0).write = none) :
    whole rounds rest = false := by
  rw [whole, dif_neg hrest, hwrite]
  cases (rounds 0).read <;> rfl

/-- What reaches the destination is as long as the source only if nothing was lost. -/
theorem copyRounds_eq (rounds : ℕ → Round) (rest written : Str) :
    ∃ x, copyRounds rounds rest written = written ++ x ∧ x.length ≤ rest.length ∧
      (x = rest ↔ whole rounds rest = true) := by
  fun_induction copyRounds rounds rest written with
  | case1 rounds rest written hread =>
    refine ⟨[], (List.append_nil _).symm, Nat.zero_le _, ?_⟩
    by_cases hrest : rest = []
    · rw [hrest, whole_nil]
      exact iff_of_true rfl rfl
    · rw [whole, dif_neg hrest, hread]
      exact iff_of_false (Ne.symm hrest) Bool.false_ne_true
  | case2 rounds written n hread =>
    exact ⟨[], (List.append_nil _).symm, le_rfl, iff_of_true rfl (whole_nil rounds)⟩
  | case3 rounds rest written n hread hrest buf ih =>
    obtain ⟨x, heq, hlen, hx⟩ := ih
    have hbuf : buf ++ rest.drop buf.length = rest := readBuf_append n rest
    have hpos : 0 < buf.length := readBuf_pos hrest
    refine ⟨buf.take ((rounds 0).write.getD 0) ++ x, by rw [heq, List.append_assoc], ?_, ?_⟩
    · rw [← hbuf, List.length_append, List.length_append]
      exact Nat.add_le_add (List.length_take_le' _ _) hlen
    · conv_lhs => rw [← hbuf]
      rw [append_eq_append_iff_of_le (List.length_take_le' _ _) hlen, hx, List.take_eq_self_iff]
      cases hwrite : (rounds 0).write with
      | none =>
        rw [whole_none hrest hwrite]
        refine iff_of_false (fun h => ?_) Bool.false_ne_true
        have hzero : buf.length ≤ 0 := h.1
        omega
      | some m =>
        rw [whole_eq hrest hread hwrite, Bool.and_eq_true, decide_eq_true_iff]
        rfl

end Rounds

section Run
variable {f : Functions} {source dest : Str} {o : Outcome}

theorem wanted_eq_nil_iff (dest dest' : Str) (entries : Entries) :
    wanted dest entries = [] ↔ wanted dest' entries = [] := by
  induction entries with
  | nil => exact Iff.rfl
  | lost rest ih => exact ih
  | file regular name a content rest ih =>
    rw [wanted, wanted, List.append_eq_nil_iff, List.append_eq_nil_iff, ih]
    cases regular <;> simp [ifRegular]
  | link name a target rest ih => simp [wanted]
  | dir name a children rest ihc ih => simp [wanted]

/-- How a part of the run ends that stays inside its buffers: whether it fails, whether something is
not made, what is wanted of it, and whether nothing goes wrong. -/
structure Ends (f : Functions) (fails unmade : Bool) (want : Made) (clean : Bool) (o : Outcome) :
    Prop where
  rc_ne : fails = true → o.rc ≠ 0
  rc_eq : fails = false → o.rc = 0
  report : fails = false → o.reported = (f.warnFn && unmade)
  length_le : fails = false → o.made.length ≤ want.length
  made_iff : fails = false → (o.made = want ↔ clean = true)

theorem andThen_ends {b b' u u' c c' : Bool} {w w' : Made} {next : Option Outcome}
    (h : Ends f b u w c o) (hnext : b = false → ∃ n, next = some n ∧ Ends f b' u' w' c' n) :
    ∃ o', andThen o next = some o' ∧ Ends f (b || b') (u || u') (w ++ w') (c && c') o' := by
  cases b with
  | true =>
    refine ⟨o, if_pos (h.rc_ne rfl), ?_⟩
    constructor <;> simp [h.rc_ne rfl]
  | false =>
    obtain ⟨n, rfl, hn⟩ := hnext rfl
    refine ⟨⟨n.rc, o.reported || n.reported, o.made ++ n.made⟩, ?_, ?_⟩
    · rw [andThen, if_neg (not_not_intro (h.rc_eq rfl))]
      rfl
    · rw [Bool.false_or]
      constructor
      · exact hn.rc_ne
      · exact hn.rc_eq
      · intro hb
        dsimp only
        rw [h.report rfl, hn.report hb, Bool.and_or_distrib_left]
      · intro hb
        dsimp only
        rw [List.length_append, List.length_append]
        exact Nat.add_le_add (h.length_le rfl) (hn.length_le hb)
      · intro hb
        dsimp only
        rw [append_eq_append_iff_of_le (h.length_le rfl) (hn.length_le hb), h.made_iff rfl,
          hn.made_iff hb, Bool.and_eq_true]

theorem copyEntry_ends (f : Functions) (regular : Bool) (dest : Str) (a : FileAnswers)
    (content : Str) :
    Ends f (!a.opens) (!a.creates) (ifRegular regular [(dest, some (.file content))])
      (!regular || (a.creates && whole a.rounds content)) (copyEntry f regular dest a content) := by
  obtain ⟨x, heq, -, hx⟩ := copyRounds_eq a.rounds content []
  rw [List.nil_append] at heq
  unfold copyEntry
  cases a.opens with
  | false => constructor <;> simp
  | true =>
    cases a.creates with
    | false => cases regular <;> constructor <;> simp [ifRegular]
    | true =>
      rw [heq]
      cases regular with
      | false => constructor <;> simp [ifRegular]
      | true => constructor <;> simp [ifRegular, hx]

/-- What a part of the run comes to: nothing if it leaves its buffers, and else an end. -/
def Comes (f : Functions) (safe fails unmade : Bool) (want : Made) (clean : Bool)
    (run : Option Outcome) : Prop :=
  (safe = false → run = none) ∧
    (safe = true → ∃ o, run = some o ∧ Ends f fails unmade want clean o)

section Parts
variable {s s' b b' u u' c c' : Bool} {w w' : Made} {run next : Option Outcome}

theorem Ends.comes (h : Ends f b u w c o) : Comes f true b u w c (some o) :=
  ⟨fun hs => (by cases hs), fun _ => ⟨o, rfl, h⟩⟩

theorem Comes.guard (p : Bool) (h : Comes f s b u w c run) :
    Comes f (p && s) b u w c (if p then run else none) := by
  cases p with
  | false => exact ⟨fun _ => rfl, fun hs => (by cases hs)⟩
  | true => exact h

theorem Comes.bind (h : Comes f s b u w c run) (h' : Comes f s' b' u' w' c' next) :
    Comes f (s && (b || s')) (b || b') (u || u') (w ++ w') (c && c')
      (run.bind fun o => andThen o next) := by
  cases s with
  | false =>
    rw [h.1 rfl]
    exact ⟨fun _ => rfl, fun hs => (by cases hs)⟩
  | true =>
    obtain ⟨o, rfl, hends⟩ := h.2 rfl
    rw [Option.bind_some, Bool.true_and]
    cases b with
    | true => exact ⟨fun hs => (by cases hs), fun _ => andThen_ends hends fun hb => (by cases hb)⟩
    | false =>
      rw [Bool.false_or]
      refine ⟨fun hs => ?_, fun hs => andThen_ends hends fun _ => h'.2 hs⟩
      rw [andThen, if_neg (not_not_intro (hends.rc_eq rfl)), h'.1 hs]
      rfl

theorem copyLink_comes (f : Functions) (dest : Str) (a : LinkAnswers) (target : Str) :
    Comes f a.reads false (!a.makes) [(dest, some (.link target))]
      (a.makes && target.length ≤ LINK) (copyLink f dest a target) := by
  unfold copyLink
  cases a.reads with
  | false => exact ⟨fun _ => rfl, fun hs => (by cases hs)⟩
  | true =>
    cases a.makes with
    | false =>
      refine Ends.comes ?_
      constructor <;> simp
    | true =>
      refine Ends.comes ?_
      constructor <;> simp

theorem enter_comes (dest : Str) (a : DirAnswers) (h : Comes f s b u w c run) :
    Comes f (!a.opens || s) (!a.opens || b) u ((dest, some .dir) :: w) (a.made && c)
      (enter f dest a run) := by
  unfold enter
  cases a.opens with
  | false =>
    refine Ends.comes ?_
    constructor <;> simp
  | true =>
    rw [Bool.not_true, Bool.false_or, Bool.false_or, if_neg Bool.false_ne_true]
    refine ⟨fun hs => by rw [h.1 hs]; rfl, fun hs => ?_⟩
    obtain ⟨n, rfl, hn⟩ := h.2 hs
    refine ⟨_, rfl, hn.rc_ne, hn.rc_eq, hn.report, ?_, ?_⟩
    · intro hb
      exact Nat.succ_le_succ (hn.length_le hb)
    · intro hb
      have hmade := hn.made_iff hb
      cases ha : a.made <;> simp [madeDir, ha, hmade]

/-- A part that reports nothing has made all that is wanted unless something is lost. -/
theorem Comes.right_iff (h : Comes f s b u w c run) :
    (∃ o, run = some o ∧ (o.rc = 0 → o.reported = false → o.made = w)) ↔
      s = true ∧ (b = true ∨ (f.warnFn = true ∧ u = true) ∨ c = true) := by
  cases s with
  | false =>
    rw [h.1 rfl]
    simp
  | true =>
    obtain ⟨o, rfl, hends⟩ := h.2 rfl
    simp only [Option.some.injEq, exists_eq_left', true_and]
    cases b with
    | true => exact iff_of_true (fun hrc => absurd hrc (hends.rc_ne rfl)) (Or.inl rfl)
    | false =>
      rw [hends.rc_eq rfl, hends.report rfl, hends.made_iff rfl]
      cases f.warnFn <;> cases u <;> simp

end Parts

/-- A path that does not fit or a link that cannot be read ends the run outside of its buffers. -/
theorem copyEntries_comes (f : Functions) (entries : Entries) (source dest : Str) :
    Comes f (safe source dest entries) (fails entries) (unmade entries) (wanted dest entries)
      (clean entries) (copyEntries f source dest entries) := by
  induction entries generalizing source dest with
  | nil =>
    refine Ends.comes ?_
    constructor <;> simp [fails, unmade, wanted, clean]
  | lost rest ih =>
    refine Ends.comes ?_
    constructor
    · simp [fails]
    · simp
    · simp [unmade]
    · simp
    · intro _
      rw [wanted, clean, decide_eq_true_iff, wanted_eq_nil_iff [] dest]
      exact eq_comm
  | file regular name a content rest ih =>
    have hentry := copyEntry_ends f regular (join dest name) a content
    rw [copyEntries]
    exact (hentry.comes.bind (ih source dest)).guard _
  | link name a target rest ih =>
    have hentry := copyLink_comes f (join dest name) a target
    rw [copyEntries, safe, Bool.and_assoc]
    exact (hentry.bind (ih source dest)).guard _
  | dir name a children rest ihc ih =>
    have hentry := enter_comes (join dest name) a (ihc (join source name) (join dest name))
    have hboth := (hentry.bind (ih source dest)).guard (fits (join source name) (join dest name))
    rw [Bool.or_assoc (!a.opens), ← Bool.or_and_distrib_left] at hboth
    rw [copyEntries, safe]
    exact hboth

theorem copyDirectory_comes (f : Functions) (source dest : Str) (a : DirAnswers)
    (entries : Entries) :
    Comes f (!a.opens || safe source dest entries) (!a.opens || fails entries) (unmade entries)
      ((dest, some .dir) :: wanted dest entries) (a.made && clean entries)
      (copyDirectory f source dest a entries) :=
  enter_comes dest a (copyEntries_comes f entries source dest)

/-- Failures that the code does not look at make a copy that reports nothing. -/
theorem copyDirectory_right_iff (f : Functions) (source dest : Str) (a : DirAnswers)
    (entries : Entries) :
    CopyRight f source dest a entries ↔ Noticed f source dest a entries := by
  rw [CopyRight, (copyDirectory_comes f source dest a entries).right_iff, Noticed]
  cases a.opens with
  | false => simp
  | true => simp

def fullDisk : Entries :=
  .file true (ascii "a") ⟨true, true, fun _ => ⟨some 4096, none⟩⟩ (ascii "x") .nil

theorem copyDirectory_fullDisk :
    ¬ CopyRight ⟨true, true⟩ (ascii "/s") (ascii "/d") ⟨true, true⟩ fullDisk := by
  intro hright
  obtain ⟨-, hfails | ⟨-, hunmade⟩ | hclean⟩ :=
    (copyDirectory_comes ⟨true, true⟩ (ascii "/s") (ascii "/d") ⟨true, true⟩ fullDisk).right_iff.mp
      hright
  · cases hfails
  · cases hunmade
  · have hwhole : whole (fun _ => ⟨some 4096, none⟩) (ascii "x") = false :=
      whole_none (by decide) rfl
    change (true && ((!true || (true && whole (fun _ => ⟨some 4096, none⟩) (ascii "x"))) && true)) =
      true at hclean
    rw [hwhole] at hclean
    cases hclean

end Run
end Comodoo.CopyDirectory
