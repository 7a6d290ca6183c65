import Comodoo.CString

set_option autoImplicit false

/-!
# Copies of files

`copyFileFd` of `loadermisc.c`, and the two that go on with its copy, `copyFileAndLoopbackMount` of
`method.c` and `getFileFromUrl` of `urlinstall.c`.
-/
namespace Comodoo.CopyFile
open CString

abbrev bufSize : ℕ := 4096

/-- How many bytes `read` and `write` take in a round, `none` for an error. -/
structure Round where
  read : Option ℕ
  write : Option ℕ
  deriving DecidableEq, Repr

structure Copy where
  rest : Str
  written : Str
  dest : Str
  deriving DecidableEq, Repr

/-- What `read` puts into the buffer; nothing only at the end of the file. -/
def readBuf (n : ℕ) (rest : Str) : Str := rest.take (min (max n 1) bufSize)

/-- The file is not cut when it is opened. -/
def put (c : Copy) (buf : Str) : Copy :=
  { rest := c.rest,
    written := c.written ++ buf,
    dest := c.dest.take c.written.length ++ buf ++ c.dest.drop (c.written.length + buf.length) }

def advance (c : Copy) (n : ℕ) : Copy := { c with rest := c.rest.drop (readBuf n c.rest).length }

theorem readBuf_pos {n : ℕ} {rest : Str} (h : rest ≠ []) : 0 < (readBuf n rest).length := by
  rw [readBuf, List.length_take]
  have hpos : 0 < rest.length := List.length_pos_iff.mpr h
  have hsize : 0 < bufSize := by decide
  omega

/-- The loop of `copyFileFd` from round `k` on. A read that fails ends it like the end of the
file. -/
def copyLoop (rounds : ℕ → Round) (k : ℕ) (c : Copy) : ℤ × Copy :=
  match (rounds k).read with
  | none => (0, c)
  | some n =>
    if _hrest : c.rest = [] then (0, c)
    else
      match (rounds k).write with
      | none => (1, advance c n)
      | some m =>
        let buf := readBuf n c.rest
        if m < buf.length then (1, put (advance c n) (buf.take m))
        else copyLoop rounds (k + 1) (put (advance c n) buf)
termination_by c.rest.length
decreasing_by
  have hpos : 0 < (readBuf n c.rest).length := readBuf_pos _hrest
  have hlen : (readBuf n c.rest).length ≤ c.rest.length := List.length_take_le' _ _
  change (c.rest.drop (readBuf n c.rest).length).length < c.rest.length
  rw [List.length_drop]
  omega

/-- No read fails in front of the end of the file, and every write takes what was read. -/
def undisturbed (rounds : ℕ → Round) (k : ℕ) (rest : Str) : Bool :=
  if _hrest : rest = [] then true
  else
    match (rounds k).read, (rounds k).write with
    | some n, some m =>
      let buf := readBuf n rest
      buf.length ≤ m && undisturbed rounds (k + 1) (rest.drop buf.length)
    | _, _ => false
termination_by rest.length
decreasing_by
  have hpos : 0 < (readBuf n rest).length := readBuf_pos _hrest
  have hlen : (readBuf n rest).length ≤ rest.length := List.length_take_le' _ _
  rw [List.length_drop]
  omega

/-- What the calls on the two files return, and what stands at the destination before, `none` for no
file. -/
structure Files where
  input : Str
  old : Option Str
  opens : Bool
  rounds : ℕ → Round

def copyFileFd (f : Files) : ℤ × Option Str :=
  if ¬ f.opens then (1, f.old)
  else
    let r := copyLoop f.rounds 0 ⟨f.input, [], f.old.getD []⟩
    (r.1, some r.2.dest)

def writtenBy (f : Files) : Option Str :=
  if ¬ f.opens then none else some (copyLoop f.rounds 0 ⟨f.input, [], f.old.getD []⟩).2.written

structure Mounted where
  rc : ℤ
  dest : Option Str
  image : Option Str
  deriving DecidableEq, Repr

def copyFileAndLoopbackMount (f : Files) (mounts : Bool) : Mounted :=
  let (rc, dest) := copyFileFd f
  if rc ≠ 0 then ⟨1, none, none⟩
  else if ¬ mounts then ⟨1, dest, none⟩
  else ⟨0, dest, dest⟩

/-- The end of `getFileFromUrl`: its return code and the file. -/
def getFileFromUrl (f : Files) : ℤ × Option Str :=
  let (rc, dest) := copyFileFd f
  if rc ≠ 0 then (1, none) else (0, dest)

/-- How a loop that reads and writes `rest` comes to its end. -/
inductive End where
  | eof
  | readError
  | writeError
  deriving DecidableEq, Repr

def howEnds (rounds : ℕ → Round) (k : ℕ) (rest : Str) : End :=
  match (rounds k).read with
  | none => .readError
  | some n =>
    if _hrest : rest = [] then .eof
    else
      match (rounds k).write with
      | none => .writeError
      | some m =>
        let buf := readBuf n rest
        if m < buf.length then .writeError else howEnds rounds (k + 1) (rest.drop buf.length)
termination_by rest.length
decreasing_by
  have hpos : 0 < (readBuf n rest).length := readBuf_pos _hrest
  have hlen : (readBuf n rest).length ≤ rest.length := List.length_take_le' _ _
  rw [List.length_drop]
  omega

def ReadToEnd (f : Files) : Prop := f.opens = true ∧ howEnds f.rounds 0 f.input = .eof

/-- The function reports success for a whole copy only, and no other image is mounted or handed
on. -/
structure CopyRight (f : Files) : Prop where
  success : (copyFileFd f).1 = 0 ↔ ReadToEnd f ∧ (copyFileFd f).2 = some f.input
  mounted : ∀ mounts img, (copyFileAndLoopbackMount f mounts).image = some img → img = f.input
  fetched : (getFileFromUrl f).1 = 0 → (getFileFromUrl f).2 = some f.input

/-- The failure is one that the function looks at, or there is none and the old file is not longer
than the input. -/
def Noticed (f : Files) : Prop :=
  f.opens = false ∨ howEnds f.rounds 0 f.input = .writeError ∨
    (howEnds f.rounds 0 f.input = .eof ∧ (f.old.getD []).length ≤ f.input.length)

section Loop
variable {rounds : ℕ → Round} {k n m : ℕ} {c : Copy} {old : Str}

/-- Where the copy has come to, and the old contents behind it. -/
def Overlaid (old : Str) (c : Copy) : Prop := c.dest = c.written ++ old.drop c.written.length

theorem Overlaid.put (h : Overlaid old c) (buf : Str) : Overlaid old (put c buf) := by
  change c.dest.take c.written.length ++ buf ++ c.dest.drop (c.written.length + buf.length) =
    c.written ++ buf ++ old.drop (c.written ++ buf).length
  rw [Overlaid] at h
  rw [h, List.take_left, List.drop_length_add_append, List.drop_drop, List.length_append]

theorem copyLoop_overlaid (rounds : ℕ → Round) (k : ℕ) (c : Copy) (h : Overlaid old c) :
    Overlaid old (copyLoop rounds k c).2 := by
  fun_induction copyLoop rounds k c with
  | case1 k c hread => exact h
  | case2 k c n hread hrest => exact h
  | case3 k c n hread hrest hwrite => exact h
  | case4 k c n hread hrest m hwrite buf hshort => exact Overlaid.put (c := advance c n) h _
  | case5 k c n hread hrest m hwrite buf hfull ih => exact ih (Overlaid.put (c := advance c n) h _)

theorem undisturbed_nil (rounds : ℕ → Round) (k : ℕ) : undisturbed rounds k [] = true := by
  rw [undisturbed, dif_pos rfl]

theorem undisturbed_eq {rest : Str} (hrest : rest ≠ []) (hread : (rounds k).read = some n)
    (hwrite : (rounds k).write = some m) :
    undisturbed rounds k rest = (decide ((readBuf n rest).length ≤ m) &&
      undisturbed rounds (k + 1) (rest.drop (readBuf n rest).length)) := by
  rw [undisturbed, dif_neg hrest, hread, hwrite]

theorem readBuf_append (n : ℕ) (rest : Str) :
    readBuf n rest ++ rest.drop (readBuf n rest).length = rest :=
  List.prefix_iff_eq_append.mp (List.take_prefix _ _)

/-- What is written is the beginning of the file, and all of it when nothing goes wrong. -/
theorem copyLoop_written (rounds : ℕ → Round) (k : ℕ) (c : Copy) :
    if undisturbed rounds k c.rest then (copyLoop rounds k c).2.written = c.written ++ c.rest
    else (copyLoop rounds k c).2.written.length < c.written.length + c.rest.length := by
  fun_induction copyLoop rounds k c with
  | case1 k c hread =>
    by_cases hrest : c.rest = []
    · rw [hrest, undisturbed_nil, if_pos rfl, List.append_nil]
    · have hfalse : undisturbed rounds k c.rest = false := by
        rw [undisturbed, dif_neg hrest, hread]
      rw [hfalse, if_neg Bool.false_ne_true]
      exact Nat.lt_add_of_pos_right (List.length_pos_iff.mpr hrest)
  | case2 k c n hread hrest => rw [hrest, undisturbed_nil, if_pos rfl, List.append_nil]
  | case3 k c n hread hrest hwrite =>
    have hfalse : undisturbed rounds k c.rest = false := by
      rw [undisturbed, dif_neg hrest, hread, hwrite]
    rw [hfalse, if_neg Bool.false_ne_true]
    exact Nat.lt_add_of_pos_right (List.length_pos_iff.mpr hrest)
  | case4 k c n hread hrest m hwrite buf hshort =>
    have hfalse : undisturbed rounds k c.rest = false := by
      rw [undisturbed_eq hrest hread hwrite, decide_eq_false (Nat.not_le.mpr hshort), Bool.false_and]
    rw [hfalse, if_neg Bool.false_ne_true]
    change (c.written ++ buf.take m).length < _
    have hlen : buf.length ≤ c.rest.length := List.length_take_le' _ _
    rw [List.length_append, List.length_take]
    omega
  | case5 k c n hread hrest m hwrite buf hfull ih =>
    have hrest' : (put (advance c n) buf).rest = c.rest.drop buf.length := rfl
    have hwritten : (put (advance c n) buf).written = c.written ++ buf := rfl
    have hbuf : buf ++ c.rest.drop buf.length = c.rest := readBuf_append n c.rest
    rw [hrest', hwritten, List.append_assoc, hbuf] at ih
    rw [undisturbed_eq hrest hread hwrite, decide_eq_true (Nat.not_lt.mp hfull), Bool.true_and]
    have hlen : (c.written ++ buf).length + (c.rest.drop buf.length).length =
        c.written.length + c.rest.length := by
      rw [← List.length_append, List.append_assoc, hbuf, List.length_append]
    rw [hlen] at ih
    exact ih

theorem copyLoop_whole_iff (rounds : ℕ → Round) (src old : Str) :
    ((copyLoop rounds 0 ⟨src, [], old⟩).2.written = src ∧
        (copyLoop rounds 0 ⟨src, [], old⟩).2.dest = src) ↔
      undisturbed rounds 0 src = true ∧ old.length ≤ src.length := by
  have hwritten := copyLoop_written rounds 0 ⟨src, [], old⟩
  have hdest : Overlaid old (copyLoop rounds 0 ⟨src, [], old⟩).2 :=
    copyLoop_overlaid rounds 0 ⟨src, [], old⟩ (List.drop_zero).symm
  rw [Overlaid] at hdest
  dsimp only at hwritten
  cases hund : undisturbed rounds 0 src with
  | false =>
    rw [hund, if_neg Bool.false_ne_true, List.length_nil, Nat.zero_add] at hwritten
    constructor
    · rintro ⟨heq, -⟩
      rw [heq] at hwritten
      exact absurd hwritten (Nat.lt_irrefl _)
    · rintro ⟨hfalse, -⟩
      cases hfalse
  | true =>
    rw [hund, if_pos rfl, List.nil_append] at hwritten
    rw [hwritten] at hdest ⊢
    rw [hdest, List.append_right_eq_self, List.drop_eq_nil_iff]
    exact ⟨fun h => ⟨rfl, h.2⟩, fun h => ⟨rfl, h.2⟩⟩

theorem copyLoop_rc (rounds : ℕ → Round) (k : ℕ) (c : Copy) :
    (copyLoop rounds k c).1 = if howEnds rounds k c.rest = .writeError then 1 else 0 := by
  fun_induction copyLoop rounds k c with
  | case1 k c hread =>
    rw [howEnds, hread]
    rfl
  | case2 k c n hread hrest =>
    rw [howEnds, hread]
    simp [hrest]
  | case3 k c n hread hrest hwrite =>
    rw [howEnds, hread]
    simp [hrest, hwrite]
  | case4 k c n hread hrest m hwrite buf hshort =>
    rw [howEnds, hread]
    simp only [hrest, hwrite, ↓reduceDIte]
    rw [if_pos hshort]
    rfl
  | case5 k c n hread hrest m hwrite buf hfull ih =>
    rw [howEnds, hread]
    simp only [hrest, hwrite, ↓reduceDIte]
    rw [if_neg hfull]
    exact ih

theorem undisturbed_of_eof (rounds : ℕ → Round) (k : ℕ) (rest : Str)
    (heof : howEnds rounds k rest = .eof) : undisturbed rounds k rest = true := by
  fun_induction howEnds rounds k rest with
  | case1 k rest hread => cases heof
  | case2 k n hread => exact undisturbed_nil rounds k
  | case3 k rest n hread hrest hwrite => cases heof
  | case4 k rest n hread hrest m hwrite buf hshort => cases heof
  | case5 k rest n hread hrest m hwrite buf hfull ih =>
    rw [undisturbed_eq hrest hread hwrite, ih heof, decide_eq_true (Nat.not_lt.mp hfull)]
    rfl

end Loop

section Call
variable (f : Files)

theorem copyFileFd_closed (hopens : f.opens = false) : copyFileFd f = (1, f.old) := by
  rw [copyFileFd, hopens, if_pos Bool.false_ne_true]

theorem copyFileFd_opens (hopens : f.opens = true) :
    copyFileFd f = ((copyLoop f.rounds 0 ⟨f.input, [], f.old.getD []⟩).1,
      some (copyLoop f.rounds 0 ⟨f.input, [], f.old.getD []⟩).2.dest) := by
  rw [copyFileFd, hopens, if_neg (not_not_intro rfl)]

theorem copyFileFd_rc :
    (copyFileFd f).1 = 0 ↔ f.opens = true ∧ howEnds f.rounds 0 f.input ≠ .writeError := by
  cases hopens : f.opens with
  | false =>
    rw [copyFileFd_closed f hopens]
    simp
  | true =>
    rw [copyFileFd_opens f hopens]
    dsimp only
    rw [copyLoop_rc]
    simp

theorem copyFileFd_whole_iff :
    (writtenBy f = some f.input ∧ (copyFileFd f).2 = some f.input) ↔
      f.opens = true ∧ undisturbed f.rounds 0 f.input = true ∧
        (f.old.getD []).length ≤ f.input.length := by
  cases hopens : f.opens with
  | false =>
    rw [writtenBy, hopens, if_pos Bool.false_ne_true]
    exact ⟨fun h => absurd h.1.symm (Option.some_ne_none f.input),
      fun h => absurd h.1 Bool.false_ne_true⟩
  | true =>
    rw [copyFileFd_opens f hopens, writtenBy, hopens, if_neg (not_not_intro rfl)]
    dsimp only
    rw [Option.some_inj, Option.some_inj, copyLoop_whole_iff]
    exact ⟨fun h => ⟨rfl, h⟩, fun h => h.2⟩

theorem copyFileFd_dest (hend : ReadToEnd f) :
    (copyFileFd f).2 = some f.input ↔ (f.old.getD []).length ≤ f.input.length := by
  obtain ⟨hopens, heof⟩ := hend
  have hund := undisturbed_of_eof _ _ _ heof
  have hwritten := copyLoop_written f.rounds 0 ⟨f.input, [], f.old.getD []⟩
  have hwhole := copyLoop_whole_iff f.rounds f.input (f.old.getD [])
  dsimp only at hwritten
  rw [hund, if_pos rfl, List.nil_append] at hwritten
  rw [copyFileFd_opens f hopens]
  dsimp only
  rw [Option.some_inj]
  constructor
  · intro hdest
    exact (hwhole.mp ⟨hwritten, hdest⟩).2
  · intro hlen
    exact (hwhole.mpr ⟨hund, hlen⟩).2

theorem mounted_image (mounts : Bool) (img : Str) :
    (copyFileAndLoopbackMount f mounts).image = some img →
      (copyFileFd f).1 = 0 ∧ (copyFileFd f).2 = some img := by
  intro himage
  unfold copyFileAndLoopbackMount at himage
  by_cases hrc : (copyFileFd f).1 = 0
  · refine ⟨hrc, ?_⟩
    dsimp only at himage
    rw [if_neg (not_not_intro hrc)] at himage
    split_ifs at himage
    exact himage
  · dsimp only at himage
    rw [if_pos hrc] at himage
    cases himage

theorem getFileFromUrl_dest (hzero : (getFileFromUrl f).1 = 0) :
    (copyFileFd f).1 = 0 ∧ (getFileFromUrl f).2 = (copyFileFd f).2 := by
  unfold getFileFromUrl at hzero ⊢
  by_cases hrc : (copyFileFd f).1 = 0
  · dsimp only
    rw [if_neg (not_not_intro hrc)]
    exact ⟨hrc, rfl⟩
  · dsimp only at hzero
    rw [if_pos hrc] at hzero
    cases hzero

theorem copyFileFd_right_iff : CopyRight f ↔ Noticed f := by
  constructor
  · rintro ⟨hsuccess, -, -⟩
    cases hopens : f.opens with
    | false => exact Or.inl hopens
    | true =>
      by_cases hwrite : howEnds f.rounds 0 f.input = .writeError
      · exact Or.inr (Or.inl hwrite)
      · obtain ⟨hend, hdest⟩ := hsuccess.mp ((copyFileFd_rc f).mpr ⟨hopens, hwrite⟩)
        exact Or.inr (Or.inr ⟨hend.2, (copyFileFd_dest f hend).mp hdest⟩)
  · intro hnoticed
    have hsuccess : (copyFileFd f).1 = 0 ↔ ReadToEnd f ∧ (copyFileFd f).2 = some f.input := by
      rw [copyFileFd_rc]
      constructor
      · rintro ⟨hopens, hwrite⟩
        rcases hnoticed with hclosed | hfails | ⟨heof, hlen⟩
        · rw [hopens] at hclosed
          cases hclosed
        · exact absurd hfails hwrite
        · exact ⟨⟨hopens, heof⟩, (copyFileFd_dest f ⟨hopens, heof⟩).mpr hlen⟩
      · rintro ⟨⟨hopens, heof⟩, -⟩
        exact ⟨hopens, fun hfails => by rw [heof] at hfails; cases hfails⟩
    refine ⟨hsuccess, ?_, ?_⟩
    · intro mounts img himage
      obtain ⟨hrc, hdest⟩ := mounted_image f mounts img himage
      rw [(hsuccess.mp hrc).2] at hdest
      exact (Option.some.inj hdest).symm
    · intro hzero
      obtain ⟨hrc, hdest⟩ := getFileFromUrl_dest f hzero
      rw [hdest, (hsuccess.mp hrc).2]

/-- A shorter file over a longer one, without any failure. -/
theorem copyFileFd_mixed :
    ¬ CopyRight ⟨[0x61], some [0x78, 0x79], true, fun _ => ⟨some 4096, some 4096⟩⟩ := by
  rintro ⟨hsuccess, -, -⟩
  have heof : howEnds (fun _ => ⟨some 4096, some 4096⟩) 0 [0x61] = .eof := by
    rw [howEnds]
    simp [readBuf, howEnds]
  have hrc := (copyFileFd_rc ⟨[0x61], some [0x78, 0x79], true,
    fun _ => ⟨some 4096, some 4096⟩⟩).mpr ⟨rfl, by rw [heof]; decide⟩
  obtain ⟨hend, hdest⟩ := hsuccess.mp hrc
  have hlen := (copyFileFd_dest _ hend).mp hdest
  revert hlen
  decide

end Call
end Comodoo.CopyFile
