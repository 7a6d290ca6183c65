import Comodoo.UndoMounts

set_option autoImplicit false

/-!
# The table of mounts

How `unmountFilesystems` of `stage-1/undomounts.c` fills its table from `/proc/mounts` and from the
loop devices. The names are those of the file; nothing decodes the escapes in them.
-/
namespace Comodoo.ProcMounts
open CString UndoMounts

abbrev NUL : UInt8 := 0x00
abbrev LF : UInt8 := 0x0a
abbrev space : UInt8 := 0x20

/-- `sizeof(buf) - 1`. -/
abbrev READ : ℕ := 65534

abbrev FILESYSTEMS : ℕ := 500

/-- The content of `/proc/mounts` and what the one `read` answers, the number of bytes it has given
or -1 (`none`). The kernel writes no NUL. -/
structure Mounts where
  content : Str
  clean : NUL ∉ content
  size : Option ℕ
  given : ∀ n ∈ size, n ≤ READ ∧ n ≤ content.length

/-- `devices` is the loop device that `stat` gives for a mount point, -1 for none, and `loops` the name
that `LOOP_GET_STATUS` gives for a loop device that is bound. -/
structure Answers where
  devices : ℕ → ℤ
  loops : ℕ → Option Str

def skipped (start : Str) : Bool :=
  start = ascii "/" || start = ascii "/tmp" || start = ascii "/dev"

/-- An entry at the end of the table; `none` if there is no room. -/
def store (entry : UnmountInfo) (table : List UnmountInfo) : Option (List UnmountInfo) :=
  if table.length < FILESYSTEMS then some (table ++ [entry]) else none

/-- The three scans: the mount point and what stands behind the line. Only the byte looked for ends
a scan; `none` if it is not in the buffer. -/
def scanLine (pos : Str) : Option (Str × Str) := do
  let (_, chptr) ← strchr space pos
  let (start, chptr) ← strchr space chptr
  let (_, chptr) ← strchr LF chptr
  return (start, chptr)

def record (a : Answers) (start : Str) (table : List UnmountInfo) : Option (List UnmountInfo) :=
  if skipped start then some table else store ⟨start, a.devices table.length, .FS⟩ table

/-- The loop; `none` when it leaves the buffer or the table. Every round passes a byte, so the first
argument can be the number of bytes left. -/
def parse (a : Answers) : ℕ → Str → List UnmountInfo → Option (List UnmountInfo)
  | 0, _, _ => none
  | _ + 1, [], _ => none
  | left + 1, b :: bytes, table =>
    if b = NUL then some table
    else do
      let (start, chptr) ← scanLine (b :: bytes)
      let table ← record a start table
      parse a left chptr table

def addLoop (a : Answers) (table : List UnmountInfo) (i : ℕ) : Option (List UnmountInfo) :=
  match a.loops i with
  | some name => store ⟨name, i, .LOOP⟩ table
  | none => some table

def addLoops (a : Answers) (table : List UnmountInfo) : Option (List UnmountInfo) :=
  (List.range 7).foldlM (addLoop a) table

/-- An answer of -1 puts the NUL in front of the buffer. -/
def fillTable (a : Answers) (m : Mounts) : Option (List UnmountInfo) := do
  let size ← m.size
  let buf := m.content.take size ++ [NUL]
  let table ← parse a buf.length buf []
  addLoops a table

/-! ## What is asked of it -/

def mountPoint (line : Str) : Option Str :=
  (strchr space line).map (fun r => r.2.takeWhile (· ≠ space))

def recordable (text : Str) : List Str :=
  ((text.splitOn LF).filterMap mountPoint).filter (fun start => !skipped start)

def fsNames (table : List UnmountInfo) : List Str :=
  (table.filter (fun e => e.what = .FS)).map UnmountInfo.name

/-- The table is filled without leaving the buffer or the table, and it holds the mount points. -/
def TableRight (a : Answers) (m : Mounts) : Prop :=
  ∃ table, fillTable a m = some table ∧ fsNames table = recordable m.content ∧
    table.length ≤ FILESYSTEMS

def linesText (lines : List Str) : Str := lines.flatMap (fun line => line ++ [LF])

/-- Nothing, or lines of which the last one has two spaces or more and none has exactly one. -/
def Scannable (text : Str) : Prop :=
  text = [] ∨ ∃ lines last, text = linesText (lines ++ [last]) ∧
    (∀ line ∈ lines ++ [last], LF ∉ line ∧ line.count space ≠ 1) ∧ 2 ≤ last.count space

def bound (a : Answers) (i : ℕ) : Bool := (a.loops i).isSome

def loopCount (a : Answers) : ℕ := ((List.range 7).filter (bound a)).length

/-- The read succeeds and what it gives can be scanned, there is no mount point to be recorded behind
that, and there is room for all entries. -/
def Fits (a : Answers) (m : Mounts) : Prop :=
  (∃ size, m.size = some size ∧ Scannable (m.content.take size) ∧
    recordable (m.content.drop size) = []) ∧
  (recordable m.content).length + loopCount a ≤ FILESYSTEMS

section Lines
variable {line rest start : Str} {lines : List Str}

theorem splitOn_line (h : LF ∉ line) : (line ++ LF :: rest).splitOn LF = line :: rest.splitOn LF :=
  List.splitOn_append_cons_self_of_not_mem h rest

theorem recordable_line (h : LF ∉ line) (rest : Str) :
    recordable (line ++ LF :: rest) =
      ((mountPoint line).toList.filter fun start => !skipped start) ++ recordable rest := by
  rw [recordable, splitOn_line h, recordable, ← List.filter_append]
  congr 1
  cases hpoint : mountPoint line with
  | none => rw [List.filterMap_cons_none hpoint]; rfl
  | some start => rw [List.filterMap_cons_some hpoint]; rfl

theorem strchr_of_count (c : UInt8) (text : Str) (h : text.count c ≠ 0) :
    ∃ l r, strchr c text = some (l, r) ∧ text = l ++ c :: r ∧ c ∉ l ∧
      r.count c + 1 = text.count c := by
  have hmem : c ∈ text := List.count_pos_iff.mp (Nat.pos_of_ne_zero h)
  obtain ⟨l, r, rfl, hl⟩ := List.eq_append_cons_of_mem hmem
  refine ⟨l, r, strchr_append c l r hl, rfl, hl, ?_⟩
  rw [List.count_append, List.count_eq_zero_of_not_mem hl, List.count_cons_self, Nat.zero_add]

theorem scanLine_fields {d r : Str} (hd : space ∉ d) (hstart : space ∉ start) (hr : LF ∉ r)
    (rest : Str) :
    scanLine (d ++ space :: (start ++ space :: (r ++ LF :: rest))) = some (start, rest) := by
  rw [scanLine, strchr_append _ _ _ hd]
  simp only [Option.bind_eq_bind, Option.bind_some]
  rw [strchr_append _ _ _ hstart]
  simp only [Option.bind_some]
  rw [strchr_append _ _ _ hr]
  rfl

theorem mountPoint_fields {d : Str} (hd : space ∉ d) (hstart : space ∉ start) (r : Str) :
    mountPoint (d ++ space :: (start ++ space :: r)) = some start := by
  have htake : (start ++ space :: r).takeWhile (· ≠ space) = start := by
    refine takeWhile_append_stop (fun b hb => ?_) (by simp)
    exact decide_eq_true fun h => hstart (h ▸ hb)
  rw [mountPoint, strchr_append _ _ _ hd, Option.map_some, htake]

theorem mountPoint_none (hline : space ∉ line) : mountPoint line = none := by
  rw [mountPoint, (strchr_eq_none_iff _ _).mpr hline]
  rfl

theorem scanLine_line (hspaces : 2 ≤ line.count space) (hline : LF ∉ line) (rest : Str) :
    ∃ start, mountPoint line = some start ∧ scanLine (line ++ LF :: rest) = some (start, rest) := by
  obtain ⟨d, tail, -, rfl, hd, htail⟩ := strchr_of_count space line (by omega)
  obtain ⟨start, r, -, rfl, hstart, -⟩ := strchr_of_count space tail (by omega)
  have hr : LF ∉ r := fun h => hline (List.mem_append_right _ (List.mem_cons_of_mem _
    (List.mem_append_right _ (List.mem_cons_of_mem _ h))))
  refine ⟨start, mountPoint_fields hd hstart r, ?_⟩
  have hfields := scanLine_fields hd hstart hr rest
  simpa using hfields

theorem strchr_skip {c : UInt8} {pre : Str} (hpre : c ∉ pre) (rest : Str) :
    strchr c (pre ++ rest) = (strchr c rest).map (fun r => (pre ++ r.1, r.2)) := by
  induction pre with
  | nil => simp
  | cons b pre ih =>
    rw [List.mem_cons, not_or] at hpre
    rw [List.cons_append, strchr, if_neg (Ne.symm hpre.1), ih hpre.2, Option.map_map]
    rfl

/-- A line without a space is taken for the beginning of the next device. -/
theorem scanLine_skip (hspaces : space ∉ line) (rest : Str) :
    scanLine (line ++ LF :: rest) = scanLine rest := by
  have hpre : space ∉ line ++ [LF] := by
    rw [List.mem_append, List.mem_singleton, not_or]
    exact ⟨hspaces, by decide⟩
  have hchr : strchr space (line ++ LF :: rest) =
      (strchr space rest).map (fun r => ((line ++ [LF]) ++ r.1, r.2)) := by
    rw [← strchr_skip hpre, List.append_assoc, List.singleton_append]
  rw [scanLine, scanLine, hchr]
  cases strchr space rest <;> rfl

theorem scanLine_eq_some {pos : Str} (h : scanLine pos = some (start, rest)) :
    ∃ d r, pos = d ++ space :: (start ++ space :: (r ++ LF :: rest)) ∧ space ∉ d ∧ space ∉ start ∧
      LF ∉ r := by
  unfold scanLine at h
  simp only [Option.bind_eq_bind, Option.bind_eq_some_iff, Prod.exists] at h
  obtain ⟨d, pos1, hdev, m, pos2, hmount, r, next, hrest, heq⟩ := h
  obtain ⟨rfl, rfl⟩ := Prod.mk.inj (Option.some.inj heq)
  obtain ⟨rfl, hd⟩ := (strchr_eq_some_iff _ _ _ _).mp hdev
  obtain ⟨rfl, hm⟩ := (strchr_eq_some_iff _ _ _ _).mp hmount
  obtain ⟨rfl, hr⟩ := (strchr_eq_some_iff _ _ _ _).mp hrest
  exact ⟨d, r, rfl, hd, hm, hr⟩

end Lines

section Table
variable {a : Answers} {start : Str} {starts : List Str} {table table' : List UnmountInfo}

theorem fsNames_append (t u : List UnmountInfo) : fsNames (t ++ u) = fsNames t ++ fsNames u := by
  rw [fsNames, List.filter_append, List.map_append]
  rfl

theorem store_eq_some {entry : UnmountInfo} (h : store entry table = some table') :
    table.length < FILESYSTEMS ∧ table' = table ++ [entry] := by
  unfold store at h
  split_ifs at h with hroom
  exact ⟨hroom, (Option.some.inj h).symm⟩

/-- What has been stored behind the table: mounts with these names, and so many loop devices. -/
structure Grown (table table' : List UnmountInfo) (names : List Str) (loops : ℕ) : Prop where
  names_eq : fsNames table' = fsNames table ++ names
  room : table.length ≤ FILESYSTEMS → table'.length ≤ FILESYSTEMS
  length_eq : table'.length = table.length + names.length + loops

theorem Grown.refl (table : List UnmountInfo) : Grown table table [] 0 :=
  ⟨(List.append_nil _).symm, id, rfl⟩

theorem Grown.trans {table'' : List UnmountInfo} {names names' : List Str} {loops loops' : ℕ}
    (h : Grown table table' names loops) (h' : Grown table' table'' names' loops') :
    Grown table table'' (names ++ names') (loops + loops') := by
  refine ⟨?_, fun hroom => h'.room (h.room hroom), ?_⟩
  · rw [h'.names_eq, h.names_eq, List.append_assoc]
  · rw [h'.length_eq, h.length_eq, List.length_append]
    omega

theorem record_grown (h : record a start table = some table') :
    Grown table table' ([start].filter fun start => !skipped start) 0 := by
  unfold record at h
  split_ifs at h with hskip
  · obtain rfl := Option.some.inj h
    rw [List.filter_cons_of_neg (by simp [hskip])]
    exact Grown.refl table
  · obtain ⟨hroom, rfl⟩ := store_eq_some h
    rw [List.filter_cons_of_pos (by simp [hskip])]
    refine ⟨fsNames_append table _, fun _ => ?_, by simp⟩
    rw [List.length_append]
    exact hroom

theorem record_isSome (h : table.length + ([start].filter fun start => !skipped start).length ≤
    FILESYSTEMS) : ∃ table', record a start table = some table' := by
  unfold record
  by_cases hskip : skipped start = true
  · exact ⟨table, if_pos hskip⟩
  · rw [List.filter_cons_of_pos (by simpa using hskip), List.length_cons] at h
    rw [if_neg hskip, store, if_pos (by omega)]
    exact ⟨_, rfl⟩

theorem parse_round {text : Str} (htext : text ≠ []) (hclean : NUL ∉ text) (left : ℕ) :
    parse a (left + 1) (text ++ [NUL]) table =
      (scanLine (text ++ [NUL])).bind fun r =>
        (record a r.1 table).bind fun table => parse a left r.2 table := by
  obtain ⟨b, bytes, rfl⟩ := List.exists_cons_of_ne_nil htext
  have hb : b ≠ NUL := fun h => hclean (h ▸ List.mem_cons_self)
  rw [List.cons_append, parse, if_neg hb]
  rfl

theorem linesText_cons (line : Str) (lines : List Str) :
    linesText (line :: lines) = line ++ LF :: linesText lines := by
  rw [linesText, List.flatMap_cons, List.append_assoc, List.singleton_append]
  rfl

theorem parse_line {line rest : Str} (hline : LF ∉ line) (hspaces : 2 ≤ line.count space)
    (hclean : NUL ∉ line ++ LF :: rest) (a : Answers) (left : ℕ) (table : List UnmountInfo) :
    ∃ start, mountPoint line = some start ∧
      parse a (left + 1) (line ++ LF :: rest ++ [NUL]) table =
        (record a start table).bind fun table => parse a left (rest ++ [NUL]) table := by
  obtain ⟨start, hpoint, hscan⟩ := scanLine_line hspaces hline (rest ++ [NUL])
  refine ⟨start, hpoint, ?_⟩
  rw [parse_round (by simp) hclean, List.append_assoc, List.cons_append, hscan]
  rfl

theorem parse_skip {line rest : Str} (hspaces : space ∉ line) (hrest : rest ≠ [])
    (hclean : NUL ∉ line ++ LF :: rest) (left : ℕ) :
    parse a (left + 1) (line ++ LF :: rest ++ [NUL]) table =
      parse a (left + 1) (rest ++ [NUL]) table := by
  have hclean' : NUL ∉ rest := fun h =>
    hclean (List.mem_append_right _ (List.mem_cons_of_mem _ h))
  rw [parse_round (by simp) hclean, parse_round hrest hclean', List.append_assoc, List.cons_append,
    scanLine_skip hspaces]

/-- Lines that can be scanned give their mount points, as far as there is room. -/
theorem parse_lines (a : Answers) (lines : List Str) (last : Str) (left : ℕ)
    (table : List UnmountInfo)
    (hlines : ∀ line ∈ lines ++ [last], LF ∉ line ∧ line.count space ≠ 1)
    (hlast : 2 ≤ last.count space) (hclean : NUL ∉ linesText (lines ++ [last]))
    (hleft : (linesText (lines ++ [last])).length < left)
    (hroom : table.length + (recordable (linesText (lines ++ [last]))).length ≤ FILESYSTEMS) :
    ∃ table', parse a left (linesText (lines ++ [last]) ++ [NUL]) table = some table' ∧
      Grown table table' (recordable (linesText (lines ++ [last]))) 0 := by
  induction lines generalizing left table with
  | nil =>
    obtain ⟨left, rfl⟩ := Nat.exists_eq_succ_of_ne_zero (Nat.ne_zero_of_lt hleft)
    obtain ⟨hlf, -⟩ := hlines last (List.mem_append_right _ List.mem_cons_self)
    have htext : linesText ([] ++ [last]) = last ++ LF :: [] := linesText_cons last []
    rw [htext] at hclean hleft hroom ⊢
    obtain ⟨start, hpoint, hparse⟩ := parse_line hlf hlast hclean a left table
    have hrec := recordable_line hlf []
    rw [hpoint, Option.toList_some] at hrec
    have hnil : recordable [] = [] := rfl
    rw [hnil, List.append_nil] at hrec
    rw [hrec] at hroom ⊢
    obtain ⟨table', hrecord⟩ := record_isSome hroom
    refine ⟨table', ?_, record_grown hrecord⟩
    rw [hparse, hrecord, Option.bind_some]
    -- what is left is the NUL behind the text
    obtain ⟨left, rfl⟩ : ∃ k, left = k + 1 := ⟨left - 1, by
      simp only [List.length_append, List.length_cons] at hleft
      omega⟩
    rfl
  | cons line lines ih =>
    obtain ⟨left, rfl⟩ := Nat.exists_eq_succ_of_ne_zero (Nat.ne_zero_of_lt hleft)
    have hline := hlines line List.mem_cons_self
    have hrest : ∀ x ∈ lines ++ [last], LF ∉ x ∧ x.count space ≠ 1 :=
      fun x hx => hlines x (List.mem_cons_of_mem _ hx)
    have hne : linesText (lines ++ [last]) ≠ [] := by simp [linesText]
    rw [List.cons_append, linesText_cons] at hclean hleft hroom ⊢
    have hclean' : NUL ∉ linesText (lines ++ [last]) := fun h =>
      hclean (List.mem_append_right _ (List.mem_cons_of_mem _ h))
    have hlen : (linesText (lines ++ [last])).length < left := by
      simp only [List.length_append, List.length_cons] at hleft ⊢
      omega
    have hrec := recordable_line hline.1 (linesText (lines ++ [last]))
    by_cases hspaces : space ∈ line
    · have hcount := List.count_pos_iff.mpr hspaces
      obtain ⟨start, hpoint, hparse⟩ := parse_line hline.1
        (by omega) hclean a left table
      rw [hpoint, Option.toList_some] at hrec
      rw [hrec, List.length_append] at hroom
      obtain ⟨table₁, hrecord⟩ := record_isSome (Nat.le_trans
        (Nat.add_le_add_left (Nat.le_add_right _ _) _) hroom)
      have hgrown := record_grown hrecord
      have hlength₁ := hgrown.length_eq
      obtain ⟨table', hparse', hgrown'⟩ := ih left table₁ hrest hclean' hlen (by omega)
      refine ⟨table', ?_, hrec ▸ hgrown.trans hgrown'⟩
      rw [hparse, hrecord, Option.bind_some, hparse']
    · rw [mountPoint_none hspaces, Option.toList_none, List.filter_nil, List.nil_append] at hrec
      rw [hrec] at hroom ⊢
      rw [parse_skip hspaces hne hclean]
      exact ih (left + 1) table hrest hclean' (by omega) hroom

theorem parse_isSome (a : Answers) {text : Str} (table : List UnmountInfo) (hclean : NUL ∉ text)
    (hscannable : Scannable text)
    (hroom : table.length + (recordable text).length ≤ FILESYSTEMS) :
    ∃ table', parse a (text ++ [NUL]).length (text ++ [NUL]) table = some table' ∧
      Grown table table' (recordable text) 0 := by
  rcases hscannable with rfl | ⟨lines, last, rfl, hlines, hlast⟩
  · exact ⟨table, rfl, Grown.refl table⟩
  · refine parse_lines a lines last _ table hlines hlast hclean ?_ hroom
    rw [List.length_append, List.length_singleton]
    exact Nat.lt_succ_self _

theorem exists_lines (text : Str) : ∃ lines last, text = linesText lines ++ last ∧
    (∀ line ∈ lines, LF ∉ line) ∧ LF ∉ last := by
  induction text with
  | nil => exact ⟨[], [], rfl, by simp, by simp⟩
  | cons b text ih =>
    obtain ⟨lines, last, rfl, hlines, hlast⟩ := ih
    by_cases hb : b = LF
    · subst hb
      refine ⟨[] :: lines, last, ?_, ?_, hlast⟩
      · rw [linesText_cons]
        rfl
      · exact List.forall_mem_cons.mpr ⟨List.not_mem_nil, hlines⟩
    · rcases lines with _ | ⟨line, lines⟩
      · refine ⟨[], b :: last, rfl, by simp, ?_⟩
        rw [List.mem_cons, not_or]
        exact ⟨Ne.symm hb, hlast⟩
      · obtain ⟨hline, hlines⟩ := List.forall_mem_cons.mp hlines
        refine ⟨(b :: line) :: lines, last, ?_, ?_, hlast⟩
        · rw [linesText_cons, linesText_cons]
          rfl
        · refine List.forall_mem_cons.mpr ⟨?_, hlines⟩
          rw [List.mem_cons, not_or]
          exact ⟨Ne.symm hb, hline⟩

theorem linesText_append (lines : List Str) (line : Str) (lines' : List Str) :
    linesText (lines ++ line :: lines') = linesText lines ++ (line ++ LF :: linesText lines') := by
  rw [← linesText_cons, linesText, List.flatMap_append]
  rfl

theorem recordable_linesText (lines : List Str) (hlines : ∀ line ∈ lines, LF ∉ line ∧ space ∉ line)
    (rest : Str) : recordable (linesText lines ++ rest) = recordable rest := by
  induction lines with
  | nil => rfl
  | cons line lines ih =>
    obtain ⟨⟨hlf, hspace⟩, hlines⟩ := List.forall_mem_cons.mp hlines
    rw [linesText_cons, List.append_assoc, List.cons_append, recordable_line hlf,
      mountPoint_none hspace, ih hlines]
    rfl

theorem scannable_append {lines : List Str} {line text : Str}
    (hlines : ∀ x ∈ lines, LF ∉ x ∧ space ∉ x) (hline : LF ∉ line) (hspaces : 2 ≤ line.count space)
    (htext : Scannable text) : Scannable (linesText lines ++ (line ++ LF :: text)) := by
  have hcount : ∀ x ∈ lines, LF ∉ x ∧ x.count space ≠ 1 := by
    intro x hx
    rw [List.count_eq_zero_of_not_mem (hlines x hx).2]
    exact ⟨(hlines x hx).1, by omega⟩
  rcases htext with rfl | ⟨lines', last, rfl, hlines', hlast⟩
  · refine Or.inr ⟨lines, line, ?_, ?_, hspaces⟩
    · rw [linesText_append]
      rfl
    · intro x hx
      rcases List.mem_append.mp hx with hx | hx
      · exact hcount x hx
      · rw [List.mem_singleton.mp hx]
        exact ⟨hline, by omega⟩
  · refine Or.inr ⟨lines ++ line :: lines', last, ?_, ?_, hlast⟩
    · rw [List.append_assoc, List.cons_append]
      exact (linesText_append lines line (lines' ++ [last])).symm
    · intro x hx
      rw [List.append_assoc, List.cons_append] at hx
      rcases List.mem_append.mp hx with hx | hx
      · exact hcount x hx
      · rcases List.mem_cons.mp hx with rfl | hx
        · exact ⟨hline, by omega⟩
        · exact hlines' x hx

theorem fsNames_grow (a : Answers) (left : ℕ) (pos : Str) (table : List UnmountInfo)
    (hparse : parse a left pos table = some table') : fsNames table <+: fsNames table' := by
  fun_induction parse a left pos table with
  | case1 => cases hparse
  | case2 => cases hparse
  | case3 => exact Option.some.inj hparse ▸ List.prefix_rfl
  | case4 table left b bytes hb ih =>
    simp only [Option.bind_eq_bind, Option.bind_eq_some_iff, Prod.exists] at hparse
    obtain ⟨start, next, -, table₁, hrecord, hparse⟩ := hparse
    have htail := ih next table₁ hparse
    rw [(record_grown hrecord).names_eq] at htail
    exact (List.prefix_append _ _).trans htail

theorem LF_notMem_of_skipped (h : skipped start = true) : LF ∉ start := by
  unfold skipped at h
  simp only [Bool.or_eq_true, decide_eq_true_eq] at h
  rcases h with (rfl | rfl) | rfl <;> decide

/-- What a scan passes, if the mount point stands on one line: lines without a space, and a line
with two. -/
theorem scanLine_passes {text next : Str} (h : scanLine (text ++ [NUL]) = some (start, next))
    (hstart : LF ∉ start) : ∃ lines line text', next = text' ++ [NUL] ∧
      text = linesText lines ++ (line ++ LF :: text') ∧ (∀ x ∈ lines, LF ∉ x ∧ space ∉ x) ∧
      LF ∉ line ∧ 2 ≤ line.count space ∧ mountPoint line = some start := by
  obtain ⟨d, r, hpos, hd, hspace, hr⟩ := scanLine_eq_some h
  obtain ⟨lines, front, rfl, hlines, hfront⟩ := exists_lines d
  have hfrontSpace : space ∉ front := fun h => hd (List.mem_append_right _ h)
  -- the NUL at the end is behind the last line
  obtain ⟨text', rfl⟩ : ∃ text', next = text' ++ [NUL] := by
    rcases next.eq_nil_or_concat' with rfl | ⟨text', x, rfl⟩
    · have hsplit : text ++ [NUL] =
          (linesText lines ++ front ++ space :: (start ++ space :: r)) ++ [LF] := by
        rw [hpos]
        simp
      exact absurd (List.append_inj' hsplit rfl).2 (by decide)
    · have hsplit : text ++ [NUL] =
          (linesText lines ++ front ++ space :: (start ++ space :: (r ++ LF :: text'))) ++ [x] := by
        rw [hpos]
        simp
      have hx := (List.append_inj' hsplit rfl).2
      rw [List.cons.injEq] at hx
      exact ⟨text', by rw [hx.1]⟩
  refine ⟨lines, front ++ space :: (start ++ space :: r), text', rfl, ?_, ?_, ?_, ?_,
    mountPoint_fields hfrontSpace hspace r⟩
  · have hsplit : text ++ [NUL] =
        linesText lines ++ ((front ++ space :: (start ++ space :: r)) ++ LF :: text') ++ [NUL] := by
      rw [hpos]
      simp
    exact (List.append_inj' hsplit rfl).1
  · intro x hx
    refine ⟨hlines x hx, fun h => hd (List.mem_append_left _ ?_)⟩
    exact List.mem_flatMap.mpr ⟨x, hx, List.mem_append_left _ h⟩
  · simp only [List.mem_append, List.mem_cons, not_or]
    exact ⟨hfront, by decide, hstart, by decide, hr⟩
  · simp only [List.count_append, List.count_cons_self]
    omega

/-- The converse: a run that stays inside the buffer and records no name over two lines. -/
theorem scannable_of_parse (a : Answers) (left : ℕ) (text : Str) (table : List UnmountInfo)
    (hclean : NUL ∉ text) (hparse : parse a left (text ++ [NUL]) table = some table')
    (hnames : ∀ name ∈ fsNames table', LF ∉ name) :
    Scannable text ∧ Grown table table' (recordable text) 0 := by
  induction left generalizing text table with
  | zero => cases hparse
  | succ left ih =>
    by_cases hne : text = []
    · subst hne
      obtain rfl := Option.some.inj hparse
      exact ⟨Or.inl rfl, Grown.refl table⟩
    rw [parse_round hne hclean] at hparse
    obtain ⟨⟨start, next⟩, hscan, hround⟩ := Option.bind_eq_some_iff.mp hparse
    obtain ⟨table₁, hrecord, hrest⟩ := Option.bind_eq_some_iff.mp hround
    have hgrown := record_grown hrecord
    have hstart : LF ∉ start := by
      by_cases hskip : skipped start = true
      · exact LF_notMem_of_skipped hskip
      · refine hnames start ((fsNames_grow a left _ table₁ hrest).subset ?_)
        rw [hgrown.names_eq, List.filter_cons_of_pos (by simpa using hskip)]
        exact List.mem_append_right _ List.mem_cons_self
    obtain ⟨lines, line, text', rfl, rfl, hlines, hline, hcount, hpoint⟩ :=
      scanLine_passes hscan hstart
    have hclean' : NUL ∉ text' := fun h => hclean (by simp [h])
    obtain ⟨hscannable, hgrown'⟩ := ih text' table₁ hclean' hrest
    refine ⟨scannable_append hlines hline hcount hscannable, ?_⟩
    rw [recordable_linesText lines hlines, recordable_line hline, hpoint]
    exact hgrown.trans hgrown'

theorem addLoop_grown {i : ℕ} (h : addLoop a table i = some table') :
    Grown table table' [] ([i].filter (bound a)).length := by
  unfold addLoop at h
  cases hname : a.loops i with
  | none =>
    rw [hname] at h
    obtain rfl := Option.some.inj h
    rw [List.filter_cons_of_neg (by simp [bound, hname])]
    exact Grown.refl table
  | some name =>
    rw [hname] at h
    obtain ⟨hroom, rfl⟩ := store_eq_some h
    rw [List.filter_cons_of_pos (by simp [bound, hname])]
    refine ⟨fsNames_append table _, fun _ => ?_, by simp⟩
    rw [List.length_append]
    exact hroom

theorem addLoop_isSome {i : ℕ}
    (h : table.length + ([i].filter (bound a)).length ≤ FILESYSTEMS) :
    ∃ table', addLoop a table i = some table' := by
  unfold addLoop
  cases hname : a.loops i with
  | none => exact ⟨table, rfl⟩
  | some name =>
    rw [List.filter_cons_of_pos (by rw [bound, hname]; rfl), List.length_cons] at h
    dsimp only
    rw [store, if_pos (by omega)]
    exact ⟨_, rfl⟩

theorem filter_bound_cons (a : Answers) (i : ℕ) (is : List ℕ) :
    ((i :: is).filter (bound a)).length =
      ([i].filter (bound a)).length + (is.filter (bound a)).length := by
  rw [← List.length_append, ← List.filter_append]
  rfl

theorem foldlM_grown {is : List ℕ} (h : is.foldlM (addLoop a) table = some table') :
    Grown table table' [] (is.filter (bound a)).length := by
  induction is generalizing table with
  | nil =>
    obtain rfl := Option.some.inj h
    exact Grown.refl table
  | cons i is ih =>
    rw [List.foldlM_cons] at h
    obtain ⟨table₁, hone, hrest⟩ := Option.bind_eq_some_iff.mp h
    rw [filter_bound_cons a i is]
    exact (addLoop_grown hone).trans (ih hrest)

theorem foldlM_isSome {is : List ℕ}
    (h : table.length + (is.filter (bound a)).length ≤ FILESYSTEMS) :
    ∃ table', is.foldlM (addLoop a) table = some table' := by
  induction is generalizing table with
  | nil => exact ⟨table, rfl⟩
  | cons i is ih =>
    rw [filter_bound_cons a i is, ← Nat.add_assoc] at h
    obtain ⟨table₁, hone⟩ := addLoop_isSome (Nat.le_trans (Nat.le_add_right _ _) h)
    have hlength₁ := (addLoop_grown hone).length_eq
    rw [List.length_nil, Nat.add_zero] at hlength₁
    rw [← hlength₁] at h
    obtain ⟨table', hrest⟩ := ih h
    exact ⟨table', by rw [List.foldlM_cons, hone]; exact hrest⟩

theorem recordable_append {text : Str} (h : Scannable text) (more : Str) :
    recordable (text ++ more) = recordable text ++ recordable more := by
  rcases h with rfl | ⟨lines, last, rfl, hlines, -⟩
  · rfl
  · generalize lines ++ [last] = all at hlines ⊢
    induction all with
    | nil => rfl
    | cons line lines ih =>
      obtain ⟨⟨hline, -⟩, hlines⟩ := List.forall_mem_cons.mp hlines
      rw [linesText_cons, List.append_assoc, List.cons_append, recordable_line hline,
        recordable_line hline, ih hlines, List.append_assoc]

theorem LF_notMem_splitOn (text : Str) : ∀ line ∈ text.splitOn LF, LF ∉ line := by
  obtain ⟨lines, last, rfl, hlines, hlast⟩ := exists_lines text
  have hsplit : (linesText lines ++ last).splitOn LF = lines ++ [last] := by
    induction lines with
    | nil => exact List.splitOn_eq_singleton hlast
    | cons line lines ih =>
      obtain ⟨hline, hlines⟩ := List.forall_mem_cons.mp hlines
      rw [linesText_cons, List.append_assoc, List.cons_append, splitOn_line hline, ih hlines]
      rfl
  rw [hsplit]
  intro line hline
  rcases List.mem_append.mp hline with hline | hline
  · exact hlines line hline
  · exact List.mem_singleton.mp hline ▸ hlast

theorem LF_notMem_recordable {text name : Str} (h : name ∈ recordable text) : LF ∉ name := by
  obtain ⟨line, hline, hpoint⟩ := List.mem_filterMap.mp (List.mem_of_mem_filter h)
  have hLF := LF_notMem_splitOn text line hline
  obtain ⟨⟨d, r⟩, hchr, rfl⟩ := Option.map_eq_some_iff.mp hpoint
  obtain ⟨rfl, -⟩ := (strchr_eq_some_iff _ _ _ _).mp hchr
  intro hmem
  exact hLF (List.mem_append_right _ (List.mem_cons_of_mem _
    ((List.takeWhile_sublist _).subset hmem)))

theorem recordable_take {content : Str} {size : ℕ} (h : Scannable (content.take size)) :
    recordable content = recordable (content.take size) ++ recordable (content.drop size) := by
  conv_lhs => rw [← List.take_append_drop size content]
  exact recordable_append h _

theorem fillTable_eq_some {m : Mounts} (h : fillTable a m = some table) :
    ∃ size table₁, m.size = some size ∧
      parse a (m.content.take size ++ [NUL]).length (m.content.take size ++ [NUL]) [] =
        some table₁ ∧ addLoops a table₁ = some table := by
  obtain ⟨size, hsize, h⟩ := Option.bind_eq_some_iff.mp h
  obtain ⟨table₁, hparse, hloops⟩ := Option.bind_eq_some_iff.mp h
  exact ⟨size, table₁, hsize, hparse, hloops⟩

theorem fillTable_right_iff (a : Answers) (m : Mounts) : TableRight a m ↔ Fits a m := by
  have hclean : ∀ size, NUL ∉ m.content.take size := fun size h => m.clean (List.mem_of_mem_take h)
  constructor
  · rintro ⟨table, hfill, hnames, hlength⟩
    obtain ⟨size, table₁, hsize, hparse, hloops⟩ := fillTable_eq_some hfill
    have hlast := foldlM_grown hloops
    have hnames₁ := hlast.names_eq
    rw [List.append_nil, hnames] at hnames₁
    obtain ⟨hscannable, hfirst⟩ := scannable_of_parse a _ _ [] (hclean size) hparse
      (fun name hname => LF_notMem_recordable (hnames₁ ▸ hname))
    have hboth := hfirst.trans hlast
    have hall : recordable m.content = recordable (m.content.take size) := by
      rw [hnames₁, hfirst.names_eq]
      rfl
    refine ⟨⟨size, hsize, hscannable, ?_⟩, ?_⟩
    · have happend := recordable_take hscannable
      rwa [hall, List.self_eq_append_right] at happend
    · have hcount := hboth.length_eq
      rw [hcount, List.append_nil, ← hall] at hlength
      simpa [loopCount] using hlength
  · rintro ⟨⟨size, hsize, hscannable, hmore⟩, hroom⟩
    have hall := recordable_take hscannable
    rw [hmore, List.append_nil] at hall
    rw [hall] at hroom
    obtain ⟨table₁, hparse, hfirst⟩ := parse_isSome a [] (hclean size) hscannable
      (by simpa using Nat.le_trans (Nat.le_add_right _ _) hroom)
    have hlength₁ := hfirst.length_eq
    rw [List.length_nil, Nat.zero_add, Nat.add_zero] at hlength₁
    rw [← hlength₁] at hroom
    obtain ⟨table, hloops⟩ := foldlM_isSome hroom
    have hboth := hfirst.trans (foldlM_grown hloops)
    refine ⟨table, ?_, ?_, hboth.room (Nat.zero_le _)⟩
    · rw [fillTable, hsize]
      simp only [Option.bind_eq_bind, Option.bind_some, hparse]
      exact hloops
    · rw [hboth.names_eq, hall, List.append_nil]
      rfl

/-- One mount more than the table has room for. -/
def manyMounts : Str := linesText (List.replicate 501 (ascii "none /m tmpfs rw 0 0"))

theorem length_recordable_replicate (n : ℕ) :
    (recordable (linesText (List.replicate n (ascii "none /m tmpfs rw 0 0")))).length = n := by
  induction n with
  | zero => rfl
  | succ n ih =>
    rw [List.replicate_succ, linesText_cons, recordable_line (by decide), List.length_append, ih,
      Nat.add_comm]
    rfl

theorem clean_manyMounts : NUL ∉ manyMounts := by
  intro h
  obtain ⟨line, hline, hmem⟩ := List.mem_flatMap.mp h
  rw [List.eq_of_mem_replicate hline] at hmem
  revert hmem
  decide

theorem length_manyMounts : manyMounts.length = 10521 := by
  unfold manyMounts linesText
  rw [List.length_flatMap, List.map_replicate, List.sum_replicate_nat]
  rfl

/-- A read that gives the lines of one page, 195 of them. -/
theorem fillTable_manyMounts : ¬ TableRight ⟨fun _ => -1, fun _ => none⟩
    ⟨manyMounts, clean_manyMounts, some 4095, by
      rintro n ⟨⟩
      rw [length_manyMounts]
      decide⟩ := by
  rintro ⟨table, -, hnames, hlength⟩
  have hcount : (fsNames table).length ≤ table.length := by
    rw [fsNames, List.length_map]
    exact List.length_filter_le _ _
  have hmany : (recordable manyMounts).length = 501 := length_recordable_replicate 501
  rw [hnames, hmany] at hcount
  exact absurd (hcount.trans hlength) (by decide)

end Table
end Comodoo.ProcMounts
