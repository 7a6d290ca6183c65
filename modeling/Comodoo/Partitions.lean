import Mathlib.Data.List.Perm.Basic
import Comodoo.LineBuffer
import Comodoo.VersionCompare

set_option autoImplicit false

/-!
# Partitions

`getPartitionsList` of `stage-1/getparts.c`.
-/
namespace Comodoo.Partitions
open CString HttpHeaders LineBuffer
open CpioInstall (strcmp strcmp_eq strcmp_gt strcmp_trans)
open VersionCompare (isalpha)

abbrev slash : UInt8 := 0x2f

/-- `sizeof(tmpstr) - 1`. -/
abbrev TMPSTR : ℕ := 4095

/-- The content of `/proc/partitions`. The kernel writes no NUL. -/
structure Table where
  content : Str
  clean : (0x00 : UInt8) ∉ content

def isPartitionName (pname : Str) : Bool :=
  if !pname.head?.any isalpha || (strstr (ascii "ram") pname).isSome then false
  else if slash ∈ pname ∧ strstr (ascii "iseries") pname = none ∧
      strstr (ascii "i2o") pname = none then
    -- either `ida` or `cciss`, with names of the form `c?d?p?`
    (0x70 : UInt8) ∈ pname
  else pname.getLast?.any isdigit

def isDelim (b : UInt8) : Bool := b = 0x20 || b = newline

/-- What `strsep` returns of a line, one call after the other. -/
def strsep (line : Str) : List Str := line.splitOnP isDelim

/-- `strncmp(disk, b, strlen(disk))` finds no difference, or there is no disk. -/
def startsWith (disk : Option Str) (b : Str) : Bool := disk.all (fun d => d.isPrefixOf b)

/-- The loop over the fields of a line: the name of a partition. -/
def scanFields (disk : Option Str) : ℕ → List Str → Option Str
  | _, [] => none
  | toknum, b :: fields =>
    if b = [] then scanFields disk toknum fields
    else if toknum = 0 then
      if !b.head?.any isdigit then none else scanFields disk (toknum + 1) fields
    else if toknum = 2 then
      if b = ascii "1" then none else scanFields disk (toknum + 1) fields
    else if toknum = 3 then
      if !isPartitionName b then none else if !startsWith disk b then none else some b
    else scanFields disk (toknum + 1) fields

def devName (b : Str) : Str := ascii "/dev/" ++ b

def position (pptr : Str) : ℕ → List (Option Str) → ℕ
  | left + 1, some x :: rc => if strcmp pptr x = .lt then 0 else position pptr left rc + 1
  | _, _ => 0

def addEntry (pptr : Str) (rc : Option (List (Option Str))) (numfound : ℕ) : List (Option Str) :=
  match rc with
  | none => [some pptr, none]
  | some rc =>
    let idx := position pptr numfound rc
    -- what `realloc` adds is overwritten below
    let rc := rc ++ [none]
    let rc := if idx ≠ numfound then
        rc.take (idx + 1) ++ (rc.drop idx).take (numfound - idx) ++ rc.drop (numfound + 1)
      else rc
    (rc.set idx (some pptr)).set (numfound + 1) none

structure Found where
  rc : Option (List (Option Str))
  numfound : ℕ
  deriving DecidableEq, Repr

def addLine (disk : Option Str) (f : Found) (line : Str) : Found :=
  match scanFields disk 0 (strsep line) with
  | none => f
  | some b => ⟨some (addEntry (devName b) f.rc f.numfound), f.numfound + 1⟩

def getPartitionsList (disk : Option Str) (t : Table) : Option (List (Option Str)) :=
  ((pieces TMPSTR [] t.content).foldl (addLine disk) ⟨none, 0⟩).rc

/-! ## What is asked of it -/

/-- The name on a line whose first field begins with a digit and whose size is not 1. -/
def lineName (line : Str) : Option Str :=
  match (line.splitOnP isDelim).filter (· ≠ []) with
  | first :: _ :: size :: name :: _ =>
    if first.head?.any isdigit ∧ size ≠ ascii "1" ∧ isPartitionName name = true then some name
    else none
  | _ => none

/-- The names on the lines, when they come in pieces of `m` bytes, or whole for 0. -/
def names (m : ℕ) (t : Table) : List Str := (pieces m [] t.content).filterMap lineName

/-- The kernel puts a number behind the name of a disk to name a partition, and a `p` between them if
the name ends in a digit. -/
def partitionOf (disk name : Str) : Bool :=
  let number := if disk.getLast?.any isdigit then disk ++ [0x70] else disk
  number.isPrefixOf name && name.drop number.length ≠ [] && (name.drop number.length).all isdigit

def ofDisk (disk : Option Str) (name : Str) : Bool := disk.all (fun d => partitionOf d name)

/-- The devices of the partitions, sorted, with NULL behind them, or NULL if there are none. -/
def ListRight (disk : Option Str) (t : Table) : Prop :=
  let wanted := ((names 0 t).filter (ofDisk disk)).map devName
  (wanted = [] → getPartitionsList disk t = none) ∧
    (wanted ≠ [] → ∃ sorted : List Str, getPartitionsList disk t = some (sorted.map some ++ [none]) ∧
      sorted.Perm wanted ∧ sorted.Pairwise (fun s t => strcmp s t ≠ .gt))

/-- Of the names that begin with the one of the disk, its partitions stand on as many pieces of the
buffer's size as on lines, and others on no piece. -/
def Separate (disk : Option Str) (t : Table) : Prop :=
  ∀ name, startsWith disk name = true →
    (names TMPSTR t).count name = if ofDisk disk name then (names 0 t).count name else 0

section Fields
variable {disk : Option Str} {line : Str}

theorem scanFields_filter (disk : Option Str) (toknum : ℕ) (fields : List Str) :
    scanFields disk toknum fields = scanFields disk toknum (fields.filter (· ≠ [])) := by
  induction fields generalizing toknum with
  | nil => rfl
  | cons b fields ih =>
    by_cases hb : b = []
    · rw [List.filter_cons_of_neg (by simpa using hb), scanFields, if_pos hb]
      exact ih toknum
    · rw [List.filter_cons_of_pos (by simpa using hb), scanFields, scanFields, if_neg hb, if_neg hb,
        ih (toknum + 1)]

theorem scanFields_line (disk : Option Str) (line : Str) :
    scanFields disk 0 (strsep line) = (lineName line).filter (startsWith disk) := by
  have hall : ∀ b ∈ (line.splitOnP isDelim).filter (· ≠ []), b ≠ [] := by
    intro b hb
    simpa using (List.mem_filter.mp hb).2
  rw [strsep, scanFields_filter, lineName]
  generalize (line.splitOnP isDelim).filter (· ≠ []) = fields at hall ⊢
  rcases fields with _ | ⟨first, _ | ⟨minor, _ | ⟨size, _ | ⟨name, fields⟩⟩⟩⟩
  · rfl
  · have hfirst := hall first (by simp)
    simp [scanFields, hfirst]
  · have hfirst := hall first (by simp)
    have hminor := hall minor (by simp)
    simp [scanFields, hfirst, hminor]
  · have hfirst := hall first (by simp)
    have hminor := hall minor (by simp)
    have hsize := hall size (by simp)
    simp [scanFields, hfirst, hminor, hsize]
  · have hfirst := hall first (by simp)
    have hminor := hall minor (by simp)
    have hsize := hall size (by simp)
    have hname := hall name (by simp)
    by_cases hdigit : first.head?.any isdigit = true
    · by_cases hone : size = ascii "1"
      · have hne : ascii "1" ≠ [] := by decide
        simp [scanFields, hfirst, hminor, hone, hne]
      · by_cases hpart : isPartitionName name = true
        · cases hstart : startsWith disk name with
          | true => simp [scanFields, hfirst, hminor, hsize, hname, hdigit, hone, hpart, hstart,
              Option.filter]
          | false => simp [scanFields, hfirst, hminor, hsize, hname, hdigit, hone, hpart, hstart,
              Option.filter]
        · simp [scanFields, hfirst, hminor, hsize, hname, hdigit, hone, hpart]
    · simp [scanFields, hfirst, hdigit]

end Fields

section Array
variable {pptr : Str} {xs : List Str}

/-- The entry in front of the first greater one. -/
def insertName (pptr : Str) : List Str → List Str
  | [] => [pptr]
  | x :: xs => if strcmp pptr x = .lt then pptr :: x :: xs else x :: insertName pptr xs

theorem insertName_eq (pptr : Str) (xs : List Str) :
    insertName pptr xs = xs.take (position pptr xs.length (xs.map some ++ [none])) ++
      pptr :: xs.drop (position pptr xs.length (xs.map some ++ [none])) := by
  induction xs with
  | nil => rfl
  | cons x xs ih =>
    rw [insertName, List.length_cons, List.map_cons, List.cons_append, position]
    split_ifs with hlt
    · rfl
    · rw [List.take_succ_cons, List.drop_succ_cons, List.cons_append, ← ih]

theorem position_le (pptr : Str) (xs : List Str) :
    position pptr xs.length (xs.map some ++ [none]) ≤ xs.length := by
  induction xs with
  | nil => exact le_rfl
  | cons x xs ih =>
    rw [List.length_cons, List.map_cons, List.cons_append, position]
    split_ifs
    · exact Nat.zero_le _
    · exact Nat.succ_le_succ ih

theorem move_eq {α : Type} (A : List α) (b : α) (B : List α) (y z : α) :
    (A ++ b :: (B ++ [y, z])).take (A.length + 1) ++
        ((A ++ b :: (B ++ [y, z])).drop A.length).take (B.length + 1) ++
        (A ++ b :: (B ++ [y, z])).drop (A.length + (B.length + 1) + 1) =
      A ++ b :: b :: (B ++ [z]) := by
  have hfront : (A ++ b :: (B ++ [y, z])).take (A.length + 1) = A ++ [b] := by
    rw [List.take_length_add_append]
    rfl
  have hmoved : ((A ++ b :: (B ++ [y, z])).drop A.length).take (B.length + 1) = b :: B := by
    rw [List.drop_left, List.take_succ_cons, List.take_left]
  have hend : (A ++ b :: (B ++ [y, z])).drop (A.length + (B.length + 1) + 1) = [z] := by
    rw [Nat.add_assoc, List.drop_length_add_append, List.drop_succ_cons,
      List.drop_length_add_append]
    rfl
  rw [hfront, hmoved, hend, List.append_assoc, List.append_assoc]
  rfl

theorem set_length {α : Type} (A : List α) (b c : α) (B : List α) :
    (A ++ b :: B).set A.length c = A ++ c :: B := by
  rw [List.set_append_right _ _ le_rfl, Nat.sub_self]
  rfl

/-- The move makes room for one entry, and the NULL stays behind the last one. -/
theorem addEntry_eq (pptr : Str) (xs : List Str) :
    addEntry pptr (some (xs.map some ++ [none])) xs.length =
      (insertName pptr xs).map some ++ [none] := by
  have hle := position_le pptr xs
  rw [insertName_eq, addEntry]
  generalize position pptr xs.length (xs.map some ++ [none]) = idx at hle ⊢
  obtain ⟨A, B, rfl, rfl⟩ : ∃ A B, xs = A ++ B ∧ idx = A.length :=
    ⟨xs.take idx, xs.drop idx, (List.take_append_drop idx xs).symm,
      (List.length_take_of_le hle).symm⟩
  rw [List.take_left, List.drop_left, List.map_append, List.map_append, List.map_cons]
  have hA : A.length = (A.map (some : Str → Option Str)).length := (List.length_map _).symm
  have hB : B.length = (B.map (some : Str → Option Str)).length := (List.length_map _).symm
  rw [List.length_append, hA, hB]
  generalize A.map (some : Str → Option Str) = A, B.map (some : Str → Option Str) = B
  -- the NULL that is written last is there already
  have hlast : (A ++ some pptr :: (B ++ [none])).set (A.length + B.length + 1) none =
      A ++ some pptr :: (B ++ [none]) := by
    have hset := set_length (A ++ some pptr :: B) none none []
    rwa [List.length_append, List.length_cons, List.append_assoc] at hset
  rcases B with _ | ⟨b, B⟩
  · rw [if_neg (by simp)]
    simp only [List.append_nil, List.append_assoc, List.singleton_append, List.nil_append] at hlast ⊢
    rw [set_length, hlast]
  · have hgrown : A ++ b :: B ++ [none] ++ [none] = A ++ b :: (B ++ [none, none]) := by simp
    have hcount : A.length + (b :: B).length - A.length = B.length + 1 := by simp
    rw [if_pos (by simp), hgrown, hcount, List.length_cons, move_eq, set_length, List.append_assoc]
    exact hlast

theorem insertName_perm (pptr : Str) (xs : List Str) : (insertName pptr xs).Perm (pptr :: xs) := by
  induction xs with
  | nil => exact List.Perm.refl _
  | cons x xs ih =>
    rw [insertName]
    split_ifs
    · exact List.Perm.refl _
    · exact (ih.cons x).trans (List.Perm.swap pptr x xs)

theorem strcmp_le_trans {s t u : Str} (h : strcmp s t ≠ .gt) (h' : strcmp t u ≠ .gt) :
    strcmp s u ≠ .gt := by
  intro hgt
  rw [strcmp_gt] at hgt
  rcases htu : strcmp t u with _ | _ | _
  · exact h (strcmp_gt.mpr (strcmp_trans htu hgt))
  · exact h (strcmp_gt.mpr (strcmp_eq.mp htu ▸ hgt))
  · exact h' htu

theorem insertName_sorted (hxs : xs.Pairwise (fun s t => strcmp s t ≠ .gt)) :
    (insertName pptr xs).Pairwise (fun s t => strcmp s t ≠ .gt) := by
  induction xs with
  | nil => exact List.pairwise_singleton _ _
  | cons x xs ih =>
    obtain ⟨hx, hrest⟩ := List.pairwise_cons.mp hxs
    rw [insertName]
    split_ifs with hlt
    · refine List.pairwise_cons.mpr ⟨?_, hxs⟩
      intro y hy
      have hpx : strcmp pptr x ≠ .gt := by
        rw [hlt]
        decide
      rcases List.mem_cons.mp hy with rfl | hy
      · exact hpx
      · exact strcmp_le_trans hpx (hx y hy)
    · refine List.pairwise_cons.mpr ⟨?_, ih hrest⟩
      intro y hy
      rcases List.mem_cons.mp ((insertName_perm pptr xs).subset hy) with rfl | hy
      · exact fun hgt => hlt (strcmp_gt.mp hgt)
      · exact hx y hy

end Array

section Result
variable {disk : Option Str} {t : Table}

/-- The state when the names `xs` have been inserted. -/
def encode : List Str → Found
  | [] => ⟨none, 0⟩
  | x :: xs => ⟨some ((x :: xs).map some ++ [none]), xs.length + 1⟩

theorem insertName_ne_nil (pptr : Str) (xs : List Str) : insertName pptr xs ≠ [] := by
  intro h
  have hlen := (insertName_perm pptr xs).length_eq
  rw [h] at hlen
  cases hlen

theorem encode_of_ne_nil {xs : List Str} (h : xs ≠ []) :
    encode xs = ⟨some (xs.map some ++ [none]), xs.length⟩ := by
  cases xs with
  | nil => exact absurd rfl h
  | cons x xs => rfl

theorem addLine_encode (disk : Option Str) (xs : List Str) (line : Str) :
    addLine disk (encode xs) line =
      encode (((lineName line).filter (startsWith disk)).elim xs
        (fun b => insertName (devName b) xs)) := by
  rw [addLine, scanFields_line]
  cases (lineName line).filter (startsWith disk) with
  | none => rfl
  | some b =>
    have hlen : (insertName (devName b) xs).length = xs.length + 1 :=
      (insertName_perm (devName b) xs).length_eq
    dsimp only [Option.elim]
    rw [encode_of_ne_nil (insertName_ne_nil _ _), hlen]
    cases xs with
    | nil => rfl
    | cons x xs => exact congrArg (fun rc => Found.mk (some rc) _) (addEntry_eq _ (x :: xs))

theorem foldl_addLine (disk : Option Str) (lines : List Str) (xs : List Str)
    (hxs : xs.Pairwise (fun s t => strcmp s t ≠ .gt)) :
    ∃ sorted, lines.foldl (addLine disk) (encode xs) = encode sorted ∧
      sorted.Perm (((lines.filterMap lineName).filter (startsWith disk)).map devName ++ xs) ∧
      sorted.Pairwise (fun s t => strcmp s t ≠ .gt) := by
  induction lines generalizing xs with
  | nil => exact ⟨xs, rfl, List.Perm.refl _, hxs⟩
  | cons line lines ih =>
    rw [List.foldl_cons, addLine_encode]
    cases hname : lineName line with
    | none =>
      rw [List.filterMap_cons_none hname]
      exact ih xs hxs
    | some b =>
      rw [List.filterMap_cons_some hname]
      cases hstart : startsWith disk b with
      | false =>
        rw [Option.filter_some_neg (by simp [hstart]), List.filter_cons_of_neg (by simp [hstart])]
        exact ih xs hxs
      | true =>
        rw [Option.filter_some_pos hstart, List.filter_cons_of_pos hstart, List.map_cons]
        obtain ⟨sorted, hfold, hperm, hsorted⟩ := ih _ (insertName_sorted hxs)
        refine ⟨sorted, hfold, hperm.trans ?_, hsorted⟩
        exact ((insertName_perm (devName b) xs).append_left _).trans List.perm_middle

theorem getPartitionsList_eq (disk : Option Str) (t : Table) :
    ∃ sorted, getPartitionsList disk t = (encode sorted).rc ∧
      sorted.Perm (((names TMPSTR t).filter (startsWith disk)).map devName) ∧
      sorted.Pairwise (fun s t => strcmp s t ≠ .gt) := by
  obtain ⟨sorted, hfold, hperm, hsorted⟩ :=
    foldl_addLine disk (pieces TMPSTR [] t.content) [] List.Pairwise.nil
  rw [List.append_nil] at hperm
  exact ⟨sorted, congrArg Found.rc hfold, hperm, hsorted⟩

theorem partitionOf_prefix {d name : Str} (h : partitionOf d name = true) :
    d.isPrefixOf name = true := by
  unfold partitionOf at h
  rw [Bool.and_eq_true, Bool.and_eq_true, List.isPrefixOf_iff_prefix] at h
  rw [List.isPrefixOf_iff_prefix]
  refine List.IsPrefix.trans ?_ h.1.1
  split_ifs
  · exact List.prefix_append _ _
  · exact List.prefix_rfl

theorem startsWith_of_ofDisk {name : Str} (h : ofDisk disk name = true) :
    startsWith disk name = true := by
  cases disk with
  | none => rfl
  | some d => exact partitionOf_prefix h

theorem count_filter_eq (p : Str → Bool) (name : Str) (l : List Str) :
    (l.filter p).count name = if p name then l.count name else 0 := by
  by_cases hp : p name = true
  · rw [if_pos hp, List.count_filter hp]
  · rw [if_neg hp]
    exact List.count_eq_zero_of_not_mem fun h => hp (List.mem_filter.mp h).2

theorem separate_iff (disk : Option Str) (t : Table) :
    Separate disk t ↔
      ((names TMPSTR t).filter (startsWith disk)).Perm ((names 0 t).filter (ofDisk disk)) := by
  rw [List.perm_iff_count]
  refine forall_congr' fun name => ?_
  rw [count_filter_eq, count_filter_eq]
  by_cases hstart : startsWith disk name = true
  · rw [if_pos hstart]
    exact ⟨fun h => h hstart, fun h _ => h⟩
  · have hdisk : ofDisk disk name ≠ true := fun h => hstart (startsWith_of_ofDisk h)
    rw [if_neg hstart, if_neg hdisk]
    exact ⟨fun _ => rfl, fun _ h => absurd h hstart⟩

theorem devName_injective : Function.Injective devName := fun _ _ h => List.append_cancel_left h

theorem encode_rc_eq_none {xs : List Str} : (encode xs).rc = none ↔ xs = [] := by
  cases xs with
  | nil => exact iff_of_true rfl rfl
  | cons x xs => exact iff_of_false (Option.some_ne_none _) (List.cons_ne_nil _ _)

theorem encode_rc_eq_some {xs ys : List Str} (h : (encode xs).rc = some (ys.map some ++ [none])) :
    xs = ys := by
  have hxs : xs ≠ [] := fun hnil => Option.some_ne_none _ (h.symm.trans (encode_rc_eq_none.mpr hnil))
  rw [encode_of_ne_nil hxs] at h
  have hmap := (List.append_inj' (Option.some.inj h) rfl).1
  exact List.map_injective_iff.mpr (fun _ _ h => Option.some.inj h) hmap

theorem getPartitionsList_right_iff (disk : Option Str) (t : Table) :
    ListRight disk t ↔ Separate disk t := by
  rw [separate_iff, ← List.map_perm_map_iff devName_injective]
  obtain ⟨sorted, hget, hperm, hsorted⟩ := getPartitionsList_eq disk t
  unfold ListRight
  dsimp only
  generalize ((names 0 t).filter (ofDisk disk)).map devName = wanted
  constructor
  · rintro ⟨hnone, hsome⟩
    by_cases hnil : wanted = []
    · have hempty := encode_rc_eq_none.mp (hget.symm.trans (hnone hnil))
      rw [hempty] at hperm
      rw [hnil]
      exact hperm.symm
    · obtain ⟨ys, hys, hwanted, -⟩ := hsome hnil
      obtain rfl := encode_rc_eq_some (hget.symm.trans hys)
      exact hperm.symm.trans hwanted
  · intro hsep
    have hwanted := hperm.trans hsep
    refine ⟨?_, ?_⟩
    · rintro rfl
      rw [hget, encode_rc_eq_none]
      exact hwanted.eq_nil
    · intro hnil
      have hne : sorted ≠ [] := by
        rintro rfl
        exact hnil hwanted.symm.eq_nil
      exact ⟨sorted, by rw [hget, encode_of_ne_nil hne], hwanted, hsorted⟩

/-- The first partition of `sdaa`, and the disk `sda`. -/
def sdaaTable : Table := ⟨ascii "65 161 1024 sdaa1\n", by decide⟩

theorem getPartitionsList_sdaa : ¬ ListRight (some (ascii "sda")) sdaaTable := by
  rintro ⟨hnone, -⟩
  have hget := hnone (by decide)
  revert hget
  decide

end Result
end Comodoo.Partitions
