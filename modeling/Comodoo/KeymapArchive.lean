import Comodoo.ByteMemory
import Comodoo.CString

set_option autoImplicit false

/-!
# The archive of keymaps

`isysLoadKeymap` and `loadKeymap` of `isys/lang.c` read `/etc/keymaps.gz`: a header, the sizes and
names of the keymaps, and the keymaps one after the other. The bytes are those of a little-endian
machine, and a count or size that is negative as an `int` is a fault.
-/
namespace Comodoo.KeymapArchive
open CString LittleEndian

abbrev MAX_NR_KEYMAPS : ℕ := 256
abbrev NR_KEYS : ℕ := 128
abbrev KMAP_MAGIC : ℕ := 0x8B39C07F
abbrev KMAP_NAMELEN : ℕ := 40
abbrev KT_SPEC : ℕ := 2
abbrev bufSize : ℕ := 16384

abbrev ENOENT : ℤ := 2
abbrev EIO : ℤ := 5
abbrev EACCES : ℤ := 13
abbrev EINVAL : ℤ := 22

def KTYP (value : ℕ) : ℕ := value / 256

/-- `struct kbentry`. -/
structure KbEntry where
  table : ℕ
  index : ℕ
  value : ℕ
  deriving DecidableEq, Repr

/-- What the console is like, and which settings it refuses. -/
structure Console where
  isVio : Bool
  /-- standard input is a pty -/
  onPty : Bool
  opens : Bool
  refuses : KbEntry → Option ℕ

/-- The loop over the keys of a table: the `errno` it stops at, and what has been set. -/
def setKeys (c : Console) (kmap : ℕ) : ℕ → List ℕ → Option ℕ × List KbEntry
  | _, [] => (none, [])
  | key, value :: keymap =>
    let entry : KbEntry := ⟨kmap, key, value⟩
    if KTYP value ≠ KT_SPEC then
      match c.refuses entry with
      | some ret => (some ret, [])
      | none =>
        let r := setKeys c kmap (key + 1) keymap
        (r.1, entry :: r.2)
    else setKeys c kmap (key + 1) keymap

def loadTables (c : Console) : ℕ → List ℕ → Str → ℤ × List KbEntry
  | _, [], _ => (0, [])
  | kmap, present :: keymaps, stream =>
    if present = 0 then loadTables c (kmap + 1) keymaps stream
    else if stream.length < 2 * NR_KEYS then (- EIO, [])
    else
      match setKeys c kmap 0 (values 2 NR_KEYS stream) with
      | (some ret, set) => (ret, set)
      | (none, set) =>
        let r := loadTables c (kmap + 1) keymaps (stream.drop (2 * NR_KEYS))
        (r.1, set ++ r.2)

def loadKeymap (c : Console) (stream : Str) : ℤ × List KbEntry :=
  if c.isVio then (0, [])
  else if c.onPty then (0, [])
  else if stream.length < 4 then (- EIO, [])
  else if value (stream.take 4) ≠ KMAP_MAGIC then (-EINVAL, [])
  else if (stream.drop 4).length < 4 * MAX_NR_KEYMAPS then (-EINVAL, [])
  else if ¬c.opens then (-EACCES, [])
  else loadTables c 0 (values 4 MAX_NR_KEYMAPS (stream.drop 4)) (stream.drop (4 + 4 * MAX_NR_KEYMAPS))

inductive Result where
  | returned (rc : ℤ) (set : List KbEntry)
  | fault
  deriving DecidableEq, Repr

/-- `!strcmp(name, keymap)`, where `name` goes on to the end of the array; `none` is a read behind
it. -/
def sameName : Str → Str → Option Bool
  | [], _ => none
  | b :: _, [] => some (b = 0)
  | b :: name, k :: keymap => if b = k then sameName name keymap else some false

def findName (keymap : Str) : ℕ → Str → Option (Option ℕ)
  | 0, _ => some none
  | n + 1, table =>
    match sameName (table.drop 4) keymap with
    | none => none
    | some true => some (some 0)
    | some false => (findName keymap n (table.drop (4 + KMAP_NAMELEN))).map (Option.map Nat.succ)

/-- The reads of the keymaps in front, into `buf`. A negative size is a fault. -/
def skipKeymaps : ℕ → Str → Str → Result ⊕ Str
  | 0, _, stream => .inr stream
  | num + 1, table, stream =>
    let size := value (table.take 4)
    if 2 ^ 31 ≤ size ∨ bufSize < min size stream.length then .inl .fault
    else if stream.length < size then .inl (.returned (- EIO) [])
    else skipKeymaps num (table.drop (4 + KMAP_NAMELEN)) (stream.drop size)

/-- `none` is a file that cannot be opened. -/
def isysLoadKeymap (c : Console) (file : Option Str) (keymap : Str) : Result :=
  match file with
  | none => .returned (-EACCES) []
  | some f =>
    if f.length < 8 then .returned (-EINVAL) []
    else
      let numEntries := value ((f.drop 4).take 4)
      let size := numEntries * (4 + KMAP_NAMELEN)
      if 2 ^ 31 ≤ size then .fault
      else if (f.drop 8).length < size then .returned (- EIO) []
      else
        let infoTable := (f.drop 8).take size
        match findName keymap numEntries infoTable with
        | none => .fault
        | some none => .returned (-ENOENT) []
        | some (some num) =>
          match skipKeymaps num infoTable (f.drop (8 + size)) with
          | .inl r => r
          | .inr stream =>
            let r := loadKeymap c stream
            .returned r.1 r.2

/-! ## What the archive is for -/

/-- The tables of a keymap, those that it has. -/
structure Keymap where
  tables : List (Option (List ℕ))
  count : tables.length = MAX_NR_KEYMAPS
  full : ∀ t ∈ tables, ∀ keys ∈ t, keys.length = NR_KEYS ∧ ∀ v ∈ keys, v < 2 ^ 16

/-- A keymap with its name. -/
structure Archived where
  name : Str
  map : Keymap
  noNul : 0 ∉ name
  short : name.length < KMAP_NAMELEN

/-- An entry of `keymaps`. -/
def present (t : Option (List ℕ)) : ℕ := if t.isSome then 1 else 0

def tableBytes (t : Option (List ℕ)) : Str := (t.getD []).flatMap (bytes 2)

def keymapBytes (m : Keymap) : Str :=
  bytes 4 KMAP_MAGIC ++ ((m.tables.map present).flatMap (bytes 4) ++ m.tables.flatMap tableBytes)

def info (a : Archived) : Str :=
  bytes 4 (keymapBytes a.map).length ++ (a.name ++ List.replicate (KMAP_NAMELEN - a.name.length) 0)

/-- The file. -/
def archive (as : List Archived) : Str :=
  bytes 4 KMAP_MAGIC ++ bytes 4 as.length ++ as.flatMap info ++ as.flatMap (fun a => keymapBytes a.map)

/-- The keys of a table that are set. -/
def tableSettings (kmap key : ℕ) (keys : List ℕ) : List KbEntry :=
  ((keys.zipIdx key).map (fun v => ⟨kmap, v.2, v.1⟩)).filter (fun e => KTYP e.value ≠ KT_SPEC)

def settingsFrom (kmap : ℕ) (tables : List (Option (List ℕ))) : List KbEntry :=
  (tables.zipIdx kmap).flatMap (fun t => tableSettings t.2 0 (t.1.getD []))

def settings (m : Keymap) : List KbEntry := settingsFrom 0 m.tables

/-- Settings one after the other up to the first that is refused. -/
def attempt (c : Console) : List KbEntry → Option ℕ × List KbEntry
  | [] => (none, [])
  | e :: es =>
    match c.refuses e with
    | some ret => (some ret, [])
    | none => ((attempt c es).1, e :: (attempt c es).2)

/-- What loading a keymap comes to. -/
def load (c : Console) (m : Keymap) : Result :=
  if c.isVio ∨ c.onPty then .returned 0 []
  else if ¬c.opens then .returned (-EACCES) []
  else .returned ((attempt c (settings m)).1.getD 0) (attempt c (settings m)).2

/-- A keymap that does not fit into `buf`. -/
def TooBig (m : Keymap) : Prop := 60 ≤ m.tables.countP Option.isSome

instance (m : Keymap) : Decidable (TooBig m) := inferInstanceAs (Decidable (_ ≤ _))

def inFront (keymap : Str) (as : List Archived) : List Archived :=
  as.takeWhile (fun a => a.name ≠ keymap)

section Load

variable {c : Console}

theorem attempt_append (es fs : List KbEntry) :
    attempt c (es ++ fs) =
      match attempt c es with
      | (some ret, set) => (some ret, set)
      | (none, set) => ((attempt c fs).1, set ++ (attempt c fs).2) := by
  induction es with
  | nil => rfl
  | cons e es ih =>
    rw [List.cons_append, attempt, attempt]
    cases c.refuses e with
    | some ret => rfl
    | none =>
      dsimp only
      rw [ih]
      cases attempt c es with
      | mk rc set => cases rc <;> rfl

theorem setKeys_eq (kmap key : ℕ) (keys : List ℕ) :
    setKeys c kmap key keys = attempt c (tableSettings kmap key keys) := by
  induction keys generalizing key with
  | nil => rfl
  | cons v keys ih =>
    rw [setKeys, tableSettings, List.zipIdx_cons, List.map_cons]
    by_cases hv : KTYP v ≠ KT_SPEC
    · rw [if_pos hv, List.filter_cons_of_pos (by simpa using hv), attempt]
      cases c.refuses ⟨kmap, key, v⟩ with
      | some ret => rfl
      | none =>
        dsimp only
        rw [ih]
        rfl
    · rw [if_neg hv, List.filter_cons_of_neg (by simpa using hv)]
      exact ih (key + 1)

theorem settingsFrom_cons (kmap : ℕ) (t : Option (List ℕ)) (tables : List (Option (List ℕ))) :
    settingsFrom kmap (t :: tables) =
      tableSettings kmap 0 (t.getD []) ++ settingsFrom (kmap + 1) tables := by
  rw [settingsFrom, List.zipIdx_cons, List.flatMap_cons]
  rfl

theorem loadTables_eq {tables : List (Option (List ℕ))} (kmap : ℕ) (tail : Str)
    (h : ∀ t ∈ tables, ∀ keys ∈ t, keys.length = NR_KEYS ∧ ∀ v ∈ keys, v < 2 ^ 16) :
    loadTables c kmap (tables.map present) (tables.flatMap tableBytes ++ tail) =
      ((((attempt c (settingsFrom kmap tables)).1.getD 0 : ℕ) : ℤ),
        (attempt c (settingsFrom kmap tables)).2) := by
  induction tables generalizing kmap with
  | nil => rfl
  | cons t tables ih =>
    have hrest := ih (kmap + 1) (fun u hu => h u (List.mem_cons_of_mem _ hu))
    rw [settingsFrom_cons, List.map_cons, List.flatMap_cons, loadTables]
    cases t with
    | none =>
      have hnone : present none = 0 := rfl
      rw [if_pos hnone]
      exact hrest
    | some keys =>
      have hsome : present (some keys) ≠ 0 := Nat.one_ne_zero
      have hkeys := h (some keys) List.mem_cons_self keys rfl
      have hlen : (tableBytes (some keys)).length = 2 * NR_KEYS := by
        rw [tableBytes, length_flatMap_bytes, Option.getD_some, hkeys.1, Nat.mul_comm]
      have hvalues : values 2 NR_KEYS (tableBytes (some keys) ++
          (tables.flatMap tableBytes ++ tail)) = keys := by
        rw [← hkeys.1]
        exact values_flatMap_bytes hkeys.2 _
      rw [if_neg hsome, List.append_assoc, hvalues, setKeys_eq, List.drop_left' hlen, hrest,
        Option.getD_some, attempt_append, if_neg]
      · cases attempt c (tableSettings kmap 0 keys) with
        | mk rc set => cases rc <;> rfl
      · rw [List.length_append, hlen]
        omega

theorem length_present (tables : List (Option (List ℕ))) :
    ((tables.map present).flatMap (bytes 4)).length = 4 * tables.length := by
  rw [length_flatMap_bytes, List.length_map, Nat.mul_comm]

theorem loadKeymap_eq (m : Keymap) (tail : Str) :
    Result.returned (loadKeymap c (keymapBytes m ++ tail)).1
      (loadKeymap c (keymapBytes m ++ tail)).2 = load c m := by
  have hpresent := length_present m.tables
  rw [m.count] at hpresent
  unfold loadKeymap load
  by_cases hvio : c.isVio = true
  · rw [if_pos hvio, if_pos (Or.inl hvio)]
  by_cases hpty : c.onPty = true
  · rw [if_neg hvio, if_pos hpty, if_pos (Or.inr hpty)]
  have hmagic : value (bytes 4 KMAP_MAGIC) = KMAP_MAGIC := value_bytes (by decide)
  have hwords : ∀ w ∈ m.tables.map present, w < 256 ^ 4 := by
    intro w hw
    obtain ⟨t, -, rfl⟩ := List.mem_map.mp hw
    rw [present]
    split <;> decide
  have htables := values_flatMap_bytes hwords (m.tables.flatMap tableBytes ++ tail)
  rw [List.length_map, m.count] at htables
  have hstream : keymapBytes m ++ tail = bytes 4 KMAP_MAGIC ++
      ((m.tables.map present).flatMap (bytes 4) ++ (m.tables.flatMap tableBytes ++ tail)) := by
    rw [keymapBytes, List.append_assoc, List.append_assoc]
  have hdrop : (keymapBytes m ++ tail).drop (4 + 4 * MAX_NR_KEYMAPS) =
      m.tables.flatMap tableBytes ++ tail := by
    rw [hstream, ← List.drop_drop, List.drop_left' length_bytes, List.drop_left' hpresent]
  have hlong : ¬(keymapBytes m ++ tail).length < 4 := by
    rw [hstream, List.length_append, length_bytes]
    omega
  have hfull : ¬((keymapBytes m ++ tail).drop 4).length < 4 * MAX_NR_KEYMAPS := by
    rw [hstream, List.drop_left' length_bytes, List.length_append, hpresent]
    omega
  have hconsole : ¬(c.isVio = true ∨ c.onPty = true) := not_or.mpr ⟨hvio, hpty⟩
  rw [if_neg hvio, if_neg hpty, if_neg hlong, if_neg hfull, hdrop, hstream,
    List.take_left' length_bytes, hmagic, if_neg (by simp), List.drop_left' length_bytes, htables,
    loadTables_eq 0 tail m.full, if_neg hconsole]
  by_cases hopens : c.opens = true
  · rw [if_neg (by simp [hopens]), if_neg (by simp [hopens])]
    rfl
  · rw [if_pos hopens, if_pos hopens]

end Load

section Archive

variable {c : Console} {keymap : Str}

theorem length_tableBytes {tables : List (Option (List ℕ))}
    (h : ∀ t ∈ tables, ∀ keys ∈ t, keys.length = NR_KEYS ∧ ∀ v ∈ keys, v < 2 ^ 16) :
    (tables.flatMap tableBytes).length = 256 * tables.countP Option.isSome := by
  induction tables with
  | nil => rfl
  | cons t tables ih =>
    have hrest := ih (fun u hu => h u (List.mem_cons_of_mem _ hu))
    rw [List.flatMap_cons, List.length_append, hrest]
    cases t with
    | none => rw [List.countP_cons_of_neg (by simp), tableBytes]; simp
    | some keys =>
      have hkeys := (h (some keys) List.mem_cons_self keys rfl).1
      rw [List.countP_cons_of_pos (by simp), tableBytes, length_flatMap_bytes, Option.getD_some, hkeys]
      simp only [NR_KEYS]
      omega

theorem length_keymapBytes (m : Keymap) :
    (keymapBytes m).length = 1028 + 256 * m.tables.countP Option.isSome := by
  rw [keymapBytes, List.length_append, List.length_append, length_bytes, length_present,
    length_tableBytes m.full, m.count]
  simp only [MAX_NR_KEYMAPS]
  omega

theorem length_keymapBytes_lt (m : Keymap) : (keymapBytes m).length < 2 ^ 31 := by
  have hcount : m.tables.countP Option.isSome ≤ m.tables.length := List.countP_le_length
  rw [m.count] at hcount
  rw [length_keymapBytes]
  simp only [MAX_NR_KEYMAPS] at hcount
  omega

theorem tooBig_iff (m : Keymap) : bufSize < (keymapBytes m).length ↔ TooBig m := by
  rw [length_keymapBytes, TooBig]
  simp only [bufSize]
  omega

theorem length_info (a : Archived) : (info a).length = 4 + KMAP_NAMELEN := by
  have hshort := a.short
  rw [info, List.length_append, length_bytes, List.length_append, List.length_replicate]
  omega

theorem sameName_eq {name : Str} (hname : 0 ∉ name) (hkeymap : 0 ∉ keymap) (rest : Str) :
    sameName (name ++ 0 :: rest) keymap = some (decide (name = keymap)) := by
  induction name generalizing keymap with
  | nil =>
    cases keymap with
    | nil => rfl
    | cons k keymap =>
      have hk : (0 : UInt8) ≠ k := fun h => hkeymap (h ▸ List.mem_cons_self)
      rw [List.nil_append, sameName, if_neg hk]
      rfl
  | cons b name ih =>
    cases keymap with
    | nil =>
      have hb : b ≠ 0 := fun h => hname (h ▸ List.mem_cons_self)
      rw [List.cons_append, sameName]
      simp [hb]
    | cons k keymap =>
      rw [List.cons_append, sameName]
      by_cases hk : b = k
      · rw [if_pos hk, ih (fun h => hname (List.mem_cons_of_mem _ h))
          (fun h => hkeymap (List.mem_cons_of_mem _ h))]
        simp [hk]
      · rw [if_neg hk]
        simp [hk]

theorem sameName_info (hkeymap : 0 ∉ keymap) (a : Archived) (rest : Str) :
    sameName ((info a ++ rest).drop 4) keymap = some (decide (a.name = keymap)) := by
  obtain ⟨n, hn⟩ : ∃ n, KMAP_NAMELEN - a.name.length = n + 1 :=
    ⟨KMAP_NAMELEN - a.name.length - 1, by have := a.short; omega⟩
  rw [info, List.append_assoc, List.drop_left' length_bytes, hn, List.replicate_succ,
    List.append_assoc, List.cons_append]
  exact sameName_eq a.noNul hkeymap _

theorem drop_info (a : Archived) (rest : Str) : (info a ++ rest).drop (4 + KMAP_NAMELEN) = rest :=
  List.drop_left' (length_info a)

theorem findName_eq (hkeymap : 0 ∉ keymap) (as : List Archived) :
    findName keymap as.length (as.flatMap info) =
      some (as.findIdx? (fun a => decide (a.name = keymap))) := by
  induction as with
  | nil => rfl
  | cons a as ih =>
    rw [List.length_cons, List.flatMap_cons, findName, sameName_info hkeymap, drop_info, ih,
      List.findIdx?_cons]
    cases decide (a.name = keymap) <;> rfl

theorem skipKeymaps_eq (pre : List Archived) (infos stream : Str) :
    skipKeymaps pre.length (pre.flatMap info ++ infos)
        (pre.flatMap (fun a => keymapBytes a.map) ++ stream) =
      if ∃ a ∈ pre, TooBig a.map then .inl .fault else .inr stream := by
  induction pre with
  | nil => simp [skipKeymaps]
  | cons a pre ih =>
    have hsize : value ((info a ++ (pre.flatMap info ++ infos)).take 4) =
        (keymapBytes a.map).length := by
      rw [info, List.append_assoc, List.take_left' length_bytes,
        value_bytes ((length_keymapBytes_lt a.map).trans (by decide))]
    rw [List.length_cons, List.flatMap_cons, List.flatMap_cons, List.append_assoc, List.append_assoc,
      skipKeymaps, hsize, drop_info, List.drop_left, ih, List.length_append]
    have hmin : min (keymapBytes a.map).length ((keymapBytes a.map).length +
        (pre.flatMap (fun a => keymapBytes a.map) ++ stream).length) =
          (keymapBytes a.map).length := Nat.min_eq_left (Nat.le_add_right _ _)
    have hfault : (2 ^ 31 ≤ (keymapBytes a.map).length ∨ bufSize < (keymapBytes a.map).length) ↔
        TooBig a.map := by
      rw [tooBig_iff, or_iff_right (Nat.not_le.mpr (length_keymapBytes_lt a.map))]
    rw [hmin, if_congr hfault rfl rfl]
    by_cases hbig : TooBig a.map
    · rw [if_pos hbig, if_pos ⟨a, List.mem_cons_self, hbig⟩]
    · rw [if_neg hbig, if_neg (by omega)]
      simp [hbig]

theorem length_infos (as : List Archived) :
    (as.flatMap info).length = as.length * (4 + KMAP_NAMELEN) := by
  induction as with
  | nil => rfl
  | cons a as ih =>
    rw [List.flatMap_cons, List.length_append, ih, length_info, List.length_cons, Nat.succ_mul,
      Nat.add_comm]

/-- From an archive the first keymap with the name is loaded, unless one of those in front of it
does not fit into the buffer it is skipped with. -/
theorem isysLoadKeymap_archive (as : List Archived) (hkeymap : 0 ∉ keymap)
    (hfits : as.length * (4 + KMAP_NAMELEN) < 2 ^ 31) :
    isysLoadKeymap c (some (archive as)) keymap =
      match as.find? (fun a => a.name = keymap) with
      | none => .returned (-ENOENT) []
      | some a => if ∃ b ∈ inFront keymap as, TooBig b.map then .fault else load c a.map := by
  have hfile : archive as = bytes 4 KMAP_MAGIC ++ (bytes 4 as.length ++ (as.flatMap info ++
      as.flatMap (fun a => keymapBytes a.map))) := by
    rw [archive, List.append_assoc, List.append_assoc]
  have hdrop4 : (archive as).drop 4 = bytes 4 as.length ++ (as.flatMap info ++
      as.flatMap (fun a => keymapBytes a.map)) := by
    rw [hfile, List.drop_left' length_bytes]
  have hdrop8 : (archive as).drop 8 = as.flatMap info ++
      as.flatMap (fun a => keymapBytes a.map) := by
    rw [show 8 = 4 + 4 from rfl, ← List.drop_drop, hdrop4, List.drop_left' length_bytes]
  have hcount : value (((archive as).drop 4).take 4) = as.length := by
    rw [hdrop4, List.take_left' length_bytes]
    apply value_bytes
    simp only [KMAP_NAMELEN] at hfits
    omega
  have hlong : ¬(archive as).length < 8 := by
    rw [hfile, List.length_append, List.length_append, length_bytes, length_bytes]
    omega
  have htable : ¬((archive as).drop 8).length < as.length * (4 + KMAP_NAMELEN) := by
    rw [hdrop8, List.length_append, length_infos]
    omega
  have hstream : (archive as).drop (8 + as.length * (4 + KMAP_NAMELEN)) =
      as.flatMap (fun a => keymapBytes a.map) := by
    rw [← List.drop_drop, hdrop8, List.drop_left' (length_infos as)]
  unfold isysLoadKeymap
  dsimp only
  rw [if_neg hlong, hcount, if_neg (by omega), if_neg htable, hstream, hdrop8,
    List.take_left' (length_infos as), findName_eq hkeymap]
  cases hfind : as.find? (fun a => a.name = keymap) with
  | none =>
    have hnone : as.findIdx? (fun a => decide (a.name = keymap)) = none := by
      rw [List.findIdx?_eq_none_iff]
      intro a ha
      simpa using List.find?_eq_none.mp hfind a ha
    rw [hnone]
  | some a =>
    obtain ⟨ha, pre, post, has, hpre⟩ := List.find?_eq_some_iff_append.mp hfind
    have hno : ∀ b ∈ pre, ¬b.name = keymap := by
      intro b hb
      simpa using hpre b hb
    have hname : a.name = keymap := of_decide_eq_true ha
    have hidx : as.findIdx? (fun a => decide (a.name = keymap)) = some pre.length := by
      have hnone : pre.findIdx? (fun a => decide (a.name = keymap)) = none := by
        rw [List.findIdx?_eq_none_iff]
        intro b hb
        simp [hno b hb]
      rw [has, List.findIdx?_append, hnone, List.findIdx?_cons]
      simp [hname]
    have hfront : inFront keymap as = pre := by
      have hall : ∀ b ∈ pre, (decide (b.name ≠ keymap)) = true := by
        intro b hb
        simp [hno b hb]
      rw [has, inFront, List.takeWhile_append_of_pos hall, List.takeWhile_cons]
      simp [hname]
    have hskip := skipKeymaps_eq pre ((a :: post).flatMap info)
      ((a :: post).flatMap (fun a => keymapBytes a.map))
    rw [← List.flatMap_append, ← List.flatMap_append, ← has] at hskip
    rw [hidx, hfront]
    dsimp only
    rw [hskip]
    by_cases hbig : ∃ b ∈ pre, TooBig b.map
    · rw [if_pos hbig, if_pos hbig]
    · rw [if_neg hbig, if_neg hbig, List.flatMap_cons]
      exact loadKeymap_eq a.map _

/-- A keymap with one table, whose keys all give the same. -/
def oneTable (v : ℕ) (hv : v < 2 ^ 16) : Keymap where
  tables := some (List.replicate NR_KEYS v) :: List.replicate 255 none
  count := by rw [List.length_cons, List.length_replicate]
  full := by
    intro t ht keys hkeys
    rcases List.mem_cons.mp ht with rfl | ht
    · cases hkeys
      refine ⟨List.length_replicate, ?_⟩
      intro w hw
      rw [List.eq_of_mem_replicate hw]
      exact hv
    · rw [List.eq_of_mem_replicate ht] at hkeys
      cases hkeys

def twoMaps : List Archived :=
  [⟨ascii "us", oneTable 0x0b61 (by decide), by decide, by decide⟩,
    ⟨ascii "de", oneTable 0x0b62 (by decide), by decide, by decide⟩]

theorem isysLoadKeymap_archive_twoMaps :
    isysLoadKeymap ⟨false, false, true, fun _ => none⟩ (some (archive twoMaps)) (ascii "de") =
      load ⟨false, false, true, fun _ => none⟩ (oneTable 0x0b62 (by decide)) := by
  rw [isysLoadKeymap_archive twoMaps (by decide) (by decide)]
  have hfind : twoMaps.find? (fun a => a.name = ascii "de") =
      some ⟨ascii "de", oneTable 0x0b62 (by decide), by decide, by decide⟩ := rfl
  rw [hfind]
  have hfits : ¬∃ b ∈ inFront (ascii "de") twoMaps, TooBig b.map := by decide +kernel
  exact if_neg hfits

end Archive

section Cut

variable {c : Console} {keymap : Str}

theorem values_take {k n m : ℕ} {data : Str} (h : k * n ≤ m) :
    values k n (data.take m) = values k n data := by
  induction n generalizing m data with
  | zero => rfl
  | succ n ih =>
    rw [Nat.mul_succ] at h
    have hfirst : (data.take m).take k = data.take k := by
      rw [List.take_take, Nat.min_eq_left (by omega)]
    have hrest : (data.take m).drop k = (data.drop k).take (m - k) := List.drop_take
    rw [values, values, hfirst, hrest, ih (by omega)]

theorem loadTables_cut (kmap : ℕ) (keymaps : List ℕ) (stream : Str) (n : ℕ) :
    loadTables c kmap keymaps (stream.take n) = loadTables c kmap keymaps stream ∨
      (loadTables c kmap keymaps (stream.take n)).1 = - EIO ∧
        (loadTables c kmap keymaps (stream.take n)).2 <+: (loadTables c kmap keymaps stream).2 := by
  induction keymaps generalizing kmap stream n with
  | nil => exact Or.inl rfl
  | cons present keymaps ih =>
    by_cases hpresent : present = 0
    · rw [loadTables, if_pos hpresent, loadTables, if_pos hpresent]
      exact ih (kmap + 1) stream n
    by_cases hlen : (stream.take n).length < 2 * NR_KEYS
    · rw [loadTables, if_neg hpresent, if_pos hlen]
      exact Or.inr ⟨rfl, List.nil_prefix⟩
    have hboth : 2 * NR_KEYS ≤ n ∧ 2 * NR_KEYS ≤ stream.length := by
      rw [List.length_take] at hlen
      omega
    have hrest : (stream.take n).drop (2 * NR_KEYS) =
        (stream.drop (2 * NR_KEYS)).take (n - 2 * NR_KEYS) := List.drop_take
    rw [loadTables, if_neg hpresent, if_neg hlen, values_take hboth.1, hrest, loadTables,
      if_neg hpresent, if_neg (by omega)]
    cases setKeys c kmap 0 (values 2 NR_KEYS stream) with
    | mk rc set =>
      cases rc with
      | some ret => exact Or.inl rfl
      | none =>
        rcases ih (kmap + 1) (stream.drop (2 * NR_KEYS)) (n - 2 * NR_KEYS) with heq | ⟨hrc, hset⟩
        · left
          dsimp only
          rw [heq]
        · exact Or.inr ⟨hrc, (List.prefix_append_right_inj set).mpr hset⟩

theorem loadKeymap_cut (stream : Str) (n : ℕ) :
    loadKeymap c (stream.take n) = loadKeymap c stream ∨
      (loadKeymap c (stream.take n)).1 ≠ 0 ∧
        (loadKeymap c (stream.take n)).2 <+: (loadKeymap c stream).2 := by
  unfold loadKeymap
  by_cases hvio : c.isVio = true
  · rw [if_pos hvio, if_pos hvio]
    exact Or.inl rfl
  by_cases hpty : c.onPty = true
  · rw [if_neg hvio, if_pos hpty, if_neg hvio, if_pos hpty]
    exact Or.inl rfl
  rw [if_neg hvio, if_neg hpty, if_neg hvio, if_neg hpty]
  by_cases hshort : (stream.take n).length < 4
  · rw [if_pos hshort]
    exact Or.inr ⟨by decide, List.nil_prefix⟩
  have hlen : 4 ≤ n ∧ 4 ≤ stream.length := by
    rw [List.length_take] at hshort
    omega
  have hmagic : (stream.take n).take 4 = stream.take 4 := by
    rw [List.take_take, Nat.min_eq_left hlen.1]
  have hdrop : (stream.take n).drop 4 = (stream.drop 4).take (n - 4) := List.drop_take
  rw [if_neg hshort, if_neg (show ¬stream.length < 4 by omega), hmagic]
  by_cases hvalue : value (stream.take 4) ≠ KMAP_MAGIC
  · rw [if_pos hvalue, if_pos hvalue]
    exact Or.inl rfl
  rw [if_neg hvalue, if_neg hvalue]
  by_cases htable : ((stream.take n).drop 4).length < 4 * MAX_NR_KEYMAPS
  · rw [if_pos htable]
    exact Or.inr ⟨by decide, List.nil_prefix⟩
  have hfull : 4 * MAX_NR_KEYMAPS ≤ n - 4 ∧ 4 * MAX_NR_KEYMAPS ≤ (stream.drop 4).length := by
    rw [hdrop, List.length_take] at htable
    omega
  have hrest : (stream.take n).drop (4 + 4 * MAX_NR_KEYMAPS) =
      (stream.drop (4 + 4 * MAX_NR_KEYMAPS)).take (n - (4 + 4 * MAX_NR_KEYMAPS)) := List.drop_take
  rw [if_neg htable, if_neg (show ¬(stream.drop 4).length < 4 * MAX_NR_KEYMAPS by omega)]
  by_cases hopens : c.opens = true
  · rw [if_neg (by simp [hopens]), if_neg (by simp [hopens]), hrest, hdrop, values_take hfull.1]
    rcases loadTables_cut 0 (values 4 MAX_NR_KEYMAPS (stream.drop 4))
      (stream.drop (4 + 4 * MAX_NR_KEYMAPS)) (n - (4 + 4 * MAX_NR_KEYMAPS)) with heq | ⟨hrc, hset⟩
    · exact Or.inl heq
    · exact Or.inr ⟨by rw [hrc]; decide, hset⟩
  · rw [if_pos hopens, if_pos hopens]
    exact Or.inl rfl

/-- What is left of the stream behind the keymaps that are skipped. -/
theorem skipKeymaps_cut (num : ℕ) (table stream : Str) (n : ℕ) :
    match skipKeymaps num table (stream.take n) with
    | .inl .fault => skipKeymaps num table stream = .inl .fault
    | .inl (.returned rc set) => rc ≠ 0 ∧ set = []
    | .inr left => ∃ whole m, skipKeymaps num table stream = .inr whole ∧ left = whole.take m := by
  induction num generalizing table stream n with
  | zero => exact ⟨stream, n, rfl, rfl⟩
  | succ num ih =>
    rw [skipKeymaps, skipKeymaps]
    by_cases hfault : 2 ^ 31 ≤ value (table.take 4) ∨
        bufSize < min (value (table.take 4)) (stream.take n).length
    · have hmore : 2 ^ 31 ≤ value (table.take 4) ∨
          bufSize < min (value (table.take 4)) stream.length := by
        rw [List.length_take] at hfault
        omega
      rw [if_pos hfault, if_pos hmore]
    rw [if_neg hfault]
    by_cases hshort : (stream.take n).length < value (table.take 4)
    · rw [if_pos hshort]
      exact ⟨by decide, rfl⟩
    · have hboth : value (table.take 4) ≤ n ∧ value (table.take 4) ≤ stream.length := by
        rw [List.length_take] at hshort
        omega
      have hnofault : ¬(2 ^ 31 ≤ value (table.take 4) ∨
          bufSize < min (value (table.take 4)) stream.length) := by
        rw [Nat.min_eq_left (by omega)] at hfault ⊢
        exact hfault
      have hrest : (stream.take n).drop (value (table.take 4)) =
          (stream.drop (value (table.take 4))).take (n - value (table.take 4)) := List.drop_take
      rw [if_neg hshort, if_neg hnofault, if_neg (by omega), hrest]
      exact ih _ _ _

/-- A file that is cut off gives the result of the whole file, or an error after settings that the
whole file begins with. -/
theorem isysLoadKeymap_cut (f : Str) (n : ℕ) :
    isysLoadKeymap c (some (f.take n)) keymap = isysLoadKeymap c (some f) keymap ∨
      ∃ rc set, isysLoadKeymap c (some (f.take n)) keymap = .returned rc set ∧ rc ≠ 0 ∧
        ∀ rc' set', isysLoadKeymap c (some f) keymap = .returned rc' set' → set <+: set' := by
  have herror : ∀ rc : ℤ, rc ≠ 0 →
      isysLoadKeymap c (some (f.take n)) keymap = .returned rc [] →
      ∃ rc set, isysLoadKeymap c (some (f.take n)) keymap = .returned rc set ∧ rc ≠ 0 ∧
        ∀ rc' set', isysLoadKeymap c (some f) keymap = .returned rc' set' → set <+: set' :=
    fun rc hrc h => ⟨rc, [], h, hrc, fun _ _ _ => List.nil_prefix⟩
  by_cases hshort : (f.take n).length < 8
  · right
    apply herror (-EINVAL) (by decide)
    rw [isysLoadKeymap, if_pos hshort]
  have hlen : 8 ≤ n ∧ 8 ≤ f.length := by
    rw [List.length_take] at hshort
    omega
  have hcount : ((f.take n).drop 4).take 4 = (f.drop 4).take 4 := by
    rw [List.drop_take, List.take_take, Nat.min_eq_left (by omega)]
  have hdrop : (f.take n).drop 8 = (f.drop 8).take (n - 8) := List.drop_take
  unfold isysLoadKeymap at herror ⊢
  dsimp only at herror ⊢
  rw [if_neg hshort, if_neg (show ¬f.length < 8 by omega), hcount] at herror ⊢
  by_cases hbig : 2 ^ 31 ≤ value ((f.drop 4).take 4) * (4 + KMAP_NAMELEN)
  · rw [if_pos hbig, if_pos hbig]
    exact Or.inl rfl
  rw [if_neg hbig, if_neg hbig] at herror ⊢
  by_cases htable : ((f.take n).drop 8).length < value ((f.drop 4).take 4) * (4 + KMAP_NAMELEN)
  · right
    rw [if_pos htable] at herror ⊢
    exact herror (- EIO) (by decide) rfl
  have hfull : value ((f.drop 4).take 4) * (4 + KMAP_NAMELEN) ≤ n - 8 ∧
      value ((f.drop 4).take 4) * (4 + KMAP_NAMELEN) ≤ (f.drop 8).length := by
    rw [hdrop, List.length_take] at htable
    omega
  have hinfo : ((f.take n).drop 8).take (value ((f.drop 4).take 4) * (4 + KMAP_NAMELEN)) =
      (f.drop 8).take (value ((f.drop 4).take 4) * (4 + KMAP_NAMELEN)) := by
    rw [hdrop, List.take_take, Nat.min_eq_left hfull.1]
  have hstream : (f.take n).drop (8 + value ((f.drop 4).take 4) * (4 + KMAP_NAMELEN)) =
      (f.drop (8 + value ((f.drop 4).take 4) * (4 + KMAP_NAMELEN))).take
        (n - (8 + value ((f.drop 4).take 4) * (4 + KMAP_NAMELEN))) := List.drop_take
  rw [if_neg htable, if_neg (Nat.not_lt.mpr hfull.2), hinfo, hstream] at herror ⊢
  generalize value ((f.drop 4).take 4) * (4 + KMAP_NAMELEN) = size at herror ⊢
  cases hfind : findName keymap (value ((f.drop 4).take 4)) ((f.drop 8).take size) with
  | none => exact Or.inl rfl
  | some found =>
    cases found with
    | none => exact Or.inl rfl
    | some num =>
      rw [hfind] at herror
      dsimp only at herror ⊢
      have hskip := skipKeymaps_cut num ((f.drop 8).take size) (f.drop (8 + size)) (n - (8 + size))
      cases hcut : skipKeymaps num ((f.drop 8).take size)
          ((f.drop (8 + size)).take (n - (8 + size))) with
      | inl r =>
        rw [hcut] at hskip herror
        cases r with
        | fault =>
          left
          rw [show skipKeymaps num ((f.drop 8).take size) (f.drop (8 + size)) = .inl .fault from hskip]
        | returned rc set =>
          right
          obtain ⟨hrc, rfl⟩ := hskip
          exact herror rc hrc rfl
      | inr left =>
        rw [hcut] at hskip
        obtain ⟨whole, m, hwhole, rfl⟩ := hskip
        rw [hwhole]
        dsimp only
        rcases @loadKeymap_cut c whole m with heq | ⟨hrc, hset⟩
        · left
          rw [heq]
        · right
          refine ⟨_, _, rfl, hrc, ?_⟩
          intro rc' set' hall
          cases hall
          exact hset

end Cut

end Comodoo.KeymapArchive
