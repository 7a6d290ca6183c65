import Comodoo.ModuleListRead

set_option autoImplicit false

/-!
# What a sequence of files does to the module list

A file keeps or replaces the entries that are there, in place, and appends its new modules in
the order they first come up in. Names stay distinct.
-/
namespace Comodoo.ModuleListMerge
open CString ByteMemory ModuleList ModuleListScan ModuleListRead

def newNames (known : List Str) : List Str → List Str
  | [] => []
  | name :: names =>
    if known.contains name then newNames known names
    else name :: newNames (known ++ [name]) names

def lastNamed (blocks : List Block) (name : Str) : Option Block :=
  blocks.reverse.find? (fun b => b.1 = name)

/-- Where a file has several blocks of one name, the last one counts if it overrides, else the
first one. -/
def blockFor (override : Bool) (blocks : List Block) (name : Str) : Option Block :=
  if override then lastNamed blocks name else blocks.find? (fun b => b.1 = name)

structure Merged (location : Option ℕ) (override : Bool) (blocks : List Block)
    (before after : List ModuleInfo) : Prop where
  distinct : (after.map ModuleInfo.moduleName).Nodup
  order : after.map ModuleInfo.moduleName = before.map ModuleInfo.moduleName ++
    newNames (before.map ModuleInfo.moduleName) (blocks.map Prod.fst)
  kept : override = false → ∀ name e, findModuleInfo before name = some e →
    findModuleInfo after name = some e
  replaced : override = true → ∀ name e, findModuleInfo before name = some e →
    findModuleInfo after name = some (((lastNamed blocks name).map (parseBlock location)).getD e)
  added : ∀ name, findModuleInfo before name = none →
    findModuleInfo after name = (blockFor override blocks name).map (parseBlock location)

/-- One call of `readModuleInfo`, on a file that can be read. -/
structure Call where
  memory : Mem
  content : Str
  location : Option ℕ
  override : Bool

def Call.read (c : Call) (mis : List ModuleInfo) : ReadResult :=
  readModuleInfo c.memory true true c.content mis c.location c.override

def Call.blocks (c : Call) : List Block := blocksOf (kinds (c.content.drop 10))

/-- Every call returns and merges its file into the list. -/
def Correct : List ModuleInfo → List Call → Prop
  | _, [] => True
  | mis, c :: calls =>
    ∃ mis', c.read mis = .returned 0 mis' ∧
      Merged c.location c.override c.blocks mis mis' ∧ Correct mis' calls

section Lookup

def lookup (mis : List ModuleInfo) (name : Str) : Option ModuleInfo :=
  mis.find? (fun e => e.moduleName = name)

variable {mis : List ModuleInfo} {name : Str}

theorem foldl_other {pick : Option ModuleInfo → ModuleInfo → Option ModuleInfo} {name : Str}
    (hpick : ∀ found e, e.moduleName ≠ name → pick found e = found)
    (h : name ∉ mis.map ModuleInfo.moduleName) (found : Option ModuleInfo) :
    mis.foldl pick found = found := by
  induction mis generalizing found with
  | nil => rfl
  | cons e mis ih =>
    rw [List.map_cons, List.mem_cons, not_or] at h
    rw [List.foldl_cons, hpick found e (Ne.symm h.1)]
    exact ih h.2 found

theorem findModuleInfo_eq (h : (mis.map ModuleInfo.moduleName).Nodup) (name : Str) :
    findModuleInfo mis name = lookup mis name := by
  unfold findModuleInfo lookup
  induction mis with
  | nil => rfl
  | cons e mis ih =>
    rw [List.map_cons, List.nodup_cons] at h
    rw [List.foldl_cons]
    by_cases he : e.moduleName = name
    · rw [if_pos he, List.find?_cons_of_pos (by simpa using he)]
      -- no later entry has this name
      exact foldl_other (fun found e he => if_neg he) (he ▸ h.1) (some e)
    · rw [if_neg he, List.find?_cons_of_neg (by simpa using he)]
      exact ih h.2

end Lookup

section Apply

variable {location : Option ℕ} {override : Bool} {mis : List ModuleInfo} {b : Block}

theorem parseBlock_name (location : Option ℕ) (b : Block) :
    (parseBlock location b).moduleName = b.1 := by
  unfold parseBlock
  split <;> rfl

theorem applyBlock_cons (e : ModuleInfo) :
    applyBlock location override (e :: mis) b =
      if e.moduleName = b.1 then (if override then parseBlock location b else e) :: mis
      else e :: applyBlock location override mis b := by
  unfold applyBlock
  rw [List.findIdx?_cons]
  by_cases he : e.moduleName = b.1
  · simp only [he, decide_true, ↓reduceIte]
    cases override <;> rfl
  · simp only [he, decide_false, Bool.false_eq_true, ↓reduceIte]
    cases mis.findIdx? (fun e => e.moduleName = b.1) with
    | none => rfl
    | some i => cases override <;> rfl

theorem applyBlock_names :
    (applyBlock location override mis b).map ModuleInfo.moduleName =
      if b.1 ∈ mis.map ModuleInfo.moduleName then mis.map ModuleInfo.moduleName
      else mis.map ModuleInfo.moduleName ++ [b.1] := by
  induction mis with
  | nil => simp [applyBlock, parseBlock_name]
  | cons e mis ih =>
    rw [applyBlock_cons]
    by_cases he : e.moduleName = b.1
    · have hmem : b.1 ∈ (e :: mis).map ModuleInfo.moduleName := by simp [he]
      rw [if_pos he, if_pos hmem]
      cases override with
      | true => simp [parseBlock_name, he]
      | false => rfl
    · rw [if_neg he, List.map_cons, ih, List.map_cons]
      by_cases hm : b.1 ∈ mis.map ModuleInfo.moduleName
      · rw [if_pos hm, if_pos (List.mem_cons_of_mem _ hm)]
      · rw [if_neg hm, if_neg (by simp [Ne.symm he, hm]), List.cons_append]

theorem lookup_applyBlock (name : Str) :
    lookup (applyBlock location override mis b) name =
      if b.1 = name then
        some (match lookup mis name with
          | some e => if override then parseBlock location b else e
          | none => parseBlock location b)
      else lookup mis name := by
  induction mis with
  | nil =>
    by_cases hb : b.1 = name
    · simp [applyBlock, lookup, parseBlock_name, hb]
    · simp [applyBlock, lookup, parseBlock_name, hb]
  | cons e mis ih =>
    rw [applyBlock_cons]
    by_cases he : e.moduleName = b.1
    · rw [if_pos he]
      by_cases hb : b.1 = name
      · cases override <;> simp [lookup, parseBlock_name, he, hb]
      · cases override <;> simp [lookup, parseBlock_name, he, hb]
    · rw [if_neg he]
      by_cases hn : e.moduleName = name
      · have hb : b.1 ≠ name := fun h => he (hn.trans h.symm)
        simp [lookup, hn, hb]
      · have hskip : ∀ l, lookup (e :: l) name = lookup l name := by
          intro l
          simp [lookup, hn]
        rw [hskip, hskip, ih]

theorem foldl_names (blocks : List Block) :
    (blocks.foldl (applyBlock location override) mis).map ModuleInfo.moduleName =
      mis.map ModuleInfo.moduleName ++
        newNames (mis.map ModuleInfo.moduleName) (blocks.map Prod.fst) := by
  induction blocks generalizing mis with
  | nil => simp [newNames]
  | cons b blocks ih =>
    rw [List.foldl_cons, ih, applyBlock_names, List.map_cons, newNames]
    by_cases hm : b.1 ∈ mis.map ModuleInfo.moduleName
    · rw [if_pos hm, if_pos (List.contains_iff_mem.mpr hm)]
    · rw [if_neg hm, if_neg (fun hc => hm (List.contains_iff_mem.mp hc)), List.append_assoc,
        List.singleton_append]

theorem newNames_nodup {known : List Str} (names : List Str) (h : known.Nodup) :
    (known ++ newNames known names).Nodup := by
  induction names generalizing known with
  | nil => simpa [newNames] using h
  | cons name names ih =>
    rw [newNames]
    split
    · exact ih h
    · rename_i hno
      have hnext : (known ++ [name]).Nodup := by
        rw [List.nodup_append]
        refine ⟨h, by simp, fun a ha b hb => ?_⟩
        rw [List.mem_singleton.mp hb]
        exact fun heq => hno (List.contains_iff_mem.mpr (heq ▸ ha))
      have := ih hnext
      rwa [List.append_assoc, List.singleton_append] at this

theorem lookup_foldl_keep (blocks : List Block) (name : Str) :
    lookup (blocks.foldl (applyBlock location false) mis) name =
      (lookup mis name).or
        ((blocks.find? (fun b => b.1 = name)).map (parseBlock location)) := by
  induction blocks generalizing mis with
  | nil => simp
  | cons b blocks ih =>
    rw [List.foldl_cons, ih, lookup_applyBlock]
    by_cases hb : b.1 = name
    · rw [if_pos hb, List.find?_cons_of_pos (by simpa using hb)]
      cases lookup mis name with
      | none => rfl
      | some e => rfl
    · rw [if_neg hb, List.find?_cons_of_neg (by simpa using hb)]

theorem lookup_foldl_override (blocks : List Block) (name : Str) :
    lookup (blocks.foldl (applyBlock location true) mis) name =
      ((lastNamed blocks name).map (parseBlock location)).or (lookup mis name) := by
  induction blocks generalizing mis with
  | nil => rfl
  | cons b blocks ih =>
    have hlast : lastNamed (b :: blocks) name =
        (lastNamed blocks name).or (if b.1 = name then some b else none) := by
      unfold lastNamed
      rw [List.reverse_cons, List.find?_append]
      by_cases hb : b.1 = name
      · simp [hb]
      · simp [hb]
    rw [List.foldl_cons, ih, lookup_applyBlock, hlast]
    cases lastNamed blocks name with
    | some c => rfl
    | none =>
      by_cases hb : b.1 = name
      · rw [if_pos hb, if_pos hb]
        cases lookup mis name with
        | none => rfl
        | some e => rfl
      · rw [if_neg hb, if_neg hb]
        rfl

theorem merged_foldl (location : Option ℕ) (override : Bool) (blocks : List Block)
    (h : (mis.map ModuleInfo.moduleName).Nodup) :
    Merged location override blocks mis (blocks.foldl (applyBlock location override) mis) := by
  have hnodup : ((blocks.foldl (applyBlock location override) mis).map
      ModuleInfo.moduleName).Nodup := by
    rw [foldl_names]
    exact newNames_nodup _ h
  refine ⟨hnodup, foldl_names blocks, ?_, ?_, ?_⟩
  · rintro rfl name e he
    rw [findModuleInfo_eq h] at he
    rw [findModuleInfo_eq hnodup, lookup_foldl_keep, he]
    rfl
  · rintro rfl name e he
    rw [findModuleInfo_eq h] at he
    rw [findModuleInfo_eq hnodup, lookup_foldl_override, he]
    cases lastNamed blocks name with
    | none => rfl
    | some b => rfl
  · intro name hnone
    rw [findModuleInfo_eq h] at hnone
    rw [findModuleInfo_eq hnodup, blockFor]
    cases override with
    | true => rw [lookup_foldl_override, hnone, Option.or_none, if_pos rfl]
    | false =>
      rw [lookup_foldl_keep, hnone, Option.none_or, if_neg (by decide)]

end Apply

theorem correct_from {mis : List ModuleInfo} {calls : List Call}
    (h : (mis.map ModuleInfo.moduleName).Nodup)
    (hw : ∀ c ∈ calls, WellFormed c.content (c.content.drop 10))
    (h0 : ∀ c ∈ calls, (0 : UInt8) ∉ c.content) : Correct mis calls := by
  induction calls generalizing mis with
  | nil => trivial
  | cons c calls ih =>
    have hread := readModuleInfo_eq c.memory (hw c List.mem_cons_self) (h0 c List.mem_cons_self)
      mis c.location c.override
    have hmerged := merged_foldl c.location c.override c.blocks h
    exact ⟨_, hread, hmerged, ih hmerged.distinct
      (fun d hd => hw d (List.mem_cons_of_mem _ hd)) (fun d hd => h0 d (List.mem_cons_of_mem _ hd))⟩

/-- From an empty list, every sequence of well-formed files without NUL bytes is merged file by
file. -/
theorem readModuleInfo_correct (calls : List Call)
    (hw : ∀ c ∈ calls, WellFormed c.content (c.content.drop 10))
    (h0 : ∀ c ∈ calls, (0 : UInt8) ∉ c.content) : Correct [] calls :=
  correct_from List.nodup_nil hw h0

def bootCall : Call :=
  ⟨fun _ => 0, ascii "Version 0\n\ne100\n\teth\n\t\"Intel\"\nsd\n\tscsi\n", none, false⟩

def diskCall : Call :=
  ⟨fun _ => 0, ascii "Version 0\ne100\n  eth\n  \"New\" \n  debug \"Level\"\n", some 1, true⟩

theorem headed_of_name {ks : List LineKind} (name : Str)
    (h : ks.find? (fun k => k ≠ .skip) = some (.name name)) : Headed ks := by
  intro text htext
  rw [h] at htext
  cases htext

theorem bootCall_wellFormed : WellFormed bootCall.content (bootCall.content.drop 10) :=
  ⟨by decide +kernel, Or.inr (by decide +kernel),
    headed_of_name (ascii "e100") (by decide +kernel)⟩

theorem diskCall_wellFormed : WellFormed diskCall.content (diskCall.content.drop 10) :=
  ⟨by decide +kernel, Or.inr (by decide +kernel),
    headed_of_name (ascii "e100") (by decide +kernel)⟩

theorem readModuleInfo_correct_disk : Correct [] [bootCall, diskCall] := by
  refine readModuleInfo_correct _ (fun c hc => ?_) (fun c hc => ?_)
  · rw [List.mem_cons, List.mem_singleton] at hc
    rcases hc with rfl | rfl
    · exact bootCall_wellFormed
    · exact diskCall_wellFormed
  · rw [List.mem_cons, List.mem_singleton] at hc
    rcases hc with rfl | rfl
    · decide +kernel
    · decide +kernel

/-- A NUL byte inside a line hides the newline behind it. -/
def nulCall : Call := ⟨fun _ => 0, ascii "Version 0\ne100\n\te\x00h\n", none, false⟩

theorem nulCall_faults :
    WellFormed nulCall.content (nulCall.content.drop 10) ∧ nulCall.read [] = .fault ∧
      ¬ Correct [] [nulCall] := by
  have hfault : nulCall.read [] = .fault := by decide +kernel
  refine ⟨⟨by decide +kernel, Or.inr (by decide +kernel),
    headed_of_name (ascii "e100") (by decide +kernel)⟩, hfault, ?_⟩
  rintro ⟨mis', hread, -⟩
  rw [hfault] at hread
  cases hread

end Comodoo.ModuleListMerge
