import Comodoo.ModuleListScan

set_option autoImplicit false

/-!
# What `readModuleInfo` reads

A file is a list of blocks: a module's line and the indented lines behind it. The loop over the
buffer does to the module list what the blocks ask for, one after the other.
-/
namespace Comodoo.ModuleListRead
open CString ByteMemory ModuleList ModuleListScan

abbrev Block := Str × List Str

def bodyTexts : List LineKind → List Str
  | [] => []
  | .skip :: ks => bodyTexts ks
  | .text text :: ks => text :: bodyTexts ks
  | .name _ :: _ => []

def blocksOf : List LineKind → List Block
  | [] => []
  | .name name :: ks => (name, bodyTexts ks) :: blocksOf ks
  | .skip :: ks => blocksOf ks
  | .text _ :: ks => blocksOf ks

def kinds (body : Str) : List LineKind := (body.splitOn LF).map kindOf

/-- The entry a block describes: the type line, the first quoted line behind it, and the
arguments behind that. -/
def parseBlock (location : Option ℕ) (b : Block) : ModuleInfo :=
  match b.2 with
  | [] => .fresh b.1 location
  | first :: rest =>
    let quoted := rest.dropWhile (fun text => !isQuoted text)
    { moduleName := b.1
      description := quoted.head?.map unquote
      major := (typeOf (lastWord first)).1
      minor := (typeOf (lastWord first)).2
      args := quoted.tail.filterMap argLine
      flags := 0
      locationID := location }

def applyBlock (location : Option ℕ) (override : Bool) (mis : List ModuleInfo) (b : Block) :
    List ModuleInfo :=
  match mis.findIdx? (fun e => e.moduleName = b.1) with
  | some i => if override then mis.set i (parseBlock location b) else mis
  | none => mis ++ [parseBlock location b]

section Parse

theorem typeOf_ne_none (word : Str) : (typeOf word).1 ≠ .none := by
  unfold typeOf
  repeat' split
  all_goals decide

theorem foldl_addText_args {e : ModuleInfo} {d : Str} (texts : List Str)
    (hm : e.major ≠ .none) (hd : e.description = some d) :
    texts.foldl addText e = { e with args := e.args ++ texts.filterMap argLine } := by
  induction texts generalizing e with
  | nil => simp
  | cons t texts ih =>
    have hstep : addText e t = { e with args := e.args ++ (argLine t).toList } := by
      simp [addText, hm, hd]
    rw [List.foldl_cons, hstep, ih (e := { e with args := e.args ++ (argLine t).toList }) hm hd]
    cases ha : argLine t with
    | none => rw [List.filterMap_cons_none ha]; simp
    | some a => rw [List.filterMap_cons_some ha]; simp

theorem foldl_addText_description {e : ModuleInfo} (texts : List Str) (hm : e.major ≠ .none)
    (hd : e.description = none) (ha : e.args = []) :
    texts.foldl addText e = { e with
      description := (texts.dropWhile (fun text => !isQuoted text)).head?.map unquote
      args := (texts.dropWhile (fun text => !isQuoted text)).tail.filterMap argLine } := by
  induction texts with
  | nil =>
    obtain ⟨name, description, major, minor, args, flags, location⟩ := e
    cases hd
    cases ha
    rfl
  | cons t texts ih =>
    rw [List.foldl_cons]
    by_cases hq : isQuoted t = true
    · have hstep : addText e t = { e with description := some (unquote t) } := by
        simp [addText, hm, hd, hq]
      rw [hstep, foldl_addText_args (e := { e with description := some (unquote t) }) texts hm rfl,
        List.dropWhile_cons_of_neg (by simp [hq])]
      simp [ha]
    · have hstep : addText e t = e := by simp [addText, hm, hd, hq]
      rw [hstep, ih, List.dropWhile_cons_of_pos (by simp [hq])]

theorem foldl_addText_fresh (location : Option ℕ) (b : Block) :
    b.2.foldl addText (.fresh b.1 location) = parseBlock location b := by
  obtain ⟨name, texts⟩ := b
  cases texts with
  | nil => rfl
  | cons first rest =>
    rw [List.foldl_cons]
    have hstep : addText (.fresh name location) first =
        { ModuleInfo.fresh name location with
          major := (typeOf (lastWord first)).1, minor := (typeOf (lastWord first)).2 } := by
      simp [addText, ModuleInfo.fresh]
    rw [hstep, foldl_addText_description (e := { ModuleInfo.fresh name location with
      major := (typeOf (lastWord first)).1, minor := (typeOf (lastWord first)).2 }) rest
      (typeOf_ne_none _) rfl rfl]
    rfl

end Parse

/-! ## The lines of a block

What a block says about a module, as the format has it, without the cursor of the code.
-/

def typeWords : List (Str × DriverMajor × DriverMinor) :=
  [(ascii "eth", .net, .ethernet), (ascii "tr", .net, .tr), (ascii "scsi_hostadapter", .scsi, .none),
    (ascii "scsi", .scsi, .none), (ascii "pcmcia", .pcmcia, .none), (ascii "fs", .fs, .none),
    (ascii "cdrom", .cdrom, .none), (ascii "ide", .ide, .none)]

def EndsIn (text word : Str) : Prop :=
  ∃ front, text = front ++ word ∧ (∀ b ∈ word, isspace b = false) ∧
    ∀ b, front.getLast? = some b → isspace b = true

def IsType (text : Str) (t : DriverMajor × DriverMinor) : Prop :=
  ∃ word, EndsIn text word ∧ t = (typeWords.lookup word).getD (.other, .none)

/-- A quote alone is an empty description. -/
def IsDescription (text d : Str) : Prop :=
  text = quote :: (d ++ [quote]) ∨ text = [quote] ∧ d = []

/-- A word, and a text in quotes behind blanks. -/
def IsArg (text : Str) (a : ModuleArg) : Prop :=
  ∃ blanks rest, text = a.arg ++ (blanks ++ quote :: (a.description ++ quote :: rest)) ∧
    (∀ b ∈ a.arg, isspace b = false) ∧ (∀ b ∈ blanks, isspace b = true) ∧ blanks ≠ [] ∧
    quote ∉ a.description

/-- Other lines do not count. -/
inductive Args : List Str → List ModuleArg → Prop where
  | nil : Args [] []
  | arg {text : Str} {texts : List Str} {a : ModuleArg} {args : List ModuleArg}
      (h : IsArg text a) (rest : Args texts args) : Args (text :: texts) (a :: args)
  | other {text : Str} {texts : List Str} {args : List ModuleArg}
      (h : ∀ a, ¬IsArg text a) (rest : Args texts args) : Args (text :: texts) args

/-- The description is the first line that can be one. -/
inductive Described : List Str → Option Str → List ModuleArg → Prop where
  | none : Described [] none []
  | here {text d : Str} {texts : List Str} {args : List ModuleArg}
      (h : IsDescription text d) (rest : Args texts args) : Described (text :: texts) (some d) args
  | later {text : Str} {texts : List Str} {d : Option Str} {args : List ModuleArg}
      (h : ∀ d, ¬IsDescription text d) (rest : Described texts d args) :
      Described (text :: texts) d args

inductive Describes (location : Option ℕ) : Block → ModuleInfo → Prop where
  | bare (name : Str) : Describes location (name, []) (.fresh name location)
  | typed {name first : Str} {texts : List Str} {major : DriverMajor} {minor : DriverMinor}
      {d : Option Str} {args : List ModuleArg} (htype : IsType first (major, minor))
      (hrest : Described texts d args) :
      Describes location (name, first :: texts) ⟨name, d, major, minor, args, 0, location⟩

section Grammar

variable {text word d : Str} {texts : List Str} {a : ModuleArg} {args : List ModuleArg}

theorem typeOf_eq (word : Str) : typeOf word = (typeWords.lookup word).getD (.other, .none) := by
  unfold typeOf typeWords
  simp only [List.lookup_cons, List.lookup_nil]
  repeat' split
  all_goals simp_all

theorem endsIn_iff : EndsIn text word ↔ word = lastWord text := by
  constructor
  · rintro ⟨front, rfl, hword, hfront⟩
    have hreverse : (front ++ word).reverse.takeWhile (fun b => !isspace b) = word.reverse := by
      rw [List.reverse_append]
      refine takeWhile_append_stop (fun b hb => ?_) (fun b hb => ?_)
      · rw [hword b (List.mem_reverse.mp hb)]
        rfl
      · rw [List.head?_reverse] at hb
        rw [hfront b hb]
        rfl
    rw [lastWord, List.rtakeWhile, hreverse, List.reverse_reverse]
  · rintro rfl
    refine ⟨text.rdropWhile (fun b => !isspace b),
      (List.rdropWhile_append_rtakeWhile ..).symm, fun b hb => ?_, fun b hb => ?_⟩
    · simpa using List.mem_rtakeWhile_imp hb
    · have hne : text.rdropWhile (fun b => !isspace b) ≠ [] :=
        List.ne_nil_of_mem (List.mem_of_getLast? hb)
      rw [List.getLast?_eq_some_getLast hne, Option.some.injEq] at hb
      rw [← hb]
      simpa using List.rdropWhile_last_not (fun b => !isspace b) text hne

theorem isType_iff (t : DriverMajor × DriverMinor) : IsType text t ↔ t = typeOf (lastWord text) := by
  rw [typeOf_eq]
  constructor
  · rintro ⟨word, hword, ht⟩
    rwa [endsIn_iff.mp hword] at ht
  · exact fun ht => ⟨_, endsIn_iff.mpr rfl, ht⟩

theorem isDescription_iff : IsDescription text d ↔ isQuoted text = true ∧ d = unquote text := by
  constructor
  · rintro (rfl | ⟨rfl, rfl⟩)
    · have hlast : (quote :: (d ++ [quote])).getLast? = some quote := by
        rw [← List.cons_append, List.getLast?_concat]
      exact ⟨decide_eq_true ⟨rfl, hlast⟩, by simp [unquote]⟩
    · exact ⟨by decide, rfl⟩
  · rintro ⟨hquoted, rfl⟩
    obtain ⟨hhead, hlast⟩ := of_decide_eq_true hquoted
    obtain ⟨rest, rfl⟩ := List.head?_eq_some_iff.mp hhead
    by_cases hrest : rest = []
    · exact Or.inr ⟨by rw [hrest], by rw [hrest]; rfl⟩
    · left
      rw [List.getLast?_cons_of_ne_nil hrest] at hlast
      obtain ⟨d, rfl⟩ := List.getLast?_eq_some_iff.mp hlast
      simp [unquote]

theorem isArg_iff : IsArg text a ↔ argLine text = some a := by
  constructor
  · rintro ⟨blanks, rest, rfl, harg, hblanks, hne, hquote⟩
    obtain ⟨b, blanks', rfl⟩ := List.exists_cons_of_ne_nil hne
    have hword : ∀ c ∈ a.arg, (!isspace c) = true := fun c hc => by rw [harg c hc]; rfl
    have hblank : ∀ c, (b :: blanks' ++ quote :: (a.description ++ quote :: rest)).head? = some c →
        (!isspace c) = false := by
      intro c hc
      obtain rfl := Option.some.inj hc
      rw [hblanks b List.mem_cons_self]
      rfl
    have hstop : ∀ c, (quote :: (a.description ++ quote :: rest)).head? = some c →
        isspace c = false := by
      intro c hc
      obtain rfl := Option.some.inj hc
      rfl
    rw [argLine, takeWhile_append_stop hword hblank, dropWhile_append_stop hword hblank,
      dropWhile_append_stop hblanks hstop]
    dsimp only
    rw [if_pos rfl, strchr_append _ _ _ hquote]
    rfl
  · intro h
    have hword := List.takeWhile_append_dropWhile (p := fun b => !isspace b) (l := text)
    have hblanks := List.takeWhile_append_dropWhile (p := isspace)
      (l := text.dropWhile (fun b => !isspace b))
    rw [argLine] at h
    cases hbehind : (text.dropWhile (fun b => !isspace b)).dropWhile isspace with
    | nil =>
      rw [hbehind] at h
      cases h
    | cons b rest =>
      rw [hbehind] at h hblanks
      dsimp only at h
      by_cases hb : b = quote
      · rw [if_pos hb] at h
        obtain ⟨⟨d, tail⟩, hchr, rfl⟩ := Option.map_eq_some_iff.mp h
        obtain ⟨rfl, hd⟩ := (strchr_eq_some_iff _ _ _ _).mp hchr
        subst hb
        refine ⟨(text.dropWhile (fun b => !isspace b)).takeWhile isspace, tail, ?_,
          fun c hc => by simpa using List.mem_takeWhile_imp hc,
          fun c hc => List.mem_takeWhile_imp hc, fun hnil => ?_, hd⟩
        · dsimp only
          rw [hblanks, hword]
        -- without blanks the word would go on with the quote
        · rw [hnil, List.nil_append] at hblanks
          have hnot := List.head?_dropWhile_not (fun b => !isspace b) text
          rw [← hblanks] at hnot
          have hquote : (!isspace quote) = false := hnot
          cases hquote
      · rw [if_neg hb] at h
        cases h

theorem args_iff : Args texts args ↔ args = texts.filterMap argLine := by
  constructor
  · intro h
    induction h with
    | nil => rfl
    | arg h _ ih => rw [List.filterMap_cons_some (isArg_iff.mp h), ih]
    | other h _ ih =>
      have hnone := Option.eq_none_iff_forall_ne_some.mpr fun a ha => h a (isArg_iff.mpr ha)
      rw [List.filterMap_cons_none hnone, ih]
  · rintro rfl
    induction texts with
    | nil => exact .nil
    | cons text texts ih =>
      cases hline : argLine text with
      | none =>
        rw [List.filterMap_cons_none hline]
        refine .other (fun a ha => ?_) ih
        rw [isArg_iff.mp ha] at hline
        cases hline
      | some a =>
        rw [List.filterMap_cons_some hline]
        exact .arg (isArg_iff.mpr hline) ih

theorem described_iff {d : Option Str} : Described texts d args ↔
    d = (texts.dropWhile (fun text => !isQuoted text)).head?.map unquote ∧
      args = (texts.dropWhile (fun text => !isQuoted text)).tail.filterMap argLine := by
  constructor
  · intro h
    induction h with
    | none => exact ⟨rfl, rfl⟩
    | here h rest =>
      obtain ⟨hquoted, rfl⟩ := isDescription_iff.mp h
      rw [List.dropWhile_cons_of_neg (by simp [hquoted])]
      exact ⟨rfl, args_iff.mp rest⟩
    | @later text texts d args h _ ih =>
      have hquoted : ¬isQuoted text = true := fun hq => h _ (isDescription_iff.mpr ⟨hq, rfl⟩)
      rw [List.dropWhile_cons_of_pos (by simp [hquoted])]
      exact ih
  · rintro ⟨rfl, rfl⟩
    induction texts with
    | nil => exact .none
    | cons text texts ih =>
      by_cases hquoted : isQuoted text = true
      · rw [List.dropWhile_cons_of_neg (by simp [hquoted])]
        exact .here (isDescription_iff.mpr ⟨hquoted, rfl⟩) (args_iff.mpr rfl)
      · rw [List.dropWhile_cons_of_pos (by simp [hquoted])]
        exact .later (fun d hd => hquoted (isDescription_iff.mp hd).1) ih

/-- A block describes the one entry that it is parsed to. -/
theorem describes_iff {location : Option ℕ} {b : Block} {e : ModuleInfo} :
    Describes location b e ↔ e = parseBlock location b := by
  constructor
  · intro h
    cases h with
    | bare name => rfl
    | typed htype hrest =>
      obtain ⟨rfl, rfl⟩ := described_iff.mp hrest
      have ht := (isType_iff _).mp htype
      rw [parseBlock]
      dsimp only
      rw [← ht]
  · rintro rfl
    obtain ⟨name, texts⟩ := b
    cases texts with
    | nil => exact .bare name
    | cons first texts => exact .typed ((isType_iff _).mpr rfl) (described_iff.mpr ⟨rfl, rfl⟩)

end Grammar

section Loop

variable {location : Option ℕ} {override : Bool} {size : ℕ}

def runKinds (location : Option ℕ) (override : Bool) (s : Parsed) : List LineKind → Option Parsed
  | [] => some s
  | k :: ks => (kindStep location override s k).bind (fun s => runKinds location override s ks)

def result : Option Parsed → ReadResult
  | none => .fault
  | some s => .returned 0 (finish s)

def Terminated (body : Str) : Prop := body = [] ∨ body.getLast? = some LF

theorem Terminated.split {body : Str} (h : Terminated body) (hne : body ≠ []) :
    ∃ line tail, body = line ++ LF :: tail ∧ LF ∉ line ∧ Terminated tail := by
  have hlast := h.resolve_left hne
  have hmem : LF ∈ body := List.mem_of_getLast? hlast
  obtain ⟨r, hr⟩ := Option.ne_none_iff_exists'.mp (fun hn => (strchr_eq_none_iff _ _).mp hn hmem)
  obtain ⟨rfl, hl⟩ := (strchr_eq_some_iff _ _ r.1 r.2).mp hr
  refine ⟨r.1, r.2, rfl, hl, ?_⟩
  by_cases hnil : r.2 = []
  · exact Or.inl hnil
  · right
    rw [List.getLast?_append, List.getLast?_cons_of_ne_nil hnil] at hlast
    cases hr2 : r.2.getLast? with
    | none => exact absurd (List.getLast?_eq_none_iff.mp hr2) hnil
    | some b =>
      rw [hr2] at hlast
      exact hlast

theorem readLines_eq {s : Scan} {body : Str} {fuel : ℕ} (h : Holds s.buf s.start (body ++ [0]))
    (h0 : (0 : UInt8) ∉ body) (hterm : Terminated body) (ha : Anchored s.buf s.start)
    (hsize : body.length < size) (hf : body.length < fuel) :
    readLines location override size fuel s =
      result (runKinds location override s.parsed (kinds body)) := by
  induction fuel generalizing s body with
  | zero => omega
  | succ fuel ih =>
    by_cases hnil : body = []
    · subst hnil
      rw [readLines, if_pos h.1]
      rfl
    obtain ⟨line, tail, rfl, hl, hterm'⟩ := hterm.split hnil
    have h0l : (0 : UInt8) ∉ line := fun hm => h0 (List.mem_append_left _ hm)
    have h0t : (0 : UInt8) ∉ tail := fun hm =>
      h0 (List.mem_append_right _ (List.mem_cons_of_mem _ hm))
    have hgo : s.buf s.start ≠ 0 := by
      obtain ⟨c, t, hct⟩ := List.exists_cons_of_ne_nil hnil
      rw [hct] at h h0
      rw [h.1]
      exact fun heq => h0 (heq ▸ List.mem_cons_self)
    simp only [List.length_append, List.length_cons] at hsize hf
    rw [List.append_assoc, List.cons_append] at h
    have hleaves : Leaves location override size s line (tail ++ [0]) :=
      readLine_leaves h hl h0l (by omega) ha
    obtain ⟨buf, hline, hrest, hanch⟩ := hleaves
    have hkinds : kinds (line ++ LF :: tail) = kindOf line :: kinds tail := by
      rw [kinds, List.splitOn_append_cons_self_of_not_mem hl, List.map_cons]
      rfl
    rw [readLines, if_neg hgo, hline, hkinds, runKinds]
    cases kindStep location override s.parsed (kindOf line) with
    | none => rfl
    | some parsed => exact ih hrest h0t hterm' hanch (by omega) (by omega)

end Loop

section Blocks

variable {location : Option ℕ} {override : Bool} {s : Parsed}

/-- `nextModule` is the pending entry at the end of the list, an entry before it, or NULL. -/
structure Counted (s : Parsed) : Prop where
  next : s.nextModule = some s.numModules ∧ s.moduleList.length = s.numModules + 1 ∨
    s.nextModule ≠ some s.numModules ∧ s.moduleList.length = s.numModules
  room : s.moduleList.length ≤ s.modulesAlloced

theorem Counted.commit (h : Counted s) :
    (if s.nextModule = some s.numModules then s.numModules + 1 else s.numModules) =
      s.moduleList.length := by
  rcases h.next with ⟨hn, hl⟩ | ⟨hn, hl⟩
  · rw [if_pos hn, hl]
  · rw [if_neg hn, hl]

theorem Counted.finish (h : Counted s) : finish s = s.moduleList := by
  rw [ModuleList.finish, h.commit, List.take_length]

/-- A module's line: what becomes of the list, and which entry its texts go to. -/
theorem Counted.moduleLine (location : Option ℕ) (override : Bool) (h : Counted s) (name : Str) :
    ∃ s', moduleLine location override s name = some s' ∧ Counted s' ∧
      match s.moduleList.findIdx? (fun e => e.moduleName = name) with
      | some i =>
        if override then
          s'.moduleList = s.moduleList.set i (.fresh name location) ∧ s'.nextModule = some i
        else s'.moduleList = s.moduleList ∧ s'.nextModule = none ∧ s'.skipModule = true
      | none => s'.moduleList = s.moduleList ++ [.fresh name location] ∧
          s'.nextModule = some s.moduleList.length := by
  have hroom := h.room
  rw [ModuleList.moduleLine]
  simp only [h.commit, List.take_length]
  cases hf : s.moduleList.findIdx? (fun e => e.moduleName = name) with
  | some i =>
    have hi : i < s.moduleList.length := (List.findIdx?_eq_some_iff_getElem.mp hf).1
    cases override with
    | true =>
      refine ⟨_, rfl, ⟨Or.inr ⟨?_, by simp⟩, ?_⟩, rfl, rfl⟩
      · simpa using Nat.ne_of_lt hi
      · rw [List.length_set]
        dsimp only
        split <;> omega
    | false =>
      refine ⟨_, rfl, ⟨Or.inr ⟨by simp, rfl⟩, ?_⟩, rfl, rfl, rfl⟩
      dsimp only
      split <;> omega
  | none =>
    have hlt : s.moduleList.length < if s.moduleList.length = s.modulesAlloced then
        s.modulesAlloced + 5 else s.modulesAlloced := by
      split <;> omega
    simp only [hlt, ↓reduceIte]
    refine ⟨_, rfl, ⟨Or.inl ⟨rfl, by simp⟩, ?_⟩, rfl, rfl⟩
    rw [List.length_append, List.length_singleton]
    exact hlt

/-- The list with more texts added to the current entry. -/
def withTexts (mis : List ModuleInfo) (next : Option ℕ) (texts : List Str) : List ModuleInfo :=
  match next with
  | none => mis
  | some i => mis.modify i (fun e => texts.foldl addText e)

theorem Counted.textLine (h : Counted s) (hstarted : s.nextModule = none → s.skipModule = true)
    (text : Str) :
    ∃ s', textLine s text = some s' ∧ Counted s' ∧ s'.nextModule = s.nextModule ∧
      s'.skipModule = s.skipModule ∧ s'.moduleList = withTexts s.moduleList s.nextModule [text] := by
  rw [ModuleList.textLine]
  cases hn : s.nextModule with
  | none =>
    rw [if_pos (hstarted hn)]
    exact ⟨s, rfl, h, hn, rfl, rfl⟩
  | some i =>
    refine ⟨_, rfl, ⟨?_, ?_⟩, rfl, rfl, rfl⟩
    · simpa [hn] using h.next
    · simpa using h.room

theorem withTexts_append (mis : List ModuleInfo) (next : Option ℕ) (texts texts' : List Str) :
    withTexts (withTexts mis next texts) next texts' = withTexts mis next (texts ++ texts') := by
  cases next with
  | none => rfl
  | some i =>
    simp only [withTexts, List.foldl_append]
    rw [List.modify_modify_eq]
    rfl

theorem withTexts_nil (mis : List ModuleInfo) (next : Option ℕ) : withTexts mis next [] = mis := by
  cases next with
  | none => rfl
  | some i => exact List.modify_id _ _

theorem modify_set (mis : List ModuleInfo) (i : ℕ) (e : ModuleInfo) (f : ModuleInfo → ModuleInfo) :
    (mis.set i e).modify i f = mis.set i (f e) := by
  apply List.ext_getElem?
  intro j
  rw [List.getElem?_modify, List.getElem?_set, List.getElem?_set]
  by_cases hij : i = j
  · subst hij
    by_cases hi : i < mis.length
    · simp [hi]
    · simp [hi]
  · simp [hij]

theorem modify_concat (mis : List ModuleInfo) (e : ModuleInfo) (f : ModuleInfo → ModuleInfo) :
    (mis ++ [e]).modify mis.length f = mis ++ [f e] := by
  apply List.ext_getElem?
  intro j
  rw [List.getElem?_modify]
  rcases Nat.lt_trichotomy j mis.length with hj | rfl | hj
  · rw [List.getElem?_append_left hj, List.getElem?_append_left hj]
    simp [Nat.ne_of_gt hj]
  · simp
  · rw [List.getElem?_append_right hj.le, List.getElem?_append_right hj.le]
    have hpos : j - mis.length ≠ 0 := by omega
    obtain ⟨k, hk⟩ := Nat.exists_eq_succ_of_ne_zero hpos
    simp [hk]

theorem Counted.block (location : Option ℕ) (override : Bool) (h : Counted s) (name : Str) :
    ∃ s', ModuleList.moduleLine location override s name = some s' ∧ Counted s' ∧
      (s'.nextModule = none → s'.skipModule = true) ∧
      ∀ texts, withTexts s'.moduleList s'.nextModule texts =
        applyBlock location override s.moduleList (name, texts) := by
  obtain ⟨s', hs', hc, hlist⟩ := h.moduleLine location override name
  refine ⟨s', hs', hc, ?_⟩
  cases hf : s.moduleList.findIdx? (fun e => e.moduleName = name) with
  | some i =>
    rw [hf] at hlist
    cases override with
    | true =>
      obtain ⟨hl, hn⟩ := hlist
      rw [hl, hn]
      refine ⟨fun hnone => (by cases hnone), fun texts => ?_⟩
      simp only [applyBlock, hf, withTexts, modify_set, ↓reduceIte, ← foldl_addText_fresh]
    | false =>
      obtain ⟨hl, hn, hskip⟩ := hlist
      rw [hl, hn]
      refine ⟨fun _ => hskip, fun texts => ?_⟩
      simp [applyBlock, hf, withTexts]
  | none =>
    rw [hf] at hlist
    obtain ⟨hl, hn⟩ := hlist
    rw [hl, hn]
    refine ⟨fun hnone => (by cases hnone), fun texts => ?_⟩
    simp only [applyBlock, hf, withTexts, modify_concat, ← foldl_addText_fresh]

theorem Counted.runKinds (h : Counted s) (hstarted : s.nextModule = none → s.skipModule = true)
    (ks : List LineKind) :
    ∃ s', ModuleListRead.runKinds location override s ks = some s' ∧ Counted s' ∧
      s'.moduleList = (blocksOf ks).foldl (applyBlock location override)
        (withTexts s.moduleList s.nextModule (bodyTexts ks)) := by
  induction ks generalizing s with
  | nil => exact ⟨s, rfl, h, (withTexts_nil _ _).symm⟩
  | cons k ks ih =>
    cases k with
    | skip => exact ih h hstarted
    | text text =>
      obtain ⟨s1, hs1, hc, hn, hsk, hl⟩ := h.textLine hstarted text
      obtain ⟨s', hs', hc', hl'⟩ := ih hc (by rw [hn, hsk]; exact hstarted)
      refine ⟨s', ?_, hc', ?_⟩
      · rw [ModuleListRead.runKinds, kindStep, hs1, Option.bind_some, hs']
      · rw [hl', hl, hn, withTexts_append]
        rfl
    | name name =>
      obtain ⟨s1, hs1, hc, hst, hblock⟩ := h.block location override name
      obtain ⟨s', hs', hc', hl'⟩ := ih hc hst
      refine ⟨s', ?_, hc', ?_⟩
      · rw [ModuleListRead.runKinds, kindStep, hs1, Option.bind_some, hs']
      · rw [hl', hblock, bodyTexts, withTexts_nil]
        rfl

/-- A module's line comes before all indented ones. -/
def Headed (ks : List LineKind) : Prop := ∀ text, ks.find? (fun k => k ≠ .skip) ≠ some (.text text)

theorem Counted.runKinds_headed (location : Option ℕ) (override : Bool) (h : Counted s)
    {ks : List LineKind} (hh : Headed ks) :
    ∃ s', ModuleListRead.runKinds location override s ks = some s' ∧ Counted s' ∧
      s'.moduleList = (blocksOf ks).foldl (applyBlock location override) s.moduleList := by
  induction ks with
  | nil => exact ⟨s, rfl, h, rfl⟩
  | cons k ks ih =>
    cases k with
    | skip => exact ih (fun text => by simpa [Headed] using hh text)
    | text text => exact absurd rfl (hh text)
    | name name =>
      obtain ⟨s1, hs1, hc, hst, hblock⟩ := h.block location override name
      obtain ⟨s', hs', hc', hl'⟩ := hc.runKinds hst ks
      refine ⟨s', ?_, hc', ?_⟩
      · rw [ModuleListRead.runKinds, kindStep, hs1, Option.bind_some, hs']
      · rw [hl', hblock]
        rfl

end Blocks

/-- A file as `readModuleInfo` expects it: its version line, then lines that all end in a
newline, a module's line before any indented one. -/
structure WellFormed (content body : Str) : Prop where
  version : content = ascii "Version 0\n" ++ body
  terminated : Terminated body
  headed : Headed (kinds body)

theorem anchored_version (m : Mem) (body : Str) :
    Anchored (store m 0 (ascii "Version 0\n" ++ body ++ [0])) 10 := by
  have h := holds_store m 0 (ascii "Version 0\n" ++ body ++ [0])
  rw [List.append_assoc] at h ⊢
  obtain ⟨hv, -⟩ := (holds_append _ _ _ _).mp h
  have h8 := holds_get hv 8 (by decide)
  have h9 := holds_get hv 9 (by decide)
  rw [Nat.zero_add] at h8 h9
  refine ⟨8, by omega, by rw [h8]; decide, fun i hi hlt => ?_⟩
  obtain rfl : i = 9 := by omega
  rw [h9]
  decide

theorem readModuleInfo_eq (m : Mem) {content body : Str} (hw : WellFormed content body)
    (h0 : (0 : UInt8) ∉ content) (mis : List ModuleInfo) (location : Option ℕ)
    (override : Bool) :
    readModuleInfo m true true content mis location override =
      .returned 0 ((blocksOf (kinds body)).foldl (applyBlock location override) mis) := by
  have hversion := hw.version
  subst hversion
  have h0b : (0 : UInt8) ∉ body := fun hm => h0 (List.mem_append_right _ hm)
  have hstarts : (ascii "Version 0\n").isPrefixOf (ascii "Version 0\n" ++ body) = true :=
    List.isPrefixOf_iff_prefix.mpr (List.prefix_append _ _)
  have hlen : (ascii "Version 0\n" ++ body).length = 10 + body.length := by
    rw [List.length_append]
    rfl
  rw [readModuleInfo, hstarts, if_pos (by decide), hlen]
  have hholds := holds_store m 0 (ascii "Version 0\n" ++ body ++ [0])
  have hbody : Holds (store m 0 (ascii "Version 0\n" ++ body ++ [0])) 10 (body ++ [0]) := by
    rw [List.append_assoc] at hholds ⊢
    exact ((holds_append _ _ _ _).mp hholds).2
  rw [readLines_eq hbody h0b hw.terminated (anchored_version m body) (by omega) (by omega)]
  have hstart : Counted ⟨mis, mis.length, mis.length, none, false⟩ :=
    ⟨Or.inr ⟨by simp, rfl⟩, Nat.le_refl _⟩
  obtain ⟨s', hs', hc, hl⟩ := hstart.runKinds_headed location override hw.headed
  rw [hs', result, hc.finish, hl]

end Comodoo.ModuleListRead
