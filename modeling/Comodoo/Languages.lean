import Comodoo.LineBuffer

set_option autoImplicit false

/-!
# The language of the installer

`loadLanguageList`, `setLanguage`, `setupLanguage`, `setLangEnv` and `chooseLanguage` of
`stage-1/lang.c`. The translations that `loadLanguage` reads for the new language are not part of
this module, nor is what is drawn.
-/
namespace Comodoo.Languages
open CString LineBuffer

abbrev tab : UInt8 := 0x09
abbrev atSign : UInt8 := 0x40
abbrev dot : UInt8 := 0x2e
abbrev underscore : UInt8 := 0x5f

/-- The only font that can be shown in text mode. -/
def textFont : Str := ascii "latarcyrheb-sun16"

structure LangInfo where
  lang : Str
  key : Str
  font : Str
  lc_all : Str
  keyboard : Str
  deriving DecidableEq, Repr

/-! ## The table -/

/-- `%[^\t]\t`, so many times; white space in the format skips any white space. -/
def scanFields : ℕ → Str → List Str
  | 0, _ => []
  | n + 1, s =>
    let field := s.takeWhile (· ≠ tab)
    if field = [] then []
    else field :: scanFields n ((s.dropWhile (· ≠ tab)).dropWhile isspace)

/-- A line of the table; the time zone is read and not kept. -/
def scanLine (line : Str) : Option LangInfo :=
  match scanFields 6 (line.takeWhile (· ≠ 0)) with
  | [name, key, font, code, keyboard, _] => some ⟨name, key, font, code, keyboard⟩
  | _ => none

/-- The list is NULL until a line has been read. -/
def loadLanguageList (file : Option Str) : Option (List LangInfo) :=
  match file with
  | none => none
  | some text =>
    match pieces 255 [] text with
    | [] => none
    | lines => some (lines.filterMap scanLine)

/-! ## The program -/

structure Flags where
  serial : Bool
  virtpconsole : Bool
  vioConsole : Bool
  kickstart : Bool
  cmdline : Bool
  deriving DecidableEq, Repr

/-- `LANG`, `LANGKEY` and `LINGUAS`. -/
structure Env where
  lang : Option Str
  langkey : Option Str
  linguas : Option Str
  deriving DecidableEq, Repr

structure State where
  languages : Option (List LangInfo)
  english : ℕ
  env : Env
  deriving DecidableEq, Repr

def State.rows (s : State) : List LangInfo := s.languages.getD []

def envOf (l : LangInfo) : Env := ⟨some l.lc_all, some l.key, some l.lang⟩

section Program
variable (file : Option Str) (flags : Flags)

def State.loaded (s : State) : State :=
  { s with languages := s.languages.or (loadLanguageList file) }

/-- `none` is a read behind the table, which the test does not keep away. -/
def setLangEnv (s : State) (i : ℕ) : Option State :=
  if i > s.rows.length then some s
  else (s.rows[i]?).map (fun l => if l.font ≠ textFont then s else { s with env := envOf l })

def setupLanguage (s : State) (choice forced : ℕ) : Option State :=
  (s.rows[choice]?).bind (fun l =>
    if l.font ≠ textFont ∧ !flags.serial ∧ !flags.virtpconsole ∧ !flags.vioConsole then
      if forced = 1 then some s else setLangEnv s s.english
    else setLangEnv s choice)

def getLangShortForm (oldLang : Str) : Str :=
  (oldLang.takeWhile (· ≠ atSign)).takeWhile (· ≠ dot)

def getLangNick (oldLang : Str) : Str := oldLang.takeWhile (· ≠ underscore)

/-- The first language of that name, else of that short form, else of that nick. -/
def findLanguage (rows : List LangInfo) (key : Str) : Option ℕ :=
  (rows.findIdx? (fun l => l.lc_all = key)).or
    ((rows.findIdx? (fun l => getLangShortForm l.lc_all = key)).or
      (rows.findIdx? (fun l => getLangNick l.lc_all = key)))

def setLanguage (s : State) (key : Str) (forced : ℕ) : Option (State × ℤ) :=
  let s := s.loaded file
  match findLanguage s.rows key with
  | none => some (s, -1)
  | some i =>
    (setupLanguage flags s i (forced ||| if flags.kickstart then 0 else 1)).map (fun s => (s, 0))

/-- A loop that keeps the index of the last language it likes. -/
def lastLiked (likes : LangInfo → Bool) (rows : List LangInfo) (old : Option ℕ) : Option ℕ :=
  rows.zipIdx.foldl (fun last l => if likes l.1 then some l.2 else last) old

def isEnglish (l : LangInfo) : Bool := (ascii "en").isPrefixOf l.key

def State.withEnglish (s : State) : State :=
  { s with english := (lastLiked isEnglish s.rows none).getD s.english }

/-- `pick` is what the menu leaves in `choice`; `none` is the `abort` or a NULL that is compared. -/
def chooseLanguage (s : State) (pick : ℕ) : Option (State × Str) :=
  let s := (s.loaded file).withEnglish
  let current := lastLiked (fun l => some l.lang = s.env.lang) s.rows none
  let choice := if flags.cmdline then current.getD s.english else pick
  match s.rows[choice]? with
  | none => none
  | some picked =>
    match s.rows.findIdx? (fun l => l.lang = picked.lang) with
    | none => none
    | some i =>
      (s.rows[i]?).bind (fun l => (setupLanguage flags s i 0).map (fun s => (s, l.lc_all)))

/-- Both callers of `setLanguage` force the language. -/
inductive Event where
  | setLanguage (key : Str)
  | chooseLanguage (pick : ℕ)
  deriving DecidableEq, Repr

def step (s : State) : Event → Option State
  | .setLanguage key => (setLanguage file flags s key 1).map Prod.fst
  | .chooseLanguage pick => (chooseLanguage file flags s pick).map Prod.fst

def run : List Event → State → Option State
  | [], s => some s
  | e :: events, s => (step file flags s e).bind (run events)

end Program

/-! ## A table that is written is read -/

def LangInfo.later (l : LangInfo) : List Str := [l.key, l.font, l.lc_all, l.keyboard]

/-- A language with its time zone, in a form that can stand in the table. -/
structure Entry where
  info : LangInfo
  timezone : Str
  name_ne : info.lang ≠ []
  clean : ∀ f ∈ info.lang :: timezone :: info.later, tab ∉ f ∧ newline ∉ f ∧ 0 ∉ f
  starts : ∀ f ∈ timezone :: info.later, f.head?.any (fun b => !isspace b) = true
  fits : (info.lang ++ tab :: (info.later.flatMap (· ++ [tab]) ++ timezone)).length < 255

def Entry.body (e : Entry) : Str :=
  e.info.lang ++ tab :: (e.info.later.flatMap (· ++ [tab]) ++ e.timezone)

section Tables

variable {f last : Str} {fields : List Str}

theorem exists_of_head? (h : f.head?.any (fun b => !isspace b) = true) :
    ∃ b rest, f = b :: rest ∧ isspace b = false := by
  cases f with
  | nil => cases h
  | cons b rest => exact ⟨b, rest, rfl, by simpa using h⟩

theorem scanFields_tab (hf : f ≠ []) (htab : tab ∉ f) {rest : Str}
    (hrest : ∃ b tail, rest = b :: tail ∧ isspace b = false) (n : ℕ) :
    scanFields (n + 1) (f ++ tab :: rest) = f :: scanFields n rest := by
  have hne : ∀ b ∈ f, decide (b ≠ tab) = true := by
    intro b hb
    exact decide_eq_true (fun h => htab (h ▸ hb))
  have htake : (f ++ tab :: rest).takeWhile (· ≠ tab) = f := takeWhile_append_stop hne (by simp)
  have hdrop : (f ++ tab :: rest).dropWhile (· ≠ tab) = tab :: rest :=
    dropWhile_append_stop hne (by simp)
  obtain ⟨b, tail, rfl, hb⟩ := hrest
  have hspace : (tab :: b :: tail).dropWhile isspace = b :: tail := by
    rw [List.dropWhile_cons_of_pos (by decide), List.dropWhile_cons_of_neg (by simp [hb])]
  rw [scanFields, htake, hdrop, hspace]
  exact if_neg hf

theorem scanFields_fields (hf : f ≠ []) (htab : tab ∉ f)
    (hfields : ∀ g ∈ last :: fields, tab ∉ g ∧ ∃ b rest, g = b :: rest ∧ isspace b = false) :
    scanFields (fields.length + 2) (f ++ tab :: (fields.flatMap (· ++ [tab]) ++ last)) =
      f :: (fields ++ [last]) := by
  induction fields generalizing f with
  | nil =>
    have hlast := hfields last List.mem_cons_self
    change scanFields (1 + 1) (f ++ tab :: last) = _
    rw [scanFields_tab hf htab hlast.2]
    obtain ⟨b, rest, rfl, -⟩ := hlast.2
    have htake : (b :: rest).takeWhile (· ≠ tab) = b :: rest := by
      apply List.takeWhile_eq_self_iff.mpr
      intro c hc
      exact decide_eq_true (fun h => hlast.1 (h ▸ hc))
    rw [scanFields, htake]
    exact congrArg (f :: ·) (if_neg (List.cons_ne_nil b rest))
  | cons g fields ih =>
    have hg := hfields g (List.mem_cons_of_mem last List.mem_cons_self)
    have hrest : ∀ h ∈ last :: fields, tab ∉ h ∧ ∃ b rest, h = b :: rest ∧ isspace b = false := by
      intro h hh
      apply hfields h
      simp only [List.mem_cons] at hh ⊢
      tauto
    obtain ⟨b, rest, hgb, hb⟩ := hg.2
    have hne : g ≠ [] := by
      rw [hgb]
      exact List.cons_ne_nil b rest
    rw [List.flatMap_cons, List.append_assoc, List.append_assoc, List.singleton_append,
      List.length_cons, List.cons_append,
      scanFields_tab hf htab ⟨b, _, by rw [hgb]; rfl, hb⟩, ih hne hg.1 hrest]

theorem not_mem_body (e : Entry) {c : UInt8} (hc : c ≠ tab)
    (hfields : ∀ f ∈ e.info.lang :: e.timezone :: e.info.later, c ∉ f) : c ∉ e.body := by
  intro hmem
  unfold Entry.body at hmem
  rw [List.mem_append, List.mem_cons, List.mem_append, List.mem_flatMap] at hmem
  obtain hlang | htab | ⟨f, hf, hmem⟩ | htime := hmem
  · exact hfields _ List.mem_cons_self hlang
  · exact hc htab
  · cases List.mem_append.mp hmem with
    | inl hmem => exact hfields f (List.mem_cons_of_mem _ (List.mem_cons_of_mem _ hf)) hmem
    | inr htab => exact hc (List.mem_singleton.mp htab)
  · exact hfields _ (List.mem_cons_of_mem _ List.mem_cons_self) htime

theorem scanLine_entry (e : Entry) : scanLine (e.body ++ [newline]) = some e.info := by
  have hnul : (e.body ++ [newline]).takeWhile (· ≠ 0) = e.body ++ [newline] := by
    apply List.takeWhile_eq_self_iff.mpr
    intro c hc
    apply decide_eq_true
    rintro rfl
    cases List.mem_append.mp hc with
    | inl hbody => exact not_mem_body e (by decide) (fun f hf => (e.clean f hf).2.2) hbody
    | inr hline => exact absurd (List.mem_singleton.mp hline) (by decide)
  have hfields : ∀ g ∈ (e.timezone ++ [newline]) :: e.info.later,
      tab ∉ g ∧ ∃ b rest, g = b :: rest ∧ isspace b = false := by
    intro g hg
    cases List.mem_cons.mp hg with
    | inl hlast =>
      have htime := (e.clean e.timezone (by simp)).1
      obtain ⟨b, rest, hb, hspace⟩ := exists_of_head? (e.starts e.timezone List.mem_cons_self)
      rw [hlast, List.mem_append, List.mem_singleton]
      exact ⟨fun h => h.elim htime (by decide), b, rest ++ [newline], by rw [hb]; rfl, hspace⟩
    | inr hlater =>
      exact ⟨(e.clean g (List.mem_cons_of_mem _ (List.mem_cons_of_mem _ hlater))).1,
        exists_of_head? (e.starts g (List.mem_cons_of_mem _ hlater))⟩
  have hscan := scanFields_fields e.name_ne (e.clean _ List.mem_cons_self).1 hfields
  have hbody : e.info.lang ++ tab :: (e.info.later.flatMap (· ++ [tab]) ++
      (e.timezone ++ [newline])) = e.body ++ [newline] := by
    unfold Entry.body
    simp only [List.append_assoc, List.cons_append]
  rw [hbody] at hscan
  unfold scanLine
  rw [hnul]
  change (match scanFields (e.info.later.length + 2) (e.body ++ [newline]) with
    | [name, key, font, code, keyboard, _] => some (LangInfo.mk name key font code keyboard)
    | _ => none) = some e.info
  rw [hscan]
  rfl

/-- A table of languages is read as it was written. -/
theorem loadLanguageList_entries (entries : List Entry) (h : entries ≠ []) :
    loadLanguageList (some (entries.flatMap (fun e => e.body ++ [newline]))) =
      some (entries.map Entry.info) := by
  have hline : ∀ e : Entry, newline ∉ e.body :=
    fun e => not_mem_body e (by decide) (fun f hf => (e.clean f hf).2.1)
  have hpieces : pieces 255 [] (entries.flatMap (fun e => e.body ++ [newline])) =
      entries.map (fun e => e.body ++ [newline]) := by
    have hone : ∀ e : Entry, pieces 255 [] (e.body ++ [newline]) = [e.body ++ [newline]] := by
      intro e
      have hfit : ([] : Str).length + e.body.length < 255 := by
        rw [List.length_nil, Nat.zero_add]
        exact e.fits
      exact pieces_short (hline e) hfit
    rw [pieces_flatMap Entry.body entries (fun e _ => hline e), List.map_eq_flatMap]
    simp only [hone]
  have hscan : (entries.map (fun e => e.body ++ [newline])).filterMap scanLine =
      entries.map Entry.info := by
    rw [List.filterMap_map, ← List.filterMap_eq_map]
    congr 1
    funext e
    exact scanLine_entry e
  obtain ⟨e, rest, rfl⟩ := List.exists_cons_of_ne_nil h
  unfold loadLanguageList
  dsimp only
  rw [hpieces]
  exact congrArg some hscan

def spanish : Entry where
  info := ⟨ascii "Spanish", ascii "es", textFont, ascii "es_ES.UTF-8", ascii "es"⟩
  timezone := ascii "Europe/Madrid"
  name_ne := by decide
  clean := by decide
  starts := by decide
  fits := by decide

theorem loadLanguageList_entries_spanish :
    loadLanguageList (some (spanish.body ++ [newline])) = some [spanish.info] := by
  have hread := loadLanguageList_entries [spanish] (List.cons_ne_nil _ _)
  rw [List.flatMap_singleton] at hread
  exact hread

end Tables

/-! ## What the calls leave in the environment -/

def shown (l : LangInfo) (env : Env) : Env := if l.font = textFont then envOf l else env

def textOnly (flags : Flags) : Bool := !flags.serial && !flags.virtpconsole && !flags.vioConsole

/-- The last English language, or the first language of all. -/
def fallback (rows : List LangInfo) : ℕ := (lastLiked isEnglish rows none).getD 0

def choiceOf (flags : Flags) (rows : List LangInfo) (env : Env) (pick : ℕ) : ℕ :=
  if flags.cmdline then
    (lastLiked (fun l => some l.lang = env.lang) rows none).getD (fallback rows)
  else pick

/-- The place of the language that is set: what cannot be shown is English where it was chosen. -/
def settled (flags : Flags) (rows : List LangInfo) (env : Env) : Event → Option ℕ
  | .setLanguage key => findLanguage rows key
  | .chooseLanguage pick =>
    ((rows[choiceOf flags rows env pick]?).bind (fun picked =>
      rows.findIdx? (fun l => l.lang = picked.lang))).map (fun i =>
        if textOnly flags ∧ (rows[i]?).any (fun l => l.font ≠ textFont) then fallback rows else i)

def effect (flags : Flags) (rows : List LangInfo) (env : Env) (e : Event) : Env :=
  ((settled flags rows env e).bind (fun i => rows[i]?)).elim env (fun l => shown l env)

section Runs

variable {file : Option Str} {flags : Flags} {rows : List LangInfo} {s : State}

theorem lastLiked_lt {likes : LangInfo → Bool} {i : ℕ} (h : lastLiked likes rows none = some i) :
    i < rows.length := by
  have hrun : ∀ (rows : List LangInfo) (k : ℕ) (old : Option ℕ),
      (rows.zipIdx k).foldl (fun last l => if likes l.1 then some l.2 else last) old = old ∨
        ∃ i, (rows.zipIdx k).foldl (fun last l => if likes l.1 then some l.2 else last) old = some i ∧
          i < k + rows.length := by
    intro rows
    induction rows with
    | nil => exact fun _ _ => Or.inl rfl
    | cons l rows ih =>
      intro k old
      rw [List.zipIdx_cons, List.foldl_cons, List.length_cons]
      obtain hsame | ⟨i, hi, hlt⟩ := ih (k + 1) (if likes l then some k else old)
      · rw [hsame]
        by_cases hl : likes l = true
        · rw [if_pos hl]
          exact Or.inr ⟨k, rfl, by omega⟩
        · rw [if_neg hl]
          exact Or.inl rfl
      · exact Or.inr ⟨i, hi, by omega⟩
  obtain hnone | ⟨j, hj, hlt⟩ := hrun rows 0 none
  · rw [lastLiked, hnone] at h
    cases h
  · rw [lastLiked, hj] at h
    cases h
    omega

theorem fallback_lt (h : rows ≠ []) : fallback rows < rows.length := by
  unfold fallback
  cases hlast : lastLiked isEnglish rows none with
  | none => exact List.length_pos_iff.mpr h
  | some i => exact lastLiked_lt hlast

theorem findIdx?_lt {p : LangInfo → Bool} {i : ℕ} (h : rows.findIdx? p = some i) :
    i < rows.length :=
  (List.findIdx?_eq_some_iff_getElem.mp h).1

theorem findLanguage_lt {key : Str} {i : ℕ} (h : findLanguage rows key = some i) :
    i < rows.length := by
  unfold findLanguage at h
  rw [Option.or_eq_some_iff, Option.or_eq_some_iff] at h
  obtain h | ⟨-, h | ⟨-, h⟩⟩ := h
  all_goals exact findIdx?_lt h

theorem exists_getElem? {i : ℕ} (h : i < rows.length) : ∃ l, rows[i]? = some l :=
  ⟨rows[i], List.getElem?_eq_getElem h⟩

theorem setLangEnv_eq {l : LangInfo} {i : ℕ} (h : s.rows[i]? = some l) :
    setLangEnv s i = some { s with env := shown l s.env } := by
  have hi : i < s.rows.length := (List.getElem?_eq_some_iff.mp h).1
  unfold setLangEnv shown
  rw [if_neg (by omega), h, Option.map_some]
  by_cases hfont : l.font = textFont <;> simp [hfont]

theorem setupLanguage_forced {l : LangInfo} {i : ℕ} (h : s.rows[i]? = some l) (kickstart : Bool) :
    setupLanguage flags s i (1 ||| if kickstart then 0 else 1) =
      some { s with env := shown l s.env } := by
  have hforced : (1 ||| if kickstart then 0 else 1) = 1 := by cases kickstart <;> rfl
  unfold setupLanguage
  rw [hforced, h, Option.bind_some]
  split
  · rename_i hhidden
    rw [if_pos rfl, shown, if_neg hhidden.1]
  · exact setLangEnv_eq h

def tableOf (file : Option Str) : List LangInfo := (loadLanguageList file).getD []

structure Good (file : Option Str) (s : State) : Prop where
  languages : s.languages = none ∨ s.languages = loadLanguageList file
  english : s.english = 0 ∨ lastLiked isEnglish (tableOf file) none = some s.english

theorem Good.loaded (h : Good file s) :
    (s.loaded file).rows = tableOf file ∧ (s.loaded file).languages = loadLanguageList file := by
  have hlanguages : (s.loaded file).languages = loadLanguageList file := by
    change s.languages.or (loadLanguageList file) = _
    obtain hnone | hsome := h.languages
    · rw [hnone, Option.none_or]
    · rw [hsome]
      cases loadLanguageList file <;> rfl
  exact ⟨congrArg (Option.getD · []) hlanguages, hlanguages⟩

theorem Good.english_eq (h : Good file s) :
    (lastLiked isEnglish (tableOf file) none).getD s.english = fallback (tableOf file) := by
  unfold fallback
  cases hlast : lastLiked isEnglish (tableOf file) none with
  | some i => rfl
  | none =>
    obtain hzero | hsome := h.english
    · exact hzero
    · rw [hlast] at hsome
      cases hsome

theorem step_setLanguage (h : Good file s) (key : Str) :
    ∃ s', step file flags s (.setLanguage key) = some s' ∧ Good file s' ∧
      s'.env = effect flags (tableOf file) s.env (.setLanguage key) := by
  obtain ⟨hrows, hlanguages⟩ := h.loaded
  unfold step setLanguage
  dsimp only
  rw [hrows]
  have hgood : ∀ env, Good file { s.loaded file with env := env } :=
    fun _ => ⟨Or.inr hlanguages, h.english⟩
  unfold effect settled
  dsimp only
  cases hfind : findLanguage (tableOf file) key with
  | none => exact ⟨s.loaded file, rfl, hgood s.env, rfl⟩
  | some i =>
    obtain ⟨l, hget⟩ := exists_getElem? (findLanguage_lt hfind)
    have hget' : (s.loaded file).rows[i]? = some l := by rw [hrows, hget]
    dsimp only
    rw [setupLanguage_forced hget', Option.bind_some, hget]
    exact ⟨_, rfl, hgood _, rfl⟩

theorem setupLanguage_chosen {l en : LangInfo} {i : ℕ} (h : s.rows[i]? = some l)
    (henglish : s.rows[s.english]? = some en) :
    setupLanguage flags s i 0 = some { s with
      env := shown (if textOnly flags ∧ l.font ≠ textFont then en else l) s.env } := by
  have hhidden : (l.font ≠ textFont ∧ !flags.serial ∧ !flags.virtpconsole ∧ !flags.vioConsole) ↔
      textOnly flags ∧ l.font ≠ textFont := by
    unfold textOnly
    simp only [Bool.and_eq_true]
    tauto
  unfold setupLanguage
  rw [h, Option.bind_some]
  by_cases hshow : textOnly flags ∧ l.font ≠ textFont
  · rw [if_pos (hhidden.mpr hshow), if_neg (by omega), if_pos hshow]
    exact setLangEnv_eq henglish
  · rw [if_neg (mt hhidden.mp hshow), if_neg hshow]
    exact setLangEnv_eq h

theorem Good.withEnglish (h : Good file s) :
    ((s.loaded file).withEnglish).rows = tableOf file ∧
      ((s.loaded file).withEnglish).english = fallback (tableOf file) ∧
      ∀ env, Good file { (s.loaded file).withEnglish with env := env } := by
  obtain ⟨hrows, hlanguages⟩ := h.loaded
  have henglish : ((s.loaded file).withEnglish).english = fallback (tableOf file) := by
    change (lastLiked isEnglish (s.loaded file).rows none).getD s.english = _
    rw [hrows, h.english_eq]
  refine ⟨hrows, henglish, fun env => ⟨Or.inr hlanguages, ?_⟩⟩
  change ((s.loaded file).withEnglish).english = 0 ∨ _ = some ((s.loaded file).withEnglish).english
  rw [henglish]
  unfold fallback
  cases lastLiked isEnglish (tableOf file) none with
  | none => exact Or.inl rfl
  | some i => exact Or.inr rfl

theorem choiceOf_lt (hne : rows ≠ []) (env : Env) {pick : ℕ}
    (hpick : flags.cmdline = true ∨ pick < rows.length) :
    choiceOf flags rows env pick < rows.length := by
  unfold choiceOf
  split
  · cases hcurrent : lastLiked (fun l => decide (some l.lang = env.lang)) rows none with
    | none => exact fallback_lt hne
    | some i => exact lastLiked_lt hcurrent
  · rename_i hcmdline
    exact hpick.resolve_left hcmdline

theorem step_chooseLanguage (h : Good file s) (pick : ℕ) (hne : tableOf file ≠ [])
    (hpick : flags.cmdline = true ∨ pick < (tableOf file).length) :
    ∃ s', step file flags s (.chooseLanguage pick) = some s' ∧ Good file s' ∧
      s'.env = effect flags (tableOf file) s.env (.chooseLanguage pick) := by
  obtain ⟨hrows, henglish, hgood⟩ := h.withEnglish
  obtain ⟨picked, hpicked⟩ := exists_getElem? (choiceOf_lt hne s.env hpick)
  obtain ⟨en, hen⟩ := exists_getElem? (fallback_lt hne)
  have hfind : ∃ i, (tableOf file).findIdx? (fun l => l.lang = picked.lang) = some i := by
    apply Option.isSome_iff_exists.mp
    rw [List.findIdx?_isSome]
    exact List.any_eq_true.mpr ⟨picked, List.mem_of_getElem? hpicked, by simp⟩
  obtain ⟨i, hi⟩ := hfind
  obtain ⟨l, hl⟩ := exists_getElem? (findIdx?_lt hi)
  have hchosen := @setupLanguage_chosen flags (s.loaded file).withEnglish l en i
    (by rw [hrows, hl]) (by rw [hrows, henglish, hen])
  have hchoice : (if flags.cmdline then
      (lastLiked (fun l => some l.lang = (s.loaded file).withEnglish.env.lang) (tableOf file) none).getD
        (s.loaded file).withEnglish.english else pick) = choiceOf flags (tableOf file) s.env pick := by
    rw [henglish]
    rfl
  have hset : settled flags (tableOf file) s.env (.chooseLanguage pick) =
      some (if textOnly flags ∧ l.font ≠ textFont then fallback (tableOf file) else i) := by
    unfold settled
    dsimp only
    rw [hpicked, Option.bind_some, hi, Option.map_some, hl]
    simp
  unfold step chooseLanguage
  dsimp only
  rw [hrows, hchoice, hpicked]
  dsimp only
  rw [hi]
  dsimp only
  rw [hl, Option.bind_some, hchosen]
  refine ⟨_, rfl, hgood _, ?_⟩
  unfold effect
  rw [hset]
  change shown _ s.env = _
  split
  · rw [Option.bind_some, hen]
    rfl
  · rw [Option.bind_some, hl]
    rfl

theorem step_chooseLanguage_nil (h : Good file s) (pick : ℕ) (hnil : tableOf file = []) :
    step file flags s (.chooseLanguage pick) = none := by
  unfold step chooseLanguage
  dsimp only
  rw [h.withEnglish.1, hnil]
  rfl

def Event.isChoice : Event → Bool
  | .setLanguage _ => false
  | .chooseLanguage _ => true

/-- The menu leaves the place of a language, where there is one. -/
def PicksListed (flags : Flags) (rows : List LangInfo) (e : Event) : Prop :=
  ∀ pick, e = .chooseLanguage pick → rows ≠ [] → flags.cmdline = true ∨ pick < rows.length

theorem step_eq (h : Good file s) {e : Event} (hpick : PicksListed flags (tableOf file) e) :
    (step file flags s e = none ∧ tableOf file = [] ∧ e.isChoice = true) ∨
      ¬ (tableOf file = [] ∧ e.isChoice = true) ∧
        ∃ s', step file flags s e = some s' ∧ Good file s' ∧
          s'.env = effect flags (tableOf file) s.env e := by
  cases e with
  | setLanguage key => exact Or.inr ⟨by simp [Event.isChoice], step_setLanguage h key⟩
  | chooseLanguage pick =>
    by_cases hnil : tableOf file = []
    · exact Or.inl ⟨step_chooseLanguage_nil h pick hnil, hnil, rfl⟩
    · exact Or.inr ⟨fun hboth => hnil hboth.1,
        step_chooseLanguage h pick hnil (hpick pick rfl hnil)⟩

theorem run_good (events : List Event) (h : Good file s)
    (hpick : ∀ e ∈ events, PicksListed flags (tableOf file) e) :
    (run file flags events s = none ↔ tableOf file = [] ∧ ∃ e ∈ events, e.isChoice = true) ∧
      ∀ s', run file flags events s = some s' →
        s'.env = events.foldl (effect flags (tableOf file)) s.env := by
  induction events generalizing s with
  | nil =>
    constructor
    · simp [run]
    · intro s' hs'
      cases hs'
      rfl
  | cons e events ih =>
    rw [List.forall_mem_cons] at hpick
    unfold run
    obtain ⟨hnone, hnil, hchoice⟩ | ⟨hgo, s₁, hstep, hgood, henv⟩ := step_eq h hpick.1
    · rw [hnone]
      simp [hnil, hchoice]
    · have hrest := ih hgood hpick.2
      rw [hstep, Option.bind_some, hrest.1, List.foldl_cons, ← henv]
      refine ⟨?_, hrest.2⟩
      simp only [List.mem_cons, exists_eq_or_imp]
      tauto

theorem effect_shown (rows : List LangInfo) (env : Env) (e : Event) :
    effect flags rows env e = env ∨
      ∃ l ∈ rows, l.font = textFont ∧ effect flags rows env e = envOf l := by
  unfold effect
  cases hget : (settled flags rows env e).bind (fun i => rows[i]?) with
  | none => exact Or.inl rfl
  | some l =>
    obtain ⟨i, -, hi⟩ := Option.bind_eq_some_iff.mp hget
    change shown l env = env ∨ ∃ l' ∈ rows, l'.font = textFont ∧ shown l env = envOf l'
    unfold shown
    by_cases hfont : l.font = textFont
    · right
      exact ⟨l, List.mem_of_getElem? hi, hfont, if_pos hfont⟩
    · left
      exact if_neg hfont

theorem effects_shown (rows : List LangInfo) (env : Env) (events : List Event) :
    events.foldl (effect flags rows) env = env ∨
      ∃ l ∈ rows, l.font = textFont ∧ events.foldl (effect flags rows) env = envOf l := by
  induction events generalizing env with
  | nil => exact Or.inl rfl
  | cons e events ih =>
    rw [List.foldl_cons]
    obtain hsame | hshown := ih (effect flags rows env e)
    · rw [hsame]
      exact effect_shown rows env e
    · exact Or.inr hshown

/-- From the start of the program on: the process ends where a language is to be chosen and the
table has none, and nowhere else. The three variables are set together, to a language that can be
shown, as a table that is read once and a fixed English tell. -/
theorem run_env (file : Option Str) (flags : Flags) (env : Env) (events : List Event)
    (hpick : ∀ e ∈ events, PicksListed flags (tableOf file) e) :
    (run file flags events ⟨none, 0, env⟩ = none ↔
        tableOf file = [] ∧ ∃ e ∈ events, e.isChoice = true) ∧
      ∀ s, run file flags events ⟨none, 0, env⟩ = some s →
        s.env = events.foldl (effect flags (tableOf file)) env ∧
          (s.env = env ∨ ∃ l ∈ tableOf file, l.font = textFont ∧ s.env = envOf l) := by
  have hrun := @run_good file flags ⟨none, 0, env⟩ events ⟨Or.inl rfl, Or.inl rfl⟩ hpick
  refine ⟨hrun.1, ?_⟩
  intro s hs
  have henv := hrun.2 s hs
  rw [henv]
  exact ⟨rfl, effects_shown (tableOf file) env events⟩

def japanese : LangInfo :=
  ⟨ascii "Japanese", ascii "ja", ascii "none", ascii "ja_JP.UTF-8", ascii "jp106"⟩

def american : LangInfo :=
  ⟨ascii "English", ascii "en", textFont, ascii "en_US.UTF-8", ascii "us"⟩

def twoLanguages : Str :=
  ascii "Japanese\tja\tnone\tja_JP.UTF-8\tjp106\tAsia/Tokyo\n" ++
    ascii "English\ten\tlatarcyrheb-sun16\ten_US.UTF-8\tus\tAmerica/New_York\n"

/-- Neither a `lang=ja` nor a choice in the menu leads to what cannot be shown. -/
def japaneseTwice : List Event := [.setLanguage (ascii "ja"), .chooseLanguage 0]

theorem run_env_japaneseTwice :
    ∃ s, run (some twoLanguages) ⟨false, false, false, false, false⟩ japaneseTwice
        ⟨none, 0, ⟨none, none, none⟩⟩ = some s ∧ s.env = envOf american := by
  have htable : tableOf (some twoLanguages) = [japanese, american] := by decide +kernel
  have hrun := run_env (some twoLanguages) ⟨false, false, false, false, false⟩ ⟨none, none, none⟩
    japaneseTwice (by
      intro e he pick hpick _
      rw [htable]
      rw [hpick] at he
      have hzero : pick = 0 := by simpa [japaneseTwice] using he
      exact Or.inr (hzero ▸ Nat.zero_lt_two))
  rw [htable] at hrun
  cases hresult : run (some twoLanguages) ⟨false, false, false, false, false⟩ japaneseTwice
      ⟨none, 0, ⟨none, none, none⟩⟩ with
  | none => exact absurd (hrun.1.mp hresult).1 (List.cons_ne_nil _ _)
  | some s => exact ⟨s, rfl, (hrun.2 s hresult).1⟩

end Runs

end Comodoo.Languages
