import Comodoo.KickstartCommands

set_option autoImplicit false

/-!
# What `ksReadCommands` reads

The loop over the buffer does the same as `parseAll` on the list of lines, and `parseAll` finds
the entries of the file unless the first line that reaches the tokenizer is refused.
-/
namespace Comodoo.KickstartRead
open CString ByteMemory KickstartScan KickstartCommands

variable {tokenize : Str → Option (List Str)}

/-- The last byte of a trimmed line, which decides about the backslash. -/
def lastByte (line : Str) : UInt8 := (trim line).getLast?.getD 0

def parseAll (tokenize : Str → Option (List Str)) (s : Parsed) : List Str → Option Parsed
  | [] => some s
  | line :: lines =>
    if s.inSection then some s
    else (parseText tokenize s (trim line) (lastByte line)).bind
      (fun s => parseAll tokenize s lines)

def result : Option Parsed → ReadResult
  | none => .fault
  | some s => .returned 0 s.commands

section Loop

variable {size : ℕ} {s : Scan}

theorem parseText_nil (p : Parsed) (c : UInt8) : parseText tokenize p [] c = some p := by
  simp [parseText]

theorem parseText_last {p : Parsed} {line : Str} {c : UInt8}
    (h : ∀ d, (trim line).getLast? = some d → c = d) :
    parseText tokenize p (trim line) c = parseText tokenize p (trim line) (lastByte line) := by
  cases hl : (trim line).getLast? with
  | none =>
    rw [List.getLast?_eq_none_iff] at hl
    rw [hl, parseText_nil, parseText_nil]
  | some d => rw [h d hl, lastByte, hl, Option.getD_some]

theorem readLine_eq (tokenize : Str → Option (List Str)) {line tail : Str} {b : UInt8}
    (hs : 1 ≤ s.start) (h : Holds s.buf s.start (line ++ b :: tail)) (hl : LF ∉ line)
    (h0 : (0 : UInt8) ∉ line) (hb : b = LF ∨ b = 0) (hsize : line.length < size) :
    ∃ buf, readLine tokenize size s =
        (parseText tokenize s.parsed (trim line) (lastByte line)).map (fun parsed =>
          ⟨buf, if b = 0 then s.start + line.length else s.start + line.length + 1, parsed⟩) ∧
      Holds buf (s.start + line.length + 1) tail ∧ buf (s.start + line.length) = 0 := by
  have hcut := cutLine_isCut hs h h0 hsize
  have hstop := lineEnd_eq h hl h0 hb hsize
  have hold : s.buf (s.start + line.length) = b := ((holds_append _ _ _ _).mp h).2.1
  have htext : strn (cutLine s.buf size s.start (s.start + line.length)).1
      (cutLine s.buf size s.start (s.start + line.length)).2.1 size = trim line := by
    rw [hcut.text, List.take_of_length_le]
    exact (trim_length_le line).trans hsize.le
  refine ⟨(cutLine s.buf size s.start (s.start + line.length)).1, ?_, hcut.rest,
    hcut.ends⟩
  rw [readLine, hstop, hold, htext, parseText_last hcut.last]

theorem buf_ne_zero {rest : Str} (h : Holds s.buf s.start (rest ++ [0])) (h0 : (0 : UInt8) ∉ rest)
    (hne : rest ≠ []) : s.buf s.start ≠ 0 := by
  obtain ⟨c, t, rfl⟩ := List.exists_cons_of_ne_nil hne
  rw [h.1]
  rintro rfl
  exact h0 List.mem_cons_self

/-- The loop ends, with what `parseAll` makes of the lines. -/
theorem readLines_eq (tokenize : Str → Option (List Str)) {rest : Str} {fuel : ℕ}
    (hs : 1 ≤ s.start) (h : Holds s.buf s.start (rest ++ [0])) (h0 : (0 : UInt8) ∉ rest)
    (hsize : rest.length < size) (hf : rest.length + 1 < fuel) :
    readLines tokenize size fuel s = result (parseAll tokenize s.parsed (rest.splitOn LF)) := by
  induction fuel generalizing s rest with
  | zero => omega
  | succ fuel ih =>
    by_cases hsec : s.parsed.inSection = true
    · rw [readLines, if_pos (Or.inr hsec)]
      cases hsplit : rest.splitOn LF with
      | nil => rfl
      | cons line lines => rw [parseAll, if_pos hsec, result]
    cases hr : strchr LF rest with
    | some r =>
      obtain ⟨line, tail⟩ := r
      obtain ⟨rfl, hl⟩ := (strchr_eq_some_iff _ _ _ _).mp hr
      have hgo := buf_ne_zero h h0 (by simp)
      have h0l : (0 : UInt8) ∉ line := fun hm => h0 (List.mem_append_left _ hm)
      have h0t : (0 : UInt8) ∉ tail := fun hm =>
        h0 (List.mem_append_right _ (List.mem_cons_of_mem _ hm))
      simp only [List.length_append, List.length_cons] at hsize hf
      rw [List.append_assoc, List.cons_append] at h
      obtain ⟨buf, hline, hrest, -⟩ :=
        readLine_eq tokenize hs h hl h0l (Or.inl rfl) (show line.length < size by omega)
      rw [readLines, if_neg (by simp [hgo, hsec]), hline,
        List.splitOn_append_cons_self_of_not_mem hl, parseAll, if_neg hsec]
      cases parseText tokenize s.parsed (trim line) (lastByte line) with
      | none => rfl
      | some parsed =>
        rw [Option.map_some, Option.bind_some, if_neg (by decide)]
        exact ih (show 1 ≤ s.start + line.length + 1 by omega) hrest h0t (by omega) (by omega)
    | none =>
      have hl := (strchr_eq_none_iff _ _).mp hr
      rw [List.splitOn_eq_singleton hl, parseAll, if_neg hsec]
      by_cases hnil : rest = []
      · subst hnil
        have htrim : trim [] = [] := rfl
        rw [readLines, if_pos (Or.inl h.1), htrim, parseText_nil]
        rfl
      · have hgo := buf_ne_zero h h0 hnil
        obtain ⟨buf, hline, -, hend⟩ := readLine_eq tokenize hs h hl h0 (Or.inr rfl) hsize
        rw [readLines, if_neg (by simp [hgo, hsec]), hline]
        cases parseText tokenize s.parsed (trim rest) (lastByte rest) with
        | none => rfl
        | some parsed =>
          obtain ⟨fuel', rfl⟩ : ∃ fuel', fuel = fuel' + 1 := ⟨fuel - 1, by omega⟩
          rw [Option.map_some, Option.bind_some, if_pos rfl]
          dsimp only
          rw [readLines, if_pos (Or.inl hend)]
          rfl

theorem ksReadCommands_eq (tokenize : Str → Option (List Str)) (m : Mem) {content : Str}
    (h0 : (0 : UInt8) ∉ content) :
    ksReadCommands tokenize m true true content =
      result (parseAll tokenize .start (content.splitOn LF)) :=
  readLines_eq tokenize (Nat.le_refl 1) (holds_store m 1 _) h0 (Nat.lt_succ_self _)
    (Nat.lt_succ_self _)

end Loop

section Lines

variable {s : Parsed} {line : Str}

theorem parseText_section (h : isSection line = true) (c : UInt8) :
    parseText tokenize s (trim line) c = some { s with inSection := true } := by
  rw [isSection, decide_eq_true_iff] at h
  obtain ⟨hhead, hinc⟩ := h
  have hne : trim line ≠ [] := by
    intro hnil
    rw [hnil] at hhead
    cases hhead
  rw [parseText, if_neg, if_pos hhead]
  rintro (hn | hh | hi)
  · exact hne hn
  · rw [hhead] at hh
    exact absurd (Option.some.inj hh) (by decide)
  · exact hinc hi

theorem parseText_skip (hsec : isSection line = false) (hc : isCandidate line = false) :
    parseText tokenize s (trim line) (lastByte line) = some s := by
  rw [isSection, decide_eq_false_iff_not] at hsec
  rw [isCandidate, decide_eq_false_iff_not] at hc
  rw [parseText]
  split
  · rfl
  · rename_i hkeep
    push Not at hkeep
    have hpct : (trim line).head? ≠ some percent := fun hp => hsec ⟨hp, by simpa using hkeep.2.2⟩
    rw [if_neg hpct]
    have hlast : (trim line).getLast? = some backslash := by
      by_contra hb
      exact hc ⟨hkeep.1, hkeep.2.1, hpct, hb⟩
    rw [if_pos]
    rw [lastByte, hlast]
    rfl

theorem parseText_candidate (hc : isCandidate line = true) :
    parseText tokenize s (trim line) (lastByte line) =
      match tokenize (trim line) with
      | none => if s.argvSet then some s else none
      | some [] => some { s with argvSet := true, vectors := s.vectors + 1 }
      | some (word :: words) =>
        match ksCode word with
        | none => some { s with argvSet := true, vectors := s.vectors + 1 }
        | some code => addCommand { s with argvSet := true, vectors := s.vectors + 1 }
            ⟨code, (word :: words).length, ⟨s.vectors, word :: words⟩⟩ := by
  rw [isCandidate, decide_eq_true_iff] at hc
  obtain ⟨hne, hhash, hpct, hback⟩ := hc
  have hlast : lastByte line ≠ backslash := by
    intro hb
    rw [lastByte, List.getLast?_eq_some_getLast hne] at hb
    exact hback ((List.getLast?_eq_some_getLast hne).trans (congrArg some hb))
  have hkeep : ¬ (trim line = [] ∨ (trim line).head? = some hash ∨
      (ascii "%include").isPrefixOf (trim line) = true) := by
    rintro (hn | hh | hi)
    · exact hne hn
    · exact hhash hh
    · obtain ⟨t, ht⟩ := List.isPrefixOf_iff_prefix.mp hi
      rw [← ht] at hpct
      exact hpct rfl
  exact (if_neg hkeep).trans ((if_neg hpct).trans (if_neg hlast))

/-- What is kept of the lines read so far. -/
structure Good (s : Parsed) (entries : List (ℤ × ℕ × List Str)) : Prop where
  entries_eq : s.commands.map KsCommand.view = entries
  room : s.commands.length ≤ s.commandsAlloced
  ids : ∀ c ∈ s.commands, c.argv.id < s.vectors
  apart : (s.commands.map (fun c => c.argv.id)).Nodup
  body : s.inSection = false

theorem Good.next {entries : List (ℤ × ℕ × List Str)} (h : Good s entries) :
    Good { s with argvSet := true, vectors := s.vectors + 1 } entries :=
  ⟨h.entries_eq, h.room, fun c hc => Nat.lt_succ_of_lt (h.ids c hc), h.apart, h.body⟩

theorem Good.addCommand {entries : List (ℤ × ℕ × List Str)} (h : Good s entries) (code : ℤ)
    (words : List Str) :
    ∃ s', addCommand { s with argvSet := true, vectors := s.vectors + 1 }
        ⟨code, words.length, ⟨s.vectors, words⟩⟩ = some s' ∧ s'.argvSet = true ∧
      Good s' (entries ++ [(code, words.length, words)]) := by
  have hroom := h.room
  have hlt : s.commands.length <
      if s.commands.length = s.commandsAlloced then s.commandsAlloced + 5
      else s.commandsAlloced := by
    split <;> omega
  refine ⟨_, if_pos hlt, rfl, ⟨?_, ?_, ?_, ?_, h.body⟩⟩
  · rw [List.map_append, h.entries_eq]
    rfl
  · rw [List.length_append, List.length_singleton]
    exact hlt
  · intro c hc
    rw [List.mem_append, List.mem_singleton] at hc
    rcases hc with hc | rfl
    · exact Nat.lt_succ_of_lt (h.ids c hc)
    · exact Nat.lt_succ_self _
  · rw [List.map_append, List.nodup_append]
    refine ⟨h.apart, by simp, fun i hi j hj => ?_⟩
    obtain ⟨c, hc, rfl⟩ := List.mem_map.mp hi
    rw [List.map_singleton, List.mem_singleton] at hj
    have := h.ids c hc
    rw [hj]
    exact Nat.ne_of_lt this

theorem Good.tokenized {entries : List (ℤ × ℕ × List Str)} (h : Good s entries)
    (hc : isCandidate line = true) {words : List Str} (ht : tokenize (trim line) = some words) :
    ∃ s', parseText tokenize s (trim line) (lastByte line) = some s' ∧ s'.argvSet = true ∧
      Good s' (entries ++ (entryOf tokenize line).toList) := by
  rw [parseText_candidate hc, entryOf, if_pos hc, ht]
  cases words with
  | nil => exact ⟨_, rfl, rfl, by simpa using h.next⟩
  | cons word words =>
    dsimp only
    cases hk : ksCode word with
    | none => exact ⟨_, rfl, rfl, by simpa using h.next⟩
    | some code => exact h.addCommand code (word :: words)

/-- The first line that is tokenized is accepted. -/
def FirstOk (tokenize : Str → Option (List Str)) (lines : List Str) : Prop :=
  ∀ line, (lines.takeWhile (fun line => !isSection line)).find? isCandidate = some line →
    tokenize (trim line) ≠ none

theorem firstOk_cons_section {lines : List Str} (h : isSection line = true) :
    FirstOk tokenize (line :: lines) := by
  intro l hl
  rw [List.takeWhile_cons_of_neg (by simp [h])] at hl
  cases hl

theorem firstOk_cons_skip {lines : List Str} (hsec : isSection line = false)
    (hc : isCandidate line = false) :
    FirstOk tokenize (line :: lines) ↔ FirstOk tokenize lines := by
  unfold FirstOk
  rw [List.takeWhile_cons_of_pos (by simp [hsec]), List.find?_cons_of_neg (by simp [hc])]

theorem firstOk_cons_candidate {lines : List Str} (hsec : isSection line = false)
    (hc : isCandidate line = true) :
    FirstOk tokenize (line :: lines) ↔ tokenize (trim line) ≠ none := by
  unfold FirstOk
  rw [List.takeWhile_cons_of_pos (by simp [hsec]), List.find?_cons_of_pos hc]
  exact ⟨fun h => h line rfl, fun h l hl => (Option.some.inj hl) ▸ h⟩

theorem entryOf_skip (hc : isCandidate line = false) : entryOf tokenize line = none := by
  rw [entryOf, if_neg (by simp [hc])]

theorem parseAll_good {entries : List (ℤ × ℕ × List Str)} {lines : List Str}
    (h : Good s entries) (hok : s.argvSet = true ∨ FirstOk tokenize lines) :
    ∃ s', parseAll tokenize s lines = some s' ∧ s'.commands.map KsCommand.view = entries ++
        (lines.takeWhile (fun line => !isSection line)).filterMap (entryOf tokenize) ∧
      (s'.commands.map (fun c => c.argv.id)).Nodup := by
  induction lines generalizing s entries with
  | nil => exact ⟨s, rfl, by simpa using h.entries_eq, h.apart⟩
  | cons line lines ih =>
    rw [parseAll, if_neg (by simp [h.body])]
    cases hsec : isSection line with
    | true =>
      rw [parseText_section hsec, Option.bind_some, List.takeWhile_cons_of_neg (by simp [hsec])]
      refine ⟨{ s with inSection := true }, ?_, by simpa using h.entries_eq, h.apart⟩
      cases lines with
      | nil => rfl
      | cons line' lines => rw [parseAll, if_pos rfl]
    | false =>
      rw [List.takeWhile_cons_of_pos (by simp [hsec])]
      cases hc : isCandidate line with
      | false =>
        rw [parseText_skip hsec hc, Option.bind_some,
          List.filterMap_cons_none (entryOf_skip hc)]
        exact ih h (hok.imp_right (firstOk_cons_skip hsec hc).mp)
      | true =>
        cases ht : tokenize (trim line) with
        | some words =>
          obtain ⟨s1, hs1, hset, hgood⟩ := h.tokenized hc ht
          rw [hs1, Option.bind_some]
          obtain ⟨s', hs', hent, hid⟩ := ih hgood (Or.inl hset)
          refine ⟨s', hs', ?_, hid⟩
          rw [hent, List.append_assoc]
          cases he : entryOf tokenize line with
          | none => rw [List.filterMap_cons_none he]; rfl
          | some e => rw [List.filterMap_cons_some he]; rfl
        | none =>
          have hset : s.argvSet = true := by
            refine hok.resolve_right (fun hf => ?_)
            exact (firstOk_cons_candidate hsec hc).mp hf ht
          have hent : entryOf tokenize line = none := by rw [entryOf, if_pos hc, ht]
          rw [parseText_candidate hc, ht, List.filterMap_cons_none hent]
          simp only [hset, ↓reduceIte, Option.bind_some]
          exact ih h (Or.inl hset)

/-- Otherwise the error message reads through `argv` before it is set. -/
theorem parseAll_fault {entries : List (ℤ × ℕ × List Str)} {lines : List Str}
    (h : Good s entries) (hset : s.argvSet = false) (hok : ¬ FirstOk tokenize lines) :
    parseAll tokenize s lines = none := by
  induction lines generalizing s entries with
  | nil => exact absurd (fun l hl => by cases hl) hok
  | cons line lines ih =>
    rw [parseAll, if_neg (by simp [h.body])]
    cases hsec : isSection line with
    | true => exact absurd (firstOk_cons_section hsec) hok
    | false =>
      cases hc : isCandidate line with
      | false =>
        rw [parseText_skip hsec hc, Option.bind_some]
        exact ih h hset (fun hf => hok ((firstOk_cons_skip hsec hc).mpr hf))
      | true =>
        have ht : tokenize (trim line) = none := by
          by_contra hne
          exact hok ((firstOk_cons_candidate hsec hc).mpr hne)
        rw [parseText_candidate hc, ht]
        simp [hset]

end Lines

section Walk

variable {commands pre post : List KsCommand} {c : KsCommand}

/-- After an entry the search goes on right behind it. -/
theorem ksGetCommand_after (h : commands = pre ++ c :: post)
    (hid : (commands.map (fun c => c.argv.id)).Nodup) (cmd : ℤ) :
    ksGetCommand commands cmd (some c.argv.id) = post.find? (fun c => c.code = cmd) := by
  have hidx : commands.findIdx (fun d => d.argv.id = c.argv.id) = pre.length := by
    rw [h, List.findIdx_append]
    have hnone : pre.findIdx (fun d => d.argv.id = c.argv.id) = pre.length := by
      rw [List.findIdx_eq_length]
      intro d hd
      rw [h, List.map_append, List.nodup_append] at hid
      have hne := hid.2.2 d.argv.id (List.mem_map_of_mem hd) c.argv.id (by simp)
      simpa using hne
    rw [hnone, List.findIdx_cons, if_neg (Nat.lt_irrefl _)]
    simp
  rw [ksGetCommand]
  simp only [hidx]
  rw [h, ← List.singleton_append, ← List.append_assoc, List.drop_left' (by simp)]

theorem find_filter {rest : List KsCommand} {cmd : ℤ} {d : KsCommand}
    (h : rest.find? (fun c => c.code = cmd) = some d) :
    ∃ as bs, rest = as ++ d :: bs ∧
      rest.filter (fun c => c.code = cmd) = d :: bs.filter (fun c => c.code = cmd) := by
  obtain ⟨hd, as, bs, rfl, has⟩ := List.find?_eq_some_iff_append.mp h
  have hnil : as.filter (fun c => c.code = cmd) = [] := by
    rw [List.filter_eq_nil_iff]
    intro x hx
    simpa using has x hx
  refine ⟨as, bs, rfl, ?_⟩
  rw [List.filter_append, hnil, List.nil_append, List.filter_cons, if_pos hd]

/-- The walk meets every entry with the code that is left, in order. -/
theorem visited_from (hid : (commands.map (fun c => c.argv.id)).Nodup) (cmd : ℤ) {fuel : ℕ}
    {last : Option ℕ} {rest : List KsCommand} (h : commands = pre ++ rest)
    (hget : ksGetCommand commands cmd last = rest.find? (fun c => c.code = cmd))
    (hf : rest.length < fuel) :
    visited commands cmd fuel last = some (rest.filter (fun c => c.code = cmd)) := by
  induction fuel generalizing last pre rest with
  | zero => omega
  | succ fuel ih =>
    rw [visited, hget]
    cases hfind : rest.find? (fun c => c.code = cmd) with
    | none =>
      have hnil : rest.filter (fun c => c.code = cmd) = [] := by
        rw [List.filter_eq_nil_iff]
        exact List.find?_eq_none.mp hfind
      rw [hnil]
    | some d =>
      obtain ⟨as, bs, hrest, hfilter⟩ := find_filter hfind
      have hsplit : commands = (pre ++ as) ++ d :: bs := by
        rw [h, hrest, List.append_assoc]
      have hsplit' : commands = (pre ++ as ++ [d]) ++ bs := by
        rw [hsplit, List.append_assoc _ [d], List.singleton_append]
      have hlen : bs.length < fuel := by
        rw [hrest] at hf
        simp only [List.length_append, List.length_cons] at hf
        omega
      have hnext := ih hsplit' (ksGetCommand_after hsplit hid cmd) hlen
      simp only [hnext, hfilter, Option.map_some]

theorem ksHasCommand_iff (commands : List KsCommand) (cmd : ℤ) :
    ksHasCommand commands cmd = 1 ↔ commands.filter (fun c => c.code = cmd) ≠ [] := by
  unfold ksHasCommand
  by_cases h : ∃ c ∈ commands, c.code = cmd
  · have hany : commands.any (fun c => c.code = cmd) = true := by simpa using h
    have hne : commands.filter (fun c => c.code = cmd) ≠ [] := by
      intro hnil
      rw [List.filter_eq_nil_iff] at hnil
      obtain ⟨c, hc, hcode⟩ := h
      exact hnil c hc (by simpa using hcode)
    rw [if_pos hany]
    exact ⟨fun _ => hne, fun _ => rfl⟩
  · have hany : ¬ commands.any (fun c => c.code = cmd) = true := by simpa using h
    have hnil : commands.filter (fun c => c.code = cmd) = [] := by
      rw [List.filter_eq_nil_iff]
      intro c hc hcode
      exact h ⟨c, hc, by simpa using hcode⟩
    rw [if_neg hany, hnil]
    exact ⟨fun h0 => absurd h0 (by decide), fun hn => absurd rfl hn⟩

end Walk

/-- A file without NUL bytes is read into its entries exactly when the first line that reaches
the tokenizer is accepted. -/
theorem readsAll_iff_firstTokenizes (tokenize : Str → Option (List Str)) (m : Mem)
    (content : Str) (h0 : (0 : UInt8) ∉ content) :
    ReadsAll tokenize m content ↔ FirstTokenizes tokenize content := by
  have hstart : Good .start [] :=
    ⟨rfl, Nat.zero_le _, fun c hc => absurd hc List.not_mem_nil, List.nodup_nil, rfl⟩
  unfold ReadsAll
  rw [ksReadCommands_eq tokenize m h0]
  constructor
  · rintro ⟨commands, hread, -⟩
    by_contra hfirst
    rw [parseAll_fault hstart rfl hfirst] at hread
    cases hread
  · intro hfirst
    obtain ⟨s', hs', hent, hid⟩ := parseAll_good hstart (Or.inr hfirst)
    refine ⟨s'.commands, by rw [hs']; rfl, hent, fun cmd => ⟨fun fuel hf => ?_, ?_⟩⟩
    · exact visited_from hid cmd (List.nil_append _).symm rfl hf
    · exact ksHasCommand_iff _ _

/-- Words between blanks, with their quotes taken off. -/
def quotedWords (quote : Option UInt8) (word : Str) : Str → List Str
  | [] => [word]
  | b :: rest =>
    if quote = some b then quotedWords none word rest
    else if quote.isSome then quotedWords quote (word ++ [b]) rest
    else if isspace b then word :: quotedWords none [] rest
    else if b = 0x22 ∨ b = 0x27 then quotedWords (some b) word rest
    else quotedWords none (word ++ [b]) rest

/-- `poptParseArgvString` on texts without backslashes. Empty words do not count, and without a word
it fails with `POPT_ERROR_NOARG`. -/
def plainTokenize (text : Str) : Option (List Str) :=
  let argv := (quotedWords none [] text).filter (fun w => w ≠ [])
  if argv = [] then none else some argv

theorem readsAll_language :
    ReadsAll plainTokenize (fun _ => 0) (ascii "# a\n lang en_US \n\nfoo\ntext\n%post\nhalt\n") ∧
      ksEntries plainTokenize (ascii "# a\n lang en_US \n\nfoo\ntext\n%post\nhalt\n") =
        [(8, 2, [ascii "lang", ascii "en_US"]), (6, 1, [ascii "text"])] := by
  refine ⟨(readsAll_iff_firstTokenizes _ _ _ (by decide +kernel)).mpr (fun line hline => ?_),
    by decide +kernel⟩
  have hfind : (bodyLines (ascii "# a\n lang en_US \n\nfoo\ntext\n%post\nhalt\n")).find?
      isCandidate = some (ascii " lang en_US ") := by decide +kernel
  rw [hfind] at hline
  cases hline
  decide +kernel

/-- The first line is a pair of quotes. -/
theorem emptyWord_faults :
    ksReadCommands plainTokenize (fun _ => 0) true true (ascii "\"\"\ntext\n") = .fault ∧
      ¬ ReadsAll plainTokenize (fun _ => 0) (ascii "\"\"\ntext\n") := by
  have hfault : ksReadCommands plainTokenize (fun _ => 0) true true
      (ascii "\"\"\ntext\n") = .fault := by decide +kernel
  refine ⟨hfault, ?_⟩
  rintro ⟨commands, hread, -⟩
  rw [hfault] at hread
  cases hread

end Comodoo.KickstartRead
