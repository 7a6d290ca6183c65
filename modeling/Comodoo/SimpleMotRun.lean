import Comodoo.PoFile

set_option autoImplicit false

/-!
# What `simplemot` writes of a `.po` file

A translation is written when the line behind it has been read. By then `$str` may hold the first
piece of the next `msgid`, and at the end of the file there is no such line.
-/
namespace Comodoo.SimpleMotRun
open CString LineBuffer SimpleMot PoFile

def readText (s : State) (lines : List Str) : Except Exit State :=
  readLines s (lines.map fun line => line ++ [newline])

theorem readText_cons (s : State) (line : Str) (lines : List Str) :
    readText s (line :: lines) = step s (line ++ [newline]) >>= fun s' => readText s' lines := rfl

theorem readText_append (s : State) (lines lines' : List Str) :
    readText s (lines ++ lines') = readText s lines >>= fun s' => readText s' lines' := by
  unfold readText readLines
  rw [List.map_append, List.foldlM_append]

/-! ## One line -/

section Lines

theorem chop_quoted (keyword : Str) (ts : List Token) :
    chop (quoted keyword ts ++ [newline]) = quoted keyword ts := List.dropLast_concat

theorem substr_quoted (keyword : Str) (ts : List Token) {offset left : ℕ}
    (ho : keyword.length + 1 = offset) (hl : offset + 1 = left) :
    substr (quoted keyword ts) offset ((quoted keyword ts).length - left) = raw ts := by
  have hlen : (quoted keyword ts).length = keyword.length + (raw ts).length + 2 := by
    unfold quoted
    simp only [List.length_append, List.length_cons, List.length_nil]
    omega
  have hleft : ((quoted keyword ts).length : ℤ) - left = ((raw ts).length : ℕ) := by
    rw [hlen]
    omega
  have hdrop : (quoted keyword ts).drop offset = raw ts ++ [quote] := by
    unfold quoted
    rw [← ho, List.drop_length_add_append]
    rfl
  unfold substr
  dsimp only
  rw [hleft, if_pos (Int.natCast_nonneg _), hdrop, Int.toNat_natCast, List.take_left]

theorem startsWith_id (ts : List Token) (line : Str) :
    startsWith "msgid" (quoted (ascii "msgid ") ts ++ line) = true ∧
    startsWith "msgstr" (quoted (ascii "msgid ") ts ++ line) = false ∧
    startsWith "\"" (quoted (ascii "msgid ") ts ++ line) = false := ⟨rfl, rfl, rfl⟩

theorem startsWith_str (ts : List Token) (line : Str) :
    startsWith "msgid" (quoted (ascii "msgstr ") ts ++ line) = false ∧
    startsWith "msgstr" (quoted (ascii "msgstr ") ts ++ line) = true ∧
    startsWith "\"" (quoted (ascii "msgstr ") ts ++ line) = false := ⟨rfl, rfl, rfl⟩

theorem startsWith_more (ts : List Token) (line : Str) :
    startsWith "msgid" (quoted [] ts ++ line) = false ∧
    startsWith "msgstr" (quoted [] ts ++ line) = false ∧
    startsWith "\"" (quoted [] ts ++ line) = true := ⟨rfl, rfl, rfl⟩

variable {s : State}

theorem step_id (hs : s.inone = false) (ts : List Token) :
    step s (quoted (ascii "msgid ") ts ++ [newline]) =
      if s.intran = true then complete { s with str := raw ts, inone := true }
      else .ok { s with str := raw ts, inone := true } := by
  obtain ⟨hid, -, -⟩ := startsWith_id ts [newline]
  obtain ⟨-, hstr, hquote⟩ := startsWith_id ts []
  rw [List.append_nil] at hstr hquote
  have hread : readId s (quoted (ascii "msgid ") ts ++ [newline]) =
      ({ s with str := raw ts, inone := true }, quoted (ascii "msgid ") ts) := by
    unfold readId
    dsimp only
    rw [hs, hid, chop_quoted]
    exact congrArg (fun str => ({ s with str := str, inone := true }, _))
      (substr_quoted _ ts rfl rfl)
  unfold step
  rw [hread]
  unfold readTran
  dsimp only
  rw [hstr, hquote, Bool.and_false, Bool.and_false]
  rfl

theorem step_idMore (hs : s.inone = true) (ht : s.intran = false) (ts : List Token) :
    step s (quoted [] ts ++ [newline]) = .ok { s with str := s.str ++ raw ts } := by
  obtain ⟨-, -, hquote⟩ := startsWith_more ts [newline]
  obtain ⟨-, hstr, -⟩ := startsWith_more ts []
  rw [List.append_nil] at hstr
  have hread : readId s (quoted [] ts ++ [newline]) =
      ({ s with str := s.str ++ raw ts }, quoted [] ts) := by
    unfold readId
    dsimp only
    rw [hs, hquote, chop_quoted]
    exact congrArg (fun str => ({ s with inone := true, str := s.str ++ str }, _))
      (substr_quoted _ ts rfl rfl)
  unfold step
  rw [hread]
  unfold readTran
  dsimp only
  rw [hstr, ht]
  rfl

theorem step_str (hs : s.inone = true) (ht : s.intran = false) (ts : List Token) :
    step s (quoted (ascii "msgstr ") ts ++ [newline]) = .ok { s with
      inone := false, str := unescape s.str, total := total (unescape s.str),
      intran := true, tran := raw ts } := by
  obtain ⟨hid, hstr, hquote⟩ := startsWith_str ts [newline]
  have hread : readId s (quoted (ascii "msgstr ") ts ++ [newline]) =
      ({ s with inone := false, str := unescape s.str, total := total (unescape s.str) },
        quoted (ascii "msgstr ") ts ++ [newline]) := by
    unfold readId
    dsimp only
    rw [hs, hid, hquote]
    rfl
  unfold step
  rw [hread]
  unfold readTran
  dsimp only
  rw [hstr, ht, chop_quoted]
  exact congrArg (fun tran => Except.ok { s with
    inone := false, str := unescape s.str, total := total (unescape s.str),
    intran := true, tran := tran }) (substr_quoted _ ts rfl rfl)

theorem step_strMore (hs : s.inone = false) (ht : s.intran = true) (ts : List Token) :
    step s (quoted [] ts ++ [newline]) = .ok { s with tran := s.tran ++ raw ts } := by
  obtain ⟨hid, hstr, hquote⟩ := startsWith_more ts [newline]
  have hread : readId s (quoted [] ts ++ [newline]) = (s, quoted [] ts ++ [newline]) := by
    unfold readId
    dsimp only
    rw [hs, hid]
    rfl
  unfold step
  rw [hread]
  unfold readTran
  dsimp only
  rw [hstr, ht, hquote, chop_quoted]
  exact congrArg (fun tran => Except.ok { s with intran := true, tran := s.tran ++ tran })
    (substr_quoted _ ts rfl rfl)

theorem step_filler (hs : s.inone = false) (f : Filler) :
    step s (f.line ++ [newline]) = if s.intran = true then complete s else .ok s := by
  have hread : readId s (f.line ++ [newline]) = (s, f.line ++ [newline]) := by
    unfold readId
    dsimp only
    rw [hs, f.noId]
    rfl
  unfold step
  rw [hread]
  unfold readTran
  dsimp only
  rw [f.noStr, f.noString, Bool.and_false, Bool.and_false]
  rfl

end Lines

/-! ## Several lines -/

section Runs

variable {s : State}

theorem raw_append (ts ts' : List Token) : raw (ts ++ ts') = raw ts ++ raw ts' :=
  List.flatMap_append

theorem readText_idMore (hs : s.inone = true) (ht : s.intran = false) (more : List (List Token)) :
    readText s (more.map (quoted [])) = .ok { s with str := s.str ++ raw more.flatten } := by
  induction more generalizing s with
  | nil =>
    change Except.ok s = _
    rw [List.flatten_nil, raw, List.flatMap_nil, List.append_nil]
  | cons ts more ih =>
    rw [List.map_cons, readText_cons, step_idMore hs ht]
    have hrest := ih (s := { s with str := s.str ++ raw ts }) hs ht
    rw [List.append_assoc, ← raw_append] at hrest
    exact hrest

theorem readText_strMore (hs : s.inone = false) (ht : s.intran = true)
    (more : List (List Token)) :
    readText s (more.map (quoted [])) = .ok { s with tran := s.tran ++ raw more.flatten } := by
  induction more generalizing s with
  | nil =>
    change Except.ok s = _
    rw [List.flatten_nil, raw, List.flatMap_nil, List.append_nil]
  | cons ts more ih =>
    rw [List.map_cons, readText_cons, step_strMore hs ht]
    have hrest := ih (s := { s with tran := s.tran ++ raw ts }) hs ht
    rw [List.append_assoc, ← raw_append] at hrest
    exact hrest

theorem readText_fillers (hs : s.inone = false) (ht : s.intran = false) (fs : List Filler) :
    readText s (fs.map Filler.line) = .ok s := by
  induction fs with
  | nil => rfl
  | cons f fs ih =>
    rw [List.map_cons, readText_cons, step_filler hs, ht]
    exact ih

def idOf (e : Entry) : Str := unescape (raw e.msgid.tokens)

def tranOf (e : Entry) : Str := unescape (raw e.msgstr.tokens)

/-- All lines of an entry have been read, but none behind them. -/
def pending (e : Entry) (out : Str) : State :=
  ⟨false, idOf e, total (idOf e), true, raw e.msgstr.tokens, out⟩

/-- The lines of an entry behind the first one. -/
def body (e : Entry) : List Str :=
  e.msgid.more.map (quoted []) ++ e.msgstr.lines (ascii "msgstr ")

theorem readText_body {e : Entry} (hs : s.inone = true) (ht : s.intran = false)
    (hstr : s.str = raw e.msgid.first) : readText s (body e) = .ok (pending e s.out) := by
  have hid : s.str ++ raw e.msgid.more.flatten = raw e.msgid.tokens := by
    rw [hstr, ← raw_append]
    rfl
  have htran : raw e.msgstr.first ++ raw e.msgstr.more.flatten = raw e.msgstr.tokens :=
    (raw_append _ _).symm
  unfold body PoString.lines
  rw [readText_append, readText_idMore hs ht, hid]
  change readText { s with str := raw e.msgid.tokens } _ = _
  rw [readText_cons, step_str (s := { s with str := raw e.msgid.tokens }) hs ht]
  have hmore := readText_strMore
    (s := ⟨false, idOf e, total (idOf e), true, raw e.msgstr.first, s.out⟩) rfl rfl e.msgstr.more
  rw [htran] at hmore
  exact hmore

end Runs

/-! ## The whole file -/

/-- What `$str` holds when the translation of an entry is completed, if it ever is. -/
def strBehind (e : Entry) (rest : List Entry) : Option Str :=
  match e.fillers with
  | [] => rest.head?.map fun next => raw next.msgid.first
  | _ :: _ => some (idOf e)

def written : List Entry → List Entry
  | [] => []
  | e :: rest =>
    match strBehind e rest with
    | none => []
    | some str =>
      if total (idOf e) = 0 ∧ truthy str then []
      else if truthy str ∧ truthy (tranOf e) then e :: written rest
      else written rest

def recordOf (e : Entry) : Str := record (total (idOf e)) (tranOf e)

def printed : Except Exit State → Str
  | .ok s => s.out
  | .error e => e.out

theorem simplemot_eq (po : File) : simplemot po.text = printed (readText start po.lines) := by
  unfold simplemot
  rw [inputLines_text]
  rfl

section File

variable {e : Entry} {rest : List Entry}

theorem printed_complete {inone : Bool} {str out : Str} {k : State → Except Exit State}
    (hstr : strBehind e rest = some str)
    (hk : ∀ out', printed (k ⟨inone, str, total (idOf e), false, tranOf e, out'⟩) =
      out' ++ (written rest).flatMap recordOf) :
    printed (complete ⟨inone, str, total (idOf e), true, raw e.msgstr.tokens, out⟩ >>= k) =
      out ++ (written (e :: rest)).flatMap recordOf := by
  have htran : unescape (raw e.msgstr.tokens) = tranOf e := rfl
  rw [written, hstr]
  unfold complete
  dsimp only
  rw [htran]
  split_ifs with hmissing hboth
  · rw [List.flatMap_nil, List.append_nil]
    rfl
  · rw [List.flatMap_cons, ← List.append_assoc]
    exact hk _
  · exact hk out

theorem printed_body {s : State} (hs : s.inone = true) (ht : s.intran = false)
    (hstr : s.str = raw e.msgid.first) (lines : List Str) :
    readText s (body e ++ lines) = readText (pending e s.out) lines := by
  rw [readText_append, readText_body hs ht hstr]
  rfl

theorem lines_eq (e : Entry) : e.lines =
    quoted (ascii "msgid ") e.msgid.first :: (body e ++ e.fillers.map Filler.line) := by
  unfold Entry.lines body PoString.lines
  rw [List.cons_append, List.cons_append]

theorem printed_pending (e : Entry) (rest : List Entry) (out : Str) :
    printed (readText (pending e out) (e.fillers.map Filler.line ++ rest.flatMap Entry.lines)) =
      out ++ (written (e :: rest)).flatMap recordOf := by
  induction rest generalizing e out with
  | nil =>
    cases hfillers : e.fillers with
    | nil =>
      have hnone : strBehind e [] = none := by rw [strBehind, hfillers]; rfl
      rw [written, hnone]
      exact (List.append_nil out).symm
    | cons f fs =>
      have hsome : strBehind e [] = some (idOf e) := by rw [strBehind, hfillers]
      rw [List.map_cons, List.cons_append, readText_cons, step_filler rfl]
      apply printed_complete hsome
      intro out'
      rw [List.flatMap_nil, List.append_nil, readText_fillers rfl rfl]
      exact (List.append_nil out').symm
  | cons next rest ih =>
    have hnext : (next :: rest).flatMap Entry.lines = quoted (ascii "msgid ") next.msgid.first ::
        (body next ++ (next.fillers.map Filler.line ++ rest.flatMap Entry.lines)) := by
      rw [List.flatMap_cons, lines_eq, List.cons_append, List.append_assoc]
    cases hfillers : e.fillers with
    | nil =>
      have hsome : strBehind e (next :: rest) = some (raw next.msgid.first) := by
        rw [strBehind, hfillers]
        rfl
      rw [List.map_nil, List.nil_append, hnext, readText_cons, step_id rfl]
      apply printed_complete hsome
      intro out'
      rw [printed_body rfl rfl rfl]
      exact ih next out'
    | cons f fs =>
      have hsome : strBehind e (next :: rest) = some (idOf e) := by rw [strBehind, hfillers]
      rw [List.map_cons, List.cons_append, readText_cons, step_filler rfl]
      apply printed_complete hsome
      intro out'
      rw [readText_append, readText_fillers rfl rfl, hnext]
      change printed (readText _ _) = _
      rw [readText_cons, step_id rfl]
      change printed (readText _ _) = _
      rw [printed_body rfl rfl rfl]
      exact ih next out'

theorem simplemot_text (po : File) :
    simplemot po.text = (written po.entries).flatMap recordOf := by
  rw [simplemot_eq]
  unfold File.lines
  rw [readText_append, readText_fillers rfl rfl]
  change printed (readText start _) = _
  cases po.entries with
  | nil => rfl
  | cons e rest =>
    rw [List.flatMap_cons, lines_eq, List.cons_append, readText_cons, step_id rfl]
    change printed (readText _ _) = _
    rw [List.append_assoc, printed_body rfl rfl rfl]
    exact printed_pending e rest []

end File

/-! ## Which entries are written -/

section Written

variable {e : Entry} {rest before after : List Entry} {str : Str}

theorem idOf_eq_nil : idOf e = [] ↔ e.msgid.tokens = [] :=
  unescape_eq_nil.trans raw_eq_nil

theorem total_idOf : total (idOf e) = 0 ↔ e.msgid.tokens = [] :=
  (total_eq_zero (zero_notMem_unescape _)).trans idOf_eq_nil

/-- At an entry without a `msgid` the script stops if a string follows at once. -/
def Stops (e : Entry) (rest : List Entry) : Prop :=
  e.msgid.tokens = [] ∧ e.fillers = [] ∧
    ∃ next, rest.head? = some next ∧ truthy (raw next.msgid.first) = true

structure Written (before : List Entry) (e : Entry) (after : List Entry) : Prop where
  msgid : e.msgid.tokens ≠ []
  behind : ∃ str, strBehind e after = some str ∧ truthy str = true
  msgstr : truthy (tranOf e) = true
  goesOn : ∀ b m a, before = b ++ m :: a → ¬ Stops m (a ++ e :: after)

def IsWritten (entries : List Entry) (e : Entry) : Prop :=
  ∃ before after, entries = before ++ e :: after ∧ Written before e after

theorem IsWritten.mem {entries : List Entry} (h : IsWritten entries e) : e ∈ entries := by
  obtain ⟨before, after, rfl, -⟩ := h
  exact List.mem_append_right before List.mem_cons_self

theorem strBehind_eq_none (h : strBehind e rest = none) : rest = [] := by
  unfold strBehind at h
  split at h
  · cases rest with
    | nil => rfl
    | cons next rest => cases h
  · cases h

theorem stops_iff (h : strBehind e rest = some str) :
    total (idOf e) = 0 ∧ truthy str = true ↔ Stops e rest := by
  rw [total_idOf]
  unfold strBehind at h
  split at h
  · next hfillers =>
    obtain ⟨next, hnext, rfl⟩ := Option.map_eq_some_iff.mp h
    constructor
    · exact fun ⟨hid, hstr⟩ => ⟨hid, hfillers, next, hnext, hstr⟩
    · rintro ⟨hid, -, next', hnext', hstr⟩
      rw [hnext] at hnext'
      cases hnext'
      exact ⟨hid, hstr⟩
  · next f fs hfillers =>
    cases h
    constructor
    · rintro ⟨hid, hstr⟩
      rw [idOf_eq_nil.mpr hid] at hstr
      cases hstr
    · rintro ⟨-, hnil, -⟩
      rw [hfillers] at hnil
      cases hnil

theorem written_first (h : strBehind e rest = some str) (hgo : ¬ Stops e rest) :
    Written [] e rest ↔ truthy str = true ∧ truthy (tranOf e) = true := by
  constructor
  · rintro ⟨-, ⟨str', hstr', htrue⟩, htran, -⟩
    rw [h] at hstr'
    cases hstr'
    exact ⟨htrue, htran⟩
  · rintro ⟨htrue, htran⟩
    refine ⟨fun hid => hgo ?_, ⟨str, h, htrue⟩, htran, fun b m a hsplit => ?_⟩
    · exact (stops_iff h).mp ⟨total_idOf.mpr hid, htrue⟩
    · exact absurd hsplit.symm (List.append_ne_nil_of_right_ne_nil b (List.cons_ne_nil m a))

theorem written_behind {first : Entry} :
    Written (first :: before) e after ↔
      ¬ Stops first (before ++ e :: after) ∧ Written before e after := by
  constructor
  · rintro ⟨hid, hbehind, htran, hgo⟩
    refine ⟨hgo [] first before rfl, hid, hbehind, htran, fun b m a hsplit => ?_⟩
    exact hgo (first :: b) m a (congrArg _ hsplit)
  · rintro ⟨hfirst, hid, hbehind, htran, hgo⟩
    refine ⟨hid, hbehind, htran, fun b m a hsplit => ?_⟩
    cases b with
    | nil =>
      cases hsplit
      exact hfirst
    | cons b bs =>
      cases hsplit
      exact hgo bs m a rfl

theorem isWritten_cons {first : Entry} :
    IsWritten (first :: rest) e ↔
      (e = first ∧ Written [] first rest) ∨ (¬ Stops first rest ∧ IsWritten rest e) := by
  constructor
  · rintro ⟨before, after, hsplit, hwritten⟩
    cases before with
    | nil =>
      cases hsplit
      exact Or.inl ⟨rfl, hwritten⟩
    | cons b bs =>
      cases hsplit
      have hboth := written_behind.mp hwritten
      exact Or.inr ⟨hboth.1, bs, after, rfl, hboth.2⟩
  · rintro (⟨rfl, hwritten⟩ | ⟨hgo, before, after, rfl, hwritten⟩)
    · exact ⟨[], rest, rfl, hwritten⟩
    · exact ⟨first :: before, after, rfl, written_behind.mpr ⟨hgo, hwritten⟩⟩

theorem mem_written_iff (entries : List Entry) : e ∈ written entries ↔ IsWritten entries e := by
  induction entries with
  | nil =>
    apply iff_of_false List.not_mem_nil
    rintro ⟨before, after, hsplit, -⟩
    exact List.append_ne_nil_of_right_ne_nil before (List.cons_ne_nil e after) hsplit.symm
  | cons first rest ih =>
    rw [written, isWritten_cons]
    cases hstr : strBehind first rest with
    | none =>
      have hrest := strBehind_eq_none hstr
      subst hrest
      apply iff_of_false List.not_mem_nil
      rintro (⟨-, hwritten⟩ | ⟨-, hwritten⟩)
      · obtain ⟨str, hsome, -⟩ := hwritten.behind
        rw [hstr] at hsome
        cases hsome
      · exact List.not_mem_nil (ih.mpr hwritten)
    | some str =>
      dsimp only
      rw [← ih]
      split_ifs with hstops hboth
      · have hs := (stops_iff hstr).mp hstops
        apply iff_of_false List.not_mem_nil
        rintro (⟨-, hwritten⟩ | ⟨hgo, -⟩)
        · exact hwritten.msgid hs.1
        · exact hgo hs
      · have hgo : ¬ Stops first rest := fun hs => hstops ((stops_iff hstr).mpr hs)
        rw [List.mem_cons, and_iff_left ((written_first hstr hgo).mpr hboth), and_iff_right hgo]
      · have hgo : ¬ Stops first rest := fun hs => hstops ((stops_iff hstr).mpr hs)
        rw [and_iff_right hgo, or_iff_right]
        exact fun hwritten => hboth ((written_first hstr hgo).mp hwritten.2)

theorem written_sublist (entries : List Entry) : (written entries).Sublist entries := by
  induction entries with
  | nil => exact List.Sublist.refl _
  | cons first rest ih =>
    rw [written]
    split
    · exact List.nil_sublist _
    · split_ifs
      · exact List.nil_sublist _
      · exact List.Sublist.cons_cons first ih
      · exact List.Sublist.cons first ih

end Written

end Comodoo.SimpleMotRun
