import Comodoo.CString
import Comodoo.HttpHeaders

set_option autoImplicit false

/-!
# A field of an HTTP header block

`find_header` of `stage-1/ftp.c` over header blocks: a status line, lines with a name and a value,
and an empty line.
-/
namespace Comodoo.HttpFindHeader
open CString HttpHeaders

abbrev CR : UInt8 := 0x0d
abbrev LF : UInt8 := 0x0a
abbrev colon : UInt8 := 0x3a

def Plain (s : Str) : Prop := ∀ b ∈ s, b ≠ 0 ∧ b ≠ CR ∧ b ≠ LF

instance (s : Str) : Decidable (Plain s) :=
  List.decidableBAll (fun b => b ≠ 0 ∧ b ≠ CR ∧ b ≠ LF) s

structure FieldName where
  text : Str
  plain : Plain text
  noColon : colon ∉ text

/-- What is behind the colon, with its blanks. -/
structure HeaderLine where
  name : FieldName
  value : Str
  plain : Plain value

def HeaderLine.text (l : HeaderLine) : Str := l.name.text ++ colon :: l.value

structure HeaderBlock where
  status : Str
  plain : Plain status
  lines : List HeaderLine

/-- All lines with their line ends, and the empty line. -/
def HeaderBlock.bytes (b : HeaderBlock) : Str :=
  b.status ++ crlf ++ b.lines.flatMap (fun l => l.text ++ crlf) ++ crlf

/-- `find_header` with the place in the block at which the result begins. -/
def findHeaderAt (headers toFind : Str) : Option (ℕ × Str) :=
  match strstr (crlf ++ toFind ++ [0x3a]) headers with
  | none => none
  | some (front, start) =>
    (strstr crlf (start.dropWhile isspace)).map (fun r =>
      (front.length + (crlf ++ toFind ++ [0x3a]).length + (start.takeWhile isspace).length, r.1))

theorem findHeaderAt_text (headers toFind : Str) :
    (findHeaderAt headers toFind).map Prod.snd = findHeader headers toFind := by
  rw [findHeaderAt, findHeader]
  cases strstr (crlf ++ toFind ++ [0x3a]) headers with
  | none => rfl
  | some found =>
    dsimp only
    rw [Option.map_map]
    rfl

def tolower (b : UInt8) : UInt8 := if 0x41 ≤ b ∧ b ≤ 0x5a then b + 0x20 else b

def FieldName.same (n m : FieldName) : Bool := n.text.map tolower = m.text.map tolower

/-- The first line of a kind, and the lines in front of it. -/
def firstLine (p : HeaderLine → Bool) : List HeaderLine → Option (List HeaderLine × HeaderLine)
  | [] => none
  | l :: ls => if p l then some ([], l) else (firstLine p ls).map (fun r => (l :: r.1, r.2))

def firstNamed (name : FieldName) : List HeaderLine → Option (List HeaderLine × HeaderLine) :=
  firstLine (fun l => l.name.same name)

/-- Where the value of a line begins that stands behind other lines. -/
def HeaderBlock.valueStart (b : HeaderBlock) (before : List HeaderLine) (l : HeaderLine) : ℕ :=
  (b.status ++ crlf ++ before.flatMap (fun l => l.text ++ crlf)).length + l.name.text.length + 1

/-- The value of the first line with the name is found, without the blanks around it and in that
line, and nothing where there is no such line. -/
structure FindsField (b : HeaderBlock) (name : FieldName) : Prop where
  absent : firstNamed name b.lines = none → findHeaderAt b.bytes name.text = none
  value : ∀ before l, firstNamed name b.lines = some (before, l) →
    ∃ start, findHeaderAt b.bytes name.text = some (start, trim l.value) ∧
      b.valueStart before l ≤ start ∧
      start + (trim l.value).length ≤ b.valueStart before l + l.value.length

/-- The value ends in something that is no blank. -/
def endsPlain (value : Str) : Prop := ∃ c, value.getLast? = some c ∧ isspace c = false

section Search

variable {needle s t : Str}

theorem strstr_skip (hs : CR ∉ s) (rest t : Str) :
    strstr (CR :: rest) (s ++ t) = (strstr (CR :: rest) t).map (fun r => (s ++ r.1, r.2)) := by
  induction s with
  | nil => simp
  | cons b s ih =>
    rw [List.mem_cons, not_or] at hs
    have hnot : (CR :: rest).isPrefixOf (b :: (s ++ t)) ≠ true := by
      rw [Ne, List.isPrefixOf_iff_prefix, List.cons_prefix_cons]
      exact fun h => hs.1 h.1
    rw [List.cons_append, strstr, if_neg hnot, ih hs.2, Option.map_map]
    rfl

theorem Plain.noCR (h : Plain s) : CR ∉ s := fun hmem => (h CR hmem).2.1 rfl

theorem HeaderLine.text_noCR (l : HeaderLine) : CR ∉ l.text := by
  rw [HeaderLine.text, List.mem_append, List.mem_cons, not_or, not_or]
  exact ⟨l.name.plain.noCR, by decide, l.plain.noCR⟩

/-- The lines of a block, each with the line end in front of it. -/
def linesFrom (ls : List HeaderLine) : Str := ls.flatMap (fun l => crlf ++ l.text)

theorem crlf_linesFrom (ls : List HeaderLine) :
    crlf ++ ls.flatMap (fun l => l.text ++ crlf) = linesFrom ls ++ crlf := by
  induction ls with
  | nil => rfl
  | cons l ls ih =>
    rw [linesFrom, List.flatMap_cons, List.flatMap_cons, ← linesFrom, List.append_assoc l.text, ih]
    simp

theorem HeaderBlock.bytes_eq (b : HeaderBlock) :
    b.bytes = b.status ++ (linesFrom b.lines ++ (crlf ++ crlf)) := by
  rw [HeaderBlock.bytes, List.append_assoc b.status, crlf_linesFrom]
  simp

theorem name_front (n m : FieldName) (s t : Str) :
    n.text ++ colon :: s = m.text ++ colon :: t → n.text = m.text ∧ s = t := by
  intro h
  have hn := strchr_append colon n.text s n.noColon
  have hm := strchr_append colon m.text t m.noColon
  rw [h, hm, Option.some.injEq, Prod.mk.injEq] at hn
  exact ⟨hn.1.symm, hn.2.symm⟩

def target (name : FieldName) : Str := crlf ++ name.text ++ [0x3a]

def firstExact (name : FieldName) : List HeaderLine → Option (List HeaderLine × HeaderLine) :=
  firstLine (fun l => l.name.text = name.text)

theorem firstLine_eq_some {p : HeaderLine → Bool} {ls before : List HeaderLine} {l : HeaderLine}
    (h : firstLine p ls = some (before, l)) :
    p l = true ∧ (∀ m ∈ before, p m = false) ∧ ∃ after, ls = before ++ l :: after := by
  induction ls generalizing before l with
  | nil => cases h
  | cons m ls ih =>
    rw [firstLine] at h
    split at h
    · rename_i hm
      rw [Option.some.injEq, Prod.mk.injEq] at h
      rw [← h.1, ← h.2]
      exact ⟨hm, fun _ hmem => absurd hmem List.not_mem_nil, ls, rfl⟩
    · rename_i hm
      rw [Option.map_eq_some_iff] at h
      obtain ⟨⟨before', l'⟩, hfirst, heq⟩ := h
      rw [Prod.mk.injEq] at heq
      obtain ⟨hl, hbefore, after, hls⟩ := ih hfirst
      rw [← heq.1, ← heq.2]
      refine ⟨hl, List.forall_mem_cons.mpr ⟨?_, hbefore⟩, after, by rw [hls]; rfl⟩
      simpa using hm

theorem firstLine_eq_none {p : HeaderLine → Bool} {ls : List HeaderLine}
    (h : firstLine p ls = none) : ∀ m ∈ ls, p m = false := by
  induction ls with
  | nil => exact fun _ hmem => absurd hmem List.not_mem_nil
  | cons m ls ih =>
    rw [firstLine] at h
    split at h
    · cases h
    · rename_i hm
      rw [Option.map_eq_none_iff] at h
      exact List.forall_mem_cons.mpr ⟨by simpa using hm, ih h⟩

theorem strstr_line (name : FieldName) (l : HeaderLine) (t : Str) :
    strstr (target name) (crlf ++ l.text ++ t) =
      if l.name.text = name.text then some ([], l.value ++ t)
      else (strstr (target name) t).map (fun r => (crlf ++ l.text ++ r.1, r.2)) := by
  have htarget : target name = CR :: LF :: (name.text ++ [colon]) := rfl
  have hline : crlf ++ l.text ++ t = CR :: (LF :: l.text ++ t) := rfl
  have hfront : target name <+: crlf ++ l.text ++ t ↔ l.name.text = name.text := by
    rw [htarget, hline, List.cons_prefix_cons, List.cons_append, List.cons_prefix_cons]
    simp only [true_and]
    constructor
    · rintro ⟨s, hs⟩
      rw [HeaderLine.text] at hs
      simp only [List.append_assoc, List.cons_append, List.nil_append] at hs
      exact (name_front name l.name s (l.value ++ t) hs).1.symm
    · intro hname
      exact ⟨l.value ++ t, by rw [HeaderLine.text, hname]; simp⟩
  by_cases hname : l.name.text = name.text
  · have hyes : (target name).isPrefixOf (CR :: (LF :: l.text ++ t)) = true :=
      List.isPrefixOf_iff_prefix.mpr (hfront.mpr hname)
    rw [if_pos hname, hline, strstr, if_pos hyes, ← hline]
    have hdrop : crlf ++ l.text ++ t = target name ++ (l.value ++ t) := by
      rw [HeaderLine.text, target, hname]
      simp
    rw [hdrop, List.drop_left]
  · have hnot : ¬ (target name).isPrefixOf (CR :: (LF :: l.text ++ t)) = true := fun h =>
      hname (hfront.mp (List.isPrefixOf_iff_prefix.mp h))
    have hplain : CR ∉ LF :: l.text := by
      rw [List.mem_cons, not_or]
      exact ⟨by decide, l.text_noCR⟩
    rw [if_neg hname, hline, strstr, if_neg hnot, htarget, strstr_skip hplain, Option.map_map]
    rfl

theorem strstr_lines (name : FieldName) (ls : List HeaderLine) :
    strstr (target name) (linesFrom ls ++ (crlf ++ crlf)) =
      (firstExact name ls).map (fun r => (linesFrom r.1,
        r.2.value ++ (linesFrom (ls.drop (r.1.length + 1)) ++ (crlf ++ crlf)))) := by
  induction ls with
  | nil =>
    -- there is no colon in an empty line
    rw [firstExact, firstLine, Option.map_none, ← Option.not_isSome_iff_eq_none, strstr_isSome_iff]
    intro h
    have hmem : colon ∈ linesFrom [] ++ (crlf ++ crlf) := h.subset (by simp [target])
    exact absurd hmem (by decide)
  | cons l ls ih =>
    have hcons : linesFrom (l :: ls) ++ (crlf ++ crlf) =
        crlf ++ l.text ++ (linesFrom ls ++ (crlf ++ crlf)) := by
      rw [linesFrom, List.flatMap_cons, ← linesFrom, List.append_assoc]
    rw [hcons, strstr_line, firstExact, firstLine, ← firstExact, ih]
    by_cases hname : l.name.text = name.text
    · rw [if_pos hname, if_pos (decide_eq_true hname)]
      rfl
    · rw [if_neg hname, if_neg (by simpa using hname), Option.map_map, Option.map_map]
      rfl

theorem valueStart_eq (b : HeaderBlock) (before : List HeaderLine) (l : HeaderLine) :
    b.valueStart before l = (b.status ++ linesFrom before).length + 2 + l.name.text.length + 1 := by
  have hlen := congrArg List.length (crlf_linesFrom before)
  rw [List.length_append, List.length_append] at hlen
  have htwo : crlf.length = 2 := rfl
  rw [HeaderBlock.valueStart]
  simp only [List.length_append]
  omega

/-- `find_header` finds the first line with exactly the name, and takes the text behind the
blanks that follow its colon. -/
theorem findHeaderAt_eq (b : HeaderBlock) (name : FieldName) :
    findHeaderAt b.bytes name.text = (firstExact name b.lines).bind (fun r =>
      let start := r.2.value ++ (linesFrom (b.lines.drop (r.1.length + 1)) ++ (crlf ++ crlf))
      (strstr crlf (start.dropWhile isspace)).map (fun q =>
        (b.valueStart r.1 r.2 + (start.takeWhile isspace).length, q.1))) := by
  have hsearch : strstr (target name) b.bytes =
      (firstExact name b.lines).map (fun r => (b.status ++ linesFrom r.1,
        r.2.value ++ (linesFrom (b.lines.drop (r.1.length + 1)) ++ (crlf ++ crlf)))) := by
    have hskip := strstr_skip b.plain.noCR (LF :: (name.text ++ [colon]))
      (linesFrom b.lines ++ (crlf ++ crlf))
    rw [b.bytes_eq]
    change strstr (CR :: LF :: (name.text ++ [colon])) _ = _
    rw [hskip]
    change (strstr (target name) _).map _ = _
    rw [strstr_lines, Option.map_map]
    rfl
  rw [findHeaderAt, ← target, hsearch]
  cases hfirst : firstExact name b.lines with
  | none => rfl
  | some r =>
    have hname : r.2.name.text = name.text := of_decide_eq_true (firstLine_eq_some hfirst).1
    have hlen :
        (b.status ++ linesFrom r.1).length + (target name).length = b.valueStart r.1 r.2 := by
      rw [valueStart_eq, target, hname]
      simp only [List.length_append, List.length_cons, List.length_nil]
      have htwo : crlf.length = 2 := rfl
      omega
    rw [Option.map_some, Option.bind_some]
    dsimp only
    rw [hlen]

end Search

section Value

variable {value : Str}

theorem tail_crlf (after : List HeaderLine) :
    ∃ more, linesFrom after ++ (crlf ++ crlf) = crlf ++ more := by
  cases after with
  | nil => exact ⟨crlf, rfl⟩
  | cons l after =>
    exact ⟨l.text ++ (linesFrom after ++ (crlf ++ crlf)), by
      rw [linesFrom, List.flatMap_cons, ← linesFrom]
      simp⟩

theorem dropBlanks_ne_nil (hsome : ∃ c ∈ value, isspace c = false) :
    value.dropWhile isspace ≠ [] := by
  obtain ⟨c, hc, hblank⟩ := hsome
  intro hnil
  have hall := List.dropWhile_eq_nil_iff.mp hnil c hc
  rw [hblank] at hall
  cases hall

theorem value_found (hplain : Plain value) (hsome : ∃ c ∈ value, isspace c = false) (more : Str) :
    (strstr crlf ((value ++ (crlf ++ more)).dropWhile isspace)).map Prod.fst =
        some (value.dropWhile isspace) ∧
      (value ++ (crlf ++ more)).takeWhile isspace = value.takeWhile isspace := by
  have hne := dropBlanks_ne_nil hsome
  obtain ⟨c, hc, hblank⟩ := hsome
  have hdrop : (value ++ (crlf ++ more)).dropWhile isspace =
      value.dropWhile isspace ++ (crlf ++ more) := by
    rw [List.dropWhile_append, if_neg (by simpa using hne)]
  constructor
  · have hnoCR : CR ∉ value.dropWhile isspace := fun hmem =>
      hplain.noCR ((List.dropWhile_suffix _).subset hmem)
    have hskip := strstr_skip hnoCR [LF] (crlf ++ more)
    have hhere : strstr [CR, LF] (crlf ++ more) = some ([], more) := rfl
    rw [hdrop]
    change (strstr [CR, LF] _).map Prod.fst = _
    rw [hskip, hhere]
    simp
  · rw [List.takeWhile_append, if_neg]
    intro hlen
    have hall := List.takeWhile_eq_self_iff.mp ((List.takeWhile_prefix _).eq_of_length_le hlen.ge)
    have hc' := hall c hc
    rw [hblank] at hc'
    cases hc'

/-- From a value of blanks the skip goes on behind the end of the line. -/
theorem value_blank (hall : ∀ c ∈ value, isspace c = true) (more : Str) :
    value.length < ((value ++ (crlf ++ more)).takeWhile isspace).length := by
  rw [List.takeWhile_append_of_pos hall, List.length_append]
  have hcr : (crlf ++ more).takeWhile isspace = CR :: (LF :: more).takeWhile isspace := rfl
  rw [hcr, List.length_cons]
  omega

theorem trim_eq_iff (hsome : ∃ c ∈ value, isspace c = false) :
    value.dropWhile isspace = trim value ↔ endsPlain value := by
  have hne := dropBlanks_ne_nil hsome
  have hlast : value.getLast? = some ((value.dropWhile isspace).getLast hne) := by
    conv_lhs => rw [← List.takeWhile_append_dropWhile (p := isspace) (l := value)]
    rw [List.getLast?_append, List.getLast?_eq_some_getLast hne]
    rfl
  rw [eq_comm, trim, List.rdropWhile_eq_self_iff, endsPlain, hlast]
  constructor
  · exact fun h => ⟨_, rfl, Bool.not_eq_true _ ▸ h hne⟩
  · rintro ⟨d, hd, hplain⟩ _
    rw [Option.some.inj hd, hplain]
    exact Bool.false_ne_true

end Value

section Find

variable {b : HeaderBlock} {name : FieldName} {before before' ls : List HeaderLine}
  {l l' : HeaderLine}

theorem same_of_exact (h : l.name.text = name.text) : l.name.same name = true := by
  rw [FieldName.same, h, decide_eq_true_iff]

/-- The first line with a name in any letter case is the one that is found, or it is skipped. -/
theorem firstExact_cases (h : firstNamed name ls = some (before, l)) :
    (l.name.text = name.text → firstExact name ls = some (before, l)) ∧
      (l.name.text ≠ name.text → ∀ before' l', firstExact name ls = some (before', l') →
        before ++ [l] <+: before') := by
  induction ls generalizing before l with
  | nil => cases h
  | cons m ls ih =>
    rw [firstNamed, firstLine] at h
    rw [firstExact, firstLine]
    by_cases hsame : m.name.same name = true
    · rw [if_pos hsame, Option.some.injEq, Prod.mk.injEq] at h
      rw [← h.1, ← h.2]
      constructor
      · exact fun hexact => if_pos (decide_eq_true hexact)
      · intro hexact before' l' hfirst
        rw [if_neg (by simpa using hexact), Option.map_eq_some_iff] at hfirst
        obtain ⟨r, -, heq⟩ := hfirst
        rw [← (Prod.mk.inj heq).1]
        exact List.prefix_append [m] r.1
    · have hexact : ¬ decide (m.name.text = name.text) = true := fun hdec =>
        hsame (same_of_exact (of_decide_eq_true hdec))
      rw [if_neg hsame, Option.map_eq_some_iff] at h
      obtain ⟨⟨front, l'⟩, hfirst, heq⟩ := h
      rw [Prod.mk.injEq] at heq
      obtain ⟨hfound, hskipped⟩ := ih hfirst
      rw [if_neg hexact, ← heq.1, ← heq.2]
      constructor
      · intro hname
        rw [← firstExact, hfound hname]
        rfl
      · intro hname before' l'' hfirst'
        rw [← firstExact, Option.map_eq_some_iff] at hfirst'
        obtain ⟨⟨front', l3⟩, hfirst', heq'⟩ := hfirst'
        rw [← (Prod.mk.inj heq').1, List.cons_append, List.cons_prefix_cons]
        exact ⟨rfl, hskipped hname _ _ hfirst'⟩

theorem firstExact_none (h : firstNamed name ls = none) : firstExact name ls = none := by
  cases hfirst : firstExact name ls with
  | none => rfl
  | some r =>
    obtain ⟨hexact, -, after, hls⟩ := firstLine_eq_some hfirst
    have hnot := firstLine_eq_none h r.2 (by rw [hls]; simp)
    rw [same_of_exact (of_decide_eq_true hexact)] at hnot
    cases hnot

/-- The value of a later line is behind that of an earlier one. -/
theorem valueStart_lt (b : HeaderBlock) (l' : HeaderLine) (h : before ++ [l] <+: before') :
    b.valueStart before l + l.value.length < b.valueStart before' l' := by
  obtain ⟨more, rfl⟩ := h
  have htwo : crlf.length = 2 := rfl
  rw [HeaderBlock.valueStart, HeaderBlock.valueStart]
  simp only [List.flatMap_append, List.flatMap_cons, List.flatMap_nil, List.append_nil,
    List.length_append, HeaderLine.text, List.length_cons]
  omega

/-- The result begins behind the colon of the line that was found. -/
theorem findHeaderAt_start {start : ℕ} {text : Str}
    (hfirst : firstExact name b.lines = some (before, l))
    (h : findHeaderAt b.bytes name.text = some (start, text)) : b.valueStart before l ≤ start := by
  rw [findHeaderAt_eq, hfirst, Option.bind_some, Option.map_eq_some_iff] at h
  obtain ⟨r, -, heq⟩ := h
  rw [← (Prod.mk.inj heq).1]
  exact Nat.le_add_right _ _

theorem name_of_findsField (h : FindsField b name)
    (hnamed : firstNamed name b.lines = some (before, l)) : l.name.text = name.text := by
  obtain ⟨start, hfind, -, hhigh⟩ := h.value before l hnamed
  by_contra hne
  cases hfirst : firstExact name b.lines with
  | none =>
    rw [findHeaderAt_eq, hfirst] at hfind
    cases hfind
  | some r =>
    -- a later line with exactly these letters is too far behind
    have hlater := valueStart_lt b r.2 ((firstExact_cases hnamed).2 hne r.1 r.2 hfirst)
    have hstart := findHeaderAt_start hfirst hfind
    omega

theorem endsPlain_of_findsField (h : FindsField b name)
    (hnamed : firstNamed name b.lines = some (before, l)) : endsPlain l.value := by
  obtain ⟨start, hfind, -, hhigh⟩ := h.value before l hnamed
  obtain ⟨more, hmore⟩ := tail_crlf (b.lines.drop (before.length + 1))
  rw [findHeaderAt_eq, (firstExact_cases hnamed).1 (name_of_findsField h hnamed),
    Option.bind_some, hmore, Option.map_eq_some_iff] at hfind
  obtain ⟨r, hr, heq⟩ := hfind
  rw [Prod.mk.injEq] at heq
  dsimp only at hr heq
  by_cases hsome : ∃ c ∈ l.value, isspace c = false
  · obtain ⟨hvalue, -⟩ := value_found l.plain hsome more
    rw [hr, Option.map_some, Option.some.injEq] at hvalue
    exact (trim_eq_iff hsome).mp (hvalue.symm.trans heq.2)
  · have hall : ∀ c ∈ l.value, isspace c = true := by
      intro c hc
      by_contra hblank
      exact hsome ⟨c, hc, by simpa using hblank⟩
    have hlong := value_blank hall more
    omega

theorem findHeaderAt_value (hfirst : firstExact name b.lines = some (before, l))
    (hends : endsPlain l.value) :
    ∃ start, findHeaderAt b.bytes name.text = some (start, trim l.value) ∧
      b.valueStart before l ≤ start ∧
      start + (trim l.value).length ≤ b.valueStart before l + l.value.length := by
  have hsome : ∃ c ∈ l.value, isspace c = false := by
    obtain ⟨c, hlast, hblank⟩ := hends
    exact ⟨c, List.mem_of_getLast? hlast, hblank⟩
  obtain ⟨more, hmore⟩ := tail_crlf (b.lines.drop (before.length + 1))
  obtain ⟨hvalue, hskip⟩ := value_found l.plain hsome more
  rw [Option.map_eq_some_iff] at hvalue
  obtain ⟨r, hr, hvalue⟩ := hvalue
  rw [(trim_eq_iff hsome).mpr hends] at hvalue
  refine ⟨b.valueStart before l + (l.value.takeWhile isspace).length, ?_, Nat.le_add_right _ _, ?_⟩
  · rw [findHeaderAt_eq, hfirst, Option.bind_some, hmore]
    dsimp only
    rw [hr, hskip, Option.map_some, hvalue]
  · have hsplit := congrArg List.length
      (List.takeWhile_append_dropWhile (p := isspace) (l := l.value))
    rw [List.length_append, (trim_eq_iff hsome).mpr hends] at hsplit
    omega

/-- `find_header` finds the field if and only if the first line with its name has that name in
exactly these letters and a value that ends in something other than a blank. -/
theorem findHeader_finds_iff (b : HeaderBlock) (name : FieldName) :
    FindsField b name ↔ ∀ before l, firstNamed name b.lines = some (before, l) →
      l.name.text = name.text ∧ endsPlain l.value := by
  constructor
  · intro h before l hnamed
    exact ⟨name_of_findsField h hnamed, endsPlain_of_findsField h hnamed⟩
  · intro h
    constructor
    · intro hnone
      rw [findHeaderAt_eq, firstExact_none hnone, Option.bind_none]
    · intro before l hnamed
      obtain ⟨hname, hends⟩ := h before l hnamed
      exact findHeaderAt_value ((firstExact_cases hnamed).1 hname) hends

def contentLength : FieldName := ⟨ascii "Content-Length", by decide +kernel, by decide +kernel⟩

def location : FieldName := ⟨ascii "Location", by decide +kernel, by decide +kernel⟩

def smallLetters : HeaderBlock where
  status := ascii "HTTP/1.1 200 OK"
  plain := by decide +kernel
  lines := [⟨⟨ascii "content-length", by decide +kernel, by decide +kernel⟩, ascii " 5",
    by decide +kernel⟩]

def emptyLocation : HeaderBlock where
  status := ascii "HTTP/1.1 302 Found"
  plain := by decide +kernel
  lines := [⟨location, [], by decide +kernel⟩,
    ⟨⟨ascii "Server", by decide +kernel, by decide +kernel⟩, ascii " x", by decide +kernel⟩]

/-- The one is not found, and the other has the text of the next line. -/
theorem findHeader_misses :
    (findHeader smallLetters.bytes contentLength.text = none ∧
      ¬ FindsField smallLetters contentLength) ∧
    (findHeader emptyLocation.bytes location.text = some (ascii "Server: x") ∧
      ¬ FindsField emptyLocation location) := by
  refine ⟨⟨by decide +kernel, fun h => ?_⟩, ⟨by decide +kernel, fun h => ?_⟩⟩
  · obtain ⟨start, hfind, -⟩ := h.value _ _ rfl
    have hnone : findHeaderAt smallLetters.bytes contentLength.text = none := by decide +kernel
    rw [hnone] at hfind
    cases hfind
  · obtain ⟨start, hfind, -⟩ := h.value _ _ rfl
    have htext := congrArg (Option.map Prod.snd) hfind
    rw [findHeaderAt_text] at htext
    have hfound : findHeader emptyLocation.bytes location.text = some (ascii "Server: x") := by
      decide +kernel
    rw [hfound] at htext
    have hempty : ascii "Server: x" = trim [] := Option.some.inj htext
    exact absurd hempty (by decide +kernel)

end Find

end Comodoo.HttpFindHeader
