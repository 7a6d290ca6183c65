import Comodoo.ModuleList

set_option autoImplicit false

/-!
# Lines of `module-info`

Trimming a line backwards stops at the last byte that is no blank, which for a line of blanks
lies in front of it. There always is one: the version line at first, and then the terminator
that was written for the line before.
-/
namespace Comodoo.ModuleListScan
open CString ByteMemory ModuleList

/-- Blanks only from the last byte that is none up to `a`. -/
def Anchored (m : Mem) (a : ℕ) : Prop :=
  ∃ k, k < a ∧ isspace (m k) = false ∧ ∀ i, k < i → i < a → isspace (m i) = true

inductive LineKind where
  | skip
  | name (name : Str)
  | text (text : Str)
  deriving DecidableEq, Repr

/-- What a line is: blank or a comment, a module's name, or text about the module. -/
def kindOf (line : Str) : LineKind :=
  if trim line = [] ∨ (trim line).head? = some hash then .skip
  else if (line.head?.map isspace).getD false then .text (trim line)
  else .name (trim line)

def kindStep (location : Option ℕ) (override : Bool) (s : Parsed) : LineKind → Option Parsed
  | .skip => some s
  | .name name => moduleLine location override s name
  | .text text => textLine s text

section Trim

variable {m : Mem} {a : ℕ} {line tail : Str}

theorem trimEnd_eq {stop k : ℕ} (hk : isspace (m k) = false)
    (hblank : ∀ i, k < i → i ≤ stop → isspace (m i) = true) (hle : k ≤ stop) :
    trimEnd m stop = k := by
  induction stop with
  | zero =>
    rw [trimEnd]
    omega
  | succ stop ih =>
    by_cases heq : k = stop + 1
    · rw [trimEnd, if_neg (by rw [← heq, hk]; decide), heq]
    · rw [trimEnd, if_pos (hblank (stop + 1) (by omega) (Nat.le_refl _))]
      exact ih (fun i hi hlt => hblank i hi (by omega)) (by omega)

theorem anchored_cut {k stop : ℕ} (hk : k < stop)
    (hblank : ∀ i, k < i → i < stop → isspace (m i) = true) :
    Anchored (Function.update m k 0) stop := by
  refine ⟨k, hk, by rw [Function.update_self]; rfl, fun i hi hlt => ?_⟩
  rw [Function.update_of_ne (by omega)]
  exact hblank i hi hlt

theorem isspace_line (h : Holds m a (line ++ LF :: tail)) (hl : ∀ c ∈ line, isspace c = true)
    {i : ℕ} (hi : a ≤ i) (hle : i ≤ a + line.length) : isspace (m i) = true := by
  obtain ⟨h1, h2⟩ := (holds_append _ _ _ _).mp h
  rcases Nat.lt_or_eq_of_le hle with hlt | rfl
  · have hget := holds_get h1 (i - a) (by omega)
    rw [Nat.add_sub_cancel' hi] at hget
    rw [hget]
    exact hl _ (List.getElem_mem _)
  · rw [h2.1]
    rfl

end Trim

section Line

variable {location : Option ℕ} {override : Bool} {size : ℕ} {s : Scan} {line tail : Str}

theorem readLine_cut {buf : Mem} {stop k : ℕ} (isIndented : Bool) (start : ℕ)
    (hstop : scanTo (fun b => b = LF ∨ b = 0) s.buf size s.start = stop)
    (hLF : s.buf stop = LF) (hk : trimEnd s.buf (stop - 1) = k)
    (hbuf : buf = Function.update s.buf (k + 1) 0) (hind : isspace (buf s.start) = isIndented)
    (hstart : (if isIndented then scanTo (fun b => !isspace b || b = LF) buf size s.start
      else s.start) = start) :
    readLine location override size s =
      (if buf start = LF ∨ buf start = 0 ∨ buf start = hash then some s.parsed
        else if isIndented then textLine s.parsed (strn buf start size)
        else moduleLine location override s.parsed (strn buf start size)).map
        (fun parsed => ⟨buf, stop + 1, parsed⟩) := by
  have hne : ¬ s.buf stop = 0 := by
    rw [hLF]
    decide
  rw [readLine]
  simp only [hstop, hne, ↓reduceIte, hk, ← hbuf, hind, hstart]

theorem scan_LF {m : Mem} {a : ℕ} (h : Holds m a (line ++ LF :: tail)) (hl : LF ∉ line)
    (h0 : (0 : UInt8) ∉ line) (hsize : line.length < size) :
    scanTo (fun b => b = LF ∨ b = 0) m size a = a + line.length := by
  refine scanTo_eq h (fun c hc => ?_) (by decide) hsize
  rw [decide_eq_false_iff_not]
  rintro (rfl | rfl)
  · exact hl hc
  · exact h0 hc

theorem scan_blanks {m : Mem} {a : ℕ} {p t : Str} {c : UInt8} (h : Holds m a (p ++ c :: t))
    (hl : LF ∉ p) (hp : ∀ d ∈ p, isspace d = true) (hc : isspace c = false ∨ c = LF)
    (hsize : p.length < size) :
    scanTo (fun b => !isspace b || b = LF) m size a = a + p.length := by
  refine scanTo_eq h (fun d hd => ?_) (by simpa using hc) hsize
  have hne : d ≠ LF := fun heq => hl (heq ▸ hd)
  simp [hp d hd, hne]

def Leaves (location : Option ℕ) (override : Bool) (size : ℕ) (s : Scan) (line tail : Str) :
    Prop :=
  ∃ buf, readLine location override size s =
      (kindStep location override s.parsed (kindOf line)).map
        (fun parsed => ⟨buf, s.start + line.length + 1, parsed⟩) ∧
    Holds buf (s.start + line.length + 1) tail ∧ Anchored buf (s.start + line.length + 1)

theorem readLine_blank (h : Holds s.buf s.start (line ++ LF :: tail)) (hl : LF ∉ line)
    (h0 : (0 : UInt8) ∉ line) (hblank : ∀ c ∈ line, isspace c = true) (htrim : trim line = [])
    (hsize : line.length < size) (ha : Anchored s.buf s.start) :
    Leaves location override size s line tail := by
  obtain ⟨k, hka, hk, hbetween⟩ := ha
  have hstop := scan_LF h hl h0 hsize
  obtain ⟨-, hLF, htail⟩ := (holds_append _ _ _ _).mp h
  have hspace : ∀ i, k < i → i ≤ s.start + line.length → isspace (s.buf i) = true := by
    intro i hi hle
    rcases Nat.lt_or_ge i s.start with hlt | hge
    · exact hbetween i hi hlt
    · exact isspace_line h hblank hge hle
  have htrimEnd : trimEnd s.buf (s.start + line.length - 1) = k :=
    trimEnd_eq hk (fun i hi hle => hspace i hi (by omega)) (by omega)
  have hkind : kindOf line = .skip := by rw [kindOf, if_pos (Or.inl htrim)]
  refine ⟨Function.update s.buf (k + 1) 0, ?_, holds_update htail (by omega) 0,
    anchored_cut (by omega) (fun i hi hlt => hspace i (by omega) (by omega))⟩
  rw [hkind, kindStep]
  rcases Nat.lt_or_ge (k + 1) s.start with hlt | hge
  · -- the terminator lies in an earlier line, and the newline of this one is still there
    have hcut : Holds (Function.update s.buf (k + 1) 0) s.start (line ++ LF :: tail) :=
      holds_update h (by omega) 0
    have hskip : scanTo (fun b => !isspace b || b = LF) (Function.update s.buf (k + 1) 0) size
        s.start = s.start + line.length := scan_blanks hcut hl hblank (Or.inr rfl) hsize
    rw [readLine_cut true (s.start + line.length) hstop hLF htrimEnd rfl
      (isspace_line hcut hblank (Nat.le_refl _) (by omega)) (by rw [if_pos rfl, hskip]), if_pos]
    exact Or.inl ((holds_append _ _ _ _).mp hcut).2.1
  · -- the terminator is the first byte of this line
    have heq : k + 1 = s.start := by omega
    have hzero : Function.update s.buf (k + 1) 0 s.start = 0 := by
      rw [heq, Function.update_self]
    rw [readLine_cut false s.start hstop hLF htrimEnd rfl (by rw [hzero]; rfl) (if_neg (by decide)),
      if_pos (Or.inr (Or.inl hzero))]

section Text
variable {p q t : Str} {c : UInt8}

/-- Blanks stand behind the last byte of the text, up to the newline, and trimming stops there. -/
theorem trimEnd_text {m : Mem} {a : ℕ} (hline : line = p ++ (c :: t) ++ q)
    (h : Holds m a (line ++ LF :: tail)) (hq : ∀ d ∈ q, isspace d = true)
    (hlast : ∀ d, (c :: t).getLast? = some d → isspace d = false) :
    (∀ i, a + p.length + t.length < i → i ≤ a + line.length → isspace (m i) = true) ∧
      trimEnd m (a + line.length - 1) = a + p.length + t.length := by
  have hlen : line.length = p.length + (t.length + 1) + q.length := by
    rw [hline]
    simp only [List.length_append, List.length_cons]
  rw [hline, List.append_assoc, List.append_assoc] at h
  obtain ⟨-, htq⟩ := (holds_append _ _ _ _).mp h
  obtain ⟨hct, hqLF⟩ := (holds_append _ _ _ _).mp htq
  have hk : m (a + p.length + t.length) = (c :: t).getLast (List.cons_ne_nil _ _) := by
    rw [holds_get hct t.length (by simp), List.getLast_eq_getElem]
    rfl
  have hstop : isspace (m (a + p.length + t.length)) = false := by
    rw [hk]
    exact hlast _ (List.getLast?_eq_some_getLast _)
  have hafter : ∀ i, a + p.length + t.length < i → i ≤ a + line.length →
      isspace (m i) = true := by
    intro i hi hle
    rw [List.length_cons] at hqLF
    exact isspace_line hqLF hq (by omega) (by omega)
  exact ⟨hafter, trimEnd_eq hstop (fun i hi hle => hafter i hi (by omega)) (by omega)⟩

/-- The first byte of the text and what stands in front of it decide what the line is. -/
theorem kindStep_text {parsed : Parsed} (hline : line = p ++ (c :: t) ++ q)
    (htrim : trim line = c :: t) (hp : ∀ d ∈ p, isspace d = true) (hc : isspace c = false)
    (h0 : (0 : UInt8) ∉ line) :
    kindStep location override parsed (kindOf line) =
      if c = LF ∨ c = 0 ∨ c = hash then some parsed
      else if !p.isEmpty then textLine parsed (c :: t)
      else moduleLine location override parsed (c :: t) := by
  have hcLF : c ≠ LF := by
    rintro rfl
    cases hc
  have hc0 : c ≠ 0 := by
    rintro rfl
    apply h0
    simp [hline]
  rw [kindOf, htrim]
  by_cases hhash : c = hash
  · rw [if_pos (Or.inr (Or.inr hhash)),
      if_pos (show c :: t = [] ∨ (c :: t).head? = some hash from Or.inr (congrArg some hhash))]
    rfl
  · have hskip : ¬ (c :: t = [] ∨ (c :: t).head? = some hash) := by
      rintro (hnil | hh)
      · cases hnil
      · exact hhash (Option.some.inj hh)
    rw [if_neg (not_or.mpr ⟨hcLF, not_or.mpr ⟨hc0, hhash⟩⟩), if_neg hskip]
    have hhead : ((line.head?.map isspace).getD false) = !p.isEmpty := by
      rw [hline]
      cases p with
      | nil => exact hc
      | cons d p => exact hp d List.mem_cons_self
    rw [hhead]
    cases p with
    | nil => rfl
    | cons d p => rfl

theorem readLine_text (h : Holds s.buf s.start (line ++ LF :: tail)) (hl : LF ∉ line)
    (h0 : (0 : UInt8) ∉ line) (hline : line = p ++ (c :: t) ++ q) (htrim : trim line = c :: t)
    (hp : ∀ d ∈ p, isspace d = true) (hq : ∀ d ∈ q, isspace d = true)
    (hc : isspace c = false) (hlast : ∀ d, (c :: t).getLast? = some d → isspace d = false)
    (hsize : line.length < size) : Leaves location override size s line tail := by
  have hlen : line.length = p.length + (t.length + 1) + q.length := by
    rw [hline]
    simp only [List.length_append, List.length_cons]
  have h0t : (0 : UInt8) ∉ c :: t := by
    intro hm
    apply h0
    rw [hline]
    exact List.mem_append_left _ (List.mem_append_right _ hm)
  have hlp : LF ∉ p := by
    intro hm
    apply hl
    rw [hline]
    exact List.mem_append_left _ (List.mem_append_left _ hm)
  have hstop := scan_LF h hl h0 hsize
  obtain ⟨hafter, htrimEnd⟩ := trimEnd_text hline h hq hlast
  obtain ⟨hbytes, hLF, htail⟩ := (holds_append _ _ _ _).mp h
  rw [hline, List.append_assoc, ← List.append_assoc] at hbytes
  obtain ⟨hptext, -⟩ := (holds_append _ _ _ _).mp hbytes
  refine ⟨Function.update s.buf (s.start + p.length + t.length + 1) 0, ?_,
    holds_update htail (by omega) 0,
    anchored_cut (by omega) (fun i hi hlt => hafter i (by omega) (by omega))⟩
  generalize hbuf : Function.update s.buf (s.start + p.length + t.length + 1) 0 = buf
  have hboth : Holds buf s.start (p ++ c :: t) := by
    rw [← hbuf]
    refine holds_update hptext ?_ 0
    rw [List.length_append, List.length_cons]
    omega
  obtain ⟨hpb, hct⟩ := (holds_append _ _ _ _).mp hboth
  have htext : strn buf (s.start + p.length) size = c :: t := by
    rw [strn_of_holds _ _ size (c :: t) _ h0t, List.take_of_length_le]
    · rw [List.length_cons]
      omega
    · rw [holds_append]
      refine ⟨hct, ?_, trivial⟩
      rw [← hbuf, List.length_cons, ← Nat.add_assoc, Function.update_self]
  have hfirst : buf (s.start + p.length) = c := hct.1
  have hread : readLine location override size s =
      (if buf (s.start + p.length) = LF ∨ buf (s.start + p.length) = 0 ∨
          buf (s.start + p.length) = hash then some s.parsed
        else if !p.isEmpty then textLine s.parsed (c :: t)
        else moduleLine location override s.parsed (c :: t)).map
        (fun parsed => ⟨buf, s.start + line.length + 1, parsed⟩) := by
    rw [← htext]
    cases p with
    | nil =>
      exact readLine_cut false s.start hstop hLF htrimEnd hbuf.symm (hfirst ▸ hc)
        (if_neg (by decide))
    | cons d p =>
      have hd : isspace (buf s.start) = true := by
        rw [hpb.1]
        exact hp d List.mem_cons_self
      have hskip : scanTo (fun b => !isspace b || b = LF) buf size s.start =
          s.start + (d :: p).length := scan_blanks hboth hlp hp (Or.inl hc) (by omega)
      exact readLine_cut true _ hstop hLF htrimEnd hbuf.symm hd (by rw [if_pos rfl, hskip])
  rw [hread, hfirst, kindStep_text hline htrim hp hc h0]

end Text

theorem readLine_leaves (h : Holds s.buf s.start (line ++ LF :: tail)) (hl : LF ∉ line)
    (h0 : (0 : UInt8) ∉ line) (hsize : line.length < size) (ha : Anchored s.buf s.start) :
    Leaves location override size s line tail := by
  obtain ⟨p, q, hline, hp, hq, hnil, hhead, hlast⟩ := exists_trim line
  cases ht : trim line with
  | nil =>
    refine readLine_blank h hl h0 ?_ ht hsize ha
    rw [ht, hnil ht, List.append_nil, List.append_nil] at hline
    exact hline ▸ hp
  | cons c t =>
    rw [ht] at hline hhead hlast
    exact readLine_text h hl h0 hline ht hp hq (hhead c rfl) hlast hsize

end Line

end Comodoo.ModuleListScan
