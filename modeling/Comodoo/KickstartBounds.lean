import Comodoo.KickstartCommands

set_option autoImplicit false

/-!
# The buffer of the kickstart file

The addresses that `ksReadCommands` reads and writes while it cuts and trims its lines. The
buffer has the addresses 1 to `sb.st_size + 1`.
-/
namespace Comodoo.KickstartBounds
open CString ByteMemory KickstartScan KickstartCommands

/-- The reads of `trimBack`. `chptr` is looked at only behind `start`. -/
def trimBackReads (m : Mem) (start : ℕ) : ℕ → List ℕ
  | 0 => []
  | chptr + 1 =>
    if start < chptr + 1 then
      (chptr + 1) :: if isspace (m (chptr + 1)) then trimBackReads m start chptr else []
    else []

/-- The reads and writes of `lineEnd` and `cutLine`, in order. -/
def lineAccesses (size : ℕ) (m : Mem) (start : ℕ) : List ℕ :=
  let stop := lineEnd m size start
  let cut := Function.update m stop 0
  let text := skipBlanks cut size start
  let chptr := trimBack cut text (stop - 1)
  scanReads (fun b => b = LF ∨ b = 0) m size start ++ stop ::
    (scanReads (fun b => b = 0 ∨ !isspace b) cut size start ++
      (trimBackReads cut text (stop - 1) ++
        [chptr, if isspace (cut chptr) then chptr else chptr + 1]))

variable (tokenize : Str → Option (List Str))

def readLinesAccesses (size : ℕ) : ℕ → Scan → List ℕ
  | 0, _ => []
  | fuel + 1, s =>
    if s.buf s.start = 0 ∨ s.parsed.inSection then [s.start]
    else
      s.start :: (lineAccesses size s.buf s.start ++
        match readLine tokenize size s with
        | none => []
        | some s => readLinesAccesses size fuel s)

/-- The accesses of `ksReadCommands` for a file that can be opened and read. -/
def ksReadAccesses (m : Mem) (content : Str) : List ℕ :=
  readLinesAccesses tokenize (content.length + 1) (content.length + 2)
    ⟨store m 1 (content ++ [0]), 1, .start⟩

def InBuffer (m : Mem) (content : Str) : Prop :=
  ∀ i ∈ ksReadAccesses tokenize m content, 1 ≤ i ∧ i ≤ content.length + 1

section Footprint
variable {m : Mem} {start stop size n : ℕ}

theorem trimBack_spec (m : Mem) (start chptr : ℕ) :
    trimBack m start chptr ≤ chptr ∧ min start chptr ≤ trimBack m start chptr ∧
      ∀ i ∈ trimBackReads m start chptr, start < i ∧ i ≤ chptr := by
  induction chptr with
  | zero => exact ⟨le_refl 0, Nat.min_le_right _ _, fun i hi => absurd hi List.not_mem_nil⟩
  | succ chptr ih =>
    obtain ⟨hle, hmin, hreads⟩ := ih
    rw [trimBack, trimBackReads]
    by_cases hstart : start < chptr + 1
    · rw [if_pos hstart]
      by_cases hblank : isspace (m (chptr + 1)) = true
      · rw [if_pos ⟨hstart, hblank⟩, if_pos hblank]
        refine ⟨by omega, by omega, fun i hi => ?_⟩
        rw [List.mem_cons] at hi
        rcases hi with rfl | hi
        · omega
        · have hin := hreads i hi
          omega
      · rw [if_neg (fun hboth => hblank hboth.2), if_neg hblank]
        refine ⟨by omega, by omega, fun i hi => ?_⟩
        rw [List.mem_singleton.mp hi]
        omega
    · rw [if_neg (fun hboth => hstart hboth.1), if_neg hstart]
      exact ⟨le_refl _, by omega, fun i hi => absurd hi List.not_mem_nil⟩

theorem trimBack_congr {m' : Mem} {chptr : ℕ}
    (h : ∀ i ∈ trimBackReads m start chptr, m' i = m i) :
    trimBack m' start chptr = trimBack m start chptr := by
  induction chptr with
  | zero => rfl
  | succ chptr ih =>
    rw [trimBackReads] at h
    rw [trimBack, trimBack]
    by_cases hstart : start < chptr + 1
    · rw [if_pos hstart] at h
      rw [h (chptr + 1) List.mem_cons_self]
      by_cases hblank : isspace (m (chptr + 1)) = true
      · rw [if_pos ⟨hstart, hblank⟩, if_pos ⟨hstart, hblank⟩]
        rw [if_pos hblank] at h
        exact ih (fun i hi => h i (List.mem_cons_of_mem _ hi))
      · rw [if_neg (fun hboth => hblank hboth.2), if_neg (fun hboth => hblank hboth.2)]
    · rw [if_neg (fun hboth => hstart hboth.1), if_neg (fun hboth => hstart hboth.1)]

/-- Cutting a line depends on the bytes accessed only. -/
theorem lineAccesses_complete {m' : Mem}
    (h : ∀ i ∈ lineAccesses size m start, m' i = m i) :
    lineEnd m' size start = lineEnd m size start ∧
      (cutLine m' size start (lineEnd m size start)).2 =
        (cutLine m size start (lineEnd m size start)).2 := by
  simp only [lineAccesses, List.mem_append, List.mem_cons, List.not_mem_nil, or_false] at h
  have hend : lineEnd m' size start = lineEnd m size start :=
    scanTo_congr (fun i hi => h i (Or.inl hi))
  generalize lineEnd m size start = stop at h hend ⊢
  have hcut : ∀ i, m' i = m i →
      Function.update m' stop 0 i = Function.update m stop 0 i := by
    intro i hi
    rcases eq_or_ne i stop with rfl | hne
    · rw [Function.update_self, Function.update_self]
    · rw [Function.update_of_ne hne, Function.update_of_ne hne, hi]
  have hskip : skipBlanks (Function.update m' stop 0) size start =
      skipBlanks (Function.update m stop 0) size start :=
    scanTo_congr (fun i hi => hcut i (h i (Or.inr (Or.inr (Or.inl hi)))))
  have htrim : trimBack (Function.update m' stop 0)
        (skipBlanks (Function.update m stop 0) size start) (stop - 1) =
      trimBack (Function.update m stop 0)
        (skipBlanks (Function.update m stop 0) size start) (stop - 1) :=
    trimBack_congr (fun i hi => hcut i (h i (Or.inr (Or.inr (Or.inr (Or.inl hi))))))
  have hlast := hcut _ (h _ (Or.inr (Or.inr (Or.inr (Or.inr (Or.inl rfl))))))
  refine ⟨hend, ?_⟩
  rw [cutLine, cutLine]
  rw [hskip, htrim, hlast]
  split_ifs <;> rfl

theorem cutLine_frame {i : ℕ} (h : i ∉ lineAccesses size m start) :
    (cutLine m size start (lineEnd m size start)).1 i = m i := by
  simp only [lineAccesses, List.mem_append, List.mem_cons, List.not_mem_nil, or_false, not_or] at h
  obtain ⟨-, hstop, -, -, hchptr, hwrite⟩ := h
  rw [cutLine]
  split_ifs with hblank
  · dsimp only
    rw [Function.update_of_ne hchptr, Function.update_of_ne hstop]
  · rw [if_neg hblank] at hwrite
    dsimp only
    rw [Function.update_of_ne hwrite, Function.update_of_ne hstop]

theorem lineEnd_spec (hn : m n = 0) (hhigh : start ≤ n) (hsize : n - start < size) :
    start ≤ lineEnd m size start ∧ lineEnd m size start ≤ n ∧
      (m (lineEnd m size start) = LF ∨ m (lineEnd m size start) = 0) := by
  have hz : decide (m n = LF ∨ m n = 0) = true := decide_eq_true (Or.inr hn)
  have hspec : _ ∧ _ ∧ decide (m (lineEnd m size start) = LF ∨ m (lineEnd m size start) = 0) = true :=
    scanTo_spec (p := fun b => b = LF ∨ b = 0) hz hhigh hsize
  exact ⟨hspec.1, hspec.2.1, of_decide_eq_true hspec.2.2⟩

theorem cutLine_zero {i : ℕ} (h : m i = 0) : (cutLine m size start stop).1 i = 0 := by
  rw [cutLine]
  split_ifs
  · exact update_zero (update_zero h)
  · exact update_zero (update_zero h)

theorem cutLine_stop : (cutLine m size start stop).1 stop = 0 := by
  rw [cutLine]
  split_ifs
  · exact update_zero (Function.update_self ..)
  · exact update_zero (Function.update_self ..)

theorem lineAccesses_within (hn : m n = 0) (hlow : 1 ≤ start) (hhigh : start ≤ n)
    (hsize : n ≤ size) (hstop : 2 ≤ lineEnd m size start) :
    ∀ i ∈ lineAccesses size m start, 1 ≤ i ∧ i ≤ n := by
  have hend := lineEnd_spec hn hhigh (by omega : n - start < size)
  have hline : ∀ i ∈ scanReads (fun b => b = LF ∨ b = 0) m size start, start ≤ i ∧ i ≤ n :=
    scanReads_within (decide_eq_true (Or.inr hn)) hhigh
  simp only [lineAccesses, List.mem_append, List.mem_cons, List.not_mem_nil, or_false]
  generalize lineEnd m size start = stop at hend hstop ⊢
  obtain ⟨hle, hlen, -⟩ := hend
  have hcut : Function.update m stop 0 stop = 0 := Function.update_self ..
  have hblanks : ∀ i ∈ scanReads (fun b => b = 0 ∨ !isspace b) (Function.update m stop 0) size
      start, start ≤ i ∧ i ≤ stop := scanReads_within (decide_eq_true (Or.inl hcut)) hle
  have htext : start ≤ skipBlanks (Function.update m stop 0) size start :=
    (scanTo_spec (decide_eq_true (Or.inl hcut)) hle (by omega)).1
  generalize skipBlanks (Function.update m stop 0) size start = text at htext ⊢
  obtain ⟨hback, hmin, hreads⟩ := trimBack_spec (Function.update m stop 0) text (stop - 1)
  generalize trimBack (Function.update m stop 0) text (stop - 1) = chptr at hback hmin ⊢
  have hwrite : chptr ≤ (if isspace (Function.update m stop 0 chptr) then chptr else chptr + 1) ∧
      (if isspace (Function.update m stop 0 chptr) then chptr else chptr + 1) ≤ chptr + 1 := by
    split_ifs <;> omega
  rintro i (hi | rfl | hi | hi | rfl | rfl)
  · have hin := hline i hi
    omega
  · omega
  · have hin := hblanks i hi
    omega
  · have hin := hreads i hi
    omega
  · omega
  · omega

end Footprint

/-- Before a round: the terminator is there, and the line is not an empty one at the first byte. -/
structure Inside (n : ℕ) (s : Scan) : Prop where
  ends : s.buf n = 0
  low : 1 ≤ s.start
  high : s.start ≤ n
  line : s.buf s.start ≠ 0 → 2 ≤ lineEnd s.buf n s.start

section Rounds
variable {tokenize : Str → Option (List Str)} {n fuel : ℕ} {s s' : Scan}

theorem readLine_inside (h : Inside n s) (hread : readLine tokenize n s = some s') :
    Inside n s' := by
  have hstart : n - s.start < n := by
    have hlow := h.low
    have hhigh := h.high
    omega
  obtain ⟨hle, hlen, hoff⟩ := lineEnd_spec h.ends h.high hstart
  rw [readLine, Option.map_eq_some_iff] at hread
  obtain ⟨parsed, -, rfl⟩ := hread
  have hends : (cutLine s.buf n s.start (lineEnd s.buf n s.start)).1 n = 0 := cutLine_zero h.ends
  by_cases hold : s.buf (lineEnd s.buf n s.start) = 0
  · rw [if_pos hold]
    exact ⟨hends, h.low.trans hle, hlen, fun hne => absurd cutLine_stop hne⟩
  · -- a LF: the next line begins behind it
    rw [if_neg hold]
    have hne : lineEnd s.buf n s.start ≠ n := by
      intro heq
      rw [heq] at hold
      exact hold h.ends
    have hnext : lineEnd s.buf n s.start + 1 ≤ n := by omega
    have hlow := h.low
    refine ⟨hends, Nat.le_add_left 1 _, hnext, fun _ => ?_⟩
    have hlater : n - (lineEnd s.buf n s.start + 1) < n := by omega
    have hlast := (lineEnd_spec hends hnext hlater).1
    dsimp only
    omega

theorem readLinesAccesses_within (h : Inside n s) :
    ∀ i ∈ readLinesAccesses tokenize n fuel s, 1 ≤ i ∧ i ≤ n := by
  induction fuel generalizing s with
  | zero =>
    intro i hi
    exact absurd hi List.not_mem_nil
  | succ fuel ih =>
    intro i hi
    rw [readLinesAccesses] at hi
    split_ifs at hi with hend
    · rw [List.mem_singleton.mp hi]
      exact ⟨h.low, h.high⟩
    · rw [not_or] at hend
      rw [List.mem_cons, List.mem_append] at hi
      rcases hi with rfl | hi | hi
      · exact ⟨h.low, h.high⟩
      · exact lineAccesses_within h.ends h.low h.high (le_refl n) (h.line hend.1) i hi
      · cases hread : readLine tokenize n s with
        | none =>
          rw [hread] at hi
          exact absurd hi List.not_mem_nil
        | some s' =>
          rw [hread] at hi
          exact ih (readLine_inside h hread) i hi

end Rounds

section Files
variable {tokenize : Str → Option (List Str)} {m : Mem} {content : Str}

theorem start_ends (m : Mem) (content : Str) :
    store m 1 (content ++ [0]) (content.length + 1) = 0 := by
  have hheld := ((holds_append _ _ _ _).mp (holds_store m 1 (content ++ [0]))).2.1
  rw [Nat.add_comm]
  exact hheld

/-- The first line ends at its own first byte only if that is a LF. -/
theorem start_inside (hfirst : content.head? ≠ some LF) :
    Inside (content.length + 1) ⟨store m 1 (content ++ [0]), 1, .start⟩ := by
  refine ⟨start_ends m content, le_refl 1, Nat.le_add_left 1 _, fun hne => ?_⟩
  dsimp only at hne ⊢
  obtain ⟨hle, -, hend⟩ := lineEnd_spec (start_ends m content) (Nat.le_add_left 1 _)
    (by omega : content.length + 1 - 1 < content.length + 1)
  by_contra hlt
  have hone : lineEnd (store m 1 (content ++ [0])) (content.length + 1) 1 = 1 := by omega
  rw [hone] at hend
  have hlf := hend.resolve_right hne
  have hheld := holds_store m 1 (content ++ [0])
  cases content with
  | nil => exact hne hheld.1
  | cons b rest =>
    apply hfirst
    rw [List.head?_cons, ← hlf]
    exact congrArg some hheld.1.symm

theorem emptyLine_accesses (rest : Str) :
    0 ∈ lineAccesses (rest.length + 2) (store m 1 (LF :: rest ++ [0])) 1 := by
  have hheld := holds_store m 1 (LF :: rest ++ [0])
  have hend : lineEnd (store m 1 (LF :: rest ++ [0])) (rest.length + 2) 1 = 1 := by
    rw [lineEnd, scanTo, if_pos]
    rw [hheld.1]
    exact decide_eq_true (Or.inl rfl)
  have hback : ∀ text, trimBack (Function.update (store m 1 (LF :: rest ++ [0])) 1 0) text 0 = 0 :=
    fun _ => rfl
  simp only [lineAccesses, hend, Nat.sub_self, hback, List.mem_append, List.mem_cons]
  exact Or.inr (Or.inr (Or.inr (Or.inr (Or.inl trivial))))

/-- Trimming stays inside the buffer if and only if the file does not begin with an empty line. -/
theorem ksReadCommands_inBuffer_iff (tokenize : Str → Option (List Str)) (m : Mem)
    (content : Str) : InBuffer tokenize m content ↔ content.head? ≠ some LF := by
  constructor
  · intro hin hfirst
    cases content with
    | nil => cases hfirst
    | cons b rest =>
      obtain rfl : b = LF := Option.some.inj hfirst
      have hheld := holds_store m 1 (LF :: rest ++ [0])
      have hzero : 0 ∈ ksReadAccesses tokenize m (LF :: rest) := by
        have hcond : ¬ (store m 1 (LF :: rest ++ [0]) 1 = 0 ∨ Parsed.start.inSection = true) := by
          rw [hheld.1]
          decide
        rw [ksReadAccesses, readLinesAccesses, if_neg hcond]
        refine List.mem_cons_of_mem _ (List.mem_append_left _ ?_)
        exact emptyLine_accesses rest
      exact absurd (hin 0 hzero).1 (by decide)
  · intro hfirst i hi
    exact readLinesAccesses_within (start_inside hfirst) i hi

theorem emptyLine_not_inBuffer :
    ¬ ∀ tokenize m content, InBuffer tokenize m content := by
  intro hall
  have hin := hall (fun word => some [word]) (fun _ => 0) [LF]
  have hzero : 0 ∈ ksReadAccesses (fun word => some [word]) (fun _ => 0) [LF] := by
    decide +kernel
  exact absurd (hin 0 hzero).1 (by decide)

end Files

end Comodoo.KickstartBounds
