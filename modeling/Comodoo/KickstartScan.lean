import Comodoo.ByteMemory
import Comodoo.CString

set_option autoImplicit false

/-!
# Lines of the kickstart file

The buffer of `ksReadCommands` (`stage-1/kickstart.c`) stands at address 1, so that address 0
is the byte in front of it. `cutLine` is the part of the loop that ends a line in place and
trims it at both ends.
-/
namespace Comodoo.KickstartScan
open CString ByteMemory

abbrev LF : UInt8 := 0x0a
abbrev hash : UInt8 := 0x23
abbrev percent : UInt8 := 0x25
abbrev backslash : UInt8 := 0x5c

/-- `strchr(start, '\n')`, or the end of the string. -/
def lineEnd (m : Mem) (size start : ℕ) : ℕ := scanTo (fun b => b = LF ∨ b = 0) m size start

/-- `while (*start && isspace(*start)) start++` -/
def skipBlanks (m : Mem) (size start : ℕ) : ℕ := scanTo (fun b => b = 0 ∨ !isspace b) m size start

/-- `while (chptr > start && isspace(*chptr)) chptr--` -/
def trimBack (m : Mem) (start : ℕ) : ℕ → ℕ
  | 0 => 0
  | chptr + 1 =>
    if start < chptr + 1 ∧ isspace (m (chptr + 1)) then trimBack m start chptr else chptr + 1

/-- Buffer, `start` and `chptr` once the line that ends at `stop` is cut and trimmed. -/
def cutLine (m : Mem) (size start stop : ℕ) : Mem × ℕ × ℕ :=
  let m := Function.update m stop 0
  let start := skipBlanks m size start
  let chptr := trimBack m start (stop - 1)
  if isspace (m chptr) then (Function.update m chptr 0, start, chptr)
  else (Function.update m (chptr + 1) 0, start, chptr)

section Scan

variable {m : Mem}

theorem trimBack_eq {start stop k : ℕ} (hstart : start ≤ k) (hk : isspace (m k) = false)
    (hblank : ∀ i, k < i → i ≤ stop → isspace (m i) = true) (hle : k ≤ stop) :
    trimBack m start stop = k := by
  induction stop with
  | zero =>
    rw [trimBack]
    omega
  | succ stop ih =>
    by_cases heq : k = stop + 1
    · rw [trimBack, if_neg, heq]
      rintro ⟨-, hsp⟩
      rw [← heq, hk] at hsp
      cases hsp
    · rw [trimBack, if_pos ⟨by omega, hblank (stop + 1) (by omega) (by omega)⟩]
      exact ih (fun i hi hlt => hblank i hi (by omega)) (by omega)

/-- With nothing to keep, the first test already fails. -/
theorem trimBack_start {start stop : ℕ} (h : stop ≤ start) : trimBack m start stop = stop := by
  cases stop with
  | zero => rfl
  | succ stop => rw [trimBack, if_neg (by omega)]

end Scan

section Cut

variable {m : Mem} {a size : ℕ} {line tail : Str} {b : UInt8}

theorem lineEnd_eq (h : Holds m a (line ++ b :: tail)) (hl : LF ∉ line) (h0 : (0 : UInt8) ∉ line)
    (hb : b = LF ∨ b = 0) (hsize : line.length < size) :
    lineEnd m size a = a + line.length := by
  refine scanTo_eq h (fun c hc => ?_) (by simpa using hb) hsize
  rw [decide_eq_false_iff_not]
  rintro (rfl | rfl)
  · exact hl hc
  · exact h0 hc

theorem skipBlanks_eq {p t : Str} (h : Holds m a (p ++ b :: t))
    (hp : ∀ c ∈ p, isspace c = true) (hb : b = 0 ∨ isspace b = false) (hsize : p.length < size) :
    skipBlanks m size a = a + p.length := by
  refine scanTo_eq h (fun c hc => ?_) (by simpa using hb) hsize
  have hsp := hp c hc
  have hne : c ≠ 0 := by
    rintro rfl
    rw [isspace_zero] at hsp
    cases hsp
  simp [hsp, hne]

/-- What the loop needs to know of a line it has cut. -/
structure IsCut (r : Mem × ℕ × ℕ) (stop : ℕ) (line tail : Str) : Prop where
  text : ∀ n, strn r.1 r.2.1 n = (trim line).take n
  last : ∀ c, (trim line).getLast? = some c → r.1 r.2.2 = c
  rest : Holds r.1 (stop + 1) tail
  ends : r.1 stop = 0

/-- A line of blanks: `start` comes to stand on its end, `chptr` in front of it. -/
theorem cutLine_blank (ha : 1 ≤ a) (h : Holds m a (line ++ b :: tail))
    (hblank : ∀ c ∈ line, isspace c = true) (htrim : trim line = []) (hsize : line.length < size) :
    IsCut (cutLine m size a (a + line.length)) (a + line.length) line tail := by
  have h1 := holds_cut h
  have hskip : skipBlanks (Function.update m (a + line.length) 0) size a = a + line.length :=
    skipBlanks_eq h1 hblank (Or.inl rfl) hsize
  rw [holds_append] at h1
  have hback : trimBack (Function.update m (a + line.length) 0) (a + line.length)
      (a + line.length - 1) = a + line.length - 1 := trimBack_start (by omega)
  have hpos : a + line.length - 1 + 1 = a + line.length := by omega
  -- one of two bytes is cleared, and the end of the line stays cleared
  have hend : ∀ k, k = a + line.length - 1 ∨ k = a + line.length →
      IsCut (Function.update (Function.update m (a + line.length) 0) k 0, a + line.length,
        a + line.length - 1) (a + line.length) line tail := by
    intro k hk
    have hzero : Function.update (Function.update m (a + line.length) 0) k 0
        (a + line.length) = 0 := update_zero (Function.update_self ..)
    refine ⟨fun n => ?_, fun c hc => ?_, ?_, hzero⟩
    · rw [htrim, List.take_nil]
      cases n with
      | zero => rfl
      | succ n => rw [strn, if_pos hzero]
    · rw [htrim] at hc
      cases hc
    · exact holds_update h1.2.2 (by omega) 0
  rw [cutLine]
  simp only [hskip, hback]
  split
  · exact hend _ (Or.inl rfl)
  · rw [hpos]
    exact hend _ (Or.inr rfl)

theorem cutLine_text {p q t : Str} {c : UInt8} (h : Holds m a (line ++ b :: tail))
    (hline : line = p ++ (c :: t) ++ q) (htrim : trim line = c :: t)
    (hp : ∀ d ∈ p, isspace d = true) (hq : ∀ d ∈ q, isspace d = true)
    (hc : isspace c = false) (hlast : ∀ d, (c :: t).getLast? = some d → isspace d = false)
    (h0 : (0 : UInt8) ∉ line) (hsize : line.length < size) :
    IsCut (cutLine m size a (a + line.length)) (a + line.length) line tail := by
  have hlen : line.length = p.length + (t.length + 1) + q.length := by
    rw [hline]
    simp only [List.length_append, List.length_cons]
  have h0t : (0 : UInt8) ∉ c :: t := by
    intro hm
    apply h0
    rw [hline]
    exact List.mem_append_left _ (List.mem_append_right _ hm)
  have h1 := holds_cut h
  generalize hm1 : Function.update m (a + line.length) 0 = m1 at h1
  have hend : m1 (a + line.length) = 0 := ((holds_append _ _ _ _).mp h1).2.1
  have hrest : Holds m1 (a + line.length + 1) tail := ((holds_append _ _ _ _).mp h1).2.2
  rw [hline, List.append_assoc, List.append_assoc] at h1
  have hskip : skipBlanks m1 size a = a + p.length :=
    skipBlanks_eq h1 hp (Or.inr hc) (by omega)
  obtain ⟨-, htext⟩ := (holds_append _ _ _ _).mp h1
  obtain ⟨hct, hqt⟩ := (holds_append _ _ _ _).mp htext
  obtain ⟨hq1, -⟩ := (holds_append _ _ _ _).mp hqt
  rw [List.length_cons] at hq1
  have hk : m1 (a + p.length + t.length) = (c :: t).getLast (List.cons_ne_nil _ _) := by
    rw [holds_get hct t.length (by simp), List.getLast_eq_getElem]
    rfl
  have hlast' : isspace (m1 (a + p.length + t.length)) = false := by
    rw [hk]
    exact hlast _ (List.getLast?_eq_some_getLast _)
  have hback : trimBack m1 (a + p.length) (a + line.length - 1) = a + p.length + t.length := by
    refine trimBack_eq (by omega) hlast' (fun i hi hle => ?_) (by omega)
    have hget := holds_get hq1 (i - (a + p.length + t.length) - 1) (by omega)
    rw [show a + p.length + (t.length + 1) + (i - (a + p.length + t.length) - 1) = i by omega]
      at hget
    rw [hget]
    exact hq _ (List.getElem_mem _)
  have hcut : cutLine m size a (a + line.length) =
      (Function.update m1 (a + p.length + t.length + 1) 0, a + p.length,
        a + p.length + t.length) := by
    rw [cutLine]
    simp only [hm1, hskip, hback, hlast', Bool.false_eq_true, ↓reduceIte]
  rw [hcut]
  refine ⟨fun n => ?_, fun d hd => ?_, holds_update hrest (by omega) 0, update_zero hend⟩
  · rw [htrim]
    refine strn_of_holds _ _ n (c :: t) ?_ h0t
    rw [holds_append]
    refine ⟨holds_update hct ?_ 0, ?_, trivial⟩
    · simp only [List.length_cons]
      omega
    · rw [List.length_cons, ← Nat.add_assoc]
      exact Function.update_self ..
  · rw [htrim, List.getLast?_eq_some_getLast (List.cons_ne_nil _ _), Option.some.injEq] at hd
    dsimp only
    rw [Function.update_of_ne (by omega), hk, hd]

theorem cutLine_isCut (ha : 1 ≤ a) (h : Holds m a (line ++ b :: tail)) (h0 : (0 : UInt8) ∉ line)
    (hsize : line.length < size) :
    IsCut (cutLine m size a (a + line.length)) (a + line.length) line tail := by
  obtain ⟨p, q, hline, hp, hq, hnil, hhead, hlast⟩ := exists_trim line
  cases ht : trim line with
  | nil =>
    refine cutLine_blank ha h ?_ ht hsize
    rw [ht, hnil ht, List.append_nil, List.append_nil] at hline
    exact hline ▸ hp
  | cons c t =>
    rw [ht] at hline hhead hlast
    exact cutLine_text h hline ht hp hq (hhead c rfl) hlast h0 hsize

end Cut

end Comodoo.KickstartScan
