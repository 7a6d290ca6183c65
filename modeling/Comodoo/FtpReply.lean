import Comodoo.FtpResponse

set_option autoImplicit false

/-!
# The reference parser of an FTP reply

The reference parser works on whole lines. `progress` is what `ftpCheckResponse` remembers of
the lines it has seen.
-/
namespace Comodoo.FtpReply
open CString ByteMemory FtpResponse

/-- A line without its CR. -/
def text (t : Str) : Str := if t.getLast? = some CR then t.dropLast else t

def wire (lines : List Str) : Str := lines.flatMap (fun t => t ++ [LF])

def cut (t : Str) : Str := text t ++ List.replicate (t.length + 1 - (text t).length) 0

/-- The complete lines of what has arrived, and the unfinished one behind them. -/
def arrived (got : Str) : List Str × Str :=
  ((got.splitOn LF).dropLast, (got.splitOn LF).getLastD [])

def isDigit (b : UInt8) : Bool := 0x30 ≤ b && b ≤ 0x39

def closes (code t : Str) : Bool := t.take 3 = code ∧ t[3]? = some blank

/-- The final line of a reply that was opened with `code` and a dash. -/
def closing (code : Str) : List Str → Option Str
  | [] => none
  | t :: ts => if closes code t then if ts = [] then some t else none else closing code ts

def codeResult (code : Str) : ℤ :=
  if code = ascii "421" then FTPERR_TOO_MANY_CONNECTIONS
  else if code = ascii "550" then FTPERR_FILE_NOT_FOUND
  else if code.head? = some 0x34 ∨ code.head? = some 0x35 then FTPERR_BAD_SERVER_RESPONSE
  else 0

/-- The reference parser: result and final line of exactly one reply. -/
def parseReply : List Str → Option (ℤ × Str)
  | [] => none
  | t :: ts =>
    if 3 ≤ t.length ∧ (t.take 3).all isDigit = true then
      if t[3]? = some dash then
        (closing (t.take 3) ts).map (fun last => (codeResult (t.take 3), last))
      else if ts = [] then some (codeResult (t.take 3), t)
      else none
    else none

/-- No NUL and no bare LF on a line of its own. -/
def LineOk (t : Str) : Prop := t ≠ [] ∧ LF ∉ t ∧ (0 : UInt8) ∉ t

/-- `errorCode` and `doesContinue` after one more line. -/
def lineStep (s : Str × Bool) (t : Str) : Str × Bool :=
  if s.1 ≠ [] then if closes s.1 t then (s.1, false) else s
  else if t[3]? = some dash then (t.take 3, s.2) else (t.take 3, false)

def progress (ts : List Str) : Str × Bool := ts.foldl lineStep ([], true)

theorem closing_append {code last : Str} {done rest : List Str} (hr : rest ≠ [])
    (h : closing code (done ++ rest) = some last) : ∀ t ∈ done, closes code t = false := by
  induction done with
  | nil => simp
  | cons t done ih =>
    by_cases ht : closes code t = true
    · simp [closing, ht, hr] at h
    · simp only [List.cons_append, closing, ht, Bool.false_eq_true, ↓reduceIte] at h
      simpa [ht] using ih h

theorem foldl_lineStep_open {code : Str} (hc : code ≠ []) (done : List Str)
    (h : ∀ t ∈ done, closes code t = false) :
    done.foldl lineStep (code, true) = (code, true) := by
  induction done with
  | nil => rfl
  | cons t done ih =>
    have ht : lineStep (code, true) t = (code, true) := by
      simp [lineStep, hc, h t (by simp)]
    rw [List.foldl_cons, ht]
    exact ih (fun x hx => h x (by simp [hx]))

theorem foldl_lineStep_closing {code last : Str} (hc : code ≠ []) (ts : List Str)
    (h : closing code ts = some last) :
    ts.foldl lineStep (code, true) = (code, false) ∧ ts.getLast? = some last := by
  induction ts with
  | nil => simp [closing] at h
  | cons t ts ih =>
    by_cases ht : closes code t = true
    · by_cases hts : ts = []
      · simp only [closing, ht, hts, ↓reduceIte, Option.some.injEq] at h
        subst h
        simp [hts, lineStep, hc, ht]
      · simp [closing, ht, hts] at h
    · simp only [closing, ht, Bool.false_eq_true, ↓reduceIte] at h
      obtain ⟨hfold, hlast⟩ := ih h
      have hstep : lineStep (code, true) t = (code, true) := by simp [lineStep, hc, ht]
      refine ⟨by rw [List.foldl_cons, hstep, hfold], ?_⟩
      rw [List.getLast?_cons, hlast]
      rfl

theorem take_three_ne_nil {t : Str} (h : 3 ≤ t.length) : t.take 3 ≠ [] := by
  intro h0
  have := congrArg List.length h0
  rw [List.length_take, List.length_nil] at this
  omega

theorem progress_prefix {done rest : List Str} {res : ℤ × Str} (hr : rest ≠ [])
    (h : parseReply (done ++ rest) = some res) :
    (progress done).2 = true ∧ ((progress done).1 = [] ↔ done = []) ∧
      ((progress done).1 ≠ [] → (progress done).1.length = 3) := by
  cases done with
  | nil => simp [progress]
  | cons t done =>
    rw [List.cons_append, parseReply] at h
    split at h
    · rename_i hdig
      split at h
      · rename_i hdash
        obtain ⟨last, hlast, -⟩ := Option.map_eq_some_iff.mp h
        have hcode := take_three_ne_nil hdig.1
        have hopen := foldl_lineStep_open hcode done (closing_append hr hlast)
        have hprog : progress (t :: done) = (t.take 3, true) := by
          rw [progress, List.foldl_cons]
          simpa [lineStep, hdash] using hopen
        rw [hprog]
        refine ⟨rfl, by simp [hcode], fun _ => ?_⟩
        rw [List.length_take]
        omega
      · simp [hr] at h
    · simp at h

/-- The whole reply closes it, with the reference result and final line. -/
theorem progress_complete {ts : List Str} {rc : ℤ} {last : Str}
    (h : parseReply ts = some (rc, last)) :
    (progress ts).2 = false ∧ codeResult (progress ts).1 = rc ∧ ts.getLast? = some last := by
  cases ts with
  | nil => simp [parseReply] at h
  | cons t ts =>
    rw [parseReply] at h
    split at h
    · rename_i hdig
      split at h
      · rename_i hdash
        obtain ⟨last', hlast, heq⟩ := Option.map_eq_some_iff.mp h
        obtain ⟨hrc, rfl⟩ := Prod.mk.inj heq
        have hcode := take_three_ne_nil hdig.1
        obtain ⟨hfold, hl⟩ := foldl_lineStep_closing hcode ts hlast
        have hprog : progress (t :: ts) = (t.take 3, false) := by
          rw [progress, List.foldl_cons]
          simpa [lineStep, hdash] using hfold
        rw [hprog]
        refine ⟨rfl, hrc, ?_⟩
        rw [List.getLast?_cons, hl]
        rfl
      · rename_i hdash
        split at h
        · rename_i hts
          obtain ⟨hrc, rfl⟩ := Prod.mk.inj (Option.some.inj h)
          simp [hts, progress, lineStep, hdash, hrc]
        · simp at h
    · simp at h

theorem parseReply_first {t : Str} {ts : List Str} {res : ℤ × Str}
    (h : parseReply (t :: ts) = some res) : 3 ≤ t.length := by
  rw [parseReply] at h
  split at h
  · rename_i hdig
    exact hdig.1
  · simp at h

theorem text_append (t : Str) : ∃ tail, t = text t ++ tail ∧ tail.length ≤ 1 := by
  rw [text]
  split
  · rename_i h
    refine ⟨[CR], ?_, by simp⟩
    have hne : t ≠ [] := by rintro rfl; simp at h
    have hlast : t.getLast hne = CR := by
      rw [List.getLast?_eq_some_getLast hne] at h
      exact Option.some.inj h
    rw [← hlast, List.dropLast_append_getLast]
  · exact ⟨[], by simp, by simp⟩

theorem wire_cons (t : Str) (rest : List Str) : wire (t :: rest) = t ++ LF :: wire rest := by
  simp [wire]

theorem length_cut (t : Str) : (cut t).length = t.length + 1 := by
  obtain ⟨tail, htail, -⟩ := text_append t
  have hlen := congrArg List.length htail
  rw [List.length_append] at hlen
  rw [cut, List.length_append, List.length_replicate]
  omega

theorem length_flatMap_cut (lines : List Str) :
    (lines.flatMap cut).length = (wire lines).length := by
  induction lines with
  | nil => rfl
  | cons t lines ih =>
    rw [List.flatMap_cons, List.length_append, length_cut, ih, wire_cons, List.length_append,
      List.length_cons]
    omega

theorem splitOn_wire {lines : List Str} {p : Str} (hlines : ∀ t ∈ lines, LF ∉ t) (hp : LF ∉ p) :
    (wire lines ++ p).splitOn LF = lines ++ [p] := by
  induction lines with
  | nil => exact List.splitOn_eq_singleton hp
  | cons t lines ih =>
    rw [List.forall_mem_cons] at hlines
    rw [wire_cons, List.append_assoc, List.cons_append,
      List.splitOn_append_cons_self_of_not_mem hlines.1, ih hlines.2]
    rfl

theorem arrived_wire {lines : List Str} {p : Str} (hlines : ∀ t ∈ lines, LF ∉ t) (hp : LF ∉ p) :
    arrived (wire lines ++ p) = (lines, p) := by
  rw [arrived, splitOn_wire hlines hp, List.dropLast_concat, List.getLastD_concat]

theorem arrived_spec (got : Str) : got = wire (arrived got).1 ++ (arrived got).2 ∧
    (∀ t ∈ (arrived got).1, LF ∉ t) ∧ LF ∉ (arrived got).2 := by
  have hex : ∃ lines p, got = wire lines ++ p ∧ (∀ t ∈ lines, LF ∉ t) ∧ LF ∉ p := by
    induction got with
    | nil => exact ⟨[], [], rfl, by simp, by simp⟩
    | cons b got ih =>
      obtain ⟨lines, p, rfl, hlines, hp⟩ := ih
      by_cases hb : b = LF
      · refine ⟨[] :: lines, p, by rw [wire_cons, hb]; rfl, ?_, hp⟩
        exact List.forall_mem_cons.mpr ⟨List.not_mem_nil, hlines⟩
      · cases lines with
        | nil => exact ⟨[], b :: p, rfl, by simp, by simpa [Ne.symm hb] using hp⟩
        | cons t lines =>
          rw [List.forall_mem_cons] at hlines
          refine ⟨(b :: t) :: lines, p, by rw [wire_cons, wire_cons]; rfl, ?_, hp⟩
          exact List.forall_mem_cons.mpr ⟨by simpa [Ne.symm hb] using hlines.1, hlines.2⟩
  obtain ⟨lines, p, rfl, hlines, hp⟩ := hex
  rw [arrived_wire hlines hp]
  exact ⟨rfl, hlines, hp⟩

theorem wire_append (done rest : List Str) : wire (done ++ rest) = wire done ++ wire rest :=
  List.flatMap_append

theorem getLast?_wire {lines : List Str} (h : lines ≠ []) : (wire lines).getLast? = some LF := by
  rw [← List.dropLast_append_getLast h, wire_append, wire_cons]
  simp [wire]

theorem length_le_wire (lines : List Str) : lines.length ≤ (wire lines).length := by
  induction lines with
  | nil => simp
  | cons t lines ih =>
    rw [wire_cons, List.length_append, List.length_cons, List.length_cons]
    omega

theorem length_lt_wire {t : Str} {lines : List Str} (h : t ∈ lines) :
    t.length < (wire lines).length := by
  induction lines with
  | nil => simp at h
  | cons u lines ih =>
    rw [wire_cons, List.length_append, List.length_cons]
    rcases List.mem_cons.mp h with rfl | h
    · omega
    · have := ih h
      omega

/-- What has arrived of a reply is some of its lines and the front part of the next. -/
theorem split_wire (rest : List Str) (got later : Str) (h : got ++ later = wire rest)
    (hok : ∀ t ∈ rest, LineOk t) :
    ∃ comp rest' p, rest = comp ++ rest' ∧ got = wire comp ++ p ∧ p ++ later = wire rest' ∧
      LF ∉ p ∧ (0 : UInt8) ∉ p := by
  induction rest generalizing got with
  | nil =>
    obtain ⟨rfl, rfl⟩ : got = [] ∧ later = [] := by simpa [wire] using h
    exact ⟨[], [], [], by simp [wire]⟩
  | cons t rest ih =>
    obtain ⟨-, hlf, h0⟩ := hok t (by simp)
    rw [wire_cons] at h
    obtain ⟨u, ht, hlater⟩ | ⟨u, hgot, hu⟩ := List.append_eq_append_iff.mp h
    · refine ⟨[], t :: rest, got, rfl, rfl, by rw [wire_cons, h], ?_, ?_⟩
      · exact fun hm => hlf (by simp [ht, hm])
      · exact fun hm => h0 (by simp [ht, hm])
    · cases u with
      | nil =>
        rw [List.append_nil] at hgot
        refine ⟨[], t :: rest, got, rfl, rfl, by rw [wire_cons, h], ?_, ?_⟩
        · rwa [hgot]
        · rwa [hgot]
      | cons b u =>
        obtain ⟨rfl, hrest⟩ := List.cons.inj hu
        obtain ⟨comp, rest', p, rfl, rfl, hp, hfree⟩ :=
          ih u hrest.symm (fun x hx => hok x (by simp [hx]))
        exact ⟨t :: comp, rest', p, rfl, by rw [hgot, wire_cons]; simp, hp, hfree⟩

end Comodoo.FtpReply
