import Comodoo.CString
import Mathlib.Data.List.Chain

set_option autoImplicit false

/-!
# Carriage returns on the way out

`telnetSendOutput` is `telnet_send_output` of `stage-1/telnet.c`. The loop runs as long as the
output written is shorter than `len`, and `len` grows with each CR that is put in. `telnetd.c`
hands every buffer it reads to a call of its own, so no call knows how the buffer before it ended.
-/
namespace Comodoo.TelnetOutput
open CString

abbrev CR : UInt8 := 0x0d
abbrev LF : UInt8 := 0x0a

/-- The variables of the loop. `read` lists the places `s` has pointed to. -/
structure Frame where
  s : ℕ
  buf : Str
  len : ℕ
  read : List ℕ
  deriving DecidableEq, Repr

def round (data : Str) (f : Frame) : Option Frame :=
  match data[f.s]? with
  | none => none
  | some b =>
    if b = LF ∧ (f.s = 0 ∨ data[f.s - 1]? ≠ some CR) then
      -- NL without preceding CR
      some ⟨f.s + 1, f.buf ++ [CR, b], f.len + 1, f.read ++ [f.s]⟩
    else some ⟨f.s + 1, f.buf ++ [b], f.len, f.read ++ [f.s]⟩

def sendLoop (data : Str) : ℕ → Frame → Option Frame
  | 0, f => if f.buf.length < f.len then none else some f
  | fuel + 1, f =>
    if f.buf.length < f.len then (round data f).bind (sendLoop data fuel) else some f

/-- The frame at the `write`: `buf` is what is sent. -/
def telnetSendOutput (data : Str) : Option Frame :=
  sendLoop data data.length ⟨0, [], data.length, []⟩

/-- What goes out for one read after the other. -/
def relayOutput : List Str → Option Str
  | [] => some []
  | data :: chunks =>
    (telnetSendOutput data).bind (fun f => (relayOutput chunks).map (f.buf ++ ·))

/-- A CR in front of each LF that has none, `prev` being the byte before the text. -/
def withCR (prev : Option UInt8) : Str → Str
  | [] => []
  | b :: text =>
    if b = LF ∧ prev ≠ some CR then CR :: b :: withCR (some b) text
    else b :: withCR (some b) text

/-- A line end is cut between its two bytes. -/
def CutsLineEnd (data next : Str) : Prop := data.getLast? = some CR ∧ next.head? = some LF

instance (data next : Str) : Decidable (CutsLineEnd data next) :=
  inferInstanceAs (Decidable (_ ∧ _))

variable {data text : Str} {prev : Option UInt8}

section Call

theorem withCR_cons (prev : Option UInt8) (b : UInt8) (text : Str) :
    withCR prev (b :: text) =
      (if b = LF ∧ prev ≠ some CR then [CR, b] else [b]) ++ withCR (some b) text := by
  rw [withCR]
  split_ifs
  · rfl
  · rfl

theorem withCR_length_le (prev : Option UInt8) (text : Str) :
    (withCR prev text).length ≤ 2 * text.length := by
  induction text generalizing prev with
  | nil => exact Nat.le_refl 0
  | cons b text ih =>
    have := ih (some b)
    rw [withCR_cons, List.length_append, List.length_cons]
    split_ifs
    · rw [List.length_cons, List.length_singleton]
      omega
    · rw [List.length_singleton]
      omega

theorem behind_iff {before after : Str} (h : data = before ++ after) :
    (before.length = 0 ∨ data[before.length - 1]? ≠ some CR) ↔ before.getLast? ≠ some CR := by
  cases hlast : before.getLast? with
  | none =>
    rw [List.getLast?_eq_none_iff] at hlast
    simp [hlast]
  | some c =>
    have hne : before ≠ [] := by
      intro hnil
      rw [hnil] at hlast
      cases hlast
    have hpos := List.length_pos_of_ne_nil hne
    rw [List.getLast?_eq_getElem?] at hlast
    rw [h, List.getElem?_append_left (by omega), hlast]
    simp [hne]

theorem round_eq {before after : Str} {b : UInt8} (h : data = before ++ b :: after) {f : Frame}
    (hs : f.s = before.length) :
    round data f = if b = LF ∧ before.getLast? ≠ some CR
      then some ⟨f.s + 1, f.buf ++ [CR, b], f.len + 1, f.read ++ [f.s]⟩
      else some ⟨f.s + 1, f.buf ++ [b], f.len, f.read ++ [f.s]⟩ := by
  have hget : data[before.length]? = some b := by rw [h]; simp
  unfold round
  rw [hs, hget]
  simp only [behind_iff h]

/-- What is still to be read is what is missing in `buf`. -/
theorem sendLoop_run {before after : Str} (h : data = before ++ after) {f : Frame}
    (hs : f.s = before.length) (hlen : f.buf.length + after.length = f.len) :
    ∃ len, sendLoop data after.length f = some ⟨data.length,
      f.buf ++ withCR before.getLast? after, len, f.read ++ List.range' f.s after.length⟩ := by
  induction after generalizing before f with
  | nil =>
    rw [List.length_nil, Nat.add_zero] at hlen
    rw [List.append_nil] at h
    refine ⟨f.len, ?_⟩
    rw [List.length_nil, sendLoop, if_neg (by omega), h, ← hs]
    simp [withCR]
  | cons b after ih =>
    rw [List.length_cons] at hlen
    have hnext : data = (before ++ [b]) ++ after := by
      rw [h]
      simp
    have hgrow : f.s + 1 = (before ++ [b]).length := by
      rw [List.length_append, hs]
      rfl
    rw [List.length_cons, sendLoop, if_pos (by omega), round_eq h hs, withCR_cons]
    split_ifs with hcr
    · have hbuf : (f.buf ++ [CR, b]).length = f.buf.length + 2 := by simp
      obtain ⟨len, hrun⟩ := ih (f := ⟨f.s + 1, f.buf ++ [CR, b], f.len + 1, f.read ++ [f.s]⟩)
        hnext hgrow (by dsimp only; rw [hbuf]; omega)
      refine ⟨len, hrun.trans ?_⟩
      simp [List.range'_succ]
    · have hbuf : (f.buf ++ [b]).length = f.buf.length + 1 := by simp
      obtain ⟨len, hrun⟩ := ih (f := ⟨f.s + 1, f.buf ++ [b], f.len, f.read ++ [f.s]⟩)
        hnext hgrow (by dsimp only; rw [hbuf]; omega)
      refine ⟨len, hrun.trans ?_⟩
      simp [List.range'_succ]

/-- One call reads every byte once and sends the data with the CRs put in. -/
theorem telnetSendOutput_spec (data : Str) :
    ∃ len, telnetSendOutput data =
      some ⟨data.length, withCR none data, len, List.range data.length⟩ := by
  have hstart : data = [] ++ data := rfl
  obtain ⟨len, h⟩ := sendLoop_run hstart (f := ⟨0, [], data.length, []⟩) rfl (by simp)
  refine ⟨len, h.trans ?_⟩
  simp [List.range_eq_range']

end Call

section Relay

variable {chunks : List Str}

/-- Without the byte before the text, at most one CR more goes out. -/
theorem withCR_none (prev : Option UInt8) (text : Str) :
    withCR none text = (if prev = some CR ∧ text.head? = some LF then [CR] else []) ++
      withCR prev text := by
  cases text with
  | nil => simp [withCR]
  | cons b text =>
    rw [withCR_cons, withCR_cons, List.head?_cons]
    by_cases hb : b = LF
    · by_cases hp : prev = some CR
      · simp [hb, hp]
      · simp [hb, hp]
    · simp [hb]

theorem withCR_none_length (prev : Option UInt8) (text : Str) :
    (withCR prev text).length ≤ (withCR none text).length := by
  rw [withCR_none prev, List.length_append]
  omega

theorem withCR_none_iff (prev : Option UInt8) (text : Str) :
    withCR none text = withCR prev text ↔ ¬ (prev = some CR ∧ text.head? = some LF) := by
  constructor
  · intro h hcut
    have hlen := congrArg List.length (withCR_none prev text)
    rw [if_pos hcut, List.length_append, h, List.length_singleton] at hlen
    omega
  · intro h
    rw [withCR_none prev, if_neg h, List.nil_append]

theorem withCR_append (prev : Option UInt8) (a b : Str) :
    withCR prev (a ++ b) = withCR prev a ++ withCR (a.getLast?.or prev) b := by
  induction a generalizing prev with
  | nil => rfl
  | cons c a ih =>
    have hlast : (c :: a).getLast?.or prev = a.getLast?.or (some c) := by
      rw [List.getLast?_cons]
      cases a.getLast? with
      | none => rfl
      | some d => rfl
    rw [List.cons_append, withCR_cons, withCR_cons, ih, hlast, List.append_assoc]

theorem relayOutput_eq (chunks : List Str) :
    relayOutput chunks = some (chunks.flatMap (withCR none)) := by
  induction chunks with
  | nil => rfl
  | cons data chunks ih =>
    obtain ⟨len, h⟩ := telnetSendOutput_spec data
    rw [relayOutput, h, ih, List.flatMap_cons]
    rfl

theorem withCR_chunks_length (hne : ∀ data ∈ chunks, data ≠ []) (prev : Option UInt8) :
    (withCR prev chunks.flatten).length ≤ (chunks.flatMap (withCR none)).length := by
  induction chunks generalizing prev with
  | nil => exact Nat.le_refl 0
  | cons data chunks ih =>
    have hfirst := withCR_none_length prev data
    have hrest := ih (fun c hc => hne c (List.mem_cons_of_mem _ hc)) (data.getLast?.or prev)
    rw [List.flatten_cons, withCR_append, List.flatMap_cons, List.length_append,
      List.length_append]
    omega

/-- Chunk by chunk is as good as all at once when no line end is cut, the first chunk included. -/
theorem chunks_eq_iff (hne : ∀ data ∈ chunks, data ≠ []) (prev : Option UInt8) :
    chunks.flatMap (withCR none) = withCR prev chunks.flatten ↔
      (∀ data ∈ chunks.head?, ¬ (prev = some CR ∧ data.head? = some LF)) ∧
        chunks.IsChain (fun data next => ¬ CutsLineEnd data next) := by
  induction chunks generalizing prev with
  | nil => simp [withCR]
  | cons data chunks ih =>
    have hrest : ∀ c ∈ chunks, c ≠ [] := fun c hc => hne c (List.mem_cons_of_mem _ hc)
    have hlast : data.getLast?.or prev = data.getLast? := by
      cases h : data.getLast? with
      | none => exact absurd (List.getLast?_eq_none_iff.mp h) (hne data List.mem_cons_self)
      | some c => rfl
    have hlen1 := withCR_none_length prev data
    have hlen2 := withCR_chunks_length hrest data.getLast?
    rw [List.flatten_cons, List.flatMap_cons, withCR_append, hlast, List.isChain_cons]
    have happ : withCR none data ++ chunks.flatMap (withCR none) =
        withCR prev data ++ withCR data.getLast? chunks.flatten ↔
          withCR none data = withCR prev data ∧
            chunks.flatMap (withCR none) = withCR data.getLast? chunks.flatten := by
      constructor
      · intro h
        have hlen := congrArg List.length h
        rw [List.length_append, List.length_append] at hlen
        exact List.append_inj h (by omega)
      · intro h
        rw [h.1, h.2]
    rw [happ, withCR_none_iff, ih hrest]
    simp only [CutsLineEnd, List.head?_cons, Option.mem_some_iff, forall_eq']

/-- Every byte is read once, in order, and the output has room for twice the input. -/
def WithinBounds (data : Str) : Prop :=
  ∃ f, telnetSendOutput data = some f ∧ f.read = List.range data.length ∧
    f.buf.length ≤ 2 * data.length

/-- The stream comes out as a whole exactly when no read ends between CR and LF. -/
theorem relayOutput_iff (hne : ∀ data ∈ chunks, data ≠ []) :
    (relayOutput chunks = some (withCR none chunks.flatten) ∧
      ∀ data ∈ chunks, WithinBounds data) ↔
        chunks.IsChain (fun data next => ¬ CutsLineEnd data next) := by
  have hbounds : ∀ data, WithinBounds data := by
    intro data
    obtain ⟨len, h⟩ := telnetSendOutput_spec data
    exact ⟨_, h, rfl, withCR_length_le none data⟩
  rw [relayOutput_eq, Option.some_inj, chunks_eq_iff hne]
  simp [hbounds]

theorem relayOutput_twoLines :
    relayOutput [ascii "a\n", ascii "b\r\n"] =
      some (withCR none [ascii "a\n", ascii "b\r\n"].flatten) ∧
      ∀ data ∈ [ascii "a\n", ascii "b\r\n"], WithinBounds data :=
  (relayOutput_iff (by decide)).mpr (by decide)

/-- The CR is doubled. -/
theorem cutLineEnd_differs :
    ¬ ∀ chunks : List Str, (∀ data ∈ chunks, data ≠ []) →
      relayOutput chunks = some (withCR none chunks.flatten) ∧
        ∀ data ∈ chunks, WithinBounds data :=
  fun h => absurd (h [[CR], [LF]] (by decide)).1 (by decide)

end Relay

end Comodoo.TelnetOutput
