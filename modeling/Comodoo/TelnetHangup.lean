import Comodoo.TelnetCommands

set_option autoImplicit false

/-!
# A telnet client that hangs up

Behind the last byte every `read` leaves `ch` as it is, so the negotiation goes on as if the byte
came again and again.
-/
namespace Comodoo.TelnetHangup
open CString StepRun TelnetInput LoaderArgs TelnetNegotiate TelnetCommands

variable {ch : UInt8} {stream bytes sizes tail : Str} {t : Negotiation}

/-- The call after `n` reads behind the end of the stream. -/
def hungUp (ch : UInt8) (stream : Str) (n : ℕ) : Status Negotiation Outcome :=
  (telnetNegotiate ch (stream.map some ++ List.replicate n none)).2

def Ends (ch : UInt8) (stream : Str) : Prop :=
  ∃ n o, hungUp ch stream n = .stopped o ∧ o ≠ .crashed

def BufferBounded (ch : UInt8) (stream : Str) : Prop :=
  ∃ bound, ∀ n t, hungUp ch stream n = .running t → t.termAlloced ≤ bound

/-- What may stand behind the last whole command, when `last` is the byte before. -/
inductive Final (last : UInt8) : Str → Prop
  | nil : last ≠ IAC → Final last []
  | stray (b : UInt8) (rest : Str) : b ≠ IAC → Final last (b :: rest)
  | command (cmd : UInt8) : cmd ≠ SB → cmd ≠ IAC → Final last [IAC, cmd]
  | named (is : UInt8) (name rest : Str) : name ≠ [] → IAC ∉ name →
      Final last (IAC :: SB :: TERMINAL_TYPE :: is :: (name ++ IAC :: rest))

/-- The stream breaks off at a place where the negotiation notices it. -/
def BreaksOff (ch : UInt8) (stream : Str) : Prop :=
  ∃ bytes sizes tail, Commands bytes sizes ∧ Final (bytes.getLastD ch) tail ∧
    stream = bytes ++ tail

section Stalled

theorem step_none (t : Negotiation) : step t none = advance t := rfl

/-- The byte in `ch` is accepted for ever: an IAC between the blocks, or any other one inside. -/
def Stalled (t : Negotiation) : Prop :=
  (t.ch = IAC ∧ t.done = false ∧ t.point ≠ .suboption ∧ t.point ≠ .is) ∨
    (t.ch ≠ IAC ∧ t.point = .data) ∨ (t.ch = SB ∧ t.point = .suboption) ∨
      (t.ch = TERMINAL_TYPE ∧ t.point = .is)

theorem stalled_step (h : Stalled t) : ∃ t', step t none = .running t' ∧ Stalled t' := by
  rcases h with ⟨hch, hdone, hsub, his⟩ | ⟨hch, hpoint⟩ | ⟨hch, hpoint⟩ | ⟨hch, hpoint⟩
  · cases hpoint : t.point with
    | suboption => exact absurd hpoint hsub
    | is => exact absurd hpoint his
    | iac => exact ⟨{ t with point := .command }, by simp [step_none, advance, hpoint, hch],
        Or.inl ⟨hch, hdone, by simp⟩⟩
    | command => exact ⟨{ t with point := .verb }, by simp [step_none, advance, hpoint, hch],
        Or.inl ⟨hch, hdone, by simp⟩⟩
    | verb => exact ⟨{ t with point := .iac }, by simp [step_none, advance, again, hpoint, hdone],
        Or.inl ⟨hch, hdone, by simp⟩⟩
    | data => exact ⟨{ t with point := .se }, by simp [step_none, advance, hpoint, hch],
        Or.inl ⟨hch, hdone, by simp⟩⟩
    | se => exact ⟨{ t with point := .iac }, by simp [step_none, advance, again, hpoint, hdone],
        Or.inl ⟨hch, hdone, by simp⟩⟩
  · refine ⟨storeByte t, by simp [step_none, advance, hpoint, hch], Or.inr (Or.inl ?_)⟩
    unfold storeByte
    split
    · exact ⟨hch, hpoint⟩
    · split <;> exact ⟨hch, hpoint⟩
    · exact ⟨hch, hpoint⟩
  · refine ⟨{ t with state := .none, point := .data }, ?_, Or.inr (Or.inl ⟨?_, rfl⟩)⟩
    · simp [step_none, advance, hpoint, hch, show SB ≠ TERMINAL_TYPE by decide,
        show SB ≠ NAWS by decide]
    · simp [hch]
  · refine ⟨{ t with done := true, point := .data }, ?_, Or.inr (Or.inl ⟨?_, rfl⟩)⟩
    · simp [step_none, advance, hpoint]
    · rw [hch]
      decide

theorem stalled_never (h : Stalled t) (n : ℕ) (o : Outcome) :
    run step t (List.replicate n none) ≠ .stopped o := by
  obtain ⟨t', hrun, _⟩ := run_forever (e := none) (fun _ => stalled_step) h n
  rw [hrun]
  simp

end Stalled

section Buffer

theorem step_alloced_le {got : Option UInt8} {t' : Negotiation} (h : step t got = .running t') :
    t'.termAlloced ≤ t.termAlloced + 10 := by
  have hagain : ∀ u : Negotiation, again u = .running t' → t'.termAlloced = u.termAlloced := by
    intro u hu
    unfold again at hu
    split at hu
    · simp at hu
    · rw [← Status.running.inj hu]
  unfold step advance at h
  split at h
  · split at h
    · simp at h
    · rw [← Status.running.inj h]
      exact Nat.le_add_right _ _
  · split at h <;> rw [← Status.running.inj h] <;> exact Nat.le_add_right _ _
  · rw [hagain _ h]
    exact Nat.le_add_right _ _
  · split at h
    · rw [← Status.running.inj h]
      exact Nat.le_add_right _ _
    · split at h <;> rw [← Status.running.inj h] <;> exact Nat.le_add_right _ _
  · rw [← Status.running.inj h]
    exact Nat.le_add_right _ _
  · split at h
    · rw [← Status.running.inj h]
      unfold storeByte
      split
      · dsimp only
        split <;> omega
      · split <;> exact Nat.le_add_right _ _
      · exact Nat.le_add_right _ _
    · rw [← Status.running.inj h]
      exact Nat.le_add_right _ _
  · rw [hagain _ h]
    exact Nat.le_add_right _ _

theorem run_alloced_le {es : List (Option UInt8)} {t' : Negotiation}
    (h : run step t es = .running t') : t'.termAlloced ≤ t.termAlloced + 10 * es.length := by
  induction es generalizing t with
  | nil =>
    rw [run, Status.running.injEq] at h
    rw [h]
    exact Nat.le_add_right _ _
  | cons e es ih =>
    rw [run] at h
    cases hstep : step t e with
    | running u =>
      rw [hstep] at h
      have hone := step_alloced_le hstep
      have hrest := ih h
      rw [List.length_cons]
      omega
    | stopped o =>
      rw [hstep] at h
      simp at h

theorem bufferBounded_of_ends (h : Ends ch stream) : BufferBounded ch stream := by
  obtain ⟨n, o, hstop, _⟩ := h
  refine ⟨10 * (stream.length + n), ?_⟩
  intro m t hrun
  by_cases hle : n ≤ m
  · have hlater := run_append_stopped hstop (List.replicate (m - n) none)
    rw [List.append_assoc, ← List.replicate_add, Nat.add_sub_cancel' hle] at hlater
    change run step _ _ = _ at hrun
    rw [hlater] at hrun
    simp at hrun
  · have hle := run_alloced_le hrun
    rw [List.length_append, List.length_map, List.length_replicate] at hle
    change t.termAlloced ≤ 0 + 10 * (stream.length + m) at hle
    omega

theorem run_naming_none (held name : Str) (hch : ch ≠ IAC) (n : ℕ) :
    run step (naming held ch name) (List.replicate n none) =
      .running (naming held ch (name ++ List.replicate n ch)) := by
  induction n generalizing name with
  | zero => simp [run]
  | succ n ih =>
    have hstep : step (naming held ch name) none = .running (naming held ch (name ++ [ch])) := by
      rw [← storeByte_naming]
      simp [step_none, advance, naming, hch]
    rw [List.replicate_succ, run_cons_running _ hstep, ih, List.append_assoc,
      List.singleton_append, List.replicate_succ]

end Buffer

section Ends

theorem hungUp_append (hbytes : Commands bytes sizes) (ch : UInt8) :
    ∃ state, ∀ tail n, hungUp ch (bytes ++ tail) n =
      run step (loopHead (bytes.getLastD ch) state (sizes.take 4))
        (tail.map some ++ List.replicate n none) := by
  obtain ⟨state, hrun⟩ := run_from_start hbytes ch
  refine ⟨state, fun tail n => ?_⟩
  exact hrun tail (List.replicate n none)

theorem ends_of_breaksOff (h : BreaksOff ch stream) : Ends ch stream := by
  obtain ⟨bytes, sizes, tail, hbytes, hfinal, rfl⟩ := h
  obtain ⟨state, hrun⟩ := hungUp_append hbytes ch
  cases hfinal with
  | nil hlast =>
    refine ⟨1, .aborted, ?_, by simp⟩
    rw [hrun]
    exact run_stray hlast
  | stray b rest hb =>
    refine ⟨0, .aborted, ?_, by simp⟩
    rw [hrun]
    exact run_stray hb
  | command cmd hsb hiac =>
    refine ⟨2, .aborted, ?_, by simp⟩
    rw [hrun]
    calc run step (loopHead (bytes.getLastD ch) state (sizes.take 4))
          [some IAC, some cmd, none, none]
        = run step { loopHead cmd state (sizes.take 4) with point := .verb } [none, none] :=
          run_before_verb hsb
      _ = run step (loopHead cmd state (sizes.take 4)) [none] := rfl
      _ = .stopped .aborted := run_stray hiac
  | named is name rest hne hname =>
    refine ⟨1, answer (sizes.take 4) name, ?_, ?_⟩
    · rw [hrun, run_named is hname]
      cases rest with
      | nil => exact run_answer _ _ _
      | cons se rest => exact run_answer _ _ _
    · rw [answer, if_neg hne]
      simp

theorem crashed_of_behindName {held : Str} {es : List (Option UInt8)} {o : Outcome}
    (h : run step (behindName held []) es = .stopped o) : o = .crashed := by
  cases es with
  | nil => simp [run] at h
  | cons got es =>
    rw [run_answer, answer, if_pos rfl] at h
    exact (Status.stopped.inj h).symm

/-- Behind a name the call does not end, but for the byte 255 in its place. -/
theorem crashed_of_naming {held name : Str} (is : UInt8) (hname : IAC ∉ name) {n : ℕ} {o : Outcome}
    (h : run step (naming held (name.getLastD is) name) (List.replicate n none) = .stopped o) :
    o = .crashed := by
  by_cases hlast : name.getLastD is = IAC
  · -- only the byte after TERMINAL-TYPE can be the 255: the name is empty
    have hnil : name = [] := by
      cases name with
      | nil => rfl
      | cons b name =>
        rw [List.getLastD_cons] at hlast
        have hmem : name.getLastD b ∈ b :: name := List.getLastD_mem_cons
        rw [hlast] at hmem
        exact absurd hmem hname
    subst hnil
    rw [hlast] at h
    cases n with
    | zero => simp [run] at h
    | succ n =>
      have hstep : step (naming held IAC []) none = .running (behindName held []) := rfl
      rw [List.replicate_succ, run_cons_running _ hstep] at h
      exact crashed_of_behindName h
  · refine absurd h (stalled_never ?_ n o)
    exact Or.inr (Or.inl ⟨hlast, rfl⟩)

theorem breaksOff_of_ends (h : Ends ch stream) : BreaksOff ch stream := by
  obtain ⟨n, o, hstop, hne⟩ := h
  obtain ⟨bytes, sizes, tail, hbytes, htail, rfl⟩ := exists_cut stream
  obtain ⟨state, hrun⟩ := hungUp_append hbytes ch
  have hlen : (sizes.take 4).length ≤ 4 := by rw [List.length_take]; omega
  rw [hrun] at hstop
  cases htail with
  | nil =>
    refine ⟨bytes, sizes, [], hbytes, Final.nil ?_, rfl⟩
    intro hlast
    refine stalled_never ?_ n o hstop
    exact Or.inl ⟨hlast, rfl, by simp [loopHead], by simp [loopHead]⟩
  | stray b rest hb => exact ⟨bytes, sizes, _, hbytes, Final.stray b rest hb, rfl⟩
  | iac =>
    change run step _ (some IAC :: List.replicate n none) = _ at hstop
    rw [run_iac] at hstop
    refine absurd hstop (stalled_never ?_ n o)
    exact Or.inl ⟨rfl, rfl, by simp, by simp⟩
  | command cmd hcmd =>
    refine ⟨bytes, sizes, _, hbytes, Final.command cmd hcmd ?_, rfl⟩
    intro hiac
    change run step _ (some IAC :: some cmd :: List.replicate n none) = _ at hstop
    rw [run_before_verb hcmd] at hstop
    refine stalled_never ?_ n o hstop
    exact Or.inl ⟨hiac, rfl, by simp, by simp⟩
  | suboption =>
    change run step _ (some IAC :: some SB :: List.replicate n none) = _ at hstop
    rw [run_sb] at hstop
    refine absurd hstop (stalled_never ?_ n o)
    exact Or.inr (Or.inr (Or.inl ⟨rfl, rfl⟩))
  | data option data hoption hdata =>
    change run step _ (some IAC :: some SB :: some option ::
      (data.map some ++ List.replicate n none)) = _ at hstop
    rw [run_open hoption, run_inBlock option option _ hlen hdata] at hstop
    refine absurd hstop (stalled_never ?_ n o)
    by_cases hlast : data.getLastD option = IAC
    · exact Or.inl ⟨hlast, rfl, by simp [inBlock], by simp [inBlock]⟩
    · exact Or.inr (Or.inl ⟨hlast, rfl⟩)
  | se option data hoption hdata =>
    change run step _ (some IAC :: some SB :: some option ::
      ((data ++ [IAC]).map some ++ List.replicate n none)) = _ at hstop
    rw [run_open hoption, List.map_append, List.append_assoc,
      run_inBlock option option _ hlen hdata, List.map_singleton, List.singleton_append,
      run_se] at hstop
    refine absurd hstop (stalled_never ?_ n o)
    exact Or.inl ⟨rfl, rfl, by simp, by simp⟩
  | is =>
    change run step _ (some IAC :: some SB :: some TERMINAL_TYPE :: List.replicate n none) = _
      at hstop
    rw [run_is] at hstop
    refine absurd hstop (stalled_never ?_ n o)
    exact Or.inr (Or.inr (Or.inr ⟨rfl, rfl⟩))
  | name is name hname =>
    rw [run_name is hname] at hstop
    exact absurd (crashed_of_naming is hname hstop) hne
  | named is name rest hname =>
    refine ⟨bytes, sizes, _, hbytes, Final.named is name rest ?_ hname, rfl⟩
    rintro rfl
    rw [run_named is hname] at hstop
    exact hne (crashed_of_behindName hstop)

/-- When the client hangs up, the call ends only at the places of `Final`. -/
theorem telnetNegotiate_ends_iff (ch : UInt8) (stream : Str) :
    Ends ch stream ∧ BufferBounded ch stream ↔ BreaksOff ch stream := by
  constructor
  · intro h
    exact breaksOff_of_ends h.1
  · intro h
    exact ⟨ends_of_breaksOff h, bufferBounded_of_ends (ends_of_breaksOff h)⟩

/-- Where the stream ends inside a name, the buffer grows with every `read`. -/
theorem buffer_unbounded (hbytes : Commands bytes sizes) (is : UInt8) (name : Str)
    (hname : IAC ∉ name) (hlast : name.getLastD is ≠ IAC) (ch : UInt8) :
    ¬ BufferBounded ch (bytes ++ IAC :: SB :: TERMINAL_TYPE :: is :: name) := by
  rintro ⟨bound, hbound⟩
  obtain ⟨state, hrun⟩ := hungUp_append hbytes ch
  have hgrown := hbound (bound + 1) _
    ((hrun _ _).trans
      ((run_name is hname _ _ _ _).trans (run_naming_none _ name hlast (bound + 1))))
  simp only [naming, room, List.length_append, List.length_replicate] at hgrown
  omega

/-- A client that hangs up behind the `v` of its name. -/
def cutName : Str := [IAC, SB, TERMINAL_TYPE, 0, 0x76]

theorem cutName_never_ends : ¬ Ends 0 cutName ∧ ¬ BufferBounded 0 cutName := by
  refine ⟨?_, buffer_unbounded Commands.nil 0 [0x76] (by decide) (by decide) 0⟩
  rintro ⟨n, o, hstop, _⟩
  have hname : IAC ∉ ([0x76] : Str) := by decide
  refine stalled_never ?_ n o ((run_name 0 hname [] 0 .none _).symm.trans hstop)
  exact Or.inr (Or.inl ⟨by decide, rfl⟩)

end Ends

end Comodoo.TelnetHangup
