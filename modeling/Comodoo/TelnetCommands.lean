import Comodoo.TelnetNegotiate
import Mathlib.Data.Nat.Init

set_option autoImplicit false

/-!
# What the negotiation reads as a command

`telnet_negotiate` ends a block of data at the first IAC and takes the byte after it for SE.
`Commands` are the streams that are whole commands in this reading, `Tail` what can stand behind
them.
-/
namespace Comodoo.TelnetCommands
open CString StepRun TelnetInput LoaderArgs TelnetNegotiate

/-- The data that a block adds to `sizeBuf`. -/
def kept (option : UInt8) (data : Str) : Str := if option = NAWS then data else []

/-- Whole commands before the terminal type, with the data of their NAWS blocks. -/
inductive Commands : Str → Str → Prop
  | nil : Commands [] []
  | command (cmd verb : UInt8) (bytes sizes : Str) :
      cmd ≠ SB → Commands bytes sizes → Commands (IAC :: cmd :: verb :: bytes) sizes
  | block (option : UInt8) (data : Str) (se : UInt8) (bytes sizes : Str) :
      option ≠ TERMINAL_TYPE → IAC ∉ data → Commands bytes sizes →
      Commands (IAC :: SB :: option :: (data ++ IAC :: se :: bytes))
        (kept option data ++ sizes)

inductive Tail : Str → Prop
  | nil : Tail []
  | stray (b : UInt8) (rest : Str) : b ≠ IAC → Tail (b :: rest)
  | iac : Tail [IAC]
  | command (cmd : UInt8) : cmd ≠ SB → Tail [IAC, cmd]
  | suboption : Tail [IAC, SB]
  | data (option : UInt8) (data : Str) :
      option ≠ TERMINAL_TYPE → IAC ∉ data → Tail (IAC :: SB :: option :: data)
  | se (option : UInt8) (data : Str) :
      option ≠ TERMINAL_TYPE → IAC ∉ data → Tail (IAC :: SB :: option :: (data ++ [IAC]))
  | is : Tail [IAC, SB, TERMINAL_TYPE]
  | name (is : UInt8) (name : Str) :
      IAC ∉ name → Tail (IAC :: SB :: TERMINAL_TYPE :: is :: name)
  | named (is : UInt8) (name rest : Str) :
      IAC ∉ name → Tail (IAC :: SB :: TERMINAL_TYPE :: is :: (name ++ IAC :: rest))

variable {bytes sizes data held : Str}

section Cut

theorem Commands.append {bytes' sizes' : Str} (h : Commands bytes sizes)
    (h' : Commands bytes' sizes') : Commands (bytes ++ bytes') (sizes ++ sizes') := by
  induction h with
  | nil => exact h'
  | command cmd verb bytes sizes hcmd _ ih => exact Commands.command cmd verb _ _ hcmd ih
  | block option data se bytes sizes hoption hdata _ ih =>
    have hblock := Commands.block option data se _ _ hoption hdata ih
    rw [List.append_assoc]
    simpa using hblock

theorem split_at_iac (bytes : Str) :
    IAC ∉ bytes ∨ ∃ data rest, IAC ∉ data ∧ bytes = data ++ IAC :: rest := by
  by_cases h : IAC ∈ bytes
  · obtain ⟨data, rest, heq, hdata⟩ := List.eq_append_cons_of_mem h
    exact Or.inr ⟨data, rest, hdata, heq⟩
  · exact Or.inl h

theorem exists_cut (stream : Str) :
    ∃ bytes sizes tail, Commands bytes sizes ∧ Tail tail ∧ stream = bytes ++ tail := by
  induction hn : stream.length using Nat.strong_induction_on generalizing stream with
  | _ n ih =>
    have hstop : Tail stream →
        ∃ bytes sizes tail, Commands bytes sizes ∧ Tail tail ∧ stream = bytes ++ tail :=
      fun htail => ⟨[], [], stream, Commands.nil, htail, rfl⟩
    match stream with
    | [] => exact hstop Tail.nil
    | b :: stream =>
      by_cases hb : b = IAC
      · subst hb
        match stream with
        | [] => exact hstop Tail.iac
        | [cmd] =>
          by_cases hcmd : cmd = SB
          · subst hcmd
            exact hstop Tail.suboption
          · exact hstop (Tail.command cmd hcmd)
        | cmd :: option :: stream =>
          simp only [List.length_cons] at hn
          by_cases hcmd : cmd = SB
          · subst hcmd
            by_cases hoption : option = TERMINAL_TYPE
            · subst hoption
              match stream with
              | [] => exact hstop Tail.is
              | is :: stream =>
                rcases split_at_iac stream with hname | ⟨name, rest, hname, rfl⟩
                · exact hstop (Tail.name is stream hname)
                · exact hstop (Tail.named is name rest hname)
            · rcases split_at_iac stream with hdata | ⟨data, rest, hdata, rfl⟩
              · exact hstop (Tail.data option stream hoption hdata)
              · cases rest with
                | nil => exact hstop (Tail.se option data hoption hdata)
                | cons se rest =>
                  simp only [List.length_append, List.length_cons] at hn
                  obtain ⟨bytes, sizes, tail, hbytes, htail, rfl⟩ :=
                    ih rest.length (by omega) rest rfl
                  have hblock := Commands.block option data se _ _ hoption hdata hbytes
                  exact ⟨_, _, tail, hblock, htail, by simp⟩
          · obtain ⟨bytes, sizes, tail, hbytes, htail, rfl⟩ :=
              ih stream.length (by omega) stream rfl
            exact ⟨_, _, tail, Commands.command cmd option _ _ hcmd hbytes, htail, rfl⟩
      · exact hstop (Tail.stray b stream hb)

end Cut

section Run
variable {ch : UInt8} {state : SuboptionState} {t : Negotiation} {es : List (Option UInt8)}

theorem run_cons (t : Negotiation) (got : Option UInt8) {t' : Negotiation}
    (h : step t got = .running t') : run step t (got :: es) = run step t' es :=
  run_cons_running es h

theorem step_data (hpoint : t.point = .data) {b : UInt8} (hb : b ≠ IAC) :
    step t (some b) = .running (storeByte { t with ch := b }) := by
  simp [step, advance, hpoint, hb]

/-- Inside a block that is not the terminal type. -/
def inBlock (option ch : UInt8) (held : Str) : Negotiation :=
  ⟨.data, ch, false, [], 0, if option = NAWS then .windowSize else .none, held⟩

theorem storeByte_inBlock (option b : UInt8) (held : Str) (hlen : held.length ≤ 4) :
    storeByte (inBlock option b held) = inBlock option b ((held ++ kept option [b]).take 4) := by
  unfold inBlock kept
  by_cases hoption : option = NAWS
  · by_cases hroom : held.length < 4
    · have htake : (held ++ [b]).take 4 = held ++ [b] :=
        List.take_of_length_le (by rw [List.length_append, List.length_singleton]; omega)
      simp [storeByte, hoption, hroom, htake]
    · have hfull : held.length = 4 := by omega
      simp [storeByte, hoption, hroom, List.take_left' hfull]
  · simp [storeByte, hoption, List.take_of_length_le hlen]

theorem take_four_append (held data data' : Str) :
    ((held ++ data).take 4 ++ data').take 4 = (held ++ (data ++ data')).take 4 := by
  have hright : ((held ++ data) ++ data').take 4 =
      (held ++ data).take 4 ++ data'.take (4 - (held ++ data).length) := List.take_append
  rw [← List.append_assoc, List.take_append, List.take_take, hright, List.length_take]
  congr 1
  by_cases h : (held ++ data).length ≤ 4
  · rw [Nat.min_eq_right h]
  · rw [Nat.min_eq_left (by omega), Nat.sub_self, Nat.sub_eq_zero_of_le (by omega)]

theorem run_inBlock (option ch : UInt8) (held : Str) (hlen : held.length ≤ 4) (hdata : IAC ∉ data)
    (es : List (Option UInt8)) :
    run step (inBlock option ch held) (data.map some ++ es) =
      run step (inBlock option (data.getLastD ch) ((held ++ kept option data).take 4)) es := by
  induction data generalizing ch held with
  | nil => simp [kept, List.take_of_length_le hlen]
  | cons b data ih =>
    rw [List.mem_cons, not_or] at hdata
    have hstep := step_data (t := inBlock option ch held) rfl (Ne.symm hdata.1)
    have hstore : storeByte { inBlock option ch held with ch := b } =
        inBlock option b ((held ++ kept option [b]).take 4) := storeByte_inBlock option b held hlen
    have hkept : kept option [b] ++ kept option data = kept option (b :: data) := by
      unfold kept
      split <;> rfl
    rw [List.map_cons, List.cons_append, run_cons _ _ hstep, hstore,
      ih _ _ (by rw [List.length_take]; omega) hdata.2, take_four_append, hkept, List.getLastD_cons]

/-- The room for `n` bytes of the terminal type. -/
def room (n : ℕ) : ℕ := (n + 9) / 10 * 10

/-- Behind `name` of the terminal type. -/
def naming (held : Str) (ch : UInt8) (name : Str) : Negotiation :=
  ⟨.data, ch, true, name.map tolower, room name.length, .termType, held⟩

/-- Behind the IAC that ends `name`. -/
def behindName (held name : Str) : Negotiation := { naming held IAC name with point := .se }

theorem storeByte_naming (held name : Str) (b : UInt8) :
    storeByte (naming held b name) = naming held b (name ++ [b]) := by
  have hroom : (if room name.length = name.length then room name.length + 10
      else room name.length) = room (name.length + 1) := by
    unfold room
    split <;> omega
  simp [storeByte, naming, hroom]

theorem run_naming (held name : Str) (ch : UInt8) (hdata : IAC ∉ data)
    (es : List (Option UInt8)) :
    run step (naming held ch name) (data.map some ++ es) =
      run step (naming held (data.getLastD ch) (name ++ data)) es := by
  induction data generalizing ch name with
  | nil => simp
  | cons b data ih =>
    rw [List.mem_cons, not_or] at hdata
    have hstep := step_data (t := naming held ch name) rfl (Ne.symm hdata.1)
    have hstore : storeByte { naming held ch name with ch := b } = naming held b (name ++ [b]) :=
      storeByte_naming held name b
    rw [List.map_cons, List.cons_append, run_cons _ _ hstep, hstore, ih _ _ hdata.2,
      List.append_assoc, List.singleton_append, List.getLastD_cons]

theorem run_iac :
    run step (loopHead ch state held) (some IAC :: es) =
      run step { loopHead IAC state held with point := .command } es := by
  rw [run_cons]
  simp [step, advance, loopHead]

theorem run_stray {b : UInt8} (hb : b ≠ IAC) :
    run step (loopHead ch state held) (some b :: es) = .stopped .aborted := by
  rw [run_cons_stopped]
  simp [step, advance, loopHead, hb]

theorem run_before_verb {cmd : UInt8} (hcmd : cmd ≠ SB) :
    run step (loopHead ch state held) (some IAC :: some cmd :: es) =
      run step { loopHead cmd state held with point := .verb } es := by
  rw [run_iac, run_cons]
  simp [step, advance, loopHead, hcmd]

theorem run_sb :
    run step (loopHead ch state held) (some IAC :: some SB :: es) =
      run step { loopHead SB state held with point := .suboption } es := by
  rw [run_iac, run_cons]
  rfl

theorem run_command {cmd : UInt8} (verb : UInt8) (hcmd : cmd ≠ SB) :
    run step (loopHead ch state held) (some IAC :: some cmd :: some verb :: es) =
      run step (loopHead verb state held) es := by
  rw [run_before_verb hcmd, run_cons]
  rfl

theorem run_open {option : UInt8} (hoption : option ≠ TERMINAL_TYPE) :
    run step (loopHead ch state held) (some IAC :: some SB :: some option :: es) =
      run step (inBlock option option held) es := by
  rw [run_sb, run_cons]
  by_cases hnaws : option = NAWS
  · rw [hnaws]
    rfl
  · simp [step, advance, loopHead, inBlock, hoption, hnaws]

theorem run_is :
    run step (loopHead ch state held) (some IAC :: some SB :: some TERMINAL_TYPE :: es) =
      run step { loopHead TERMINAL_TYPE .termType held with point := .is } es := by
  rw [run_sb, run_cons]
  rfl

theorem run_open_name (is : UInt8) :
    run step (loopHead ch state held)
        (some IAC :: some SB :: some TERMINAL_TYPE :: some is :: es) =
      run step (naming held is []) es := by
  rw [run_is, run_cons]
  rfl

theorem run_se (option ch : UInt8) (held : Str) :
    run step (inBlock option ch held) (some IAC :: es) =
      run step { inBlock option IAC held with point := .se } es := by
  rw [run_cons]
  rfl

theorem run_close (option ch se : UInt8) (held : Str) :
    run step (inBlock option ch held) (some IAC :: some se :: es) =
      run step (loopHead se (inBlock option ch held).state held) es := by
  rw [run_se, run_cons]
  rfl

theorem run_commands (h : Commands bytes sizes) (ch : UInt8) (state : SuboptionState) (held : Str)
    (hlen : held.length ≤ 4) :
    ∃ state', ∀ es, run step (loopHead ch state held) (bytes.map some ++ es) =
      run step (loopHead (bytes.getLastD ch) state' ((held ++ sizes).take 4)) es := by
  induction h generalizing ch state held with
  | nil =>
    refine ⟨state, fun es => ?_⟩
    simp [List.take_of_length_le hlen]
  | command cmd verb bytes sizes hcmd _ ih =>
    obtain ⟨state', hrun⟩ := ih verb state held hlen
    refine ⟨state', fun es => ?_⟩
    rw [List.map_cons, List.map_cons, List.map_cons, List.cons_append, List.cons_append,
      List.cons_append, run_command verb hcmd, hrun]
    simp only [List.getLastD_cons]
  | block option data se bytes sizes hoption hdata _ ih =>
    obtain ⟨state', hrun⟩ := ih se (inBlock option (data.getLastD option) held).state
      ((held ++ kept option data).take 4) (by rw [List.length_take]; omega)
    refine ⟨state', fun es => ?_⟩
    have hlast : (IAC :: SB :: option :: (data ++ IAC :: se :: bytes)).getLastD ch =
        bytes.getLastD se := by
      rw [List.getLastD_eq_getLast?, List.getLastD_eq_getLast?]
      cases bytes <;> simp [List.getLast?_append, List.getLast?_cons]
    have hmap : (IAC :: SB :: option :: (data ++ IAC :: se :: bytes)).map some ++ es =
        some IAC :: some SB :: some option ::
          (data.map some ++ some IAC :: some se :: (bytes.map some ++ es)) := by simp
    have hrest := hrun es
    rw [take_four_append] at hrest
    rw [hlast, hmap, run_open hoption, run_inBlock option option held hlen hdata, run_close]
    exact hrest

theorem run_from_start (h : Commands bytes sizes) (ch : UInt8) :
    ∃ state, ∀ tail es, run step (loopHead ch .none []) ((bytes ++ tail).map some ++ es) =
      run step (loopHead (bytes.getLastD ch) state (sizes.take 4)) (tail.map some ++ es) := by
  obtain ⟨state, hrun⟩ := run_commands h ch .none [] (by simp)
  refine ⟨state, fun tail es => ?_⟩
  rw [List.map_append, List.append_assoc, hrun, List.nil_append]

/-- What is returned for a raw name and the window bytes before it. -/
def answer (held name : Str) : Outcome :=
  if name = [] then .crashed
  else .returned (name.map tolower ++ [0]) (windowSize held).1 (windowSize held).2

theorem finish_naming (held name : Str) (ch : UInt8) (point : Point) :
    finish { naming held ch name with point := point } = answer held name := by
  have hroom : room name.length = 0 ↔ name = [] := by
    rw [← List.length_eq_zero_iff]
    unfold room
    omega
  simp [finish, naming, answer, hroom]

theorem run_name (is : UInt8) {name : Str} (hname : IAC ∉ name) (held : Str) (ch : UInt8)
    (state : SuboptionState) (es : List (Option UInt8)) :
    run step (loopHead ch state held)
        ((IAC :: SB :: TERMINAL_TYPE :: is :: name).map some ++ es) =
      run step (naming held (name.getLastD is) name) es := by
  have hrun := run_naming held [] is hname es
  rw [List.nil_append] at hrun
  rw [← hrun, ← run_open_name is]
  rfl

/-- The terminal type up to its IAC; one more `read` ends the call. -/
theorem run_named (is : UInt8) {name : Str} (hname : IAC ∉ name) (held rest : Str) (ch : UInt8)
    (state : SuboptionState) (es : List (Option UInt8)) :
    run step (loopHead ch state held)
        ((IAC :: SB :: TERMINAL_TYPE :: is :: (name ++ IAC :: rest)).map some ++ es) =
      run step (behindName held name) (rest.map some ++ es) := by
  have hrun := run_name is hname held ch state (some IAC :: (rest.map some ++ es))
  have hstep : step (naming held (name.getLastD is) name) (some IAC) =
      .running (behindName held name) := rfl
  rw [run_cons _ _ hstep] at hrun
  rw [← hrun]
  simp

theorem run_answer (held name : Str) (got : Option UInt8) :
    run step (behindName held name) (got :: es) =
      .stopped (answer held name) := by
  rw [run_cons_stopped]
  exact congrArg Status.stopped (finish_naming held name _ .se)

theorem cut_of_returned {stream name : Str} {height width : ℤ}
    (h : run step (loopHead ch .none []) (stream.map some) =
      .stopped (.returned name height width)) :
    ∃ bytes sizes is raw se rest, Commands bytes sizes ∧ IAC ∉ raw ∧
      stream = bytes ++ IAC :: SB :: TERMINAL_TYPE :: is :: (raw ++ IAC :: se :: rest) ∧
      answer (sizes.take 4) raw = .returned name height width := by
  obtain ⟨bytes, sizes, tail, hbytes, htail, rfl⟩ := exists_cut stream
  obtain ⟨state, hstart⟩ := run_from_start hbytes ch
  have hrun := hstart tail []
  rw [List.append_nil, List.append_nil] at hrun
  rw [hrun] at h
  have hlen : (sizes.take 4).length ≤ 4 := by rw [List.length_take]; omega
  have hend : ∀ t : Negotiation, run step t [] ≠ .stopped (.returned name height width) := by
    simp [run]
  cases htail with
  | nil => exact absurd h (hend _)
  | stray b rest hb =>
    rw [List.map_cons, run_stray hb] at h
    simp at h
  | iac =>
    rw [List.map_cons, run_iac] at h
    exact absurd h (hend _)
  | command cmd hcmd =>
    rw [List.map_cons, List.map_cons, run_before_verb hcmd] at h
    exact absurd h (hend _)
  | suboption =>
    rw [List.map_cons, List.map_cons, run_sb] at h
    exact absurd h (hend _)
  | data option data hoption hdata =>
    have hblock := run_inBlock option option _ hlen hdata []
    rw [List.append_nil] at hblock
    rw [List.map_cons, List.map_cons, List.map_cons, run_open hoption, hblock] at h
    exact absurd h (hend _)
  | se option data hoption hdata =>
    rw [List.map_cons, List.map_cons, List.map_cons, run_open hoption, List.map_append,
      run_inBlock option option _ hlen hdata, List.map_singleton, run_se] at h
    exact absurd h (hend _)
  | is =>
    rw [List.map_cons, List.map_cons, List.map_cons, run_is] at h
    exact absurd h (hend _)
  | name is raw hraw =>
    have hname := run_name is hraw (sizes.take 4) (bytes.getLastD ch) state []
    rw [List.append_nil] at hname
    rw [hname] at h
    exact absurd h (hend _)
  | named is raw rest hraw =>
    have hnamed := run_named is hraw (sizes.take 4) rest (bytes.getLastD ch) state []
    rw [List.append_nil, List.append_nil] at hnamed
    rw [hnamed] at h
    cases rest with
    | nil => exact absurd h (hend _)
    | cons se rest =>
      rw [List.map_cons, run_answer] at h
      exact ⟨bytes, sizes, is, raw, se, rest, hbytes, hraw, rfl, Status.stopped.inj h⟩

theorem run_of_cut {raw : Str} (hbytes : Commands bytes sizes) (hraw : IAC ∉ raw) (ch is se : UInt8)
    (rest : Str) :
    run step (loopHead ch .none [])
        ((bytes ++ IAC :: SB :: TERMINAL_TYPE :: is :: (raw ++ IAC :: se :: rest)).map some) =
      .stopped (answer (sizes.take 4) raw) := by
  obtain ⟨state, hrun⟩ := run_from_start hbytes ch
  have hstart := hrun (IAC :: SB :: TERMINAL_TYPE :: is :: (raw ++ IAC :: se :: rest)) []
  rw [List.append_nil] at hstart
  rw [hstart, run_named is hraw, List.map_cons, List.cons_append, run_answer]

theorem run_stray_of_cut {b : UInt8} (hbytes : Commands bytes sizes) (hb : b ≠ IAC)
    (ch : UInt8) (rest : Str) (es : List (Option UInt8)) :
    run step (loopHead ch .none []) ((bytes ++ b :: rest).map some ++ es) = .stopped .aborted := by
  obtain ⟨state, hrun⟩ := run_from_start hbytes ch
  rw [hrun, List.map_cons, List.cons_append, run_stray hb]

end Run

end Comodoo.TelnetCommands
