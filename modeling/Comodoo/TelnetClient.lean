import Comodoo.TelnetCommands

set_option autoImplicit false

/-!
# What a telnet client says

A client sends commands and blocks, with every 255 inside a block doubled, and the terminal type
last. `telnetNegotiate_returns_iff` says for which clients the negotiation understands them.
-/
namespace Comodoo.TelnetClient
open CString StepRun TelnetInput LoaderArgs TelnetNegotiate TelnetCommands

abbrev IS : UInt8 := 0

inductive Verb where
  | will
  | wont
  | do_
  | dont
  deriving DecidableEq, Repr

def Verb.byte : Verb → UInt8
  | .will => WILL
  | .wont => WONT
  | .do_ => DO
  | .dont => DONT

/-- One message before the terminal type; `other` is a block of any further option. -/
inductive Message where
  | command (verb : Verb) (option : UInt8)
  | naws (w1 w0 h1 h0 : UInt8)
  | other (option : { o : UInt8 // o ≠ TERMINAL_TYPE ∧ o ≠ NAWS }) (data : Str)

def doubled (data : Str) : Str := data.flatMap (fun b => if b = IAC then [IAC, IAC] else [b])

def Message.bytes : Message → Str
  | .command verb option => [IAC, verb.byte, option]
  | .naws w1 w0 h1 h0 => IAC :: SB :: NAWS :: (doubled [w1, w0, h1, h0] ++ [IAC, SE])
  | .other option data => IAC :: SB :: option.val :: (doubled data ++ [IAC, SE])

/-- The height and width that a message declares. -/
def Message.size? : Message → Option (ℤ × ℤ)
  | .naws w1 w0 h1 h0 => some (256 * h1.toNat + h0.toNat, 256 * w1.toNat + w0.toNat)
  | _ => none

/-- A client that declares its window at most once. -/
structure Client where
  messages : List Message
  name : Str
  oneWindow : (messages.filterMap Message.size?).length ≤ 1

def Client.bytes (c : Client) : Str :=
  c.messages.flatMap Message.bytes ++
    IAC :: SB :: TERMINAL_TYPE :: IS :: (doubled c.name ++ [IAC, SE])

/-- Height and width, -1 without a NAWS block. -/
def Client.size (c : Client) : ℤ × ℤ := (c.messages.filterMap Message.size?).headD (-1, -1)

/-- What the caller has to get. -/
def Client.answer (c : Client) : Outcome :=
  .returned (c.name.map tolower ++ [0]) c.size.1 c.size.2

/-- No 255 in the block of another option, and no window byte from 128 on. -/
def Message.Plain : Message → Prop
  | .command _ _ => True
  | .naws w1 w0 h1 h0 => w1 < 0x80 ∧ w0 < 0x80 ∧ h1 < 0x80 ∧ h0 < 0x80
  | .other _ data => IAC ∉ data

/-- Neither the doubling nor the sign of a `char` is met, and there is a name. -/
def Client.Plain (c : Client) : Prop :=
  (∀ m ∈ c.messages, m.Plain) ∧ c.name ≠ [] ∧ IAC ∉ c.name

/-- Two bytes 255 stand side by side in the data of another option. -/
def Client.Adjoining (c : Client) : Prop :=
  ∃ option data, Message.other option data ∈ c.messages ∧ [IAC, IAC] <:+: data

section Doubled
variable {data : Str}

theorem doubled_of_not_mem (h : IAC ∉ data) : doubled data = data := by
  induction data with
  | nil => rfl
  | cons b data ih =>
    rw [List.mem_cons, not_or] at h
    rw [doubled, List.flatMap_cons, if_neg (Ne.symm h.1), List.singleton_append]
    exact congrArg _ (ih h.2)

theorem doubled_of_mem (h : IAC ∈ data) :
    ∃ pre post, IAC ∉ pre ∧ data = pre ++ IAC :: post ∧
      doubled data = pre ++ IAC :: IAC :: doubled post := by
  obtain ⟨pre, post, heq, hpre⟩ := List.eq_append_cons_of_mem h
  refine ⟨pre, post, hpre, heq, ?_⟩
  rw [heq, doubled, List.flatMap_append, List.flatMap_cons, if_pos rfl]
  exact congrArg₂ _ (doubled_of_not_mem hpre) rfl

end Doubled

section Window
variable {w1 w0 h1 h0 : UInt8}

theorem plainChar_le (b : UInt8) : plainChar b ≤ 127 := by
  have hb := b.toNat_lt
  unfold plainChar
  split
  · rename_i h
    rw [UInt8.lt_iff_toNat_lt] at h
    change b.toNat < 128 at h
    omega
  · omega

theorem plainChar_pair_iff (hi lo : UInt8) :
    plainChar hi * 256 + plainChar lo = 256 * hi.toNat + lo.toNat ↔ hi < 0x80 ∧ lo < 0x80 := by
  unfold plainChar
  split <;> rename_i hhi <;> split <;> rename_i hlo <;> simp only [hhi, hlo, and_self, and_true,
    and_false, iff_true, iff_false] <;> omega

theorem windowSize_le (held : Str) :
    (windowSize held).1 ≤ 32639 ∧ (windowSize held).2 ≤ 32639 := by
  unfold windowSize
  split
  · rename_i w1 w0 h1 h0
    have hw1 := plainChar_le w1
    have hw0 := plainChar_le w0
    have hh1 := plainChar_le h1
    have hh0 := plainChar_le h0
    constructor <;> dsimp only <;> omega
  · constructor <;> decide

end Window

section Messages

/-- No 255 in the data of a block. -/
def Message.Undoubled : Message → Prop
  | .command _ _ => True
  | .naws w1 w0 h1 h0 => IAC ∉ [w1, w0, h1, h0]
  | .other _ data => IAC ∉ data

def Message.windowBytes : Message → Str
  | .naws w1 w0 h1 h0 => [w1, w0, h1, h0]
  | _ => []

theorem Message.commands (m : Message) (h : m.Undoubled) : Commands m.bytes m.windowBytes := by
  cases m with
  | command verb option =>
    refine Commands.command verb.byte option [] [] ?_ Commands.nil
    cases verb <;> decide
  | naws w1 w0 h1 h0 =>
    have hblock := Commands.block NAWS [w1, w0, h1, h0] SE [] [] (by decide) h Commands.nil
    rw [Message.bytes, doubled_of_not_mem h]
    exact hblock
  | other option data =>
    have hblock := Commands.block option.val data SE [] [] option.property.1 h Commands.nil
    rw [kept, if_neg option.property.2] at hblock
    rw [Message.bytes, doubled_of_not_mem h]
    exact hblock

theorem commands_flatMap {messages : List Message} (h : ∀ m ∈ messages, m.Undoubled) :
    Commands (messages.flatMap Message.bytes) (messages.flatMap Message.windowBytes) := by
  induction messages with
  | nil => exact Commands.nil
  | cons m messages ih =>
    rw [List.forall_mem_cons] at h
    rw [List.flatMap_cons, List.flatMap_cons]
    exact (m.commands h.1).append (ih h.2)

theorem windowBytes_eq_nil {messages : List Message}
    (h : messages.filterMap Message.size? = []) : messages.flatMap Message.windowBytes = [] := by
  rw [List.filterMap_eq_nil_iff] at h
  rw [List.flatMap_eq_nil_iff]
  intro m hm
  have hsize := h m hm
  cases m with
  | command verb option => rfl
  | naws w1 w0 h1 h0 => simp [Message.size?] at hsize
  | other option data => rfl

theorem Client.split (c : Client) {w1 w0 h1 h0 : UInt8} (h : .naws w1 w0 h1 h0 ∈ c.messages) :
    ∃ pre post, c.messages = pre ++ .naws w1 w0 h1 h0 :: post ∧
      pre.filterMap Message.size? = [] ∧ post.filterMap Message.size? = [] := by
  obtain ⟨pre, post, heq⟩ := List.append_of_mem h
  have hone := c.oneWindow
  rw [heq, List.filterMap_append, List.filterMap_cons] at hone
  simp only [Message.size?, List.length_append, List.length_cons] at hone
  refine ⟨pre, post, heq, ?_, ?_⟩
  · apply List.eq_nil_of_length_eq_zero
    omega
  · apply List.eq_nil_of_length_eq_zero
    omega

theorem Client.size_of_naws (c : Client) {w1 w0 h1 h0 : UInt8}
    (h : .naws w1 w0 h1 h0 ∈ c.messages) :
    c.size = (256 * (h1.toNat : ℤ) + h0.toNat, 256 * (w1.toNat : ℤ) + w0.toNat) := by
  obtain ⟨pre, post, heq, hpre, hpost⟩ := c.split h
  rw [Client.size, heq, List.filterMap_append, hpre, List.nil_append, List.filterMap_cons]
  rfl

theorem windowSize_eq_iff (c : Client) :
    windowSize ((c.messages.flatMap Message.windowBytes).take 4) = c.size ↔
      ∀ w1 w0 h1 h0, .naws w1 w0 h1 h0 ∈ c.messages →
        w1 < 0x80 ∧ w0 < 0x80 ∧ h1 < 0x80 ∧ h0 < 0x80 := by
  by_cases hnaws : ∃ w1 w0 h1 h0, .naws w1 w0 h1 h0 ∈ c.messages
  · obtain ⟨w1, w0, h1, h0, hmem⟩ := hnaws
    obtain ⟨pre, post, heq, hpre, hpost⟩ := c.split hmem
    have hbytes : c.messages.flatMap Message.windowBytes = [w1, w0, h1, h0] := by
      rw [heq, List.flatMap_append, List.flatMap_cons, windowBytes_eq_nil hpre,
        windowBytes_eq_nil hpost]
      rfl
    rw [hbytes, c.size_of_naws hmem]
    change (_, _) = (_, _) ↔ _
    rw [Prod.mk.injEq, plainChar_pair_iff, plainChar_pair_iff]
    constructor
    · rintro ⟨⟨hh1, hh0⟩, hw1, hw0⟩ w1' w0' h1' h0' hmem'
      have hsize := c.size_of_naws hmem'
      rw [c.size_of_naws hmem, Prod.mk.injEq] at hsize
      simp only [UInt8.lt_iff_toNat_lt] at *
      have hb1 := w1'.toNat_lt
      have hb0 := w0'.toNat_lt
      have hb3 := h1'.toNat_lt
      have hb2 := h0'.toNat_lt
      have ha0 := w0.toNat_lt
      have ha2 := h0.toNat_lt
      omega
    · intro h
      obtain ⟨hw1, hw0, hh1, hh0⟩ := h w1 w0 h1 h0 hmem
      exact ⟨⟨hh1, hh0⟩, hw1, hw0⟩
  · have hnone : c.messages.filterMap Message.size? = [] := by
      rw [List.filterMap_eq_nil_iff]
      intro m hm
      cases m with
      | command verb option => rfl
      | naws w1 w0 h1 h0 => exact absurd ⟨w1, w0, h1, h0, hm⟩ hnaws
      | other option data => rfl
    rw [windowBytes_eq_nil hnone, Client.size, hnone]
    constructor
    · intro _ w1 w0 h1 h0 hmem
      exact absurd ⟨w1, w0, h1, h0, hmem⟩ hnaws
    · intro _
      rfl

/-- Every message begins with an IAC and a byte that is none. -/
theorem exists_next (messages : List Message) (tail : Str) :
    ∃ cmd rest, cmd ≠ IAC ∧
      messages.flatMap Message.bytes ++ IAC :: SB :: tail = IAC :: cmd :: rest := by
  cases messages with
  | nil => exact ⟨SB, tail, by decide, rfl⟩
  | cons m messages =>
    cases m with
    | command verb option =>
      refine ⟨verb.byte, _, ?_, rfl⟩
      cases verb <;> decide
    | naws w1 w0 h1 h0 => exact ⟨SB, _, by decide, rfl⟩
    | other option data => exact ⟨SB, _, by decide, rfl⟩

end Messages

section Negotiation

theorem exists_first {messages : List Message} (h : ¬ ∀ m ∈ messages, m.Undoubled) :
    ∃ pre m post, messages = pre ++ m :: post ∧ (∀ m ∈ pre, m.Undoubled) ∧ ¬ m.Undoubled := by
  induction messages with
  | nil => simp at h
  | cons m messages ih =>
    by_cases hm : m.Undoubled
    · rw [List.forall_mem_cons, not_and] at h
      obtain ⟨pre, m', post, rfl, hpre, hm'⟩ := ih (h hm)
      exact ⟨m :: pre, m', post, rfl, List.forall_mem_cons.mpr ⟨hm, hpre⟩, hm'⟩
    · exact ⟨[], m, messages, rfl, by simp, hm⟩

/-- Where no block holds a 255, all turns on the window bytes and the name. -/
theorem run_undoubled_iff (c : Client) (h : ∀ m ∈ c.messages, m.Undoubled) (ch : UInt8) :
    run step (loopHead ch .none []) (c.bytes.map some) = .stopped c.answer ↔
      windowSize ((c.messages.flatMap Message.windowBytes).take 4) = c.size ∧
        c.name ≠ [] ∧ IAC ∉ c.name := by
  have hcommands := commands_flatMap h
  by_cases hname : IAC ∈ c.name
  · obtain ⟨pre, post, hpre, heq, hdoubled⟩ := doubled_of_mem hname
    have hrun := run_of_cut hcommands hpre ch IS IAC (doubled post ++ [IAC, SE])
    have hbytes : c.bytes = c.messages.flatMap Message.bytes ++ IAC :: SB :: TERMINAL_TYPE :: IS ::
        (pre ++ IAC :: IAC :: (doubled post ++ [IAC, SE])) := by
      rw [Client.bytes, hdoubled, List.append_assoc]
      rfl
    rw [hbytes, hrun, Status.stopped.injEq, answer]
    constructor
    · intro hanswer
      split at hanswer
      · simp [Client.answer] at hanswer
      · -- the name ends at its first 255
        have hlen := congrArg List.length (Outcome.returned.inj hanswer).1
        rw [heq] at hlen
        simp at hlen
    · intro hplain
      exact absurd hname hplain.2.2
  · have hrun := run_of_cut hcommands hname ch IS SE []
    rw [Client.bytes, doubled_of_not_mem hname, hrun, Status.stopped.injEq, answer]
    by_cases hnil : c.name = []
    · simp [hnil, Client.answer]
    · rw [if_neg hnil]
      simp [Client.answer, hnil, hname, Prod.ext_iff]

/-- A low byte 255 in a window size is taken for the end of the block. -/
theorem run_naws_aborted {bytes sizes : Str} (hcommands : Commands bytes sizes)
    {w1 w0 h1 h0 : UInt8} (hw1 : w1 ≠ IAC) (hh1 : h1 ≠ IAC) (hlow : w0 = IAC ∨ h0 = IAC)
    {cmd : UInt8} (hcmd : cmd ≠ IAC) (rest : Str) (ch : UInt8) :
    run step (loopHead ch .none []) ((bytes ++ IAC :: SB :: NAWS ::
      (doubled [w1, w0, h1, h0] ++ IAC :: SE :: IAC :: cmd :: rest)).map some) =
      .stopped .aborted := by
  by_cases hw0 : w0 = IAC
  · have hblock := hcommands.append (Commands.block NAWS [w1] IAC [] [] (by decide)
      (by simpa using Ne.symm hw1) Commands.nil)
    have hstray := run_stray_of_cut hblock hh1 ch
      (doubled [h0] ++ IAC :: SE :: IAC :: cmd :: rest) []
    rw [List.append_nil] at hstray
    rw [← hstray]
    simp [doubled, hw0, hw1, hh1]
  · have hh0 : h0 = IAC := hlow.resolve_left hw0
    have hblock := hcommands.append (Commands.block NAWS [w1, w0, h1] IAC [IAC, SE, IAC] []
      (by decide) (by simpa using ⟨Ne.symm hw1, Ne.symm hw0, Ne.symm hh1⟩)
      (Commands.command SE IAC [] [] (by decide) Commands.nil))
    have hstray := run_stray_of_cut hblock hcmd ch rest []
    rw [List.append_nil] at hstray
    rw [← hstray]
    simp [doubled, hw0, hw1, hh1, hh0]

/-- A lone 255 in the block of another option ends the block before its time, and what follows does
not begin with an IAC or is a command that ends behind the IAC of the next message. -/
theorem run_other_aborted {bytes sizes : Str} (hcommands : Commands bytes sizes)
    {option : UInt8} (hoption : option ≠ TERMINAL_TYPE) {pre post : Str} (hpre : IAC ∉ pre)
    (hlone : ∀ rest, post ≠ IAC :: rest) {cmd : UInt8} (hcmd : cmd ≠ IAC) (rest : Str) (ch : UInt8) :
    run step (loopHead ch .none []) ((bytes ++ IAC :: SB :: option ::
      (pre ++ IAC :: IAC :: doubled post ++ IAC :: SE :: IAC :: cmd :: rest)).map some) =
      .stopped .aborted := by
  cases post with
  | nil =>
    have hblock := hcommands.append (Commands.block option pre IAC [IAC, SE, IAC] [] hoption hpre
      (Commands.command SE IAC [] [] (by decide) Commands.nil))
    have hstray := run_stray_of_cut hblock hcmd ch rest []
    rw [List.append_nil] at hstray
    rw [← hstray]
    simp [doubled]
  | cons b post =>
    have hb : b ≠ IAC := fun h => hlone post (by rw [h])
    have hblock := hcommands.append (Commands.block option pre IAC [] [] hoption hpre Commands.nil)
    have hstray := run_stray_of_cut hblock hb ch
      (doubled post ++ IAC :: SE :: IAC :: cmd :: rest) []
    rw [List.append_nil] at hstray
    rw [← hstray]
    simp [doubled, hb]

theorem run_doubled (c : Client) (hadjoining : ¬ c.Adjoining) {pre post : List Message} {m : Message}
    (heq : c.messages = pre ++ m :: post) (hpre : ∀ m ∈ pre, m.Undoubled) (hm : ¬ m.Undoubled)
    (ch : UInt8) : run step (loopHead ch .none []) (c.bytes.map some) ≠ .stopped c.answer := by
  have hcommands := commands_flatMap hpre
  obtain ⟨cmd, rest, hcmd, hnext⟩ := exists_next post
    (TERMINAL_TYPE :: IS :: (doubled c.name ++ [IAC, SE]))
  have hbytes : c.bytes = pre.flatMap Message.bytes ++ (m.bytes ++ IAC :: cmd :: rest) := by
    rw [Client.bytes, heq, List.flatMap_append, List.flatMap_cons, List.append_assoc,
      List.append_assoc, hnext]
  intro hrun
  cases m with
  | command verb option => exact hm trivial
  | naws w1 w0 h1 h0 =>
    -- a high byte of 128 and more is out of reach for two signed ones
    have hsmall : c.size.1 ≤ 32639 ∧ c.size.2 ≤ 32639 := by
      obtain ⟨_, sizes, _, raw, _, _, _, _, _, hanswer⟩ := cut_of_returned hrun
      unfold TelnetCommands.answer at hanswer
      split at hanswer
      · simp at hanswer
      · obtain ⟨_, hheight, hwidth⟩ := Outcome.returned.inj hanswer
        rw [← hheight, ← hwidth]
        exact windowSize_le _
    have hmem : .naws w1 w0 h1 h0 ∈ c.messages := by
      rw [heq]
      exact List.mem_append_right _ List.mem_cons_self
    rw [c.size_of_naws hmem] at hsmall
    have hw1 : w1 ≠ IAC := by
      rintro rfl
      have h255 : IAC.toNat = 255 := rfl
      omega
    have hh1 : h1 ≠ IAC := by
      rintro rfl
      have h255 : IAC.toNat = 255 := rfl
      omega
    have hlow : w0 = IAC ∨ h0 = IAC := by
      have hiac : IAC ∈ [w1, w0, h1, h0] := not_not.mp hm
      simp only [List.mem_cons, List.not_mem_nil, or_false] at hiac
      rcases hiac with h | h | h | h
      · exact absurd h.symm hw1
      · exact Or.inl h.symm
      · exact absurd h.symm hh1
      · exact Or.inr h.symm
    have hwire : c.bytes = pre.flatMap Message.bytes ++
        IAC :: SB :: NAWS :: (doubled [w1, w0, h1, h0] ++ IAC :: SE :: IAC :: cmd :: rest) := by
      rw [hbytes]
      simp [Message.bytes]
    rw [hwire, run_naws_aborted hcommands hw1 hh1 hlow hcmd] at hrun
    simp [Client.answer] at hrun
  | other option data =>
    obtain ⟨front, back, hfront, hdata, hdoubled⟩ := doubled_of_mem (not_not.mp hm)
    have hlone : ∀ rest, back ≠ IAC :: rest := by
      rintro rest rfl
      refine hadjoining ⟨option, data, by rw [heq]; simp, front, rest, ?_⟩
      rw [hdata]
      simp
    have hwire : c.bytes = pre.flatMap Message.bytes ++ IAC :: SB :: option.val ::
        (front ++ IAC :: IAC :: doubled back ++ IAC :: SE :: IAC :: cmd :: rest) := by
      rw [hbytes, Message.bytes, hdoubled]
      simp
    rw [hwire, run_other_aborted hcommands option.property.1 hfront hlone hcmd] at hrun
    simp [Client.answer] at hrun

theorem Message.Plain.undoubled {m : Message} (h : m.Plain) : m.Undoubled := by
  cases m with
  | command verb option => trivial
  | naws w1 w0 h1 h0 =>
    intro hiac
    simp only [List.mem_cons, List.not_mem_nil, or_false] at hiac
    obtain ⟨hw1, hw0, hh1, hh0⟩ := h
    rcases hiac with rfl | rfl | rfl | rfl <;> contradiction
  | other option data => exact h

theorem returns_iff_plain (c : Client) (h : ∀ m ∈ c.messages, m.Undoubled) (ch : UInt8) :
    run step (loopHead ch .none []) (c.bytes.map some) = .stopped c.answer ↔ c.Plain := by
  rw [run_undoubled_iff c h ch, windowSize_eq_iff]
  refine and_congr_left fun _ => ?_
  constructor
  · intro hsmall m hm
    cases m with
    | command verb option => trivial
    | naws w1 w0 h1 h0 => exact hsmall w1 w0 h1 h0 hm
    | other option data => exact h _ hm
  · intro hplain w1 w0 h1 h0 hmem
    exact hplain _ hmem

/-- The negotiation understands a client whose blocks hold no 255, whose window bytes are below
128 and whose name is not empty, and no other unless two bytes 255 stand side by side in the block
of another option. -/
theorem telnetNegotiate_returns_iff (c : Client) (ch : UInt8) :
    (c.Plain → (telnetNegotiate ch (c.bytes.map some)).2 = .stopped c.answer) ∧
      (¬ c.Adjoining →
        ((telnetNegotiate ch (c.bytes.map some)).2 = .stopped c.answer ↔ c.Plain)) := by
  change (_ → run step (loopHead ch .none []) (c.bytes.map some) = .stopped c.answer) ∧
    (_ → (run step (loopHead ch .none []) (c.bytes.map some) = .stopped c.answer ↔ _))
  constructor
  · intro hplain
    exact (returns_iff_plain c (fun m hm => (hplain.1 m hm).undoubled) ch).mpr hplain
  · intro hadjoining
    by_cases hundoubled : ∀ m ∈ c.messages, m.Undoubled
    · exact returns_iff_plain c hundoubled ch
    · have hno : run step (loopHead ch .none []) (c.bytes.map some) ≠ .stopped c.answer := by
        obtain ⟨pre, m, post, heq, hpre, hm⟩ := exists_first hundoubled
        exact run_doubled c hadjoining heq hpre hm ch
      have hplain : ¬ c.Plain := fun hplain =>
        hundoubled (fun m hm => (hplain.1 m hm).undoubled)
      exact iff_of_false hno hplain

def wideTerminal : Client := ⟨[.command .will NAWS, .naws 0 200 0 50], ascii "XTERM", by decide⟩

theorem telnetNegotiate_wideTerminal :
    (telnetNegotiate 0 (wideTerminal.bytes.map some)).2 =
        .stopped (.returned (ascii "xterm" ++ [0]) 50 (-56)) ∧
      wideTerminal.answer = .returned (ascii "xterm" ++ [0]) 50 200 := by
  decide +kernel

end Negotiation

end Comodoo.TelnetClient
