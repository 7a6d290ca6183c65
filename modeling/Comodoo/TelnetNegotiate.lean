import Comodoo.CString
import Comodoo.StepRun
import Comodoo.TelnetInput
import Comodoo.LoaderArgs

set_option autoImplicit false

/-!
# Telnet negotiation

`telnet_negotiate` of `stage-1/telnet.c`, one step for each `read` of one byte. What `read` returns
is never looked at: at the end of the stream `ch` keeps the byte before.
-/
namespace Comodoo.TelnetNegotiate
open CString StepRun TelnetInput LoaderArgs

abbrev DONT : UInt8 := 0xfe
abbrev WONT : UInt8 := 0xfc
abbrev WILL : UInt8 := 0xfb
abbrev DO : UInt8 := 0xfd
abbrev ECHO : UInt8 := 0x01
abbrev SUPPRESS_GO_AHEAD : UInt8 := 0x03
abbrev TERMINAL_TYPE : UInt8 := 0x18
abbrev NAWS : UInt8 := 0x1f
abbrev LINEMODE : UInt8 := 0x22
abbrev NEWENVIRON : UInt8 := 0x27

/-- What is written to the client before the first `read`. -/
def request : Str :=
  [IAC, DONT, ECHO, IAC, WILL, ECHO, IAC, WILL, NAWS, IAC, WILL, SUPPRESS_GO_AHEAD,
    IAC, DO, SUPPRESS_GO_AHEAD, IAC, DONT, NEWENVIRON, IAC, WONT, NEWENVIRON, IAC, WONT, LINEMODE,
    IAC, DO, NAWS, IAC, SB, TERMINAL_TYPE, 0x01, IAC, SE]

/-- Plain `char` is signed where the loader is built. -/
def plainChar (b : UInt8) : ℤ := if b < 0x80 then b.toNat else b.toNat - 256

inductive SuboptionState where
  | none
  | termType
  | windowSize
  deriving DecidableEq, Repr

/-- The `read` that comes next. Both reads of data bytes are `data`. -/
inductive Point where
  | iac
  | command
  | verb
  | suboption
  | is
  | data
  | se
  deriving DecidableEq, Repr

/-- The variables: `termType` up to `termLength` and `sizeBuf` up to `sizePtr`. -/
structure Negotiation where
  point : Point
  ch : UInt8
  done : Bool
  termType : Str
  termAlloced : ℕ
  state : SuboptionState
  sizeBuf : Str
  deriving DecidableEq, Repr

inductive Outcome where
  | aborted
  | crashed
  | returned (termType : Str) (height width : ℤ)
  deriving DecidableEq, Repr

/-- Height and width, from a full `sizeBuf` only. -/
def windowSize : Str → ℤ × ℤ
  | [w1, w0, h1, h0] =>
    (plainChar h1 * 256 + plainChar h0, plainChar w1 * 256 + plainChar w0)
  | _ => (-1, -1)

/-- The code behind the loop. `termType` is NULL as long as no byte has been stored in it. -/
def finish (t : Negotiation) : Outcome :=
  if t.termAlloced = 0 then .crashed
  else .returned (t.termType ++ [0]) (windowSize t.sizeBuf).1 (windowSize t.sizeBuf).2

/-- `while (!done)`. -/
def again (t : Negotiation) : Status Negotiation Outcome :=
  if t.done then .stopped (finish t) else .running { t with point := .iac }

/-- The body of the data loop. -/
def storeByte (t : Negotiation) : Negotiation :=
  match t.state with
  | .termType =>
    { t with
      termAlloced :=
        if t.termAlloced = t.termType.length then t.termAlloced + 10 else t.termAlloced
      termType := t.termType ++ [tolower t.ch] }
  | .windowSize =>
    if t.sizeBuf.length < 4 then { t with sizeBuf := t.sizeBuf ++ [t.ch] } else t
  | .none => t

def advance (t : Negotiation) : Status Negotiation Outcome :=
  match t.point with
  | .iac => if t.ch ≠ IAC then .stopped .aborted else .running { t with point := .command }
  | .command =>
    if t.ch ≠ SB then .running { t with point := .verb }
    else .running { t with point := .suboption }
  | .verb => again t
  | .suboption =>
    if t.ch = TERMINAL_TYPE then .running { t with state := .termType, point := .is }
    else if t.ch = NAWS then .running { t with state := .windowSize, point := .data }
    else .running { t with state := .none, point := .data }
  | .is => .running { t with done := true, point := .data }
  | .data => if t.ch ≠ IAC then .running (storeByte t) else .running { t with point := .se }
  | .se => again t

/-- `read(socket, &ch, 1)` gives a byte, or none at the end of the stream or on an error. -/
def step (t : Negotiation) (got : Option UInt8) : Status Negotiation Outcome :=
  advance { t with ch := got.getD t.ch }

/-- The head of the outer loop. The name is still empty there. -/
def loopHead (ch : UInt8) (state : SuboptionState) (sizeBuf : Str) : Negotiation :=
  ⟨.iac, ch, false, [], 0, state, sizeBuf⟩

/-- The bytes written, and how far the reads lead; `ch` has no value at first. -/
def telnetNegotiate (ch : UInt8) (reads : List (Option UInt8)) :
    Str × Status Negotiation Outcome :=
  (request, run step (loopHead ch .none []) reads)

end Comodoo.TelnetNegotiate
