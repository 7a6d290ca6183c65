import Comodoo.CString
import Comodoo.ByteMemory

set_option autoImplicit false

/-!
# FTP replies

`ftpCheckResponse` of `stage-1/ftp.c`, with its static buffer as explicit memory.
Each pass appends what `read` returned behind the unfinished line, puts a NUL
there and scans the lines. The scan steps over that NUL and goes on whenever the
byte behind it is not NUL, that is, on bytes left by earlier replies. An access
outside `buf` ends the model with `fault`, and so does `memcpy` on areas that overlap.
-/
namespace Comodoo.FtpResponse
open CString ByteMemory

abbrev BUFFER_SIZE : ℕ := 4096
abbrev LF : UInt8 := 0x0a
abbrev CR : UInt8 := 0x0d
abbrev blank : UInt8 := 0x20
abbrev dash : UInt8 := 0x2d

abbrev FTPERR_BAD_SERVER_RESPONSE : ℤ := -1
abbrev FTPERR_FILE_NOT_FOUND : ℤ := -10
abbrev FTPERR_TOO_MANY_CONNECTIONS : ℤ := -11
abbrev FTPERR_UNKNOWN : ℤ := -100

/-- The variables that live across passes. `errorCode` is a string of at most three bytes and
`str` the address stored through the caller's pointer. -/
structure Response where
  buf : Mem
  bufLength : ℕ
  errorCode : Str
  doesContinue : Bool
  str : Option ℕ

/-- `while (*chptr != '\n' && *chptr) chptr++`. -/
def nextStop (buf : Mem) : ℕ → ℕ → ℕ
  | 0, p => p
  | fuel + 1, p => if buf p = LF ∨ buf p = 0 then p else nextStop buf fuel (p + 1)

/-- The decision on one line, after its end has been overwritten with NULs. -/
def checkLine (r : Response) (start : ℕ) : Option Response :=
  if r.errorCode ≠ [] then
    if strn r.buf start 3 = r.errorCode then
      if BUFFER_SIZE < start + 3 then none
      else if r.buf (start + 3) = blank then some { r with doesContinue := false }
      else some r
    else some r
  else if BUFFER_SIZE < start + 3 then none
  else if r.buf (start + 3) ≠ dash then
    some { r with errorCode := strn r.buf start 3, doesContinue := false }
  else some { r with errorCode := strn r.buf start 3 }

/-- Overwrite the LF at `p`, and a CR before it. -/
def cutLine (buf : Mem) (p : ℕ) : Mem :=
  let buf := Function.update buf p 0
  if buf (p - 1) = CR then Function.update buf (p - 1) 0 else buf

/-- The inner `do ... while (*chptr)`; returns `chptr` and `start`. -/
def scanLines : ℕ → Response → ℕ → ℕ → Option (Response × ℕ × ℕ)
  | 0, _, _, _ => none
  | fuel + 1, r, chptr, start =>
    let p := nextStop r.buf (BUFFER_SIZE + 1 - chptr) chptr
    if BUFFER_SIZE < p then none
    else if r.buf p = LF then
      -- an LF at the very start makes the code look at `buf[-1]`
      if p = 0 then none
      else
        match checkLine { r with buf := cutLine r.buf p, str := some start } start with
        | none => none
        | some r =>
          if BUFFER_SIZE < p + 1 then none
          else if r.buf (p + 1) ≠ 0 then scanLines fuel r (p + 1) (p + 1)
          else some (r, p + 1, p + 1)
    else if BUFFER_SIZE < p + 1 then none
    else if r.buf (p + 1) ≠ 0 then scanLines fuel r (p + 1) start
    else some (r, p + 1, start)

/-- Scan the lines in the buffer and keep the unfinished one. -/
def digest (r : Response) : Option Response :=
  match scanLines (BUFFER_SIZE + 1) r 0 0 with
  | none => none
  | some (r, chptr, start) =>
    if r.doesContinue = true ∧ start < chptr then
      (copyToFront r.buf start (chptr - start - 1)).map (fun buf =>
        { r with buf := buf, bufLength := chptr - start - 1 })
    else some { r with bufLength := 0 }

/-- `read` into the free part of the buffer, with the NUL put behind it. -/
def receive (r : Response) (got : Str) : Response :=
  { r with
    buf := Function.update (store r.buf r.bufLength got) (r.bufLength + got.length) 0,
    bufLength := r.bufLength + got.length }

inductive ReadResult where
  | failed
  | bytes (s : Str)
  deriving DecidableEq, Repr

/-- What `select` and the `read` after it give in one pass; end of file is `bytes []`. -/
inductive Round where
  | timeout
  | selectFailed (r : ReadResult)
  | ready (r : ReadResult)
  deriving DecidableEq, Repr

inductive Outcome where
  | returned (rc : ℤ) (str : Option Str) (buf : Mem)
  | waiting
  | fault

def finish (r : Response) (rc : ℤ) : Outcome :=
  let str := r.str.map (fun start => strn r.buf start (BUFFER_SIZE + 1))
  if r.errorCode.head? = some 0x34 ∨ r.errorCode.head? = some 0x35 then
    if r.errorCode = ascii "421" then .returned FTPERR_TOO_MANY_CONNECTIONS str r.buf
    else if r.errorCode = ascii "550" then .returned FTPERR_FILE_NOT_FOUND str r.buf
    else .returned FTPERR_BAD_SERVER_RESPONSE str r.buf
  else .returned rc str r.buf

/-- The buffer after `read`; a failing one makes the length one less, and from 0 it writes
`buf[-1]`. -/
def readInto (r : Response) : ReadResult → Option Response
  | .failed =>
    if r.bufLength = 0 then none
    else some { r with
      buf := Function.update r.buf (r.bufLength - 1) 0, bufLength := r.bufLength - 1 }
  | .bytes s => some (receive r (s.take (BUFFER_SIZE - r.bufLength)))

/-- Bytes that do not fit stay in the socket for the next `read`. -/
def leftover (r : Response) : ReadResult → List Round
  | .failed => []
  | .bytes s =>
    if s.length ≤ BUFFER_SIZE - r.bufLength then []
    else [.ready (.bytes (s.drop (BUFFER_SIZE - r.bufLength)))]

/-- One pass per unit of fuel. -/
def responseLoop : ℕ → Response → List Round → Outcome
  | 0, _, _ => .waiting
  | _ + 1, _, [] => .waiting
  | _ + 1, r, .timeout :: _ =>
    .returned FTPERR_BAD_SERVER_RESPONSE (r.str.map (fun a => strn r.buf a (BUFFER_SIZE + 1))) r.buf
  | _ + 1, r, .selectFailed res :: _ =>
    match (readInto r res).bind digest with
    | none => .fault
    | some r => finish r FTPERR_UNKNOWN
  | fuel + 1, r, .ready res :: rounds =>
    match (readInto r res).bind digest with
    | none => .fault
    | some r' =>
      if r'.doesContinue then responseLoop fuel r' (leftover r res ++ rounds) else finish r' 0

/-- One call, with what the static buffer holds from earlier ones. -/
def ftpCheckResponse (fuel : ℕ) (buf : Mem) (rounds : List Round) : Outcome :=
  responseLoop fuel ⟨buf, 0, [], true, none⟩ rounds

end Comodoo.FtpResponse
