import Comodoo.CString

set_option autoImplicit false

/-!
# HTTP answers

`read_headers`, `find_header`, `find_status_code` and the part of `httpGetFileDesc` of
`stage-1/ftp.c` that decides what an answer means.
-/
namespace Comodoo.HttpHeaders
open CString

abbrev FTPERR_BAD_SERVER_RESPONSE : ℤ := -1
abbrev FTPERR_SERVER_IO_ERROR : ℤ := -2
abbrev FTPERR_SERVER_TIMEOUT : ℤ := -3
abbrev FTPERR_FAILED_CONNECT : ℤ := -6
abbrev FTPERR_FILE_NOT_FOUND : ℤ := -10
abbrev FTPERR_PERMISSION_DENIED : ℤ := -15

def crlf : Str := [0x0d, 0x0a]

inductive Headers where
  | done (headers : Str)
  | stopped
  | overflow
  deriving DecidableEq, Repr

/-- `read_headers`, one byte at a time. The terminator of the 4096th byte is already written
behind the allocated block, before `realloc` makes it larger. -/
def readHeaders (got : Str) : Str → Headers
  | [] => if (strstr (crlf ++ crlf) (got.takeWhile (· ≠ 0))).isSome then .done got else .stopped
  | b :: bytes =>
    if (strstr (crlf ++ crlf) (got.takeWhile (· ≠ 0))).isSome then .done got
    else if got.length + 1 = 4096 then .overflow
    else readHeaders (got ++ [b]) bytes

def findHeader (headers toFind : Str) : Option Str :=
  match strstr (crlf ++ toFind ++ [0x3a]) headers with
  | none => none
  | some (_, start) => (strstr crlf (start.dropWhile isspace)).map Prod.fst

def findStatusCode (headers : Str) : Option Str :=
  let start := (headers.dropWhile (fun b => !isspace b)).dropWhile isspace
  (strstr crlf start).map Prod.fst

def digitsValue (ds : Str) : ℕ := ds.foldl (fun n d => 10 * n + (d.toNat - 0x30)) 0

def isdigit (b : UInt8) : Bool := 0x30 ≤ b ∧ b ≤ 0x39

/-- `strtoll` in base 10; `none` is `ERANGE`. -/
def strtoll (s : Str) : Option ℤ :=
  let value := fun (ds : Str) => (digitsValue (ds.takeWhile isdigit) : ℤ)
  let v := match s.dropWhile isspace with
    | 0x2d :: ds => -value ds
    | 0x2b :: ds => value ds
    | ds => value ds
  if -2 ^ 63 ≤ v ∧ v < 2 ^ 63 then some v else none

/-- What the other side does in one attempt: the two address lookups, the socket, the
connection, the bytes it sends and how it stops sending. -/
structure Attempt where
  ipv4 : ℤ
  ipv6 : ℤ
  sock : ℤ
  connects : Bool
  bytes : Str
  timesOut : Bool
  deriving DecidableEq, Repr

/-- `crash` is the overflow of the header block or the `abort` on an impossible length. -/
inductive Reply where
  | ends (rc : ℤ) (size : Option ℤ)
  | redirect (location : Str)
  | crash
  deriving DecidableEq, Repr

def isRedirect (status : Str) : Bool :=
  status.take 3 = ascii "301" ∨ status.take 3 = ascii "302" ∨ status.take 3 = ascii "303" ∨
    status.take 3 = ascii "307"

def answer (sock : ℤ) (headers : Str) : Reply :=
  match findStatusCode headers with
  | none => .ends FTPERR_SERVER_IO_ERROR none
  | some status =>
    if status.take 3 = ascii "200" then
      match findHeader headers (ascii "Content-Length") with
      | none => .ends sock (some 0)
      | some contlen =>
        match strtoll contlen with
        | none => .crash
        | some size => .ends sock (some (if size < 0 then 0 else size))
    else if isRedirect status then
      match findHeader headers (ascii "Location") with
      | none => .ends FTPERR_FILE_NOT_FOUND none
      | some location => .redirect location
    else if status.take 3 = ascii "403" then .ends FTPERR_PERMISSION_DENIED none
    else if status.take 3 = ascii "404" then .ends FTPERR_FILE_NOT_FOUND none
    else .ends FTPERR_BAD_SERVER_RESPONSE none

/-- Everything `httpGetFileDesc` learns from the network in one call. -/
def reply (a : Attempt) : Reply :=
  if a.ipv4 ≠ 0 ∧ a.ipv6 ≠ 0 then .ends a.ipv6 none
  else if a.sock < 0 ∨ a.connects = false then .ends FTPERR_FAILED_CONNECT none
  else
    match readHeaders [] a.bytes with
    | .overflow => .crash
    | .stopped => .ends (if a.timesOut then FTPERR_SERVER_TIMEOUT else FTPERR_SERVER_IO_ERROR) none
    | .done headers => answer a.sock headers

end Comodoo.HttpHeaders
