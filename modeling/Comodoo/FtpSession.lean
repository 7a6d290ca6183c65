import Comodoo.FtpPassive
import Comodoo.FtpResponse
import Comodoo.HttpRedirect
import Comodoo.RequestBuffers
import Comodoo.SystemCalls

set_option autoImplicit false

/-!
# Files over FTP

`ftpCommand`, `getHostAddress`, `ftpOpen` and `ftpGetFileDesc` of `stage-1/ftp.c`, the FTP branches
of `urlinstStartTransfer` and `urlinstFinishTransfer` of `stage-1/urls.c`, and what
`loadSingleUrlImage` and `getFileFromUrl` of `stage-1/urlinstall.c` do with them.
-/
namespace Comodoo.FtpSession
open CString DecimalText HttpHeaders HttpRedirect InetText SystemCalls

abbrev FTPERR_BAD_HOST_ADDR : ℤ := -4
abbrev FTPERR_BAD_HOSTNAME : ℤ := -5
abbrev FTPERR_PASSIVE_ERROR : ℤ := -8
abbrev FTPERR_FAILED_DATA_CONNECT : ℤ := -9
abbrev IPPORT_FTP : ℤ := 21
abbrev bar : UInt8 := 0x7c

inductive Family where
  | inet
  | inet6
  deriving DecidableEq, Repr

inductive HostAddress where
  | inet (address : InAddr)
  | inet6 (address : In6Addr)
  deriving DecidableEq, Repr

/-- The address is `none` where nothing was written into it. -/
structure SockAddr where
  family : Family
  port : ℕ
  address : Option HostAddress
  deriving DecidableEq, Repr

/-- What `ftpCheckResponse` returns: its code, and the line `*str` points to with what the buffer
holds in front of it. -/
structure Reply where
  rc : ℤ
  before : Str
  text : Str
  rc_nonpos : rc ≤ 0
  deriving DecidableEq

theorem ftpCheckResponse_nonpos {fuel : ℕ} {buf buf' : ByteMemory.Mem}
    {rounds : List FtpResponse.Round} {rc : ℤ} {str : Option Str}
    (h : FtpResponse.ftpCheckResponse fuel buf rounds = .returned rc str buf') : rc ≤ 0 := by
  have hfinish : ∀ (r : FtpResponse.Response) (code : ℤ), code ≤ 0 →
      FtpResponse.finish r code = .returned rc str buf' → rc ≤ 0 := by
    intro r code hcode hr
    unfold FtpResponse.finish at hr
    dsimp only at hr
    split at hr
    · split at hr
      · cases hr; decide
      · split at hr <;> cases hr <;> decide
    · cases hr; exact hcode
  unfold FtpResponse.ftpCheckResponse at h
  generalize (⟨buf, 0, [], true, none⟩ : FtpResponse.Response) = r at h
  induction fuel generalizing r rounds with
  | zero => cases h
  | succ fuel ih =>
    cases rounds with
    | nil => cases h
    | cons round rounds =>
      cases round with
      | timeout => cases h; decide
      | selectFailed res =>
        rw [FtpResponse.responseLoop] at h
        split at h
        · cases h
        · exact hfinish _ _ (by decide) h
      | ready res =>
        rw [FtpResponse.responseLoop] at h
        split at h
        · cases h
        · split at h
          · exact ih _ h
          · exact hfinish _ _ (Int.le_refl 0) h

inductive Call where
  | gethostbyname (name : Str)
  /-- `getpwuid(getuid())`, unless root asks. -/
  | pwName
  | socket (family : Family)
  | connect (fd : ℕ) (target : SockAddr)
  /-- `O_NONBLOCK` -/
  | fcntl (fd : ℕ)
  | write (fd : ℕ) (text : Str)
  | checkResponse (fd : ℕ)
  | close (fd : ℕ)
  | copyFile (fd : ℕ) (dest : Str)
  | unlink (path : Str)
  deriving DecidableEq, Repr

/-- `write` answers whether everything was written. -/
def Answer : Call → Type
  | .gethostbyname _ => Option (Family × HostAddress)
  | .pwName => Option Str
  | .socket _ => Option ℕ
  | .connect _ _ | .fcntl _ | .write _ _ => Bool
  | .checkResponse _ => Reply
  | .close _ | .unlink _ => Unit
  | .copyFile _ _ => ℤ

/-- `died` is a fault or an `abort`. -/
inductive Result (α : Type) where
  | died
  | failed (rc : ℤ)
  | done (a : α)
  deriving DecidableEq, Repr

abbrev Program := Prog Call Answer

def gethostbyname (name : Str) : Program (Option (Family × HostAddress)) :=
  perform (Call.gethostbyname name)

def pwName : Program (Option Str) := perform Call.pwName

def socket (family : Family) : Program (Option ℕ) := perform (Call.socket family)

def connect (fd : ℕ) (target : SockAddr) : Program Bool := perform (Call.connect fd target)

def fcntl (fd : ℕ) : Program Bool := perform (Call.fcntl fd)

def write (fd : ℕ) (text : Str) : Program Bool := perform (Call.write fd text)

def ftpCheckResponse (fd : ℕ) : Program Reply := perform (Call.checkResponse fd)

def close (fd : ℕ) : Program Unit := perform (Call.close fd)

def copyFileFd (fd : ℕ) (dest : Str) : Program ℤ := perform (Call.copyFile fd dest)

def unlink (path : Str) : Program Unit := perform (Call.unlink path)

/-- The text of a command: the blank behind the last word becomes CR. -/
def commandLine (command : String) (words : List Str) : Str :=
  let buf := ascii command ++ [0x20] ++ words.flatMap (fun s => s ++ [0x20])
  let len := (ascii command).length + 2 + (words.map (fun s => s.length + 1)).sum
  buf.take (len - 2) ++ [0x0d, 0x0a]

def ftpCommand (sock : ℕ) (command : String) (words : List Str) : Program ℤ := do
  match ← write sock (commandLine command words) with
  | false => pure FTPERR_SERVER_IO_ERROR
  | true => do
    let reply ← ftpCheckResponse sock
    pure reply.rc

def getHostAddress (host : Str) (family : Family) : Program (Result HostAddress) :=
  match splitHostname host with
  | none => pure .died
  | some (hostname, _) =>
    let numeric := match family with
      | .inet => host.head?.any isdigit
      | .inet6 => colon ∈ hostname
    if numeric then
      let address := match family with
        | .inet => (inetPton4 hostname).map HostAddress.inet
        | .inet6 => (inetPton6 hostname).map HostAddress.inet6
      pure (address.elim (.failed FTPERR_BAD_HOST_ADDR) .done)
    else do
      let hostent ← gethostbyname hostname
      pure (hostent.elim (.failed FTPERR_BAD_HOSTNAME) (fun h => .done h.2))

def defaultPassword : Option Str → Program Str
  | some password => pure password
  | none => do
    let name ← pwName
    pure (name.elim (ascii "root@") (fun name => name ++ ascii "@"))

/-- `if (rc) { close(sock); return rc; }` -/
def closeUnless (sock : ℕ) (rc : ℤ) (next : Program (Result ℕ)) : Program (Result ℕ) :=
  if rc ≠ 0 then do
    close sock
    pure (.failed rc)
  else next

def htons (port : ℤ) : ℕ := (port % 65536).toNat

def ftpOpen (host : Str) (family : Family) (name password : Option Str) (port : ℤ) :
    Program (Result ℕ) := do
  let port := if port < 0 then IPPORT_FTP else port
  let password ← defaultPassword password
  match ← getHostAddress host family with
  | .died => pure .died
  | .failed rc => pure (.failed rc)
  | .done address => do
    match ← socket family with
    | none => pure (.failed FTPERR_FAILED_CONNECT)
    | some sock => do
      match ← connect sock ⟨family, htons port, some address⟩ with
      | false => do
        close sock
        pure (.failed FTPERR_FAILED_CONNECT)
      | true => do
        match ← fcntl sock with
        | false => do
          close sock
          pure (.failed FTPERR_FAILED_CONNECT)
        | true => do
          let greeting ← ftpCheckResponse sock
          -- the socket stays open here
          if greeting.rc ≠ 0 then pure (.failed greeting.rc)
          else do
            let rc ← ftpCommand sock "USER" [name.getD (ascii "anonymous")]
            closeUnless sock rc (do
              let rc ← ftpCommand sock "PASS" [password]
              closeUnless sock rc (do
                let rc ← ftpCommand sock "TYPE" [ascii "I"]
                closeUnless sock rc (pure (.done sock))))

/-- The port in the answer to EPSV. -/
def extendedPassive (longBits : ℕ) (reply : Str) : Option ℤ :=
  match strchr FtpPassive.openParen reply with
  | none => none
  | some (_, rest) =>
    let port := (rest.dropWhile (· = bar)).takeWhile (· ≠ bar)
    (FtpPassive.scanInt longBits port).map Prod.fst

/-- Where the data connection goes; `host` is the address the IPv6 branch is given. -/
def dataAddress (longBits : ℕ) (family : Family) (host : Option HostAddress) (reply : Reply) :
    Result SockAddr :=
  match family with
  | .inet =>
    match (FtpPassive.passive longBits reply.before reply.text).outcome with
    | .fault => .died
    | .returned rc => .failed rc
    | .connect address port => .done ⟨.inet, port, some (.inet address)⟩
  | .inet6 =>
    match extendedPassive longBits reply.text with
    | none => .failed FTPERR_PASSIVE_ERROR
    | some port => .done ⟨.inet6, htons port, host⟩

/-- The number in the answer to SIZE, 0 if there is none or it is negative. `%lld` clamps. -/
def replySize (reply : Str) : ℤ :=
  let number := ((reply.dropWhile isspace).dropWhile (fun b => !isspace b)).dropWhile isspace
  if (FtpPassive.afterSign number).head?.any isdigit then
    max 0 (min (2 ^ 63 - 1) (strtolValue number))
  else 0

def passiveCommand : Family → Str
  | .inet => ascii "PASV\r\n"
  | .inet6 => ascii "EPSV\r\n"

/-- The descriptor of the data connection and `*size`. -/
def ftpGetFileDesc (longBits : ℕ) (sock : ℕ) (host : Option HostAddress) (family : Family)
    (remotename : Str) : Program (Result (ℕ × ℤ)) := do
  match ← write sock (passiveCommand family) with
  | false => pure (.failed FTPERR_SERVER_IO_ERROR)
  | true => do
    let passReply ← ftpCheckResponse sock
    if passReply.rc ≠ 0 then pure (.failed FTPERR_PASSIVE_ERROR)
    else match dataAddress longBits family host passReply with
      | .died => pure .died
      | .failed rc => pure (.failed rc)
      | .done address => do
        match ← socket family with
        | none => pure (.failed FTPERR_FAILED_CONNECT)
        | some dataSocket => do
          match ← write sock (RequestBuffers.sizeCommand remotename).text with
          -- the data socket stays open here
          | false => pure (.failed FTPERR_SERVER_IO_ERROR)
          | true => do
            let sizeReply ← ftpCheckResponse sock
            let size := if sizeReply.rc ≠ 0 then 0 else replySize sizeReply.text
            match ← write sock (RequestBuffers.retrCommand remotename).text with
            -- and here
            | false => pure (.failed FTPERR_SERVER_IO_ERROR)
            | true => do
              match ← connect dataSocket address with
              | false => do
                close dataSocket
                pure (.failed FTPERR_FAILED_DATA_CONNECT)
              | true => do
                let reply ← ftpCheckResponse sock
                if reply.rc ≠ 0 then do
                  close dataSocket
                  pure (.failed reply.rc)
                else pure (.done (dataSocket, size))

/-- What `urlinstStartTransfer` finds out about the host: its family, and the address that goes to
`ftpGetFileDesc`. -/
def hostFamily (hostname : Str) : Program (Option (Family × Option HostAddress)) :=
  match inetPton4 hostname, inetPton6 hostname with
  | some _, _ => pure (some (.inet, none))
  | none, some address => pure (some (.inet6, some (.inet6 address)))
  | none, none => do
    let host ← gethostbyname hostname
    pure (host.map (fun h => (h.1, none)))

/-- A transfer that has been started: `ui->ftpPort`, the descriptor returned and the size. -/
structure Transfer where
  ftpPort : ℕ
  fd : ℕ
  size : ℤ
  deriving DecidableEq, Repr

structure Ui where
  address : Str
  login : Option Str
  password : Option Str

def urlinstStartTransfer (longBits : ℕ) (ui : Ui) (path : Str) : Program (Result Transfer) :=
  match splitHostname ui.address with
  | none => pure .died
  | some (hostname, portstr) =>
    if portstr.any (numberAborts longBits) then pure .died
    else do
      let port := portstr.elim (-1) (strtolInt longBits)
      match ← hostFamily hostname with
      | none => pure (.failed (-1))
      | some (family, address) => do
        match ← ftpOpen hostname family (some (ui.login.getD (ascii "anonymous")))
            (some (ui.password.getD (ascii "rhinstall@"))) port with
        | .died => pure .died
        | .failed _ => pure (.failed (-2))
        | .done sock => do
          match ← ftpGetFileDesc longBits sock address family path with
          | .died => pure .died
          | .failed _ => do
            close sock
            pure (.failed (-1))
          | .done (fd, size) =>
            -- the name behind the last slash is shown to the user
            match strrchr Urls.slash path with
            | none => pure .died
            | some _ => pure (.done ⟨sock, fd, size⟩)

def urlinstFinishTransfer (transfer : Transfer) : Program ℤ := do
  close transfer.ftpPort
  close transfer.fd
  pure 0

/-- The end of `getFileFromUrl`. -/
def getFileFromUrl (longBits : ℕ) (ui : Ui) (file dest : Str) : Program (Result ℤ) := do
  match ← urlinstStartTransfer longBits ui file with
  | .died => pure .died
  | .failed _ => pure (.done 1)
  | .done transfer => do
    let rc ← copyFileFd transfer.fd dest
    if rc ≠ 0 then do
      unlink dest
      pure (.done 1)
    else do
      let _ ← urlinstFinishTransfer transfer
      pure (.done 0)

/-- How far the control connection has come: `ready` after so many commands, `sent` in front of
the reply to one. -/
inductive Phase where
  | unconnected
  | greeting (sock : ℕ) (family : Family)
  | ready (sock : ℕ) (family : Family) (done : ℕ)
  | sent (sock : ℕ) (family : Family) (k : ℕ)
  | refused
  | unsent (k : ℕ)
  | over
  deriving DecidableEq, Repr

def commands (ui : Ui) (path : Str) (family : Family) : List Str :=
  [commandLine "USER" [ui.login.getD (ascii "anonymous")],
    commandLine "PASS" [ui.password.getD (ascii "rhinstall@")], commandLine "TYPE" [ascii "I"],
    passiveCommand family, (RequestBuffers.sizeCommand path).text,
    (RequestBuffers.retrCommand path).text]

/-- The place of SIZE, whose reply does not matter. -/
abbrev sizePlace : ℕ := 4

/-- Lockstep: on the control connection a command is written only when the one before has been
answered, and favourably unless it was SIZE. -/
def lockstep (commands : Family → List Str) : Monitor Answer Phase
  | .unconnected, .socket family, some sock => some (.greeting sock family)
  | .greeting sock family, .checkResponse fd, reply =>
    if fd = sock then some (if reply.rc = 0 then .ready sock family 0 else .refused) else none
  | .ready sock family k, .write fd text, ok =>
    if fd = sock ∧ (commands family)[k]? = some text then
      some (cond ok (.sent sock family k) (.unsent k))
    else none
  | .sent sock family k, .checkResponse fd, reply =>
    if fd = sock then
      some (if reply.rc = 0 ∨ k = sizePlace then .ready sock family (k + 1) else .over)
    else none
  | _, .checkResponse _, _ => none
  | _, .write _ _, _ => none
  | phase, _, _ => some phase

def descriptor : (c : Call) → Answer c → Effect ℕ
  | .socket _, some fd => .gain fd
  | .close fd, _ => .loss fd
  | _, _ => .keep

def leaked : Phase → ℕ
  | .refused => 1
  | .unsent k => if sizePlace ≤ k then 1 else 0
  | _ => 0

section Lines

variable {ui : Ui} {path : Str}

theorem trailing_blank (command : Str) (words : List Str) :
    command ++ [0x20] ++ words.flatMap (fun s => s ++ [0x20]) =
      command ++ words.flatMap (fun s => 0x20 :: s) ++ [0x20] := by
  induction words generalizing command with
  | nil => rw [List.flatMap_nil, List.flatMap_nil, List.append_nil, List.append_nil]
  | cons w words ih =>
    have h := ih (command ++ 0x20 :: w)
    simp only [List.flatMap_cons, List.append_assoc, List.cons_append, List.nil_append] at h ⊢
    exact h

/-- The words with a blank in front of each, and the end of the line. -/
theorem commandLine_eq (command : String) (words : List Str) :
    commandLine command words =
      ascii command ++ words.flatMap (fun s => 0x20 :: s) ++ [0x0d, 0x0a] := by
  have hsum : (words.map (fun s => s.length + 1)).sum =
      (words.flatMap (fun s => 0x20 :: s)).length := by
    rw [List.length_flatMap]
    rfl
  have hlen : (ascii command).length + 2 + (words.map (fun s => s.length + 1)).sum - 2 =
      (ascii command ++ words.flatMap (fun s => 0x20 :: s)).length := by
    rw [hsum, List.length_append]
    omega
  dsimp only [commandLine]
  rw [hlen, trailing_blank, List.take_left]

/-- One line of the control connection. -/
def OneLine (text : Str) : Prop :=
  ∃ line, text = line ++ [0x0d, 0x0a] ∧ (0x0d : UInt8) ∉ line ∧ (0x0a : UInt8) ∉ line

def NoLineEnd (s : Str) : Prop := (0x0d : UInt8) ∉ s ∧ (0x0a : UInt8) ∉ s

instance (s : Str) : Decidable (NoLineEnd s) := inferInstanceAs (Decidable (_ ∧ _))

theorem noLineEnd_append {s t : Str} : NoLineEnd (s ++ t) ↔ NoLineEnd s ∧ NoLineEnd t := by
  simp only [NoLineEnd, List.mem_append, not_or]
  tauto

theorem oneLine_append (s : Str) : OneLine (s ++ [0x0d, 0x0a]) ↔ NoLineEnd s := by
  constructor
  · rintro ⟨line, h, hline⟩
    rw [List.append_cancel_right h]
    exact hline
  · intro h
    exact ⟨s, rfl, h⟩

theorem oneLine_word {command : String} (h : NoLineEnd (ascii command)) (word : Str) :
    OneLine (commandLine command [word]) ↔ NoLineEnd word := by
  have hblank : NoLineEnd [0x20] := by decide
  rw [commandLine_eq, oneLine_append, noLineEnd_append, List.flatMap_singleton,
    ← List.singleton_append, noLineEnd_append]
  tauto

theorem oneLine_request {name : String} (h : NoLineEnd (ascii name)) :
    OneLine (RequestBuffers.ftpCommand name path).text ↔ NoLineEnd path := by
  have htext : (RequestBuffers.ftpCommand name path).text = ascii name ++ path ++ [0x0d, 0x0a] := by
    change [ascii name, path, ascii "\r\n"].flatten = _
    simp [ascii]
  rw [htext, oneLine_append, noLineEnd_append]
  tauto

/-- Every command of a session is one line exactly when the login, the password and the path have
no line ends in them. -/
theorem commands_oneLine_iff (family : Family) :
    (∀ text ∈ commands ui path family, OneLine text) ↔
      NoLineEnd (ui.login.getD []) ∧ NoLineEnd (ui.password.getD []) ∧ NoLineEnd path := by
  have hlogin : NoLineEnd (ui.login.getD (ascii "anonymous")) ↔ NoLineEnd (ui.login.getD []) := by
    cases ui.login with
    | none => exact ⟨fun _ => by decide, fun _ => by decide⟩
    | some login => rfl
  have hpassword :
      NoLineEnd (ui.password.getD (ascii "rhinstall@")) ↔ NoLineEnd (ui.password.getD []) := by
    cases ui.password with
    | none => exact ⟨fun _ => by decide, fun _ => by decide⟩
    | some password => rfl
  have hpassive : OneLine (passiveCommand family) := by
    cases family with
    | inet => exact ⟨ascii "PASV", rfl, by decide⟩
    | inet6 => exact ⟨ascii "EPSV", rfl, by decide⟩
  have htype : OneLine (commandLine "TYPE" [ascii "I"]) :=
    (oneLine_word (by decide) _).mpr (by decide)
  simp only [commands, List.forall_mem_cons, List.not_mem_nil, false_implies, implies_true, and_true]
  rw [oneLine_word (by decide), oneLine_word (by decide), RequestBuffers.sizeCommand,
    RequestBuffers.retrCommand, oneLine_request (by decide), oneLine_request (by decide), hlogin,
    hpassword]
  tauto

end Lines

def finished : Phase → Bool
  | .ready _ _ k => k = 6
  | _ => false

section Session

variable {ui : Ui} {path : Str} {sock k : ℕ} {family : Family} {held : Multiset ℕ}

abbrev session (ui : Ui) (path : Str) : Monitor Answer (Phase × Multiset ℕ) :=
  both (lockstep (commands ui path)) (holding descriptor)

theorem session_step {p p' : Phase} {held' : Multiset ℕ} {c : Call} {r : Answer c}
    (hp : lockstep (commands ui path) p c r = some p')
    (hheld : holding descriptor held c r = some held') :
    session ui path (p, held) c r = some (p', held') := by
  simp only [both, hp, hheld, Option.bind_some, Option.map_some]

theorem session_write {text : Str} (hk : (commands ui path family)[k]? = some text) (ok : Bool) :
    session ui path (.ready sock family k, held) (.write sock text) ok =
      some (cond ok (.sent sock family k) (.unsent k), held) := by
  apply session_step
  · change (if sock = sock ∧ _ then _ else _) = _
    rw [if_pos ⟨rfl, hk⟩]
  · rfl

theorem session_response (reply : Reply) :
    session ui path (.sent sock family k, held) (.checkResponse sock) reply =
      some (if reply.rc = 0 ∨ k = sizePlace then .ready sock family (k + 1) else .over, held) := by
  apply session_step
  · change (if sock = sock then _ else _) = _
    rw [if_pos rfl]
  · rfl

theorem accepts_ftpCommand {command : String} {words : List Str} {Q : ℤ → Phase × Multiset ℕ → Prop}
    (hk : (commands ui path family)[k]? = some (commandLine command words)) (hsize : k ≠ sizePlace)
    (hunsent : Q FTPERR_SERVER_IO_ERROR (.unsent k, held))
    (hgood : Q 0 (.ready sock family (k + 1), held))
    (hbad : ∀ rc, rc ≠ 0 → Q rc (.over, held)) :
    Accepts (session ui path) (.ready sock family k, held) (ftpCommand sock command words) Q := by
  apply accepts_perform_bind
  intro ok
  refine ⟨_, session_write hk ok, ?_⟩
  cases ok with
  | false => exact (accepts_pure _).mpr hunsent
  | true =>
    apply accepts_perform_bind
    intro reply
    refine ⟨_, session_response reply, (accepts_pure _).mpr ?_⟩
    by_cases hrc : reply.rc = 0
    · rw [if_pos (Or.inl hrc), hrc]
      exact hgood
    · rw [if_neg (by simp [hrc, hsize])]
      exact hbad _ hrc

theorem accepts_getHostAddress {host : Str} {Q : Result HostAddress → Phase × Multiset ℕ → Prop}
    (h : ∀ r, Q r (.unconnected, held)) :
    Accepts (session ui path) (.unconnected, held) (getHostAddress host family) Q := by
  unfold getHostAddress
  split
  · exact (accepts_pure _).mpr (h _)
  · cases family with
    | inet | inet6 =>
      dsimp only
      split
      · exact (accepts_pure _).mpr (h _)
      · apply accepts_perform_bind
        intro r
        exact ⟨_, rfl, (accepts_pure _).mpr (h _)⟩

theorem accepts_hostFamily {hostname : Str}
    {Q : Option (Family × Option HostAddress) → Phase × Multiset ℕ → Prop}
    (h : ∀ r, Q r (.unconnected, held)) :
    Accepts (session ui path) (.unconnected, held) (hostFamily hostname) Q := by
  unfold hostFamily
  split
  · exact (accepts_pure _).mpr (h _)
  · exact (accepts_pure _).mpr (h _)
  · apply accepts_perform_bind
    intro r
    exact ⟨_, rfl, (accepts_pure _).mpr (h _)⟩

def Opened (family : Family) : Result ℕ → Phase × Multiset ℕ → Prop
  | .died, _ => True
  | .failed _, s => finished s.1 = false ∧ s.2.card = leaked s.1
  | .done sock, s => s = (.ready sock family 3, {sock})

theorem accepts_close {α : Type} {f : Unit → Program α} {p : Phase}
    {Q : α → Phase × Multiset ℕ → Prop}
    (hp : lockstep (commands ui path) p (.close sock) () = some p)
    (h : Accepts (session ui path) (p, held) (f ()) Q) :
    Accepts (session ui path) (p, sock ::ₘ held) (close sock >>= f) Q := by
  apply accepts_perform_bind
  intro r
  refine ⟨(p, held), session_step hp ?_, h⟩
  change (if sock ∈ sock ::ₘ held then some ((sock ::ₘ held).erase sock) else none) = some held
  rw [if_pos (Multiset.mem_cons_self _ _), Multiset.erase_cons_head]

theorem accepts_login {command : String} {words : List Str} {next : Program (Result ℕ)}
    (hk : (commands ui path family)[k]? = some (commandLine command words)) (hlt : k < sizePlace)
    (hnext : Accepts (session ui path) (.ready sock family (k + 1), {sock}) next (Opened family)) :
    Accepts (session ui path) (.ready sock family k, {sock})
      (ftpCommand sock command words >>= fun rc => closeUnless sock rc next) (Opened family) := by
  have hclose : ∀ (p : Phase) (rc : ℤ), rc ≠ 0 → finished p = false → leaked p = 0 →
      lockstep (commands ui path) p (.close sock) () = some p →
      Accepts (session ui path) (p, {sock}) (closeUnless sock rc next) (Opened family) := by
    intro p rc hrc hp hleak hstep
    rw [closeUnless, if_pos hrc]
    exact accepts_close hstep ((accepts_pure _).mpr ⟨hp, hleak.symm⟩)
  apply accepts_bind
  apply accepts_ftpCommand hk (Nat.ne_of_lt hlt)
  · exact hclose _ _ (by decide) rfl (if_neg (by omega)) rfl
  · exact hnext
  · intro rc hrc
    exact hclose _ _ hrc rfl rfl rfl

theorem accepts_ftpOpen {host : Str} {port : ℤ} :
    Accepts (session ui path) (.unconnected, 0)
      (ftpOpen host family (some (ui.login.getD (ascii "anonymous")))
        (some (ui.password.getD (ascii "rhinstall@"))) port) (Opened family) := by
  apply accepts_bind
  rw [defaultPassword, accepts_pure]
  apply accepts_bind
  apply accepts_getHostAddress
  intro address
  have hfail : ∀ rc, Opened family (.failed rc) (.unconnected, 0) := fun rc => ⟨rfl, rfl⟩
  cases address with
  | died => exact (accepts_pure _).mpr trivial
  | failed rc => exact (accepts_pure _).mpr (hfail rc)
  | done address =>
    apply accepts_perform_bind
    intro fd
    cases fd with
    | none => exact ⟨_, rfl, (accepts_pure _).mpr (hfail _)⟩
    | some sock =>
      have hclosed : ∀ rc, Accepts (session ui path) (.greeting sock family, {sock})
          (close sock >>= fun _ => pure (.failed rc)) (Opened family) := by
        intro rc
        apply accepts_close rfl
        exact (accepts_pure _).mpr ⟨rfl, rfl⟩
      refine ⟨(.greeting sock family, {sock}), rfl, ?_⟩
      apply accepts_perform_bind
      intro ok
      refine ⟨_, rfl, ?_⟩
      cases ok with
      | false => exact hclosed _
      | true =>
        apply accepts_perform_bind
        intro ok
        refine ⟨_, rfl, ?_⟩
        cases ok with
        | false => exact hclosed _
        | true =>
          apply accepts_perform_bind
          intro greeting
          by_cases hrc : greeting.rc = 0
          · refine ⟨(.ready sock family 0, {sock}), ?_, ?_⟩
            · apply session_step
              · change (if sock = sock then _ else _) = _
                rw [if_pos rfl, if_pos hrc]
              · rfl
            rw [if_neg (by simp [hrc])]
            apply accepts_login rfl (by decide)
            apply accepts_login rfl (by decide)
            apply accepts_login rfl (by decide)
            exact (accepts_pure _).mpr rfl
          · refine ⟨(.refused, {sock}), ?_, ?_⟩
            · apply session_step
              · change (if sock = sock then _ else _) = _
                rw [if_pos rfl, if_neg hrc]
              · rfl
            rw [if_pos hrc]
            exact (accepts_pure _).mpr ⟨rfl, rfl⟩

def Fetched (sock : ℕ) (family : Family) : Result (ℕ × ℤ) → Phase × Multiset ℕ → Prop
  | .died, _ => True
  | .failed _, s => finished s.1 = false ∧ ∃ rest, s.2 = sock ::ₘ rest ∧ rest.card = leaked s.1
  | .done (fd, _), s => s = (.ready sock family 6, fd ::ₘ {sock})

theorem accepts_ftpGetFileDesc {longBits : ℕ} {host : Option HostAddress} :
    Accepts (session ui path) (.ready sock family 3, {sock})
      (ftpGetFileDesc longBits sock host family path) (Fetched sock family) := by
  have hfail : ∀ (p : Phase) (rc : ℤ), finished p = false → leaked p = 0 →
      Fetched sock family (.failed rc) (p, {sock}) :=
    fun p rc hp hleak => ⟨hp, 0, rfl, hleak.symm⟩
  apply accepts_perform_bind
  intro ok
  refine ⟨_, session_write rfl ok, ?_⟩
  cases ok with
  | false => exact (accepts_pure _).mpr (hfail _ _ rfl rfl)
  | true =>
    apply accepts_perform_bind
    intro passReply
    refine ⟨_, session_response passReply, ?_⟩
    by_cases hpass : passReply.rc = 0
    swap
    · rw [if_neg (by simp [hpass]), if_pos hpass]
      exact (accepts_pure _).mpr (hfail _ _ rfl rfl)
    rw [if_pos (Or.inl hpass), if_neg (not_not.mpr hpass)]
    cases dataAddress longBits family host passReply with
    | died => exact (accepts_pure _).mpr trivial
    | failed rc => exact (accepts_pure _).mpr (hfail _ _ rfl rfl)
    | done address =>
      apply accepts_perform_bind
      intro fd
      cases fd with
      | none => exact ⟨_, rfl, (accepts_pure _).mpr (hfail _ _ rfl rfl)⟩
      | some dataSocket =>
        refine ⟨(.ready sock family 4, dataSocket ::ₘ {sock}), rfl, ?_⟩
        have hleft : ∀ k rc, sizePlace ≤ k →
            Fetched sock family (.failed rc) (.unsent k, dataSocket ::ₘ {sock}) := by
          intro k rc hk
          refine ⟨rfl, {dataSocket}, Multiset.cons_swap dataSocket sock 0, ?_⟩
          rw [leaked, if_pos hk]
          rfl
        apply accepts_perform_bind
        intro ok
        refine ⟨_, session_write rfl ok, ?_⟩
        cases ok with
        | false => exact (accepts_pure _).mpr (hleft _ _ (by decide))
        | true =>
          apply accepts_perform_bind
          intro sizeReply
          refine ⟨_, session_response sizeReply, ?_⟩
          rw [if_pos (Or.inr rfl)]
          apply accepts_perform_bind
          intro ok
          refine ⟨_, session_write rfl ok, ?_⟩
          cases ok with
          | false => exact (accepts_pure _).mpr (hleft _ _ (by decide))
          | true =>
            apply accepts_perform_bind
            intro ok
            refine ⟨(.sent sock family 5, dataSocket ::ₘ {sock}), rfl, ?_⟩
            cases ok with
            | false =>
              apply accepts_close rfl
              exact (accepts_pure _).mpr (hfail _ _ rfl rfl)
            | true =>
              apply accepts_perform_bind
              intro reply
              refine ⟨_, session_response reply, ?_⟩
              by_cases hrc : reply.rc = 0
              · rw [if_pos (Or.inl hrc), if_neg (not_not.mpr hrc)]
                exact (accepts_pure _).mpr rfl
              · rw [if_neg (by simp [hrc]), if_pos hrc]
                apply accepts_close rfl
                exact (accepts_pure _).mpr (hfail _ _ rfl rfl)

theorem lockstep_close (p : Phase) :
    lockstep (commands ui path) p (.close sock) () = some p := by
  cases p <;> rfl

def Started : Result Transfer → Phase × Multiset ℕ → Prop
  | .died, _ => True
  | .failed _, s => finished s.1 = false ∧ s.2.card = leaked s.1
  | .done t, s => (∃ family, s.1 = .ready t.ftpPort family 6) ∧ s.2 = t.fd ::ₘ {t.ftpPort}

theorem accepts_urlinstStartTransfer {longBits : ℕ} :
    Accepts (session ui path) (.unconnected, 0) (urlinstStartTransfer longBits ui path)
      Started := by
  unfold urlinstStartTransfer
  split
  · exact (accepts_pure _).mpr trivial
  split
  · exact (accepts_pure _).mpr trivial
  apply accepts_bind
  apply accepts_hostFamily
  intro host
  cases host with
  | none => exact (accepts_pure _).mpr ⟨rfl, rfl⟩
  | some host =>
    apply accepts_bind
    apply accepts_ftpOpen.imp
    intro r s hopened
    cases r with
    | died => exact (accepts_pure _).mpr trivial
    | failed rc => exact (accepts_pure _).mpr hopened
    | done sock =>
      cases hopened
      apply accepts_bind
      apply accepts_ftpGetFileDesc.imp
      intro r s hfetched
      cases r with
      | died => exact (accepts_pure _).mpr trivial
      | failed rc =>
        obtain ⟨p, held⟩ := s
        obtain ⟨hp, rest, hheld, hcard⟩ := hfetched
        change held = sock ::ₘ rest at hheld
        rw [hheld]
        apply accepts_close (lockstep_close p)
        exact (accepts_pure _).mpr ⟨hp, hcard⟩
      | done found =>
        cases hfetched
        dsimp only
        split
        · exact (accepts_pure _).mpr trivial
        · exact (accepts_pure _).mpr ⟨⟨_, rfl⟩, rfl⟩

def Settled : Result ℤ → Phase × Multiset ℕ → Prop
  | .done rc, s =>
    if rc = 0 then finished s.1 = true ∧ s.2 = 0
    else s.2.card = if finished s.1 then 2 else leaked s.1
  | _, _ => True

theorem accepts_getFileFromUrl {longBits : ℕ} {dest : Str} :
    Accepts (session ui path) (.unconnected, 0) (getFileFromUrl longBits ui path dest)
      Settled := by
  apply accepts_bind
  apply accepts_urlinstStartTransfer.imp
  intro r s hstarted
  cases r with
  | died => exact (accepts_pure _).mpr trivial
  | failed rc =>
    apply (accepts_pure _).mpr
    rw [Settled, if_neg (by decide), if_neg (by simp [hstarted.1])]
    exact hstarted.2
  | done transfer =>
    obtain ⟨p, held⟩ := s
    obtain ⟨⟨family, hp⟩, hheld⟩ := hstarted
    dsimp only at hp hheld
    subst hp hheld
    apply accepts_perform_bind
    intro rc
    refine ⟨(.ready transfer.ftpPort family 6, transfer.fd ::ₘ {transfer.ftpPort}), rfl, ?_⟩
    split
    · apply accepts_perform_bind
      intro r
      refine ⟨(.ready transfer.ftpPort family 6, transfer.fd ::ₘ {transfer.ftpPort}), rfl, ?_⟩
      exact (accepts_pure _).mpr rfl
    · have hswap : transfer.fd ::ₘ ({transfer.ftpPort} : Multiset ℕ) =
          transfer.ftpPort ::ₘ {transfer.fd} := Multiset.cons_swap _ _ 0
      rw [hswap]
      apply accepts_bind
      apply accepts_close rfl
      apply accepts_close rfl
      rw [accepts_pure, accepts_pure]
      exact ⟨rfl, rfl⟩

end Session

section Runs

variable {longBits : ℕ} {ui : Ui} {path dest : Str} {t : List (Event Answer)}

/-- A transfer is started exactly when the whole dialogue has been gone through, and the dialogue is
in lockstep in any case. -/
theorem urlinstStartTransfer_lockstep {r : Result Transfer}
    (h : Runs (urlinstStartTransfer longBits ui path) t r) :
    ∃ phase, watch (lockstep (commands ui path)) .unconnected t = some phase ∧
      (r ≠ .died → ((∃ transfer, r = .done transfer) ↔ finished phase = true)) := by
  obtain ⟨s, hw, hstarted⟩ := accepts_urlinstStartTransfer t r h
  refine ⟨s.1, (watch_both hw).1, ?_⟩
  intro hdied
  cases r with
  | died => exact absurd rfl hdied
  | failed rc => simp [hstarted.1]
  | done transfer =>
    obtain ⟨⟨family, hp⟩, -⟩ := hstarted
    simp [hp, finished]

/-- The sockets that `getFileFromUrl` leaves open: none when it succeeds, both when the copy fails,
and one when the greeting is refused or SIZE or RETR cannot be written. What it closes is open. -/
theorem getFileFromUrl_descriptors {r : Result ℤ}
    (h : Runs (getFileFromUrl longBits ui path dest) t r) :
    ∃ phase held, watch (lockstep (commands ui path)) .unconnected t = some phase ∧
      watch (holding descriptor) 0 t = some held ∧
      ∀ rc, r = .done rc →
        (rc = 0 → finished phase = true ∧ held = 0) ∧
        (rc ≠ 0 → held.card = if finished phase then 2 else leaked phase) := by
  obtain ⟨s, hw, hsettled⟩ := accepts_getFileFromUrl t r h
  refine ⟨s.1, s.2, (watch_both hw).1, (watch_both hw).2, ?_⟩
  rintro rc rfl
  constructor
  · intro hrc
    rwa [Settled, if_pos hrc] at hsettled
  · intro hrc
    rwa [Settled, if_neg hrc] at hsettled

/-- A server that is favourable throughout, and a network that lets everything through. -/
def favourable : List (Event Answer) → (c : Call) → Answer c
  | _, .gethostbyname _ => some (.inet, .inet ⟨10, 0, 0, 1⟩)
  | _, .pwName => none
  | past, .socket _ => some past.length
  | _, .connect _ _ => true
  | _, .fcntl _ => true
  | _, .write _ _ => true
  | _, .checkResponse _ => ⟨0, [], ascii "227 Entering Passive Mode (10,0,0,1,4,1)", by decide⟩
  | _, .close _ => ()
  | _, .copyFile _ _ => (0 : ℤ)
  | _, .unlink _ => ()

def mirror : Ui := ⟨ascii "mirror", none, none⟩

theorem urlinstStartTransfer_lockstep_favourable :
    ∃ phase, watch (lockstep (commands mirror (ascii "/ks.cfg"))) .unconnected
        (runWith favourable (urlinstStartTransfer 64 mirror (ascii "/ks.cfg")) []).1 = some phase ∧
      finished phase = true := by
  have hrun := runs_runWith favourable (urlinstStartTransfer 64 mirror (ascii "/ks.cfg")) []
  obtain ⟨phase, hw, hdone⟩ := urlinstStartTransfer_lockstep hrun
  have hresult : (runWith favourable (urlinstStartTransfer 64 mirror (ascii "/ks.cfg")) []).2 =
      .done ⟨2, 14, 0⟩ := by decide +kernel
  rw [hresult] at hdone
  exact ⟨phase, hw, (hdone (by decide)).mp ⟨_, rfl⟩⟩

theorem getFileFromUrl_descriptors_favourable :
    watch (holding descriptor) 0
      (runWith favourable (getFileFromUrl 64 mirror (ascii "/ks.cfg") (ascii "/tmp/ks.cfg")) []).1 =
        some 0 := by
  have hrun := runs_runWith favourable
    (getFileFromUrl 64 mirror (ascii "/ks.cfg") (ascii "/tmp/ks.cfg")) []
  obtain ⟨_, held, -, hw, hdone⟩ := getFileFromUrl_descriptors hrun
  rw [hw, ((hdone 0 (by decide +kernel)).1 rfl).2]

end Runs

end Comodoo.FtpSession
