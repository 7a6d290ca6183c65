import Comodoo.CString
import Comodoo.Urls

set_option autoImplicit false

/-!
# Buffers of the request and URL builders

The sizes computed in `httpGetFileDesc` and `ftpGetFileDesc` of `stage-1/ftp.c` and in
`getLoginName` and `convertUIToURL` of `stage-1/urls.c`, with the strings that are written.
-/
namespace Comodoo.TextBuffer
open CString

/-! ## Buffers that strings are put together in

A buffer has a size and the string that is to stand in it. `strcat` and `sprintf` do not look at
the size, so whether the string and its NUL are inside is a property of its own.
-/

structure Buffer where
  size : ℕ
  text : Str
  deriving DecidableEq, Repr

/-- The last byte written is the NUL. -/
def Fits (b : Buffer) : Prop := b.text.length < b.size

instance (b : Buffer) : Decidable (Fits b) := inferInstanceAs (Decidable (_ < _))

/-- The pieces are the literal parts of the format and the strings put between them. -/
def sprintf (size : ℕ) (pieces : List Str) : Buffer := ⟨size, pieces.flatten⟩

def strcat (b : Buffer) (s : Str) : Buffer := { b with text := b.text ++ s }

def strcats (b : Buffer) : List Str → List Buffer
  | [] => []
  | s :: pieces => strcat b s :: strcats (strcat b s) pieces

theorem fits_of_strcat {b : Buffer} {s : Str} (h : Fits (strcat b s)) : Fits b := by
  change (b.text ++ s).length < b.size at h
  rw [List.length_append] at h
  change b.text.length < b.size
  omega

theorem strcats_fit_iff (b : Buffer) (s : Str) (pieces : List Str) :
    (∀ x ∈ strcats b (s :: pieces), Fits x) ↔ Fits ⟨b.size, b.text ++ (s :: pieces).flatten⟩ := by
  induction pieces generalizing b s with
  | nil => simp [strcats, strcat]
  | cons t pieces ih =>
    rw [strcats, List.forall_mem_cons, ih (strcat b s) t]
    simp only [strcat, List.flatten_cons, List.append_assoc]
    constructor
    · exact fun h => h.2
    · intro h
      refine ⟨?_, h⟩
      apply fits_of_strcat (s := (t ++ pieces.flatten))
      simpa only [strcat, List.append_assoc] using h

theorem strcats_getLast (b : Buffer) (s : Str) (pieces : List Str) :
    (strcats b (s :: pieces)).getLast? = some ⟨b.size, b.text ++ (s :: pieces).flatten⟩ := by
  induction pieces generalizing b s with
  | nil => simp [strcats, strcat]
  | cons t pieces ih =>
    rw [strcats, List.getLast?_cons, ih (strcat b s) t]
    simp [strcat]

end Comodoo.TextBuffer

namespace Comodoo.RequestBuffers
open CString TextBuffer Urls

/-- The request of `httpGetFileDesc`. `extraHeaders` may be NULL. -/
def getRequest (hostname remotename : Str) (extraHeaders : Option Str) : Buffer :=
  let hstr := extraHeaders.getD []
  sprintf (remotename.length + hostname.length + hstr.length + 25)
    [ascii "GET ", remotename, ascii " HTTP/1.0\r\nHost: ", hostname, ascii "\r\n", hstr,
      ascii "\r\n"]

/-- `sizeCommand` and `retrCommand` of `ftpGetFileDesc`. -/
def ftpCommand (name : String) (remotename : Str) : Buffer :=
  sprintf (remotename.length + 20) [ascii name, remotename, ascii "\r\n"]

def sizeCommand (remotename : Str) : Buffer := ftpCommand "SIZE " remotename

def retrCommand (remotename : Str) : Buffer := ftpCommand "RETR " remotename

def hexText (n : ℕ) : Str := (Nat.toDigits 16 n).map (fun c => c.toNat.toUInt8)

def paddedHex (n : ℕ) : Str := List.replicate (2 - (hexText n).length) 0x20 ++ hexText n

/-- A `char` given to `%x`: it is signed and becomes an `int`. -/
def charArg (c : UInt8) : ℕ := if c < 0x80 then c.toNat else 2 ^ 32 - 256 + c.toNat

/-- `sprintf(code, "%%%2x", *chptr)` into `code[4]`. -/
def codeBuffer (c : UInt8) : Buffer := sprintf 4 [[0x25], paddedHex (charArg c)]

/-- `malloc(i)` with an `int`; a negative size cannot be had. -/
def mallocInt (i : ℕ) : ℕ := (Int.bmod i (2 ^ 32)).toNat

/-- All states of the buffers of one call. -/
structure LoginName where
  login : List Buffer
  codes : List Buffer
  deriving DecidableEq, Repr

def LoginName.text (l : LoginName) : Str := (l.login.getLast?.map Buffer.text).getD []

/-- `none` is a NULL password. -/
def getLoginName (ui : Iurlinfo) : Option LoginName :=
  match ui.login with
  | some (c :: login) =>
    ui.password.map (fun password =>
      let i := (c :: login).length + 5 + if password = [] then 0 else 3 * password.length + 5
      let codes := password.map codeBuffer
      ⟨strcats ⟨mallocInt i, []⟩
        ((c :: login) :: [colon] :: (codes.map Buffer.text ++ [[atSign]])), codes⟩)
  | _ => some ⟨[], []⟩

/-- The buffer is as large as the path before its slashes are cut. -/
def convertUIToURL (ui : Iurlinfo) : Option Buffer :=
  match ui.urlPrefix, ui.address, getLoginName ui with
  | some path, some address, some login =>
    let finalPrefix := if path = [slash] then ascii "/." else path
    let size := finalPrefix.length + 25 + address.length + login.text.length
    some (match ui.protocol with
      | .ftp => sprintf size [ascii "ftp", ascii "://", login.text, address, finalPrefix]
      | .http => sprintf size [ascii "http", ascii "://", login.text, address,
          sanitize finalPrefix])
  | _, _, _ => none

/-- Nothing is written behind a buffer, and each code has three characters. -/
def LoginFits (l : LoginName) : Prop :=
  (∀ b ∈ l.login, Fits b) ∧ ∀ b ∈ l.codes, Fits b ∧ b.text.length = 3

section Codes

/-- A byte from 128 on becomes a negative number with eight digits. -/
theorem codeBuffer_length (c : UInt8) :
    (codeBuffer c).text.length = if c < 0x80 then 3 else 9 := by
  have hall : ∀ n < 256, (codeBuffer (UInt8.ofNat n)).text.length =
      if UInt8.ofNat n < 0x80 then 3 else 9 := by decide +kernel
  simpa using hall c.toNat c.toNat_lt

theorem codeBuffer_fits_iff (c : UInt8) :
    Fits (codeBuffer c) ∧ (codeBuffer c).text.length = 3 ↔ c < 0x80 := by
  have hsize : (codeBuffer c).size = 4 := rfl
  rw [Fits, hsize, codeBuffer_length]
  split <;> simp [*]

theorem escapeByte_eq (c : UInt8) :
    escapeByte c = if c < 0x80 then some (codeBuffer c).text else none := by
  have hall : ∀ n < 256, escapeByte (UInt8.ofNat n) =
      if UInt8.ofNat n < 0x80 then some (codeBuffer (UInt8.ofNat n)).text else none := by
    decide +kernel
  simpa using hall c.toNat c.toNat_lt

theorem codes_length {password : Str} (h : ∀ c ∈ password, c < 0x80) :
    ((password.map codeBuffer).map Buffer.text).flatten.length = 3 * password.length := by
  induction password with
  | nil => rfl
  | cons c password ih =>
    rw [List.forall_mem_cons] at h
    rw [List.map_cons, List.map_cons, List.flatten_cons, List.length_append, ih h.2,
      codeBuffer_length, if_pos h.1, List.length_cons]
    omega

theorem escapeBytes_eq {password : Str} (h : ∀ c ∈ password, c < 0x80) :
    escapeBytes password = some ((password.map codeBuffer).map Buffer.text).flatten := by
  induction password with
  | nil => rfl
  | cons c password ih =>
    rw [List.forall_mem_cons] at h
    rw [escapeBytes, escapeByte_eq, if_pos h.1, ih h.2]
    rfl

end Codes

section Sizes

theorem mallocInt_small {i : ℕ} (h : i < 2 ^ 31) : mallocInt i = i := by
  unfold mallocInt
  rw [Int.bmod_def]
  omega

theorem mallocInt_large {i : ℕ} (h : 2 ^ 31 ≤ i) : mallocInt i + 2 ^ 31 ≤ i := by
  unfold mallocInt
  rw [Int.bmod_def]
  omega

end Sizes

section Builders
variable {login password : Str}

/-- The size that `getLoginName` computes for a login that is not empty. -/
def loginSize (login password : Str) : ℕ :=
  login.length + 5 + if password = [] then 0 else 3 * password.length + 5

theorem getLoginName_cons (ui : Iurlinfo) (c : UInt8) (h : ui.login = some (c :: login))
    (hp : ui.password = some password) :
    getLoginName ui = some ⟨strcats ⟨mallocInt (loginSize (c :: login) password), []⟩
      ((c :: login) :: [colon] :: ((password.map codeBuffer).map Buffer.text ++ [[atSign]])),
      password.map codeBuffer⟩ := by
  rw [getLoginName, h, hp]
  rfl

theorem loginName_text (size : ℕ) (login : Str) (codes : List Buffer) :
    LoginName.text ⟨strcats ⟨size, []⟩
      (login :: [colon] :: (codes.map Buffer.text ++ [[atSign]])), codes⟩ =
      login ++ colon :: (codes.map Buffer.text).flatten ++ [atSign] := by
  rw [LoginName.text, strcats_getLast]
  simp

theorem login_fits_iff (c : UInt8) (hcodes : ∀ c ∈ password, c < 0x80) :
    (∀ b ∈ strcats ⟨mallocInt (loginSize (c :: login) password), []⟩
      ((c :: login) :: [colon] :: ((password.map codeBuffer).map Buffer.text ++ [[atSign]])),
      Fits b) ↔ loginSize (c :: login) password < 2 ^ 31 := by
  rw [strcats_fit_iff]
  have hlen := codes_length hcodes
  have hneed : (login.length + 1) + 1 + 3 * password.length + 1 < loginSize (c :: login) password ∧
      loginSize (c :: login) password ≤ (login.length + 1) + 3 * password.length + 10 := by
    unfold loginSize
    rw [List.length_cons]
    split
    · rename_i hnil
      rw [hnil, List.length_nil]
      omega
    · omega
  simp only [Fits, List.flatten_cons, List.flatten_append, List.flatten_nil, List.append_nil,
    List.nil_append, List.length_append, List.length_cons, List.length_nil, hlen]
  constructor
  · intro hfits
    by_contra hlarge
    have hsmaller := mallocInt_large (Nat.le_of_not_lt hlarge)
    omega
  · intro hsmall
    rw [mallocInt_small hsmall]
    omega

/-- `getLoginName` stays inside its buffers if and only if there is nothing to escape from 128 on
and the size is an `int`. -/
theorem loginFits_iff (ui : Iurlinfo) (hlogin : ui.login = some login)
    (hpassword : ui.password = some password) :
    (∃ l, getLoginName ui = some l ∧ LoginFits l) ↔
      login = [] ∨ (∀ c ∈ password, c < 0x80) ∧ loginSize login password < 2 ^ 31 := by
  cases login with
  | nil =>
    have hget : getLoginName ui = some ⟨[], []⟩ := by rw [getLoginName, hlogin]
    rw [hget]
    simp [LoginFits]
  | cons c login =>
    have hcodes : (∀ b ∈ password.map codeBuffer, Fits b ∧ b.text.length = 3) ↔
        ∀ c ∈ password, c < 0x80 := by
      rw [List.forall_mem_map]
      exact forall₂_congr (fun c _ => codeBuffer_fits_iff c)
    rw [getLoginName_cons ui c hlogin hpassword]
    simp only [Option.some.injEq, exists_eq_left', LoginFits, hcodes, List.cons_ne_nil, false_or]
    constructor
    · rintro ⟨hfits, hall⟩
      exact ⟨hall, (login_fits_iff c hall).mp hfits⟩
    · rintro ⟨hall, hsmall⟩
      exact ⟨(login_fits_iff c hall).mpr hsmall, hall⟩

theorem getRequest_overflows (hostname remotename : Str) (extraHeaders : Option Str) :
    ¬ Fits (getRequest hostname remotename extraHeaders) := by
  have hget : (ascii "GET ").length = 4 := rfl
  have hhost : (ascii " HTTP/1.0\r\nHost: ").length = 17 := rfl
  have hend : (ascii "\r\n").length = 2 := rfl
  simp only [Fits, getRequest, sprintf, List.flatten_cons, List.flatten_nil, List.length_append,
    List.length_nil, hget, hhost, hend]
  omega

theorem ftpCommand_fits {name : String} (h : (ascii name).length < 18) (remotename : Str) :
    Fits (ftpCommand name remotename) := by
  have hend : (ascii "\r\n").length = 2 := rfl
  simp only [Fits, ftpCommand, sprintf, List.flatten_cons, List.flatten_nil, List.length_append,
    List.length_nil, hend]
  omega

theorem sanitize_length_le (s : Str) : (sanitize s).length ≤ s.length := by
  fun_induction sanitize s with
  | case1 a b s hslash ih =>
    rw [List.length_cons]
    omega
  | case2 a b s hslash => exact Nat.le_refl _
  | case3 s hshort => exact Nat.le_refl _

theorem convertUIToURL_fits (ui : Iurlinfo) {b : Buffer} (h : convertUIToURL ui = some b) :
    Fits b := by
  have hftp : (ascii "ftp").length = 3 := rfl
  have hhttp : (ascii "http").length = 4 := rfl
  have hsep : (ascii "://").length = 3 := rfl
  rw [convertUIToURL] at h
  split at h
  · rename_i path address login hpath haddress hlogin
    rw [← Option.some.inj h]
    have hcut := sanitize_length_le (if path = [slash] then ascii "/." else path)
    cases ui.protocol with
    | ftp =>
      simp only [Fits, sprintf, List.flatten_cons, List.flatten_nil, List.length_append,
        List.length_nil, hftp, hsep]
      omega
    | http =>
      simp only [Fits, sprintf, List.flatten_cons, List.flatten_nil, List.length_append,
        List.length_nil, hhttp, hsep]
      omega
  · cases h

/-- `Urls` has the same login where no code overflows. -/
theorem urls_getLoginName (ui : Iurlinfo) {l : LoginName} (h : getLoginName ui = some l)
    (hcodes : ∀ b ∈ l.codes, Fits b ∧ b.text.length = 3) : Urls.getLoginName ui = some l.text := by
  rw [getLoginName] at h
  split at h
  · rename_i c login hlogin
    obtain ⟨password, hpassword, heq⟩ := Option.map_eq_some_iff.mp h
    rw [← heq] at hcodes ⊢
    rw [List.forall_mem_map] at hcodes
    have hall : ∀ c ∈ password, c < 0x80 :=
      fun c hc => (codeBuffer_fits_iff c).mp (hcodes c hc)
    rw [Urls.getLoginName, hlogin, hpassword]
    dsimp only
    rw [escapeBytes_eq hall, loginName_text]
    rfl
  · rename_i hlogin
    rw [← Option.some.inj h, Urls.getLoginName]
    split
    · rename_i c login hcons
      exact absurd hcons (hlogin c login)
    · rfl

theorem urls_convertUIToURL (ui : Iurlinfo) {l : LoginName} (h : getLoginName ui = some l)
    (hcodes : ∀ b ∈ l.codes, Fits b ∧ b.text.length = 3) :
    Urls.convertUIToURL ui = (convertUIToURL ui).map Buffer.text := by
  rw [Urls.convertUIToURL, convertUIToURL, urls_getLoginName ui h hcodes, h]
  cases ui.urlPrefix with
  | none => rfl
  | some path =>
    cases ui.address with
    | none => rfl
    | some address =>
      cases hprotocol : ui.protocol <;> simp [sprintf, ascii]

/-- The request never fits: one byte too few is allocated. The two commands and the URL always do,
and the login if its password has no byte from 128 on and its size is an `int`. -/
theorem builders_fit_iff (hostname remotename : Str) (extraHeaders : Option Str)
    (protocol : UrlProtocol) (address login password path : Str) :
    ¬ Fits (getRequest hostname remotename extraHeaders) ∧
    Fits (sizeCommand remotename) ∧ Fits (retrCommand remotename) ∧
    ((∃ l, getLoginName ⟨protocol, some address, some login, some password, some path⟩ = some l ∧
        LoginFits l) ↔
      login = [] ∨ (∀ c ∈ password, c < 0x80) ∧ loginSize login password < 2 ^ 31) ∧
    ∃ b, convertUIToURL ⟨protocol, some address, some login, some password, some path⟩ = some b ∧
      Fits b := by
  refine ⟨getRequest_overflows hostname remotename extraHeaders, ftpCommand_fits (by decide) _,
    ftpCommand_fits (by decide) _, loginFits_iff _ rfl rfl, ?_⟩
  have hlogin : ∃ l,
      getLoginName ⟨protocol, some address, some login, some password, some path⟩ = some l := by
    cases login with
    | nil => exact ⟨_, rfl⟩
    | cons c login => exact ⟨_, rfl⟩
  obtain ⟨l, hl⟩ := hlogin
  have hurl : ∃ b, convertUIToURL
      ⟨protocol, some address, some login, some password, some path⟩ = some b := by
    rw [convertUIToURL, hl]
    exact ⟨_, rfl⟩
  obtain ⟨b, hb⟩ := hurl
  exact ⟨b, hb, convertUIToURL_fits _ hb⟩

/-- The password is the letter e with an accent. -/
def accented : Iurlinfo :=
  ⟨.ftp, some (ascii "mirror"), some (ascii "user"), some [0xc3, 0xa9], some (ascii "/i")⟩

theorem builders_overflow :
    ¬ Fits (getRequest (ascii "mirror") (ascii "/ks.cfg") none) ∧
    ∀ l, getLoginName accented = some l → ¬ LoginFits l := by
  refine ⟨by decide, ?_⟩
  intro l hl hfits
  have hcode : codeBuffer 0xc3 ∈ l.codes := by
    rw [← Option.some.inj hl]
    exact List.mem_cons_self
  have hthree := (hfits.2 _ hcode).2
  revert hthree
  decide

end Builders

end Comodoo.RequestBuffers
