import Comodoo.CString

set_option autoImplicit false

/-!
# URLs of the URL install method

`convertURLToUI` and `convertUIToURL` of `stage-1/urls.c`. The decoder splits on
the first ':' and '@' of the whole rest of the URL and never unescapes; the
encoder escapes the password byte by byte. A NULL dereference or an overflow of
`code[4]` is `crash` in the decoder and `none` in the encoder.
-/
namespace Comodoo.Urls
open CString

inductive UrlProtocol where
  | ftp
  | http
  deriving DecidableEq, Repr

/-- `struct iurlinfo`; a NULL string is `none`. -/
structure Iurlinfo where
  protocol : UrlProtocol
  address : Option Str
  login : Option Str
  password : Option Str
  urlPrefix : Option Str
  deriving DecidableEq, Repr

/-- The `memset` at the top of `convertURLToUI`. -/
def Iurlinfo.zero : Iurlinfo := ⟨.ftp, none, none, none, none⟩

/-- Return code, result structure and what the URL buffer holds afterwards. -/
inductive UrlResult where
  | done (rc : ℤ) (ui : Iurlinfo) (url : Str)
  | crash
  deriving DecidableEq, Repr

abbrev colon : UInt8 := 0x3a
abbrev atSign : UInt8 := 0x40
abbrev slash : UInt8 := 0x2f

/-- `url` is left pointing at the hostname; `before` is the part of the buffer already walked. -/
def splitAddress (ui : Iurlinfo) (before url : Str) : UrlResult :=
  match strchr slash url with
  | some (address, path) =>
    .done 0 { ui with address := some address, urlPrefix := some (slash :: path) } (before ++ url)
  | none => .done 0 { ui with address := some url, urlPrefix := some [slash] } (before ++ url)

def convertURLToUI (url : Str) : UrlResult :=
  if (ascii "ftp://").isPrefixOf url then
    let rest := url.drop 6
    let ui := { Iurlinfo.zero with protocol := .ftp }
    -- there could be a username/password on here
    match strchr atSign rest with
    | some (login, afterAt) =>
      match strchr colon rest with
      | some (login, afterColon) =>
        match strchr atSign afterColon with
        | some (password, host) =>
          splitAddress { ui with login := some login, password := some password }
            (ascii "ftp://" ++ login ++ 0 :: password ++ [0]) host
        | none => .crash
      | none => splitAddress { ui with login := some login } (ascii "ftp://" ++ login ++ [0]) afterAt
    | none => splitAddress ui (ascii "ftp://") rest
  else if (ascii "http://").isPrefixOf url then
    splitAddress { Iurlinfo.zero with protocol := .http } (ascii "http://") (url.drop 7)
  else .done (-1) .zero url

def hexDigit (n : ℕ) : UInt8 := if n < 10 then (0x30 + n).toUInt8 else (0x57 + n).toUInt8

/-- `sprintf(code, "%%%2x", c)` into `code[4]`, for a signed `char`: a byte from 128 on prints as
eight digits and overflows `code`. -/
def escapeByte (c : UInt8) : Option Str :=
  if 0x80 ≤ c.toNat then none
  else if c.toNat < 0x10 then some [0x25, 0x20, hexDigit c.toNat]
  else some [0x25, hexDigit (c.toNat / 16), hexDigit (c.toNat % 16)]

def escapeBytes : Str → Option Str
  | [] => some []
  | c :: s =>
    match escapeByte c, escapeBytes s with
    | some code, some rest => some (code ++ rest)
    | _, _ => none

def getLoginName (ui : Iurlinfo) : Option Str :=
  match ui.login with
  | some (c :: login) =>
    -- `strlen(ui->password)` is taken before the NULL test
    match ui.password with
    | some password =>
      (escapeBytes password).map (fun code => c :: login ++ colon :: code ++ [atSign])
    | none => none
  | _ => some []

/-- Avoid duplicate '/'s at the front. -/
def sanitize : Str → Str
  | a :: b :: s => if a = slash ∧ b = slash then sanitize (b :: s) else a :: b :: s
  | s => s

def convertUIToURL (ui : Iurlinfo) : Option Str :=
  match ui.urlPrefix, ui.address, getLoginName ui with
  | some path, some address, some login =>
    let finalPrefix := if path = [slash] then ascii "/." else path
    some (match ui.protocol with
      | .ftp => ascii "ftp://" ++ login ++ address ++ finalPrefix
      | .http => ascii "http://" ++ login ++ address ++ sanitize finalPrefix)
  | _, _, _ => none

/-- The fields the two conversions are to keep: a host, a path below the root, and for FTP a login
that may carry a password. No C string contains a NUL. -/
structure WellFormed (ui : Iurlinfo) (address path : Str) : Prop where
  address_eq : ui.address = some address
  prefix_eq : ui.urlPrefix = some (slash :: path)
  address_ne : address ≠ []
  address_clean : ∀ b ∈ address, b ≠ slash ∧ b ≠ atSign ∧ b ≠ colon ∧ b ≠ 0
  path_ne : path ≠ []
  path_single : path.head? ≠ some slash
  path_clean : (0 : UInt8) ∉ path
  http_plain : ui.protocol = .http → ui.login = none
  password_needs_login : ui.login = none → ui.password = none
  login_clean : ∀ login, ui.login = some login →
    ∀ b ∈ login, b ≠ slash ∧ b ≠ atSign ∧ b ≠ colon ∧ b ≠ 0
  password_clean : ∀ password, ui.password = some password → (0 : UInt8) ∉ password

/-- Decoding the encoded URL succeeds with the same five fields. -/
def Recovers (ui : Iurlinfo) : Prop :=
  ∃ url after, convertUIToURL ui = some url ∧ convertURLToUI url = .done 0 ui after

theorem WellFormed.address_not {ui : Iurlinfo} {address path : Str} (h : WellFormed ui address path) :
    slash ∉ address ∧ atSign ∉ address ∧ colon ∉ address := by
  refine ⟨fun hb => ?_, fun hb => ?_, fun hb => ?_⟩
  · exact (h.address_clean _ hb).1 rfl
  · exact (h.address_clean _ hb).2.1 rfl
  · exact (h.address_clean _ hb).2.2.1 rfl

theorem WellFormed.eq_mk {ui : Iurlinfo} {address path : Str} (h : WellFormed ui address path) :
    ui = ⟨ui.protocol, some address, ui.login, ui.password, some (slash :: path)⟩ := by
  rw [← h.address_eq, ← h.prefix_eq]

theorem ftp_drop (s : Str) : (ascii "ftp://" ++ s).drop 6 = s := rfl

theorem ftp_isPrefixOf (s : Str) : (ascii "ftp://").isPrefixOf (ascii "ftp://" ++ s) = true := by
  simp

theorem http_not_ftp (s : Str) : (ascii "ftp://").isPrefixOf (ascii "http://" ++ s) = false := rfl

theorem splitAddress_append (ui : Iurlinfo) (before address path : Str) (h : slash ∉ address) :
    splitAddress ui before (address ++ slash :: path) =
      .done 0 { ui with address := some address, urlPrefix := some (slash :: path) }
        (before ++ (address ++ slash :: path)) := by
  rw [splitAddress, strchr_append slash address path h]

theorem convertURLToUI_ftp_plain (address path : Str) (hs : slash ∉ address)
    (ha : atSign ∉ address ++ slash :: path) :
    convertURLToUI (ascii "ftp://" ++ (address ++ slash :: path)) =
      .done 0 ⟨.ftp, some address, none, none, some (slash :: path)⟩
        (ascii "ftp://" ++ (address ++ slash :: path)) := by
  have hnone : strchr atSign (address ++ slash :: path) = none := (strchr_eq_none_iff _ _).mpr ha
  simp only [convertURLToUI, ftp_isPrefixOf, ↓reduceIte, ftp_drop, hnone]
  exact splitAddress_append _ _ _ _ hs

/-- Decoding an FTP URL with a login, a colon and no at sign before the password's end. -/
theorem convertURLToUI_ftp_login (login password address path : Str) (hl : colon ∉ login)
    (hp : atSign ∉ password) (hs : slash ∉ address) :
    convertURLToUI (ascii "ftp://" ++ (login ++ colon :: (password ++ atSign ::
        (address ++ slash :: path)))) =
      .done 0 ⟨.ftp, some address, some login, some password, some (slash :: path)⟩
        (ascii "ftp://" ++ login ++ 0 :: password ++ [0] ++ (address ++ slash :: path)) := by
  have hat : ∃ r, strchr atSign (login ++ colon :: (password ++ atSign ::
      (address ++ slash :: path))) = some r := by
    rw [← Option.isSome_iff_exists, Option.isSome_iff_ne_none, ne_eq, strchr_eq_none_iff]
    simp
  obtain ⟨⟨_, _⟩, hr⟩ := hat
  simp only [convertURLToUI, ftp_isPrefixOf, ↓reduceIte, ftp_drop, hr,
    strchr_append colon login _ hl, strchr_append atSign password _ hp]
  exact splitAddress_append _ _ _ _ hs

/-- An at sign in an FTP URL always yields a login that starts where the URL does, or a crash. -/
theorem convertURLToUI_ftp_at (c : UInt8) (rest : Str) (hat : atSign ∈ c :: rest)
    (hc : c ≠ atSign ∧ c ≠ colon) (ui : Iurlinfo) (after : Str)
    (h : convertURLToUI (ascii "ftp://" ++ (c :: rest)) = .done 0 ui after) :
    ∃ login, ui.login = some (c :: login) := by
  have hsplit : ∀ (ui ui' : Iurlinfo) (before url after : Str),
      splitAddress ui before url = .done 0 ui' after → ui'.login = ui.login := by
    intro ui ui' before url after h
    unfold splitAddress at h
    split at h <;> · cases h; rfl
  simp only [convertURLToUI, ftp_isPrefixOf, ↓reduceIte, ftp_drop] at h
  cases ha : strchr atSign (c :: rest) with
  | none => exact absurd hat ((strchr_eq_none_iff _ _).mp ha)
  | some r =>
    obtain ⟨login, afterAt⟩ := r
    simp only [ha] at h
    cases hcol : strchr colon (c :: rest) with
    | some q =>
      obtain ⟨user, afterColon⟩ := q
      simp only [hcol] at h
      cases hpw : strchr atSign afterColon with
      | some w =>
        obtain ⟨password, host⟩ := w
        simp only [hpw] at h
        obtain ⟨heq, _⟩ := (strchr_eq_some_iff _ _ _ _).mp hcol
        cases user with
        | nil => exact absurd (List.cons.inj heq).1 hc.2
        | cons x user =>
          obtain rfl := (List.cons.inj heq).1
          exact ⟨user, hsplit _ _ _ _ _ h⟩
      | none => simp [hpw] at h
    | none =>
      simp only [hcol] at h
      obtain ⟨heq, _⟩ := (strchr_eq_some_iff _ _ _ _).mp ha
      cases login with
      | nil => exact absurd (List.cons.inj heq).1 hc.1
      | cons x login =>
        obtain rfl := (List.cons.inj heq).1
        exact ⟨login, hsplit _ _ _ _ _ h⟩

theorem hexDigit_ne_atSign (n : ℕ) (hn : n < 16) : hexDigit n ≠ atSign := by
  have hall : ∀ k : Fin 16, hexDigit k ≠ atSign := by decide
  exact hall ⟨n, hn⟩

theorem escapeByte_spec (c : UInt8) (code : Str) (h : escapeByte c = some code) :
    code.length = 3 ∧ atSign ∉ code := by
  have hlt : c.toNat < 256 := c.toNat_lt
  unfold escapeByte at h
  split_ifs at h with hbig hsmall
  · cases h
    have hd := hexDigit_ne_atSign c.toNat hsmall
    exact ⟨rfl, by simp [atSign, Ne.symm hd]⟩
  · cases h
    have hd := hexDigit_ne_atSign (c.toNat / 16) (by omega)
    have hd' := hexDigit_ne_atSign (c.toNat % 16) (by omega)
    exact ⟨rfl, by simp [atSign, Ne.symm hd, Ne.symm hd']⟩

theorem escapeBytes_spec (s code : Str) (h : escapeBytes s = some code) :
    code.length = 3 * s.length ∧ atSign ∉ code := by
  induction s generalizing code with
  | nil => cases h; exact ⟨rfl, by simp⟩
  | cons c s ih =>
    unfold escapeBytes at h
    split at h
    · next first rest hfirst hrest =>
      cases h
      obtain ⟨hlen, hat⟩ := escapeByte_spec c first hfirst
      obtain ⟨hlen', hat'⟩ := ih rest hrest
      refine ⟨?_, by simp [hat, hat']⟩
      rw [List.length_append, List.length_cons, hlen, hlen']
      omega
    · cases h

theorem sanitize_single (path : Str) (h : path.head? ≠ some slash) :
    sanitize (slash :: path) = slash :: path := by
  cases path with
  | nil => rfl
  | cons b path =>
    have hb : b ≠ slash := by simpa using h
    simp [sanitize, hb]

theorem convertUIToURL_ftp {ui : Iurlinfo} {address path : Str} (h : WellFormed ui address path)
    (hp : ui.protocol = .ftp) :
    convertUIToURL ui =
      (getLoginName ui).map (fun login => ascii "ftp://" ++ login ++ address ++ slash :: path) := by
  have hne : slash :: path ≠ [slash] := by simp [h.path_ne]
  simp only [convertUIToURL, h.prefix_eq, h.address_eq, hp]
  cases getLoginName ui <;> simp [hne]

theorem getLoginName_empty (ui : Iurlinfo) (h : ui.login = none ∨ ui.login = some []) :
    getLoginName ui = some [] := by
  rcases h with h | h <;> simp [getLoginName, h]

theorem http_recovers {ui : Iurlinfo} {address path : Str} (h : WellFormed ui address path)
    (hp : ui.protocol = .http) : Recovers ui := by
  have hlogin := h.http_plain hp
  have hne : slash :: path ≠ [slash] := by simp [h.path_ne]
  refine ⟨ascii "http://" ++ (address ++ slash :: path),
    ascii "http://" ++ (address ++ slash :: path), ?_, ?_⟩
  · simp [convertUIToURL, h.prefix_eq, h.address_eq, hp, getLoginName_empty ui (.inl hlogin), hne,
      sanitize_single path h.path_single]
  · have hdec := splitAddress_append { Iurlinfo.zero with protocol := .http } (ascii "http://")
      address path h.address_not.1
    have hdrop : (ascii "http://" ++ (address ++ slash :: path)).drop 7 = address ++ slash :: path := rfl
    simp only [convertURLToUI, http_not_ftp, Bool.false_eq_true, ↓reduceIte, List.prefix_append,
      List.isPrefixOf_iff_prefix, hdrop]
    rw [hdec, h.eq_mk, hp, hlogin, h.password_needs_login hlogin]
    rfl

theorem ftp_anonymous_recovers_iff {ui : Iurlinfo} {address path : Str}
    (h : WellFormed ui address path) (hp : ui.protocol = .ftp)
    (hl : ui.login = none ∨ ui.login = some []) :
    Recovers ui ↔ ui.login = none ∧ atSign ∉ path := by
  have hurl : convertUIToURL ui = some (ascii "ftp://" ++ (address ++ slash :: path)) := by
    rw [convertUIToURL_ftp h hp, getLoginName_empty ui hl]
    simp
  obtain ⟨hs, ha, hc⟩ := h.address_not
  by_cases hat : atSign ∈ path
  · -- the at sign of the path is taken for the end of the user information
    constructor
    · rintro ⟨url, after, henc, hdec⟩
      obtain rfl := Option.some.inj (hurl.symm.trans henc)
      cases address with
      | nil => exact absurd rfl h.address_ne
      | cons c address =>
        obtain ⟨login, hlogin⟩ := convertURLToUI_ftp_at c (address ++ slash :: path)
          (by simp [hat]) ⟨fun hx => ha (by simp [hx]), fun hx => hc (by simp [hx])⟩ ui after hdec
        rw [hlogin] at hl
        simp at hl
    · rintro ⟨_, hno⟩
      exact absurd hat hno
  · have hdec := convertURLToUI_ftp_plain address path hs (by
      simp [ha, hat, show atSign ≠ slash by decide])
    constructor
    · rintro ⟨url, after, henc, hdec'⟩
      obtain rfl := Option.some.inj (hurl.symm.trans henc)
      rw [hdec] at hdec'
      cases hdec'
      exact ⟨rfl, hat⟩
    · rintro ⟨hnone, _⟩
      have hui := h.eq_mk
      rw [hp, hnone, h.password_needs_login hnone] at hui
      exact ⟨_, _, hurl, hdec.trans (by rw [← hui])⟩

theorem ftp_login_recovers_iff {ui : Iurlinfo} {address path : Str} (h : WellFormed ui address path)
    (hp : ui.protocol = .ftp) (c : UInt8) (login : Str) (hl : ui.login = some (c :: login)) :
    Recovers ui ↔ ui.password = some [] := by
  have hcolon : colon ∉ c :: login := fun hx => (h.login_clean _ hl _ hx).2.2.1 rfl
  have hurl : convertUIToURL ui = ui.password.bind (fun password =>
      (escapeBytes password).map (fun code => ascii "ftp://" ++ (c :: login ++ colon ::
        (code ++ atSign :: (address ++ slash :: path))))) := by
    rw [convertUIToURL_ftp h hp, getLoginName, hl]
    cases ui.password with
    | none => rfl
    | some password => cases hcode : escapeBytes password <;> simp [hcode]
  have hdec := fun code hcode => convertURLToUI_ftp_login (c :: login) code address path hcolon
    hcode h.address_not.1
  constructor
  · rintro ⟨url, after, henc, hrec⟩
    rw [hurl] at henc
    cases hpw : ui.password with
    | none => simp [hpw] at henc
    | some password =>
      simp only [hpw, Option.bind_some, Option.map_eq_some_iff] at henc
      obtain ⟨code, hcode, rfl⟩ := henc
      obtain ⟨hlen, hat⟩ := escapeBytes_spec password code hcode
      rw [hdec code hat] at hrec
      have hsame : some code = ui.password := by cases hrec; rfl
      rw [hpw] at hsame
      obtain rfl := Option.some.inj hsame
      rw [List.eq_nil_of_length_eq_zero (show code.length = 0 by omega)]
  · intro hpw
    have hui := h.eq_mk
    rw [hp, hl, hpw] at hui
    exact ⟨_, _, by rw [hurl, hpw]; rfl, (hdec [] (by simp)).trans (by rw [← hui])⟩

/-- The decoder undoes the encoder exactly for HTTP, for an anonymous FTP site without an at sign
in its path, and for an FTP login with an empty password. -/
theorem convertUIToURL_recovers_iff (ui : Iurlinfo) (address path : Str)
    (h : WellFormed ui address path) :
    Recovers ui ↔ ui.protocol = .http ∨ (ui.login = none ∧ atSign ∉ path) ∨
      (∃ login, login ≠ [] ∧ ui.login = some login ∧ ui.password = some []) := by
  cases hp : ui.protocol with
  | http => simpa using http_recovers h hp
  | ftp =>
    cases hl : ui.login with
    | none => simpa [hl] using ftp_anonymous_recovers_iff h hp (.inl hl)
    | some login =>
      cases login with
      | nil => simpa [hl] using ftp_anonymous_recovers_iff h hp (.inr hl)
      | cons c login => simpa [hl] using ftp_login_recovers_iff h hp c login hl

theorem convertUIToURL_recovers_iff_anonymous :
    Recovers ⟨.ftp, some (ascii "host"), none, none, some (ascii "/pub")⟩ :=
  (convertUIToURL_recovers_iff ⟨.ftp, some (ascii "host"), none, none, some (ascii "/pub")⟩
    (ascii "host") (ascii "pub")
    ⟨rfl, rfl, by decide, by decide +kernel, by decide +kernel, by decide, by decide, by decide,
      by decide, by simp, by simp⟩).mpr (.inr (.inl ⟨rfl, by decide⟩))

/-- Login "u", password "p": the password comes back as "%70". -/
theorem password_not_recovered :
    ¬ Recovers ⟨.ftp, some (ascii "h"), some (ascii "u"), some (ascii "p"), some (ascii "/d")⟩ := by
  rintro ⟨url, after, henc, hdec⟩
  have hurl : url = ascii "ftp://u:%70@h/d" := by
    apply Option.some.inj
    rw [← henc]
    decide
  rw [hurl] at hdec
  revert hdec
  rw [show convertURLToUI (ascii "ftp://u:%70@h/d") = .done 0
    ⟨.ftp, some (ascii "h"), some (ascii "u"), some (ascii "%70"), some (ascii "/d")⟩
    (ascii "ftp://u" ++ 0 :: ascii "%70" ++ 0 :: ascii "h/d") by decide]
  intro hdec
  injection hdec with _ hui _
  exact absurd hui (by decide)

end Comodoo.Urls
