import Comodoo.Urls
import Mathlib.Data.List.TakeWhile

set_option autoImplicit false

/-!
# The two URL splitters

`getHostPathandLogin` of `stage-1/kickstart.c` beside `convertURLToUI`. The first cuts the
path off and looks for the user information in what is left; the second looks for it in the
whole URL.
-/
namespace Comodoo.KickstartUrl
open CString Urls

structure HostPathLogin where
  host : Str
  file : Str
  login : Str
  password : Str
  deriving DecidableEq, Repr

/-- `before` is the byte in front of the buffer of an empty file name: `strlen(*file) - 1` is
its index. -/
def getHostPathandLogin (before : UInt8) (ksSource ip : Str) : HostPathLogin :=
  let cut := match strchr slash ksSource with
    | some (host, path) => (host, slash :: path)
    | none => (ksSource, [])
  let last := cut.2.getLast?.getD before
  let file := if last = slash ∨ last = 0 then cut.2 ++ ip ++ ascii "-kickstart" else cut.2
  match strchr atSign cut.1 with
  | some (user, host) =>
    match strchr colon user with
    | some (login, password) => ⟨host, file, login, password⟩
    | none => ⟨host, file, user, []⟩
  | none => ⟨cut.1, file, [], []⟩

def pathOf (rest : Str) : Str := rest.dropWhile (· ≠ slash)

/-- Both split the URL, into the same parts. -/
def Agree (before : UInt8) (ip rest : Str) : Prop :=
  ∃ ui after, convertURLToUI (ascii "ftp://" ++ rest) = .done 0 ui after ∧
    ui.login.getD [] = (getHostPathandLogin before rest ip).login ∧
    ui.password.getD [] = (getHostPathandLogin before rest ip).password ∧
    ui.address.getD [] = (getHostPathandLogin before rest ip).host ∧
    (pathOf rest ≠ [] → (pathOf rest).getLast? ≠ some slash →
      ui.urlPrefix.getD [] = (getHostPathandLogin before rest ip).file)

/-- The first at sign comes before all slashes, and before no colon unless one precedes it. -/
def UserInfoFirst (rest : Str) : Prop :=
  atSign ∈ rest → slash ∉ rest.takeWhile (· ≠ atSign) ∧
    (colon ∈ rest → colon ∈ rest.takeWhile (· ≠ atSign))

instance (rest : Str) : Decidable (UserInfoFirst rest) :=
  inferInstanceAs (Decidable (atSign ∈ rest → slash ∉ rest.takeWhile (· ≠ atSign) ∧
    (colon ∈ rest → colon ∈ rest.takeWhile (· ≠ atSign))))

section Split

variable {before : UInt8} {ip : Str}

theorem takeWhile_until {c : UInt8} {l : Str} (r : Str) (h : c ∉ l) :
    (l ++ c :: r).takeWhile (· ≠ c) = l := by
  refine takeWhile_append_stop (fun b hb => ?_) (by simp)
  exact decide_eq_true fun heq => h (heq ▸ hb)

theorem dropWhile_until {c : UInt8} {l : Str} (r : Str) (h : c ∉ l) :
    (l ++ c :: r).dropWhile (· ≠ c) = c :: r := by
  refine dropWhile_append_stop (fun b hb => ?_) (by simp)
  exact decide_eq_true fun heq => h (heq ▸ hb)

/-- A path: nothing, or something that starts with a slash. -/
def IsPath (path : Str) : Prop := path = [] ∨ ∃ q, path = slash :: q

theorem exists_path (rest : Str) :
    ∃ host path, rest = host ++ path ∧ slash ∉ host ∧ IsPath path := by
  cases hs : strchr slash rest with
  | none => exact ⟨rest, [], (List.append_nil _).symm, (strchr_eq_none_iff _ _).mp hs, Or.inl rfl⟩
  | some r =>
    obtain ⟨heq, hno⟩ := (strchr_eq_some_iff _ _ _ _).mp hs
    exact ⟨r.1, slash :: r.2, heq, hno, Or.inr ⟨r.2, rfl⟩⟩

variable {host path : Str}

theorem pathOf_append (hs : slash ∉ host) (hp : IsPath path) : pathOf (host ++ path) = path := by
  rcases hp with rfl | ⟨q, rfl⟩
  · rw [pathOf, List.append_nil, List.dropWhile_eq_nil_iff]
    intro b hb
    have hne : b ≠ slash := fun heq => hs (heq ▸ hb)
    simpa using hne
  · exact dropWhile_until q hs

theorem splitAddress_parts (ui : Iurlinfo) (front : Str) (hs : slash ∉ host) (hp : IsPath path) :
    splitAddress ui front (host ++ path) = .done 0
      { ui with address := some host, urlPrefix := some (if path = [] then [slash] else path) }
      (front ++ (host ++ path)) := by
  rcases hp with rfl | ⟨q, rfl⟩
  · have hnone : strchr slash host = none := (strchr_eq_none_iff _ _).mpr hs
    rw [splitAddress, List.append_nil, hnone, if_pos rfl]
  · rw [splitAddress, strchr_append slash host q hs, if_neg (by simp)]

/-- The name of the file behind a path. -/
def fileOf (before : UInt8) (path ip : Str) : Str :=
  if path.getLast?.getD before = slash ∨ path.getLast?.getD before = 0 then
    path ++ ip ++ ascii "-kickstart"
  else path

theorem fileOf_path (h0 : (0 : UInt8) ∉ path) (hne : path ≠ []) (hend : path.getLast? ≠ some slash) :
    fileOf before path ip = path := by
  rw [List.getLast?_eq_some_getLast hne] at hend
  rw [fileOf, List.getLast?_eq_some_getLast hne, Option.getD_some, if_neg]
  rintro (h | h)
  · exact hend (congrArg some h)
  · exact h0 (h ▸ List.getLast_mem hne)

theorem getHost_parts (before : UInt8) (ip : Str) (hs : slash ∉ host) (hp : IsPath path) :
    getHostPathandLogin before (host ++ path) ip =
      match strchr atSign host with
      | some (user, host) =>
        match strchr colon user with
        | some (login, password) => ⟨host, fileOf before path ip, login, password⟩
        | none => ⟨host, fileOf before path ip, user, []⟩
      | none => ⟨host, fileOf before path ip, [], []⟩ := by
  rcases hp with rfl | ⟨q, rfl⟩
  · have hnone : strchr slash host = none := (strchr_eq_none_iff _ _).mpr hs
    rw [getHostPathandLogin, List.append_nil, hnone]
    rfl
  · rw [getHostPathandLogin, strchr_append slash host q hs]
    rfl

theorem path_agrees (h0 : (0 : UInt8) ∉ path) (hp : path ≠ []) (hend : path.getLast? ≠ some slash) :
    (if path = [] then [slash] else path) = fileOf before path ip := by
  rw [if_neg hp, fileOf_path h0 hp hend]

end Split

section Convert

variable {rest login password t : Str}

theorem convert_plain (ha : atSign ∉ rest) :
    convertURLToUI (ascii "ftp://" ++ rest) = splitAddress .zero (ascii "ftp://") rest := by
  have hnone : strchr atSign rest = none := (strchr_eq_none_iff _ _).mpr ha
  simp only [convertURLToUI, ftp_isPrefixOf, ↓reduceIte, ftp_drop, hnone]
  rfl

theorem convert_login (ha : atSign ∉ login) (hc : colon ∉ login ++ atSign :: t) :
    convertURLToUI (ascii "ftp://" ++ (login ++ atSign :: t)) =
      splitAddress ⟨.ftp, none, some login, none, none⟩ (ascii "ftp://" ++ login ++ [0]) t := by
  have hnone : strchr colon (login ++ atSign :: t) = none := (strchr_eq_none_iff _ _).mpr hc
  simp only [convertURLToUI, ftp_isPrefixOf, ↓reduceIte, ftp_drop, hnone,
    strchr_append atSign login t ha]
  rfl

theorem convert_password (hc : colon ∉ login) (ha : atSign ∉ password) :
    convertURLToUI (ascii "ftp://" ++ (login ++ colon :: (password ++ atSign :: t))) =
      splitAddress ⟨.ftp, none, some login, some password, none⟩
        (ascii "ftp://" ++ login ++ 0 :: password ++ [0]) t := by
  have hmem : atSign ∈ login ++ colon :: (password ++ atSign :: t) := by simp
  obtain ⟨r, hr⟩ := Option.ne_none_iff_exists'.mp
    (fun h => (strchr_eq_none_iff _ _).mp h hmem)
  simp only [convertURLToUI, ftp_isPrefixOf, ↓reduceIte, ftp_drop, hr,
    strchr_append colon login _ hc, strchr_append atSign password t ha]
  rfl

theorem convert_crash (hc : colon ∉ login) (hat : atSign ∈ login) (ha : atSign ∉ t) :
    convertURLToUI (ascii "ftp://" ++ (login ++ colon :: t)) = .crash := by
  have hmem : atSign ∈ login ++ colon :: t := List.mem_append_left _ hat
  obtain ⟨r, hr⟩ := Option.ne_none_iff_exists'.mp
    (fun h => (strchr_eq_none_iff _ _).mp h hmem)
  have hnone : strchr atSign t = none := (strchr_eq_none_iff _ _).mpr ha
  simp only [convertURLToUI, ftp_isPrefixOf, ↓reduceIte, ftp_drop, hr,
    strchr_append colon login t hc, hnone]

theorem splitAddress_done (ui : Iurlinfo) (front : Str) :
    ∃ address path, splitAddress ui front t =
      .done 0 { ui with address := some address, urlPrefix := some path } (front ++ t) := by
  rw [splitAddress]
  split
  · exact ⟨_, _, rfl⟩
  · exact ⟨_, _, rfl⟩

end Convert

section Agree

variable {before : UInt8} {ip host path front rest : Str}

theorem agree_of_host {ui : Iurlinfo} {g : HostPathLogin} (hs : slash ∉ host) (hp : IsPath path)
    (h0 : (0 : UInt8) ∉ path)
    (hconv : convertURLToUI (ascii "ftp://" ++ rest) = splitAddress ui front (host ++ path))
    (hg : getHostPathandLogin before rest ip = g) (hpath : pathOf rest = path)
    (hlogin : ui.login.getD [] = g.login) (hpass : ui.password.getD [] = g.password)
    (hhost : g.host = host) (hfile : g.file = fileOf before path ip) : Agree before ip rest := by
  refine ⟨_, _, hconv.trans (splitAddress_parts ui front hs hp), ?_⟩
  rw [hg, hpath, hfile]
  exact ⟨hlogin, hpass, hhost.symm, path_agrees h0⟩

theorem agree_plain (hs : slash ∉ host) (hp : IsPath path) (h0 : (0 : UInt8) ∉ path)
    (ha : atSign ∉ host ++ path) : Agree before ip (host ++ path) := by
  have hhost : strchr atSign host = none :=
    (strchr_eq_none_iff _ _).mpr (fun h => ha (List.mem_append_left _ h))
  have hg := getHost_parts before ip hs hp
  rw [hhost] at hg
  exact agree_of_host hs hp h0 (convert_plain ha) hg (pathOf_append hs hp) rfl rfl rfl rfl

theorem slash_not_mem {user : Str} (hs : slash ∉ user) (hsh : slash ∉ host) :
    slash ∉ user ++ atSign :: host := by
  rw [List.mem_append, List.mem_cons]
  rintro (h | h | h)
  · exact hs h
  · exact absurd h (by decide)
  · exact hsh h

theorem getHost_user (before : UInt8) (ip : Str) {user : Str} (hs : slash ∉ user)
    (ha : atSign ∉ user) (hsh : slash ∉ host) (hp : IsPath path) :
    getHostPathandLogin before (user ++ atSign :: (host ++ path)) ip =
      (match strchr colon user with
      | some (login, password) => ⟨host, fileOf before path ip, login, password⟩
      | none => ⟨host, fileOf before path ip, user, []⟩) ∧
    pathOf (user ++ atSign :: (host ++ path)) = path := by
  have hsplit : user ++ atSign :: (host ++ path) = (user ++ atSign :: host) ++ path := by
    rw [List.append_assoc, List.cons_append]
  have hno := slash_not_mem hs hsh
  rw [hsplit, getHost_parts before ip hno hp, strchr_append atSign user host ha]
  exact ⟨rfl, pathOf_append hno hp⟩

theorem agree_login {login : Str} (hs : slash ∉ login) (ha : atSign ∉ login)
    (hc : colon ∉ login ++ atSign :: (host ++ path)) (hsh : slash ∉ host) (hp : IsPath path)
    (h0 : (0 : UInt8) ∉ path) : Agree before ip (login ++ atSign :: (host ++ path)) := by
  have hnone : strchr colon login = none :=
    (strchr_eq_none_iff _ _).mpr (fun h => hc (List.mem_append_left _ h))
  obtain ⟨hg, hpath⟩ := getHost_user before ip hs ha hsh hp
  rw [hnone] at hg
  exact agree_of_host hsh hp h0 (convert_login ha hc) hg hpath rfl rfl rfl rfl

theorem agree_password {login password : Str} (hs : slash ∉ login ++ colon :: password)
    (ha : atSign ∉ login ++ colon :: password) (hc : colon ∉ login) (hsh : slash ∉ host)
    (hp : IsPath path) (h0 : (0 : UInt8) ∉ path) :
    Agree before ip ((login ++ colon :: password) ++ atSign :: (host ++ path)) := by
  have hpass : atSign ∉ password := by
    intro h
    exact ha (List.mem_append_right _ (List.mem_cons_of_mem _ h))
  have hconv := convert_password (t := host ++ path) hc hpass
  rw [← List.cons_append, ← List.append_assoc login] at hconv
  obtain ⟨hg, hpath⟩ := getHost_user before ip hs ha hsh hp
  rw [strchr_append colon login password hc] at hg
  exact agree_of_host hsh hp h0 hconv hg hpath rfl rfl rfl rfl

/-- A colon in the URL decides what `convertURLToUI` takes for the login. -/
theorem agree_login_eq {login t : Str} (hc : colon ∉ login) (hat : atSign ∈ login ++ colon :: t)
    (h : Agree before ip (login ++ colon :: t)) :
    (getHostPathandLogin before (login ++ colon :: t) ip).login = login ∧
      ∃ host, t = (getHostPathandLogin before (login ++ colon :: t) ip).password ++
        atSign :: host := by
  obtain ⟨ui, after, hconv, hlogin, hpass, -, -⟩ := h
  cases hs : strchr atSign t with
  | none =>
    have hno := (strchr_eq_none_iff _ _).mp hs
    have hl : atSign ∈ login := by simpa [hno, show atSign ≠ colon by decide] using hat
    rw [convert_crash hc hl hno] at hconv
    exact absurd hconv UrlResult.noConfusion
  | some r =>
    obtain ⟨heq, hno⟩ := (strchr_eq_some_iff _ _ r.1 r.2).mp hs
    subst heq
    obtain ⟨_, _, hsplit⟩ := splitAddress_done (t := r.2)
      ⟨.ftp, none, some login, some r.1, none⟩ (ascii "ftp://" ++ login ++ 0 :: r.1 ++ [0])
    rw [convert_password hc hno, hsplit] at hconv
    injection hconv with _ hui _
    subst hui
    exact ⟨hlogin.symm, r.2, by rw [← hpass]; rfl⟩

/-- Behind a slash `getHostPathandLogin` looks for no user information. -/
theorem getHost_late (before : UInt8) (ip : Str) {user t : Str} (hs : slash ∈ user)
    (ha : atSign ∉ user) :
    (getHostPathandLogin before (user ++ atSign :: t) ip).login = [] ∧
      (getHostPathandLogin before (user ++ atSign :: t) ip).password = [] := by
  obtain ⟨r, hr⟩ := Option.ne_none_iff_exists'.mp (fun h => (strchr_eq_none_iff _ _).mp h hs)
  obtain ⟨rfl, hno⟩ := (strchr_eq_some_iff _ _ r.1 r.2).mp hr
  have hnone : strchr atSign r.1 = none :=
    (strchr_eq_none_iff _ _).mpr (fun h => ha (List.mem_append_left _ h))
  rw [List.append_assoc, List.cons_append, getHost_parts before ip hno (Or.inr ⟨_, rfl⟩), hnone]
  exact ⟨rfl, rfl⟩

theorem agree_of_userInfoFirst (h0 : (0 : UInt8) ∉ rest) (h : UserInfoFirst rest) :
    Agree before ip rest := by
  cases hat : strchr atSign rest with
  | none =>
    have hno := (strchr_eq_none_iff _ _).mp hat
    obtain ⟨host, path, rfl, hs, hp⟩ := exists_path rest
    exact agree_plain hs hp (fun hm => h0 (List.mem_append_right _ hm)) hno
  | some r =>
    obtain ⟨rfl, hno⟩ := (strchr_eq_some_iff _ _ r.1 r.2).mp hat
    obtain ⟨hs, hcolon⟩ := h (by simp)
    rw [takeWhile_until r.2 hno] at hs hcolon
    obtain ⟨host, path, heq, hsh, hp⟩ := exists_path r.2
    have h0p : (0 : UInt8) ∉ path := by
      intro hm
      exact h0 (by simp [heq, hm])
    rw [heq] at hcolon ⊢
    cases hco : strchr colon r.1 with
    | none =>
      have hcu := (strchr_eq_none_iff _ _).mp hco
      exact agree_login hs hno (fun hm => hcu (hcolon hm)) hsh hp h0p
    | some q =>
      obtain ⟨hq, hcl⟩ := (strchr_eq_some_iff _ _ q.1 q.2).mp hco
      rw [hq] at hs hno ⊢
      exact agree_password hs hno hcl hsh hp h0p

/-- A slash in front of the at sign hides the user information from one of the two only. -/
theorem not_agree_of_slash {user t : Str} (ha : atSign ∉ user) (hs : slash ∈ user) :
    ¬ Agree before ip (user ++ atSign :: t) := by
  intro h
  have hlate := getHost_late before ip (t := t) hs ha
  cases hco : strchr colon (user ++ atSign :: t) with
  | none =>
    obtain ⟨ui, after, hconv, hlogin, -⟩ := h
    obtain ⟨_, _, hsplit⟩ := splitAddress_done (t := t) ⟨.ftp, none, some user, none, none⟩
      (ascii "ftp://" ++ user ++ [0])
    rw [convert_login ha ((strchr_eq_none_iff _ _).mp hco), hsplit] at hconv
    injection hconv with _ hui _
    subst hui
    have hnil : user = [] := hlogin.trans hlate.1
    rw [hnil] at hs
    exact List.not_mem_nil hs
  | some q =>
    obtain ⟨heq, hcl⟩ := (strchr_eq_some_iff _ _ q.1 q.2).mp hco
    have hmem : atSign ∈ q.1 ++ colon :: q.2 := heq ▸ by simp
    rw [heq] at h hlate
    obtain ⟨hlogin, host, hhost⟩ := agree_login_eq hcl hmem h
    rw [hlate.1] at hlogin
    rw [hlate.2] at hhost
    -- what is left is ":@host", whose at sign has no slash in front of it
    rw [← hlogin, hhost] at heq
    have huser : user = [colon] := by
      have htake := takeWhile_until t ha
      rw [heq] at htake
      exact htake.symm
    rw [huser] at hs
    exact absurd hs (by decide)

/-- A colon behind the at sign only: `convertURLToUI` takes all before it for the login. -/
theorem not_agree_of_colon {user t : Str} (ha : atSign ∉ user) (hs : slash ∉ user)
    (hcu : colon ∉ user) (hct : colon ∈ t) : ¬ Agree before ip (user ++ atSign :: t) := by
  intro h
  obtain ⟨q, hco⟩ := Option.ne_none_iff_exists'.mp
    (fun hn => (strchr_eq_none_iff _ _).mp hn hct)
  obtain ⟨rfl, hcq⟩ := (strchr_eq_some_iff _ _ q.1 q.2).mp hco
  have hcl : colon ∉ user ++ atSign :: q.1 := by
    rw [List.mem_append, List.mem_cons]
    rintro (hm | hm | hm)
    · exact hcu hm
    · exact absurd hm (by decide)
    · exact hcq hm
  have hsplit : user ++ atSign :: (q.1 ++ colon :: q.2) =
      (user ++ atSign :: q.1) ++ colon :: q.2 := by
    rw [List.append_assoc, List.cons_append]
  obtain ⟨host, path, heq, hsh, hp⟩ := exists_path (q.1 ++ colon :: q.2)
  have hg := (getHost_user before ip hs ha hsh hp).1
  rw [(strchr_eq_none_iff _ _).mpr hcu, ← heq] at hg
  rw [hsplit] at h hg
  obtain ⟨hlogin, -⟩ := agree_login_eq hcl (by simp) h
  rw [hg] at hlogin
  have hlen := congrArg List.length hlogin
  simp at hlen

/-- The two splitters agree exactly where the user information stands first. -/
theorem agree_iff_userInfoFirst (before : UInt8) (ip rest : Str) (h0 : (0 : UInt8) ∉ rest) :
    Agree before ip rest ↔ UserInfoFirst rest := by
  refine ⟨fun h hat => ?_, agree_of_userInfoFirst h0⟩
  obtain ⟨r, hr⟩ := Option.ne_none_iff_exists'.mp
    (fun hn => (strchr_eq_none_iff _ _).mp hn hat)
  obtain ⟨rfl, hno⟩ := (strchr_eq_some_iff _ _ r.1 r.2).mp hr
  rw [takeWhile_until r.2 hno]
  by_cases hs : slash ∈ r.1
  · exact absurd h (not_agree_of_slash hno hs)
  refine ⟨hs, fun hcolon => ?_⟩
  by_contra hcu
  have hct : colon ∈ r.2 := by simpa [hcu, show colon ≠ atSign by decide] using hcolon
  exact not_agree_of_colon hno hs hcu hct h

theorem agree_login_password : Agree 0 (ascii "10.0.0.5") (ascii "me:pw@host/a@b:c") :=
  (agree_iff_userInfoFirst 0 _ _ (by decide)).mpr (by decide)

/-- A port behind a login without a password makes `convertURLToUI` write through NULL. -/
theorem login_port_crashes :
    convertURLToUI (ascii "ftp://" ++ ascii "me@host:21/ks.cfg") = .crash ∧
      ∀ before ip, ¬ Agree before ip (ascii "me@host:21/ks.cfg") := by
  have hcrash : convertURLToUI (ascii "ftp://" ++ ascii "me@host:21/ks.cfg") = .crash := by decide
  refine ⟨hcrash, fun before ip h => ?_⟩
  obtain ⟨ui, after, hconv, -⟩ := h
  rw [hcrash] at hconv
  exact UrlResult.noConfusion hconv

end Agree

end Comodoo.KickstartUrl
