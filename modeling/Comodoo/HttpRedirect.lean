import Comodoo.HttpHeaders
import Comodoo.Urls

set_option autoImplicit false

/-!
# Following redirects

`httpGetFileDesc` of `stage-1/ftp.c` with `splitHostname` and `strcount`. The server is a
sequence of attempts, one for each recursive call; the model records where each call
directs its request.
-/
namespace Comodoo.HttpRedirect
open CString Urls HttpHeaders

abbrev leftBracket : UInt8 := 0x5b
abbrev rightBracket : UInt8 := 0x5d

/-- `strcount`. `strindex` looks behind the terminator when it is given an empty string; that is
`none`. -/
def strcount (ch : UInt8) : Str → Option ℕ
  | [] => none
  | b :: s =>
    if b = ch then (strcount ch s).map (· + 1)
    else if s = [] then some 0
    else strcount ch s

/-- The branch of `splitHostname` for an address without brackets. -/
def splitPlain (str : Str) : Option (Str × Option Str) :=
  match strcount colon str with
  | none => none
  | some n =>
    if 1 < n then some (str, none)
    else
      match strrchr colon str with
      | some (host, port) => some (host, some port)
      | none => some (str, none)

def splitHostname (str : Str) : Option (Str × Option Str) :=
  match strchr rightBracket str with
  | some (front, behind) =>
    if str.head? = some leftBracket then
      some (front.drop 1, (strrchr colon behind).map Prod.snd)
    else splitPlain str
  | none => splitPlain str

structure Target where
  host : Str
  port : ℤ
  path : Str
  deriving DecidableEq, Repr

inductive Result where
  | running
  | crashed
  | returned (rc : ℤ) (size : Option ℤ)
  deriving DecidableEq, Repr

/-- The fields `httpGetFileDesc` takes over from `convertURLToUI`, whose return value it ignores. -/
def redirectTo (location : Str) : Option Iurlinfo :=
  match convertURLToUI location with
  | .done _ ui _ => some ui
  | .crash => none

/-- One call and the calls it makes; `i` counts the attempts. A NULL hostname crashes in
`splitHostname`. -/
def httpGetFileDesc (server : ℕ → Attempt) :
    ℕ → ℕ → Option Str → ℤ → Option Str → List Target × Result
  | 0, _, _, _, _ => ([], .running)
  | fuel + 1, i, hostname, port, remotename =>
    match hostname.bind splitHostname, remotename with
    | some (host, _), some path =>
      let target : Target := ⟨host, if port < 0 then 80 else port, path⟩
      match reply (server i) with
      | .ends rc size => ([target], .returned rc size)
      | .crash => ([target], .crashed)
      | .redirect location =>
        match redirectTo location with
        | none => ([target], .crashed)
        | some ui =>
          let rest := httpGetFileDesc server fuel (i + 1) ui.address (-1) ui.urlPrefix
          (target :: rest.1, rest.2)
    | _, _ => ([], .crashed)

/-- The port of an authority; an empty one is the default. -/
def portNumber (p : Str) : Option ℤ :=
  if p = [] then some 80
  else if p.all isdigit then some (digitsValue p)
  else none

/-- Host and port of `host`, `host:port`, `[host]` or `[host]:port`. -/
def authority (a : Str) : Option (Str × ℤ) :=
  match a with
  | [] => none
  | b :: rest =>
    if b = leftBracket then
      match strchr rightBracket rest with
      | some (host, []) => if host = [] then none else some (host, 80)
      | some (host, c :: p) =>
        if host = [] ∨ c ≠ colon then none else (portNumber p).map (fun n => (host, n))
      | none => none
    else
      match strchr colon a with
      | none => some (a, 80)
      | some (host, p) => if host = [] then none else (portNumber p).map (fun n => (host, n))

/-- What an absolute http URL names. -/
def httpTarget (url : Str) : Option Target :=
  if (ascii "http://").isPrefixOf url then
    match strchr slash (url.drop 7) with
    | some (a, path) => (authority a).map (fun h => ⟨h.1, h.2, slash :: path⟩)
    | none => (authority (url.drop 7)).map (fun h => ⟨h.1, h.2, [slash]⟩)
  else none

def unparsable (url : Str) : Bool :=
  match convertURLToUI url with
  | .done rc _ _ => rc ≠ 0
  | .crash => true

/-- The redirects of the attempts from `i` on are followed to where they point, and an unparsable one
ends the call with an error. -/
def Followed (server : ℕ → Attempt) (i : ℕ) (visited : List Target) (rc : ℤ) : Prop :=
  ∀ k location, k < visited.length → reply (server (i + k)) = .redirect location →
    (∀ t, httpTarget location = some t → visited[k + 1]? = some t) ∧
    (unparsable location = true → visited.length = k + 1 ∧ rc < 0)

/-- The call returns, having followed every redirect. -/
def Meets (server : ℕ → Attempt) (i : ℕ) (hostname : Option Str) (port : ℤ)
    (remotename : Option Str) : Prop :=
  ∃ fuel visited rc size,
    httpGetFileDesc server fuel i hostname port remotename = (visited, .returned rc size) ∧
    Followed server i visited rc

/-- A Location the code gets right: it is accepted, its authority can be split, and it names no other
port than 80. -/
def locationFine (location : Str) : Bool :=
  match convertURLToUI location with
  | .done rc ui _ =>
    rc = 0 && (ui.address.bind splitHostname).isSome &&
      (httpTarget location).all (fun t => t.port = 80)
  | .crash => false

/-- From attempt `i` on: fine redirects, then an answer that ends the call. -/
def ChainFine (server : ℕ → Attempt) (i : ℕ) : Prop :=
  ∃ n, (∀ k, k < n → ∃ location, reply (server (i + k)) = .redirect location ∧
      locationFine location = true) ∧
    ∃ rc size, reply (server (i + n)) = .ends rc size

theorem strcount_plain {s : Str} {c : UInt8} {n : ℕ} (h : c ∉ s) (hs : strcount c s = some n) :
    n = 0 := by
  induction s with
  | nil => simp [strcount] at hs
  | cons b s ih =>
    simp only [List.mem_cons, not_or] at h
    rw [strcount, if_neg (Ne.symm h.1)] at hs
    split at hs
    · simpa using hs.symm
    · exact ih h.2 hs

theorem strcount_append {l r : Str} {c : UInt8} {n : ℕ} (hl : c ∉ l) (hr : c ∉ r)
    (hs : strcount c (l ++ c :: r) = some n) : n = 1 := by
  induction l with
  | nil =>
    simp only [List.nil_append, strcount, ↓reduceIte, Option.map_eq_some_iff] at hs
    obtain ⟨m, hm, rfl⟩ := hs
    rw [strcount_plain hr hm]
  | cons b l ih =>
    simp only [List.mem_cons, not_or] at hl
    rw [List.cons_append, strcount, if_neg (Ne.symm hl.1), if_neg (by simp)] at hs
    exact ih hl.2 hs

theorem splitPlain_host {a host : Str} {q : Option Str} (h : colon ∉ a)
    (hs : splitPlain a = some (host, q)) : host = a := by
  rw [splitPlain] at hs
  split at hs
  · simp at hs
  · rename_i n hn
    rw [strcount_plain h hn, if_neg (by omega), strrchr_eq_none h] at hs
    exact (Prod.mk.inj (Option.some.inj hs)).1.symm

theorem splitPlain_host_port {l r host : Str} {q : Option Str} (hl : colon ∉ l) (hr : colon ∉ r)
    (hs : splitPlain (l ++ colon :: r) = some (host, q)) : host = l := by
  rw [splitPlain] at hs
  split at hs
  · simp at hs
  · rename_i n hn
    rw [strcount_append hl hr hn, if_neg (by omega), strrchr_append l hr] at hs
    exact (Prod.mk.inj (Option.some.inj hs)).1.symm

theorem portNumber_plain {p : Str} {n : ℤ} (h : portNumber p = some n) : colon ∉ p := by
  rw [portNumber] at h
  split at h
  · rename_i hp
    simp [hp]
  · split at h
    · rename_i hd
      intro hc
      exact absurd (List.all_eq_true.mp hd colon hc) (by decide)
    · simp at h

theorem splitHostname_plain {a : Str} (h : a.head? ≠ some leftBracket) :
    splitHostname a = splitPlain a := by
  rw [splitHostname]
  split
  · rw [if_neg h]
  · rfl

/-- Where the authority is a legal one, `splitHostname` finds its host. -/
theorem splitHostname_authority {a host host' : Str} {n : ℤ} {q : Option Str}
    (h : authority a = some (host, n)) (hs : splitHostname a = some (host', q)) :
    host' = host := by
  cases a with
  | nil => simp [authority] at h
  | cons b rest =>
    by_cases hb : b = leftBracket
    · subst hb
      rw [authority, if_pos rfl] at h
      have hne : leftBracket ≠ rightBracket := by decide
      cases hc : strchr rightBracket rest with
      | none => simp [hc] at h
      | some r =>
        obtain ⟨l, behind⟩ := r
        have hl : l = host := by
          rw [hc] at h
          cases behind with
          | nil =>
            simp only at h
            split at h
            · simp at h
            · exact (Prod.mk.inj (Option.some.inj h)).1
          | cons c p =>
            simp only at h
            split at h
            · simp at h
            · obtain ⟨m, -, hm⟩ := Option.map_eq_some_iff.mp h
              exact (Prod.mk.inj hm).1
        rw [splitHostname, strchr, if_neg hne, hc] at hs
        simp only [Option.map_some, List.head?_cons, ↓reduceIte, List.drop_succ_cons,
          List.drop_zero, Option.some.injEq, Prod.mk.injEq] at hs
        rw [← hs.1, hl]
    · rw [authority, if_neg hb] at h
      rw [splitHostname_plain (by simpa using hb)] at hs
      cases hc : strchr colon (b :: rest) with
      | none =>
        rw [hc] at h
        have hplain := (strchr_eq_none_iff colon _).mp hc
        rw [splitPlain_host hplain hs]
        exact (Prod.mk.inj (Option.some.inj h)).1
      | some r =>
        obtain ⟨l, p⟩ := r
        obtain ⟨heq, hl⟩ := (strchr_eq_some_iff colon _ l p).mp hc
        rw [hc] at h
        simp only at h
        split at h
        · simp at h
        · obtain ⟨m, hm, hhm⟩ := Option.map_eq_some_iff.mp h
          rw [heq] at hs
          rw [splitPlain_host_port hl (portNumber_plain hm) hs]
          exact (Prod.mk.inj hhm).1

theorem convertURLToUI_http {url : Str} {t : Target} (h : httpTarget url = some t) :
    ∃ ui after a, convertURLToUI url = .done 0 ui after ∧ ui.address = some a ∧
      ui.urlPrefix = some t.path ∧ authority a = some (t.host, t.port) := by
  rw [httpTarget] at h
  split at h
  · rename_i hhttp
    obtain ⟨rest, rfl⟩ := List.isPrefixOf_iff_prefix.mp hhttp
    have hdrop : (ascii "http://" ++ rest).drop 7 = rest := rfl
    have hconv : convertURLToUI (ascii "http://" ++ rest) =
        splitAddress { Iurlinfo.zero with protocol := .http } (ascii "http://") rest := by
      rw [convertURLToUI, if_neg (by simp [ascii]), if_pos hhttp, hdrop]
    rw [hdrop] at h
    rw [hconv, splitAddress]
    cases hs : strchr slash rest with
    | none =>
      rw [hs] at h
      obtain ⟨hp, ha, rfl⟩ := Option.map_eq_some_iff.mp h
      exact ⟨_, _, rest, rfl, rfl, rfl, ha⟩
    | some r =>
      rw [hs] at h
      obtain ⟨hp, ha, rfl⟩ := Option.map_eq_some_iff.mp h
      exact ⟨_, _, r.1, rfl, rfl, rfl, ha⟩
  · simp at h

theorem convertURLToUI_rc {url after : Str} {rc : ℤ} {ui : Iurlinfo}
    (h : convertURLToUI url = .done rc ui after) :
    rc = 0 ∧ ui.urlPrefix ≠ none ∨ ui.address = none := by
  have hsplit : ∀ ui' before rest, splitAddress ui' before rest = .done rc ui after →
      rc = 0 ∧ ui.urlPrefix ≠ none := by
    intro ui' before rest hs
    rw [splitAddress] at hs
    split at hs <;> (cases hs; simp)
  rw [convertURLToUI] at h
  split at h
  · simp only at h
    split at h
    · split at h
      · split at h
        · exact .inl (hsplit _ _ _ h)
        · simp at h
      · exact .inl (hsplit _ _ _ h)
    · exact .inl (hsplit _ _ _ h)
  · split at h
    · exact .inl (hsplit _ _ _ h)
    · cases h
      exact .inr rfl

theorem followed_tail {server : ℕ → Attempt} {i : ℕ} {target : Target} {visited : List Target}
    {rc : ℤ} (h : Followed server i (target :: visited) rc) :
    Followed server (i + 1) visited rc := by
  intro k location hk hr
  rw [Nat.add_assoc, Nat.add_comm 1 k] at hr
  obtain ⟨hnext, herr⟩ := h (k + 1) location (by simpa using hk) hr
  exact ⟨fun t ht => by simpa using hnext t ht, fun hu => by simpa using herr hu⟩

theorem chainFine_cons {server : ℕ → Attempt} {i : ℕ} {location : Str}
    (hr : reply (server i) = .redirect location) (hfine : locationFine location = true)
    (h : ChainFine server (i + 1)) : ChainFine server i := by
  obtain ⟨n, hchain, rc, size, hend⟩ := h
  refine ⟨n + 1, fun k hk => ?_, rc, size, ?_⟩
  · cases k with
    | zero => exact ⟨location, hr, hfine⟩
    | succ k =>
      have := hchain k (by omega)
      rwa [Nat.add_assoc, Nat.add_comm 1 k] at this
  · rwa [Nat.add_assoc, Nat.add_comm 1 n] at hend

theorem locationFine_of_visited {location host : Str} {ui : Iurlinfo} {q : Option Str}
    (hui : redirectTo location = some ui) (hhost : ui.address.bind splitHostname = some (host, q))
    (hport : ∀ t, httpTarget location = some t → t.port = 80) : locationFine location = true := by
  rw [redirectTo] at hui
  split at hui
  · rename_i rc ui' after hconv
    obtain rfl := Option.some.inj hui
    have hrc : rc = 0 := by
      rcases convertURLToUI_rc hconv with h0 | hnone
      · exact h0.1
      · simp [hnone] at hhost
    rw [locationFine, hconv]
    simp only [hrc, hhost, Option.isSome_some, decide_true, Bool.and_self, Bool.true_and]
    cases ht : httpTarget location with
    | none => rfl
    | some t => simpa using hport t ht
  · simp at hui

theorem chainFine_of_returned (server : ℕ → Attempt) (fuel i : ℕ) (hostname : Option Str)
    (port : ℤ) (remotename : Option Str) (visited : List Target) (rc : ℤ) (size : Option ℤ)
    (h : httpGetFileDesc server fuel i hostname port remotename = (visited, .returned rc size))
    (hf : Followed server i visited rc) :
    (∃ host q path, hostname.bind splitHostname = some (host, q) ∧ remotename = some path ∧
      visited.head? = some ⟨host, if port < 0 then 80 else port, path⟩) ∧
    ChainFine server i := by
  induction fuel generalizing i hostname port remotename visited with
  | zero => simp [httpGetFileDesc] at h
  | succ fuel ih =>
    unfold httpGetFileDesc at h
    split at h
    · rename_i host q path hhost
      simp only at h
      split at h
      · -- an answer that ends the call
        rename_i rc' size' hreply
        obtain ⟨rfl, -⟩ := Prod.mk.inj h
        exact ⟨⟨host, q, path, hhost, rfl, rfl⟩, 0, by simp, rc', size', hreply⟩
      · simp at h
      · rename_i location hreply
        split at h
        · simp at h
        · rename_i ui hui
          obtain ⟨hvis, hret⟩ := Prod.mk.inj h
          obtain ⟨visited', hrest⟩ : ∃ visited',
              httpGetFileDesc server fuel (i + 1) ui.address (-1) ui.urlPrefix =
                (visited', .returned rc size) := ⟨_, Prod.ext rfl hret⟩
          rw [hrest] at hvis
          subst hvis
          obtain ⟨⟨host', q', path', hhost', hpath', hhead⟩, hchain⟩ :=
            ih (i + 1) ui.address (-1) ui.urlPrefix visited' hrest (followed_tail hf)
          have hfine : locationFine location = true := by
            apply locationFine_of_visited hui hhost'
            intro t ht
            have hnext := (hf 0 location (by simp) hreply).1 t ht
            rw [List.getElem?_cons_succ, ← List.head?_eq_getElem?, hhead] at hnext
            rw [← Option.some.inj hnext]
            rfl
          exact ⟨⟨host, q, path, hhost, rfl, rfl⟩, chainFine_cons hreply hfine hchain⟩
    · simp at h

theorem locationFine_cases {location : Str} (h : locationFine location = true) :
    ∃ ui after host q path, convertURLToUI location = .done 0 ui after ∧
      ui.address.bind splitHostname = some (host, q) ∧ ui.urlPrefix = some path ∧
      ∀ t, httpTarget location = some t → t = ⟨host, 80, path⟩ := by
  rw [locationFine] at h
  split at h
  · rename_i rc ui after hconv
    simp only [Bool.and_eq_true, decide_eq_true_eq] at h
    obtain ⟨⟨rfl, hhost⟩, hport⟩ := h
    obtain ⟨⟨host, q⟩, hhost⟩ := Option.isSome_iff_exists.mp hhost
    have hpre : ui.urlPrefix ≠ none := by
      rcases convertURLToUI_rc hconv with h0 | hnone
      · exact h0.2
      · simp [hnone] at hhost
    obtain ⟨path, hpath⟩ := Option.ne_none_iff_exists'.mp hpre
    refine ⟨ui, after, host, q, path, hconv, hhost, hpath, fun t ht => ?_⟩
    obtain ⟨ui', after', a, hconv', ha, hpath', hauth⟩ := convertURLToUI_http ht
    obtain ⟨-, rfl, -⟩ := UrlResult.done.inj (hconv.symm.trans hconv')
    rw [ha, Option.bind_some] at hhost
    have hport80 : t.port = 80 := by simpa [ht] using hport
    have hhost' := splitHostname_authority hauth hhost
    obtain ⟨th, tp, tpath⟩ := t
    simp only at hport80 hhost' hpath'
    rw [hport80, ← hhost', Option.some.inj (hpath.symm.trans hpath')]
  · simp at h

theorem meets_of_chainFine (server : ℕ → Attempt) (n i : ℕ) (hostname : Option Str) (port : ℤ)
    (remotename : Option Str) (host path : Str) (q : Option Str)
    (hhost : hostname.bind splitHostname = some (host, q)) (hpath : remotename = some path)
    (hchain : ∀ k, k < n → ∃ location, reply (server (i + k)) = .redirect location ∧
      locationFine location = true)
    (hend : ∃ rc size, reply (server (i + n)) = .ends rc size) :
    ∃ fuel visited rc size,
      httpGetFileDesc server fuel i hostname port remotename = (visited, .returned rc size) ∧
      Followed server i visited rc ∧
      visited.head? = some ⟨host, if port < 0 then 80 else port, path⟩ := by
  induction n generalizing i hostname port remotename host path q with
  | zero =>
    obtain ⟨rc, size, hr⟩ := hend
    refine ⟨1, [⟨host, if port < 0 then 80 else port, path⟩], rc, size, ?_, ?_, rfl⟩
    · rw [Nat.add_zero] at hr
      simp only [httpGetFileDesc, hhost, hpath, hr]
    · intro k location hk hred
      obtain rfl : k = 0 := by simpa using hk
      rw [hr] at hred
      cases hred
  | succ n ih =>
    obtain ⟨location, hr, hfine⟩ := hchain 0 (by omega)
    rw [Nat.add_zero] at hr
    obtain ⟨ui, after, host', q', path', hconv, hhost', hpath', htarget⟩ := locationFine_cases hfine
    obtain ⟨fuel, visited, rc, size, hrun, hf, hhead⟩ := ih (i + 1) ui.address (-1) ui.urlPrefix
      host' path' q' hhost' hpath'
      (fun k hk => by rw [Nat.add_assoc, Nat.add_comm 1 k]; exact hchain (k + 1) (by omega))
      (by rw [Nat.add_assoc, Nat.add_comm 1 n]; exact hend)
    refine ⟨fuel + 1, ⟨host, if port < 0 then 80 else port, path⟩ :: visited, rc, size, ?_, ?_, rfl⟩
    · simp only [httpGetFileDesc, hhost, hpath, hr, redirectTo, hconv, hrun]
    · intro k loc hk hred
      cases k with
      | zero =>
        rw [Nat.add_zero, hr] at hred
        obtain rfl := Reply.redirect.inj hred
        refine ⟨fun t ht => ?_, fun hu => ?_⟩
        · rw [List.getElem?_cons_succ, ← List.head?_eq_getElem?, hhead, htarget t ht]
          rfl
        · simp [unparsable, hconv] at hu
      | succ k =>
        have hk' := hf k loc (by simpa using hk)
          (by rw [Nat.add_assoc, Nat.add_comm 1 k]; exact hred)
        exact ⟨fun t ht => by simpa using hk'.1 t ht, fun hu => by simpa using hk'.2 hu⟩

/-- The redirects are handled as they should be exactly when the chain ends and every Location on
it is accepted, can be split and names port 80. -/
theorem httpGetFileDesc_meets_iff (server : ℕ → Attempt) (hostname : Str) (port : ℤ)
    (remotename : Str) :
    Meets server 0 (some hostname) port (some remotename) ↔
      (splitHostname hostname).isSome = true ∧ ChainFine server 0 := by
  constructor
  · rintro ⟨fuel, visited, rc, size, hrun, hf⟩
    obtain ⟨⟨host, q, path, hhost, -, -⟩, hchain⟩ :=
      chainFine_of_returned server fuel 0 _ port _ visited rc size hrun hf
    rw [Option.bind_some] at hhost
    exact ⟨by rw [hhost]; rfl, hchain⟩
  · rintro ⟨hsome, n, hchain, hend⟩
    obtain ⟨⟨host, q⟩, hhost⟩ := Option.isSome_iff_exists.mp hsome
    obtain ⟨fuel, visited, rc, size, hrun, hf, -⟩ :=
      meets_of_chainFine server n 0 (some hostname) port (some remotename) host remotename q hhost
        rfl hchain hend
    exact ⟨fuel, visited, rc, size, hrun, hf⟩

/-- A server that redirects its first request to port 8080 of itself. -/
def portServer : ℕ → Attempt
  | 0 => ⟨0, 0, 3, true, ascii "HTTP/1.0 302 Found\r\nLocation: http://mirror:8080/x\r\n\r\n", false⟩
  | _ => ⟨0, 0, 4, true, ascii "HTTP/1.0 200 OK\r\n\r\n", false⟩

/-- The second request goes to port 80. -/
theorem redirect_loses_port : ¬ Meets portServer 0 (some (ascii "mirror")) 80 (some (ascii "/")) := by
  have h0 : reply (portServer 0) = .redirect (ascii "http://mirror:8080/x") := by decide
  rintro ⟨fuel, visited, rc, size, hrun, hf⟩
  obtain ⟨-, n, hchain, hend⟩ :=
    chainFine_of_returned portServer fuel 0 _ 80 _ visited rc size hrun hf
  cases n with
  | zero =>
    obtain ⟨rc', size', hr⟩ := hend
    rw [Nat.add_zero, h0] at hr
    cases hr
  | succ n =>
    obtain ⟨location, hr, hfine⟩ := hchain 0 (by omega)
    rw [Nat.add_zero, h0] at hr
    obtain rfl := Reply.redirect.inj hr
    exact absurd hfine (by decide)

end Comodoo.HttpRedirect
