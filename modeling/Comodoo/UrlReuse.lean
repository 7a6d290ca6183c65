import Comodoo.Urls

set_option autoImplicit false

/-!
# Converting the same URL twice

`convertURLToUI` cuts the string it is given at up to three places. The cut in front of the path is
undone, those behind the login and the password are not.
-/
namespace Comodoo.UrlReuse
open CString Urls

/-- An accepted URL is left as it was, and the buffer can be converted again. -/
def Reusable (url : Str) : Prop :=
  ∀ ui after, convertURLToUI url = .done 0 ui after →
    after = url ∧ ∃ after', convertURLToUI (cString after) = .done 0 ui after'

/-- An at sign in an FTP URL, and behind its first colon if there is one. -/
def HasUserInfo (url : Str) : Prop :=
  ∃ rest, url = ascii "ftp://" ++ rest ∧ atSign ∈ rest ∧
    ∀ login behind, strchr colon rest = some (login, behind) → atSign ∈ behind

section Cuts
variable {url rest : Str}

theorem splitAddress_keeps (ui : Iurlinfo) (before url : Str) :
    ∃ ui', splitAddress ui before url = .done 0 ui' (before ++ url) := by
  rw [splitAddress]
  cases strchr slash url with
  | none => exact ⟨_, rfl⟩
  | some r => exact ⟨_, rfl⟩

theorem convert_http (h : (ascii "http://").isPrefixOf url = true) :
    ∃ ui, convertURLToUI url = .done 0 ui url := by
  obtain ⟨rest, rfl⟩ := List.isPrefixOf_iff_prefix.mp h
  obtain ⟨ui, hui⟩ := splitAddress_keeps { Iurlinfo.zero with protocol := .http }
    (ascii "http://") rest
  have hdrop : (ascii "http://" ++ rest).drop 7 = rest := rfl
  refine ⟨ui, ?_⟩
  rw [convertURLToUI, http_not_ftp, if_neg Bool.false_ne_true, if_pos h, hdrop, hui]

theorem convert_ftp_plain (hat : atSign ∉ rest) :
    ∃ ui, convertURLToUI (ascii "ftp://" ++ rest) = .done 0 ui (ascii "ftp://" ++ rest) := by
  have hnone : strchr atSign rest = none := (strchr_eq_none_iff _ _).mpr hat
  rw [convertURLToUI, ftp_isPrefixOf, if_pos rfl, ftp_drop]
  dsimp only
  rw [hnone]
  exact splitAddress_keeps _ _ _

theorem convert_ftp_userInfo (hat : atSign ∈ rest)
    (hbehind : ∀ login behind, strchr colon rest = some (login, behind) → atSign ∈ behind) :
    ∃ ui login after, convertURLToUI (ascii "ftp://" ++ rest) =
      .done 0 ui (ascii "ftp://" ++ login ++ 0 :: after) := by
  rw [convertURLToUI, ftp_isPrefixOf, if_pos rfl, ftp_drop]
  dsimp only
  cases hcut : strchr atSign rest with
  | none => exact absurd hat ((strchr_eq_none_iff _ _).mp hcut)
  | some r =>
    obtain ⟨login, afterAt⟩ := r
    cases hcolon : strchr colon rest with
    | none =>
      obtain ⟨ui, hui⟩ := splitAddress_keeps
        { Iurlinfo.zero with protocol := .ftp, login := some login }
        (ascii "ftp://" ++ login ++ [0]) afterAt
      refine ⟨ui, login, afterAt, ?_⟩
      dsimp only
      rw [hui]
      simp
    | some r' =>
      obtain ⟨name, behind⟩ := r'
      have hmem := hbehind name behind hcolon
      cases hsecond : strchr atSign behind with
      | none => exact absurd hmem ((strchr_eq_none_iff _ _).mp hsecond)
      | some r'' =>
        obtain ⟨password, host⟩ := r''
        obtain ⟨ui, hui⟩ := splitAddress_keeps
          { Iurlinfo.zero with protocol := .ftp, login := some name, password := some password }
          (ascii "ftp://" ++ name ++ 0 :: password ++ [0]) host
        refine ⟨ui, name, password ++ 0 :: host, ?_⟩
        dsimp only
        rw [hsecond]
        dsimp only
        rw [hui]
        simp

/-- A colon with no at sign behind it leads to a NULL pointer. -/
theorem convert_ftp_crash {login behind : Str} (hat : atSign ∈ rest)
    (hcolon : strchr colon rest = some (login, behind)) (hbehind : atSign ∉ behind) :
    convertURLToUI (ascii "ftp://" ++ rest) = .crash := by
  have hnone : strchr atSign behind = none := (strchr_eq_none_iff _ _).mpr hbehind
  rw [convertURLToUI, ftp_isPrefixOf, if_pos rfl, ftp_drop]
  dsimp only
  cases hcut : strchr atSign rest with
  | none => exact absurd hat ((strchr_eq_none_iff _ _).mp hcut)
  | some r =>
    rw [hcolon]
    dsimp only
    rw [hnone]

end Cuts

section Reuse
variable {url : Str}

theorem reusable_of_kept (h0 : (0 : UInt8) ∉ url) {ui : Iurlinfo}
    (h : convertURLToUI url = .done 0 ui url) : Reusable url := by
  intro ui' after hdone
  rw [h, UrlResult.done.injEq] at hdone
  obtain ⟨-, rfl, rfl⟩ := hdone
  refine ⟨rfl, url, ?_⟩
  rw [cString_self h0, h]

/-- A URL stays as it is if and only if it has no user information that is cut off. -/
theorem convertURLToUI_reusable_iff (url : Str) (h0 : (0 : UInt8) ∉ url) :
    Reusable url ↔ ¬ HasUserInfo url := by
  constructor
  · rintro hkeeps ⟨rest, rfl, hat, hbehind⟩
    obtain ⟨ui, login, after, hdone⟩ := convert_ftp_userInfo hat hbehind
    obtain ⟨hsame, -⟩ := hkeeps _ _ hdone
    apply h0
    rw [← hsame]
    simp
  · intro hnone
    by_cases hftp : (ascii "ftp://").isPrefixOf url = true
    · obtain ⟨rest, rfl⟩ := List.isPrefixOf_iff_prefix.mp hftp
      by_cases hat : atSign ∈ rest
      · -- then the colon comes last, and the call does not return
        have hlast : ∃ login behind, strchr colon rest = some (login, behind) ∧
            atSign ∉ behind := by
          by_contra hall
          refine hnone ⟨rest, rfl, hat, fun login behind hcolon => ?_⟩
          by_contra hbehind
          exact hall ⟨login, behind, hcolon, hbehind⟩
        obtain ⟨login, behind, hcolon, hbehind⟩ := hlast
        intro ui after hdone
        rw [convert_ftp_crash hat hcolon hbehind] at hdone
        cases hdone
      · obtain ⟨ui, hdone⟩ := convert_ftp_plain hat
        exact reusable_of_kept h0 hdone
    · by_cases hhttp : (ascii "http://").isPrefixOf url = true
      · obtain ⟨ui, hdone⟩ := convert_http hhttp
        exact reusable_of_kept h0 hdone
      · intro ui after hdone
        rw [convertURLToUI, if_neg hftp, if_neg hhttp, UrlResult.done.injEq] at hdone
        exact absurd hdone.1 (by decide)

theorem convertURLToUI_reusable_http :
    Reusable (ascii "http://mirror/a@b:c") :=
  (convertURLToUI_reusable_iff _ (by decide +kernel)).mpr (by
    rintro ⟨rest, heq, -⟩
    have hfirst := congrArg List.head? heq
    revert hfirst
    simp [ascii])

/-- The second conversion takes the login for the host. -/
theorem userInfo_not_reusable : ¬ Reusable (ascii "ftp://user:pw@mirror/i") := by
  intro h
  have hdone : convertURLToUI (ascii "ftp://user:pw@mirror/i") =
      .done 0 ⟨.ftp, some (ascii "mirror"), some (ascii "user"), some (ascii "pw"),
        some (ascii "/i")⟩ (ascii "ftp://user" ++ 0 :: ascii "pw" ++ 0 :: ascii "mirror/i") := by
    decide +kernel
  obtain ⟨-, after, hagain⟩ := h _ _ hdone
  have hsecond : convertURLToUI
      (cString (ascii "ftp://user" ++ 0 :: ascii "pw" ++ 0 :: ascii "mirror/i")) =
      .done 0 ⟨.ftp, some (ascii "user"), none, none, some (ascii "/")⟩ (ascii "ftp://user") := by
    decide +kernel
  rw [hsecond, UrlResult.done.injEq] at hagain
  exact absurd hagain.2.1 (by decide +kernel)

end Reuse

end Comodoo.UrlReuse
