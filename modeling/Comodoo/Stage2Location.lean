import Comodoo.LoaderSettings

set_option autoImplicit false

/-!
# Writing down a second stage location

What `setStage2LocFromCmdline` of `stage-1/method.c` makes of `nfs:host:dir`, `hd:part:dir` and
`harddrive:part:dir`. `strtok` takes any number of colons for one.
-/
namespace Comodoo.Stage2Location
open CString LoaderSettings

inductive Scheme where
  | nfs
  | hd
  | harddrive
  deriving DecidableEq, Repr

def Scheme.name : Scheme → Str
  | .nfs => ascii "nfs"
  | .hd => ascii "hd"
  | .harddrive => ascii "harddrive"

def Scheme.method : Scheme → ℤ
  | .nfs => METHOD_NFS
  | _ => METHOD_HD

def Scheme.data (place directory : Option Str) : Scheme → Stage2Data
  | .nfs => .nfs place directory none
  | _ => .hd place directory

structure Location where
  scheme : Scheme
  place : Str
  directory : Str
  place_plain : colon ∉ place
  directory_plain : colon ∉ directory

def Location.format (l : Location) : Str :=
  l.scheme.name ++ colon :: (l.place ++ colon :: l.directory)

def Location.stored (l : Location) (ld : LoaderData) : LoaderData :=
  { ld with
    method := l.scheme.method,
    stage2Data := some (l.scheme.data (some l.place) (some l.directory)) }

def IsUrl (arg : Str) : Prop := ascii "http:" <+: arg ∨ ascii "ftp:" <+: arg

/-- A scheme with nothing but colons behind it. -/
def OnlyColons (arg : Str) : Prop :=
  ∃ scheme : Scheme, ∃ colons, arg = scheme.name ++ colon :: colons ∧ ∀ b ∈ colons, b = colon

/-- No NULL string is copied, a location arrives in its parts and a URL as it is. -/
def Understood (arg : Str) : Prop :=
  ∀ ld, ∃ ld', setStage2LocFromCmdline arg ld = some ld' ∧
    (∀ l : Location, arg = l.format → ld' = l.stored ld) ∧
    (IsUrl arg → ld' = { ld with method := METHOD_URL, stage2Data := some (.url (some arg)) })

section Tokens
variable {s : Str} {c : UInt8}

theorem strtok_rest (hs : c ∉ s) : (strtok c s).map Prod.fst = if s = [] then none else some s := by
  by_cases hne : s = []
  · subst hne
    rfl
  · rw [if_neg hne, strtok_self hne hs]
    rfl

end Tokens

section Schemes
variable {arg rest : Str} {ld : LoaderData}

theorem setStage2_scheme (scheme : Scheme) (rest : Str) (ld : LoaderData) :
    setStage2LocFromCmdline (scheme.name ++ colon :: rest) ld =
      (strtok colon rest).map (fun c => { ld with
        method := scheme.method,
        stage2Data := some (scheme.data (some c.1) ((strtok colon c.2).map Prod.fst)) }) := by
  have hname : strtok colon (scheme.name ++ colon :: rest) = some (scheme.name, rest) := by
    apply strtok_append
    · cases scheme <;> decide
    · cases scheme <;> decide
  rw [setStage2LocFromCmdline, hname]
  cases scheme with
  | nfs => rfl
  | hd => rfl
  | harddrive => rfl

theorem isUrl_iff : IsUrl arg ↔
    ((ascii "ftp:").isPrefixOf arg = true ∨ (ascii "http:").isPrefixOf arg = true) := by
  rw [IsUrl, List.isPrefixOf_iff_prefix, List.isPrefixOf_iff_prefix]
  exact or_comm

theorem url_token (hurl : IsUrl arg) : strtok colon arg ≠ none := by
  intro hnone
  rw [strtok_eq_none_iff] at hnone
  rcases hurl with ⟨rest, rfl⟩ | ⟨rest, rfl⟩
  · exact absurd (hnone 0x68 (List.mem_append_left rest (by decide))) (by decide)
  · exact absurd (hnone 0x66 (List.mem_append_left rest (by decide))) (by decide)

theorem setStage2_other (hnone : ∀ (scheme : Scheme) rest, arg ≠ scheme.name ++ colon :: rest)
    (ld : LoaderData) : ∃ ld', setStage2LocFromCmdline arg ld = some ld' ∧
      (IsUrl arg → ld' =
        { ld with method := METHOD_URL, stage2Data := some (.url (some arg)) }) := by
  rw [setStage2LocFromCmdline]
  cases htok : strtok colon arg with
  | none => exact ⟨ld, rfl, fun hurl => absurd htok (url_token hurl)⟩
  | some token =>
    have hprefix : ∀ scheme : Scheme, (scheme.name ++ [colon]).isPrefixOf arg = false := by
      intro scheme
      rw [Bool.eq_false_iff]
      intro hpre
      obtain ⟨rest, hrest⟩ := List.isPrefixOf_iff_prefix.mp hpre
      rw [List.append_assoc] at hrest
      exact hnone scheme rest hrest.symm
    have hnfs : (ascii "nfs:").isPrefixOf arg = false := hprefix .nfs
    have hhd : (ascii "hd:").isPrefixOf arg = false := hprefix .hd
    have hharddrive : (ascii "harddrive:").isPrefixOf arg = false := hprefix .harddrive
    dsimp only
    rw [hnfs, if_neg Bool.false_ne_true, isUrl_iff]
    by_cases hurl : (ascii "ftp:").isPrefixOf arg = true ∨ (ascii "http:").isPrefixOf arg = true
    · rw [if_pos hurl]
      exact ⟨_, rfl, fun _ => rfl⟩
    rw [if_neg hurl]
    by_cases hcdrom : (ascii "cdrom:").isPrefixOf arg = true
    · rw [if_pos hcdrom]
      exact ⟨_, rfl, fun h => absurd h hurl⟩
    · rw [if_neg hcdrom, hhd, hharddrive, if_neg (by simp)]
      exact ⟨_, rfl, fun h => absurd h hurl⟩

theorem scheme_not_url (scheme : Scheme) : ¬ IsUrl (scheme.name ++ colon :: rest) := by
  rw [isUrl_iff]
  cases scheme <;> simp [Scheme.name, ascii, List.isPrefixOf]

end Schemes

section Locations
variable {arg rest : Str} {ld : LoaderData}

theorem setStage2_isNone_iff : setStage2LocFromCmdline arg ld = none ↔ OnlyColons arg := by
  constructor
  · intro hnone
    by_contra hcolons
    have hother : ∀ (scheme : Scheme) rest, arg ≠ scheme.name ++ colon :: rest := by
      rintro scheme rest rfl
      rw [setStage2_scheme, Option.map_eq_none_iff, strtok_eq_none_iff] at hnone
      exact hcolons ⟨scheme, rest, rfl, hnone⟩
    obtain ⟨ld', hsome, -⟩ := setStage2_other hother ld
    rw [hnone] at hsome
    cases hsome
  · rintro ⟨scheme, colons, rfl, hcolons⟩
    rw [setStage2_scheme, strtok_eq_none_iff.mpr hcolons]
    rfl

theorem data_inj {scheme : Scheme} {place directory place' directory' : Option Str}
    (h : scheme.data place directory = scheme.data place' directory') :
    place = place' ∧ directory = directory' := by
  cases scheme with
  | nfs => exact ⟨(Stage2Data.nfs.inj h).1, (Stage2Data.nfs.inj h).2.1⟩
  | hd => exact Stage2Data.hd.inj h
  | harddrive => exact Stage2Data.hd.inj h

theorem setStage2_location_iff (l : Location) (ld : LoaderData) :
    setStage2LocFromCmdline l.format ld = some (l.stored ld) ↔
      l.place ≠ [] ∧ l.directory ≠ [] := by
  obtain ⟨scheme, place, directory, hplace, hdirectory⟩ := l
  dsimp only [Location.format, Location.stored]
  rw [setStage2_scheme]
  by_cases hempty : place = []
  · -- the directory moves up
    subst hempty
    refine iff_of_false ?_ (fun hboth => hboth.1 rfl)
    rw [List.nil_append, strtok_delim]
    intro heq
    obtain ⟨token, htoken, hstored⟩ := Option.map_eq_some_iff.mp heq
    have hdata := data_inj (Option.some.inj (congrArg LoaderData.stage2Data hstored))
    obtain ⟨hne, -⟩ := strtok_infix htoken
    exact hne (Option.some.inj hdata.1)
  · rw [strtok_append directory hempty hplace, Option.map_some, strtok_rest hdirectory]
    by_cases hdir : directory = []
    · rw [if_pos hdir]
      refine iff_of_false (fun heq => ?_) (fun hboth => hboth.2 hdir)
      have hdata := data_inj (Option.some.inj
        (congrArg LoaderData.stage2Data (Option.some.inj heq)))
      cases hdata.2
    · rw [if_neg hdir]
      exact iff_of_true rfl ⟨hempty, hdir⟩

/-- An argument is understood if and only if it is no scheme in front of colons only and, where it
is a location, both of its parts are there. -/
theorem setStage2LocFromCmdline_understood_iff (arg : Str) :
    Understood arg ↔ ¬ OnlyColons arg ∧
      ∀ l : Location, arg = l.format → l.place ≠ [] ∧ l.directory ≠ [] := by
  constructor
  · intro hall
    obtain ⟨ld', hsome, hlocation, -⟩ := hall .initial
    constructor
    · intro hcolons
      rw [setStage2_isNone_iff.mpr hcolons] at hsome
      cases hsome
    · rintro l rfl
      rw [hlocation l rfl] at hsome
      exact (setStage2_location_iff l .initial).mp hsome
  · rintro ⟨hcolons, hparts⟩ ld
    by_cases hscheme : ∃ (scheme : Scheme) (rest : Str), arg = scheme.name ++ colon :: rest
    · obtain ⟨scheme, rest, rfl⟩ := hscheme
      cases hsome : setStage2LocFromCmdline (scheme.name ++ colon :: rest) ld with
      | none => exact absurd (setStage2_isNone_iff.mp hsome) hcolons
      | some ld' =>
        refine ⟨ld', rfl, fun l hl => ?_, fun hurl => absurd hurl (scheme_not_url scheme)⟩
        have hstored := (setStage2_location_iff l ld).mpr (hparts l hl)
        rw [← hl, hsome] at hstored
        exact Option.some.inj hstored
    · have hother : ∀ (scheme : Scheme) rest, arg ≠ scheme.name ++ colon :: rest :=
        fun scheme rest heq => hscheme ⟨scheme, rest, heq⟩
      obtain ⟨ld', hsome, hurl⟩ := setStage2_other hother ld
      exact ⟨ld', hsome, fun l hl => absurd hl (hother l.scheme _), hurl⟩

/-- `nfs:` copies NULL, and an empty host takes the directory. -/
theorem nfsAlone_not_understood : ¬ Understood (ascii "nfs:") := by
  intro hall
  obtain ⟨ld', hsome, -⟩ := hall .initial
  have hnone : setStage2LocFromCmdline (ascii "nfs:") .initial = none := by decide +kernel
  rw [hnone] at hsome
  cases hsome

end Locations

end Comodoo.Stage2Location
