import Comodoo.LoaderMain

set_option autoImplicit false

/-!
# A repository and its second stage

`doLoaderMain` guesses the second stage from `repo=` by hanging `/images/install.img` on it, and
corrects a wrong `repo=` by cutting the url of the second stage at `/images`.
-/
namespace Comodoo.RepoCorrection
open CString LoaderSettings LoaderMount StepRun LoaderMain

/-- The second stage that is assumed for a repository. -/
def inferredStage2 (repo : Str) : Str := repo ++ ascii "/images/install.img"

def Recovered (repo : Str) : Prop :=
  ∀ ld, ld.invalidRepoParam = true → (correctRepo (inferredStage2 repo) ld).instRepo = some repo

section Inference
variable {flags : Flags} {s : State} {a : Answer} {ld : LoaderData} {repo : Str}

theorem startMain_inferred (rc : ℤ) (hask : flags.askMethod = false)
    (hstage2 : ld.stage2Data = none) (hrepo : ld.instRepo = some repo) :
    startMain flags rc none ld = (setStage2LocFromCmdline (inferredStage2 repo) ld).map (fun ld =>
      ⟨.lang, { ld with inferredStage2 := true }, none, 1, rc, false, none, false, false⟩) := by
  simp only [startMain, hask, hstage2, hrepo, and_self, ↓reduceIte]
  rfl

/-- A mounted second stage corrects the repository by its url. -/
theorem stepStage2_corrects {m : InstallMethod} {url : Str} (hurl : s.url = none)
    (hm : methodAt s.ld.method = some m)
    (hmount : mountImage flags s.ld a.mount m.mountImage = .returned (some url) ld) :
    ∃ s', stepStage2 flags s a = .running s' ∧ s'.ld = correctRepo url ld := by
  rw [stepStage2, hurl, hm]
  dsimp only
  rw [hmount]
  exact ⟨_, rfl, rfl⟩

end Inference

section Chopping

theorem inferredStage2_eq (repo : Str) :
    inferredStage2 repo = repo ++ (ascii "/images" ++ ascii "/install.img") := rfl

theorem strstr_images_iff (repo : Str) :
    strstr (ascii "/images") (inferredStage2 repo) = some (repo, ascii "/install.img") ↔
      ¬ ascii "/images" <:+: repo :=
  strstr_append_iff (by decide) repo (ascii "/install.img")

theorem correctRepo_inferred (repo : Str) (ld : LoaderData) (hinvalid : ld.invalidRepoParam = true) :
    ∃ before after, strstr (ascii "/images") (inferredStage2 repo) = some (before, after) ∧
      correctRepo (inferredStage2 repo) ld = { ld with instRepo := some before } := by
  obtain ⟨before, after, hfound, -⟩ := strstr_append (ascii "/images") repo (ascii "/install.img")
  refine ⟨before, after, hfound, ?_⟩
  rw [correctRepo, if_pos hinvalid, inferredStage2_eq, hfound]

/-- Guess and correction agree if and only if the repository has no `/images` in it. -/
theorem correctRepo_recovered_iff (repo : Str) : Recovered repo ↔ ¬ ascii "/images" <:+: repo := by
  rw [← strstr_images_iff]
  constructor
  · intro hrecovered
    obtain ⟨before, after, hfound, hcorrect⟩ := correctRepo_inferred repo
      { LoaderData.initial with invalidRepoParam := true } rfl
    have hback := hrecovered { LoaderData.initial with invalidRepoParam := true } rfl
    rw [hcorrect] at hback
    have hbefore : before = repo := Option.some.inj hback
    have hbytes := strstr_eq_some hfound
    rw [hbefore, inferredStage2_eq] at hbytes
    have hafter := List.append_cancel_left (List.append_cancel_left hbytes)
    rw [hfound, hbefore, hafter]
  · intro hfound ld hinvalid
    rw [correctRepo, if_pos hinvalid, hfound]

/-- `http://host/images/f13` comes back as `http://host`. -/
theorem imagesDirectory_not_recovered : ¬ ∀ repo, Recovered repo := by
  intro hall
  have hback := hall (ascii "http://host/images/f13")
    { LoaderData.initial with invalidRepoParam := true } rfl
  have hcut : (correctRepo (inferredStage2 (ascii "http://host/images/f13"))
      { LoaderData.initial with invalidRepoParam := true }).instRepo =
      some (ascii "http://host") := by decide +kernel
  rw [hcut] at hback
  exact absurd hback (by decide +kernel)

end Chopping

end Comodoo.RepoCorrection
