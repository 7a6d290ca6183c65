import Comodoo.LoaderMain

set_option autoImplicit false

/-!
# The return code between the loader's steps

`rc` is one variable of `doLoaderMain`, uninitialised at the start and kept from step to step.
A step decides on an old value if what it does changes with the value it is entered with.
-/
namespace Comodoo.LoaderReturnCodes
open CString LoaderSettings LoaderMount StepRun LoaderMain

/-- A result without its `rc`, which the next step may still overwrite. -/
def eraseRc : Status State Outcome → Status State Outcome
  | .running s => .running { s with rc := 0 }
  | .stopped o => .stopped o

def DecidesOnOldRc (flags : Flags) (s : State) (a : Answer) : Prop :=
  ∃ rc, eraseRc (stepMain flags { s with rc := rc } a) ≠ eraseRc (stepMain flags s a)

/-- `STEP_KBD` with no valid keyboard given, `skipLangKbd` set and rescue mode off. -/
structure SkipsKbd (flags : Flags) (s : State) : Prop where
  step : s.step = .kbd
  kbd : ¬ (s.ld.kbd ≠ none ∧ s.ld.kbdSet = true)
  skip : s.skipLangKbd = true
  rescue : flags.rescue = false

def GoesToMethod (flags : Flags) (s : State) (a : Answer) : Prop :=
  ∃ s', stepMain flags s a = .running s' ∧ s'.step = .method ∧ s'.dir = 1

/-- A state of a run, with the answer that it is about to read. -/
def Visits (flags : Flags) (rc : ℤ) (cd : Option Str) (ld : LoaderData) (answers : List Answer)
    (s : State) (a : Answer) : Prop :=
  ∃ s₀ before after, startMain flags rc cd ld = some s₀ ∧ answers = before ++ a :: after ∧
    run (stepMain flags) s₀ before = .running s

/-- Along a run the skipped question leads to `STEP_METHOD`, and no old `rc` is decided on. -/
def SoundRun (flags : Flags) (rc : ℤ) (cd : Option Str) (ld : LoaderData)
    (answers : List Answer) : Prop :=
  ∀ s a, Visits flags rc cd ld answers s a →
    (SkipsKbd flags s → GoesToMethod flags s a) ∧ ¬ DecidesOnOldRc flags s a

section Steps
variable {flags : Flags} {s : State} {a : Answer}

theorem stepKbd_skipped (hs : SkipsKbd flags s) (rc : ℤ) :
    stepMain flags { s with rc := rc } a =
      leaveKbd { s with rc := rc, step := .method, dir := 1 } := by
  obtain ⟨hstep, hkbd, hskip, hrescue⟩ := hs
  have hask : ¬ (flags.rescue = true ∨ s.skipLangKbd = false) := by simp [hrescue, hskip]
  simp only [stepMain, hstep]
  rw [stepKbd, if_neg hkbd, if_neg hask]

theorem skipped_decides (hs : SkipsKbd flags s) : DecidesOnOldRc flags s a := by
  by_contra hnone
  have hsame : ∀ rc, eraseRc (stepMain flags { s with rc := rc } a) =
      eraseRc (stepMain flags s a) := by
    intro rc
    by_contra hne
    exact hnone ⟨rc, hne⟩
  have hback := (hsame LOADER_BACK).trans (hsame 0).symm
  have hlang : eraseRc (leaveKbd { s with rc := LOADER_BACK, step := .method, dir := 1 }) =
      .running { s with rc := 0, step := .lang, dir := -1 } := rfl
  have hmethod : eraseRc (leaveKbd { s with rc := 0, step := .method, dir := 1 }) =
      .running { s with rc := 0, step := .method, dir := 1 } := rfl
  rw [stepKbd_skipped hs, stepKbd_skipped hs, hlang, hmethod, Status.running.injEq,
    State.mk.injEq] at hback
  exact absurd hback.1 (by decide)

theorem skipped_goesToMethod_iff (hs : SkipsKbd flags s) :
    GoesToMethod flags s a ↔ s.rc ≠ LOADER_BACK := by
  have hrun : stepMain flags s a = leaveKbd { s with step := .method, dir := 1 } :=
    stepKbd_skipped hs s.rc
  rw [GoesToMethod, hrun, leaveKbd]
  dsimp only
  by_cases hnoop : s.rc = LOADER_NOOP
  · rw [if_pos hnoop]
    refine iff_of_true ⟨_, rfl, rfl, rfl⟩ ?_
    rw [hnoop]
    decide
  rw [if_neg hnoop]
  by_cases hback : s.rc = LOADER_BACK
  · rw [if_pos hback]
    refine iff_of_false ?_ (not_not_intro hback)
    rintro ⟨s', heq, hstep, -⟩
    cases heq
    cases hstep
  · rw [if_neg hback]
    exact iff_of_true ⟨_, rfl, rfl, rfl⟩ hback

theorem stepKbd_erase (hs : ¬ SkipsKbd flags s) (hstep : s.step = .kbd) (rc : ℤ) :
    eraseRc (stepKbd flags { s with rc := rc } a) = eraseRc (stepKbd flags s a) := by
  rw [stepKbd, stepKbd]
  dsimp only
  by_cases hkbd : s.ld.kbd ≠ none ∧ s.ld.kbdSet = true
  · rw [if_pos hkbd, if_pos hkbd]
    split_ifs <;> rfl
  rw [if_neg hkbd, if_neg hkbd]
  by_cases hask : flags.rescue = true ∨ s.skipLangKbd = false
  · rw [if_pos hask, if_pos hask]
  · rw [not_or, Bool.not_eq_true, Bool.not_eq_false] at hask
    exact absurd ⟨hstep, hkbd, hask.2, hask.1⟩ hs

theorem stepMethod_erase (rc : ℤ) :
    eraseRc (stepMethod flags { s with rc := rc } a) = eraseRc (stepMethod flags s a) := by
  rw [stepMethod, stepMethod]

theorem stepDriver_erase (rc : ℤ) :
    eraseRc (stepDriver flags { s with rc := rc } a) = eraseRc (stepDriver flags s a) := by
  rw [stepDriver, stepDriver]
  dsimp only
  split_ifs
  · rfl
  · rfl
  · rfl
  · rfl
  · cases methodAt s.ld.method <;> rfl

theorem stepDriverdisk_erase (rc : ℤ) :
    eraseRc (stepDriverdisk { s with rc := rc } a) = eraseRc (stepDriverdisk s a) := by
  rw [stepDriverdisk, stepDriverdisk]
  dsimp only
  split_ifs <;> rfl

theorem stepNetwork_erase (rc : ℤ) :
    eraseRc (stepNetwork flags { s with rc := rc } a) = eraseRc (stepNetwork flags s a) := by
  rw [stepNetwork, stepNetwork]
  dsimp only
  cases methodAt s.ld.method with
  | none => rfl
  | some m =>
    dsimp only
    split_ifs <;> rfl

theorem stepIp_erase (rc : ℤ) :
    eraseRc (stepIp { s with rc := rc } a) = eraseRc (stepIp s a) := by
  rw [stepIp, stepIp]
  dsimp only
  split_ifs <;> rfl

theorem stepStage2_erase (rc : ℤ) :
    eraseRc (stepStage2 flags { s with rc := rc } a) = eraseRc (stepStage2 flags s a) := by
  rw [stepStage2, stepStage2]
  dsimp only
  cases s.url with
  | some url => rfl
  | none =>
    cases methodAt s.ld.method with
    | none => rfl
    | some m =>
      dsimp only
      cases mountImage flags s.ld a.mount m.mountImage with
      | waiting => rfl
      | fault => rfl
      | returned url ld => cases url <;> rfl

theorem decides_iff : DecidesOnOldRc flags s a ↔ SkipsKbd flags s := by
  constructor
  · rintro ⟨rc, hne⟩
    by_contra hs
    apply hne
    obtain ⟨step, ld, url, dir, old, needsNetwork, devClass, dialog, skip⟩ := s
    cases step with
    | lang => rfl
    | kbd => exact stepKbd_erase hs rfl rc
    | method => exact stepMethod_erase rc
    | driver => exact stepDriver_erase rc
    | driverdisk => exact stepDriverdisk_erase rc
    | network => exact stepNetwork_erase rc
    | iface => rfl
    | ip => exact stepIp_erase rc
    | stage2 => exact stepStage2_erase rc
    | done => rfl
  · exact skipped_decides

end Steps

/-- While the questions are skipped, the old `rc` at `STEP_LANG` and `STEP_KBD` is not
`LOADER_BACK`: a CD has been found, so `STEP_METHOD` asks nothing. -/
structure NotBack (s : State) : Prop where
  rc : s.skipLangKbd = true → s.step = .lang ∨ s.step = .kbd → s.rc ≠ LOADER_BACK
  dialog : s.skipLangKbd = true → s.skipMethodDialog = true
  url : s.skipLangKbd = true → s.url ≠ none

section Runs
variable {flags : Flags} {s : State} {a : Answer}

abbrev KeepsNotBack (r : Status State Outcome) : Prop := r.Sat NotBack (fun _ => True)

theorem notBack_asked (hoff : s.skipLangKbd = false) : NotBack s := by
  have hvacuous : ∀ {p : Prop}, s.skipLangKbd = true → p := by
    intro p hon
    rw [hoff] at hon
    cases hon
  exact ⟨fun hon _ => hvacuous hon, fun hon => hvacuous hon, fun hon => hvacuous hon⟩

theorem notBack_later (hlang : s.step ≠ .lang) (hkbd : s.step ≠ .kbd)
    (hdialog : s.skipLangKbd = true → s.skipMethodDialog = true)
    (hurl : s.skipLangKbd = true → s.url ≠ none) : NotBack s :=
  ⟨fun _ hearly => (hearly.elim hlang hkbd).elim, hdialog, hurl⟩

theorem leaveKbd_notBack (hrc : s.skipLangKbd = true → s.rc ≠ LOADER_BACK)
    (hdialog : s.skipLangKbd = true → s.skipMethodDialog = true)
    (hurl : s.skipLangKbd = true → s.url ≠ none) : KeepsNotBack (leaveKbd s) := by
  rw [leaveKbd]
  split
  · exact ⟨fun hon _ => hrc hon, hdialog, hurl⟩
  · split
    · exact ⟨fun hon _ => hrc hon, hdialog, hurl⟩
    · exact ⟨fun hon _ => hrc hon, hdialog, hurl⟩

theorem stepKbd_notBack (hrescue : flags.rescue = false) (h : NotBack s) (hstep : s.step = .kbd) :
    KeepsNotBack (stepKbd flags s a) := by
  have hold := fun hon => h.rc hon (Or.inr hstep)
  rw [stepKbd]
  split
  · split
    · exact ⟨fun hon _ => hold hon, h.dialog, h.url⟩
    · refine leaveKbd_notBack ?_ h.dialog h.url
      simp
  · split
    · rename_i hask
      -- the question is asked, so nothing is skipped
      have hoff : s.skipLangKbd = false := hask.resolve_left (by simp [hrescue])
      have hvacuous : ∀ rc, s.skipLangKbd = true → rc ≠ LOADER_BACK := by
        intro rc hon
        rw [hoff] at hon
        cases hon
      split
      · exact leaveKbd_notBack (hvacuous _) h.dialog h.url
      · exact leaveKbd_notBack (hvacuous _) h.dialog h.url
    · exact leaveKbd_notBack hold h.dialog h.url

theorem leaveMethod_notBack (hdialog : s.skipLangKbd = true → s.skipMethodDialog = true)
    (hurl : s.skipLangKbd = true → s.url ≠ none) : KeepsNotBack (leaveMethod s) := by
  rw [leaveMethod]
  split
  · rename_i hrc
    exact ⟨fun _ _ => hrc.2, hdialog, hurl⟩
  · cases methodAt s.ld.method with
    | none => trivial
    | some m => exact notBack_later (by simp) (by simp) hdialog hurl

theorem stepMethod_notBack (h : NotBack s) : KeepsNotBack (stepMethod flags s a) := by
  rw [stepMethod]
  split
  · exact leaveMethod_notBack (fun _ => rfl) h.url
  · split
    · trivial
    · split
      · exact leaveMethod_notBack h.dialog h.url
      · exact leaveMethod_notBack h.dialog h.url

theorem stepDriver_notBack (h : NotBack s) : KeepsNotBack (stepDriver flags s a) := by
  rw [stepDriver]
  split
  · exact notBack_later (by simp) (by simp) h.dialog h.url
  · split
    · exact notBack_asked rfl
    · split
      · exact notBack_later (by simp) (by simp) h.dialog h.url
      · split
        · exact notBack_later (by simp) (by simp) h.dialog h.url
        · cases methodAt s.ld.method with
          | none => trivial
          | some m => exact notBack_later (by simp) (by simp) h.dialog h.url

theorem stepDriverdisk_notBack (h : NotBack s) : KeepsNotBack (stepDriverdisk s a) := by
  rw [stepDriverdisk]
  split
  · exact notBack_asked rfl
  · split
    · exact notBack_later (by simp) (by simp) h.dialog h.url
    · exact notBack_later (by simp) (by simp) h.dialog h.url

theorem stepIface_notBack (hdialog : s.skipLangKbd = true → s.skipMethodDialog = true)
    (hurl : s.skipLangKbd = true → s.url ≠ none) : KeepsNotBack (stepIface s a) := by
  rw [stepIface]
  split
  · exact notBack_later (by simp) (by simp) hdialog hurl
  · exact notBack_later (by simp) (by simp) hdialog hurl

theorem stepNetwork_notBack (h : NotBack s) : KeepsNotBack (stepNetwork flags s a) := by
  rw [stepNetwork]
  cases methodAt s.ld.method with
  | none => trivial
  | some m =>
    dsimp only
    split
    · refine notBack_later ?_ ?_ h.dialog h.url
      · dsimp only
        split_ifs <;> simp
      · dsimp only
        split_ifs <;> simp
    · split
      · exact notBack_later (by simp) (by simp) h.dialog h.url
      · exact stepIface_notBack h.dialog h.url

theorem stepIp_notBack (h : NotBack s) : KeepsNotBack (stepIp s a) := by
  rw [stepIp]
  split
  · exact notBack_later (by simp) (by simp) h.dialog h.url
  · split
    · exact notBack_later (by simp) (by simp) h.dialog h.url
    · exact notBack_later (by simp) (by simp) h.dialog h.url

/-- The dialog comes back only after a failed mount, and none is tried when a CD has been found. -/
theorem stepStage2_notBack (h : NotBack s) : KeepsNotBack (stepStage2 flags s a) := by
  rw [stepStage2]
  cases hurl : s.url with
  | some url => trivial
  | none =>
    have hoff : s.skipLangKbd = false := by
      by_contra hon
      exact h.url (by simpa using hon) hurl
    dsimp only
    cases methodAt s.ld.method with
    | none => trivial
    | some m =>
      dsimp only
      cases mountImage flags s.ld a.mount m.mountImage with
      | waiting => trivial
      | fault => trivial
      | returned url ld =>
        cases url with
        | none => exact notBack_asked hoff
        | some url => exact notBack_asked hoff

theorem stepMain_notBack (hrescue : flags.rescue = false) (h : NotBack s) :
    KeepsNotBack (stepMain flags s a) := by
  rw [stepMain]
  cases hstep : s.step with
  | lang => exact ⟨fun hon _ => h.rc hon (Or.inl hstep), h.dialog, h.url⟩
  | kbd => exact stepKbd_notBack hrescue h hstep
  | method => exact stepMethod_notBack h
  | driver => exact stepDriver_notBack h
  | driverdisk => exact stepDriverdisk_notBack h
  | network => exact stepNetwork_notBack h
  | iface => exact stepIface_notBack h.dialog h.url
  | ip => exact stepIp_notBack h
  | stage2 => exact stepStage2_notBack h
  | done => trivial

theorem startMain_notBack {rc : ℤ} {cd : Option Str} {ld : LoaderData} (hrc : rc ≠ LOADER_BACK)
    (hstart : startMain flags rc cd ld = some s) : NotBack s := by
  unfold startMain at hstart
  split at hstart
  · split at hstart
    · obtain ⟨ld', -, rfl⟩ := Option.map_eq_some_iff.mp hstart
      exact ⟨fun _ _ => hrc, fun _ => rfl, fun _ => Option.some_ne_none _⟩
    · obtain ⟨ld', -, rfl⟩ := Option.map_eq_some_iff.mp hstart
      exact notBack_asked rfl
    · cases hstart
      exact notBack_asked rfl
  · cases hstart
    exact notBack_asked rfl

/-- A run is sound if and only if it never skips the question. Skipping it still leads to
`STEP_METHOD` unless `rc` holds `LOADER_BACK` from the start. -/
theorem doLoaderMain_soundRun_iff (flags : Flags) (rc : ℤ) (cd : Option Str) (ld : LoaderData)
    (answers : List Answer) :
    (SoundRun flags rc cd ld answers ↔
      ∀ s a, Visits flags rc cd ld answers s a → ¬ SkipsKbd flags s) ∧
    (rc ≠ LOADER_BACK → ∀ s a, Visits flags rc cd ld answers s a → SkipsKbd flags s →
      GoesToMethod flags s a) := by
  refine ⟨⟨fun hsound s a hvisit hskips => ?_, fun hnever s a hvisit => ?_⟩, ?_⟩
  · exact (hsound s a hvisit).2 (decides_iff.mpr hskips)
  · have hno := hnever s a hvisit
    exact ⟨fun hskips => absurd hskips hno, fun hdecides => hno (decides_iff.mp hdecides)⟩
  · rintro hrc s a ⟨s₀, before, after, hstart, -, hrun⟩ hskips
    rw [skipped_goesToMethod_iff hskips]
    have hkept : KeepsNotBack (run (stepMain flags) s₀ before) :=
      run_keeps (fun s a => stepMain_notBack hskips.rescue) s₀ before
        (startMain_notBack hrc hstart)
    rw [hrun] at hkept
    exact hkept.rc hskips.skip (Or.inr hskips.step)

end Runs

def quietAnswer : Answer :=
  ⟨false, 0, none, ⟨0, by decide⟩, 1, fun _ => false, 1, 0, false, 0, 0,
    ⟨[], (none, none), none, [], [], []⟩⟩

def quietFlags : Flags := ⟨false, false, false, false, false, false⟩

def atLang (ld : LoaderData) : State :=
  ⟨.lang, ld, some (cdromUrl (ascii "/dev/sr0")), 1, LOADER_BACK, false, none, true, true⟩

/-- With a CD in the drive and 1 in the uninitialised `rc` the loader goes back to the language. -/
theorem staleBack_not_sound : ¬ ∀ flags rc cd ld answers, SoundRun flags rc cd ld answers := by
  intro hall
  have hstart : startMain quietFlags LOADER_BACK (some (ascii "/dev/sr0")) .initial =
      some (atLang { LoaderData.initial with method := METHOD_CDROM }) := by decide +kernel
  have hskips : SkipsKbd quietFlags
      { atLang { LoaderData.initial with method := METHOD_CDROM } with step := .kbd } :=
    ⟨rfl, by decide, rfl, rfl⟩
  have hvisit : Visits quietFlags LOADER_BACK (some (ascii "/dev/sr0")) .initial
      [quietAnswer, quietAnswer]
      { atLang { LoaderData.initial with method := METHOD_CDROM } with step := .kbd }
      quietAnswer := ⟨_, [quietAnswer], [], hstart, rfl, rfl⟩
  have hgoes := (hall _ _ _ _ _ _ _ hvisit).1 hskips
  exact (skipped_goesToMethod_iff hskips).mp hgoes rfl

end Comodoo.LoaderReturnCodes
