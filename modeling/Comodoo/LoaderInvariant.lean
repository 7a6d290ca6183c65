import Comodoo.LoaderMain

set_option autoImplicit false

/-!
# The method index along a run

The steps from the driver to the second stage are reached with a method chosen, and the
dialog is skipped only then. The one step that can break this is a mount that is given up:
it forgets the method but may leave the location of the second stage behind.
-/
namespace Comodoo.LoaderInvariant
open CString LoaderSettings LoaderMount LoaderMain StepRun

/-- The settings after a `mountImage` of this step that returned NULL. -/
def givenUp (flags : Flags) (s : State) (a : Answer) : Option LoaderData :=
  match s.step, s.url, methodAt s.ld.method with
  | .stage2, none, some m =>
    match mountImage flags s.ld a.mount m.mountImage with
    | .returned none ld => some ld
    | _ => none
  | _, _, _ => none

/-- A mount that is given up leaves no location of the second stage. -/
def mountClears (flags : Flags) (s : State) (a : Answer) : Bool :=
  (givenUp flags s a).all (fun ld => ld.stage2Data.isNone)

/-- The method is set where the steps rely on it. -/
def StepOk (s : State) : Prop :=
  match s.step with
  | .driver | .driverdisk | .network | .iface | .stage2 => ValidMethod s.ld.method
  | .ip => ValidMethod s.ld.method ∨ s.dir = -1
  | .lang | .kbd | .method | .done => True

structure Inv (s : State) : Prop where
  located : s.step ≠ .done → Located s.ld
  skip : s.step ≠ .done → s.skipMethodDialog = true → ValidMethod s.ld.method
  step : StepOk s

def InRange : Outcome → Prop
  | .badIndex _ => False
  | _ => True

theorem methodAt_of_valid {m : ℤ} (h : ValidMethod m) : ∃ im, methodAt m = some im := by
  obtain ⟨h0, h4⟩ := h
  obtain rfl | rfl | rfl | rfl : m = 0 ∨ m = 1 ∨ m = 2 ∨ m = 3 := by omega
  all_goals exact ⟨_, rfl⟩

theorem inv_of_same {s s' : State} (h : Inv s) (hs : s.step ≠ .done)
    (hm : s'.ld.method = s.ld.method) (h2 : s'.ld.stage2Data = s.ld.stage2Data)
    (hsk : s'.skipMethodDialog = s.skipMethodDialog) (hok : StepOk s') : Inv s' := by
  refine ⟨fun _ => ?_, fun _ => ?_, hok⟩
  · simpa only [Located, hm, h2] using h.located hs
  · simpa only [hm, hsk] using h.skip hs

theorem inv_of_valid {s : State} (h : ValidMethod s.ld.method) : Inv s := by
  refine ⟨fun _ => located_of_valid h, fun _ _ => h, ?_⟩
  unfold StepOk
  split
  all_goals first | exact h | exact .inl h | trivial

theorem leaveKbd_inv {s s' : State} (h : Inv s) (hs : s.step ≠ .done)
    (hm : s'.ld.method = s.ld.method) (h2 : s'.ld.stage2Data = s.ld.stage2Data)
    (hsk : s'.skipMethodDialog = s.skipMethodDialog) : (leaveKbd s').Sat Inv InRange := by
  rw [leaveKbd]
  split
  · by_cases hd : s'.dir = -1
    · rw [if_pos hd]
      exact inv_of_same h hs hm h2 hsk trivial
    · rw [if_neg hd]
      exact inv_of_same h hs hm h2 hsk trivial
  · split
    · exact inv_of_same h hs hm h2 hsk trivial
    · exact inv_of_same h hs hm h2 hsk trivial

theorem stepKbd_inv (flags : Flags) (s : State) (a : Answer) (hs : s.step = .kbd) (h : Inv s) :
    (stepKbd flags s a).Sat Inv InRange := by
  have hne : s.step ≠ .done := by simp [hs]
  rw [stepKbd]
  split
  · split
    · exact inv_of_same h hne rfl rfl rfl (by simp [StepOk, hs])
    · exact leaveKbd_inv h hne rfl rfl rfl
  · split
    · split
      · exact leaveKbd_inv h hne rfl rfl rfl
      · exact leaveKbd_inv h hne rfl rfl rfl
    · exact leaveKbd_inv h hne rfl rfl rfl

theorem leaveMethod_inv {s : State} (h : ValidMethod s.ld.method) :
    (leaveMethod s).Sat Inv InRange := by
  obtain ⟨m, hm⟩ := methodAt_of_valid h
  rw [leaveMethod]
  split
  · exact inv_of_valid h
  · rw [hm]
    exact inv_of_valid h

theorem stepMethod_inv (flags : Flags) (s : State) (a : Answer) (hs : s.step = .method)
    (h : Inv s) : (stepMethod flags s a).Sat Inv InRange := by
  have hloc := h.located (by simp [hs])
  rw [stepMethod]
  split
  · rename_i hset
    apply leaveMethod_inv
    -- a method, or a location that comes with one
    rcases hset with hm | h2
    · exact hloc.1.resolve_left hm
    · exact hloc.2 h2
  · split
    · trivial
    · split
      · rename_i hskip
        exact leaveMethod_inv (h.skip (by simp [hs]) hskip)
      · apply leaveMethod_inv
        have hitem : ((a.menuItem : ℕ) : ℤ) < numMethods := Int.ofNat_lt.mpr a.menuItem.isLt
        exact ⟨Int.natCast_nonneg _, hitem⟩

theorem stepDriver_inv (flags : Flags) (s : State) (a : Answer) (hv : ValidMethod s.ld.method) :
    (stepDriver flags s a).Sat Inv InRange := by
  obtain ⟨m, hm⟩ := methodAt_of_valid hv
  rw [stepDriver]
  split
  · exact inv_of_valid hv
  · split
    · exact inv_of_valid hv
    · split
      · exact inv_of_valid hv
      · split
        · exact inv_of_valid hv
        · rw [hm]
          exact inv_of_valid hv

theorem stepDriverdisk_inv (s : State) (a : Answer) (hv : ValidMethod s.ld.method) :
    (stepDriverdisk s a).Sat Inv InRange := by
  rw [stepDriverdisk]
  split
  · exact inv_of_valid hv
  · split
    · exact inv_of_valid hv
    · exact inv_of_valid hv

theorem stepIface_inv (s : State) (a : Answer) (hv : ValidMethod s.ld.method) :
    (stepIface s a).Sat Inv InRange := by
  rw [stepIface]
  split
  · exact inv_of_valid hv
  · exact inv_of_valid hv

theorem stepNetwork_inv (flags : Flags) (s : State) (a : Answer) (hv : ValidMethod s.ld.method) :
    (stepNetwork flags s a).Sat Inv InRange := by
  obtain ⟨m, hm⟩ := methodAt_of_valid hv
  rw [stepNetwork, hm]
  simp only
  split
  · exact inv_of_valid hv
  · split
    · exact inv_of_valid hv
    · exact stepIface_inv _ a hv

theorem stepIp_inv (s : State) (a : Answer) (hs : s.step = .ip) (h : Inv s) :
    (stepIp s a).Sat Inv InRange := by
  have hok : ValidMethod s.ld.method ∨ s.dir = -1 := by
    have := h.step
    rwa [StepOk, hs] at this
  rw [stepIp]
  split
  · exact inv_of_same h (by simp [hs]) rfl rfl rfl trivial
  · rename_i hdir
    have hv : ValidMethod s.ld.method := hok.resolve_right (fun hd => hdir (.inr hd))
    split
    · exact inv_of_valid hv
    · exact inv_of_valid hv

theorem stepStage2_inv (flags : Flags) (s : State) (a : Answer) (hs : s.step = .stage2)
    (hv : ValidMethod s.ld.method) (hG : mountClears flags s a = true) :
    (stepStage2 flags s a).Sat Inv InRange := by
  obtain ⟨m, hm⟩ := methodAt_of_valid hv
  rw [stepStage2]
  cases hu : s.url with
  | some url => trivial
  | none =>
    simp only [hm]
    cases hmount : mountImage flags s.ld a.mount m.mountImage with
    | waiting => trivial
    | fault => trivial
    | returned url ld =>
      cases url with
      | none =>
        have hclear : ld.stage2Data = none := by
          simpa [mountClears, givenUp, hs, hu, hm, hmount] using hG
        refine ⟨fun _ => ⟨.inl rfl, fun h2 => absurd hclear h2⟩, fun _ hskip => ?_, .inr rfl⟩
        cases hskip
      | some url => exact ⟨fun hne => absurd rfl hne, fun hne => absurd rfl hne, trivial⟩

theorem stepMain_inv (flags : Flags) (s : State) (a : Answer) (h : Inv s)
    (hG : mountClears flags s a = true) : (stepMain flags s a).Sat Inv InRange := by
  have hok := h.step
  unfold StepOk at hok
  unfold stepMain
  cases hs : s.step with
  | lang => exact inv_of_same h (by simp [hs]) rfl rfl rfl trivial
  | kbd => exact stepKbd_inv flags s a hs h
  | method => exact stepMethod_inv flags s a hs h
  | driver => exact stepDriver_inv flags s a (by simpa [hs] using hok)
  | driverdisk => exact stepDriverdisk_inv s a (by simpa [hs] using hok)
  | network => exact stepNetwork_inv flags s a (by simpa [hs] using hok)
  | iface => exact stepIface_inv s a (by simpa [hs] using hok)
  | ip => exact stepIp_inv s a hs h
  | stage2 => exact stepStage2_inv flags s a hs (by simpa [hs] using hok) hG
  | done => trivial

theorem setStage2LocFromCmdline_cdrom (device : Str) (ld : LoaderData) :
    setStage2LocFromCmdline (cdromUrl device) ld = some { ld with method := METHOD_CDROM } := by
  obtain ⟨r, hr⟩ : ∃ r, strtok colon (cdromUrl device) = some r := ⟨_, rfl⟩
  rw [setStage2LocFromCmdline, hr]
  simp [cdromUrl, ascii]

theorem startMain_inv {flags : Flags} {rc : ℤ} {cd : Option Str} {ld : LoaderData} {s : State}
    (hl : Located ld) (h : startMain flags rc cd ld = some s) : Inv s := by
  have hplain : ∀ ld', Located ld' →
      Inv ⟨.lang, ld', none, 1, rc, false, none, false, false⟩ := by
    intro ld' hl'
    refine ⟨fun _ => hl', fun _ hskip => ?_, trivial⟩
    cases hskip
  unfold startMain at h
  split at h
  · split at h
    · rw [setStage2LocFromCmdline_cdrom, Option.map_some] at h
      obtain rfl := Option.some.inj h
      exact inv_of_valid validMethod_cdrom
    · obtain ⟨ld', hld, rfl⟩ := Option.map_eq_some_iff.mp h
      have hl' := setStage2LocFromCmdline_located hld hl
      exact hplain _ hl'
    · obtain rfl := Option.some.inj h
      exact hplain _ hl
  · obtain rfl := Option.some.inj h
    exact hplain _ hl

/-- In every run whose given-up mounts leave no location behind, each evaluation of the method
table is inside it. -/
theorem doLoaderMain_in_range (flags : Flags) (rc : ℤ) (cd : Option Str) (settings : List Setting)
    (ld : LoaderData) (answers : List Answer) (hld : applySettings .initial settings = some ld)
    (hclear : ∀ s, startMain flags rc cd ld = some s →
      along (stepMain flags) (mountClears flags) s answers = true) (m : ℤ) :
    doLoaderMain flags rc cd ld answers ≠ .stopped (.badIndex m) := by
  intro hbad
  rw [doLoaderMain] at hbad
  cases hs : startMain flags rc cd ld with
  | none => simp [hs] at hbad
  | some s =>
    have hinv := startMain_inv (applySettings_located hld located_initial) hs
    have hsat := run_sat (stepMain_inv flags) s answers hinv (hclear s hs)
    rw [hs] at hbad
    rw [show run (stepMain flags) s answers = .stopped (.badIndex m) from hbad] at hsat
    exact hsat

def plainFlags : Flags := ⟨false, false, false, false, false, false⟩

/-- The user accepts everything and all devices are there. -/
def plainAnswer : Answer :=
  ⟨false, 0, none, 0, 1, fun _ => true, 1, 0, false, 0, 0, ⟨[], (none, none), none, [], [], []⟩⟩

/-- No CD in the drive: the mount is given up and the method asked for again. -/
def cdAnswer : Answer := { plainAnswer with mount := { plainAnswer.mount with cd := [.back] } }

/-- The server does not answer, and the user leaves the dialog for another one. -/
def nfsAnswer : Answer :=
  { plainAnswer with mount := { plainAnswer.mount with
    nfs := List.replicate 3 ⟨(none, none), none, false, false, false⟩ } }

theorem doLoaderMain_in_range_cdrom :
    applySettings .initial [] = some .initial ∧
    doLoaderMain plainFlags 0 none .initial (List.replicate 9 cdAnswer) ≠
      .stopped (.badIndex (-1)) := by
  refine ⟨rfl, ?_⟩
  refine doLoaderMain_in_range plainFlags 0 none [] .initial (List.replicate 9 cdAnswer) rfl ?_ (-1)
  intro s hs
  obtain rfl := Option.some.inj hs
  decide

/-- With `stage2=nfs:server:/install.img` the table is read at index -1 after the mount has been
given up. -/
theorem given_up_mount_bad_index :
    (applySettings .initial [.stage2 (ascii "nfs:server:/install.img")]).map (fun ld =>
      doLoaderMain plainFlags 0 none ld (List.replicate 11 nfsAnswer)) =
    some (.stopped (.badIndex (-1))) := by
  decide

end Comodoo.LoaderInvariant
