import Comodoo.CString
import Comodoo.SystemCalls

set_option autoImplicit false

/-!
# The updates disk

`loadUpdates` of `stage-1/loader.c`: the user chooses a disk and a partition, which is mounted on
`/tmp/update-disk` and copied to `/tmp/updates`. A case without `break` goes on with the next one.
-/
namespace Comodoo.LoadUpdates
open CString SystemCalls

inductive Call where
  | getRemovableDevices
  | deviceMenu (devNames : List Str)
  | getPartitionsList (device : Str)
  | partMenu (partList : List Str)
  /-- "Insert your updates disk into %s and press OK to continue." -/
  | prompt (part : Str)
  | doMultiMount (part : Str)
  | copyDirectory
  | umount
  deriving DecidableEq, Repr

/-- A menu answers with the button, of which 2 is the second one, and the line that is marked.
`doMultiMount` and `copyDirectory` answer whether they succeed. -/
def Answer : Call → Type
  | .getRemovableDevices => List Str
  | .deviceMenu devNames => ℕ × Fin devNames.length
  | .getPartitionsList _ => List Str
  | .partMenu partList => ℕ × Fin partList.length
  | .prompt _ => ℕ
  | .doMultiMount _ | .copyDirectory => Bool
  | .umount => Unit

instance : (c : Call) → DecidableEq (Answer c)
  | .getRemovableDevices | .getPartitionsList _ => inferInstanceAs (DecidableEq (List Str))
  | .deviceMenu devNames => inferInstanceAs (DecidableEq (ℕ × Fin devNames.length))
  | .partMenu partList => inferInstanceAs (DecidableEq (ℕ × Fin partList.length))
  | .prompt _ => inferInstanceAs (DecidableEq ℕ)
  | .doMultiMount _ | .copyDirectory => inferInstanceAs (DecidableEq Bool)
  | .umount => inferInstanceAs (DecidableEq Unit)

abbrev Program := Prog Call Answer

def getRemovableDevices : Program (List Str) := perform Call.getRemovableDevices

def deviceMenu (devNames : List Str) : Program (ℕ × Fin devNames.length) :=
  perform (Call.deviceMenu devNames)

def getPartitionsList (device : Str) : Program (List Str) :=
  perform (Call.getPartitionsList device)

def partMenu (partList : List Str) : Program (ℕ × Fin partList.length) :=
  perform (Call.partMenu partList)

def prompt (part : Str) : Program ℕ := perform (Call.prompt part)

def doMultiMount (part : Str) : Program Bool := perform (Call.doMultiMount part)

def copyDirectory : Program Bool := perform Call.copyDirectory

def umount : Program Unit := perform Call.umount

inductive Stage where
  | device
  | part
  | prompt
  | load
  deriving DecidableEq, Repr

/-- The variables of the loop; `back` stands for `dir == -1`. -/
structure Vars where
  stage : Stage
  back : Bool
  device : Option Str
  part : Option Str
  deriving DecidableEq, Repr

/-- Where the function returns. `died` is the use of a NULL string. -/
inductive Ending where
  | noDevices
  | onlyDevice
  | cancelled
  | loaded
  | died
  deriving DecidableEq, Repr

def loadStage (v : Vars) : Program (Vars ⊕ Ending) :=
  match v.part with
  | none => pure (.inr .died)
  | some part => do
    match ← doMultiMount part with
    | false => pure (.inl { v with stage := .prompt })
    | true => do
      let copied ← copyDirectory
      umount
      -- a copy that fails leaves the stage as it is
      pure (if copied then .inr .loaded else .inl v)

def promptStage (v : Vars) : Program (Vars ⊕ Ending) :=
  match v.part with
  | none => pure (.inr .died)
  | some part => do
    let rc ← prompt part
    pure (.inl (if rc = 2 then { v with stage := .part, back := true }
      else { v with stage := .load }))

def partStage (v : Vars) : Program (Vars ⊕ Ending) :=
  match v.device with
  | none => pure (.inr .died)
  | some device => do
    let partList ← getPartitionsList device
    if partList = [] then
      pure (.inl (if v.back then { v with stage := .device, part := none }
        else { v with stage := .prompt, part := some (ascii "/dev/" ++ device) }))
    else do
      let (rc, num) ← partMenu partList
      if rc = 2 then pure (.inl { v with stage := .device, back := true, part := none })
      else promptStage { v with stage := .load, back := false, part := some (partList.get num) }

def deviceStage (v : Vars) : Program (Vars ⊕ Ending) := do
  let devNames ← getRemovableDevices
  match devNames with
  | [] => pure (.inr .noDevices)
  | [device] =>
    pure (if v.back then .inr .onlyDevice
      else .inl { v with stage := .part, device := some device })
  | devNames => do
    let (rc, num) ← deviceMenu devNames
    if rc = 2 then pure (.inr .cancelled)
    else partStage { v with stage := .part, back := false, device := some (devNames.get num) }

/-- `switch (stage)` -/
def loadUpdates (v : Vars) : Program (Vars ⊕ Ending) :=
  match v.stage with
  | .device => deviceStage v
  | .part => partStage v
  | .prompt => promptStage v
  | .load => loadStage v

def start : Vars := ⟨.device, false, none, none⟩

/-- What the user has been shown and has chosen, and what has become of it. -/
structure Chosen where
  device : Option Str
  part : Option Str
  confirmed : Bool
  mounted : Bool
  copied : Bool
  deriving DecidableEq, Repr

def Chosen.nothing : Chosen := ⟨none, none, false, false, false⟩

/-- The partitions listed are those of the device chosen; what is asked for and mounted is the
partition chosen, or the whole device if it has none; it is mounted only after the user has
confirmed it, never twice at once, and a mount that fails is to be confirmed again. -/
def contract : Monitor Answer Chosen
  | s, .getRemovableDevices, (devNames : List Str) =>
    some { s with device := if devNames.length = 1 then devNames.head? else none }
  | s, .deviceMenu devNames, (rc, num) =>
    some { s with device := if rc = 2 then none else some (devNames.get num) }
  | s, .getPartitionsList device, (partList : List Str) =>
    if s.device = some device then
      some { s with
        part := if partList = [] then some (ascii "/dev/" ++ device) else none, confirmed := false }
    else none
  | s, .partMenu partList, (rc, num) =>
    some { s with part := if rc = 2 then none else some (partList.get num) }
  | s, .prompt part, (rc : ℕ) =>
    if s.part = some part then some { s with confirmed := rc ≠ 2 } else none
  | s, .doMultiMount part, ok =>
    if s.part = some part ∧ s.confirmed = true ∧ s.mounted = false then
      some { s with mounted := ok, confirmed := ok }
    else none
  | s, .copyDirectory, ok => if s.mounted then some { s with copied := ok } else none
  | s, .umount, _ => if s.mounted then some { s with mounted := false } else none

/-- Between two rounds. -/
structure Agrees (v : Vars) (s : Chosen) : Prop where
  unmounted : s.mounted = false
  uncopied : s.copied = false
  device : v.stage ≠ .device → v.device.isSome ∧ s.device = v.device
  part : v.stage = .prompt ∨ v.stage = .load → v.part.isSome ∧ s.part = v.part
  confirmed : v.stage = .load → s.confirmed = true

def Round (r : Vars ⊕ Ending) (s : Chosen) : Prop :=
  r.elim (Agrees · s) (fun e => e ≠ .died ∧ s.mounted = false ∧ (e = .loaded ↔ s.copied = true))

section Steps

variable {v : Vars} {s : Chosen}

theorem accepts_promptStage (part : Str) (hpart : v.part = some part) (hs : s.part = v.part)
    (hdevice : v.device.isSome ∧ s.device = v.device) (hmounted : s.mounted = false)
    (hcopied : s.copied = false) : Accepts contract s (promptStage v) Round := by
  have hboth : v.part.isSome ∧ s.part = v.part := ⟨by rw [hpart]; rfl, hs⟩
  rw [promptStage]
  split
  · rename_i hnone
    rw [hpart] at hnone
    cases hnone
  rename_i part' hpart'
  apply accepts_perform_bind
  intro (rc : ℕ)
  refine ⟨{ s with confirmed := rc ≠ 2 }, if_pos (hs.trans hpart'), (accepts_pure _).mpr ?_⟩
  by_cases hrc : rc = 2
  · rw [if_pos hrc]
    exact ⟨hmounted, hcopied, fun _ => hdevice, by simp, by simp⟩
  · rw [if_neg hrc]
    exact ⟨hmounted, hcopied, fun _ => hdevice, fun _ => hboth, fun _ => by simp [hrc]⟩

theorem accepts_loadStage (hI : Agrees v s) (hstage : v.stage = .load) :
    Accepts contract s (loadStage v) Round := by
  have hboth := hI.part (Or.inr hstage)
  have hdevice := hI.device (by rw [hstage]; decide)
  rw [loadStage]
  split
  · rename_i hnone
    rw [hnone] at hboth
    cases hboth.1
  rename_i part hpart
  have hguard : s.part = some part ∧ s.confirmed = true ∧ s.mounted = false :=
    ⟨hboth.2.trans hpart, hI.confirmed hstage, hI.unmounted⟩
  apply accepts_perform_bind
  intro (ok : Bool)
  refine ⟨{ s with mounted := ok, confirmed := ok }, if_pos hguard, ?_⟩
  cases ok with
  | false =>
    apply (accepts_pure _).mpr
    exact ⟨rfl, hI.uncopied, fun _ => hdevice, fun _ => hboth, by simp⟩
  | true =>
    apply accepts_perform_bind
    intro (copied : Bool)
    refine ⟨{ s with mounted := true, confirmed := true, copied := copied }, rfl, ?_⟩
    apply accepts_perform_bind
    intro r
    refine ⟨{ s with mounted := false, confirmed := true, copied := copied }, rfl, ?_⟩
    apply (accepts_pure _).mpr
    cases copied with
    | true => exact ⟨by decide, rfl, by simp⟩
    | false => exact ⟨rfl, rfl, fun _ => hdevice, fun _ => hboth, fun _ => rfl⟩

theorem accepts_partStage (hsome : v.device.isSome) (hs : s.device = v.device)
    (hmounted : s.mounted = false) (hcopied : s.copied = false) :
    Accepts contract s (partStage v) Round := by
  rw [partStage]
  split
  · rename_i hnone
    rw [hnone] at hsome
    cases hsome
  rename_i device hdevice
  apply accepts_perform_bind
  intro (partList : List Str)
  refine ⟨{ s with
    part := if partList = [] then some (ascii "/dev/" ++ device) else none, confirmed := false },
    if_pos (hs.trans hdevice), ?_⟩
  by_cases hnil : partList = []
  · rw [if_pos hnil, if_pos hnil]
    apply (accepts_pure _).mpr
    split
    · exact ⟨hmounted, hcopied, by simp, by simp, by simp⟩
    · exact ⟨hmounted, hcopied, fun _ => ⟨hsome, hs⟩, fun _ => ⟨rfl, rfl⟩, by simp⟩
  · rw [if_neg hnil, if_neg hnil]
    apply accepts_perform_bind
    intro (answer : ℕ × Fin partList.length)
    refine ⟨{ s with
      part := if answer.1 = 2 then none else some (partList.get answer.2), confirmed := false },
      rfl, ?_⟩
    dsimp only
    by_cases hrc : answer.1 = 2
    · rw [if_pos hrc, if_pos hrc]
      exact (accepts_pure _).mpr ⟨hmounted, hcopied, by simp, by simp, by simp⟩
    · rw [if_neg hrc, if_neg hrc]
      exact accepts_promptStage _ rfl rfl ⟨hsome, hs⟩ hmounted hcopied

theorem accepts_deviceStage (hmounted : s.mounted = false) (hcopied : s.copied = false) :
    Accepts contract s (deviceStage v) Round := by
  have hend : ∀ (s : Chosen) (e : Ending), s.mounted = false → s.copied = false → e ≠ .died →
      e ≠ .loaded → Round (.inr e) s := by
    intro s e hmounted hcopied hdied hloaded
    exact ⟨hdied, hmounted, by simp [hloaded, hcopied]⟩
  apply accepts_perform_bind
  intro (devNames : List Str)
  refine ⟨{ s with device := if devNames.length = 1 then devNames.head? else none }, rfl, ?_⟩
  match devNames with
  | [] => exact (accepts_pure _).mpr (hend _ _ hmounted hcopied (by decide) (by decide))
  | [device] =>
    apply (accepts_pure _).mpr
    split
    · exact hend _ _ hmounted hcopied (by decide) (by decide)
    · exact ⟨hmounted, hcopied, fun _ => ⟨rfl, rfl⟩, by simp, by simp⟩
  | d :: d' :: rest =>
    apply accepts_perform_bind
    intro (answer : ℕ × Fin (d :: d' :: rest).length)
    refine ⟨{ s with
      device := if answer.1 = 2 then none else some ((d :: d' :: rest).get answer.2) }, rfl, ?_⟩
    dsimp only
    by_cases hrc : answer.1 = 2
    · rw [if_pos hrc, if_pos hrc]
      apply (accepts_pure _).mpr
      exact hend _ _ hmounted hcopied (by decide) (by decide)
    · rw [if_neg hrc, if_neg hrc]
      exact accepts_partStage rfl rfl hmounted hcopied

theorem accepts_loadUpdates (v : Vars) (s : Chosen) (hI : Agrees v s) :
    Accepts contract s (loadUpdates v) Round := by
  rw [loadUpdates]
  cases hstage : v.stage with
  | device => exact accepts_deviceStage hI.unmounted hI.uncopied
  | part =>
    have hdevice := hI.device (by rw [hstage]; decide)
    exact accepts_partStage hdevice.1 hdevice.2 hI.unmounted hI.uncopied
  | prompt =>
    have hpart := hI.part (Or.inl hstage)
    obtain ⟨part, hsome⟩ := Option.isSome_iff_exists.mp hpart.1
    exact accepts_promptStage part hsome hpart.2 (hI.device (by rw [hstage]; decide))
      hI.unmounted hI.uncopied
  | load => exact accepts_loadStage hI hstage

end Steps

section Runs

variable {v v' : Vars} {t : List (Event Answer)} {r : Vars ⊕ Ending}

/-- Every run keeps the contract. The disk is not mounted when the function returns, and it returns
as from a loaded disk exactly when a copy has succeeded. -/
theorem loadUpdates_contract (h : Loops loadUpdates start t r) :
    ∃ s, watch contract .nothing t = some s ∧ s.mounted = false ∧
      ∀ e, r = .inr e → e ≠ .died ∧ (e = .loaded ↔ s.copied = true) := by
  have hstart : Agrees start .nothing := ⟨rfl, rfl, by simp [start], by simp [start], by simp [start]⟩
  obtain ⟨s, hw, hr⟩ := loops_watch accepts_loadUpdates h .nothing hstart
  refine ⟨s, hw, ?_⟩
  cases r with
  | inl v => exact ⟨hr.unmounted, by simp⟩
  | inr e =>
    refine ⟨hr.2.1, ?_⟩
    rintro e' he
    cases he
    exact ⟨hr.1, hr.2.2⟩

theorem runs_load {part : Str} {x : Vars ⊕ Ending} (hstage : v.stage = .load)
    (hpart : v.part = some part) (h : Runs (loadUpdates v) t x) :
    (⟨.doMultiMount part, false⟩ : Event Answer) ∈ t ∨
      ∃ copied : Bool, t = [⟨.doMultiMount part, true⟩, ⟨.copyDirectory, copied⟩, ⟨.umount, ()⟩] ∧
        x = if copied then .inr .loaded else .inl v := by
  rw [loadUpdates, hstage] at h
  change Runs (loadStage v) t x at h
  rw [loadStage] at h
  split at h
  · rename_i hnone
    rw [hpart] at hnone
    cases hnone
  rename_i part' hpart'
  cases hpart.symm.trans hpart'
  cases h with
  | call ok rest =>
    cases ok with
    | false => exact Or.inl List.mem_cons_self
    | true =>
      right
      cases rest with
      | call copied rest =>
        cases rest with
        | call r rest =>
          cases rest
          exact ⟨copied, rfl, rfl⟩

/-- Where the disk can be mounted but not copied, the function mounts and copies it again and again
and neither returns nor asks. -/
theorem loadUpdates_copy_fails {part : Str} (hstage : v.stage = .load)
    (hpart : v.part = some part) (h : Loops loadUpdates v t r)
    (hmount : (⟨.doMultiMount part, false⟩ : Event Answer) ∉ t)
    (hcopy : (⟨.copyDirectory, true⟩ : Event Answer) ∉ t) :
    r = .inl v ∧ ∃ n, t = (List.replicate n
      [⟨.doMultiMount part, true⟩, ⟨.copyDirectory, false⟩, ⟨.umount, ()⟩]).flatten := by
  induction h with
  | here x => exact ⟨rfl, 0, rfl⟩
  | last hrun =>
    rcases runs_load hstage hpart hrun with hfail | ⟨copied, rfl, hx⟩
    · exact absurd hfail hmount
    · cases copied with
      | true => exact absurd (by simp) hcopy
      | false => cases hx
  | again hrun rest ih =>
    rw [List.mem_append, not_or] at hmount hcopy
    rcases runs_load hstage hpart hrun with hfail | ⟨copied, rfl, hx⟩
    · exact absurd hfail hmount.1
    · cases copied with
      | true => exact absurd (by simp) hcopy.1
      | false =>
        cases hx
        obtain ⟨hr, n, rfl⟩ := ih hstage hpart hmount.2 hcopy.2
        exact ⟨hr, n + 1, by rw [List.replicate_succ, List.flatten_cons]⟩

def oneDisk : List (Event Answer) :=
  [⟨.getRemovableDevices, [ascii "sda"]⟩, ⟨.getPartitionsList (ascii "sda"), []⟩,
    ⟨.prompt (ascii "/dev/sda"), (1 : ℕ)⟩, ⟨.doMultiMount (ascii "/dev/sda"), true⟩,
    ⟨.copyDirectory, true⟩, ⟨.umount, ()⟩]

theorem loops_oneDisk : Loops loadUpdates start oneDisk (.inr .loaded) := by
  have hdevice : Runs (loadUpdates ⟨.device, false, none, none⟩)
      [⟨.getRemovableDevices, [ascii "sda"]⟩] (.inl ⟨.part, false, some (ascii "sda"), none⟩) := by
    apply runs_perform_bind
    exact .ret _
  have hpart : Runs (loadUpdates ⟨.part, false, some (ascii "sda"), none⟩)
      [⟨.getPartitionsList (ascii "sda"), []⟩]
      (.inl ⟨.prompt, false, some (ascii "sda"), some (ascii "/dev/sda")⟩) := by
    apply runs_perform_bind
    exact .ret _
  have hprompt : Runs (loadUpdates ⟨.prompt, false, some (ascii "sda"), some (ascii "/dev/sda")⟩)
      [⟨.prompt (ascii "/dev/sda"), (1 : ℕ)⟩]
      (.inl ⟨.load, false, some (ascii "sda"), some (ascii "/dev/sda")⟩) := by
    apply runs_perform_bind
    exact .ret _
  have hload : Runs (loadUpdates ⟨.load, false, some (ascii "sda"), some (ascii "/dev/sda")⟩)
      [⟨.doMultiMount (ascii "/dev/sda"), true⟩, ⟨.copyDirectory, true⟩, ⟨.umount, ()⟩]
      (.inr .loaded) := by
    apply runs_perform_bind
    apply runs_perform_bind
    apply runs_perform_bind
    exact .ret _
  exact .again hdevice (.again hpart (.again hprompt (.last hload)))

theorem loadUpdates_copy_fails_once :
    Loops loadUpdates ⟨.load, false, none, some (ascii "/dev/sda")⟩
      [⟨.doMultiMount (ascii "/dev/sda"), true⟩, ⟨.copyDirectory, false⟩, ⟨.umount, ()⟩]
      (.inl ⟨.load, false, none, some (ascii "/dev/sda")⟩) ∧
    ∃ n, ([⟨.doMultiMount (ascii "/dev/sda"), true⟩, ⟨.copyDirectory, false⟩, ⟨.umount, ()⟩] :
      List (Event Answer)) = (List.replicate n [⟨.doMultiMount (ascii "/dev/sda"), true⟩,
        ⟨.copyDirectory, false⟩, ⟨.umount, ()⟩]).flatten := by
  have hround : Runs (loadUpdates ⟨.load, false, none, some (ascii "/dev/sda")⟩)
      [⟨.doMultiMount (ascii "/dev/sda"), true⟩, ⟨.copyDirectory, false⟩, ⟨.umount, ()⟩]
      (.inl ⟨.load, false, none, some (ascii "/dev/sda")⟩) := by
    apply runs_perform_bind
    apply runs_perform_bind
    apply runs_perform_bind
    exact .ret _
  have hloop : Loops loadUpdates ⟨.load, false, none, some (ascii "/dev/sda")⟩
      [⟨.doMultiMount (ascii "/dev/sda"), true⟩, ⟨.copyDirectory, false⟩, ⟨.umount, ()⟩]
      (.inl ⟨.load, false, none, some (ascii "/dev/sda")⟩) := .again hround (.here _)
  exact ⟨hloop, (loadUpdates_copy_fails rfl rfl hloop (by decide) (by decide)).2⟩

theorem loadUpdates_contract_oneDisk :
    ∃ s, watch contract .nothing oneDisk = some s ∧ s.mounted = false ∧ s.copied = true := by
  obtain ⟨s, hw, hmounted, hend⟩ := loadUpdates_contract loops_oneDisk
  exact ⟨s, hw, hmounted, (hend _ rfl).2.mp rfl⟩

end Runs

end Comodoo.LoadUpdates
