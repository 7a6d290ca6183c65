import Comodoo.CString
import Comodoo.DecimalText
import Mathlib.Data.List.Induction

set_option autoImplicit false

/-!
# Counts of RAID devices

`raidstart` and `raidstop` of `stage-2/usr/lib/anaconda/isys.py`, with the functions that call
`mdadm`. `World` adds to `raidCount` which devices the module has started.
-/
namespace Comodoo.RaidCounts
open CString DecimalText HttpHeaders

abbrev newline : UInt8 := 0x0a
abbrev period : UInt8 := 0x2e

/-- What a call meets. `node` is the minor number of the device node: there may be no node, or
`os.stat` raises. `execWithCapture` is what the function of that name in `iutil` gives for the
arguments of `mdadm`, and `none` when it raises; in `iutil` as it stands there is no such function,
which raises too. -/
structure Answers where
  node : Option (Option ℤ)
  execWithCapture : List Str → Option Str

def mdadm (a : Answers) (args : List Str) : Option (List Str) :=
  (a.execWithCapture args).map fun text => (text.splitOn newline).map trim

/-- `int` of a string. -/
def pythonInt (s : Str) : Option ℤ :=
  let (negative, digits) := match trim s with
    | 0x2d :: ds => (true, ds)
    | 0x2b :: ds => (false, ds)
    | ds => (false, ds)
  if digits = [] ∨ ∃ b ∈ digits, isdigit b = false then none
  else some (if negative then -(digitsValue digits : ℤ) else digitsValue digits)

structure RaidInfo where
  major : Str
  minor : Str
  uuid : Str
  level : ℤ
  nrDisks : ℤ
  totalDisks : ℤ
  mdMinor : ℤ
  deriving DecidableEq, Repr

/-- One line of the output; `none` when an exception is raised. -/
def infoLine (info : RaidInfo) (line : Str) : Option RaidInfo :=
  match strstr (ascii " : ") (trim line) with
  | none => some info
  | some (key, value) =>
    if (strstr (ascii " : ") value).isSome then some info
    else if key = ascii "Version" then
      match value.splitOn period with
      | major :: minor :: _ => some { info with major := major, minor := minor }
      | _ => none
    else if key = ascii "UUID" then some { info with uuid := value }
    else if key = ascii "Raid Level" then
      (pythonInt (value.drop 4)).map fun n => { info with level := n }
    else if key = ascii "Raid Devices" then
      (pythonInt value).map fun n => { info with nrDisks := n }
    else if key = ascii "Total Devices" then
      (pythonInt value).map fun n => { info with totalDisks := n }
    else if key = ascii "Preferred Minor" then
      (pythonInt value).map fun n => { info with mdMinor := n }
    else some info

def getRaidInfo (a : Answers) (drive : Str) : Option RaidInfo := do
  let lines ← mdadm a [ascii "-E", drive]
  let info ← lines.foldlM infoLine ⟨ascii "-1", ascii "-1", [], -1, -1, -1, -1⟩
  guard (info.uuid ≠ [])
  pure info

def stopRaid (a : Answers) (mdDevice : Str) : Option Unit := do
  let _ ← mdadm a [ascii "--stop", mdDevice]
  pure ()

def startRaid (a : Answers) (mdDevice : Str) (mdMinor : ℤ) (uuid : Str) : Option Unit := do
  let _ ← mdadm a [ascii "-A", ascii "--uuid=" ++ uuid,
    ascii "--super-minor=" ++ signedDecimal mdMinor, mdDevice]
  pure ()

abbrev Counts := Str → Option ℕ

/-- A key that is missing counts as 0. -/
def count (counts : Counts) (d : Str) : ℕ := (counts d).getD 0

/-- What became of a call: only the count was changed, the commands did their work, one of them
failed, or an exception came before they were tried. -/
inductive Effect where
  | counted
  | done
  | failed
  | raised
  deriving DecidableEq, Repr

def devInode (d : Str) : Str := ascii "/dev/" ++ d

def firstMinor (a : Answers) (mdDevice : Str) : Option ℤ :=
  match a.node with
  | some minor => minor
  | none => pythonInt (mdDevice.drop 2)

/-- The commands of `raidstart`; the minor number is the one of the superblock always. -/
def startCommands (a : Answers) (mdDevice aMember : Str) : Option Unit := do
  let info ← getRaidInfo a (devInode aMember)
  startRaid a (devInode mdDevice) info.mdMinor info.uuid

def startEffect (a : Answers) (mdDevice aMember : Str) : Effect :=
  if (firstMinor a mdDevice).isNone then .raised
  else if (startCommands a mdDevice aMember).isSome then .done
  else .failed

def raidstart (counts : Counts) (mdDevice aMember : Str) (a : Answers) : Counts × Effect :=
  if (counts mdDevice).isSome ∧ count counts mdDevice ≠ 0 then
    (Function.update counts mdDevice (some (count counts mdDevice + 1)), .counted)
  else (Function.update counts mdDevice (some 1), startEffect a mdDevice aMember)

def stopEffect (a : Answers) (mdDevice : Str) : Effect :=
  if (stopRaid a (devInode mdDevice)).isSome then .done else .failed

def raidstop (counts : Counts) (mdDevice : Str) (a : Answers) : Counts × Effect :=
  if (counts mdDevice).isSome ∧ 1 < count counts mdDevice then
    (Function.update counts mdDevice (some (count counts mdDevice - 1)), .counted)
  else
    (if (counts mdDevice).isSome then Function.update counts mdDevice none else counts,
      stopEffect a mdDevice)

inductive Call where
  | start (mdDevice aMember : Str) (a : Answers)
  | stop (mdDevice : Str) (a : Answers)

def Call.device : Call → Str
  | .start d _ _ => d
  | .stop d _ => d

/-- The commands of the call do their work, if it comes to them. -/
def Call.Succeeds : Call → Prop
  | .start d aMember a => startEffect a d aMember = .done
  | .stop d a => stopEffect a d = .done

instance (c : Call) : Decidable c.Succeeds := by
  cases c <;> unfold Call.Succeeds <;> infer_instance

def call (counts : Counts) : Call → Counts × Effect
  | .start d aMember a => raidstart counts d aMember a
  | .stop d a => raidstop counts d a

section Devices

/-- A device is active once the module has started it, until the module stops it. -/
structure World where
  counts : Counts
  active : Str → Bool

def World.step (w : World) (c : Call) : World :=
  let called := call w.counts c
  ⟨called.1, match c with
    | .start d _ _ => if called.2 = .done then Function.update w.active d true else w.active
    | .stop d _ => if called.2 = .done then Function.update w.active d false else w.active⟩

def World.fresh : World := ⟨fun _ => none, fun _ => false⟩

def run (calls : List Call) : World := calls.foldl World.step World.fresh

/-- How many starts of a device have succeeded that no stop has taken back: a start of a device that
is in use and a stop that leaves it in use need no command. -/
def usersStep (users : Str → ℕ) : Call → Str → ℕ
  | .start d aMember a =>
    if 0 < users d ∨ (Call.start d aMember a).Succeeds then
      Function.update users d (users d + 1)
    else users
  | .stop d a =>
    if 1 < users d ∨ (Call.stop d a).Succeeds then Function.update users d (users d - 1)
    else users

def users (calls : List Call) : Str → ℕ := calls.foldl usersStep fun _ => 0

/-- What holds in every state a run goes through. -/
structure Kept (calls : List Call) : Prop where
  started : ∀ before, before <+: calls → ∀ d,
    0 < count (run before).counts d ↔ (run before).active d = true
  balance : ∀ before, before <+: calls → ∀ d, count (run before).counts d = users before d
  failed : ∀ before c, before ++ [c] <+: calls → (call (run before).counts c).2 = .failed →
    ∀ d, count (run (before ++ [c])).counts d = count (run before).counts d

/-- The commands succeed that stand between no use and the first one. -/
def Clean (counts : Counts) (c : Call) : Prop :=
  match c with
  | .start d _ _ => count counts d = 0 → c.Succeeds
  | .stop d _ => count counts d = 1 → c.Succeeds

/-- Every call of the run is clean where it is made. -/
def CleanRun (calls : List Call) : Prop :=
  ∀ before c, before ++ [c] <+: calls → Clean (run before).counts c

end Devices

section Step
variable {counts : Counts} {d e : Str} {aMember : Str} {a : Answers}

theorem isSome_and_count {n : ℕ} :
    ((counts d).isSome ∧ n < count counts d) ↔ n < count counts d := by
  unfold count
  cases counts d with
  | none => simp
  | some k => simp

theorem count_update (n : Option ℕ) :
    count (Function.update counts d n) e = if e = d then n.getD 0 else count counts e := by
  by_cases he : e = d
  · rw [if_pos he, he, count, Function.update_self]
  · rw [if_neg he, count, Function.update_of_ne he]
    rfl

theorem raidstart_counted (h : 0 < count counts d) :
    raidstart counts d aMember a =
      (Function.update counts d (some (count counts d + 1)), .counted) := by
  unfold raidstart
  refine if_pos ?_
  rw [← Nat.pos_iff_ne_zero]
  exact isSome_and_count.mpr h

theorem raidstart_first (h : count counts d = 0) :
    raidstart counts d aMember a =
      (Function.update counts d (some 1), startEffect a d aMember) := by
  unfold raidstart
  exact if_neg fun hboth => hboth.2 h

theorem raidstop_counted (h : 1 < count counts d) :
    raidstop counts d a =
      (Function.update counts d (some (count counts d - 1)), .counted) := by
  unfold raidstop
  exact if_pos (isSome_and_count.mpr h)

theorem raidstop_last (h : count counts d ≤ 1) :
    raidstop counts d a =
      (if (counts d).isSome then Function.update counts d none else counts, stopEffect a d) := by
  unfold raidstop
  exact if_neg fun hboth => absurd hboth.2 (by omega)

theorem count_delete :
    count (if (counts d).isSome then Function.update counts d none else counts) e =
      if e = d then 0 else count counts e := by
  cases hkey : counts d with
  | none =>
    rw [if_neg (by simp)]
    split_ifs with he
    · rw [he, count, hkey]
      rfl
    · rfl
  | some n =>
    rw [if_pos (by simp)]
    exact count_update none

end Step

section Runs
variable {w : World} {c : Call} {d e : Str} {aMember : Str} {a : Answers} {calls before : List Call}
  {used : Str → ℕ}

theorem count_start :
    count (w.step (.start d aMember a)).counts e =
      if e = d then count w.counts d + 1 else count w.counts e := by
  change count (raidstart w.counts d aMember a).1 e = _
  by_cases hcount : 0 < count w.counts d
  · rw [raidstart_counted hcount]
    exact count_update _
  · have hzero : count w.counts d = 0 := by omega
    rw [raidstart_first hzero, hzero]
    exact count_update _

theorem count_stop :
    count (w.step (.stop d a)).counts e =
      if e = d then count w.counts d - 1 else count w.counts e := by
  change count (raidstop w.counts d a).1 e = _
  by_cases hcount : 1 < count w.counts d
  · rw [raidstop_counted hcount]
    exact count_update _
  · have hlast : count w.counts d - 1 = 0 := by omega
    rw [raidstop_last (by omega), hlast]
    exact count_delete

theorem active_start : (w.step (.start d aMember a)).active e =
    if e = d ∧ count w.counts d = 0 ∧ startEffect a d aMember = .done then true
    else w.active e := by
  change (if (raidstart w.counts d aMember a).2 = .done then _ else w.active) e = _
  by_cases hcount : 0 < count w.counts d
  · rw [raidstart_counted hcount, if_neg Effect.noConfusion, if_neg (by omega)]
  · have hzero : count w.counts d = 0 := by omega
    rw [raidstart_first hzero]
    dsimp only
    by_cases hdone : startEffect a d aMember = .done
    · simp [hdone, hzero, Function.update_apply]
    · simp [hdone]

theorem active_stop : (w.step (.stop d a)).active e =
    if e = d ∧ count w.counts d ≤ 1 ∧ stopEffect a d = .done then false else w.active e := by
  change (if (raidstop w.counts d a).2 = .done then _ else w.active) e = _
  by_cases hcount : 1 < count w.counts d
  · rw [raidstop_counted hcount, if_neg Effect.noConfusion, if_neg (by omega)]
  · rw [raidstop_last (by omega)]
    dsimp only
    by_cases hdone : stopEffect a d = .done
    · simp [hdone, Nat.not_lt.mp hcount, Function.update_apply]
    · simp [hdone]

/-- What the module counts is what is in use, and what is in use is active. -/
structure InStep (w : World) (used : Str → ℕ) : Prop where
  balance : ∀ d, count w.counts d = used d
  started : ∀ d, 0 < count w.counts d ↔ w.active d = true

theorem inStep_start (h : InStep w used) (hc : Clean w.counts (.start d aMember a)) :
    InStep (w.step (.start d aMember a)) (usersStep used (.start d aMember a)) := by
  have hused : count w.counts d = used d := h.balance d
  have hgoes : 0 < used d ∨ (Call.start d aMember a).Succeeds := by
    rcases Nat.eq_zero_or_pos (used d) with hzero | hpos
    · exact Or.inr (hc (hused.trans hzero))
    · exact Or.inl hpos
  constructor
  · intro e
    rw [count_start, usersStep, if_pos hgoes, Function.update_apply, hused, h.balance e]
  · intro e
    rw [count_start, active_start]
    by_cases he : e = d
    · subst he
      rw [if_pos rfl, iff_true_left (Nat.succ_pos _)]
      by_cases hzero : count w.counts e = 0
      · exact if_pos ⟨rfl, hzero, hc hzero⟩
      · rw [if_neg (by tauto)]
        exact (h.started e).mp (Nat.pos_of_ne_zero hzero)
    · rw [if_neg he, if_neg (by tauto)]
      exact h.started e

theorem inStep_stop (h : InStep w used) (hc : Clean w.counts (.stop d a)) :
    InStep (w.step (.stop d a)) (usersStep used (.stop d a)) := by
  have hused : count w.counts d = used d := h.balance d
  constructor
  · intro e
    rw [count_stop, usersStep]
    by_cases hgoes : 1 < used d ∨ (Call.stop d a).Succeeds
    · rw [if_pos hgoes, Function.update_apply, hused, h.balance e]
    · -- the device was not in use before
      rw [not_or] at hgoes
      have hzero : used d = 0 := by
        by_contra hne
        exact hgoes.2 (hc (by omega))
      rw [if_neg (not_or.mpr hgoes), hused, hzero, h.balance e]
      split_ifs with he
      · rw [he, hzero]
      · rfl
  · intro e
    rw [count_stop, active_stop]
    by_cases he : e = d
    · subst he
      rw [if_pos rfl]
      rcases Nat.lt_trichotomy (count w.counts e) 1 with hlt | hone | hgt
      · have hidle : w.active e = false := by
          rw [← Bool.not_eq_true, ← h.started e]
          omega
        simp [hidle]
        omega
      · have hdone : stopEffect a e = .done := hc hone
        simp [hone, hdone]
      · rw [if_neg (by omega), ← h.started e]
        omega
    · rw [if_neg he, if_neg (by tauto)]
      exact h.started e

theorem inStep_step (h : InStep w used) (hc : Clean w.counts c) :
    InStep (w.step c) (usersStep used c) := by
  cases c with
  | start d aMember a => exact inStep_start h hc
  | stop d a => exact inStep_stop h hc

theorem run_snoc (calls : List Call) (c : Call) : run (calls ++ [c]) = (run calls).step c := by
  rw [run, List.foldl_append]
  rfl

theorem users_snoc (calls : List Call) (c : Call) :
    users (calls ++ [c]) = usersStep (users calls) c := by
  rw [users, List.foldl_append]
  rfl

theorem inStep_run (hc : CleanRun calls) (hbefore : before <+: calls) :
    InStep (run before) (users before) := by
  induction before using List.reverseRecOn with
  | nil => exact ⟨fun _ => rfl, fun _ => by simp [run, World.fresh, count]⟩
  | append_singleton before c ih =>
    rw [run_snoc, users_snoc]
    exact inStep_step (ih ((List.prefix_append before [c]).trans hbefore)) (hc before c hbefore)

/-- In a clean run a command fails only where the count is 0 and stays 0. -/
theorem count_of_failed (hc : Clean w.counts c) (hfailed : (call w.counts c).2 = .failed)
    (e : Str) : count (w.step c).counts e = count w.counts e := by
  cases c with
  | start d aMember a =>
    exfalso
    change (raidstart w.counts d aMember a).2 = .failed at hfailed
    by_cases hzero : count w.counts d = 0
    · have hdone : startEffect a d aMember = .done := hc hzero
      rw [raidstart_first hzero] at hfailed
      exact Effect.noConfusion (hdone.symm.trans hfailed)
    · rw [raidstart_counted (Nat.pos_of_ne_zero hzero)] at hfailed
      exact Effect.noConfusion hfailed
  | stop d a =>
    change (raidstop w.counts d a).2 = .failed at hfailed
    have hle : count w.counts d ≤ 1 := by
      by_contra hgt
      rw [raidstop_counted (by omega)] at hfailed
      exact Effect.noConfusion hfailed
    rw [raidstop_last hle] at hfailed
    have hzero : count w.counts d = 0 := by
      by_contra hne
      have hdone : stopEffect a d = .done := hc (by omega)
      exact Effect.noConfusion (hdone.symm.trans hfailed)
    rw [count_stop]
    split_ifs with he
    · rw [he, hzero]
    · rfl

theorem kept_of_clean (hc : CleanRun calls) : Kept calls where
  started before hbefore := (inStep_run hc hbefore).started
  balance before hbefore := (inStep_run hc hbefore).balance
  failed before c hbefore hfailed := by
    rw [run_snoc]
    exact count_of_failed (hc before c hbefore) hfailed

theorem clean_of_kept (h : Kept calls) : CleanRun calls := by
  intro before c hc
  have hbefore := h.started before ((List.prefix_append before [c]).trans hc) c.device
  have hafter := h.started (before ++ [c]) hc c.device
  rw [run_snoc] at hafter
  cases c with
  | start d aMember a =>
    -- counted now, so that the start has made it active
    intro hzero
    change 0 < count ((run before).step (.start d aMember a)).counts d ↔ _ at hafter
    rw [count_start, if_pos rfl, iff_true_left (Nat.succ_pos _), active_start] at hafter
    by_contra hbad
    rw [if_neg fun hall => hbad hall.2.2, ← hbefore] at hafter
    exact absurd hafter (hzero ▸ Nat.lt_irrefl 0)
  | stop d a =>
    intro hone
    change 0 < count ((run before).step (.stop d a)).counts d ↔ _ at hafter
    rw [count_stop, if_pos rfl, active_stop] at hafter
    by_contra hbad
    rw [if_neg fun hall => hbad hall.2.2, ← hbefore] at hafter
    change _ ↔ 0 < count (run before).counts d at hafter
    omega

end Runs

theorem raidCount_kept_iff (calls : List Call) : Kept calls ↔ CleanRun calls :=
  ⟨clean_of_kept, kept_of_clean⟩

section AsItStands
variable {calls : List Call}

def Call.answers : Call → Answers
  | .start _ _ a => a
  | .stop _ a => a

def Call.Stops : Call → Prop
  | .start _ _ _ => False
  | .stop _ _ => True

theorem not_succeeds {c : Call} (hno : ∀ args, c.answers.execWithCapture args = none) :
    ¬ c.Succeeds := by
  have hmdadm : ∀ args, mdadm c.answers args = none := fun args => by rw [mdadm, hno]; rfl
  cases c with
  | start d aMember a =>
    change startEffect a d aMember ≠ .done
    have hfails : startCommands a d aMember = none := by
      rw [startCommands, getRaidInfo, show mdadm a _ = none from hmdadm _]
      rfl
    rw [startEffect, hfails]
    cases firstMinor a d with
    | none => exact Effect.noConfusion
    | some minor => exact Effect.noConfusion
  | stop d a =>
    change stopEffect a d ≠ .done
    rw [stopEffect, stopRaid, show mdadm a _ = none from hmdadm _]
    decide

theorem count_of_stops (hstops : ∀ c ∈ calls, c.Stops) (d : Str) :
    count (run calls).counts d = 0 := by
  induction calls using List.reverseRecOn with
  | nil => rfl
  | append_singleton before c ih =>
    rw [List.forall_mem_append] at hstops
    have hzero := ih hstops.1
    have hc : c.Stops := hstops.2 c (List.mem_singleton_self c)
    cases c with
    | start => exact hc.elim
    | stop e a =>
      rw [run_snoc, count_stop]
      split_ifs with he
      · rw [← he, hzero]
      · exact hzero

/-- As the module stands, the counts are right as long as nothing is started. -/
theorem cleanRun_iff_stops (hno : ∀ c ∈ calls, ∀ args, c.answers.execWithCapture args = none) :
    CleanRun calls ↔ ∀ c ∈ calls, c.Stops := by
  constructor
  · intro hclean
    induction calls using List.reverseRecOn with
    | nil => exact fun c hc => absurd hc List.not_mem_nil
    | append_singleton before c ih =>
      rw [List.forall_mem_append] at hno ⊢
      have hstops := ih hno.1 fun first d hd =>
        hclean first d (hd.trans (List.prefix_append before [c]))
      refine ⟨hstops, ?_⟩
      rw [List.forall_mem_singleton]
      have hlast := hclean before c (List.prefix_refl _)
      cases c with
      | start d aMember a =>
        have hfails := not_succeeds (hno.2 _ (List.mem_singleton_self _))
        exact absurd (hlast (count_of_stops hstops d)) hfails
      | stop => trivial
  · intro hstops before c hbefore
    have hmem : ∀ e ∈ before, e.Stops := fun e he =>
      hstops e (hbefore.subset (List.mem_append_left [c] he))
    have hc : c.Stops := hstops c (hbefore.subset (List.mem_append_right before (by simp)))
    cases c with
    | start => exact hc.elim
    | stop d a =>
      intro hone
      rw [count_of_stops hmem d] at hone
      exact absurd hone (by decide)

end AsItStands

/-- What the calls meet without `execWithCapture` in `iutil`. -/
def noCommands (node : Option (Option ℤ)) : Answers := ⟨node, fun _ => none⟩

theorem raidCount_first_start : ¬ Kept [.start (ascii "md0") (ascii "sda1") (noCommands none)] := by
  intro h
  have hclean := clean_of_kept h [] _ (List.prefix_refl _) rfl
  exact absurd hclean (by decide +kernel)

end Comodoo.RaidCounts
