import Comodoo.IsysMount
import Mathlib.Data.List.Induction

set_option autoImplicit false

/-!
# Counts against the kernel

A remount is where the two part: it is counted like a mount, and it is not even tried while the
location is counted. A run stays in step exactly as long as no remount gets that far.
-/
namespace Comodoo.IsysMountCounts
open CString FilePath IsysMount

variable {w : World} {c : Call} {calls : List Call} {l : Str}

section Flags

theorem intercalate_snoc {opts : List Str} (h : opts ≠ []) (opt : Str) :
    [comma].intercalate (opts ++ [opt]) = [comma].intercalate opts ++ comma :: opt := by
  induction opts with
  | nil => exact absurd rfl h
  | cons o opts ih =>
    cases opts with
    | nil => simp [List.intercalate]
    | cons p opts =>
      have hnext := ih (List.cons_ne_nil p opts)
      simp only [List.intercalate, List.cons_append, List.intersperse_cons_cons,
        List.flatten_cons, List.append_assoc] at hnext ⊢
      rw [hnext]

theorem asksRemount_snoc (opts : List Str) :
    asksRemount ([comma].intercalate (opts ++ [ascii "remount"])) = true := by
  have hone : (ascii "remount").splitOn comma = [ascii "remount"] :=
    List.splitOn_eq_singleton (by decide)
  unfold asksRemount
  by_cases h : opts = []
  · rw [h]
    decide
  · rw [intercalate_snoc h, List.splitOn_append_cons_self, hone, List.contains_iff_mem]
    exact List.mem_append_right _ (List.mem_singleton_self _)

theorem asksRemount_of_remount {args : MountArgs} (h : args.remount = true) :
    asksRemount (mountFlags args) = true := by
  unfold mountFlags
  dsimp only
  rw [if_pos h]
  exact asksRemount_snoc _

end Flags

section Step

theorem isSome_and_count {n : ℕ} (counts : Counts) (l : Str) :
    ((counts l).isSome ∧ n < count counts l) ↔ n < count counts l := by
  unfold count
  cases counts l with
  | none => simp
  | some k => simp

theorem count_update_self (counts : Counts) (l : Str) (n : Option ℕ) :
    count (Function.update counts l n) l = n.getD 0 := by
  rw [count, Function.update_self]

section Equations

variable {counts : Counts} {args : MountArgs} {uargs : UmountArgs} {outcome : Result}

theorem mount_counted (h : 0 < count counts (normpath args.location)) (outcome : Result) :
    mount counts args outcome =
      ⟨Function.update counts (normpath args.location)
        (some (count counts (normpath args.location) + 1)), none, .returned none⟩ := by
  unfold mount
  exact if_pos ((isSome_and_count counts _).mpr h)

theorem mount_uncounted (h : count counts (normpath args.location) = 0) (outcome : Result) :
    mount counts args outcome =
      ⟨if outcome.ok then Function.update counts (normpath args.location) (some 1) else counts,
        some (.mount args.fstype args.device (normpath args.location) (mountFlags args)),
        outcome⟩ := by
  unfold mount
  exact if_neg (fun hc => absurd ((isSome_and_count counts _).mp hc) (by omega))

theorem umount_counted (h : 1 < count counts (normpath uargs.what)) (outcome : Result) :
    umount counts uargs true outcome =
      ⟨Function.update counts (normpath uargs.what)
        (some (count counts (normpath uargs.what) - 1)), none, .returned none⟩ := by
  unfold umount
  exact if_pos ((isSome_and_count counts _).mpr h)

theorem umount_last (h : count counts (normpath uargs.what) ≤ 1) (outcome : Result) :
    umount counts uargs true outcome =
      ⟨if outcome.ok ∧ (counts (normpath uargs.what)).isSome
        then Function.update counts (normpath uargs.what) none else counts,
        some (.umount (normpath uargs.what)), outcome⟩ := by
  unfold umount
  exact if_neg (fun hc => absurd ((isSome_and_count counts _).mp hc) (by omega))

theorem count_delete (counts : Counts) (l : Str) (ok : Bool) :
    count (if ok ∧ (counts l).isSome then Function.update counts l none else counts) l =
      if ok then 0 else count counts l := by
  cases ok with
  | false => rfl
  | true =>
    cases h : counts l with
    | none =>
      simp [count, h]
    | some n =>
      simp [count]

end Equations

theorem count_mount (counts : Counts) (args : MountArgs) (outcome : Result) :
    count (mount counts args outcome).counts (normpath args.location) =
      count counts (normpath args.location) +
        if (mount counts args outcome).result.ok then 1 else 0 := by
  by_cases h : 0 < count counts (normpath args.location)
  · rw [mount_counted h, count_update_self]
    rfl
  · have hzero : count counts (normpath args.location) = 0 := by omega
    rw [mount_uncounted hzero]
    dsimp only
    by_cases hok : outcome.ok = true
    · rw [if_pos hok, if_pos hok, count_update_self, hzero]
      rfl
    · rw [if_neg hok, if_neg hok, Nat.add_zero]

theorem count_umount (counts : Counts) (args : UmountArgs) (isdir : Bool) (outcome : Result) :
    count (umount counts args isdir outcome).counts (normpath args.what) =
      count counts (normpath args.what) -
        if (umount counts args isdir outcome).result.ok then 1 else 0 := by
  cases isdir with
  | false => rfl
  | true =>
    by_cases h : 1 < count counts (normpath args.what)
    · rw [umount_counted h, count_update_self]
      rfl
    · rw [umount_last (by omega)]
      dsimp only
      rw [count_delete]
      by_cases hok : outcome.ok = true
      · rw [if_pos hok, if_pos hok]
        omega
      · rw [if_neg hok, if_neg hok, Nat.sub_zero]

theorem step_other (h : c.location ≠ l) :
    (w.step c).counts l = w.counts l ∧ (w.step c).mounts l = w.mounts l := by
  have hne : l ≠ c.location := Ne.symm h
  cases c with
  | mount args outcome =>
    by_cases hc : 0 < count w.counts (normpath args.location)
    · have hcall : call w.counts (.mount args outcome) = _ := mount_counted hc outcome
      unfold World.step
      rw [hcall]
      exact ⟨Function.update_of_ne hne _ _, rfl⟩
    · have hcall : call w.counts (.mount args outcome) = _ := mount_uncounted (by omega) outcome
      unfold World.step
      rw [hcall]
      dsimp only [afterRequest]
      constructor
      · split_ifs
        · exact Function.update_of_ne hne _ _
        · rfl
      · split_ifs
        · rfl
        · exact Function.update_of_ne hne _ _
        · rfl
  | umount args isdir outcome =>
    cases isdir with
    | false => exact ⟨rfl, rfl⟩
    | true =>
      by_cases hc : 1 < count w.counts (normpath args.what)
      · have hcall : call w.counts (.umount args true outcome) = _ := umount_counted hc outcome
        unfold World.step
        rw [hcall]
        exact ⟨Function.update_of_ne hne _ _, rfl⟩
      · have hcall : call w.counts (.umount args true outcome) = _ :=
          umount_last (by omega) outcome
        unfold World.step
        rw [hcall]
        dsimp only [afterRequest]
        constructor
        · split_ifs
          · exact Function.update_of_ne hne _ _
          · rfl
        · split_ifs
          · exact Function.update_of_ne hne _ _
          · rfl

end Step

section Runs

/-- A remount is asked for while nothing is counted, and what is then asked of `_isys` fails if it
is a remount. -/
def Clean (w : World) : Call → Prop
  | .mount args outcome =>
    (args.remount = true → count w.counts (normpath args.location) = 0) ∧
      (count w.counts (normpath args.location) = 0 → asksRemount (mountFlags args) = true →
        outcome.ok = false)
  | .umount _ _ _ => True

/-- What the kernel has at a location, against the count. -/
structure InStep (w : World) (l : Str) : Prop where
  uncounted : count w.counts l = 0 → Owner.own ∉ w.mounts l
  counted : 0 < count w.counts l → ∃ rest, w.mounts l = Owner.own :: rest ∧ Owner.own ∉ rest

theorem inStep_congr {w' : World} (hcount : count w'.counts l = count w.counts l)
    (hmounts : w'.mounts l = w.mounts l) (h : InStep w l) : InStep w' l := by
  constructor
  · rw [hcount, hmounts]
    exact h.uncounted
  · rw [hcount, hmounts]
    exact h.counted

theorem inStep_mount {args : MountArgs} {outcome : Result} (hc : Clean w (.mount args outcome))
    (h : InStep w (normpath args.location)) :
    InStep (w.step (.mount args outcome)) (normpath args.location) := by
  by_cases hcount : 0 < count w.counts (normpath args.location)
  · have hcall : call w.counts (.mount args outcome) = _ := mount_counted hcount outcome
    unfold World.step
    rw [hcall]
    constructor
    · rw [count_update_self]
      intro hzero
      cases hzero
    · intro _
      exact h.counted hcount
  · have hzero : count w.counts (normpath args.location) = 0 := by omega
    have hcall : call w.counts (.mount args outcome) = _ := mount_uncounted hzero outcome
    unfold World.step
    rw [hcall]
    change InStep ⟨_, if outcome.ok = true then _ else _⟩ _
    by_cases hok : outcome.ok = true
    · have hnew : asksRemount (mountFlags args) = false := by
        cases hask : asksRemount (mountFlags args) with
        | false => rfl
        | true =>
          have := hc.2 hzero hask
          rw [hok] at this
          cases this
      rw [if_pos hok, if_pos hok, afterRequest, hnew]
      constructor
      · rw [count_update_self]
        intro hone
        cases hone
      · intro _
        exact ⟨_, Function.update_self .., h.uncounted hzero⟩
    · rw [if_neg hok, if_neg hok]
      exact inStep_congr rfl rfl h

theorem inStep_umount {args : UmountArgs} {isdir : Bool} {outcome : Result}
    (h : InStep w (normpath args.what)) :
    InStep (w.step (.umount args isdir outcome)) (normpath args.what) := by
  cases isdir with
  | false => exact inStep_congr rfl rfl h
  | true =>
    by_cases hcount : 1 < count w.counts (normpath args.what)
    · have hcall : call w.counts (.umount args true outcome) = _ := umount_counted hcount outcome
      unfold World.step
      rw [hcall]
      constructor
      · rw [count_update_self]
        intro hzero
        change _ - 1 = 0 at hzero
        omega
      · intro _
        exact h.counted (by omega)
    · have hcall : call w.counts (.umount args true outcome) = _ :=
        umount_last (by omega) outcome
      unfold World.step
      rw [hcall]
      change InStep ⟨_, if outcome.ok = true then
        Function.update w.mounts (normpath args.what) (w.mounts (normpath args.what)).tail
        else _⟩ _
      by_cases hok : outcome.ok = true
      · have hgone : Owner.own ∉ (w.mounts (normpath args.what)).tail := by
          by_cases hpos : 0 < count w.counts (normpath args.what)
          · obtain ⟨rest, hrest, hno⟩ := h.counted hpos
            rwa [hrest]
          · exact fun hm => h.uncounted (by omega) (List.mem_of_mem_tail hm)
        constructor
        · intro _
          rw [if_pos hok]
          change Owner.own ∉ Function.update w.mounts (normpath args.what) _ (normpath args.what)
          rw [Function.update_self]
          exact hgone
        · rw [count_delete, if_pos hok]
          intro hpos
          cases hpos
      · rw [if_neg (fun hboth => hok hboth.1), if_neg hok]
        exact inStep_congr rfl rfl h

theorem inStep_step (hc : Clean w c) (h : InStep w l) : InStep (w.step c) l := by
  by_cases hl : c.location = l
  · subst hl
    cases c with
    | mount args outcome => exact inStep_mount hc h
    | umount args isdir outcome => exact inStep_umount h
  · obtain ⟨hcounts, hmounts⟩ := step_other (w := w) hl
    exact inStep_congr (congrArg (Option.getD · 0) hcounts) hmounts h

theorem run_snoc (w : World) (calls : List Call) (c : Call) :
    w.run (calls ++ [c]) = (w.run calls).step c := by
  unfold World.run
  rw [List.foldl_append]
  rfl

/-- Every call of the run is clean where it is made. -/
def CleanRun (w : World) (calls : List Call) : Prop :=
  ∀ pre c, pre ++ [c] <+: calls → Clean (w.run pre) c

theorem inStep_run (hw : Fresh w) (hc : CleanRun w calls) {pre : List Call}
    (hpre : pre <+: calls) (l : Str) : InStep (w.run pre) l := by
  induction pre using List.reverseRecOn with
  | nil =>
    have hzero : count w.counts l = 0 := by rw [count, hw.1 l]; rfl
    exact ⟨fun _ => hw.2 l, fun hpos => absurd hpos (by change ¬ 0 < count w.counts l; omega)⟩
  | append_singleton pre c ih =>
    rw [run_snoc]
    exact inStep_step (hc pre c hpre) (ih ((List.prefix_append pre [c]).trans hpre))

end Runs

section Balance

/-- A successful mount of the location that is no remount. -/
def mountsAt (l : Str) (counts : Counts) : Call → Bool
  | .mount args outcome =>
    normpath args.location = l && !args.remount && (mount counts args outcome).result.ok
  | .umount _ _ _ => false

def unmountsAt (l : Str) (counts : Counts) : Call → Bool
  | .mount _ _ => false
  | .umount args isdir outcome =>
    normpath args.what = l && (umount counts args isdir outcome).result.ok

/-- How many calls of a run are of a kind. -/
def tally (kind : Counts → Call → Bool) : World → List Call → ℕ
  | _, [] => 0
  | w, c :: calls => (if kind w.counts c then 1 else 0) + tally kind (w.step c) calls

theorem tally_snoc (kind : Counts → Call → Bool) (w : World) (calls : List Call) (c : Call) :
    tally kind w (calls ++ [c]) =
      tally kind w calls + if kind (w.run calls).counts c then 1 else 0 := by
  induction calls generalizing w with
  | nil => exact Nat.add_comm _ _
  | cons d calls ih =>
    have hrun : w.run (d :: calls) = (w.step d).run calls := rfl
    rw [List.cons_append, tally, tally, ih, hrun]
    omega

theorem count_step (hc : Clean w c) (hdown : unmountsAt l w.counts c = true → 0 < count w.counts l) :
    count (w.step c).counts l + (if unmountsAt l w.counts c then 1 else 0) =
      count w.counts l + if mountsAt l w.counts c then 1 else 0 := by
  by_cases hl : c.location = l
  · subst hl
    cases c with
    | mount args outcome =>
      have hup := count_mount w.counts args outcome
      have hkind : mountsAt (normpath args.location) w.counts (.mount args outcome) =
          (mount w.counts args outcome).result.ok := by
        cases hre : args.remount with
        | false => simp [mountsAt, hre]
        | true =>
          have hzero := hc.1 hre
          have hbad := hc.2 hzero (asksRemount_of_remount hre)
          rw [mount_uncounted hzero]
          simp [mountsAt, hre, hbad]
      change count (mount w.counts args outcome).counts (normpath args.location) + 0 =
        count w.counts (normpath args.location) +
          if mountsAt (normpath args.location) w.counts (.mount args outcome) then 1 else 0
      rw [Nat.add_zero, hup, hkind]
    | umount args isdir outcome =>
      have hdec := count_umount w.counts args isdir outcome
      have hkind : unmountsAt (normpath args.what) w.counts (.umount args isdir outcome) =
          (umount w.counts args isdir outcome).result.ok := by simp [unmountsAt]
      change count (umount w.counts args isdir outcome).counts (normpath args.what) +
        (if unmountsAt (normpath args.what) w.counts (.umount args isdir outcome) then 1 else 0) =
        count w.counts (normpath args.what) + 0
      change unmountsAt (normpath args.what) w.counts (.umount args isdir outcome) = true →
        0 < count w.counts (normpath args.what) at hdown
      rw [hkind] at hdown ⊢
      rw [hdec]
      split_ifs with hok
      · have := hdown hok
        omega
      · rfl
  · have hcounts := (step_other (w := w) hl).1
    have hcount : count (w.step c).counts l = count w.counts l := congrArg (Option.getD · 0) hcounts
    have hno : mountsAt l w.counts c = false ∧ unmountsAt l w.counts c = false := by
      cases c with
      | mount args outcome =>
        change normpath args.location ≠ l at hl
        simp [mountsAt, unmountsAt, hl]
      | umount args isdir outcome =>
        change normpath args.what ≠ l at hl
        simp [mountsAt, unmountsAt, hl]
    rw [hcount, hno.1, hno.2]

theorem count_balance (hc : CleanRun w calls) {pre mid : List Call} (h : pre ++ mid <+: calls)
    (hzero : count (w.run pre).counts l = 0)
    (hpos : ∀ m, m ≠ [] → m <+: mid → count (w.run (pre ++ m)).counts l ≠ 0) :
    count (w.run (pre ++ mid)).counts l + tally (unmountsAt l) (w.run pre) mid =
      tally (mountsAt l) (w.run pre) mid := by
  induction mid using List.reverseRecOn with
  | nil =>
    rw [List.append_nil, hzero]
    rfl
  | append_singleton mid c ih =>
    rw [← List.append_assoc] at h
    have hih := ih ((List.prefix_append _ [c]).trans h)
      (fun m hm hmid => hpos m hm (hmid.trans (List.prefix_append mid [c])))
    have hclean := hc (pre ++ mid) c h
    have hafter := hpos (mid ++ [c]) (by simp) (List.prefix_refl _)
    have hrun : (w.run pre).run mid = w.run (pre ++ mid) := by
      unfold World.run
      rw [List.foldl_append]
    rw [← List.append_assoc, run_snoc] at hafter
    -- an unmount that found nothing counted would leave nothing counted
    have hdown : unmountsAt l (w.run (pre ++ mid)).counts c = true →
        0 < count (w.run (pre ++ mid)).counts l := by
      intro hkind
      cases c with
      | mount args outcome => cases hkind
      | umount args isdir outcome =>
        have hl : normpath args.what = l := by
          simp only [unmountsAt, Bool.and_eq_true, decide_eq_true_eq] at hkind
          exact hkind.1
        subst hl
        have hdec := count_umount (w.run (pre ++ mid)).counts args isdir outcome
        change count (umount (w.run (pre ++ mid)).counts args isdir outcome).counts _ ≠ 0 at hafter
        omega
    have hstep := count_step (l := l) hclean hdown
    rw [tally_snoc, tally_snoc, hrun, ← List.append_assoc, run_snoc]
    omega

end Balance

section Kept

/-- What a run is meant to keep, in every state it goes through. -/
structure Kept (w : World) (calls : List Call) : Prop where
  /-- What is counted is what is mounted. -/
  mounted : ∀ pre, pre <+: calls → ∀ l,
    Owner.own ∈ (w.run pre).mounts l ↔ 0 < count (w.run pre).counts l
  /-- Since the count was last 0, it has gone up with each mount and down with each unmount. -/
  balance : ∀ pre mid, pre ++ mid <+: calls → ∀ l, count (w.run pre).counts l = 0 →
    (∀ m, m ≠ [] → m <+: mid → count (w.run (pre ++ m)).counts l ≠ 0) →
    count (w.run (pre ++ mid)).counts l + tally (unmountsAt l) (w.run pre) mid =
      tally (mountsAt l) (w.run pre) mid
  failed : ∀ pre c, pre ++ [c] <+: calls → (call (w.run pre).counts c).request.isSome →
    c.outcome.ok = false → ∀ l,
    count (w.run (pre ++ [c])).counts l = count (w.run pre).counts l
  remount : ∀ pre args outcome, pre ++ [.mount args outcome] <+: calls → args.remount = true →
    (call (w.run pre).counts (.mount args outcome)).request =
        some (.mount args.fstype args.device (normpath args.location) (mountFlags args)) ∧
      ∀ l, count (w.run (pre ++ [.mount args outcome])).counts l = count (w.run pre).counts l

theorem counts_of_failed (hreq : (call w.counts c).request.isSome) (hbad : c.outcome.ok = false) :
    (w.step c).counts = w.counts := by
  change (call w.counts c).counts = w.counts
  cases c with
  | mount args outcome =>
    change outcome.ok = false at hbad
    by_cases hcount : 0 < count w.counts (normpath args.location)
    · have hcall : call w.counts (.mount args outcome) = _ := mount_counted hcount outcome
      rw [hcall] at hreq
      cases hreq
    · have hcall : call w.counts (.mount args outcome) = _ :=
        mount_uncounted (by omega) outcome
      rw [hcall, hbad]
      rfl
  | umount args isdir outcome =>
    change outcome.ok = false at hbad
    cases isdir with
    | false => rfl
    | true =>
      by_cases hcount : 1 < count w.counts (normpath args.what)
      · have hcall : call w.counts (.umount args true outcome) = _ :=
          umount_counted hcount outcome
        rw [hcall] at hreq
        cases hreq
      · have hcall : call w.counts (.umount args true outcome) = _ :=
          umount_last (by omega) outcome
        rw [hcall, hbad]
        rfl

theorem kept_of_clean (hw : Fresh w) (hc : CleanRun w calls) : Kept w calls := by
  constructor
  · intro pre hpre l
    have h := inStep_run hw hc hpre l
    constructor
    · intro hown
      exact Nat.pos_of_ne_zero (fun hzero => h.uncounted hzero hown)
    · intro hpos
      obtain ⟨rest, hrest, _⟩ := h.counted hpos
      rw [hrest]
      exact List.mem_cons_self
  · intro pre mid hpre l hzero hpos
    exact count_balance hc hpre hzero hpos
  · intro pre c hpre hreq hbad l
    rw [run_snoc, counts_of_failed hreq hbad]
  · intro pre args outcome hpre hre
    have hclean := hc pre _ hpre
    have hzero := hclean.1 hre
    have hbad := hclean.2 hzero (asksRemount_of_remount hre)
    have hcall : call (w.run pre).counts (.mount args outcome) = _ := mount_uncounted hzero outcome
    have hreq : (call (w.run pre).counts (.mount args outcome)).request.isSome := by
      rw [hcall]
      rfl
    refine ⟨by rw [hcall], fun l => ?_⟩
    rw [run_snoc, counts_of_failed hreq hbad]

theorem clean_of_kept (h : Kept w calls) : CleanRun w calls := by
  intro pre c hpre
  cases c with
  | umount args isdir outcome => trivial
  | mount args outcome =>
    constructor
    · intro hre
      by_contra hzero
      have hcall : call (w.run pre).counts (.mount args outcome) = _ :=
        mount_counted (Nat.pos_of_ne_zero hzero) outcome
      have hreq := (h.remount pre args outcome hpre hre).1
      rw [hcall] at hreq
      cases hreq
    · intro hzero hask
      cases hok : outcome.ok with
      | false => rfl
      | true =>
        -- the count goes up, and nothing is mounted
        have hbefore := h.mounted pre ((List.prefix_append pre _).trans hpre)
          (normpath args.location)
        have hafter := h.mounted _ hpre (normpath args.location)
        have hcall : call (w.run pre).counts (.mount args outcome) = _ :=
          mount_uncounted hzero outcome
        have hcount : count (w.run (pre ++ [.mount args outcome])).counts
            (normpath args.location) = 1 := by
          rw [run_snoc]
          change count (call (w.run pre).counts (.mount args outcome)).counts _ = 1
          rw [hcall]
          dsimp only
          rw [if_pos hok, count_update_self]
          rfl
        have hsame : (w.run (pre ++ [.mount args outcome])).mounts = (w.run pre).mounts := by
          rw [run_snoc]
          unfold World.step
          rw [hcall]
          change (if outcome.ok = true then afterRequest (w.run pre).mounts _ else _) = _
          rw [if_pos hok, afterRequest, if_pos hask]
        rw [hsame, hcount, hbefore, hzero] at hafter
        exact absurd (hafter.mpr Nat.one_pos) (Nat.lt_irrefl 0)

theorem kept_iff (hw : Fresh w) : Kept w calls ↔ CleanRun w calls := by
  constructor
  · exact clean_of_kept
  · exact kept_of_clean hw

def atStart : World := ⟨fun _ => none, fun _ => []⟩

def mountCall (remount : Bool) : Call :=
  .mount ⟨ascii "sda1", ascii "/mnt/sysimage", ascii "ext3", false, false, remount,
    ascii "defaults"⟩ (.returned none)

theorem kept_twoMounts : Kept atStart [mountCall false, mountCall false] := by
  refine (kept_iff ⟨fun _ => rfl, fun _ => List.not_mem_nil⟩).mpr ?_
  intro pre c hpre
  have hc : c = mountCall false := by
    have hmem := hpre.subset (List.mem_append_right pre (List.mem_singleton_self c))
    simpa using hmem
  rw [hc]
  refine ⟨fun hre => absurd hre (by decide), fun _ hask => absurd hask (by decide +kernel)⟩

/-- A remount of something that is mounted does nothing but count. -/
theorem remount_not_kept : ¬ ∀ calls : List Call, Kept atStart calls := by
  intro h
  have hlast := (h [mountCall false, mountCall true]).remount [mountCall false] _ _
    (List.prefix_refl _) rfl
  exact absurd hlast.1 (by decide +kernel)

end Kept

end Comodoo.IsysMountCounts
