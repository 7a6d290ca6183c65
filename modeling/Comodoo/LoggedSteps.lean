import Mathlib.Tactic.Common

set_option autoImplicit false

/-!
# Programs that log their steps

A program carries out steps one after the other and may raise an exception. A step succeeds,
raises, or fails without raising (`silent`). `Follows m a plan` says that `m` carries out `plan`
up to the first step that raises, and returns `a` when none does.
-/
namespace Comodoo.LoggedSteps

inductive Outcome where
  | ok
  | silent
  | raised
  deriving DecidableEq, Repr

structure Event (σ : Type) where
  step : σ
  ok : Bool
  deriving DecidableEq, Repr

variable {σ α β ι : Type}

abbrev Logged (σ : Type) : Type → Type := ExceptT Unit (StateM (List (Event σ)))

def record (step : σ) (ok : Bool) : Logged σ Unit :=
  modify fun log => log ++ [⟨step, ok⟩]

/-- A step that raises an exception when it fails. -/
def carryOut (step : σ) (ok : Bool) : Logged σ Unit := do
  record step ok
  unless ok do throw ()

/-- The events of a plan, up to the first step that raises. -/
def executed : List (σ × Outcome) → List (Event σ)
  | [] => []
  | (s, .ok) :: plan => ⟨s, true⟩ :: executed plan
  | (s, .silent) :: plan => ⟨s, false⟩ :: executed plan
  | (s, .raised) :: _ => [⟨s, false⟩]

def raises : List (σ × Outcome) → Bool
  | [] => false
  | (_, .ok) :: plan => raises plan
  | (_, .silent) :: plan => raises plan
  | (_, .raised) :: _ => true

/-- No step before the first one that raises fails silently. -/
def NoSilentFailure : List (σ × Outcome) → Prop
  | [] => True
  | (_, .ok) :: plan => NoSilentFailure plan
  | (_, .silent) :: _ => False
  | (_, .raised) :: _ => True

instance : (plan : List (σ × Outcome)) → Decidable (NoSilentFailure plan)
  | [] => isTrue trivial
  | (_, .ok) :: plan => instDecidableNoSilentFailure plan
  | (_, .silent) :: _ => isFalse id
  | (_, .raised) :: _ => isTrue trivial

theorem raises_append (p q : List (σ × Outcome)) : raises (p ++ q) = (raises p || raises q) := by
  induction p with
  | nil => rfl
  | cons x p ih =>
    obtain ⟨s, outcome⟩ := x
    cases outcome with
    | ok | silent => exact ih
    | raised => rfl

theorem executed_append (p q : List (σ × Outcome)) :
    executed (p ++ q) = if raises p then executed p else executed p ++ executed q := by
  induction p with
  | nil => rfl
  | cons x p ih =>
    obtain ⟨s, outcome⟩ := x
    cases outcome with
    | ok | silent =>
      simp only [List.cons_append, executed, raises]
      rw [ih]
      exact apply_ite _ _ _ _
    | raised => rfl

/-- `m` carries out `plan` and returns `a`. -/
def Follows (m : Logged σ α) (a : α) (plan : List (σ × Outcome)) : Prop :=
  ∀ log, m.run.run log = (if raises plan then .error () else .ok a, log ++ executed plan)

theorem Follows.pure (a : α) : Follows (pure a : Logged σ α) a [] := by
  intro log
  rw [executed, List.append_nil]
  rfl

theorem Follows.bind {m : Logged σ α} {k : α → Logged σ β} {a : α} {b : β}
    {p q : List (σ × Outcome)} (hm : Follows m a p) (hk : Follows (k a) b q) :
    Follows (m >>= k) b (p ++ q) := by
  intro log
  rw [raises_append, executed_append, ExceptT.run_bind, StateT.run_bind, hm log]
  cases hp : raises p with
  | true => rfl
  | false =>
    show (k a).run.run (log ++ executed p) = _
    rw [hk]
    simp

theorem Follows.bind_of_raises {m : Logged σ α} {k : α → Logged σ β} {a : α}
    {p : List (σ × Outcome)} (hm : Follows m a p) (hp : raises p = true) (b : β) :
    Follows (m >>= k) b p := by
  intro log
  rw [ExceptT.run_bind, StateT.run_bind, hm log, hp]
  rfl

theorem Follows.record (step : σ) (ok : Bool) :
    Follows (record step ok) () [(step, if ok then .ok else .silent)] := by
  intro log
  cases ok <;> rfl

theorem Follows.carryOut (step : σ) (ok : Bool) :
    Follows (carryOut step ok) () [(step, if ok then .ok else .raised)] := by
  intro log
  cases ok <;> rfl

theorem Follows.forM {f : ι → Logged σ PUnit} {plan : ι → List (σ × Outcome)}
    (hf : ∀ i, Follows (f i) ⟨⟩ (plan i)) (is : List ι) :
    Follows (is.forM f) ⟨⟩ (is.flatMap plan) := by
  induction is with
  | nil => exact .pure _
  | cons i is ih => exact .bind (hf i) ih

def StopsAtFailure (log : List (Event σ)) : Prop :=
  ∀ before e after, log = before ++ e :: after → e.ok = false → after = []

theorem stopsAtFailure_cons {e : Event σ} {log : List (Event σ)} :
    StopsAtFailure (e :: log) ↔ (e.ok = false → log = []) ∧ StopsAtFailure log := by
  constructor
  · intro h
    refine ⟨fun he => h [] e log rfl he, ?_⟩
    intro before e' after hlog he'
    exact h (e :: before) e' after (by rw [hlog, List.cons_append]) he'
  · rintro ⟨hfirst, hrest⟩ before e' after hlog he'
    cases before with
    | nil =>
      cases hlog
      exact hfirst he'
    | cons e₁ before =>
      cases hlog
      exact hrest before e' after rfl he'

theorem executed_ne_nil {x : σ × Outcome} {plan : List (σ × Outcome)} :
    executed (x :: plan) ≠ [] := by
  obtain ⟨s, outcome⟩ := x
  cases outcome <;> exact List.cons_ne_nil _ _

theorem stopsAtFailure_nil : StopsAtFailure ([] : List (Event σ)) := by
  intro before e after hlog
  cases before <;> cases hlog

theorem stopsAtFailure_executed {plan : List (σ × Outcome)} (h : NoSilentFailure plan) :
    StopsAtFailure (executed plan) := by
  induction plan with
  | nil => exact stopsAtFailure_nil
  | cons x plan ih =>
    obtain ⟨s, outcome⟩ := x
    cases outcome with
    | ok => exact stopsAtFailure_cons.mpr ⟨nofun, ih h⟩
    | silent => exact h.elim
    | raised => exact stopsAtFailure_cons.mpr ⟨fun _ => rfl, stopsAtFailure_nil⟩

/-- When the last step cannot fail, the run stops at every failure just if none is silent. -/
theorem stopsAtFailure_executed_iff (plan : List (σ × Outcome)) (last : σ) :
    StopsAtFailure (executed (plan ++ [(last, .ok)])) ↔
      NoSilentFailure (plan ++ [(last, .ok)]) := by
  refine ⟨fun h => ?_, stopsAtFailure_executed⟩
  induction plan with
  | nil => trivial
  | cons x plan ih =>
    obtain ⟨s, outcome⟩ := x
    cases outcome with
    | ok => exact ih (stopsAtFailure_cons.mp h).2
    | silent =>
      have hnil := (stopsAtFailure_cons.mp h).1 rfl
      cases plan <;> exact executed_ne_nil hnil
    | raised => trivial

theorem step_mem_of_mem_executed {plan : List (σ × Outcome)} {e : Event σ}
    (he : e ∈ executed plan) : e.step ∈ plan.map Prod.fst := by
  induction plan with
  | nil => exact absurd he List.not_mem_nil
  | cons x plan ih =>
    obtain ⟨s, outcome⟩ := x
    rw [List.map_cons, List.mem_cons]
    cases outcome with
    | ok | silent =>
      rw [executed, List.mem_cons] at he
      exact he.imp (congrArg Event.step) ih
    | raised =>
      rw [executed, List.mem_singleton] at he
      exact .inl (congrArg Event.step he)

theorem raises_of_mem {plan : List (σ × Outcome)} {step : σ} (h : (step, .raised) ∈ plan) :
    raises plan = true := by
  induction plan with
  | nil => exact absurd h List.not_mem_nil
  | cons x plan ih =>
    obtain ⟨s, outcome⟩ := x
    cases outcome with
    | ok | silent => exact ih (by simpa using h)
    | raised => rfl

/-- A run that gets to its last step has met no exception. -/
theorem raises_eq_false_of_mem {plan : List (σ × Outcome)} {last : σ × Outcome}
    (hlast : last.1 ∉ plan.map Prod.fst) {e : Event σ} (he : e ∈ executed (plan ++ [last]))
    (hstep : e.step = last.1) : raises plan = false := by
  rw [executed_append] at he
  cases hraises : raises plan with
  | false => rfl
  | true =>
    rw [hraises] at he
    have hmem := step_mem_of_mem_executed he
    rw [hstep] at hmem
    exact absurd hmem hlast

theorem executed_eq_map {plan : List (σ × Outcome)} (hsilent : NoSilentFailure plan)
    (hraises : raises plan = false) :
    executed plan = plan.map fun x => ⟨x.1, true⟩ := by
  induction plan with
  | nil => rfl
  | cons x plan ih =>
    obtain ⟨s, outcome⟩ := x
    cases outcome with
    | ok => rw [executed, ih hsilent hraises, List.map_cons]
    | silent => exact hsilent.elim
    | raised => exact Bool.noConfusion hraises

end Comodoo.LoggedSteps
