import Mathlib.Tactic.Common

set_option autoImplicit false

/-!
# Runs of a step function

A step reads one answer of the environment and either goes on or stops. `along g` says
that every step actually taken meets `g`.
-/
namespace Comodoo.StepRun

inductive Status (σ ο : Type) where
  | running (s : σ)
  | stopped (o : ο)
  deriving DecidableEq, Repr

variable {σ ε ο : Type}

def run (step : σ → ε → Status σ ο) : σ → List ε → Status σ ο
  | s, [] => .running s
  | s, e :: es =>
    match step s e with
    | .running s' => run step s' es
    | .stopped o => .stopped o

def along (step : σ → ε → Status σ ο) (g : σ → ε → Bool) : σ → List ε → Bool
  | _, [] => true
  | s, e :: es =>
    g s e && match step s e with
      | .running s' => along step g s' es
      | .stopped _ => true

theorem run_cons_running {step : σ → ε → Status σ ο} {s s' : σ} {e : ε} (es : List ε)
    (h : step s e = .running s') : run step s (e :: es) = run step s' es := by
  rw [run, h]

theorem run_cons_stopped {step : σ → ε → Status σ ο} {s : σ} {o : ο} {e : ε} (es : List ε)
    (h : step s e = .stopped o) : run step s (e :: es) = .stopped o := by
  rw [run, h]

theorem run_append_stopped {step : σ → ε → Status σ ο} {s : σ} {o : ο} {es : List ε}
    (h : run step s es = .stopped o) (fs : List ε) : run step s (es ++ fs) = .stopped o := by
  induction es generalizing s with
  | nil => simp [run] at h
  | cons e es ih =>
    rw [List.cons_append, run]
    rw [run] at h
    cases hs : step s e with
    | running s'' =>
      rw [hs] at h
      exact ih h
    | stopped o' =>
      rw [hs] at h
      exact h

/-- Where every step from `I` goes on and keeps `I`, no run stops. -/
theorem run_forever {step : σ → ε → Status σ ο} {I : σ → Prop} {e : ε}
    (hstep : ∀ s, I s → ∃ s', step s e = .running s' ∧ I s') {s : σ} (hI : I s) (n : ℕ) :
    ∃ s', run step s (List.replicate n e) = .running s' ∧ I s' := by
  induction n generalizing s with
  | zero => exact ⟨s, rfl, hI⟩
  | succ n ih =>
    obtain ⟨s', hs, hI'⟩ := hstep s hI
    rw [List.replicate_succ, run_cons_running _ hs]
    exact ih hI'

theorem run_replicate_inj {step : σ → ε → Status σ ο} {s : σ} {e : ε} {n m : ℕ} {o o' : ο}
    (hn : run step s (List.replicate n e) = .stopped o)
    (hm : run step s (List.replicate m e) = .stopped o') : o = o' := by
  have hn' := run_append_stopped hn (List.replicate m e)
  have hm' := run_append_stopped hm (List.replicate n e)
  rw [List.replicate_append_replicate] at hn' hm'
  rw [Nat.add_comm, hn'] at hm'
  exact Status.stopped.inj hm'

/-- What holds of a status: `I` while running, `P` once stopped. -/
def Status.Sat (I : σ → Prop) (P : ο → Prop) : Status σ ο → Prop
  | .running s => I s
  | .stopped o => P o

theorem Status.Sat.imp {I J : σ → Prop} {P Q : ο → Prop} {x : Status σ ο} (h : x.Sat I P)
    (hI : ∀ s, I s → J s) (hP : ∀ o, P o → Q o) : x.Sat J Q := by
  cases x with
  | running s => exact hI s h
  | stopped o => exact hP o h

/-- The invariant rule: one step from a good state keeps `I` or stops with `P`. -/
theorem run_sat {step : σ → ε → Status σ ο} {g : σ → ε → Bool} {I : σ → Prop} {P : ο → Prop}
    (hstep : ∀ s e, I s → g s e = true → (step s e).Sat I P) (s : σ) (es : List ε) (hI : I s)
    (hg : along step g s es = true) : (run step s es).Sat I P := by
  induction es generalizing s with
  | nil => exact hI
  | cons e es ih =>
    rw [along, Bool.and_eq_true] at hg
    have h := hstep s e hI hg.1
    rw [run]
    cases hs : step s e with
    | running s' =>
      rw [hs] at h hg
      exact ih s' h hg.2
    | stopped o =>
      rw [hs] at h
      exact h

theorem along_true (step : σ → ε → Status σ ο) (s : σ) (es : List ε) :
    along step (fun _ _ => true) s es = true := by
  induction es generalizing s with
  | nil => rfl
  | cons e es ih =>
    rw [along, Bool.true_and]
    cases step s e with
    | running s' => exact ih s'
    | stopped o => rfl

/-- The same for a step that keeps `I` unguarded. -/
theorem run_keeps {step : σ → ε → Status σ ο} {I : σ → Prop} {P : ο → Prop}
    (hstep : ∀ s e, I s → (step s e).Sat I P) (s : σ) (es : List ε) (hI : I s) :
    (run step s es).Sat I P :=
  run_sat (fun s e hs _ => hstep s e hs) s es hI (along_true step s es)

end Comodoo.StepRun
