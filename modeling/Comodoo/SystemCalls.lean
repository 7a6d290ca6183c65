import Mathlib.Data.Multiset.AddSub
import Mathlib.Data.Sum.Basic
import Mathlib.Tactic.Common

set_option autoImplicit false

/-!
# Programs and the calls they make

A program is a tree: it ends with a value, or makes a call and goes on with the answer. Nothing is
known of the answers, so what holds of all runs holds whatever the surroundings do. A monitor reads
the trace of a run from left to right and may refuse it.
-/
namespace Comodoo.SystemCalls

variable {κ : Type} {ρ : κ → Type} {α β σ S : Type}

inductive Prog (κ : Type) (ρ : κ → Type) (α : Type) where
  | ret (a : α)
  | call (c : κ) (next : ρ c → Prog κ ρ α)

namespace Prog

def bind : Prog κ ρ α → (α → Prog κ ρ β) → Prog κ ρ β
  | .ret a, f => f a
  | .call c next, f => .call c (fun r => (next r).bind f)

instance : Monad (Prog κ ρ) where
  pure := .ret
  bind := Prog.bind

end Prog

def perform (c : κ) : Prog κ ρ (ρ c) := .call c .ret

/-- A call with its answer. -/
abbrev Event (ρ : κ → Type) := Sigma ρ

inductive Runs : Prog κ ρ α → List (Event ρ) → α → Prop where
  | ret (a : α) : Runs (.ret a) [] a
  | call {c : κ} {next : ρ c → Prog κ ρ α} {t : List (Event ρ)} {a : α} (r : ρ c)
      (rest : Runs (next r) t a) : Runs (.call c next) (⟨c, r⟩ :: t) a

theorem runs_bind_iff {p : Prog κ ρ α} {f : α → Prog κ ρ β} {t : List (Event ρ)} {b : β} :
    Runs (p >>= f) t b ↔ ∃ a t₁ t₂, t = t₁ ++ t₂ ∧ Runs p t₁ a ∧ Runs (f a) t₂ b := by
  induction p generalizing t with
  | ret a =>
    constructor
    · intro h
      exact ⟨a, [], t, rfl, .ret a, h⟩
    · rintro ⟨a', t₁, t₂, rfl, h₁, h₂⟩
      cases h₁
      exact h₂
  | call c next ih =>
    constructor
    · intro h
      cases h with
      | call r rest =>
        obtain ⟨a, t₁, t₂, ht, h₁, h₂⟩ := (ih r).mp rest
        exact ⟨a, ⟨c, r⟩ :: t₁, t₂, congrArg _ ht, .call r h₁, h₂⟩
    · rintro ⟨a, t₁, t₂, rfl, h₁, h₂⟩
      cases h₁ with
      | call r rest => exact .call r ((ih r).mpr ⟨a, _, t₂, rfl, rest, h₂⟩)

theorem runs_perform_bind {c : κ} {f : ρ c → Prog κ ρ α} {r : ρ c} {t : List (Event ρ)} {a : α}
    (h : Runs (f r) t a) : Runs (perform c >>= f) (⟨c, r⟩ :: t) a :=
  .call r h

/-- The run on answers that are given by the calls made before. -/
def runWith (answer : List (Event ρ) → (c : κ) → ρ c) :
    Prog κ ρ α → List (Event ρ) → List (Event ρ) × α
  | .ret a, _ => ([], a)
  | .call c next, past =>
    let r := answer past c
    let rest := runWith answer (next r) (past ++ [⟨c, r⟩])
    (⟨c, r⟩ :: rest.1, rest.2)

theorem runs_runWith (answer : List (Event ρ) → (c : κ) → ρ c) (p : Prog κ ρ α)
    (past : List (Event ρ)) : Runs p (runWith answer p past).1 (runWith answer p past).2 := by
  induction p generalizing past with
  | ret a => exact .ret a
  | call c next ih => exact .call (answer past c) (ih _ _)

/-- A monitor: the state after a call and its answer, or a refusal. -/
abbrev Monitor (ρ : κ → Type) (S : Type) := S → (c : κ) → ρ c → Option S

def watch (m : Monitor ρ S) : S → List (Event ρ) → Option S
  | s, [] => some s
  | s, e :: t => (m s e.1 e.2).bind (fun s => watch m s t)

theorem watch_append (m : Monitor ρ S) (s : S) (t u : List (Event ρ)) :
    watch m s (t ++ u) = (watch m s t).bind (fun s => watch m s u) := by
  induction t generalizing s with
  | nil => rfl
  | cons e t ih =>
    change (m s e.1 e.2).bind (fun s => watch m s (t ++ u)) =
      ((m s e.1 e.2).bind (fun s => watch m s t)).bind (fun s => watch m s u)
    cases m s e.1 e.2 with
    | none => rfl
    | some s' => exact ih s'

/-- The monitor goes along with every run from `s`, and `Q` holds of the result and of the state
it ends in. -/
def Accepts (m : Monitor ρ S) (s : S) (p : Prog κ ρ α) (Q : α → S → Prop) : Prop :=
  ∀ t a, Runs p t a → ∃ s', watch m s t = some s' ∧ Q a s'

section Rules

variable {m : Monitor ρ S} {s : S} {Q Q' : α → S → Prop}

@[simp] theorem accepts_ret (a : α) : Accepts m s (.ret a : Prog κ ρ α) Q ↔ Q a s := by
  constructor
  · intro h
    obtain ⟨s', hs, hq⟩ := h [] a (.ret a)
    cases hs
    exact hq
  · intro h t b hrun
    cases hrun
    exact ⟨s, rfl, h⟩

@[simp] theorem accepts_pure (a : α) : Accepts m s (pure a : Prog κ ρ α) Q ↔ Q a s :=
  accepts_ret a

theorem accepts_call {c : κ} {next : ρ c → Prog κ ρ α}
    (h : ∀ r, ∃ s', m s c r = some s' ∧ Accepts m s' (next r) Q) :
    Accepts m s (.call c next) Q := by
  intro t a hrun
  cases hrun with
  | call r rest =>
    obtain ⟨s', hs, hnext⟩ := h r
    obtain ⟨s'', hw, hq⟩ := hnext _ _ rest
    refine ⟨s'', ?_, hq⟩
    change (m s c r).bind _ = _
    rw [hs]
    exact hw

theorem accepts_bind {p : Prog κ ρ α} {f : α → Prog κ ρ β} {R : β → S → Prop}
    (h : Accepts m s p (fun a s' => Accepts m s' (f a) R)) : Accepts m s (p >>= f) R := by
  intro t b hrun
  obtain ⟨a, t₁, t₂, rfl, h₁, h₂⟩ := runs_bind_iff.mp hrun
  obtain ⟨s', hw, hnext⟩ := h t₁ a h₁
  obtain ⟨s'', hw', hr⟩ := hnext t₂ b h₂
  refine ⟨s'', ?_, hr⟩
  rw [watch_append, hw]
  exact hw'

theorem Accepts.imp {p : Prog κ ρ α} (h : Accepts m s p Q) (himp : ∀ a s, Q a s → Q' a s) :
    Accepts m s p Q' := by
  intro t a hrun
  obtain ⟨s', hw, hq⟩ := h t a hrun
  exact ⟨s', hw, himp a s' hq⟩

theorem accepts_perform_bind {c : κ} {f : ρ c → Prog κ ρ α}
    (h : ∀ r, ∃ s', m s c r = some s' ∧ Accepts m s' (f r) Q) :
    Accepts m s (perform c >>= f) Q :=
  accepts_call h

end Rules

/-- Rounds of a loop: what a round leaves is the state of the next one, or the result. A trace may
end between two rounds. -/
inductive Loops (body : σ → Prog κ ρ (σ ⊕ α)) : σ → List (Event ρ) → σ ⊕ α → Prop where
  | here (x : σ) : Loops body x [] (.inl x)
  | last {x : σ} {t : List (Event ρ)} {a : α} (h : Runs (body x) t (.inr a)) :
      Loops body x t (.inr a)
  | again {x y : σ} {t u : List (Event ρ)} {r : σ ⊕ α} (h : Runs (body x) t (.inl y))
      (rest : Loops body y u r) : Loops body x (t ++ u) r

theorem loops_watch {m : Monitor ρ S} {body : σ → Prog κ ρ (σ ⊕ α)} {I : σ → S → Prop}
    {Q : α → S → Prop}
    (hbody : ∀ x s, I x s → Accepts m s (body x) (fun r s' => r.elim (I · s') (Q · s')))
    {x : σ} {t : List (Event ρ)} {r : σ ⊕ α} (hrun : Loops body x t r) :
    ∀ s, I x s → ∃ s', watch m s t = some s' ∧ r.elim (I · s') (Q · s') := by
  induction hrun with
  | here x =>
    intro s hI
    exact ⟨s, rfl, hI⟩
  | last h =>
    intro s hI
    exact hbody _ s hI _ _ h
  | again h rest ih =>
    intro s hI
    obtain ⟨s', hw, hI'⟩ := hbody _ s hI _ _ h
    obtain ⟨s'', hw', hr⟩ := ih s' hI'
    refine ⟨s'', ?_, hr⟩
    rw [watch_append, hw]
    exact hw'

section Held

/-! ## What a program holds

Some calls hand a resource out, others use it or take it back. `holding` keeps the resources that
are out, and refuses a call on what the program does not hold.
-/

inductive Effect (ι : Type) where
  | keep
  | use (i : ι)
  | gain (i : ι)
  | loss (i : ι)

variable {κ : Type} {ρ : κ → Type} {ι S T : Type} [DecidableEq ι]

def holding (effect : (c : κ) → ρ c → Effect ι) : Monitor ρ (Multiset ι) := fun held c r =>
  match effect c r with
  | .keep => some held
  | .use i => if i ∈ held then some held else none
  | .gain i => some (i ::ₘ held)
  | .loss i => if i ∈ held then some (held.erase i) else none

def both (m : Monitor ρ S) (n : Monitor ρ T) : Monitor ρ (S × T) := fun s c r =>
  (m s.1 c r).bind (fun a => (n s.2 c r).map (fun b => (a, b)))

theorem watch_both {m : Monitor ρ S} {n : Monitor ρ T} {t : List (Event ρ)} {s s' : S × T}
    (h : watch (both m n) s t = some s') :
    watch m s.1 t = some s'.1 ∧ watch n s.2 t = some s'.2 := by
  induction t generalizing s with
  | nil =>
    cases h
    exact ⟨rfl, rfl⟩
  | cons e t ih =>
    obtain ⟨next, hnext, hrest⟩ := Option.bind_eq_some_iff.mp h
    obtain ⟨a, ha, hmap⟩ := Option.bind_eq_some_iff.mp hnext
    obtain ⟨b, hb, rfl⟩ := Option.map_eq_some_iff.mp hmap
    have hrest' := ih hrest
    constructor
    · change (m s.1 e.1 e.2).bind _ = _
      rw [ha]
      exact hrest'.1
    · change (n s.2 e.1 e.2).bind _ = _
      rw [hb]
      exact hrest'.2

end Held

end Comodoo.SystemCalls
