import Mathlib.Tactic.Common

set_option autoImplicit false

/-!
# Words that set things

A program reads words one after the other and may fail. Where each word sets a value or leaves it
alone, the value in the end is that of the last word that sets it. A chain of tests that hold
together only in known pairs does not depend on its order.
-/
namespace Comodoo.LastSetting

variable {σ ω ν : Type}

/-- What the last word that sets a value gives it. -/
def lastSet (sets : ω → Option ν) (old : ν) : List ω → ν
  | [] => old
  | w :: ws => lastSet sets ((sets w).getD old) ws

section Runs

variable {step : σ → ω → Option σ} {s s' : σ} {ws : List ω}

/-- `I` may speak of the words that are still to come. -/
theorem foldlM_lastSet {I : σ → List ω → Prop} {get : σ → ν} {sets : ω → Option ν}
    (h : ∀ s w ws s', I s (w :: ws) → step s w = some s' →
      I s' ws ∧ get s' = (sets w).getD (get s))
    (hI : I s ws) (hrun : ws.foldlM step s = some s') : get s' = lastSet sets (get s) ws := by
  induction ws generalizing s with
  | nil =>
    rw [List.foldlM_nil] at hrun
    cases hrun
    rfl
  | cons w ws ih =>
    rw [List.foldlM_cons] at hrun
    obtain ⟨m, hm, hrest⟩ := Option.bind_eq_some_iff.mp hrun
    have hstep := h s w ws m hI hm
    rw [ih hstep.1 hrest, lastSet, hstep.2]

/-- A flag that is only ever set has been set at some word. -/
theorem foldlM_ever {I : σ → List ω → Prop} {flag : σ → Bool} {hit : σ → ω → Bool}
    (h : ∀ s w ws s', I s (w :: ws) → step s w = some s' →
      I s' ws ∧ flag s' = (flag s || hit s w))
    (hI : I s ws) (hrun : ws.foldlM step s = some s') :
    flag s' = true ↔ flag s = true ∨ ∃ before w after m,
      ws = before ++ w :: after ∧ before.foldlM step s = some m ∧ hit m w = true := by
  induction ws generalizing s with
  | nil =>
    rw [List.foldlM_nil] at hrun
    cases hrun
    simp
  | cons w ws ih =>
    rw [List.foldlM_cons] at hrun
    obtain ⟨m, hm, hrest⟩ := Option.bind_eq_some_iff.mp hrun
    have hstep := h s w ws m hI hm
    rw [ih hstep.1 hrest, hstep.2, Bool.or_eq_true]
    constructor
    · rintro ((hs | hw) | ⟨before, v, after, n, rfl, hn, hv⟩)
      · exact Or.inl hs
      · exact Or.inr ⟨[], w, ws, s, rfl, rfl, hw⟩
      · refine Or.inr ⟨w :: before, v, after, n, rfl, ?_, hv⟩
        rw [List.foldlM_cons]
        exact Option.bind_eq_some_iff.mpr ⟨m, hm, hn⟩
    · rintro (hs | ⟨before, v, after, n, hws, hn, hv⟩)
      · exact Or.inl (Or.inl hs)
      · cases before with
        | nil =>
          cases hws
          cases hn
          exact Or.inl (Or.inr hv)
        | cons u before =>
          cases hws
          rw [List.foldlM_cons] at hn
          obtain ⟨m', hm', hn⟩ := Option.bind_eq_some_iff.mp hn
          cases hm.symm.trans hm'
          exact Or.inr ⟨before, v, after, n, rfl, hn, hv⟩

end Runs

section Chain

variable {α : Type} {l : List α} {p : α → Bool} {nested : α → α → Prop} {x : α}

/-- The entry that is taken, where two tests hold together only if the first one is nested in the
second. -/
theorem find?_eq_some_iff_of_nested
    (hpair : l.Pairwise (fun x y => p x = true → p y = true → nested x y))
    (hasymm : ∀ x y, nested x y → ¬nested y x) :
    l.find? p = some x ↔ x ∈ l ∧ p x = true ∧ ∀ y ∈ l, nested y x → p y = false := by
  constructor
  · intro hfind
    obtain ⟨hx, before, after, hl, hbefore⟩ := List.find?_eq_some_iff_append.mp hfind
    have hmem : x ∈ l := List.mem_of_find?_eq_some hfind
    refine ⟨hmem, hx, ?_⟩
    intro y hy hyx
    rw [hl] at hy hpair
    have hback := (List.pairwise_cons.mp (List.pairwise_append.mp hpair).2.1).1
    cases hpy : p y with
    | false => rfl
    | true =>
      exfalso
      rcases List.mem_append.mp hy with hy | hy
      · have hno := hbefore y hy
        rw [hpy] at hno
        cases hno
      · rcases List.mem_cons.mp hy with heq | hy
        · rw [heq] at hyx
          exact hasymm x x hyx hyx
        · exact hasymm x y (hback y hy hx hpy) hyx
  · intro ⟨hmem, hx, hfirst⟩
    cases hfind : l.find? p with
    | none =>
      have hno := List.find?_eq_none.mp hfind x hmem
      exact absurd hx hno
    | some e =>
      obtain ⟨he, before, after, hl, hbefore⟩ := List.find?_eq_some_iff_append.mp hfind
      have hemem : e ∈ l := List.mem_of_find?_eq_some hfind
      rw [hl] at hmem hpair
      have hback := (List.pairwise_cons.mp (List.pairwise_append.mp hpair).2.1).1
      rcases List.mem_append.mp hmem with hmem | hmem
      · have hno := hbefore x hmem
        rw [hx] at hno
        cases hno
      · rcases List.mem_cons.mp hmem with heq | hmem
        · rw [heq]
        · have hno := hfirst e hemem (hback x hmem he hx)
          rw [he] at hno
          cases hno

end Chain

end Comodoo.LastSetting
