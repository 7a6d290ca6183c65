import Comodoo.CString
import Mathlib.Data.Nat.Init

set_option autoImplicit false

/-!
# Reading a file through a buffer

The loop that reads a file from its beginning up to `limit`, buffer by buffer, when every read
gives as many bytes as it can. The body may leave the loop.
-/
namespace Comodoo.ReadLoop
open CString

variable {σ ρ : Type}

/-- What `read` gives at an offset. -/
def chunk (bufsize : ℕ) (file : Str) (limit : ℤ) (offset : ℕ) : Str :=
  (file.drop offset).take (min (limit - offset) bufsize).toNat

def readLoop (bufsize : ℕ) (file : Str) (limit : ℤ) (body : ℕ → Str → σ → Except ρ σ)
    (offset : ℕ) (s : σ) : Except ρ σ :=
  if _hlt : offset < limit then
    let buf := chunk bufsize file limit offset
    if _hread : buf = [] then .ok s
    else
      match body offset buf s with
      | .error r => .error r
      | .ok s => readLoop bufsize file limit body (offset + buf.length) s
  else .ok s
termination_by (limit - offset).toNat
decreasing_by
  have hpos : 0 < (chunk bufsize file limit offset).length := List.length_pos_iff.mpr _hread
  omega

section
variable {bufsize : ℕ} {file : Str} {limit : ℤ} {body : ℕ → Str → σ → Except ρ σ} {offset : ℕ}
  {s s' last : σ}

def Running (bufsize : ℕ) (file : Str) (limit : ℤ) (offset : ℕ) : Prop :=
  offset < limit ∧ chunk bufsize file limit offset ≠ []

theorem readLoop_running (hrun : Running bufsize file limit offset)
    (hbody : body offset (chunk bufsize file limit offset) s = .ok s') :
    readLoop bufsize file limit body offset s =
      readLoop bufsize file limit body (offset + (chunk bufsize file limit offset).length) s' := by
  rw [readLoop, dif_pos hrun.1]
  dsimp only
  rw [dif_neg hrun.2, hbody]

theorem readLoop_done (hrun : ¬ Running bufsize file limit offset) :
    readLoop bufsize file limit body offset s = .ok s := by
  rw [readLoop]
  split
  · rename_i hlt
    have hread : chunk bufsize file limit offset = [] := not_not.mp fun h => hrun ⟨hlt, h⟩
    dsimp only
    rw [dif_pos hread]
  · rfl

theorem readLoop_induction {P : ℕ → σ → Prop}
    (hdone : ∀ offset, ¬ Running bufsize file limit offset → P offset last)
    (hstep : ∀ offset s s', Running bufsize file limit offset →
      body offset (chunk bufsize file limit offset) s = .ok s' →
      readLoop bufsize file limit body (offset + (chunk bufsize file limit offset).length) s' =
        .ok last →
      P (offset + (chunk bufsize file limit offset).length) s' → P offset s)
    (hrun : readLoop bufsize file limit body offset s = .ok last) : P offset s := by
  generalize hn : (limit - offset).toNat = n
  induction n using Nat.strong_induction_on generalizing offset s with
  | _ n ih =>
    by_cases hgo : Running bufsize file limit offset
    · cases hbody : body offset (chunk bufsize file limit offset) s with
      | error r =>
        rw [readLoop, dif_pos hgo.1] at hrun
        dsimp only at hrun
        rw [dif_neg hgo.2, hbody] at hrun
        cases hrun
      | ok s' =>
        rw [readLoop_running hgo hbody] at hrun
        have hpos := List.length_pos_iff.mpr hgo.2
        have hlt := hgo.1
        refine hstep offset s s' hgo hbody hrun (ih _ ?_ hrun rfl)
        omega
    · rw [readLoop_done hgo] at hrun
      cases hrun
      exact hdone offset hgo

end

end Comodoo.ReadLoop
