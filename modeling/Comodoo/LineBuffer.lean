import Comodoo.CString

set_option autoImplicit false

/-!
# Reading lines into a buffer

What one call of `fgets` after the other returns of a text, when the buffer has room for `m` bytes
and the terminator. A longer line comes in several pieces.
-/
namespace Comodoo.LineBuffer
open CString

abbrev newline : UInt8 := 0x0a

/-- `piece` has been read so far. -/
def pieces (m : ℕ) (piece : Str) : Str → List Str
  | [] => if piece = [] then [] else [piece]
  | b :: text =>
    if b = newline ∨ piece.length + 1 = m then (piece ++ [b]) :: pieces m [] text
    else pieces m (piece ++ [b]) text

variable {m : ℕ} {piece line text : Str}

theorem pieces_line (h : newline ∉ line) (text : Str) :
    pieces m piece (line ++ newline :: text) =
      pieces m piece (line ++ [newline]) ++ pieces m [] text := by
  induction line generalizing piece with
  | nil => simp [pieces]
  | cons b line ih =>
    have hrest : newline ∉ line := fun hm => h (List.mem_cons_of_mem b hm)
    rw [List.cons_append, List.cons_append, pieces, pieces]
    split_ifs
    · rw [ih hrest, List.cons_append]
    · exact ih hrest

theorem pieces_short (h : newline ∉ line) (hfit : piece.length + line.length < m) :
    pieces m piece (line ++ [newline]) = [piece ++ line ++ [newline]] := by
  induction line generalizing piece with
  | nil => simp [pieces]
  | cons b line ih =>
    have hb : b ≠ newline := fun hm => h (hm ▸ List.mem_cons_self)
    rw [List.length_cons] at hfit
    have hlen : ¬ (b = newline ∨ piece.length + 1 = m) := not_or.mpr ⟨hb, by omega⟩
    rw [List.cons_append, pieces, if_neg hlen, ih (fun hm => h (List.mem_cons_of_mem b hm))
      (by simp; omega)]
    simp

theorem pieces_unbounded (h : newline ∉ line) :
    pieces 0 piece (line ++ [newline]) = [piece ++ line ++ [newline]] := by
  induction line generalizing piece with
  | nil => simp [pieces]
  | cons b line ih =>
    have hb : b ≠ newline := fun hm => h (hm ▸ List.mem_cons_self)
    rw [List.cons_append, pieces, if_neg (not_or.mpr ⟨hb, Nat.succ_ne_zero _⟩),
      ih (fun hm => h (List.mem_cons_of_mem b hm))]
    simp

theorem pieces_long (h : newline ∉ line) (hm : piece.length < m)
    (hlong : m ≤ piece.length + line.length) :
    pieces m piece (line ++ [newline]) = (piece ++ line.take (m - piece.length)) ::
      pieces m [] (line.drop (m - piece.length) ++ [newline]) := by
  induction line generalizing piece with
  | nil =>
    rw [List.length_nil] at hlong
    omega
  | cons b line ih =>
    have hb : b ≠ newline := fun hn => h (hn ▸ List.mem_cons_self)
    rw [List.length_cons] at hlong
    rw [List.cons_append, pieces]
    by_cases hfull : piece.length + 1 = m
    · have hone : m - piece.length = 1 := by omega
      rw [if_pos (Or.inr hfull), hone]
      rfl
    · have hnext : m - piece.length = m - (piece ++ [b]).length + 1 := by
        simp
        omega
      rw [if_neg (not_or.mpr ⟨hb, hfull⟩), ih (fun hn => h (List.mem_cons_of_mem b hn))
        (by simp; omega) (by simp; omega), hnext]
      simp

theorem pieces_length_le (hm : piece.length < m) : ∀ p ∈ pieces m piece text, p.length ≤ m := by
  induction text generalizing piece with
  | nil =>
    intro p hp
    rw [pieces] at hp
    split_ifs at hp
    · cases hp
    · rw [List.mem_singleton.mp hp]
      omega
  | cons b text ih =>
    intro p hp
    rw [pieces] at hp
    split_ifs at hp with hend
    · rcases List.mem_cons.mp hp with rfl | hp
      · rw [List.length_append, List.length_singleton]
        omega
      · exact ih (by simp; omega) p hp
    · refine ih ?_ p hp
      have := (not_or.mp hend).2
      rw [List.length_append, List.length_singleton]
      omega

theorem pieces_flatten (m : ℕ) (piece text : Str) :
    (pieces m piece text).flatten = piece ++ text := by
  induction text generalizing piece with
  | nil =>
    rw [pieces]
    split_ifs with hnil
    · rw [hnil]
      rfl
    · simp
  | cons b text ih =>
    rw [pieces]
    split_ifs
    · rw [List.flatten_cons, ih]
      simp
    · rw [ih]
      simp

theorem pieces_isInfix : ∀ p ∈ pieces m piece text, p <:+: piece ++ text := by
  intro p hp
  rw [← pieces_flatten m piece text]
  exact List.infix_of_mem_flatten hp

theorem pieces_flatMap {α : Type} (body : α → Str) (l : List α)
    (h : ∀ a ∈ l, newline ∉ body a) :
    pieces m [] (l.flatMap (fun a => body a ++ [newline])) =
      l.flatMap (fun a => pieces m [] (body a ++ [newline])) := by
  induction l with
  | nil => simp [pieces]
  | cons a l ih =>
    rw [List.flatMap_cons, List.flatMap_cons, List.append_assoc, List.singleton_append,
      pieces_line (h a (by simp)), ih (fun c hc => h c (by simp [hc]))]

end Comodoo.LineBuffer
