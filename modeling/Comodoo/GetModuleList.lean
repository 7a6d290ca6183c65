import Comodoo.ModuleList

set_option autoImplicit false

/-!
# The modules of a class

`getModuleList` of `stage-1/moduleinfo.c`.
-/
namespace Comodoo.GetModuleList
open ModuleList

/-- The argument of the function. `DRIVER_ANY` is the class of no module. -/
inductive DriverClass where
  | major (m : DriverMajor)
  | any
  deriving DecidableEq, Repr

/-- The sizes of a pointer and of `struct moduleInfo`, which begins with one. -/
structure Layout where
  pointer : ℕ
  entry : ℕ
  two_le : 2 ≤ pointer
  fits : pointer ≤ entry

/-- `none` is the entry with a NULL name. -/
inductive Outcome where
  | null
  | list (entries : List (Option ModuleInfo))
  | overrun
  deriving DecidableEq, Repr

def chosen (major : DriverClass) (m : ModuleInfo) : Bool :=
  major = .major m.major || major = .major .none

def allocated (l : Layout) (mis : List ModuleInfo) : ℕ := l.entry * mis.length + 1

/-- The loop; a copy has to end within the bytes allocated. -/
def fill (l : Layout) (major : DriverClass) (room : ℕ) :
    List ModuleInfo → List ModuleInfo → Option (List ModuleInfo)
  | [], done => some done
  | m :: mis, done =>
    if chosen major m then
      if l.entry * (done.length + 1) ≤ room then fill l major room mis (done ++ [m]) else none
    else fill l major room mis done

def getModuleList (l : Layout) (mis : List ModuleInfo) (major : DriverClass) : Outcome :=
  match fill l major (allocated l mis) mis [] with
  | none => .overrun
  | some [] => .null
  | some (m :: ms) =>
    -- only the name of the last entry is written
    if l.entry * (ms.length + 1) + l.pointer ≤ allocated l mis then
      .list ((m :: ms).map some ++ [none])
    else .overrun

/-- The modules of the class in order and the entry that ends them, or NULL. -/
def ListRight (l : Layout) (mis : List ModuleInfo) (major : DriverClass) : Prop :=
  (mis.filter (chosen major) = [] → getModuleList l mis major = .null) ∧
    (mis.filter (chosen major) ≠ [] → getModuleList l mis major =
      .list ((mis.filter (chosen major)).map some ++ [none]))

variable (l : Layout) (major : DriverClass) (mis : List ModuleInfo)

theorem fill_eq {room : ℕ} (done : List ModuleInfo)
    (hroom : l.entry * (done.length + mis.length) ≤ room) :
    fill l major room mis done = some (done ++ mis.filter (chosen major)) := by
  induction mis generalizing done with
  | nil => simp [fill]
  | cons m mis ih =>
    rw [List.length_cons] at hroom
    unfold fill
    by_cases hm : chosen major m = true
    · have hfits : l.entry * (done.length + 1) ≤ room :=
        (Nat.mul_le_mul_left _ (by omega)).trans hroom
      rw [if_pos hm, if_pos hfits, List.filter_cons_of_pos hm, ih, List.append_assoc]
      · rfl
      · rw [List.length_append, List.length_singleton]
        exact (Nat.mul_le_mul_left _ (by omega)).trans hroom
    · rw [if_neg hm, List.filter_cons_of_neg hm, ih]
      exact (Nat.mul_le_mul_left _ (by omega)).trans hroom

theorem getModuleList_eq_null (hnone : mis.filter (chosen major) = []) :
    getModuleList l mis major = .null := by
  rw [getModuleList, fill_eq l major mis [] (by rw [allocated]; simp), hnone]
  rfl

/-- The name of the last entry lies within the allocation only where a module was left out. -/
theorem sentinel_fits_iff (k : ℕ) (hk : k ≤ mis.length) :
    l.entry * k + l.pointer ≤ allocated l mis ↔ k < mis.length := by
  have htwo := l.two_le
  have hfits := l.fits
  rw [allocated]
  constructor
  · intro hle
    by_contra hge
    have heq : k = mis.length := by omega
    subst heq
    omega
  · intro hlt
    have hmul : l.entry * (k + 1) ≤ l.entry * mis.length := Nat.mul_le_mul_left _ hlt
    rw [Nat.mul_succ] at hmul
    omega

theorem getModuleList_eq_of_ne_nil (hsome : mis.filter (chosen major) ≠ []) :
    getModuleList l mis major =
      if (mis.filter (chosen major)).length < mis.length then
        .list ((mis.filter (chosen major)).map some ++ [none])
      else .overrun := by
  have hlen := List.length_filter_le (chosen major) mis
  rw [getModuleList, fill_eq l major mis [] (by rw [allocated]; simp)]
  cases hms : mis.filter (chosen major) with
  | nil => exact absurd hms hsome
  | cons m ms =>
    rw [hms] at hlen
    have hfits := sentinel_fits_iff l mis (ms.length + 1) hlen
    simp only [List.nil_append, hfits, List.length_cons]

/-- The array is one entry short when every module is of the class. -/
theorem getModuleList_right_iff :
    ListRight l mis major ↔ mis = [] ∨ ∃ m ∈ mis, chosen major m = false := by
  have hall : (mis.filter (chosen major)).length < mis.length ↔
      ∃ m ∈ mis, chosen major m = false := by
    rw [List.length_filter_lt_length_iff_exists]
    simp
  constructor
  · rintro ⟨-, hlist⟩
    by_cases hnil : mis.filter (chosen major) = []
    · rcases mis with _ | ⟨m, mis⟩
      · exact Or.inl rfl
      · refine Or.inr ⟨m, List.mem_cons_self, ?_⟩
        simpa using List.filter_eq_nil_iff.mp hnil m List.mem_cons_self
    · right
      rw [← hall]
      by_contra hlt
      have hover := hlist hnil
      rw [getModuleList_eq_of_ne_nil l major mis hnil, if_neg hlt] at hover
      cases hover
  · intro hcond
    refine ⟨getModuleList_eq_null l major mis, ?_⟩
    intro hsome
    rcases hcond with rfl | hleft
    · exact absurd rfl hsome
    · rw [getModuleList_eq_of_ne_nil l major mis hsome, if_pos (hall.mpr hleft)]

theorem getModuleList_one :
    ¬ ListRight ⟨4, 32, by decide, by decide⟩ [ModuleInfo.fresh [0x78] none] (.major .none) := by
  rintro ⟨-, hlist⟩
  have hover := hlist (by decide)
  revert hover
  decide

end Comodoo.GetModuleList
