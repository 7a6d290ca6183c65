import Comodoo.ModuleList
import Mathlib.Data.List.Nodup
import Mathlib.Data.List.Perm.Basic

set_option autoImplicit false

/-!
# Freeing a module set

`freeModuleInfoSet` of `stage-1/moduleinfo.c`. The blocks of the heap are numbers.
-/
namespace Comodoo.FreeModuleInfo

/-- `none` is NULL. -/
abbrev Pointer := Option ℕ

structure ModuleArg where
  arg : Pointer
  description : Pointer
  deriving DecidableEq, Repr

/-- `numArgs` is the length of `args`. -/
structure ModuleInfo where
  moduleName : Pointer
  description : Pointer
  args : List ModuleArg
  deriving DecidableEq, Repr

def ModuleArg.strings (a : ModuleArg) : List ℕ := a.arg.toList ++ a.description.toList

def ModuleInfo.own (m : ModuleInfo) : List ℕ := m.moduleName.toList ++ m.description.toList

def ModuleInfo.argStrings (m : ModuleInfo) : List ℕ := m.args.flatMap ModuleArg.strings

/-- `numModules` is the length of `moduleList`. Every string has a block of its own. -/
structure ModuleInfoSet where
  block : ℕ
  moduleList : List ModuleInfo
  distinct : (block :: moduleList.flatMap fun m => m.own ++ m.argStrings).Nodup

def ModuleInfoSet.strings (mis : ModuleInfoSet) : List ℕ :=
  mis.moduleList.flatMap fun m => m.own ++ m.argStrings

inductive Event where
  | touch (i j : ℕ)
  | free (block : ℕ)
  deriving DecidableEq, Repr

inductive End where
  | returned
  | fault
  deriving DecidableEq, Repr

/-- What a run has done so far. It has not ended yet when `ended` is `none`. -/
structure Run where
  log : List Event
  ended : Option End
  deriving DecidableEq, Repr

def freeString (p : Pointer) : List Event := p.toList.map .free

/-- `for (j = 0; i < mis->moduleList[i].numArgs; j++)`, from `j` on. What stands behind the last
entry is read where there is memory. -/
def freeArgs (behind : ℕ → Option ModuleArg) (args : List ModuleArg) (i : ℕ) : ℕ → ℕ → Run
  | 0, _ => ⟨[], none⟩
  | fuel + 1, j =>
    if i < args.length then
      match (args[j]?).or (behind (j - args.length)) with
      | none => ⟨[.touch i j], some .fault⟩
      | some a =>
        let rest := freeArgs behind args i fuel (j + 1)
        ⟨.touch i j :: (freeString a.arg ++ freeString a.description ++ rest.log), rest.ended⟩
    else ⟨[], some .returned⟩

/-- The loop over the modules, from the module `i` on. -/
def freeModules (behind : ℕ → ℕ → Option ModuleArg) (fuel : ℕ) : ℕ → List ModuleInfo → Run
  | _, [] => ⟨[], some .returned⟩
  | i, m :: modules =>
    let args := freeArgs (behind i) m.args i fuel 0
    let log := freeString m.moduleName ++ freeString m.description ++ args.log
    if args.ended = some .returned then
      let rest := freeModules behind fuel (i + 1) modules
      ⟨log ++ rest.log, rest.ended⟩
    else ⟨log, args.ended⟩

def freeModuleInfoSet (behind : ℕ → ℕ → Option ModuleArg) (fuel : ℕ) (mis : ModuleInfoSet) :
    Run :=
  let modules := freeModules behind fuel 0 mis.moduleList
  if modules.ended = some .returned then ⟨modules.log ++ [.free mis.block], modules.ended⟩
  else modules

def frees (log : List Event) : List ℕ :=
  log.filterMap fun e => match e with
    | .touch _ _ => none
    | .free block => some block

/-- The run returns, every string is freed once, and only entries that are counted are touched. -/
structure Clears (mis : ModuleInfoSet) (r : Run) : Prop where
  returned : r.ended = some .returned
  once : ∀ p ∈ mis.strings, (frees r.log).count p = 1
  inside : ∀ i j, Event.touch i j ∈ r.log → ∃ m, mis.moduleList[i]? = some m ∧ j < m.args.length

def Right (behind : ℕ → ℕ → Option ModuleArg) (mis : ModuleInfoSet) : Prop :=
  ∃ fuel, Clears mis (freeModuleInfoSet behind fuel mis)

/-- No module has more args than there are modules in front of it, and those it has are empty. -/
def Skipped (mis : ModuleInfoSet) : Prop :=
  ∀ (i : ℕ) (m : ModuleInfo), mis.moduleList[i]? = some m →
    m.args.length ≤ i ∧ ∀ a ∈ m.args, a.arg = none ∧ a.description = none

section Loops
variable {behind : ℕ → Option ModuleArg} {memory : ℕ → ℕ → Option ModuleArg}
  {args : List ModuleArg} {modules : List ModuleInfo} {i j fuel : ℕ}

theorem freeArgs_skip (h : args.length ≤ i) :
    freeArgs behind args i (fuel + 1) j = ⟨[], some .returned⟩ :=
  if_neg (Nat.not_lt.mpr h)

theorem freeArgs_endless (h : i < args.length) :
    (freeArgs behind args i fuel j).ended ≠ some .returned := by
  induction fuel generalizing j with
  | zero => exact (Option.some_ne_none _).symm
  | succ fuel ih =>
    rw [freeArgs, if_pos h]
    cases (args[j]?).or (behind (j - args.length)) with
    | none => exact fun hend => End.noConfusion (Option.some.inj hend)
    | some a => exact ih

theorem freeArgs_returned (h : (freeArgs behind args i fuel j).ended = some .returned) :
    args.length ≤ i ∧ freeArgs behind args i fuel j = ⟨[], some .returned⟩ := by
  have hle : args.length ≤ i := by
    by_contra hlt
    exact freeArgs_endless (Nat.lt_of_not_le hlt) h
  cases fuel with
  | zero => exact absurd h (Option.some_ne_none _).symm
  | succ fuel => exact ⟨hle, freeArgs_skip hle⟩

theorem map_own (m : ModuleInfo) :
    freeString m.moduleName ++ freeString m.description = m.own.map .free :=
  List.map_append.symm

theorem freeModules_skip (memory : ℕ → ℕ → Option ModuleArg) (fuel i : ℕ)
    (h : ∀ (k : ℕ) (m : ModuleInfo), modules[k]? = some m → m.args.length ≤ i + k) :
    freeModules memory (fuel + 1) i modules =
      ⟨(modules.flatMap ModuleInfo.own).map .free, some .returned⟩ := by
  induction modules generalizing i with
  | nil => rfl
  | cons m modules ih =>
    have hrest : ∀ (k : ℕ) (m : ModuleInfo), modules[k]? = some m → m.args.length ≤ i + 1 + k := by
      intro k m hm
      have hle := h (k + 1) m hm
      omega
    rw [freeModules, freeArgs_skip (show m.args.length ≤ i from h 0 m rfl), ih (i + 1) hrest,
      map_own]
    simp

theorem freeModules_returned (h : (freeModules memory fuel i modules).ended = some .returned) :
    (∀ (k : ℕ) (m : ModuleInfo), modules[k]? = some m → m.args.length ≤ i + k) ∧
      freeModules memory fuel i modules =
        ⟨(modules.flatMap ModuleInfo.own).map .free, some .returned⟩ := by
  induction modules generalizing i with
  | nil => exact ⟨fun k m hm => absurd hm.symm (Option.some_ne_none _), rfl⟩
  | cons m modules ih =>
    rw [freeModules] at h ⊢
    dsimp only at h ⊢
    by_cases hargs : (freeArgs (memory i) m.args i fuel 0).ended = some .returned
    · rw [if_pos hargs] at h ⊢
      obtain ⟨hle, hskip⟩ := freeArgs_returned hargs
      obtain ⟨hshort, hrest⟩ := ih h
      rw [hskip, hrest, map_own]
      refine ⟨fun k m' hm => ?_, by simp⟩
      cases k with
      | zero =>
        cases hm
        exact hle
      | succ k =>
        have hle := hshort k m' hm
        omega
    · rw [if_neg hargs] at h
      exact absurd h hargs

end Loops

section Sets
variable {memory : ℕ → ℕ → Option ModuleArg} {mis : ModuleInfoSet} {fuel p : ℕ}

def passedOver (mis : ModuleInfoSet) : List ℕ :=
  mis.moduleList.flatMap ModuleInfo.own ++ [mis.block]

theorem freeModuleInfoSet_skip
    (h : ∀ (i : ℕ) (m : ModuleInfo), mis.moduleList[i]? = some m → m.args.length ≤ i) :
    freeModuleInfoSet memory 1 mis = ⟨(passedOver mis).map .free, some .returned⟩ := by
  have hmodules := freeModules_skip memory 0 0
    fun k m hm => (h k m hm).trans (Nat.le_add_left _ _)
  rw [freeModuleInfoSet, hmodules, passedOver, List.map_append]
  rfl

theorem freeModuleInfoSet_returned
    (h : (freeModuleInfoSet memory fuel mis).ended = some .returned) :
    (∀ (i : ℕ) (m : ModuleInfo), mis.moduleList[i]? = some m → m.args.length ≤ i) ∧
      freeModuleInfoSet memory fuel mis = ⟨(passedOver mis).map .free, some .returned⟩ := by
  rw [freeModuleInfoSet] at h ⊢
  by_cases hmodules : (freeModules memory fuel 0 mis.moduleList).ended = some .returned
  · obtain ⟨hshort, hrun⟩ := freeModules_returned hmodules
    rw [if_pos hmodules, hrun, passedOver, List.map_append]
    refine ⟨fun i m hm => ?_, rfl⟩
    rw [← Nat.zero_add i]
    exact hshort i m hm
  · rw [if_neg hmodules] at h
    exact absurd h hmodules

theorem frees_map (blocks : List ℕ) : frees (blocks.map .free) = blocks := by
  rw [frees, List.filterMap_map]
  exact List.filterMap_some

theorem not_touch_mem_map (blocks : List ℕ) (i j : ℕ) :
    Event.touch i j ∉ blocks.map Event.free := by
  simp

theorem count_strings (mis : ModuleInfoSet) (p : ℕ) :
    mis.strings.count p = (mis.moduleList.flatMap ModuleInfo.own).count p +
      (mis.moduleList.flatMap ModuleInfo.argStrings).count p := by
  rw [← List.count_append]
  exact (List.flatMap_append_perm _ _ _).symm.count_eq p

theorem count_passedOver (hp : p ∈ mis.strings) :
    (passedOver mis).count p = (mis.moduleList.flatMap ModuleInfo.own).count p := by
  have hne : mis.block ≠ p := by
    rintro rfl
    exact (List.nodup_cons.mp mis.distinct).1 hp
  rw [passedOver, List.count_append, List.count_singleton, if_neg (by simpa using hne),
    Nat.add_zero]

/-- A string of an arg is not among those of the modules, so it is not freed. -/
theorem once_iff : (∀ p ∈ mis.strings, (passedOver mis).count p = 1) ↔
    mis.moduleList.flatMap ModuleInfo.argStrings = [] := by
  have hnodup : mis.strings.Nodup := (List.nodup_cons.mp mis.distinct).2
  constructor
  · intro honce
    rw [List.eq_nil_iff_forall_not_mem]
    intro p hp
    have harg : 0 < (mis.moduleList.flatMap ModuleInfo.argStrings).count p :=
      List.count_pos_iff.mpr hp
    have hsum := count_strings mis p
    have hle := List.nodup_iff_count_le_one.mp hnodup p
    have hmem : p ∈ mis.strings := List.count_pos_iff.mp (by omega)
    have hfreed := honce p hmem
    rw [count_passedOver hmem] at hfreed
    omega
  · intro hnone p hp
    have hsum := count_strings mis p
    rw [List.count_eq_one_of_mem hnodup hp, hnone, List.count_nil, Nat.add_zero] at hsum
    rw [count_passedOver hp, ← hsum]

theorem strings_eq_nil_iff (a : ModuleArg) :
    a.strings = [] ↔ a.arg = none ∧ a.description = none := by
  rw [ModuleArg.strings, List.append_eq_nil_iff, Option.toList_eq_nil_iff,
    Option.toList_eq_nil_iff]

theorem argStrings_eq_nil_iff : mis.moduleList.flatMap ModuleInfo.argStrings = [] ↔
    ∀ m ∈ mis.moduleList, ∀ a ∈ m.args, a.arg = none ∧ a.description = none := by
  simp only [List.flatMap_eq_nil_iff, ModuleInfo.argStrings, strings_eq_nil_iff]

end Sets

theorem skipped_of_right {behind : ℕ → ℕ → Option ModuleArg} {mis : ModuleInfoSet}
    (h : Right behind mis) : Skipped mis := by
  obtain ⟨fuel, hclears⟩ := h
  obtain ⟨hshort, hrun⟩ := freeModuleInfoSet_returned hclears.returned
  have honce := hclears.once
  rw [hrun, frees_map, once_iff, argStrings_eq_nil_iff] at honce
  exact fun i m hm => ⟨hshort i m hm, honce m (List.mem_of_getElem? hm)⟩

theorem right_of_skipped {mis : ModuleInfoSet} (behind : ℕ → ℕ → Option ModuleArg)
    (h : Skipped mis) : Right behind mis := by
  have hempty : ∀ m ∈ mis.moduleList, ∀ a ∈ m.args, a.arg = none ∧ a.description = none := by
    intro m hm
    obtain ⟨i, hi⟩ := List.getElem?_of_mem hm
    exact (h i m hi).2
  refine ⟨1, ?_⟩
  rw [freeModuleInfoSet_skip fun i m hm => (h i m hm).1]
  refine ⟨rfl, ?_, fun i j htouch => absurd htouch (not_touch_mem_map _ i j)⟩
  rw [frees_map]
  exact once_iff.mpr (argStrings_eq_nil_iff.mpr hempty)

/-! ## Sets that have been read -/

/-- The strings of an arg are copied one behind the other, from the block `next` on. -/
def copyArgs : ℕ → List ModuleList.ModuleArg → List ModuleArg
  | _, [] => []
  | next, _ :: args => ⟨some next, some (next + 1)⟩ :: copyArgs (next + 2) args

def copyModule (next : ℕ) (e : ModuleList.ModuleInfo) : ModuleInfo :=
  ⟨some next, e.description.map fun _ => next + 1,
    copyArgs (next + 1 + e.description.toList.length) e.args⟩

def stringCount (e : ModuleList.ModuleInfo) : ℕ :=
  1 + e.description.toList.length + 2 * e.args.length

def copyModules : ℕ → List ModuleList.ModuleInfo → List ModuleInfo
  | _, [] => []
  | next, e :: es => copyModule next e :: copyModules (next + stringCount e) es

theorem strings_copyArgs (next : ℕ) (args : List ModuleList.ModuleArg) :
    (copyArgs next args).flatMap ModuleArg.strings = List.range' next (2 * args.length) := by
  induction args generalizing next with
  | nil => rfl
  | cons a args ih =>
    have hsplit : List.range' next (2 * (args.length + 1)) =
        List.range' next 2 ++ List.range' (next + 2) (2 * args.length) := by
      rw [List.range'_append_1, Nat.mul_succ, Nat.add_comm]
    rw [copyArgs, List.flatMap_cons, ih, List.length_cons, hsplit]
    rfl

theorem strings_copyModule (next : ℕ) (e : ModuleList.ModuleInfo) :
    (copyModule next e).own ++ (copyModule next e).argStrings =
      List.range' next (stringCount e) := by
  have hown : (copyModule next e).own = List.range' next (1 + e.description.toList.length) := by
    rw [copyModule, ModuleInfo.own]
    cases e.description with
    | none => rfl
    | some description => rfl
  have hargs : (copyModule next e).argStrings =
      List.range' (next + (1 + e.description.toList.length)) (2 * e.args.length) := by
    rw [← Nat.add_assoc]
    exact strings_copyArgs _ _
  rw [hown, hargs, List.range'_append_1, stringCount]

theorem strings_copyModules (next : ℕ) (es : List ModuleList.ModuleInfo) :
    ((copyModules next es).flatMap fun m => m.own ++ m.argStrings) =
      List.range' next (es.map stringCount).sum := by
  induction es generalizing next with
  | nil => rfl
  | cons e es ih =>
    rw [copyModules, List.flatMap_cons, strings_copyModule, ih, List.range'_append_1,
      List.map_cons, List.sum_cons]

def readSet (es : List ModuleList.ModuleInfo) : ModuleInfoSet where
  block := 0
  moduleList := copyModules 1 es
  distinct := by
    rw [strings_copyModules, List.nodup_cons]
    refine ⟨?_, List.nodup_range'⟩
    rw [List.mem_range'_1]
    omega

theorem copyModule_mem {start : ℕ} {e : ModuleList.ModuleInfo} {es : List ModuleList.ModuleInfo}
    (he : e ∈ es) : ∃ next, copyModule next e ∈ copyModules start es := by
  induction es generalizing start with
  | nil => cases he
  | cons e' es ih =>
    rcases List.mem_cons.mp he with rfl | he
    · exact ⟨start, List.mem_cons_self⟩
    · obtain ⟨next, hnext⟩ := ih he
      exact ⟨next, List.mem_cons_of_mem _ hnext⟩

theorem exists_of_mem_copyModules {start : ℕ} {m : ModuleInfo} {es : List ModuleList.ModuleInfo}
    (hm : m ∈ copyModules start es) : ∃ e ∈ es, ∃ next, m = copyModule next e := by
  induction es generalizing start with
  | nil => cases hm
  | cons e es ih =>
    rcases List.mem_cons.mp hm with rfl | hm
    · exact ⟨e, List.mem_cons_self, start, rfl⟩
    · obtain ⟨e', he', next, hnext⟩ := ih hm
      exact ⟨e', List.mem_cons_of_mem _ he', next, hnext⟩

theorem skipped_readSet_iff (es : List ModuleList.ModuleInfo) :
    Skipped (readSet es) ↔ ∀ e ∈ es, e.args = [] := by
  constructor
  · intro h e he
    obtain ⟨next, hm⟩ := copyModule_mem he
    obtain ⟨i, hi⟩ := List.getElem?_of_mem hm
    have hempty := (h i _ hi).2
    cases hargs : e.args with
    | nil => rfl
    | cons a args =>
      rw [copyModule, hargs, copyArgs] at hempty
      exact absurd (hempty _ List.mem_cons_self).1 (Option.some_ne_none _)
  · intro h i m hm
    obtain ⟨e, he, next, rfl⟩ := exists_of_mem_copyModules (List.mem_of_getElem? hm)
    have hnone : (copyModule next e).args = [] := by
      rw [copyModule, h e he]
      rfl
    rw [hnone]
    exact ⟨Nat.zero_le _, fun a ha => absurd ha List.not_mem_nil⟩

/-- A set that has been read is freed as it should be only when no module has an arg. -/
theorem readSet_right_iff (behind : ℕ → ℕ → Option ModuleArg) (es : List ModuleList.ModuleInfo) :
    Right behind (readSet es) ↔ ∀ e ∈ es, e.args = [] := by
  rw [← skipped_readSet_iff]
  exact ⟨skipped_of_right, right_of_skipped behind⟩

theorem freeModuleInfoSet_right_iff (behind : ℕ → ℕ → Option ModuleArg) (mis : ModuleInfoSet) :
    Right behind mis ↔ Skipped mis :=
  ⟨skipped_of_right, right_of_skipped behind⟩

def dummy : ModuleList.ModuleInfo :=
  ⟨CString.ascii "dummy", some (CString.ascii "Dummy device"), .net, .ethernet,
    [⟨CString.ascii "numdummies", CString.ascii "Number of devices"⟩], 0, none⟩

theorem freeModuleInfoSet_dummy : ¬ Right (fun _ _ => none) (readSet [dummy]) := by
  intro h
  have hnone := (skipped_readSet_iff _).mp (skipped_of_right h) dummy List.mem_cons_self
  cases hnone

end Comodoo.FreeModuleInfo
