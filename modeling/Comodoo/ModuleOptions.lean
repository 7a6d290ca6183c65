import Comodoo.FirstMatch
import Comodoo.Modules

set_option autoImplicit false

/-!
# Which module an option is recorded for

`addOption` compares as many bytes as the name in the table has, so a name matches all that it
starts. The table is searched by first match in the order of prefixes.
-/
namespace Comodoo.ModuleOptions
open CString Modules FirstMatch

def recorded (modopts : Option (List ModuleOptions)) (module : Str) : List Str :=
  (((modopts.getD []).find? (fun e => e.name = module)).map ModuleOptions.options).getD []

/-- The modules that are loaded before `readModuleOpts`, what it finds as the command line, and the
modules that are loaded after it; each module with its arguments. -/
structure History where
  early : List (Str × List Str)
  cmdline : Option (Option Str)
  late : List (Str × List Str)
  deriving DecidableEq, Repr

/-- A process: its own table, `none` after a fault, and the calls of `addOption` behind it. -/
structure Process where
  calls : List (Str × Str)
  table : Option (Option (List ModuleOptions))

def started : Process := ⟨[], some none⟩

/-- The calls for a module that is loaded with arguments. -/
def loadCalls (load : Str × List Str) : List (Str × Str) := load.2.map (fun arg => (load.1, arg))

/-- The child of `doLoadModule` adds the arguments to its copy of the table. The parent's stays as it
was. -/
def Process.doLoadModule (p : Process) (load : Str × List Str) : Process :=
  ⟨p.calls ++ loadCalls load, p.table.bind (fun modopts => addArgs modopts load.1 load.2)⟩

variable (isValidModule : Str → Bool)

def History.loader (h : History) : Process :=
  match h.cmdline with
  | none => started
  | some cmdline =>
    ⟨moduleOpts isValidModule cmdline, some (some (readModuleOpts isValidModule cmdline))⟩

def History.processes (h : History) : List Process :=
  h.early.map started.doLoadModule ++
    h.loader isValidModule :: h.late.map (h.loader isValidModule).doLoadModule

/-- Every option is recorded for the module it was added for, and for no other. -/
def Process.Exact (p : Process) : Prop :=
  ∃ modopts, p.table = some modopts ∧ ∀ module, recorded modopts module = valuesFor module p.calls

def History.Exact (h : History) : Prop := ∀ p ∈ h.processes isValidModule, p.Exact

/-- No option is added before the command line has been read. -/
def History.ReadFirst (h : History) : Prop :=
  (∀ load ∈ h.early, load.2 = []) ∧ (h.cmdline = none → ∀ load ∈ h.late, load.2 = [])

/-- The options of the command line, without and with those of each module that is loaded later. -/
def History.sequences (h : History) : List (List (Str × Str)) :=
  let read := (h.cmdline.map (moduleOpts isValidModule)).getD []
  read :: h.late.map (fun load => read ++ loadCalls load)

def startsName (name module : Str) : Bool := name.isPrefixOf module

theorem startsName_refl (name : Str) : startsName name name = true :=
  List.isPrefixOf_iff_prefix.mpr (List.prefix_refl name)

theorem startsName_trans (a b c : Str) (hab : startsName a b = true) (hbc : startsName b c = true) :
    startsName a c = true :=
  List.isPrefixOf_iff_prefix.mpr
    ((List.isPrefixOf_iff_prefix.mp hab).trans (List.isPrefixOf_iff_prefix.mp hbc))

section Table

def entry (e : ModuleOptions) : Str × List Str := (e.name, e.options)

variable {t : List ModuleOptions}

theorem addTo_entry (module option : Str) :
    (addTo t module option).map entry = insert startsName (t.map entry) module option := by
  induction t with
  | nil => rfl
  | cons e t ih =>
    rw [addTo, List.map_cons, FirstMatch.insert]
    split
    · rename_i he
      rw [if_pos (show startsName (entry e).1 module = true from he)]
      rfl
    · rename_i he
      rw [if_neg (show ¬ startsName (entry e).1 module = true from he), List.map_cons, ih]

theorem addAll_entry (calls : List (Str × Str)) :
    (addAll t calls).map entry = insertAll startsName (t.map entry) calls := by
  induction calls generalizing t with
  | nil => rfl
  | cons c calls ih => rw [addAll, ih, addTo_entry, insertAll]

theorem recorded_entry (module : Str) : recorded (some t) module = lookup (t.map entry) module := by
  induction t with
  | nil => rfl
  | cons e t ih =>
    rw [List.map_cons, lookup]
    by_cases he : e.name = module
    · rw [if_pos (show (entry e).1 = module from he)]
      simp [recorded, he, entry]
    · rw [if_neg (show ¬ (entry e).1 = module from he), ← ih]
      simp [recorded, he]

theorem addAll_append (calls calls' : List (Str × Str)) :
    addAll t (calls ++ calls') = addAll (addAll t calls) calls' := by
  induction calls generalizing t with
  | nil => rfl
  | cons c calls ih => exact ih

theorem addArgs_some (module : Str) (args : List Str) :
    addArgs (some t) module args =
      some (some (addAll t (args.map (fun arg => (module, arg))))) := by
  induction args generalizing t with
  | nil => rfl
  | cons arg args ih =>
    rw [addArgs, addOption, Option.map_some, Option.bind_some, ih]
    rfl

end Table

variable {isValidModule}

theorem recorded_addAll (calls : List (Str × Str)) :
    (∀ module, recorded (some (addAll [] calls)) module = valuesFor module calls) ↔
      OwnFirst startsName [] calls := by
  rw [← insertAll_exact_iff startsName_refl startsName_trans calls]
  have hentry : ∀ module, recorded (some (addAll [] calls)) module =
      lookup (insertAll startsName [] calls) module := by
    intro module
    rw [recorded_entry, addAll_entry, List.map_nil]
  simp only [hentry]

theorem exact_of_table {p : Process} (h : p.table = some (some (addAll [] p.calls))) :
    p.Exact ↔ OwnFirst startsName [] p.calls := by
  unfold Process.Exact
  rw [h]
  constructor
  · rintro ⟨modopts, htable, hrec⟩
    cases htable
    exact (recorded_addAll _).mp hrec
  · intro hown
    exact ⟨_, rfl, (recorded_addAll _).mpr hown⟩

/-- While there is no table, only a load without arguments goes well. -/
theorem exact_started (load : Str × List Str) :
    (started.doLoadModule load).Exact ↔ load.2 = [] := by
  obtain ⟨module, args⟩ := load
  cases args with
  | nil => exact iff_of_true ⟨none, rfl, fun _ => rfl⟩ rfl
  | cons arg args =>
    refine iff_of_false ?_ (List.cons_ne_nil arg args)
    rintro ⟨modopts, htable, -⟩
    cases htable

theorem exact_doLoadModule {p : Process} (h : p.table = some (some (addAll [] p.calls)))
    (load : Str × List Str) :
    (p.doLoadModule load).Exact ↔ OwnFirst startsName [] (p.calls ++ loadCalls load) := by
  apply exact_of_table
  unfold Process.doLoadModule
  rw [h, Option.bind_some, addArgs_some, ← loadCalls, ← addAll_append]

/-- Options are recorded exactly when none is added too early, and in no process a name comes behind
another name that starts it. -/
theorem exact_iff_ownFirst (isValidModule : Str → Bool) (h : History) :
    h.Exact isValidModule ↔
      h.ReadFirst ∧ ∀ calls ∈ h.sequences isValidModule, OwnFirst startsName [] calls := by
  unfold History.Exact History.processes History.ReadFirst History.sequences
  simp only [List.forall_mem_append, List.forall_mem_cons, List.forall_mem_map, exact_started]
  rw [and_assoc]
  apply and_congr_right
  intro hearly
  cases hc : h.cmdline with
  | none =>
    have hloader : h.loader isValidModule = started := by rw [History.loader, hc]
    have hstarted : started.Exact := ⟨none, rfl, fun _ => rfl⟩
    rw [hloader]
    simp only [hstarted, true_and, exact_started, Option.map_none, Option.getD_none,
      List.nil_append, forall_const]
    refine ⟨fun hlate => ⟨hlate, trivial, fun load hload => ?_⟩, fun hcond => hcond.1⟩
    rw [loadCalls, hlate load hload]
    trivial
  | some cmdline =>
    have hcalls : (h.loader isValidModule).calls = moduleOpts isValidModule cmdline := by
      rw [History.loader, hc]
    have htable : (h.loader isValidModule).table =
        some (some (addAll [] (h.loader isValidModule).calls)) := by
      rw [History.loader, hc]
      rfl
    simp only [exact_of_table htable, exact_doLoadModule htable, hcalls, reduceCtorEq,
      false_implies, true_and, Option.map_some, Option.getD_some]

/-- The longer name first is fine. -/
example : OwnFirst startsName [] [(ascii "sd_mod", ascii "b=2"), (ascii "sd", ascii "a=1")] := by
  decide

/-- "sd" has an option, and "sd_mod" is loaded with another one. -/
def prefixHistory : History :=
  ⟨[], some (some (ascii "sd.a=1")), [(ascii "sd_mod", [ascii "b=2"])]⟩

/-- The child writes the option for "sd_mod" behind the one for "sd". -/
theorem prefixHistory_not_exact :
    (prefixHistory.processes (fun _ => true)).map Process.table =
        [some (some [⟨ascii "sd", [ascii "a=1"]⟩]),
          some (some [⟨ascii "sd", [ascii "a=1", ascii "b=2"]⟩])] ∧
      ¬ prefixHistory.Exact (fun _ => true) := by
  have htables : (prefixHistory.processes (fun _ => true)).map Process.table =
      [some (some [⟨ascii "sd", [ascii "a=1"]⟩]),
        some (some [⟨ascii "sd", [ascii "a=1", ascii "b=2"]⟩])] := by decide
  refine ⟨htables, fun hexact => ?_⟩
  have hchild := hexact ((prefixHistory.loader (fun _ => true)).doLoadModule
    (ascii "sd_mod", [ascii "b=2"])) (by simp [History.processes, prefixHistory])
  obtain ⟨modopts, hrun, hrec⟩ := hchild
  have htable : ((prefixHistory.loader (fun _ => true)).doLoadModule
      (ascii "sd_mod", [ascii "b=2"])).table =
      some (some [⟨ascii "sd", [ascii "a=1", ascii "b=2"]⟩]) := by decide
  rw [htable] at hrun
  cases hrun
  exact absurd (hrec (ascii "sd_mod")) (by decide)

end Comodoo.ModuleOptions
