import Comodoo.FilePath

set_option autoImplicit false

/-!
# Mount counts

`mount` and `umount` of `stage-2/usr/lib/anaconda/isys.py` keep a count for each mount point and
call `_isys` only for the first mount and the last unmount. Nothing is said about how `_isys`
answers: a call comes with the outcome it meets. `World` adds what the kernel has mounted.
-/
namespace Comodoo.IsysMount
open CString FilePath

abbrev comma : UInt8 := 0x2c

/-- `string.split` without a separator. -/
def split (s : Str) : List Str := (s.splitOnP isspace).filter (· ≠ [])

/-- `os.path.normpath`. Two slashes in front stay two, three and more become one. -/
def normpath (path : Str) : Str :=
  let slashes :=
    if path.head? ≠ some sep then 0
    else if path.take 2 = [sep, sep] ∧ path.take 3 ≠ [sep, sep, sep] then 2 else 1
  let comps := (path.splitOn sep).foldl (fun comps comp =>
    if comp = [] ∨ comp = dot then comps
    else if comp ≠ dotDot ∨ (slashes = 0 ∧ comps = []) ∨ comps.getLast? = some dotDot then
      comps ++ [comp]
    else comps.dropLast) []
  let joined := List.replicate slashes sep ++ [sep].intercalate comps
  if joined = [] then dot else joined

inductive Result where
  | returned (rc : Option ℤ)
  | raised (error text : Str)
  deriving DecidableEq, Repr

/-- `not rc`, and no exception. -/
def Result.ok : Result → Bool
  | .returned none => true
  | .returned (some rc) => rc = 0
  | .raised _ _ => false

structure MountArgs where
  device : Str
  location : Str
  fstype : Str
  readOnly : Bool
  bindMount : Bool
  remount : Bool
  options : Str
  deriving DecidableEq, Repr

structure UmountArgs where
  what : Str
  removeDir : Bool
  deriving DecidableEq, Repr

inductive Request where
  | mount (fstype device location flags : Str)
  | umount (what : Str)
  deriving DecidableEq, Repr

/-- `mountCount`. -/
abbrev Counts := Str → Option ℕ

/-- A key that is missing counts as 0. -/
def count (counts : Counts) (location : Str) : ℕ := (counts location).getD 0

/-- The dictionary after a call, what was asked of `_isys`, and the result. -/
structure Called where
  counts : Counts
  request : Option Request
  result : Result

def mountFlags (args : MountArgs) : Str :=
  let opts := split args.options
  let opts := if args.readOnly then opts ++ [ascii "ro"] else opts
  let opts := if args.bindMount then opts ++ [ascii "bind"] else opts
  let opts := if args.remount then opts ++ [ascii "remount"] else opts
  [comma].intercalate opts

def mount (counts : Counts) (args : MountArgs) (outcome : Result) : Called :=
  let location := normpath args.location
  if (counts location).isSome ∧ 0 < count counts location then
    ⟨Function.update counts location (some (count counts location + 1)), none, .returned none⟩
  else
    ⟨if outcome.ok then Function.update counts location (some 1) else counts,
      some (.mount args.fstype args.device location (mountFlags args)), outcome⟩

/-- `isdir` is the answer of `os.path.isdir`. Removing the directory afterwards has no effect on
the result: its errors are ignored. -/
def umount (counts : Counts) (args : UmountArgs) (isdir : Bool) (outcome : Result) : Called :=
  let what := normpath args.what
  if ¬ isdir then
    ⟨counts, none, .raised (ascii "ValueError") (ascii "isys.umount() can only umount by mount point")⟩
  else if (counts what).isSome ∧ 1 < count counts what then
    ⟨Function.update counts what (some (count counts what - 1)), none, .returned none⟩
  else
    ⟨if outcome.ok ∧ (counts what).isSome then Function.update counts what none else counts,
      some (.umount what), outcome⟩

inductive Call where
  | mount (args : MountArgs) (outcome : Result)
  | umount (args : UmountArgs) (isdir : Bool) (outcome : Result)
  deriving DecidableEq, Repr

def call (counts : Counts) : Call → Called
  | .mount args outcome => mount counts args outcome
  | .umount args isdir outcome => umount counts args isdir outcome

def Call.location : Call → Str
  | .mount args _ => normpath args.location
  | .umount args _ _ => normpath args.what

def Call.outcome : Call → Result
  | .mount _ outcome => outcome
  | .umount _ _ outcome => outcome

section Kernel

/-- Who mounted a file system: this module, or somebody else. -/
inductive Owner where
  | own
  | other
  deriving DecidableEq, Repr

/-- Option lists are read between the commas. -/
def asksRemount (flags : Str) : Bool := (flags.splitOn comma).contains (ascii "remount")

/-- The file systems on a mount point, the last one mounted first. -/
abbrev Mounts := Str → List Owner

/-- A successful request takes effect; a remount changes options only. -/
def afterRequest (mounts : Mounts) : Request → Mounts
  | .mount _ _ location flags =>
    if asksRemount flags then mounts
    else Function.update mounts location (Owner.own :: mounts location)
  | .umount what => Function.update mounts what (mounts what).tail

structure World where
  counts : Counts
  mounts : Mounts

def World.step (w : World) (c : Call) : World :=
  let called := call w.counts c
  ⟨called.counts, match called.request with
    | some request => if c.outcome.ok then afterRequest w.mounts request else w.mounts
    | none => w.mounts⟩

def World.run (w : World) (calls : List Call) : World := calls.foldl World.step w

/-- When the module is imported. Others may have mounted things before. -/
def Fresh (w : World) : Prop :=
  (∀ location, w.counts location = none) ∧ ∀ location, Owner.own ∉ w.mounts location

end Kernel

end Comodoo.IsysMount
