import Comodoo.CString

set_option autoImplicit false

/-!
# Module options and blacklists

The static tables of `stage-1/modules.c`, the functions that fill them from the kernel command
line and from the arguments of a module, and `writeModulesConf`.
-/
namespace Comodoo.Modules
open CString

abbrev blank : UInt8 := 0x20
abbrev newline : UInt8 := 0x0a
abbrev equals : UInt8 := 0x3d
abbrev dot : UInt8 := 0x2e

/-- `struct moduleOptions`; `numopts` is the length of `options`. -/
structure ModuleOptions where
  name : Str
  options : List Str
  deriving DecidableEq, Repr

/-- The loop of `addOption`: the first entry whose name starts the module's name is taken. -/
def addTo : List ModuleOptions → Str → Str → List ModuleOptions
  | [], module, option => [⟨module, [option]⟩]
  | e :: modopts, module, option =>
    if e.name.isPrefixOf module then { e with options := e.options ++ [option] } :: modopts
    else e :: addTo modopts module option

/-- While `nummodopts` is -1 the table is `none`, and `addOption` writes in front of it. -/
def addOption (modopts : Option (List ModuleOptions)) (module option : Str) :
    Option (List ModuleOptions) :=
  modopts.map (fun modopts => addTo modopts module option)

/-- What one `read` into a buffer of 1024 bytes leaves there as a string. -/
def readCmdline (cmdline : Str) : Str := (cmdline.take 1023).takeWhile (· ≠ 0)

/-- The module and the option in a word of the command line. -/
def moduleOption (word : Str) : Option (Str × Str) :=
  if equals ∈ word then strchr dot word else none

/-- The calls of `addOption` that `readModuleOpts` makes. -/
def moduleOpts (isValidModule : Str → Bool) (cmdline : Option Str) : List (Str × Str) :=
  match cmdline with
  | none => []
  | some text =>
    ((readCmdline text).splitOn blank).filterMap (fun word =>
      (moduleOption word).filter (fun c => isValidModule c.1))

def addAll (modopts : List ModuleOptions) : List (Str × Str) → List ModuleOptions
  | [] => modopts
  | c :: calls => addAll (addTo modopts c.1 c.2) calls

def readModuleOpts (isValidModule : Str → Bool) (cmdline : Option Str) : List ModuleOptions :=
  addAll [] (moduleOpts isValidModule cmdline)

/-- The loop of `doLoadModule` over the module's arguments; `none` is the fault of `addOption`. -/
def addArgs (modopts : Option (List ModuleOptions)) (module : Str) :
    List Str → Option (Option (List ModuleOptions))
  | [] => some modopts
  | arg :: args => (addOption modopts module arg).bind (fun t => addArgs (some t) module args)

def readBlacklist (cmdline : Option Str) : List (Option Str) :=
  match cmdline with
  | none => []
  | some text =>
    ((readCmdline text).splitOn blank).filterMap (fun word =>
      if (ascii "blacklist=").isPrefixOf word then some (some (word.drop 10)) else none)

/-- `none` is the comparison with an entry that is already NULL. -/
def removeBlacklist (module : Str) : List (Option Str) → Option (List (Option Str))
  | [] => some []
  | none :: _ => none
  | some name :: blacklists =>
    (removeBlacklist module blacklists).map
      (fun rest => (if name = module then none else some name) :: rest)

def optionsLine (e : ModuleOptions) : Str :=
  ascii "options " ++ e.name ++ (e.options.map (fun o => blank :: o)).flatten ++ [newline]

def blacklistLine : Option Str → Str
  | none => []
  | some name => ascii "blacklist " ++ name ++ [newline]

/-- What `writeModulesConf` appends to its buffer. -/
def confText (modopts : Option (List ModuleOptions)) (blacklists : List (Option Str)) : Str :=
  ascii "# Module options and blacklists written by anaconda\n" ++
    ((modopts.getD []).map optionsLine).flatten ++ (blacklists.map blacklistLine).flatten

/-- What a call of `writeModulesConf` meets: whether the file opens, the bytes in front of the
first NUL of its uninitialised buffer, and what `write` takes (`none` is an error). -/
structure WriteAnswer where
  opens : Bool
  stack : Str
  accepted : Option ℕ
  deriving DecidableEq, Repr

inductive WriteResult where
  | returned (rc : ℤ) (conf : Option Str)
  /-- `strcat` runs over the end of the buffer -/
  | overflow
  deriving DecidableEq, Repr

abbrev BUFSIZE : ℕ := 16384

/-- `conf` is the file, `none` where there is none. It is opened without `O_TRUNC`. -/
def writeModulesConf (a : WriteAnswer) (modopts : Option (List ModuleOptions))
    (blacklists : List (Option Str)) (conf : Option Str) : WriteResult :=
  if a.opens then
    let buf := a.stack ++ confText modopts blacklists
    if BUFSIZE ≤ buf.length then .overflow
    else
      let old := conf.getD []
      match a.accepted with
      | none => .returned 1 (some old)
      | some n =>
        .returned (if buf.length ≤ n then 0 else 1) (some (buf.take n ++ old.drop (min n buf.length)))
  else .returned 0 conf

end Comodoo.Modules
