import Comodoo.ByteMemory
import Comodoo.CString

set_option autoImplicit false

/-!
# The module list

`readModuleInfo` of `stage-1/moduleinfo.c`. The buffer stands at address 0, and lines are cut
in place. The entry being read may stand one place behind the modules counted so far.
-/
namespace Comodoo.ModuleList
open CString ByteMemory

abbrev LF : UInt8 := 0x0a
abbrev hash : UInt8 := 0x23
abbrev quote : UInt8 := 0x22

inductive DriverMajor where
  | none
  | scsi
  | net
  | cdrom
  | pcmcia
  | fs
  | ide
  | other
  deriving DecidableEq, Repr

inductive DriverMinor where
  | none
  | ethernet
  | tr
  deriving DecidableEq, Repr

structure ModuleArg where
  arg : Str
  description : Str
  deriving DecidableEq, Repr

structure ModuleInfo where
  moduleName : Str
  description : Option Str
  major : DriverMajor
  minor : DriverMinor
  args : List ModuleArg
  flags : ℕ
  locationID : Option ℕ
  deriving DecidableEq, Repr

def ModuleInfo.fresh (name : Str) (location : Option ℕ) : ModuleInfo :=
  ⟨name, none, .none, .none, [], 0, location⟩

/-- What follows the last blank. -/
def lastWord (text : Str) : Str := text.rtakeWhile (fun b => !isspace b)

def typeOf (word : Str) : DriverMajor × DriverMinor :=
  if word = ascii "eth" then (.net, .ethernet)
  else if word = ascii "tr" then (.net, .tr)
  else if word = ascii "scsi_hostadapter" ∨ word = ascii "scsi" then (.scsi, .none)
  else if word = ascii "pcmcia" then (.pcmcia, .none)
  else if word = ascii "fs" then (.fs, .none)
  else if word = ascii "cdrom" then (.cdrom, .none)
  else if word = ascii "ide" then (.ide, .none)
  else (.other, .none)

def isQuoted (text : Str) : Bool := text.head? = some quote ∧ text.getLast? = some quote

def unquote (text : Str) : Str := (text.drop 1).dropLast

/-- A line `arg "description"`; anything else is dropped. -/
def argLine (text : Str) : Option ModuleArg :=
  match (text.dropWhile (fun b => !isspace b)).dropWhile isspace with
  | [] => none
  | b :: rest =>
    if b = quote then
      (strchr quote rest).map (fun r => ⟨text.takeWhile (fun b => !isspace b), r.1⟩)
    else none

def addText (e : ModuleInfo) (text : Str) : ModuleInfo :=
  if e.major = .none then
    { e with major := (typeOf (lastWord text)).1, minor := (typeOf (lastWord text)).2 }
  else
    match e.description with
    | none => if isQuoted text then { e with description := some (unquote text) } else e
    | some _ => { e with args := e.args ++ (argLine text).toList }

/-- Of several entries of one name, a later one is taken unless it loses its location. -/
def findModuleInfo (mis : List ModuleInfo) (name : Str) : Option ModuleInfo :=
  mis.foldl (fun found e =>
    if e.moduleName = name then
      match found with
      | none => some e
      | some f => if f.locationID.isSome && e.locationID.isNone then some f else some e
    else found) none

/-- The variables of `readModuleInfo` that do not point into the buffer. `moduleList` holds the
entries in use, the pending one included; `nextModule` is an index into it. -/
structure Parsed where
  moduleList : List ModuleInfo
  numModules : ℕ
  modulesAlloced : ℕ
  nextModule : Option ℕ
  skipModule : Bool
  deriving DecidableEq, Repr

/-- A module's own line; `none` is a write behind the array. -/
def moduleLine (location : Option ℕ) (override : Bool) (s : Parsed) (name : Str) :
    Option Parsed :=
  let numModules := if s.nextModule = some s.numModules then s.numModules + 1 else s.numModules
  let alloced :=
    if numModules = s.modulesAlloced then s.modulesAlloced + 5 else s.modulesAlloced
  match (s.moduleList.take numModules).findIdx? (fun e => e.moduleName = name) with
  | some i =>
    if override then
      some ⟨s.moduleList.set i (.fresh name location), numModules, alloced, some i, false⟩
    else some ⟨s.moduleList, numModules, alloced, none, true⟩
  | none =>
    if numModules < alloced then
      some ⟨s.moduleList.take numModules ++ [.fresh name location], numModules, alloced,
        some numModules, false⟩
    else none

/-- `none` is a read through the null pointer `nextModule`. -/
def textLine (s : Parsed) (text : Str) : Option Parsed :=
  match s.nextModule with
  | none => if s.skipModule then some s else none
  | some i => some { s with moduleList := s.moduleList.modify i (fun e => addText e text) }

/-- `while (isspace(*chptr)) chptr--` -/
def trimEnd (m : Mem) : ℕ → ℕ
  | 0 => 0
  | chptr + 1 => if isspace (m (chptr + 1)) then trimEnd m chptr else chptr + 1

structure Scan where
  buf : Mem
  start : ℕ
  parsed : Parsed

/-- One round of the loop; `none` is a fault. -/
def readLine (location : Option ℕ) (override : Bool) (size : ℕ) (s : Scan) : Option Scan :=
  let stop := scanTo (fun b => b = LF ∨ b = 0) s.buf size s.start
  -- without a newline `chptr` is NULL, and its offset is read through
  if s.buf stop = 0 then none
  else
    let chptr := trimEnd s.buf (stop - 1) + 1
    let buf := Function.update s.buf chptr 0
    let isIndented := isspace (buf s.start)
    let start :=
      if isIndented then scanTo (fun b => !isspace b || b = LF) buf size s.start else s.start
    let text := strn buf start size
    (if buf start = LF ∨ buf start = 0 ∨ buf start = hash then some s.parsed
      else if isIndented then textLine s.parsed text
      else moduleLine location override s.parsed text).map
      (fun parsed => ⟨buf, stop + 1, parsed⟩)

inductive ReadResult where
  | returned (rc : ℤ) (moduleList : List ModuleInfo)
  | fault
  | unfinished
  deriving DecidableEq, Repr

/-- The last module is counted when the file ends. -/
def finish (s : Parsed) : List ModuleInfo :=
  s.moduleList.take (if s.nextModule = some s.numModules then s.numModules + 1 else s.numModules)

def readLines (location : Option ℕ) (override : Bool) (size : ℕ) : ℕ → Scan → ReadResult
  | 0, _ => .unfinished
  | fuel + 1, s =>
    if s.buf s.start = 0 then .returned 0 (finish s.parsed)
    else
      match readLine location override size s with
      | none => .fault
      | some s => readLines location override size fuel s

/-- `mis` is the list before the call, and `m` the memory around the buffer. -/
def readModuleInfo (m : Mem) (opens reads : Bool) (content : Str) (mis : List ModuleInfo)
    (location : Option ℕ) (override : Bool) : ReadResult :=
  if opens && reads && (ascii "Version 0\n").isPrefixOf content then
    readLines location override (content.length + 1) (content.length + 1)
      ⟨store m 0 (content ++ [0]), 10, ⟨mis, mis.length, mis.length, none, false⟩⟩
  else .returned (-1) mis

end Comodoo.ModuleList
