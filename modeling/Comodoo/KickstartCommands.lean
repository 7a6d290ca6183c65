import Comodoo.KickstartScan

set_option autoImplicit false

/-!
# Kickstart commands

`ksReadCommands`, `ksGetCommand` and `ksHasCommand` of `stage-1/kickstart.c` over the lines of
`KickstartScan`. `poptParseArgvString` is a parameter; it allocates a new vector each time it
succeeds and leaves `argv` alone when it fails. The dialogs are left out, but not the read of
`argv[0]` for one of them.
-/
namespace Comodoo.KickstartCommands
open CString ByteMemory KickstartScan

/-- A vector of words; `id` stands for its address. -/
structure Argv where
  id : ℕ
  words : List Str
  deriving DecidableEq, Repr

structure KsCommand where
  code : ℤ
  argc : ℕ
  argv : Argv
  deriving DecidableEq, Repr

def ksTable : List (ℤ × String) :=
  [(1, "nfs"), (2, "cdrom"), (3, "harddrive"), (6, "text"), (12, "graphical"), (4, "url"),
    (5, "network"), (7, "keyboard"), (8, "lang"), (9, "driverdisk"), (10, "device"),
    (11, "cmdline"), (13, "selinux"), (14, "poweroff"), (15, "halt"), (16, "shutdown"),
    (17, "mediacheck"), (18, "updates")]

def ksCode (word : Str) : Option ℤ := (ksTable.find? (fun c => ascii c.2 = word)).map Prod.fst

/-- The variables of `ksReadCommands` that do not point into the buffer. -/
structure Parsed where
  /-- `argv` has been set -/
  argvSet : Bool
  /-- vectors allocated so far -/
  vectors : ℕ
  commands : List KsCommand
  commandsAlloced : ℕ
  inSection : Bool
  deriving DecidableEq, Repr

def Parsed.start : Parsed := ⟨false, 0, [], 5, false⟩

/-- `none` is a write behind the array. -/
def addCommand (s : Parsed) (c : KsCommand) : Option Parsed :=
  let alloced :=
    if s.commands.length = s.commandsAlloced then s.commandsAlloced + 5 else s.commandsAlloced
  if s.commands.length < alloced then
    some { s with commands := s.commands ++ [c], commandsAlloced := alloced }
  else none

variable (tokenize : Str → Option (List Str))

/-- The part of the loop that looks at a trimmed line and its last byte; `none` is a fault. -/
def parseText (s : Parsed) (text : Str) (last : UInt8) : Option Parsed :=
  if text = [] ∨ text.head? = some hash ∨ (ascii "%include").isPrefixOf text then some s
  else if text.head? = some percent then some { s with inSection := true }
  else if last = backslash then some s
  else
    match tokenize text with
    | none => if s.argvSet then some s else none
    | some [] => some { s with argvSet := true, vectors := s.vectors + 1 }
    | some (word :: words) =>
      let s' := { s with argvSet := true, vectors := s.vectors + 1 }
      match ksCode word with
      | none => some s'
      | some code => addCommand s' ⟨code, (word :: words).length, ⟨s.vectors, word :: words⟩⟩

structure Scan where
  buf : Mem
  start : ℕ
  parsed : Parsed

/-- One round of the loop. -/
def readLine (size : ℕ) (s : Scan) : Option Scan :=
  let stop := lineEnd s.buf size s.start
  let oldch := s.buf stop
  let cut := cutLine s.buf size s.start stop
  (parseText tokenize s.parsed (strn cut.1 cut.2.1 size) (cut.1 cut.2.2)).map
    (fun parsed => ⟨cut.1, if oldch = 0 then stop else stop + 1, parsed⟩)

inductive ReadResult where
  | returned (rc : ℤ) (commands : List KsCommand)
  | fault
  | unfinished
  deriving DecidableEq, Repr

def readLines (size : ℕ) : ℕ → Scan → ReadResult
  | 0, _ => .unfinished
  | fuel + 1, s =>
    if s.buf s.start = 0 ∨ s.parsed.inSection then .returned 0 s.parsed.commands
    else
      match readLine tokenize size s with
      | none => .fault
      | some s => readLines size fuel s

abbrev LOADER_ERROR : ℤ := -1

/-- The first call. `m` is the memory around the buffer; `opens` and `reads` say whether the
file can be opened and read. -/
def ksReadCommands (m : Mem) (opens reads : Bool) (content : Str) : ReadResult :=
  if opens && reads then
    readLines tokenize (content.length + 1) (content.length + 2)
      ⟨store m 1 (content ++ [0]), 1, .start⟩
  else .returned LOADER_ERROR []

/-- `last` is the address of the vector found before. -/
def ksGetCommand (commands : List KsCommand) (cmd : ℤ) (last : Option ℕ) : Option KsCommand :=
  let i := match last with
    | none => 0
    | some last => commands.findIdx (fun c => c.argv.id = last) + 1
  (commands.drop i).find? (fun c => c.code = cmd)

def ksHasCommand (commands : List KsCommand) (cmd : ℤ) : ℤ :=
  if commands.any (fun c => c.code = cmd) then 1 else 0

/-- The callers' loop: from NULL on, always with the vector found last. -/
def visited (commands : List KsCommand) (cmd : ℤ) : ℕ → Option ℕ → Option (List KsCommand)
  | 0, _ => none
  | fuel + 1, last =>
    match ksGetCommand commands cmd last with
    | none => some []
    | some c => (visited commands cmd fuel (some c.argv.id)).map (fun cs => c :: cs)

/-! What the commands of a file are. -/

/-- A line that starts a section. -/
def isSection (line : Str) : Bool :=
  (trim line).head? = some percent ∧ ¬ (ascii "%include").isPrefixOf (trim line)

/-- Not blank, no comment, no `%` line, no backslash at the end. -/
def isCandidate (line : Str) : Bool :=
  trim line ≠ [] ∧ (trim line).head? ≠ some hash ∧ (trim line).head? ≠ some percent ∧
    (trim line).getLast? ≠ some backslash

def entryOf (line : Str) : Option (ℤ × ℕ × List Str) :=
  if isCandidate line then
    match tokenize (trim line) with
    | some (word :: words) =>
      (ksCode word).map (fun code => (code, (word :: words).length, word :: words))
    | _ => none
  else none

/-- The lines in front of the first section. -/
def bodyLines (content : Str) : List Str :=
  (content.splitOn LF).takeWhile (fun line => !isSection line)

def ksEntries (content : Str) : List (ℤ × ℕ × List Str) :=
  (bodyLines content).filterMap (entryOf tokenize)

/-- The first line that is tokenized is tokenized without error. -/
def FirstTokenizes (content : Str) : Prop :=
  ∀ line, (bodyLines content).find? isCandidate = some line → tokenize (trim line) ≠ none

def KsCommand.view (c : KsCommand) : ℤ × ℕ × List Str := (c.code, c.argc, c.argv.words)

/-- The file is read into its entries, and each code can be walked through. -/
def ReadsAll (m : Mem) (content : Str) : Prop :=
  ∃ commands, ksReadCommands tokenize m true true content = .returned 0 commands ∧
    commands.map KsCommand.view = ksEntries tokenize content ∧
    ∀ cmd, (∀ fuel, commands.length < fuel →
        visited commands cmd fuel none = some (commands.filter (fun c => c.code = cmd))) ∧
      (ksHasCommand commands cmd = 1 ↔ commands.filter (fun c => c.code = cmd) ≠ [])

end Comodoo.KickstartCommands
