import Comodoo.CpioRead
import Comodoo.StepRun

set_option autoImplicit false

/-!
# Filtering a cpio archive

`myCpioFilterArchive` of `isys/uncpio.c`: the entries that match a pattern are copied to the
output, and a trailer is written behind them.
-/
namespace Comodoo.CpioFilter
open CString CpioSystem CpioRead StepRun

variable {W : Type} (S : Sys W)

/-- The input with its counter, and the counter of the output. -/
structure FilterSt (W : Type) where
  io : Io W
  outPos : ℤ

/-- The data loop of `copyFile`. `none`: it never ends, or a failed read has made it write -1
bytes. -/
def copyLoop : ℕ → Io W → ℕ → Option (Io W)
  | 0, _, _ => none
  | fuel + 1, io, size =>
    if size = 0 then some io
    else
      match ourread S io (min size 8192) with
      | (none, _) => none
      | (some buf, io) =>
        copyLoop fuel { io with w := (S.gzipWrite io.w buf).2 } (size - buf.length)

/-- `gzip_write` with its result ignored. -/
def put (s : FilterSt W) (bytes : Str) : FilterSt W :=
  { s with io := { s.io with w := (S.gzipWrite s.io.w bytes).2 } }

def padOut (s : FilterSt W) (modulo : ℕ) : Rc × FilterSt W :=
  match padoutfd S s.io.w s.outPos modulo with
  | (rc, w, pos) => (rc, { s with io := { s.io with w := w }, outPos := pos })

/-- `copyFile` adds up the sizes of the header and of the name in an `int`. -/
def Counted (ch : CpioHeader) : Prop := PHYS_HDR_SIZE + (ch.path.length + 1) < 2 ^ 31

instance (ch : CpioHeader) : Decidable (Counted ch) :=
  inferInstanceAs (Decidable (PHYS_HDR_SIZE + (ch.path.length + 1) < 2 ^ 31))

def copyFile (fuel : ℕ) (s : FilterSt W) (ch : CpioHeader) (phys : Str) : Option (FilterSt W) :=
  if ¬ Counted ch then none
  else
    let s := put S s (CPIO_NEWC_MAGIC ++ phys.drop 6)
    let s := put S s (ch.path ++ [0])
    let s := { s with outPos := s.outPos + PHYS_HDR_SIZE + (ch.path.length + 1) }
    let s := (padOut S s 4).2
    (copyLoop S fuel s.io ch.size).map (fun io =>
      (padOut S { s with io := io, outPos := s.outPos + ch.size } 4).2)

inductive FilterEnd where
  | fault
  | badHeader
  | ended
  deriving DecidableEq, Repr

def filterBody (fuel : ℕ) (selects : Str → Bool) (s : FilterSt W) :
    Status (FilterSt W) (FilterEnd × FilterSt W) :=
  match getNextHeader S s.io with
  | (.fault, io) => .stopped (.fault, { s with io := io })
  | (.error _, io) => .stopped (.badHeader, { s with io := io })
  | (.header ch phys, io) =>
    let s := { s with io := io }
    if ch.path = TRAILER then .stopped (.ended, s)
    else if selects ch.path then
      match copyFile S fuel s ch phys with
      | none => .stopped (.fault, s)
      | some s => .running { s with io := padinfd S s.io 4 }
    else .running { s with io := padinfd S (eatBytes S s.io ch.size).2 4 }

/-- The header of the trailer: all '0' but the magic, `nlink` and `namesize`. -/
def trailerHeader : Str :=
  CPIO_NEWC_MAGIC ++ List.replicate 32 0x30 ++ ascii "00000001" ++ List.replicate 48 0x30 ++
    ascii "0000000b" ++ List.replicate 8 0x30

def writeTrailer (s : FilterSt W) : Rc × FilterSt W :=
  let s := put S s trailerHeader
  let s := put S s (TRAILER ++ [0])
  let s := { s with outPos := s.outPos + PHYS_HDR_SIZE + 11 }
  match padOut S s 4 with
  | (.ok, s) => padOut S s 512
  | (rc, s) => (rc, s)

inductive FilterOutcome where
  | running
  | fault
  | returned (rc : Rc)
  deriving DecidableEq, Repr

/-- The whole call. `fnmatch pattern path` is true on a match. -/
def myCpioFilterArchive (fnmatch : Str → Str → Bool) (patterns : List Str) (fuel : ℕ) (w : W) :
    FilterOutcome × FilterSt W :=
  let selects := fun path => patterns.any (fun pattern => fnmatch pattern path)
  match run (fun s (_ : Unit) => filterBody S fuel selects s) ⟨⟨w, 0, []⟩, 0⟩
    (List.replicate fuel ()) with
  | .running s => (.running, s)
  | .stopped (.fault, s) => (.fault, s)
  | .stopped (.badHeader, s) => (.returned .badHeader, s)
  | .stopped (.ended, s) =>
    match writeTrailer S s with
    | (rc, s) => (.returned rc, s)

end Comodoo.CpioFilter
