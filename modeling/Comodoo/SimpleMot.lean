import Comodoo.LineBuffer

set_option autoImplicit false

/-!
# Packing the translations

`stage-1/simplemot` is a Perl script: it reads a `.po` file line by line and writes one record for
each translation, a hash of the string that is translated in front. Perl integers are taken as
unbounded; `pack` keeps their low bits.
-/
namespace Comodoo.SimpleMot
open CString LineBuffer

structure Sums where
  sum : ℕ
  xor : ℕ
  deriving DecidableEq, Repr

def Sums.add (s : Sums) (char : UInt8) : Sums :=
  ⟨s.sum + char.toNat, s.xor ^^^ char.toNat⟩

/-- The `for` loop over the bytes of `$str`. -/
def sums (str : Str) : Sums := str.foldl Sums.add ⟨0, 0⟩

def total (str : Str) : ℕ :=
  ((sums str).sum <<< 16) ||| (((sums str).xor &&& 0xFF) <<< 8) ||| (str.length &&& 0xFF)

theorem sum_le_foldl (s : Sums) (str : Str) : s.sum ≤ (str.foldl Sums.add s).sum := by
  induction str generalizing s with
  | nil => exact Nat.le_refl _
  | cons c str ih => exact (Nat.le_add_right _ _).trans (ih (s.add c))

theorem total_eq_zero {str : Str} (h : 0 ∉ str) : total str = 0 ↔ str = [] := by
  constructor
  · intro hzero
    cases str with
    | nil => rfl
    | cons c str =>
      have hc : 0 < c.toNat := by
        apply Nat.pos_of_ne_zero
        intro hc
        have hnul : c = 0 := UInt8.toNat_inj.mp hc
        exact h (hnul ▸ List.mem_cons_self)
      have hsum := sum_le_foldl (Sums.add ⟨0, 0⟩ c) str
      have hshift := (Nat.or_eq_zero_iff.mp (Nat.or_eq_zero_iff.mp hzero).1).1
      rw [Nat.shiftLeft_eq] at hshift
      change 0 + c.toNat ≤ (sums (c :: str)).sum at hsum
      omega
  · rintro rfl
    rfl

/-- What `pack("N", ...)` stores of a number. -/
def packedN (n : ℕ) : UInt32 := UInt32.ofNat n

/-- The bytes of `pack("N", ...)`. -/
def packN (n : ℕ) : Str :=
  let w := (packedN n).toNat
  [UInt8.ofNat (w / 2 ^ 24), UInt8.ofNat (w / 2 ^ 16), UInt8.ofNat (w / 2 ^ 8), UInt8.ofNat w]

/-- The bytes of `pack("n", ...)`. -/
def packn (n : ℕ) : Str := [UInt8.ofNat (n / 2 ^ 8), UInt8.ofNat n]

/-! ## The main loop -/

abbrev quote : UInt8 := 0x22
abbrev backslash : UInt8 := 0x5c
abbrev tab : UInt8 := 0x09

/-- A string counts as true unless it is empty or `0`. -/
def truthy (str : Str) : Bool := str ≠ [] ∧ str ≠ ascii "0"

def startsWith (start : String) (line : Str) : Bool := (ascii start).isPrefixOf line

def chop (line : Str) : Str := line.dropLast

/-- A negative length leaves that many bytes off the end. What is undefined is empty. -/
def substr (str : Str) (offset : ℕ) (length : ℤ) : Str :=
  let rest := str.drop offset
  if 0 ≤ length then rest.take length.toNat else rest.take (rest.length - length.natAbs)

/-- `s/\\c/d/g`. -/
def substitute (c d : UInt8) : Str → Str
  | [] => []
  | [b] => [b]
  | b :: b' :: str =>
    if b = backslash ∧ b' = c then d :: substitute c d str else b :: substitute c d (b' :: str)

def unescape (str : Str) : Str :=
  substitute quote quote (substitute 0x74 tab (substitute 0x6e newline str))

structure State where
  inone : Bool
  str : Str
  total : ℕ
  intran : Bool
  tran : Str
  /-- What has been printed. -/
  out : Str
  deriving DecidableEq, Repr

structure Exit where
  out : Str
  message : Str
  deriving DecidableEq, Repr

def start : State := ⟨false, [], 0, false, [], []⟩

/-- The first `if` on a line. The line comes back as the second one gets it. -/
def readId (s : State) (line : Str) : State × Str :=
  if !s.inone && startsWith "msgid" line then
    let line := chop line
    ({ s with str := substr line 7 (line.length - 8), inone := true }, line)
  else if s.inone && startsWith "\"" line then
    let line := chop line
    ({ s with str := s.str ++ substr line 1 (line.length - 2) }, line)
  else if s.inone then
    let str := unescape s.str
    ({ s with inone := false, str := str, total := total str }, line)
  else (s, line)

def record (total : ℕ) (tran : Str) : Str := packN total ++ packn tran.length ++ tran

/-- The translation has come to its end. `$str` may already be the next one. -/
def complete (s : State) : Except Exit State :=
  let tran := unescape s.tran
  if s.total = 0 ∧ truthy s.str then
    .error ⟨s.out, ascii "Missing string for " ++ tran⟩
  else if truthy s.str ∧ truthy tran then
    .ok { s with intran := false, tran := tran, out := s.out ++ record s.total tran }
  else .ok { s with intran := false, tran := tran }

/-- The second `if`. -/
def readTran (s : State) (line : Str) : Except Exit State :=
  if !s.intran && startsWith "msgstr" line then
    let line := chop line
    .ok { s with tran := substr line 8 (line.length - 9), intran := true }
  else if s.intran && startsWith "\"" line then
    let line := chop line
    .ok { s with tran := s.tran ++ substr line 1 (line.length - 2) }
  else if s.intran then complete s
  else .ok s

def step (s : State) (line : Str) : Except Exit State :=
  let (s, line) := readId s line
  readTran s line

def readLines (s : State) (lines : List Str) : Except Exit State := lines.foldlM step s

/-- The lines of the input, each with its newline. -/
def inputLines (input : Str) : List Str := pieces 0 [] input

def simplemot (input : Str) : Str :=
  match readLines start (inputLines input) with
  | .ok s => s.out
  | .error e => e.out

end Comodoo.SimpleMot
