import Comodoo.BinarySearch
import Comodoo.CpioExpand
import Comodoo.StepRun

set_option autoImplicit false

/-!
# Installing a cpio archive

`myCpioInstallArchive` of `isys/uncpio.c`: the loop over the entries with its hard-link
groups, and the sweep over the groups at the end. The log is not part of the program; it
notes what the helpers returned and whether the code goes by it.
-/
namespace Comodoo.CpioInstall
open CString CpioSystem CpioRead CpioExpand StepRun

def strcmp : Str → Str → Ordering
  | [], [] => .eq
  | [], _ :: _ => .lt
  | _ :: _, [] => .gt
  | a :: s, b :: t => if a < b then .lt else if b < a then .gt else strcmp s t

section
variable {s t u : Str}

theorem strcmp_eq : strcmp s t = .eq ↔ s = t := by
  induction s generalizing t with
  | nil => cases t <;> simp [strcmp]
  | cons a s ih =>
    cases t with
    | nil => simp [strcmp]
    | cons b t =>
      rw [strcmp, List.cons.injEq]
      split_ifs with hlt hgt
      · refine iff_of_false (by simp) (fun h => ?_)
        rw [h.1] at hlt
        exact absurd hlt (UInt8.lt_irrefl b)
      · refine iff_of_false (by simp) (fun h => ?_)
        rw [h.1] at hgt
        exact absurd hgt (UInt8.lt_irrefl b)
      · have hab : a = b := by
          rw [UInt8.lt_iff_toNat_lt] at hlt hgt
          exact UInt8.toNat_inj.mp (by omega)
        simpa [hab] using ih

theorem strcmp_gt : strcmp s t = .gt ↔ strcmp t s = .lt := by
  induction s generalizing t with
  | nil => cases t <;> simp [strcmp]
  | cons a s ih =>
    cases t with
    | nil => simp [strcmp]
    | cons b t =>
      rw [strcmp, strcmp]
      simp only [UInt8.lt_iff_toNat_lt]
      split_ifs <;> first | omega | simp | exact ih

theorem strcmp_cons_lt {a b : UInt8} :
    strcmp (a :: s) (b :: t) = .lt ↔ a.toNat < b.toNat ∨ a.toNat = b.toNat ∧ strcmp s t = .lt := by
  rw [strcmp]
  simp only [UInt8.lt_iff_toNat_lt]
  split_ifs with hlt hgt
  · exact iff_of_true rfl (Or.inl hlt)
  · refine iff_of_false (by simp) ?_
    omega
  · have heq : a.toNat = b.toNat := by omega
    simp [heq]

theorem strcmp_trans (h : strcmp s t = .lt) (h' : strcmp t u = .lt) : strcmp s u = .lt := by
  induction s generalizing t u with
  | nil =>
    cases u with
    | nil => cases t <;> simp [strcmp] at h'
    | cons c u => rfl
  | cons a s ih =>
    cases t with
    | nil => simp [strcmp] at h
    | cons b t =>
      cases u with
      | nil => simp [strcmp] at h'
      | cons c u =>
        rw [strcmp_cons_lt] at h h' ⊢
        rcases h with hlt | ⟨heq, h⟩
        · left
          omega
        · rcases h' with hlt' | ⟨heq', h'⟩
          · left
            omega
          · exact Or.inr ⟨heq.trans heq', ih h h'⟩

end

/-- The bits of `mapFlags` are path 0, mode 1, uid 2, gid 3. -/
structure FileMapping where
  archivePath : Str
  fsPath : Str
  finalMode : ℕ
  finalUid : ℕ
  finalGid : ℕ
  mapFlags : ℕ
  deriving DecidableEq, Repr

/-- `myCpioFileMapCmp` of the needle with a mapping. -/
def comparNeedle (path : Str) (map : FileMapping) : ℤ :=
  match strcmp path map.archivePath with
  | .lt => -1
  | .eq => 0
  | .gt => 1

def applyMapping (map : FileMapping) (ch : CpioHeader) : CpioHeader :=
  { ch with
    path := if map.mapFlags.testBit 0 then map.fsPath else ch.path,
    mode := if map.mapFlags.testBit 1 then map.finalMode else ch.mode,
    uid := if map.mapFlags.testBit 2 then map.finalUid else ch.uid,
    gid := if map.mapFlags.testBit 3 then map.finalGid else ch.gid }

/-- The entry as it is to be created; `none` when it is to be skipped. -/
def selectEntry (mappings : Option (List FileMapping)) (ch : CpioHeader) : Option CpioHeader :=
  match mappings with
  | none => some ch
  | some ms =>
    (BinarySearch.bsearch comparNeedle ch.path ms).map (fun map => applyMapping map ch)

/-- `struct hardLink`; `createdPath` is an index into `files` and `none` stands for -1. -/
structure HardLink where
  inode : ℕ
  dev : ℕ
  nlink : ℕ
  linksLeft : ℤ
  createdPath : Option ℕ
  files : List (Option Str)
  deriving DecidableEq, Repr

inductive Call where
  | checkDirectory
  | expandRegular (written : Str)
  | expandSymlink (target : Str)
  | expandOther
  | setInfo
  | eatBytes
  | createLinks
  deriving DecidableEq, Repr

inductive Event where
  | selected (ch : CpioHeader)
  | result (call : Call) (path : Str) (rc : Rc) (looked : Bool)
  | linked (source target : Str)
  deriving DecidableEq, Repr

structure St (W : Type) where
  io : Io W
  lastDir : Option Str
  failedFile : Option Str
  links : List HardLink
  log : List Event

def isLink (ch : CpioHeader) : Bool := S_ISREG ch.mode = true ∧ 1 < ch.nlink

def HardLink.holds (li : HardLink) (ch : CpioHeader) : Bool :=
  li.inode = ch.inode ∧ li.dev = ch.dev

def HardLink.fresh (ch : CpioHeader) : HardLink :=
  ⟨ch.inode, ch.dev, ch.nlink.toNat, ch.nlink, none, List.replicate ch.nlink.toNat none⟩

def groupOf (links : List HardLink) (ch : CpioHeader) : HardLink :=
  (links.find? (fun li => li.holds ch)).getD (.fresh ch)

/-- Write a group back; a new one goes to the front of the list. -/
def putGroup (links : List HardLink) (li : HardLink) : List HardLink :=
  if links.any (fun l => l.inode = li.inode ∧ l.dev = li.dev) then
    links.map (fun l => if l.inode = li.inode ∧ l.dev = li.dev then li else l)
  else li :: links

variable {W : Type} (S : Sys W)

structure LinkRun (W : Type) where
  rc : Rc
  files : List (Option Str)
  linked : List Str
  failed : Option Str
  w : W

/-- The loop of `createLinks` from slot `i` on. -/
def linkFiles (source : Str) (createdPath : ℕ) : ℕ → List (Option Str) → W → LinkRun W
  | _, [], w => ⟨.ok, [], [], none, w⟩
  | i, none :: fs, w =>
    let r := linkFiles source createdPath (i + 1) fs w
    { r with files := none :: r.files }
  | i, some f :: fs, w =>
    if i = createdPath then
      let r := linkFiles source createdPath (i + 1) fs w
      { r with files := some f :: r.files }
    else
      match clearPath S w f with
      | (false, w) => ⟨.unlinkFailed, some f :: fs, [], some f, w⟩
      | (true, w) =>
        match S.link w source f with
        | (false, w) => ⟨.linkFailed, some f :: fs, [], some f, w⟩
        | (true, w) =>
          let r := linkFiles source createdPath (i + 1) fs w
          { r with files := none :: r.files, linked := f :: r.linked }

/-- The file the members of a group are linked to. -/
def HardLink.source (li : HardLink) : Str :=
  (li.createdPath.bind (fun k => li.files.getD k none)).getD []

def createLinks (s : St W) (li : HardLink) (looked : Bool) : Rc × St W :=
  let r := linkFiles S li.source (li.createdPath.getD 0) 0 li.files s.io.w
  (r.rc, { s with
    io := { s.io with w := r.w },
    failedFile := r.failed.or s.failedFile,
    links := putGroup s.links
      { li with files := r.files, linksLeft := li.linksLeft - r.linked.length },
    log := s.log ++ r.linked.map (Event.linked li.source) ++
      [.result .createLinks li.source r.rc looked] })

def linkTarget (io : Io W) (ch : CpioHeader) : Str :=
  ((ourread S io ch.size).1.getD []).takeWhile (· ≠ 0)

/-- `none` is a fault. -/
def expandEntry (cb : Bool) (io : Io W) (ch : CpioHeader) : Option (Rc × Call × Io W) :=
  let keep := fun (r : Rc × W) => some (r.1, Call.expandOther, { io with w := r.2 })
  if S_ISREG ch.mode then
    match expandRegular S cb io ch with
    | (rc, written, io) => some (rc, .expandRegular written, io)
  else if S_ISDIR ch.mode then keep (createDirectory S io.w ch.path 0)
  else if S_ISLNK ch.mode then
    (expandSymlink S io ch).map (fun r => (r.1, .expandSymlink (linkTarget S io ch), r.2))
  else if S_ISFIFO ch.mode then keep (expandFifo S io.w ch)
  else if S_ISCHR ch.mode ∨ S_ISBLK ch.mode then keep (expandDevice S io.w ch)
  else if S_ISSOCK ch.mode then keep (expandFifo S io.w ch)
  else keep (.internal, io.w)

/-- `checkDirectory`, the expansion and `setInfo`, each only after the one before it went well.
`checkDirectory` of an empty path writes in front of its buffer. -/
def createFile (cb : Bool) (s : St W) (ch : CpioHeader) : Option (Rc × St W) :=
  let looked := !isLink ch
  if ch.path = [] then none
  else
    match checkDirectory S s.io.w s.lastDir ch.path with
    | (rc, w, lastDir) =>
      let s := { s with
        io := { s.io with w := w }, lastDir := lastDir,
        log := s.log ++ [.result .checkDirectory ch.path rc looked] }
      if rc ≠ .ok then some (rc, s)
      else
        match expandEntry S cb s.io ch with
        | none => none
        | some (rc, call, io) =>
          let s := { s with io := io, log := s.log ++ [.result call ch.path rc looked] }
          if rc ≠ .ok then some (rc, s)
          else
            match setInfo S s.io.w ch with
            | (rc, w) =>
              some (rc, { s with
                io := { s.io with w := w },
                log := s.log ++ [.result .setInfo ch.path rc looked] })

/-- A member that comes after the file of its group has been made. Both results are dropped. -/
def laterMember (s : St W) (li : HardLink) (ch : CpioHeader) : St W :=
  let s := (createLinks S s li false).2
  if ch.size = 0 then s
  else
    match eatBytes S s.io ch.size with
    | (rc, io) => { s with io := io, log := s.log ++ [.result .eatBytes ch.path rc false] }

/-- The member that carries the data. What `createLinks` returns takes the place of an error of
`createFile`. -/
def dataMember (cb : Bool) (s : St W) (li : HardLink) (linkNum : ℕ) (ch : CpioHeader) :
    Option (Rc × St W) :=
  (createFile S cb s ch).map (fun r =>
    createLinks S r.2 { li with createdPath := some linkNum, linksLeft := li.linksLeft - 1 } true)

/-- One selected entry. A group with all its slots taken is written past the end. -/
def installEntry (cb : Bool) (s : St W) (ch : CpioHeader) : Option (Rc × St W) :=
  if isLink ch then
    let li := groupOf s.links ch
    match li.files.findIdx? (fun f => f.isNone) with
    | none => none
    | some linkNum =>
      let li := { li with files := li.files.set linkNum (some ch.path) }
      let s := { s with links := putGroup s.links li }
      if ch.size = 0 ∧ li.createdPath = none then some (.ok, s)
      else if li.createdPath ≠ none then some (.ok, laterMember S s li ch)
      else dataMember S cb s li linkNum ch
  else createFile S cb s ch

/-- `if (rc && !*failedFile)`. -/
def recordFailure (rc : Rc) (s : St W) (ch : CpioHeader) : St W :=
  if rc ≠ .ok ∧ s.failedFile = none then
    { s with failedFile := some ch.path, io := { s.io with w := (S.unlink s.io.w ch.path).2 } }
  else s

inductive LoopEnd where
  | fault
  | badHeader
  | ended (rc : Rc)
  deriving DecidableEq, Repr

def finishEntry (cb : Bool) (rc : Rc) (s : St W) (ch : CpioHeader) :
    Status (St W) (LoopEnd × St W) :=
  let io := padinfd S s.io 4
  if rc = .ok then
    .running { s with
      io := if cb then { io with calls := io.calls ++ [⟨ch.path, ch.size, ch.size, io.pos⟩] }
        else io }
  else .stopped (.ended rc, { s with io := io })

/-- An entry that is not selected. The result of `eatBytes` is dropped. -/
def skipEntry (s : St W) (ch : CpioHeader) : St W :=
  match eatBytes S s.io ch.size with
  | (rc, io) => { s with io := io, log := s.log ++ [.result .eatBytes ch.path rc false] }

def loopBody (cb : Bool) (mappings : Option (List FileMapping)) (s : St W) :
    Status (St W) (LoopEnd × St W) :=
  match getNextHeader S s.io with
  | (.fault, io) => .stopped (.fault, { s with io := io })
  | (.error _, io) => .stopped (.badHeader, { s with io := io })
  | (.header ch _, io) =>
    let s := { s with io := io }
    if ch.path = TRAILER then .stopped (.ended .ok, s)
    else
      match selectEntry mappings ch with
      | none => finishEntry S cb .ok (skipEntry S s ch) ch
      | some ch =>
        match installEntry S cb { s with log := s.log ++ [.selected ch] } ch with
        | none => .stopped (.fault, s)
        | some (rc, s) => finishEntry S cb rc (recordFailure S rc s ch) ch

def installLoop (cb : Bool) (mappings : Option (List FileMapping)) (fuel : ℕ) (s : St W) :
    Status (St W) (LoopEnd × St W) :=
  run (fun s (_ : Unit) => loopBody S cb mappings s) s (List.replicate fuel ())

/-- The sweep over the groups when the loop has ended well. -/
def sweepLinks : List HardLink → St W → Rc × St W
  | [], s => (.ok, s)
  | li :: rest, s =>
    if li.linksLeft ≠ 0 then
      if li.createdPath = none then (.internal, s)
      else
        match createLinks S s li true with
        | (.ok, s) => sweepLinks rest s
        | (rc, s) => (rc, s)
    else sweepLinks rest s

inductive Outcome where
  | running
  | fault
  | returned (rc : Rc)
  deriving DecidableEq, Repr

def startState (w : W) (lastDir : Option Str) : St W := ⟨⟨w, 0, []⟩, lastDir, none, [], []⟩

/-- The whole call, with what `lastDir` holds from earlier ones. -/
def myCpioInstallArchive (cb : Bool) (mappings : Option (List FileMapping)) (fuel : ℕ) (w : W)
    (lastDir : Option Str) : Outcome × St W :=
  match installLoop S cb mappings fuel (startState w lastDir) with
  | .running s => (.running, s)
  | .stopped (.fault, s) => (.fault, s)
  | .stopped (.badHeader, s) => (.returned .badHeader, s)
  | .stopped (.ended .ok, s) =>
    match sweepLinks S s.links s with
    | (rc, s) => (.returned rc, s)
  | .stopped (.ended rc, s) => (.returned rc, s)

end Comodoo.CpioInstall
