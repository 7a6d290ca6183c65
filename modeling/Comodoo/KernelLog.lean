import Comodoo.CString
import Comodoo.SystemCalls
import Mathlib.Data.Finset.Lattice.Basic
import Mathlib.Data.Finset.Option

set_option autoImplicit false

/-!
# The log of the installer

`logChunk` and `doklog` of `stage-1/init.c`. The child of `init` copies what the kernel and the
clients of `/dev/log` send into `/tmp/syslog` and onto a terminal.
-/
namespace Comodoo.KernelLog
open CString SystemCalls

def openBracket : UInt8 := 0x3c

def newline : UInt8 := 0x0a

/-- What is put into `outbuf`. -/
def logChunk : Str → Str
  | [] => []
  | c :: rest =>
    if c = 0 ∧ rest.head? = some openBracket then newline :: logChunk rest
    else if c = 0 ∧ rest = [] then newline :: logChunk rest
    else if c ≠ 0 then c :: logChunk rest
    else logChunk rest

/-! ## What is logged does not depend on the reads -/

theorem logChunk_length_le (buf : Str) : (logChunk buf).length ≤ buf.length := by
  induction buf with
  | nil => exact le_rfl
  | cons c rest ih =>
    unfold logChunk
    split_ifs <;> simp only [List.length_cons] <;> omega

theorem logChunk_no_nul (buf : Str) : 0 ∉ logChunk buf := by
  induction buf with
  | nil => exact List.not_mem_nil
  | cons c rest ih =>
    unfold logChunk
    split_ifs with hbracket hend hc
    · simp [newline, ih]
    · simp [newline, ih]
    · simp [Ne.symm hc, ih]
    · exact ih

/-- Each NUL has a message or nothing behind it. -/
def Separated (stream : Str) : Prop :=
  ∀ l r, stream = l ++ 0 :: r → r = [] ∨ r.head? = some openBracket

def lines (stream : Str) : Str := stream.map (fun c => if c = 0 then newline else c)

section Cuts

variable {stream l r : Str}

theorem Separated.right (h : Separated (l ++ r)) : Separated r := by
  intro a b hr
  apply h (l ++ a) b
  rw [hr, List.append_assoc]

theorem Separated.left (h : Separated (l ++ r)) : Separated l := by
  intro a b hl
  have hnext := h a (b ++ r) (by rw [hl, List.append_assoc, List.cons_append])
  cases b with
  | nil => exact Or.inl rfl
  | cons c b =>
    right
    exact hnext.resolve_left (List.cons_ne_nil _ _)

theorem logChunk_eq_lines (h : Separated stream) : logChunk stream = lines stream := by
  induction stream with
  | nil => rfl
  | cons c rest ih =>
    have hrest := ih (@Separated.right [c] rest h)
    change _ = (if c = 0 then newline else c) :: lines rest
    by_cases hc : c = 0
    · have hnext := h [] rest (by rw [hc]; rfl)
      rw [if_pos hc, ← hrest, logChunk]
      cases hnext with
      | inl hnil =>
        rw [if_neg (by simp [hnil]), if_pos ⟨hc, hnil⟩]
      | inr hbracket => rw [if_pos ⟨hc, hbracket⟩]
    · rw [if_neg hc, ← hrest, logChunk]
      rw [if_neg (fun h => hc h.1), if_neg (fun h => hc h.1), if_pos hc]

theorem flatMap_logChunk (chunks : List Str) (h : Separated chunks.flatten) :
    chunks.flatMap logChunk = lines chunks.flatten := by
  induction chunks with
  | nil => rfl
  | cons chunk chunks ih =>
    rw [List.flatten_cons] at h ⊢
    rw [List.flatMap_cons, logChunk_eq_lines h.left, ih h.right]
    exact List.map_append.symm

/-- One read for each byte. -/
theorem flatMap_logChunk_single (stream : Str) :
    (stream.map (fun c => [c])).flatMap logChunk = lines stream := by
  induction stream with
  | nil => rfl
  | cons c rest ih =>
    rw [List.map_cons, List.flatMap_cons, ih]
    change _ = (if c = 0 then newline else c) :: lines rest
    by_cases hc : c = 0 <;> simp [logChunk, hc]

end Cuts

def CutInto (stream : Str) (chunks : List Str) : Prop :=
  chunks.flatten = stream ∧ ∀ chunk ∈ chunks, chunk ≠ [] ∧ chunk.length ≤ 1024

section CutFree

variable {stream l r : Str}

theorem cutInto_single (stream : Str) : CutInto stream (stream.map (fun c => [c])) := by
  constructor
  · induction stream with
    | nil => rfl
    | cons c rest ih => exact congrArg (c :: ·) ih
  · intro chunk hchunk
    obtain ⟨c, -, rfl⟩ := List.mem_map.mp hchunk
    exact ⟨List.cons_ne_nil c [], by simp⟩

theorem CutInto.append {chunks chunks' : List Str} (hl : CutInto l chunks) (hr : CutInto r chunks') :
    CutInto (l ++ r) (chunks ++ chunks') := by
  constructor
  · rw [List.flatten_append, hl.1, hr.1]
  · intro chunk hchunk
    exact (List.mem_append.mp hchunk).elim (hl.2 chunk) (hr.2 chunk)

/-- A NUL inside a message is dropped in the middle of a read and ends the line at its end. -/
theorem logChunk_pair {c : UInt8} (hc : c ≠ openBracket) : (logChunk [0, c]).length = 1 := by
  rw [logChunk, if_neg (by simp [hc]), if_neg (by simp), if_neg (by simp)]
  by_cases hnul : c = 0 <;> simp [logChunk, hnul]

/-- The streams that come out the same however they are read: those in which each NUL ends a
message. They come out with a line for each message. -/
theorem logChunk_cutFree_iff :
    ((∀ chunks chunks', CutInto stream chunks → CutInto stream chunks' →
      chunks.flatMap logChunk = chunks'.flatMap logChunk) ↔ Separated stream) ∧
    (Separated stream → ∀ chunks, CutInto stream chunks →
      chunks.flatMap logChunk = lines stream) := by
  have hlines : Separated stream → ∀ chunks, CutInto stream chunks →
      chunks.flatMap logChunk = lines stream := by
    intro h chunks hchunks
    rw [flatMap_logChunk chunks (by rw [hchunks.1]; exact h), hchunks.1]
  refine ⟨?_, hlines⟩
  constructor
  · intro h l r hstream
    cases r with
    | nil => exact Or.inl rfl
    | cons c r =>
      right
      by_contra hbracket
      have hc : c ≠ openBracket := fun hc => hbracket (congrArg some hc)
      have hpair : CutInto ([0, c] ++ r) ([[0, c]] ++ r.map (fun c => [c])) := by
        apply CutInto.append _ (cutInto_single r)
        exact ⟨rfl, by simp⟩
      have hcut : CutInto stream (l.map (fun c => [c]) ++ ([[0, c]] ++ r.map (fun c => [c]))) := by
        rw [hstream]
        exact (cutInto_single l).append hpair
      have hsame := congrArg List.length (h _ _ (cutInto_single stream) hcut)
      rw [List.flatMap_append, List.flatMap_append, flatMap_logChunk_single, flatMap_logChunk_single,
        flatMap_logChunk_single, List.flatMap_singleton, List.length_append, List.length_append,
        logChunk_pair hc, hstream] at hsame
      simp only [lines, List.length_map, List.length_append, List.length_cons] at hsame
      omega
  · intro h chunks chunks' hchunks hchunks'
    rw [hlines h chunks hchunks, hlines h chunks' hchunks']

end CutFree

/-! ## The logger -/

/-- What a `read` into `inbuf` can put there. -/
abbrev Chunk := { data : Str // data.length ≤ 1024 }

/-- A descriptor that is -1 is `none`; `print` is `printstr` and `printf`, on descriptor 1. -/
inductive Call where
  | openKmsg
  | openOut (fn : Str)
  | openLog
  | print
  | fork
  | dup2 (log : ℕ)
  | socket
  | bind (sock : Option ℕ)
  | listen (sock : Option ℕ)
  | select (asked : Finset ℕ)
  | read (fd : ℕ)
  | writeOut (out : ℕ) (data : Str)
  | writeLog (log : ℕ) (data : Str)
  | accept (sock : ℕ)
  | close (fd : Option ℕ)

/-- `none` and `false` are errors; `select` answers which descriptors are ready. -/
def Answer : Call → Type
  | .openKmsg | .openOut _ | .openLog | .socket | .accept _ => Option ℕ
  | .print | .dup2 _ | .writeOut _ _ | .writeLog _ _ => Option ℕ
  | .fork => ℤ
  | .bind _ | .listen _ | .close _ => Bool
  | .select _ => Option (Finset ℕ)
  | .read _ => Option Chunk

abbrev Program := Prog Call Answer

def openKmsg : Program (Option ℕ) := perform Call.openKmsg

def openOut (fn : Str) : Program (Option ℕ) := perform (Call.openOut fn)

def openLog : Program (Option ℕ) := perform Call.openLog

def print : Program (Option ℕ) := perform Call.print

def fork : Program ℤ := perform Call.fork

/-- `dup2(1, log)`. -/
def dup2 (log : ℕ) : Program (Option ℕ) := perform (Call.dup2 log)

def socket : Program (Option ℕ) := perform Call.socket

def bind (sock : Option ℕ) : Program Bool := perform (Call.bind sock)

def listen (sock : Option ℕ) : Program Bool := perform (Call.listen sock)

def select (asked : Finset ℕ) : Program (Option (Finset ℕ)) := perform (Call.select asked)

def read (fd : ℕ) : Program (Option Chunk) := perform (Call.read fd)

def writeOut (out : ℕ) (data : Str) : Program (Option ℕ) := perform (Call.writeOut out data)

def writeLog (log : ℕ) (data : Str) : Program (Option ℕ) := perform (Call.writeLog log data)

def accept (sock : ℕ) : Program (Option ℕ) := perform (Call.accept sock)

def close (fd : Option ℕ) : Program Bool := perform (Call.close fd)

/-- What is printed if a call has failed. -/
def complain (done : Bool) : Program Unit :=
  if done then pure ()
  else do
    let _ ← print
    pure ()

/-- The child between two rounds of its loop; `none` is a descriptor that is -1. -/
structure Logger where
  inFd : ℕ
  out : Option ℕ
  log : ℕ
  sock : Option ℕ
  unixs : Finset ℕ

inductive Point where
  | start
  | serving (l : Logger)

/-- Where `doklog` returns; the child never does. -/
inductive Ending where
  | noKmsg
  | noLog
  | parent
  deriving DecidableEq, Repr

/-- `socket`, `bind` and `listen`; a socket that is -1 is not noticed. -/
def openSocket : Program (Option ℕ) := do
  let sock ← socket
  complain sock.isSome
  let _ ← print
  let bound ← bind sock
  complain bound
  let _ ← print
  let listening ← listen sock
  complain listening
  pure sock

/-- The child has closed descriptor 1 when it duplicates it and prints on it; the parent closes
`out` though it may be -1. The pauses, `chmod` and `syslog` are left out. -/
def startLogger (fn : Str) : Program (Point ⊕ Ending) := do
  match ← openKmsg with
  | none => do
    let _ ← print
    pure (.inr .noKmsg)
  | some inFd => do
    let out ← openOut fn
    complain out.isSome
    match ← openLog with
    | none => do
      let _ ← print
      let _ ← close inFd
      pure (.inr .noLog)
    | some log => do
      let child ← fork
      if child ≠ 0 then do
        let _ ← close inFd
        let _ ← close out
        let _ ← close log
        pure (.inr .parent)
      else do
        let _ ← close (some 0)
        let _ ← close (some 1)
        let _ ← close (some 2)
        let _ ← dup2 log
        let sock ← openSocket
        pure (.inl (.serving ⟨inFd, out, log, sock, ∅⟩))

def copy (l : Logger) (data : Str) : Program Unit := do
  match l.out with
  | none => pure ()
  | some out => do
    let _ ← writeOut out data
    pure ()
  let _ ← writeLog l.log data
  pure ()

/-- `read` and, if it brings something, the two writes. -/
def relay (l : Logger) (fd : ℕ) : Program (Option Chunk) := do
  let got ← read fd
  match got with
  | none => pure got
  | some chunk =>
    if chunk.val = [] then pure got
    else do
      copy l (logChunk chunk.val)
      pure got

def fromKernel (l : Logger) (readset : Finset ℕ) : Program Unit :=
  if l.inFd ∈ readset then do
    let _ ← relay l l.inFd
    pure ()
  else pure ()

/-- What is left of the loop over `readfd`. -/
def fromClients (l : Logger) (readset : Finset ℕ) : List ℕ → Finset ℕ → Program (Finset ℕ)
  | [], unixs => pure unixs
  | readfd :: fds, unixs =>
    if readfd ∈ readset ∧ readfd ∈ unixs then do
      let got ← relay l readfd
      if got.any (fun chunk => chunk.val = []) then do
        let _ ← close readfd
        fromClients l readset fds (unixs.erase readfd)
      else fromClients l readset fds unixs
    else fromClients l readset fds unixs

def errorInAccept : Str := ascii "error in accept\n"

def fromSocket (l : Logger) (readset : Finset ℕ) : Program Logger :=
  match l.sock with
  | none => pure l
  | some sock =>
    if sock ∈ readset then do
      match ← accept sock with
      | none => do
        copy l errorInAccept
        let _ ← close sock
        pure { l with sock := none }
      | some readfd => pure { l with unixs := insert readfd l.unixs }
    else pure l

def round (l : Logger) : Program (Point ⊕ Ending) := do
  match ← select (insert l.inFd (l.sock.toFinset ∪ l.unixs)) with
  | none => pure (.inl (.serving l))
  | some readset => do
    fromKernel l readset
    let unixs ← fromClients l readset (List.range 20) l.unixs
    let l ← fromSocket { l with unixs := unixs } readset
    pure (.inl (.serving l))

def doklog (fn : Str) : Point → Program (Point ⊕ Ending)
  | .start => startLogger fn
  | .serving l => round l

/-! ## What is copied -/

/-- What there is to log: bytes that were read, or a connection that failed. -/
inductive News where
  | heard (fd : ℕ) (data : Str)
  | refused
  deriving DecidableEq, Repr

def News.text : News → Str
  | .heard _ data => logChunk data
  | .refused => errorInAccept

/-- What the descriptor has brought, read by read. -/
def News.broughtBy (fd : ℕ) : News → Option Str
  | .heard fd' data => if fd' = fd then some data else none
  | .refused => none

structure Copied where
  kmsg : Option ℕ
  out : Option ℕ
  news : List News
  toOut : Str
  toLog : Str

def Copied.nothing : Copied := ⟨none, none, [], [], []⟩

def Copied.wrote (s : Copied) (out : Option ℕ) (data : Str) : Copied :=
  { s with
    toOut := s.toOut ++ out.elim [] (fun _ => data)
    toLog := s.toLog ++ data }

def copied : Monitor Answer Copied
  | s, .openKmsg, (fd : Option ℕ) => some { s with kmsg := fd }
  | s, .openOut _, (fd : Option ℕ) => some { s with out := fd }
  | s, .read fd, (got : Option Chunk) =>
    some { s with news := s.news ++ (got.map (fun chunk => News.heard fd chunk.val)).toList }
  | s, .accept _, (fd : Option ℕ) =>
    some { s with news := s.news ++ fd.elim [News.refused] (fun _ => []) }
  | s, .writeOut _ data, _ => some { s with toOut := s.toOut ++ data }
  | s, .writeLog _ data, _ => some { s with toLog := s.toLog ++ data }
  | s, .openLog, _ | s, .print, _ | s, .fork, _ | s, .dup2 _, _ | s, .socket, _ | s, .bind _, _
  | s, .listen _, _ | s, .select _, _ | s, .close _, _ => some s

/-- What is printed and what `dup2` copies from is not looked at, nor a descriptor that is -1. -/
def descriptor : (c : Call) → Answer c → Effect ℕ
  | .openKmsg, (fd : Option ℕ) | .openOut _, fd | .openLog, fd | .socket, fd =>
    fd.elim .keep .gain
  | .accept sock, (fd : Option ℕ) => fd.elim (.use sock) .gain
  | .bind sock, _ | .listen sock, _ => sock.elim .keep .use
  | .read fd, _ | .writeOut fd _, _ | .writeLog fd _, _ | .dup2 fd, _ => .use fd
  | .close fd, _ => fd.elim .keep .loss
  | .print, _ | .fork, _ | .select _, _ => .keep

def logger : Monitor Answer (Copied × Multiset ℕ) := both copied (holding descriptor)

/-- The descriptors the child has open. -/
def Logger.owns (l : Logger) : Multiset ℕ :=
  l.inFd ::ₘ l.log ::ₘ (l.out.toFinset.val + l.sock.toFinset.val + l.unixs.val)

structure UpToDate (l : Logger) (s : Copied) (held : Multiset ℕ) : Prop where
  kmsg : s.kmsg = some l.inFd
  out : s.out = l.out
  toLog : s.toLog = s.news.flatMap News.text
  toOut : s.toOut = l.out.elim [] (fun _ => s.toLog)
  heard : ∀ fd data, News.heard fd data ∈ s.news → fd = l.inFd ∨ fd < 20
  owns : l.owns ≤ held

/-- `init` starts with the descriptors 0, 1 and 2. -/
def standard : Multiset ℕ := {0, 1, 2}

def Between (p : Point) (s : Copied × Multiset ℕ) : Prop :=
  match p with
  | .start => s = (.nothing, standard)
  | .serving l => UpToDate l s.1 s.2

def Ended (e : Ending) (s : Copied × Multiset ℕ) : Prop :=
  s.1.news = [] ∧ s.1.toOut = [] ∧ s.1.toLog = [] ∧
    s.2 = standard + (if e = .noLog then s.1.out.toFinset.val else 0)

def Leaves (x : Point ⊕ Ending) (s : Copied × Multiset ℕ) : Prop :=
  x.elim (Between · s) (Ended · s)

section Rounds

variable {α : Type} {l : Logger} {s : Copied} {held : Multiset ℕ} {readset : Finset ℕ}
  {Q : α → Copied × Multiset ℕ → Prop}

theorem UpToDate.mem_held (h : UpToDate l s held) {fd : ℕ} (hfd : fd ∈ l.owns) : fd ∈ held :=
  Multiset.mem_of_le h.owns hfd

theorem Logger.mem_owns {fd : ℕ} : fd ∈ l.owns ↔
    fd = l.inFd ∨ fd = l.log ∨ l.out = some fd ∨ l.sock = some fd ∨ fd ∈ l.unixs := by
  simp [Logger.owns, or_assoc]

theorem accepts_copy {data : Str} {f : Unit → Program α} (hlog : l.log ∈ held)
    (hout : ∀ out, l.out = some out → out ∈ held)
    (hf : Accepts logger (s.wrote l.out data, held) (f ()) Q) :
    Accepts logger (s, held) (copy l data >>= f) Q := by
  obtain ⟨inFd, out, log, sock, unixs⟩ := l
  have hwrite : ∀ (s : Copied) (r : Option ℕ), logger (s, held) (.writeLog log data) r =
      some ({ s with toLog := s.toLog ++ data }, held) := by
    intro s _
    change Option.map _ (if log ∈ held then some held else none) = _
    rw [if_pos hlog]
    rfl
  cases out with
  | none =>
    apply accepts_call
    intro r
    refine ⟨_, hwrite s r, ?_⟩
    change Accepts logger ({ s with toOut := s.toOut ++ [], toLog := s.toLog ++ data }, held) _ _ at hf
    rw [List.append_nil] at hf
    exact hf
  | some out =>
    apply accepts_call
    intro _
    refine ⟨({ s with toOut := s.toOut ++ data }, held), ?_, ?_⟩
    · change Option.map _ (if out ∈ held then some held else none) = _
      rw [if_pos (hout out rfl)]
      rfl
    · apply accepts_call
      intro r
      exact ⟨_, hwrite _ r, hf⟩

theorem UpToDate.told (h : UpToDate l s held) (news : News)
    (hnews : ∀ fd data, News.heard fd data = news → fd = l.inFd ∨ fd < 20) :
    UpToDate l ({ s with news := s.news ++ [news] }.wrote l.out news.text) held := by
  constructor
  · exact h.kmsg
  · exact h.out
  · change s.toLog ++ news.text = (s.news ++ [news]).flatMap News.text
    rw [h.toLog, List.flatMap_append, List.flatMap_singleton]
  · change s.toOut ++ l.out.elim [] (fun _ => news.text) = l.out.elim [] (fun _ => s.toLog ++ news.text)
    rw [h.toOut]
    cases l.out <;> rfl
  · intro fd data hmem
    cases List.mem_append.mp hmem with
    | inl hold => exact h.heard fd data hold
    | inr hnew => exact hnews fd data (List.mem_singleton.mp hnew)
  · exact h.owns

theorem UpToDate.silent (h : UpToDate l s held) {fd : ℕ} (hfd : fd = l.inFd ∨ fd < 20) :
    UpToDate l { s with news := s.news ++ [.heard fd []] } held := by
  have htold := h.told (.heard fd []) (by
    intro fd' data hsame
    cases hsame
    exact hfd)
  have hnothing : ({ s with news := s.news ++ [.heard fd []] } : Copied).wrote l.out
      (News.heard fd []).text = { s with news := s.news ++ [.heard fd []] } := by
    change Copied.mk _ _ _ (s.toOut ++ l.out.elim [] (fun _ => [])) (s.toLog ++ []) = _
    cases l.out <;> simp
  rw [hnothing] at htold
  exact htold

theorem accepts_relay (h : UpToDate l s held) {fd : ℕ} (hheld : fd ∈ held)
    (hfd : fd = l.inFd ∨ fd < 20) :
    Accepts logger (s, held) (relay l fd) (fun _ s' => UpToDate l s'.1 held ∧ s'.2 = held) := by
  apply accepts_perform_bind
  intro (got : Option Chunk)
  refine ⟨({ s with
    news := s.news ++ (got.map (fun chunk => News.heard fd chunk.val)).toList }, held), ?_, ?_⟩
  · change Option.map _ (if fd ∈ held then some held else none) = _
    rw [if_pos hheld]
    rfl
  cases got with
  | none =>
    apply (accepts_pure _).mpr
    refine ⟨?_, rfl⟩
    rw [Option.map_none, Option.toList_none, List.append_nil]
    exact h
  | some chunk =>
    by_cases hnil : chunk.val = []
    · dsimp only
      rw [if_pos hnil]
      apply (accepts_pure _).mpr
      refine ⟨?_, rfl⟩
      rw [Option.map_some, Option.toList_some, hnil]
      exact h.silent hfd
    · dsimp only
      rw [if_neg hnil]
      apply accepts_copy (h.mem_held (Logger.mem_owns.mpr (by simp)))
      · intro out hout
        exact h.mem_held (Logger.mem_owns.mpr (by simp [hout]))
      apply (accepts_pure _).mpr
      refine ⟨?_, rfl⟩
      apply h.told (.heard fd chunk.val)
      intro fd' data hsame
      cases hsame
      exact hfd

theorem accepts_fromKernel (h : UpToDate l s held) : Accepts logger (s, held) (fromKernel l readset)
    (fun _ s' => UpToDate l s'.1 held ∧ s'.2 = held) := by
  unfold fromKernel
  split
  · apply accepts_bind
    apply (accepts_relay h (h.mem_held (Logger.mem_owns.mpr (Or.inl rfl))) (Or.inl rfl)).imp
    intro _ s' hs'
    exact (accepts_pure ()).mpr hs'
  · exact (accepts_pure ()).mpr ⟨h, rfl⟩

theorem UpToDate.hungUp (h : UpToDate l s held) {fd : ℕ} (hfd : fd ∈ l.unixs) :
    UpToDate { l with unixs := l.unixs.erase fd } s (held.erase fd) := by
  refine ⟨h.kmsg, h.out, h.toLog, h.toOut, h.heard, ?_⟩
  have howns : l.owns = fd ::ₘ Logger.owns { l with unixs := l.unixs.erase fd } := by
    have hunixs : l.unixs.val = fd ::ₘ (l.unixs.erase fd).val := by
      rw [Finset.erase_val]
      exact (Multiset.cons_erase hfd).symm
    change l.inFd ::ₘ l.log ::ₘ (_ + l.unixs.val) = _
    rw [hunixs, Multiset.add_cons, Multiset.cons_swap l.log, Multiset.cons_swap l.inFd]
    rfl
  have hle := h.owns
  rw [howns] at hle
  have herase := Multiset.erase_le_erase fd hle
  rw [Multiset.erase_cons_head] at herase
  exact herase

theorem accepts_fromClients (fds : List ℕ) (hfds : ∀ fd ∈ fds, fd < 20) (unixs : Finset ℕ)
    (h : UpToDate { l with unixs := unixs } s held) :
    Accepts logger (s, held) (fromClients l readset fds unixs)
      (fun unixs s' => UpToDate { l with unixs := unixs } s'.1 s'.2) := by
  induction fds generalizing s held unixs with
  | nil => exact (accepts_pure unixs).mpr h
  | cons readfd fds ih =>
    have hrest := fun fd hfd => hfds fd (List.mem_cons_of_mem readfd hfd)
    unfold fromClients
    by_cases hready : readfd ∈ readset ∧ readfd ∈ unixs
    · rw [if_pos hready]
      apply accepts_bind
      have hmem := h.mem_held (Logger.mem_owns.mpr (by simp [hready.2] : readfd = _ ∨ _))
      apply (accepts_relay h hmem (Or.inr (hfds readfd List.mem_cons_self))).imp
      rintro got ⟨s', held'⟩ ⟨hs', rfl⟩
      split
      · apply accepts_perform_bind
        intro _
        refine ⟨(s', held'.erase readfd), ?_, ih hrest _ (hs'.hungUp hready.2)⟩
        change Option.map _ (if readfd ∈ held' then some (held'.erase readfd) else none) = _
        rw [if_pos hmem]
        rfl
      · exact ih hrest unixs hs'
    · rw [if_neg hready]
      exact ih hrest unixs h

theorem UpToDate.joined (h : UpToDate l s held) (fd : ℕ) :
    UpToDate { l with unixs := insert fd l.unixs } s (fd ::ₘ held) := by
  refine ⟨h.kmsg, h.out, h.toLog, h.toOut, h.heard, ?_⟩
  by_cases hfd : fd ∈ l.unixs
  · rw [Finset.insert_eq_of_mem hfd]
    exact h.owns.trans (Multiset.le_cons_self held fd)
  · have howns : Logger.owns { l with unixs := insert fd l.unixs } = fd ::ₘ l.owns := by
      change l.inFd ::ₘ l.log ::ₘ (_ + (insert fd l.unixs).val) = fd ::ₘ l.inFd ::ₘ l.log ::ₘ (_ + _)
      rw [Finset.insert_val_of_notMem hfd, Multiset.add_cons, Multiset.cons_swap l.log,
        Multiset.cons_swap l.inFd]
    rw [howns]
    exact Multiset.cons_le_cons fd h.owns

theorem UpToDate.deaf (h : UpToDate l s held) {sock : ℕ} (hsock : l.sock = some sock) :
    UpToDate { l with sock := none } s (held.erase sock) := by
  refine ⟨h.kmsg, h.out, h.toLog, h.toOut, h.heard, ?_⟩
  have howns : l.owns = sock ::ₘ Logger.owns { l with sock := none } := by
    change l.inFd ::ₘ l.log ::ₘ (l.out.toFinset.val + l.sock.toFinset.val + l.unixs.val) =
      sock ::ₘ l.inFd ::ₘ l.log ::ₘ (l.out.toFinset.val + 0 + l.unixs.val)
    rw [hsock, Option.toFinset_some, Finset.singleton_val, add_zero, Multiset.add_comm _ {sock},
      Multiset.singleton_add, Multiset.cons_add, Multiset.cons_swap l.log, Multiset.cons_swap l.inFd]
  have herase := Multiset.erase_le_erase sock h.owns
  rw [howns, Multiset.erase_cons_head] at herase
  exact herase

theorem accepts_fromSocket (h : UpToDate l s held) :
    Accepts logger (s, held) (fromSocket l readset) (fun l' s' => UpToDate l' s'.1 s'.2) := by
  unfold fromSocket
  split
  · exact (accepts_pure l).mpr h
  rename_i sock hsock
  have hheld := h.mem_held (Logger.mem_owns.mpr (by simp [hsock] : sock = _ ∨ _))
  split
  · apply accepts_perform_bind
    intro (fd : Option ℕ)
    cases fd with
    | none =>
      refine ⟨({ s with news := s.news ++ [.refused] }, held), ?_, ?_⟩
      · change Option.map _ (if sock ∈ held then some held else none) = _
        rw [if_pos hheld]
        rfl
      have htold := h.told .refused (by
        intro fd data hsame
        cases hsame)
      apply accepts_copy (h.mem_held (Logger.mem_owns.mpr (by simp)))
      · intro out hout
        exact h.mem_held (Logger.mem_owns.mpr (by simp [hout]))
      apply accepts_perform_bind
      intro _
      refine ⟨(_, held.erase sock), ?_, (accepts_pure _).mpr (htold.deaf hsock)⟩
      change Option.map _ (if sock ∈ held then some (held.erase sock) else none) = _
      rw [if_pos hheld]
      rfl
    | some fd =>
      refine ⟨({ s with news := s.news ++ [] }, fd ::ₘ held), rfl, (accepts_pure _).mpr ?_⟩
      rw [List.append_nil]
      exact h.joined fd
  · exact (accepts_pure l).mpr h

theorem accepts_round (h : UpToDate l s held) : Accepts logger (s, held) (round l) Leaves := by
  apply accepts_perform_bind
  intro (ready : Option (Finset ℕ))
  refine ⟨(s, held), rfl, ?_⟩
  cases ready with
  | none => exact (accepts_pure _).mpr h
  | some readset =>
    apply accepts_bind
    apply (accepts_fromKernel h).imp
    rintro _ ⟨s₁, held₁⟩ ⟨h₁, rfl⟩
    apply accepts_bind
    apply (accepts_fromClients (List.range 20) (fun fd => List.mem_range.mp) l.unixs h₁).imp
    rintro unixs ⟨s₂, held₂⟩ h₂
    apply accepts_bind
    apply (accepts_fromSocket h₂).imp
    rintro l' ⟨s₃, held₃⟩ h₃
    exact (accepts_pure _).mpr h₃

theorem accepts_close {fd : ℕ} {f : Bool → Program α}
    (hf : ∀ r, Accepts logger (s, held) (f r) Q) :
    Accepts logger (s, fd ::ₘ held) (close fd >>= f) Q := by
  apply accepts_perform_bind
  intro r
  refine ⟨(s, held), ?_, hf r⟩
  change Option.map _ (if fd ∈ fd ::ₘ held then some ((fd ::ₘ held).erase fd) else none) = _
  rw [if_pos (Multiset.mem_cons_self fd held), Multiset.erase_cons_head]
  rfl

theorem accepts_print {f : Option ℕ → Program α} (hf : ∀ r, Accepts logger (s, held) (f r) Q) :
    Accepts logger (s, held) (print >>= f) Q := by
  apply accepts_perform_bind
  intro r
  exact ⟨(s, held), rfl, hf r⟩

theorem accepts_complain {done : Bool} {f : Unit → Program α}
    (hf : Accepts logger (s, held) (f ()) Q) :
    Accepts logger (s, held) (complain done >>= f) Q := by
  apply accepts_bind
  cases done with
  | true => exact (accepts_pure ()).mpr hf
  | false =>
    apply accepts_print
    intro _
    exact (accepts_pure ()).mpr hf

theorem accepts_openSocket {f : Option ℕ → Program α}
    (hf : ∀ sock, Accepts logger (s, sock.toFinset.val + held) (f sock) Q) :
    Accepts logger (s, held) (openSocket >>= f) Q := by
  apply accepts_bind
  apply accepts_perform_bind
  intro (sock : Option ℕ)
  have huse : ∀ c, (∀ r, descriptor c r = sock.elim .keep .use) →
      (∀ s r, copied s c r = some s) → ∀ r,
        logger (s, sock.toFinset.val + held) c r = some (s, sock.toFinset.val + held) := by
    intro c hc hs r
    have hheld : holding descriptor (sock.toFinset.val + held) c r =
        some (sock.toFinset.val + held) := by
      unfold holding
      rw [hc]
      cases sock with
      | none => rfl
      | some sock => exact if_pos (Multiset.mem_add.mpr (Or.inl (Multiset.mem_singleton_self sock)))
    change (copied s c r).bind (fun a => Option.map (fun b => (a, b)) _) = _
    rw [hs, hheld]
    rfl
  refine ⟨(s, sock.toFinset.val + held), ?_, ?_⟩
  · cases sock with
    | none =>
      rw [Option.toFinset_none, Finset.empty_val, zero_add]
      rfl
    | some sock => rfl
  apply accepts_complain
  apply accepts_print
  intro _
  apply accepts_perform_bind
  intro bound
  refine ⟨_, huse (.bind sock) (fun _ => rfl) (fun _ _ => rfl) bound, ?_⟩
  apply accepts_complain
  apply accepts_print
  intro _
  apply accepts_perform_bind
  intro listening
  refine ⟨_, huse (.listen sock) (fun _ => rfl) (fun _ _ => rfl) listening, ?_⟩
  apply accepts_complain
  exact (accepts_pure sock).mpr (hf sock)

/-- The process that goes on keeps only what it has opened. -/
theorem accepts_child {inFd log : ℕ} {out : Option ℕ}
    (hs : s = { Copied.nothing with kmsg := some inFd, out := out }) :
    Accepts logger (s, log ::ₘ inFd ::ₘ (out.toFinset.val + standard)) (do
      let _ ← close (some 0)
      let _ ← close (some 1)
      let _ ← close (some 2)
      let _ ← dup2 log
      let sock ← openSocket
      pure (.inl (.serving ⟨inFd, out, log, sock, ∅⟩))) Leaves := by
  have hswap : log ::ₘ inFd ::ₘ (out.toFinset.val + standard) =
      0 ::ₘ 1 ::ₘ 2 ::ₘ log ::ₘ inFd ::ₘ out.toFinset.val := by
    change _ ::ₘ _ ::ₘ (_ + 0 ::ₘ 1 ::ₘ {2}) = _
    simp only [← Multiset.singleton_add]
    ac_rfl
  rw [hswap]
  apply accepts_close
  intro _
  apply accepts_close
  intro _
  apply accepts_close
  intro _
  apply accepts_perform_bind
  intro (copied : Option ℕ)
  refine ⟨(s, log ::ₘ inFd ::ₘ out.toFinset.val), ?_, ?_⟩
  · change Option.map _ (if log ∈ log ::ₘ inFd ::ₘ out.toFinset.val then _ else none) = _
    rw [if_pos (Multiset.mem_cons_self _ _)]
    rfl
  apply accepts_openSocket
  intro sock
  subst hs
  apply (accepts_pure _).mpr
  refine ⟨rfl, rfl, rfl, ?_, by simp [Copied.nothing], ?_⟩
  · cases out <;> rfl
  · change inFd ::ₘ log ::ₘ (out.toFinset.val + sock.toFinset.val + 0) ≤ _
    rw [add_zero, Multiset.add_cons, Multiset.add_cons, Multiset.cons_swap,
      add_comm sock.toFinset.val]

/-- The other one gives back all of it. -/
theorem accepts_parent {inFd log : ℕ} {out : Option ℕ}
    (hs : s = { Copied.nothing with kmsg := some inFd, out := out }) :
    Accepts logger (s, log ::ₘ inFd ::ₘ (out.toFinset.val + standard)) (do
      let _ ← close (some inFd)
      let _ ← close out
      let _ ← close log
      pure (.inr .parent)) Leaves := by
  subst hs
  rw [Multiset.cons_swap log inFd]
  apply accepts_close
  intro _
  cases out with
  | none =>
    apply accepts_perform_bind
    intro _
    refine ⟨(_, log ::ₘ standard), rfl, ?_⟩
    apply accepts_close
    intro _
    exact (accepts_pure _).mpr ⟨rfl, rfl, rfl, rfl⟩
  | some out =>
    rw [Option.toFinset_some, Finset.singleton_val, Multiset.singleton_add, Multiset.cons_swap]
    apply accepts_close
    intro _
    apply accepts_close
    intro _
    exact (accepts_pure _).mpr ⟨rfl, rfl, rfl, rfl⟩

theorem accepts_startLogger (fn : Str) :
    Accepts logger (.nothing, standard) (startLogger fn) Leaves := by
  apply accepts_perform_bind
  intro (inFd : Option ℕ)
  cases inFd with
  | none =>
    refine ⟨_, rfl, ?_⟩
    apply accepts_print
    intro _
    exact (accepts_pure _).mpr ⟨rfl, rfl, rfl, rfl⟩
  | some inFd =>
    refine ⟨({ Copied.nothing with kmsg := some inFd }, inFd ::ₘ standard), rfl, ?_⟩
    apply accepts_perform_bind
    intro (out : Option ℕ)
    let s : Copied := { Copied.nothing with
      kmsg := some inFd
      out := out }
    refine ⟨(s, out.toFinset.val + inFd ::ₘ standard), ?_, ?_⟩
    · cases out <;> rfl
    rw [Multiset.add_cons]
    apply accepts_complain
    apply accepts_perform_bind
    intro (log : Option ℕ)
    cases log with
    | none =>
      refine ⟨(s, inFd ::ₘ (out.toFinset.val + standard)), rfl, ?_⟩
      apply accepts_print
      intro _
      apply accepts_close
      intro _
      exact (accepts_pure _).mpr ⟨rfl, rfl, rfl, add_comm _ _⟩
    | some log =>
      refine ⟨(s, log ::ₘ inFd ::ₘ (out.toFinset.val + standard)), rfl, ?_⟩
      apply accepts_perform_bind
      intro (child : ℤ)
      refine ⟨(s, log ::ₘ inFd ::ₘ (out.toFinset.val + standard)), rfl, ?_⟩
      by_cases hchild : child = 0
      · rw [if_neg (by simp [hchild])]
        exact accepts_child rfl
      · rw [if_pos hchild]
        exact accepts_parent rfl

theorem accepts_doklog (fn : Str) (p : Point) (s : Copied × Multiset ℕ) (h : Between p s) :
    Accepts logger s (doklog fn p) Leaves := by
  cases p with
  | start =>
    rw [show s = (.nothing, standard) from h]
    exact accepts_startLogger fn
  | serving l => exact accepts_round h

end Rounds

section Runs

variable {fn : Str} {t : List (Event Answer)} {r : Point ⊕ Ending}

theorem flatMap_text (fd : ℕ) (news : List News) :
    (news.filter (fun n => (n.broughtBy fd).isSome)).flatMap News.text =
      (news.filterMap (News.broughtBy fd)).flatMap logChunk := by
  induction news with
  | nil => rfl
  | cons n news ih =>
    have hn : ∀ data, n.broughtBy fd = some data → n.text = logChunk data := by
      intro data hdata
      cases n with
      | heard fd' data' =>
        have hif : (if fd' = fd then some data' else none) = some data := hdata
        split at hif
        · cases hif
          rfl
        · cases hif
      | refused => cases hdata
    cases hbrought : n.broughtBy fd with
    | none =>
      rw [List.filter_cons_of_neg (by simp [hbrought]), List.filterMap_cons_none hbrought, ih]
    | some data =>
      rw [List.filter_cons_of_pos (by simp [hbrought]), List.filterMap_cons_some hbrought,
        List.flatMap_cons, List.flatMap_cons, hn data hbrought, ih]

/-- The log and the terminal have what there was to log. -/
def Logged (s : Copied) : Prop :=
  s.toLog = s.news.flatMap News.text ∧ s.toOut = s.out.elim [] (fun _ => s.toLog) ∧
    ∀ fd data, News.heard fd data ∈ s.news → s.kmsg = some fd ∨ fd < 20

theorem logged_nil {s : Copied} (hnews : s.news = []) (hout : s.toOut = []) (hlog : s.toLog = []) :
    Logged s := by
  refine ⟨by rw [hlog, hnews]; rfl, ?_, by simp [hnews]⟩
  rw [hout, hlog]
  cases s.out <;> rfl

theorem Leaves.logged {s : Copied × Multiset ℕ} (h : Leaves r s) : Logged s.1 := by
  cases r with
  | inl p =>
    cases p with
    | start =>
      rw [show s = (.nothing, standard) from h]
      exact logged_nil rfl rfl rfl
    | serving l =>
      have hl : UpToDate l s.1 s.2 := h
      refine ⟨hl.toLog, hl.out ▸ hl.toOut, ?_⟩
      intro fd data hmem
      cases hl.heard fd data hmem with
      | inl hfd => exact Or.inl (hfd ▸ hl.kmsg)
      | inr hfd => exact Or.inr hfd
  | inr e => exact logged_nil h.1 h.2.1 h.2.2.1

/-- Whatever is read, in whatever order, is logged in that order and shown on the terminal if there
is one. From one descriptor the log has a line for each message, however its reads cut them, where
each NUL that comes from it ends a message. Apart from descriptor 1, which `print` and `dup2` use
when the child has closed it, and from -1, no descriptor is used or closed that is not held, and
clients from descriptor 20 on are not heard. The parent keeps what it started with; if the log
cannot be opened, it keeps the terminal too. -/
theorem doklog_logs (h : Loops (doklog fn) .start t r) :
    ∃ s held, watch copied .nothing t = some s ∧ watch (holding descriptor) standard t = some held ∧
      Logged s ∧
      (∀ fd, Separated (s.news.filterMap (News.broughtBy fd)).flatten →
        (s.news.filter (fun n => (n.broughtBy fd).isSome)).flatMap News.text =
          lines (s.news.filterMap (News.broughtBy fd)).flatten) ∧
      ∀ e, r = .inr e → s.news = [] ∧
        held = standard + (if e = .noLog then s.out.toFinset.val else 0) := by
  obtain ⟨⟨s, held⟩, hw, hr⟩ := loops_watch (accepts_doklog fn) h (.nothing, standard) rfl
  have hboth := watch_both hw
  refine ⟨s, held, hboth.1, hboth.2, Leaves.logged hr, ?_, ?_⟩
  · intro fd hsep
    rw [flatMap_text, flatMap_logChunk _ hsep]
  · intro e he
    subst he
    exact ⟨hr.1, hr.2.2.2⟩

/-- Two clients are heard at once, a message of the second one in two reads. -/
def twoClients : List (Event Answer) :=
  [⟨.openKmsg, some 3⟩, ⟨.openOut (ascii "/dev/tty4"), none⟩, ⟨.print, some 64⟩, ⟨.openLog, some 4⟩,
    ⟨.fork, (0 : ℤ)⟩, ⟨.close (some 0), true⟩, ⟨.close (some 1), true⟩, ⟨.close (some 2), true⟩,
    ⟨.dup2 4, none⟩, ⟨.socket, some 0⟩, ⟨.print, none⟩, ⟨.bind (some 0), true⟩, ⟨.print, none⟩,
    ⟨.listen (some 0), true⟩,
    ⟨.select {3, 0}, some {0}⟩, ⟨.accept 0, some 1⟩,
    ⟨.select {3, 0, 1}, some {0, 1}⟩, ⟨.read 1, some ⟨ascii "<6>a", by decide⟩⟩,
    ⟨.writeLog 4 (ascii "<6>a"), some 4⟩, ⟨.accept 0, some 2⟩,
    ⟨.select {3, 0, 2, 1}, some {1, 2}⟩,
    ⟨.read 1, some ⟨0 :: ascii "<6>b" ++ [0], by decide⟩⟩,
    ⟨.writeLog 4 (ascii "\n<6>b\n"), some 6⟩,
    ⟨.read 2, some ⟨ascii "<5>c" ++ [0], by decide⟩⟩, ⟨.writeLog 4 (ascii "<5>c\n"), some 5⟩]

theorem loops_twoClients : Loops (doklog (ascii "/dev/tty4")) .start twoClients
    (.inl (.serving ⟨3, none, 4, some 0, {2, 1}⟩)) := by
  have hstart : Runs (doklog (ascii "/dev/tty4") .start) (twoClients.take 14)
      (.inl (.serving ⟨3, none, 4, some 0, ∅⟩)) := by
    change Runs (startLogger _) _ _
    exact .call _ (.call _ (.call _ (.call _ (.call _ (.call _ (.call _ (.call _ (.call _
      (.call _ (.call _ (.call _ (.call _ (.call _ (.ret _))))))))))))))
  have hfirst : Runs (doklog (ascii "/dev/tty4") (.serving ⟨3, none, 4, some 0, ∅⟩))
      ((twoClients.drop 14).take 2) (.inl (.serving ⟨3, none, 4, some 0, {1}⟩)) := by
    change Runs (round _) _ _
    apply runs_perform_bind
    exact .call _ (.ret _)
  have hsecond : Runs (doklog (ascii "/dev/tty4") (.serving ⟨3, none, 4, some 0, {1}⟩))
      ((twoClients.drop 16).take 4) (.inl (.serving ⟨3, none, 4, some 0, {2, 1}⟩)) := by
    change Runs (round _) _ _
    apply runs_perform_bind
    exact .call _ (.call _ (.call _ (.ret _)))
  have hthird : Runs (doklog (ascii "/dev/tty4") (.serving ⟨3, none, 4, some 0, {2, 1}⟩))
      (twoClients.drop 20) (.inl (.serving ⟨3, none, 4, some 0, {2, 1}⟩)) := by
    change Runs (round _) _ _
    apply runs_perform_bind
    exact .call _ (.call _ (.call _ (.call _ (.ret _))))
  exact .again hstart (.again hfirst (.again hsecond (.again hthird (.here _))))

theorem doklog_logs_twoClients :
    ∃ s held, watch copied .nothing twoClients = some s ∧
      watch (holding descriptor) standard twoClients = some held ∧
      s.toLog = ascii "<6>a\n<6>b\n<5>c\n" ∧ s.toOut = [] := by
  obtain ⟨s, held, hw, hheld, hlogged, -, -⟩ := doklog_logs loops_twoClients
  have hcopied : watch copied .nothing twoClients = some ⟨some 3, none,
      [.heard 1 (ascii "<6>a"), .heard 1 (0 :: ascii "<6>b" ++ [0]), .heard 2 (ascii "<5>c" ++ [0])],
      [], ascii "<6>a\n<6>b\n<5>c\n"⟩ := rfl
  rw [hcopied] at hw
  cases hw
  exact ⟨_, held, hcopied, hheld, rfl, hlogged.2.1⟩

end Runs

end Comodoo.KernelLog
