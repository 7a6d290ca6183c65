import Comodoo.SystemCalls
import Comodoo.TelnetInput
import Comodoo.TelnetOutput

set_option autoImplicit false

/-!
# The telnet server

`beTelnet` of `stage-1/telnetd.c`. The parent carries bytes between the connection and the terminal
of the child for as long as both are there. The terminal of the child is left out.
-/
namespace Comodoo.TelnetRelay
open CString SystemCalls TelnetInput TelnetOutput

/-- What a `read` into `buf` can put there. -/
abbrev Chunk := { data : Str // data.length ≤ 4096 }

inductive Call where
  | socket
  | accept (sock : ℕ)
  | telnetNegotiate (conn : ℕ)
  | openMaster
  | fork
  | poll
  | readMaster (masterFd : ℕ)
  | writeConn (conn : ℕ) (data : Str)
  | readConn (conn : ℕ)
  | writeMaster (masterFd : ℕ) (data : Str)
  | kill (child : ℤ)
  | close (fd : ℕ)
  deriving DecidableEq, Repr

/-- `none` is an error; `poll` answers which of its two descriptors is ready. -/
def Answer : Call → Type
  | .socket | .accept _ | .openMaster => Option ℕ
  | .fork => ℤ
  | .poll => Option (Bool × Bool)
  | .readMaster _ | .readConn _ => Option Chunk
  | .telnetNegotiate _ | .writeConn _ _ | .writeMaster _ _ | .kill _ | .close _ => Unit

abbrev Program := Prog Call Answer

def socket : Program (Option ℕ) := perform Call.socket

def accept (sock : ℕ) : Program (Option ℕ) := perform (Call.accept sock)

def telnetNegotiate (conn : ℕ) : Program Unit := perform (Call.telnetNegotiate conn)

def openMaster : Program (Option ℕ) := perform Call.openMaster

def fork : Program ℤ := perform Call.fork

def poll : Program (Option (Bool × Bool)) := perform Call.poll

def readMaster (masterFd : ℕ) : Program (Option Chunk) := perform (Call.readMaster masterFd)

def writeConn (conn : ℕ) (data : Str) : Program Unit := perform (Call.writeConn conn data)

def readConn (conn : ℕ) : Program (Option Chunk) := perform (Call.readConn conn)

def writeMaster (masterFd : ℕ) (data : Str) : Program Unit :=
  perform (Call.writeMaster masterFd data)

def kill (child : ℤ) : Program Unit := perform (Call.kill child)

def close (fd : ℕ) : Program Unit := perform (Call.close fd)

structure Relay where
  conn : ℕ
  masterFd : ℕ
  child : ℤ
  ts : TelnetState
  deriving DecidableEq, Repr

inductive Point where
  | start
  | relaying (r : Relay)
  deriving DecidableEq, Repr

/-- The function returns -1, or 0 in the child; the parent exits. -/
inductive Ending where
  | failed
  | child
  | exited
  /-- a read outside of a buffer -/
  | fault
  deriving DecidableEq, Repr

def startServer : Program (Point ⊕ Ending) := do
  match ← socket with
  | none => pure (.inr .failed)
  | some sock => do
    match ← accept sock with
    | none => do
      close sock
      pure (.inr .failed)
    | some conn => do
      close sock
      telnetNegotiate conn
      match ← openMaster with
      | none => do
        close conn
        pure (.inr .failed)
      | some masterFd => do
        let child ← fork
        if child ≠ 0 then pure (.inl (.relaying ⟨conn, masterFd, child, .data⟩))
        else do
          close masterFd
          pure (.inr .child)

def finish (r : Relay) : Program (Point ⊕ Ending) := do
  kill r.child
  close r.conn
  pure (.inr .exited)

/-- `if (fds[1].revents)`; a read that fails leaves nothing to filter. -/
def fromClient (r : Relay) (ready : Bool) : Program (Point ⊕ Ending) :=
  if ready then do
    let got ← readConn r.conn
    if got.any (fun chunk => chunk.val = []) then finish r
    else do
      let (data, ts) := relayed r.ts (got.elim [] Subtype.val)
      writeMaster r.masterFd data
      pure (.inl (.relaying { r with ts := ts }))
  else pure (.inl (.relaying r))

def round (r : Relay) : Program (Point ⊕ Ending) := do
  match ← poll with
  | none => finish r
  | some (shell, client) =>
    if shell then do
      match ← readMaster r.masterFd with
      | none => finish r
      | some chunk =>
        match telnetSendOutput chunk.val with
        | none => pure (.inr .fault)
        | some f => do
          writeConn r.conn f.buf
          fromClient r client
    else fromClient r client

def beTelnet : Point → Program (Point ⊕ Ending)
  | .start => startServer
  | .relaying r => round r

/-! ## What goes through -/

/-- What the shell and the client have sent, read by read, and what was sent on to them. -/
structure Carried where
  shell : List Str
  toClient : Str
  client : List Str
  toShell : Str
  /-- what `fork` has answered -/
  child : Option ℤ
  killed : Option ℤ

def Carried.nothing : Carried := ⟨[], [], [], [], none, none⟩

def carry : Monitor Answer Carried
  | s, .fork, (child : ℤ) => some { s with child := some child }
  | s, .readMaster _, (got : Option Chunk) =>
    some { s with shell := s.shell ++ (got.map Subtype.val).toList }
  | s, .writeConn _ data, _ => some { s with toClient := s.toClient ++ data }
  | s, .readConn _, (got : Option Chunk) =>
    some { s with client := s.client ++ (got.map Subtype.val).toList }
  | s, .writeMaster _ data, _ => some { s with toShell := s.toShell ++ data }
  | s, .kill child, _ => some { s with killed := some child }
  | s, .socket, _ | s, .accept _, _ | s, .telnetNegotiate _, _ | s, .openMaster, _ | s, .poll, _
  | s, .close _, _ => some s

def descriptor : (c : Call) → Answer c → Effect ℕ
  | .socket, (fd : Option ℕ) | .accept _, fd | .openMaster, fd => fd.elim .keep .gain
  | .close fd, _ => .loss fd
  | .fork, _ | .poll, _ | .readMaster _, _ | .readConn _, _ | .telnetNegotiate _, _
  | .writeConn _ _, _ | .writeMaster _ _, _ | .kill _, _ => .keep

def server : Monitor Answer (Carried × Multiset ℕ) := both carry (holding descriptor)

structure UpToDate (s : Carried) (ts : TelnetState) : Prop where
  toClient : s.toClient = s.shell.flatMap (withCR none)
  toShell : processBuffers .data s.client = (s.toShell, ts)

def Between (p : Point) (s : Carried × Multiset ℕ) : Prop :=
  match p with
  | .start => s = (.nothing, 0)
  | .relaying r => UpToDate s.1 r.ts ∧ s.1.child = some r.child ∧ s.2 = {r.conn, r.masterFd}

def Ended (e : Ending) (s : Carried × Multiset ℕ) : Prop :=
  (∃ ts, UpToDate s.1 ts) ∧
  match e with
  | .failed => s.2 = 0 ∧ s.1.child = none
  | .child => s.2.card = 1 ∧ s.1.child = some 0
  | .exited => s.2.card = 1 ∧ ∃ child, s.1.child = some child ∧ s.1.killed = some child
  | .fault => False

def Leaves (x : Point ⊕ Ending) (s : Carried × Multiset ℕ) : Prop :=
  x.elim (Between · s) (Ended · s)

section Rounds

variable {s : Carried} {held : Multiset ℕ} {r : Relay} {ts : TelnetState}

theorem processBuffers_concat (ts : TelnetState) (bufs : List Str) (buf : Str) :
    processBuffers ts (bufs ++ [buf]) =
      ((processBuffers ts bufs).1 ++ (relayed (processBuffers ts bufs).2 buf).1,
        (relayed (processBuffers ts bufs).2 buf).2) := by
  induction bufs generalizing ts with
  | nil => simp [processBuffers]
  | cons b bufs ih =>
    rw [List.cons_append, processBuffers_cons, ih, processBuffers_cons, List.append_assoc]

theorem UpToDate.sent (h : UpToDate s ts) (data : Str) :
    UpToDate { s with shell := s.shell ++ [data], toClient := s.toClient ++ withCR none data } ts := by
  refine ⟨?_, h.toShell⟩
  change s.toClient ++ withCR none data = (s.shell ++ [data]).flatMap (withCR none)
  rw [h.toClient, List.flatMap_append, List.flatMap_singleton]

theorem UpToDate.received (h : UpToDate s ts) (data : Str) :
    UpToDate { s with client := s.client ++ [data], toShell := s.toShell ++ (relayed ts data).1 }
      (relayed ts data).2 := by
  refine ⟨h.toClient, ?_⟩
  change processBuffers .data (s.client ++ [data]) = _
  rw [processBuffers_concat, h.toShell]

theorem UpToDate.silent (h : UpToDate s ts) : UpToDate { s with client := s.client ++ [[]] } ts := by
  have hnothing := h.received []
  have hkeep : relayed ts [] = ([], ts) := rfl
  rw [hkeep, List.append_nil] at hnothing
  exact hnothing

theorem accepts_finish (h : UpToDate s r.ts) (hchild : s.child = some r.child)
    (hheld : held = {r.conn, r.masterFd}) : Accepts server (s, held) (finish r) Leaves := by
  apply accepts_perform_bind
  intro _
  refine ⟨({ s with killed := some r.child }, held), rfl, ?_⟩
  apply accepts_perform_bind
  intro _
  refine ⟨({ s with killed := some r.child }, {r.masterFd}), ?_, ?_⟩
  · change Option.map _ (if r.conn ∈ held then some (held.erase r.conn) else none) = _
    rw [hheld, if_pos (by simp)]
    simp
  apply (accepts_pure _).mpr
  exact ⟨⟨r.ts, h.toClient, h.toShell⟩, rfl, r.child, hchild, rfl⟩

theorem accepts_fromClient (h : UpToDate s r.ts) (hchild : s.child = some r.child)
    (hheld : held = {r.conn, r.masterFd}) (ready : Bool) :
    Accepts server (s, held) (fromClient r ready)
      Leaves := by
  cases ready with
  | false => exact (accepts_pure _).mpr ⟨h, hchild, hheld⟩
  | true =>
    apply accepts_perform_bind
    intro (got : Option Chunk)
    refine ⟨({ s with client := s.client ++ (got.map Subtype.val).toList }, held), rfl, ?_⟩
    cases got with
    | none =>
      apply accepts_perform_bind
      intro _
      refine ⟨({ s with client := s.client ++ [] }, held), ?_, ?_⟩
      · change some ({ s with client := s.client ++ [], toShell := s.toShell ++ [] }, held) = _
        rw [List.append_nil s.toShell]
      apply (accepts_pure _).mpr
      refine ⟨?_, hchild, hheld⟩
      rw [List.append_nil]
      exact h
    | some chunk =>
      by_cases hnil : chunk.val = []
      · rw [if_pos (by simp [hnil])]
        refine accepts_finish ?_ hchild hheld
        rw [Option.map_some, Option.toList_some, hnil]
        exact h.silent
      · rw [if_neg (by simp [hnil])]
        apply accepts_perform_bind
        intro _
        refine ⟨({ s with
          client := s.client ++ [chunk.val],
          toShell := s.toShell ++ (relayed r.ts chunk.val).1 }, held), rfl, ?_⟩
        apply (accepts_pure _).mpr
        exact ⟨h.received chunk.val, hchild, hheld⟩

theorem accepts_round (h : UpToDate s r.ts) (hchild : s.child = some r.child)
    (hheld : held = {r.conn, r.masterFd}) :
    Accepts server (s, held) (round r) Leaves := by
  apply accepts_perform_bind
  intro (ready : Option (Bool × Bool))
  refine ⟨(s, held), rfl, ?_⟩
  match ready with
  | none => exact accepts_finish h hchild hheld
  | some (false, client) => exact accepts_fromClient h hchild hheld client
  | some (true, client) =>
    apply accepts_perform_bind
    intro (got : Option Chunk)
    refine ⟨({ s with shell := s.shell ++ (got.map Subtype.val).toList }, held), rfl, ?_⟩
    cases got with
    | none =>
      refine accepts_finish ?_ hchild hheld
      rw [Option.map_none, Option.toList_none, List.append_nil]
      exact h
    | some chunk =>
      obtain ⟨len, hsend⟩ := telnetSendOutput_spec chunk.val
      dsimp only
      rw [hsend]
      apply accepts_perform_bind
      intro _
      refine ⟨({ s with
        shell := s.shell ++ [chunk.val], toClient := s.toClient ++ withCR none chunk.val }, held),
        rfl, ?_⟩
      exact accepts_fromClient (h.sent chunk.val) hchild hheld client

theorem accepts_startServer :
    Accepts server (.nothing, 0) startServer
      Leaves := by
  have hclose : ∀ (c : Carried) (fd : ℕ) (rest : Multiset ℕ) (next : Program (Point ⊕ Ending)),
      Accepts server (c, rest) next Leaves →
      Accepts server (c, fd ::ₘ rest) (close fd >>= fun _ => next)
        Leaves := by
    intro c fd rest next hnext
    apply accepts_perform_bind
    intro _
    refine ⟨(c, rest), ?_, hnext⟩
    change Option.map _ (if fd ∈ fd ::ₘ rest then some ((fd ::ₘ rest).erase fd) else none) = _
    rw [if_pos (Multiset.mem_cons_self _ _), Multiset.erase_cons_head]
    rfl
  have hstart : ∀ child, UpToDate { Carried.nothing with child := child } .data :=
    fun _ => ⟨rfl, rfl⟩
  have hfailed : Accepts server (.nothing, 0) (pure (.inr .failed) : Program (Point ⊕ Ending))
      Leaves :=
    (accepts_pure _).mpr ⟨⟨.data, hstart none⟩, rfl, rfl⟩
  apply accepts_perform_bind
  intro (sock : Option ℕ)
  cases sock with
  | none => exact ⟨_, rfl, hfailed⟩
  | some sock =>
    refine ⟨(.nothing, {sock}), rfl, ?_⟩
    apply accepts_perform_bind
    intro (conn : Option ℕ)
    cases conn with
    | none => exact ⟨(.nothing, {sock}), rfl, hclose _ sock 0 _ hfailed⟩
    | some conn =>
      refine ⟨(.nothing, conn ::ₘ {sock}), rfl, ?_⟩
      rw [show conn ::ₘ {sock} = sock ::ₘ ({conn} : Multiset ℕ) from Multiset.cons_swap conn sock 0]
      apply hclose
      apply accepts_perform_bind
      intro _
      refine ⟨(.nothing, {conn}), rfl, ?_⟩
      apply accepts_perform_bind
      intro (masterFd : Option ℕ)
      cases masterFd with
      | none => exact ⟨(.nothing, {conn}), rfl, hclose _ conn 0 _ hfailed⟩
      | some masterFd =>
        refine ⟨(.nothing, masterFd ::ₘ {conn}), rfl, ?_⟩
        apply accepts_perform_bind
        intro (child : ℤ)
        refine ⟨({ Carried.nothing with child := some child }, masterFd ::ₘ {conn}), rfl, ?_⟩
        by_cases hchild : child = 0
        · rw [if_neg (by simp [hchild])]
          apply hclose
          apply (accepts_pure _).mpr
          exact ⟨⟨.data, hstart _⟩, rfl, congrArg some hchild⟩
        · rw [if_pos hchild]
          apply (accepts_pure _).mpr
          exact ⟨hstart _, rfl, Multiset.cons_swap masterFd conn 0⟩

theorem accepts_beTelnet (p : Point) (s : Carried × Multiset ℕ) (h : Between p s) :
    Accepts server s (beTelnet p) Leaves := by
  cases p with
  | start =>
    rw [show s = (.nothing, 0) from h]
    exact accepts_startServer
  | relaying r => exact accepts_round h.1 h.2.1 h.2.2

end Rounds

section Runs

variable {t : List (Event Answer)} {r : Point ⊕ Ending}

/-- In whatever order the two sides speak, each gets what the other one has said: the client with
a CR in front of each line end of a read, the shell without the commands. A function that fails
holds no descriptor; the parent kills what `fork` has answered, be it -1. -/
theorem beTelnet_carries (h : Loops beTelnet .start t r) :
    ∃ s held, watch carry .nothing t = some s ∧ watch (holding descriptor) 0 t = some held ∧
      s.toClient = s.shell.flatMap (withCR none) ∧
      s.toShell = (processBuffers .data s.client).1 ∧
      (cutsCommand .data s.client = false → s.toShell = (strip .data s.client.flatten).1) ∧
      ∀ e, r = .inr e → e ≠ .fault ∧ (e = .failed ↔ s.child = none) ∧
        held.card = (if e = .failed then 0 else 1) ∧ (e = .exited → s.killed = s.child) := by
  obtain ⟨s, hw, hr⟩ := loops_watch accepts_beTelnet h (.nothing, 0) rfl
  have hboth := watch_both hw
  have hdate : ∃ ts, UpToDate s.1 ts := by
    cases r with
    | inl p =>
      cases p with
      | start => exact ⟨.data, by rw [show s = (.nothing, 0) from hr]; exact ⟨rfl, rfl⟩⟩
      | relaying q => exact ⟨q.ts, hr.1⟩
    | inr e => exact hr.1
  obtain ⟨ts, hdate⟩ := hdate
  refine ⟨s.1, s.2, hboth.1, hboth.2, hdate.toClient, by rw [hdate.toShell], ?_, ?_⟩
  · intro hcut
    rw [← processBuffers_uncut _ _ hcut, hdate.toShell]
  · intro e he
    subst he
    have hend := hr.2
    cases e with
    | failed => exact ⟨by decide, by simp [hend.2], by rw [hend.1]; rfl, by simp⟩
    | child => exact ⟨by decide, by simp [hend.2], hend.1, by simp⟩
    | exited =>
      obtain ⟨hcard, child, hchild, hkilled⟩ := hend
      exact ⟨by decide, by simp [hchild], hcard, fun _ => hkilled.trans hchild.symm⟩
    | fault => exact hend.elim

/-- A key is pressed while the shell prints a line; then `poll` fails. -/
def oneKey : List (Event Answer) :=
  [⟨.socket, some 3⟩, ⟨.accept 3, some 4⟩, ⟨.close 3, ()⟩, ⟨.telnetNegotiate 4, ()⟩,
    ⟨.openMaster, some 5⟩, ⟨.fork, (77 : ℤ)⟩, ⟨.poll, some (true, true)⟩,
    ⟨.readMaster 5, some ⟨ascii "$\n", by decide⟩⟩, ⟨.writeConn 4 (ascii "$\r\n"), ()⟩,
    ⟨.readConn 4, some ⟨[IAC, 0xf1, 0, 0x78], by decide⟩⟩, ⟨.writeMaster 5 (ascii "x"), ()⟩,
    ⟨.poll, none⟩, ⟨.kill 77, ()⟩, ⟨.close 4, ()⟩]

theorem loops_oneKey : Loops beTelnet .start oneKey (.inr .exited) := by
  have hstart : Runs (beTelnet .start) (oneKey.take 6) (.inl (.relaying ⟨4, 5, 77, .data⟩)) := by
    change Runs startServer _ _
    apply runs_perform_bind
    apply runs_perform_bind
    apply runs_perform_bind
    apply runs_perform_bind
    apply runs_perform_bind
    apply runs_perform_bind
    exact .ret _
  have hround : Runs (beTelnet (.relaying ⟨4, 5, 77, .data⟩)) ((oneKey.drop 6).take 5)
      (.inl (.relaying ⟨4, 5, 77, .data⟩)) := by
    change Runs (round _) _ _
    apply runs_perform_bind
    apply runs_perform_bind
    apply runs_perform_bind
    apply runs_perform_bind
    apply runs_perform_bind
    exact .ret _
  have hend : Runs (beTelnet (.relaying ⟨4, 5, 77, .data⟩)) (oneKey.drop 11) (.inr .exited) := by
    change Runs (round _) _ _
    apply runs_perform_bind
    apply runs_perform_bind
    apply runs_perform_bind
    exact .ret _
  exact .again hstart (.again hround (.last hend))

theorem beTelnet_carries_oneKey :
    ∃ s held, watch carry .nothing oneKey = some s ∧ watch (holding descriptor) 0 oneKey = some held ∧
      s.toShell = ascii "x" ∧ s.killed = some 77 ∧ held.card = 1 := by
  obtain ⟨s, held, hw, hheld, -, -, -, hend⟩ := beTelnet_carries loops_oneKey
  have hcarry : watch carry .nothing oneKey = some ⟨[ascii "$\n"], ascii "$\r\n",
      [[IAC, 0xf1, 0, 0x78]], ascii "x", some 77, some 77⟩ := rfl
  rw [hcarry] at hw
  cases hw
  exact ⟨_, held, hcarry, hheld, rfl, rfl, (hend _ rfl).2.2.1⟩

end Runs

end Comodoo.TelnetRelay
