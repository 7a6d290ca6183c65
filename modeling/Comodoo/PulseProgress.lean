import Comodoo.AmebaInstaller
import Comodoo.StepRun

set_option autoImplicit false

/-!
# Passing on the output of a child

The loop of `execWithPulseProgress` in `stage-2/anaconda` over the one-byte reads of the pipe, and
the call of `waitpid` behind it. A variable that has not been assigned is `none`.
-/
namespace Comodoo.PulseProgress
open CString StepRun

abbrev EINTR : ℕ := 4

/-- What `os.read(p[0], 1)` gives; `error` carries the `errno` of an `OSError`. -/
inductive Read where
  | byte (b : UInt8)
  | eof
  | error (num : ℕ)
  deriving DecidableEq, Repr

inductive Wait where
  | status (status : ℕ)
  | error
  deriving DecidableEq, Repr

/-- What a call can raise; `unbound` is `UnboundLocalError`. -/
inductive Raised where
  | ioError
  | unbound
  deriving DecidableEq, Repr

/-- `written` is the content of the output file. -/
structure Loop where
  s : Option Str
  written : Str
  deriving DecidableEq, Repr

structure Outcome where
  result : Except Raised ℕ
  written : Str

def round (l : Loop) (r : Read) : Status Loop (Except Raised Unit × Str) :=
  let write (s : Option Str) : Status Loop (Except Raised Unit × Str) :=
    match s with
    | none => .stopped (.error .unbound, l.written)
    | some t =>
      if t.length < 1 then .stopped (.ok (), l.written ++ t) else .running ⟨s, l.written ++ t⟩
  match r with
  | .byte b => write (some [b])
  | .eof => write (some [])
  | .error num => if num ≠ EINTR then .stopped (.error .ioError, l.written) else write l.s

def passOn (header : Str) (reads : List Read) : Status Loop (Except Raised Unit × Str) :=
  run round ⟨none, header⟩ reads

def WIFEXITED (status : ℕ) : Bool := status % 128 = 0

def WEXITSTATUS (status : ℕ) : ℕ := status / 256 % 256

def finish : Wait → Except Raised ℕ
  | .status status => if WIFEXITED status then .ok (WEXITSTATUS status) else .ok 1
  -- the handler only logs, and `status is None` reads the variable
  | .error => .error .unbound

/-- `header` is the line that says what is run. -/
def execWithPulseProgress (header : Str) (reads : List Read) (wait : Wait) :
    Status Loop Outcome :=
  match passOn header reads with
  | .running l => .running l
  | .stopped (.error e, written) => .stopped ⟨.error e, written⟩
  | .stopped (.ok (), written) => .stopped ⟨finish wait, written⟩

/-! ## What is asked of it -/

/-- The results of reads in front of the end of the file. -/
inductive PipeRead where
  | byte (b : UInt8)
  | interrupted
  deriving DecidableEq, Repr

def PipeRead.read : PipeRead → Read
  | .byte b => .byte b
  | .interrupted => .error EINTR

def PipeRead.output : PipeRead → Option UInt8
  | .byte b => some b
  | .interrupted => none

def childBytes (reads : List PipeRead) : Str := reads.filterMap PipeRead.output

/-- How the child ends, or that this cannot be learnt. -/
inductive Ending where
  | exited (code : UInt8)
  | signalled (signal : Fin 64) (core : Bool)
  | unknown
  deriving DecidableEq, Repr

/-- The status of a child, the core flag above the number of the signal. -/
def Ending.wait : Ending → Wait
  | .exited code => .status (code.toNat * 256)
  | .signalled signal core => .status (signal.val + 1 + (if core then 128 else 0))
  | .unknown => .error

def RightStatus (e : Ending) (rc : ℕ) : Prop :=
  match e with
  | .exited code => rc = code.toNat
  | .signalled _ _ => rc ≠ 0
  | .unknown => rc ≠ 0

/-- The output is passed on byte by byte until the end of the file, and then the status returned. -/
structure Faithful (header : Str) (reads : List PipeRead) (e : Ending) : Prop where
  passes : ∃ s, passOn header (reads.map PipeRead.read) =
    .running ⟨s, header ++ childBytes reads⟩
  ends : ∃ rc, execWithPulseProgress header (reads.map PipeRead.read ++ [.eof]) e.wait =
    .stopped ⟨.ok rc, header ++ childBytes reads⟩ ∧ RightStatus e rc

section Rounds
variable {l : Loop} {header : Str} {reads : List PipeRead} {e : Ending}

theorem run_bytes (l : Loop) (hbytes : PipeRead.interrupted ∉ reads) (rest : List Read) :
    ∃ s, run round l (reads.map PipeRead.read ++ rest) =
      run round ⟨s, l.written ++ childBytes reads⟩ rest := by
  induction reads generalizing l with
  | nil => exact ⟨l.s, by rw [childBytes, List.filterMap_nil, List.append_nil]; rfl⟩
  | cons r reads ih =>
    rw [List.mem_cons, not_or] at hbytes
    cases r with
    | interrupted => exact absurd rfl hbytes.1
    | byte b =>
      obtain ⟨s, hs⟩ := ih ⟨some [b], l.written ++ [b]⟩ hbytes.2
      refine ⟨s, ?_⟩
      have hround : round l (PipeRead.byte b).read = .running ⟨some [b], l.written ++ [b]⟩ := rfl
      rw [List.map_cons, List.cons_append, run_cons_running _ hround, hs, List.append_assoc]
      rfl

/-- Behind a byte every round writes one, a new one or the last one again. -/
theorem run_length (b : UInt8) (written : Str) (reads : List PipeRead) :
    ∃ b' written', run round ⟨some [b], written⟩ (reads.map PipeRead.read) =
        .running ⟨some [b'], written'⟩ ∧ written'.length = written.length + reads.length := by
  induction reads generalizing b written with
  | nil => exact ⟨b, written, rfl, rfl⟩
  | cons r reads ih =>
    have hround : ∃ b', round ⟨some [b], written⟩ r.read =
        .running ⟨some [b'], written ++ [b']⟩ := by
      cases r with
      | byte b' => exact ⟨b', rfl⟩
      | interrupted => exact ⟨b, rfl⟩
    obtain ⟨b', hb'⟩ := hround
    obtain ⟨b'', written', hrun, hlen⟩ := ih b' (written ++ [b'])
    refine ⟨b'', written', ?_, ?_⟩
    · rw [List.map_cons, run_cons_running _ hb', hrun]
    · rw [hlen, List.length_append, List.length_singleton, List.length_cons]
      omega

theorem childBytes_length (reads : List PipeRead) (h : reads.length ≤ (childBytes reads).length) :
    PipeRead.interrupted ∉ reads := by
  induction reads with
  | nil => exact List.not_mem_nil
  | cons r reads ih =>
    have hle : (childBytes reads).length ≤ reads.length := List.length_filterMap_le _ _
    cases r with
    | byte b =>
      have hcons : childBytes (.byte b :: reads) = b :: childBytes reads := rfl
      rw [hcons, List.length_cons, List.length_cons] at h
      rw [List.mem_cons, not_or]
      exact ⟨PipeRead.noConfusion, ih (Nat.le_of_succ_le_succ h)⟩
    | interrupted =>
      have hcons : childBytes (.interrupted :: reads) = childBytes reads := rfl
      rw [hcons, List.length_cons] at h
      omega

theorem passes_uninterrupted {s : Option Str}
    (h : passOn header (reads.map PipeRead.read) = .running ⟨s, header ++ childBytes reads⟩) :
    PipeRead.interrupted ∉ reads := by
  cases reads with
  | nil => exact List.not_mem_nil
  | cons r reads =>
    cases r with
    | interrupted =>
      have hround : round ⟨none, header⟩ PipeRead.interrupted.read =
          .stopped (.error .unbound, header) := rfl
      rw [passOn, List.map_cons, run_cons_stopped _ hround] at h
      cases h
    | byte b =>
      have hround : round ⟨none, header⟩ (PipeRead.byte b).read =
          .running ⟨some [b], header ++ [b]⟩ := rfl
      obtain ⟨b', written', hrun, hlen⟩ := run_length b (header ++ [b]) reads
      rw [passOn, List.map_cons, run_cons_running _ hround, hrun] at h
      have hwritten := congrArg List.length (Loop.mk.inj (Status.running.inj h)).2
      rw [hlen, List.length_append, List.length_append, List.length_singleton] at hwritten
      refine childBytes_length _ ?_
      rw [List.length_cons]
      omega

theorem finish_exited (code : UInt8) : finish (Ending.exited code).wait = .ok code.toNat := by
  have hcode : code.toNat < 256 := code.toNat_lt
  rw [Ending.wait, finish, WIFEXITED, WEXITSTATUS, if_pos (decide_eq_true (by omega)),
    Nat.mul_div_cancel _ (by decide), Nat.mod_eq_of_lt hcode]

theorem finish_signalled (signal : Fin 64) (core : Bool) :
    finish (Ending.signalled signal core).wait = .ok 1 := by
  have hsignal := signal.isLt
  rw [Ending.wait, finish, WIFEXITED, if_neg]
  rw [decide_eq_true_eq]
  split_ifs <;> omega

theorem finish_right (hknown : e ≠ .unknown) : ∃ rc, finish e.wait = .ok rc ∧ RightStatus e rc := by
  cases e with
  | exited code => exact ⟨code.toNat, finish_exited code, rfl⟩
  | signalled signal core => exact ⟨1, finish_signalled signal core, Nat.one_ne_zero⟩
  | unknown => exact absurd rfl hknown

def Ending.waitStatus : Ending → Option AmebaInstaller.WaitStatus
  | .exited code => some (.exited code.toNat)
  | .signalled _ _ => some .signalled
  | .unknown => none

theorem installer_finish (command : AmebaInstaller.Step) (e : Ending)
    (log : List (LoggedSteps.Event AmebaInstaller.Step)) :
    ((AmebaInstaller.execWithPulseProgress command e.waitStatus).run.run log).1 =
      (finish e.wait).mapError (fun _ => ()) := by
  cases e with
  | exited code =>
    rw [finish_exited]
    rfl
  | signalled signal core =>
    rw [finish_signalled]
    rfl
  | unknown => rfl

/-- The bytes and the status are right when no read is interrupted and `waitpid` succeeds. -/
theorem execWithPulseProgress_faithful_iff (header : Str) (reads : List PipeRead) (e : Ending) :
    Faithful header reads e ↔ PipeRead.interrupted ∉ reads ∧ e ≠ .unknown := by
  constructor
  · rintro ⟨⟨s, hpass⟩, rc, hexec, -⟩
    have hbytes := passes_uninterrupted hpass
    refine ⟨hbytes, ?_⟩
    rintro rfl
    obtain ⟨s', hrun⟩ := run_bytes ⟨none, header⟩ hbytes [.eof]
    rw [execWithPulseProgress, passOn, hrun] at hexec
    cases (Outcome.mk.inj (Status.stopped.inj hexec)).1
  · rintro ⟨hbytes, hknown⟩
    obtain ⟨rc, hfinish, hright⟩ := finish_right hknown
    refine ⟨?_, rc, ?_, hright⟩
    · obtain ⟨s, hrun⟩ := run_bytes ⟨none, header⟩ hbytes []
      rw [List.append_nil] at hrun
      exact ⟨s, hrun⟩
    · obtain ⟨s, hrun⟩ := run_bytes ⟨none, header⟩ hbytes [.eof]
      have hround : round ⟨s, header ++ childBytes reads⟩ .eof =
          .stopped (.ok (), header ++ childBytes reads ++ []) := rfl
      rw [execWithPulseProgress, passOn, hrun, run_cons_stopped [] hround, List.append_nil]
      dsimp only
      rw [hfinish]

end Rounds

/-- The first byte is written twice. -/
theorem interrupted_not_faithful :
    ¬ Faithful [] [.byte 0x61, .interrupted, .byte 0x62] (.exited 0) := by
  rintro ⟨⟨s, hpass⟩, -⟩
  cases hpass

end Comodoo.PulseProgress
