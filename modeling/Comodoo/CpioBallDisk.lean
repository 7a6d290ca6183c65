import Comodoo.CpioBall
import Comodoo.CpioDisk
import Comodoo.CpioFormat

set_option autoImplicit false

/-!
# A ball on a machine

The disk of the cpio code, as the directory `/updates` of a machine that has the ball `/ball`.
-/
namespace Comodoo.CpioBallDisk
open CString CpioSystem CpioInstall CpioBall CpioDisk CpioFormat

structure Machine where
  host : Host
  ball : Str
  inUpdates : Bool

def Machine.onHost {α : Type} (call : Host → α × Host) (m : Machine) : α × Machine :=
  ((call m.host).1, { m with host := (call m.host).2 })

def home : Str := ascii "/"
def updates : Str := ascii "/updates"
def ballPath : Str := ascii "/ball"

def machineSys : BallSys Machine Bool where
  gunzipRead m n := m.onHost (diskSys.gunzipRead · n)
  gzipWrite m b := m.onHost (diskSys.gzipWrite · b)
  lstat m path := m.onHost (diskSys.lstat · path)
  stat m path := m.onHost (diskSys.stat · path)
  unlink m path := m.onHost (diskSys.unlink · path)
  mkdir m path mode := m.onHost (diskSys.mkdir · path mode)
  chmod m path mode := m.onHost (diskSys.chmod · path mode)
  getuid m := diskSys.getuid m.host
  chown m path uid gid := m.onHost (diskSys.chown · path uid gid)
  lchown m path uid gid := m.onHost (diskSys.lchown · path uid gid)
  utime m path time := m.onHost (diskSys.utime · path time)
  openFile m path := m.onHost (diskSys.openFile · path)
  write m fd b := m.onHost (diskSys.write · fd b)
  close m fd := { m with host := diskSys.close m.host fd }
  readlink m path size := m.onHost (diskSys.readlink · path size)
  symlink m target path := m.onHost (diskSys.symlink · target path)
  mkfifo m path mode := m.onHost (diskSys.mkfifo · path mode)
  mknod m path mode dev := m.onHost (diskSys.mknod · path mode dev)
  link m source path := m.onHost (diskSys.link · source path)
  readable _ path := path = home ∨ path = updates ∨ path = ballPath
  searchable _ path := path = home ∨ path = updates
  makeDir m path _ := (if path = home ∨ path = updates then .existed else .failed, m)
  getcwd m := some (if m.inUpdates then updates else home)
  chdir m path :=
    if path = some updates then (true, { m with inUpdates := true })
    else if path = some home then (true, { m with inUpdates := false })
    else (false, m)
  gzopen m path :=
    if path = ballPath then (true, { m with host := { m.host with input := m.ball } })
    else (false, m)
  gzclose m := { m with host := { m.host with input := [] } }
  workingDir m := m.inUpdates

theorem machineSys_steady : Steady machineSys := by
  constructor
  · intro m path mode
    rfl
  · intro m path h
    change (if path = some updates then (true, { m with inUpdates := true })
      else if path = some home then (true, { m with inUpdates := false }) else (false, m)).1 =
        false at h
    change (if path = some updates then (true, { m with inUpdates := true })
      else if path = some home then (true, { m with inUpdates := false })
      else (false, m)).2.inUpdates = m.inUpdates
    split_ifs at h ⊢
    · rfl

def machine (ball : Str) : Machine := ⟨⟨[], emptyDisk⟩, ball, false⟩

/-- Two bytes are no archive, and this is what the caller is told. -/
theorem unpackCpioBall_correct_garbage :
    UnpackCorrect machineSys 2 (machine (ascii "hi")) ballPath updates none ∧
      InstallCorrect machineSys 2 (machine (ascii "hi")) [] none none := by
  refine (unpack_install_correct_iff machineSys_steady _ _).mpr ⟨⟨?_, ?_⟩, Or.inr ?_⟩
  · rintro ⟨m, hm, hok⟩
    cases hm
    exact absurd hok (by decide +kernel)
  · intro _ m hm
    cases hm
    decide +kernel
  · decide +kernel

def smallBall : Str := (newcEntry 7 0o100644 1 (ascii "x") (ascii "hi")).encode ++ trailerEntry.encode

/-- It is installed, and reported as a failure. -/
theorem smallBall_not_correct :
    ¬ ∀ ball : Str, UnpackCorrect machineSys 3 (machine ball) ballPath updates none := by
  intro h
  refine ((unpackCorrect_iff machineSys_steady).mp (h smallBall)).1 ?_
  exact ⟨_, rfl, by decide +kernel⟩

end Comodoo.CpioBallDisk
