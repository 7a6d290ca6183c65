import Comodoo.CpioFrame
import Comodoo.FilePath
import Mathlib.Logic.Function.Basic

set_option autoImplicit false

/-!
# A disk

A file system in memory, used by root: names lead to inodes, and a call does what it is asked
to whenever the names allow it. Times are left out, and calls that would follow a symbolic
link fail; `open` only makes new files.
-/
namespace Comodoo.CpioDisk
open CString CpioSystem CpioRead CpioExpand CpioStream FilePath

structure Node where
  mode : ℕ
  uid : ℕ
  gid : ℕ
  rdev : ℕ
  data : Str
  deriving DecidableEq, Repr

structure Disk where
  ino : Place → Option ℕ
  node : ℕ → Node
  next : ℕ

namespace Disk

def isDir (d : Disk) (cs : Place) : Bool := (d.ino cs).any (fun i => S_ISDIR (d.node i).mode)

def place (d : Disk) (cs : Place) (n : Node) : Disk :=
  ⟨Function.update d.ino cs (some d.next), Function.update d.node d.next n, d.next + 1⟩

def join (d : Disk) (cs : Place) (i : ℕ) : Disk :=
  { d with ino := Function.update d.ino cs (some i) }

def setNode (d : Disk) (i : ℕ) (f : Node → Node) : Disk :=
  { d with node := Function.update d.node i (f (d.node i)) }

/-- A name that can be given to a file. -/
structure Fresh (d : Disk) (cs : Place) : Prop where
  ne_nil : cs ≠ []
  absent : d.ino cs = none
  parent : d.isDir cs.dropLast = true

def isFresh (d : Disk) (cs : Place) : Bool :=
  cs ≠ [] ∧ d.ino cs = none ∧ d.isDir cs.dropLast = true

def find (d : Disk) (path : Str) : Option ℕ := (locate path).bind d.ino

end Disk

structure Host where
  input : Str
  disk : Disk

namespace Host

def create (w : Host) (path : Str) (n : Node) : Bool × Host :=
  match locate path with
  | some cs =>
    if w.disk.isFresh cs then (true, { w with disk := w.disk.place cs n }) else (false, w)
  | none => (false, w)

def modify (w : Host) (path : Str) (follow : Bool) (f : Node → Node) : Bool × Host :=
  match w.disk.find path with
  | some i =>
    if follow ∧ S_ISLNK (w.disk.node i).mode then (false, w)
    else (true, { w with disk := w.disk.setNode i f })
  | none => (false, w)

def unlink (w : Host) (path : Str) : Bool × Host :=
  match locate path with
  | some cs =>
    if w.disk.ino cs = none ∨ w.disk.isDir cs then (false, w)
    else (true, { w with disk := { w.disk with ino := Function.update w.disk.ino cs none } })
  | none => (false, w)

def openFile (w : Host) (path : Str) : Option ℕ × Host :=
  match w.create path ⟨0o100000, 0, 0, 0, []⟩ with
  | (true, w') => (some w.disk.next, w')
  | (false, w') => (none, w')

def stat (w : Host) (path : Str) : StatResult × Host :=
  match w.disk.find path with
  | some i =>
    let n := w.disk.node i
    if S_ISLNK n.mode then (.failed, w) else (.found ⟨n.mode, n.rdev⟩, w)
  | none => (.noEntry, w)

def readlink (w : Host) (path : Str) (size : ℕ) : Option Str × Host :=
  match w.disk.find path with
  | some i =>
    let n := w.disk.node i
    if S_ISLNK n.mode then (some (n.data.take size), w) else (none, w)
  | none => (none, w)

def link (w : Host) (source path : Str) : Bool × Host :=
  match w.disk.find source, locate path with
  | some i, some cs =>
    if w.disk.isFresh cs ∧ S_ISDIR (w.disk.node i).mode = false then
      (true, { w with disk := w.disk.join cs i })
    else (false, w)
  | _, _ => (false, w)

end Host

/-- The calls. The umask has no part in them: all files are made without permissions. -/
def diskSys : Sys Host where
  gunzipRead w n := (some (w.input.take n), { w with input := w.input.drop n })
  gzipWrite w b := (b.length, w)
  lstat w path := ((w.disk.find path).map (fun i => ⟨(w.disk.node i).mode, (w.disk.node i).rdev⟩), w)
  stat := Host.stat
  unlink := Host.unlink
  mkdir w path mode := w.create path ⟨0o040000 + mode % 4096, 0, 0, 0, []⟩
  chmod w path mode :=
    w.modify path true (fun n => { n with mode := S_IFMT n.mode + mode % 4096 })
  getuid _ := 0
  chown w path uid gid := w.modify path true (fun n => { n with uid := uid, gid := gid })
  lchown w path uid gid := w.modify path false (fun n => { n with uid := uid, gid := gid })
  utime w path _ := w.modify path true id
  openFile := Host.openFile
  write w fd b :=
    (b.length, { w with disk := w.disk.setNode fd (fun n => { n with data := n.data ++ b }) })
  close w _ := w
  readlink := Host.readlink
  symlink w target path :=
    if target = [] then (false, w) else w.create path ⟨0o120777, 0, 0, 0, target⟩
  mkfifo w path mode := w.create path ⟨0o010000 + mode % 4096, 0, 0, 0, []⟩
  mknod w path mode dev := w.create path ⟨mode % 65536, 0, 0, dev, []⟩
  link := Host.link

def emptyDisk : Disk :=
  ⟨fun cs => if cs = [] then some 0 else none, fun _ => ⟨0o040755, 0, 0, 0, []⟩, 1⟩

namespace Disk

theorem isFresh_iff {d : Disk} {cs : Place} : d.isFresh cs = true ↔ d.Fresh cs := by
  rw [isFresh, decide_eq_true_iff]
  exact ⟨fun h => ⟨h.1, h.2.1, h.2.2⟩, fun h => ⟨h.ne_nil, h.absent, h.parent⟩⟩

theorem setNode_setNode (d : Disk) (i : ℕ) (f g : Node → Node) :
    (d.setNode i f).setNode i g = d.setNode i (fun n => g (f n)) := by
  simp [setNode]

theorem place_setNode (d : Disk) (cs : Place) (n : Node) (f : Node → Node) :
    (d.place cs n).setNode d.next f = d.place cs (f n) := by
  simp [setNode, place]

theorem setNode_eq (d : Disk) (i : ℕ) {f : Node → Node} (h : f (d.node i) = d.node i) :
    d.setNode i f = d := by
  simp [setNode, h]

theorem setNode_congr (d : Disk) {i : ℕ} {f g : Node → Node} (h : f (d.node i) = g (d.node i)) :
    d.setNode i f = d.setNode i g := by
  rw [setNode, setNode, h]

theorem place_ino_self (d : Disk) (cs : Place) (n : Node) : (d.place cs n).ino cs = some d.next := by
  simp [place]

theorem place_ino_ne (d : Disk) {cs cs' : Place} (n : Node) (h : cs' ≠ cs) :
    (d.place cs n).ino cs' = d.ino cs' := by
  simp [place, h]

theorem place_node_self (d : Disk) (cs : Place) (n : Node) :
    (d.place cs n).node d.next = n := by
  simp [place]

theorem place_node_ne (d : Disk) (cs : Place) (n : Node) {i : ℕ} (h : i ≠ d.next) :
    (d.place cs n).node i = d.node i := by
  simp [place, h]

theorem find_eq {d : Disk} {path : Str} {cs : Place} (h : locate path = some cs) :
    d.find path = d.ino cs := by
  rw [find, h, Option.bind_some]

end Disk

end Comodoo.CpioDisk
