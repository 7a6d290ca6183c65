import Comodoo.CpioDiskCalls

set_option autoImplicit false

/-!
# Making one file on the disk

A file is made under a fresh name with the type, owner, permissions and contents of its entry.
-/
namespace Comodoo.CpioDiskFiles
open CString CpioSystem CpioRead CpioExpand CpioInstall CpioStream CpioFrame CpioDisk CpioDiskCalls
open FilePath

section Input

theorem create_input (w : Host) (path : Str) (n : Node) : (w.create path n).2.input = w.input := by
  grind [Host.create]

theorem modify_input (w : Host) (path : Str) (follow : Bool) (f : Node → Node) :
    (w.modify path follow f).2.input = w.input := by
  grind [Host.modify]

theorem openFile_input (w : Host) (path : Str) : (w.openFile path).2.input = w.input := by
  grind [Host.openFile, create_input]

theorem unlink_input (w : Host) (path : Str) : (w.unlink path).2.input = w.input := by
  grind [Host.unlink]

theorem stat_input (w : Host) (path : Str) : (w.stat path).2.input = w.input := by
  grind [Host.stat]

theorem readlink_input (w : Host) (path : Str) (n : ℕ) : (w.readlink path n).2.input = w.input := by
  grind [Host.readlink]

theorem link_input (w : Host) (source path : Str) : (w.link source path).2.input = w.input := by
  grind [Host.link]

theorem diskSys_fullReads : FullReads diskSys Host.input where
  read w a rest h := by simp [diskSys, h]
  lstat _ _ := rfl
  stat w p := stat_input w p
  unlink w p := unlink_input w p
  mkdir w p _ := create_input w p _
  chmod w p _ := modify_input w p _ _
  chown w p _ _ := modify_input w p _ _
  lchown w p _ _ := modify_input w p _ _
  utime w p _ := modify_input w p _ _
  openFile w p := openFile_input w p
  write _ _ _ := rfl
  close _ _ := rfl
  readlink w p n := readlink_input w p n
  symlink w t p := by
    simp only [diskSys]
    split
    · rfl
    · exact create_input w p _
  mkfifo w p _ := create_input w p _
  mknod w p _ _ := create_input w p _
  link w o p := link_input w o p
  gzipWrite _ _ := rfl

theorem diskSys_unread : Unread diskSys Host.disk := fun _ _ => rfl

end Input

section Expand

variable {cs : Place} {ch : CpioHeader} {pos : ℤ} {data rest : Str}

theorem diskSys_chmod (w : Host) (path : Str) (mode : ℕ) : diskSys.chmod w path mode =
    w.modify path true (fun n => { n with mode := S_IFMT n.mode + mode % 4096 }) := rfl

theorem diskSys_utime (w : Host) (path : Str) (mtime : ℤ) : diskSys.utime w path mtime =
    w.modify path true id := rfl

theorem S_IFMT_perms (mode perms : ℕ) : S_IFMT (S_IFMT mode + perms % 4096) = S_IFMT mode := by
  simp only [S_IFMT]
  omega

theorem S_IFMT_full (mode : ℕ) : S_IFMT mode + mode % 4096 = mode % 65536 := by
  simp only [S_IFMT]
  omega

theorem setNode_node (d : Disk) (i : ℕ) (f : Node → Node) : (d.setNode i f).node i = f (d.node i) := by
  simp [Disk.setNode]

theorem modify_again {w : Host} {path : Str} {i : ℕ} {g : Node → Node}
    (hloc : locate path = some cs) (hino : w.disk.ino cs = some i)
    (hlnk : S_ISLNK (g (w.disk.node i)).mode = false) (f : Node → Node) :
    ({ w with disk := w.disk.setNode i g } : Host).modify path true f =
      (true, { w with disk := w.disk.setNode i (fun n => f (g n)) }) := by
  rw [modify_found true hloc (w := { w with disk := w.disk.setNode i g }) hino
    (fun _ => by rw [setNode_node]; exact hlnk), Disk.setNode_setNode]

theorem setInfo_disk {w : Host} {i : ℕ} (hloc : locate ch.path = some cs)
    (hino : w.disk.ino cs = some i) (hlnk : S_ISLNK (w.disk.node i).mode = S_ISLNK ch.mode) :
    setInfo diskSys w ch = (.ok, { w with disk := w.disk.setNode i (fun n =>
      { n with
        mode := if S_ISLNK ch.mode then n.mode else S_IFMT n.mode + ch.mode % 4096,
        uid := ch.uid, gid := ch.gid }) }) := by
  have hroot : diskSys.getuid w = 0 := rfl
  rw [setInfo]
  by_cases hmode : S_ISLNK ch.mode = true
  · have hlchown : diskSys.lchown w ch.path ch.uid ch.gid = (true, { w with
        disk := w.disk.setNode i (fun n => { n with uid := ch.uid, gid := ch.gid }) }) :=
      modify_found false hloc hino (by simp) _
    simp only [hmode, if_true, hroot, hlchown]
  · have hplain : S_ISLNK (w.disk.node i).mode = false := by simpa [hlnk] using hmode
    have hchown : diskSys.chown w ch.path ch.uid ch.gid = (true, { w with
        disk := w.disk.setNode i (fun n => { n with uid := ch.uid, gid := ch.gid }) }) :=
      modify_found true hloc hino (fun _ => hplain) _
    have hchmod : diskSys.chmod { w with
          disk := w.disk.setNode i (fun n => { n with uid := ch.uid, gid := ch.gid }) } ch.path
        (ch.mode % 4096) = (true, { w with disk := w.disk.setNode i (fun n =>
          { n with mode := S_IFMT n.mode + ch.mode % 4096, uid := ch.uid, gid := ch.gid }) }) := by
      rw [diskSys_chmod, modify_again hloc hino, Nat.mod_mod]
      exact hplain
    have hutime : diskSys.utime { w with disk := w.disk.setNode i (fun n =>
          { n with mode := S_IFMT n.mode + ch.mode % 4096, uid := ch.uid, gid := ch.gid }) } ch.path
        ch.mtime = (true, { w with disk := w.disk.setNode i (fun n =>
          { n with mode := S_IFMT n.mode + ch.mode % 4096, uid := ch.uid, gid := ch.gid }) }) := by
      have hplain' : S_ISLNK (S_IFMT (w.disk.node i).mode + ch.mode % 4096) = false := by
        unfold S_ISLNK at hplain ⊢
        rw [S_IFMT_perms]
        exact hplain
      rw [diskSys_utime, modify_again hloc hino]
      · rfl
      · exact hplain'
    simp only [hmode, hroot, if_true, hchown, hchmod, hutime, Bool.false_eq_true, if_false]

/-- The node of an entry when it is made, and before `setInfo`. -/
def rawNode (ch : CpioHeader) (data : Str) : Node :=
  if S_ISREG ch.mode then ⟨0o100000, 0, 0, 0, data⟩
  else if S_ISDIR ch.mode then ⟨0o040000, 0, 0, 0, []⟩
  else if S_ISLNK ch.mode then ⟨0o120777, 0, 0, 0, data.takeWhile (· ≠ 0)⟩
  else if S_ISFIFO ch.mode then ⟨0o010000, 0, 0, 0, []⟩
  else ⟨ch.mode / 512 * 512 % 65536, 0, 0, ch.rdev, []⟩

def nodeOf (ch : CpioHeader) (data : Str) : Node :=
  if S_ISLNK ch.mode then ⟨0o120777, ch.uid, ch.gid, 0, data.takeWhile (· ≠ 0)⟩
  else ⟨ch.mode % 65536, ch.uid, ch.gid,
    if S_ISCHR ch.mode ∨ S_ISBLK ch.mode then ch.rdev else 0, if S_ISREG ch.mode then data else []⟩

theorem expandLoop_disk (cb : Bool) (hdr : CpioHeader) (i fuel : ℕ) {io : Io Host} {a : Str}
    {written : Str} (h : At Host.input io pos (a ++ rest)) (hfuel : a.length ≤ fuel) :
    ∃ io', expandLoop diskSys cb hdr i fuel io a.length written = (.ok, written ++ a, io') ∧
      At Host.input io' (pos + a.length) rest ∧
      io'.w.disk = io.w.disk.setNode i (fun n => { n with data := n.data ++ a }) := by
  induction fuel generalizing io pos a written with
  | zero =>
    obtain rfl : a = [] := List.length_eq_zero_iff.mp (by omega)
    exact ⟨io, by simp [expandLoop], by simpa using h, by rw [Disk.setNode_eq _ _ (by simp)]⟩
  | succ fuel ih =>
    rw [expandLoop]
    by_cases ha : a.length = 0
    · obtain rfl := List.length_eq_zero_iff.mp ha
      exact ⟨io, by simp, by simpa using h, by rw [Disk.setNode_eq _ _ (by simp)]⟩
    · rw [if_neg ha]
      obtain ⟨io1, hread, hat, -⟩ := ourread_chunk diskSys_fullReads h 8192
      have hdisk : io1.w.disk = io.w.disk := by
        have hkeep := ourread_keeps diskSys_unread io (min a.length 8192)
        rwa [hread] at hkeep
      have htake : (a.take 8192).length = min a.length 8192 := by rw [List.length_take, Nat.min_comm]
      have hdrop : a.length - (a.take 8192).length = (a.drop 8192).length := by
        rw [List.length_drop]
        omega
      simp only [hread]
      rw [if_neg (List.ne_nil_of_length_pos (by omega)), hdrop]
      have hwrite : diskSys.write io1.w i (a.take 8192) = (((a.take 8192).length : ℤ), { io1.w with
          disk := io1.w.disk.setNode i (fun n => { n with data := n.data ++ a.take 8192 }) }) := rfl
      simp only [hwrite, ne_eq, not_true_eq_false, if_false]
      have hrest : ∀ io2 : Io Host, io2.pos = io1.pos → io2.w = { io1.w with
          disk := io1.w.disk.setNode i (fun n => { n with data := n.data ++ a.take 8192 }) } →
          ∃ io', expandLoop diskSys cb hdr i fuel io2 (a.drop 8192).length (written ++ a.take 8192) =
              (.ok, written ++ a, io') ∧ At Host.input io' (pos + a.length) rest ∧
            io'.w.disk = io.w.disk.setNode i (fun n => { n with data := n.data ++ a }) := by
        intro io2 hpos hw
        obtain ⟨io', hrun, hat', hdisk'⟩ := ih (hat.move hpos (by rw [hw])) (by omega)
        refine ⟨io', by rw [hrun, List.append_assoc, List.take_append_drop], ?_, ?_⟩
        · convert hat' using 1
          omega
        · rw [hdisk', hw, hdisk, Disk.setNode_setNode]
          simp only [List.append_assoc, List.take_append_drop]
      split <;> exact hrest _ rfl rfl

theorem clearPath_absent {w : Host} {path : Str} (hloc : locate path = some cs)
    (h : w.disk.ino cs = none) : clearPath diskSys w path = (true, w) := by
  rw [clearPath, lstat_absent hloc h]

theorem expandRegular_disk (cb : Bool) {io : Io Host} (hloc : locate ch.path = some cs)
    (hf : io.w.disk.Fresh cs) (hsize : ch.size = data.length)
    (h : At Host.input io pos (data ++ rest)) :
    ∃ written io', expandRegular diskSys cb io ch = (.ok, written, io') ∧
      At Host.input io' (pos + data.length) rest ∧
      io'.w.disk = io.w.disk.place cs ⟨0o100000, 0, 0, 0, data⟩ := by
  have hopen : diskSys.openFile io.w ch.path = (some io.w.disk.next,
      { io.w with disk := io.w.disk.place cs ⟨0o100000, 0, 0, 0, []⟩ }) := by
    change io.w.openFile ch.path = _
    rw [Host.openFile, create_fresh hloc hf]
  have hopened : At Host.input { io with w := { io.w with
      disk := io.w.disk.place cs ⟨0o100000, 0, 0, 0, []⟩ } } pos (data ++ rest) := h.move rfl rfl
  obtain ⟨io', hrun, hat, hdisk⟩ :=
    @expandLoop_disk pos rest cb ch io.w.disk.next data.length _ data [] hopened (Nat.le_refl _)
  rw [Disk.place_setNode] at hdisk
  refine ⟨[] ++ data, { io' with w := diskSys.close io'.w io.w.disk.next }, ?_, hat.move rfl rfl,
    hdisk⟩
  rw [expandRegular, clearPath_absent hloc hf.absent]
  simp only [hopen, hsize, hrun]

theorem expandSymlink_disk {io : Io Host} (hloc : locate ch.path = some cs)
    (hf : io.w.disk.Fresh cs) (hsize : ch.size = data.length) (hshort : data.length < 2048)
    (htarget : data.takeWhile (· ≠ 0) ≠ []) (h : At Host.input io pos (data ++ rest)) :
    ∃ io', expandSymlink diskSys io ch = some (.ok, io') ∧
      At Host.input io' (pos + data.length) rest ∧
      io'.w.disk = io.w.disk.place cs ⟨0o120777, 0, 0, 0, data.takeWhile (· ≠ 0)⟩ := by
  obtain ⟨io1, hread, hat, -⟩ := ourread_at diskSys_fullReads h
  have hdisk : io1.w.disk = io.w.disk := by
    have hkeep := ourread_keeps diskSys_unread io data.length
    rwa [hread] at hkeep
  have hf1 : io1.w.disk.Fresh cs := by rw [hdisk]; exact hf
  have hsym : diskSys.symlink io1.w (data.takeWhile (· ≠ 0)) ch.path = (true, { io1.w with
      disk := io1.w.disk.place cs ⟨0o120777, 0, 0, 0, data.takeWhile (· ≠ 0)⟩ }) := by
    change (if data.takeWhile (· ≠ 0) = [] then (false, io1.w) else _) = _
    rw [if_neg htarget, create_fresh hloc hf1]
  refine ⟨{ io1 with w := { io1.w with
    disk := io1.w.disk.place cs ⟨0o120777, 0, 0, 0, data.takeWhile (· ≠ 0)⟩ } }, ?_,
    hat.move rfl rfl, by rw [hdisk]⟩
  rw [expandSymlink, hsize, if_neg (by omega), if_neg (by omega), hread]
  simp only [ne_eq, not_true_eq_false, if_false]
  rw [placeSymlink, lstat_absent hloc hf1.absent]
  simp only [makeSymlink, hsym]

theorem expandFifo_disk {w : Host} (hloc : locate ch.path = some cs) (hf : w.disk.Fresh cs) :
    expandFifo diskSys w ch =
      (.ok, { w with disk := w.disk.place cs ⟨0o010000, 0, 0, 0, []⟩ }) := by
  have hmake : diskSys.mkfifo w ch.path 0 =
      (true, { w with disk := w.disk.place cs ⟨0o010000, 0, 0, 0, []⟩ }) := create_fresh hloc hf _
  rw [expandFifo, lstat_absent hloc hf.absent]
  simp only [hmake]

theorem expandDevice_disk {w : Host} (hloc : locate ch.path = some cs) (hf : w.disk.Fresh cs) :
    expandDevice diskSys w ch = (.ok, { w with
      disk := w.disk.place cs ⟨ch.mode / 512 * 512 % 65536, 0, 0, ch.rdev, []⟩ }) := by
  have hmake : diskSys.mknod w ch.path (ch.mode / 512 * 512) ch.rdev = (true, { w with
      disk := w.disk.place cs ⟨ch.mode / 512 * 512 % 65536, 0, 0, ch.rdev, []⟩ }) :=
    create_fresh hloc hf _
  rw [expandDevice, lstat_absent hloc hf.absent]
  simp only [hmake]

/-- The entries that are made without a failing call: files of the usual types, with data only
where there is a place for it, and links to something. -/
structure Creatable (ch : CpioHeader) (data : Str) : Prop where
  type : S_ISREG ch.mode = true ∨ S_ISDIR ch.mode = true ∨ S_ISLNK ch.mode = true ∨
    S_ISFIFO ch.mode = true ∨ S_ISCHR ch.mode = true ∨ S_ISBLK ch.mode = true
  target : S_ISLNK ch.mode = true → data.length < 2048 ∧ data.takeWhile (· ≠ 0) ≠ []
  empty : S_ISREG ch.mode = false → S_ISLNK ch.mode = false → data = []

instance (ch : CpioHeader) (data : Str) : Decidable (Creatable ch data) :=
  decidable_of_iff
    ((S_ISREG ch.mode = true ∨ S_ISDIR ch.mode = true ∨ S_ISLNK ch.mode = true ∨
        S_ISFIFO ch.mode = true ∨ S_ISCHR ch.mode = true ∨ S_ISBLK ch.mode = true) ∧
      (S_ISLNK ch.mode = true → data.length < 2048 ∧ data.takeWhile (· ≠ 0) ≠ []) ∧
      (S_ISREG ch.mode = false → S_ISLNK ch.mode = false → data = []))
    ⟨fun h => ⟨h.1, h.2.1, h.2.2⟩, fun h => ⟨h.type, h.target, h.empty⟩⟩

theorem noData_at {io : Io Host} (h : At Host.input io pos ([] ++ rest)) (d : Disk) :
    At Host.input { io with w := { io.w with disk := d } } (pos + ([] : Str).length) rest := by
  rw [List.length_nil, Int.natCast_zero, Int.add_zero]
  exact At.move h rfl rfl

theorem expandEntry_disk (cb : Bool) {io : Io Host} (hc : Creatable ch data)
    (hloc : locate ch.path = some cs) (hf : io.w.disk.Fresh cs) (hsize : ch.size = data.length)
    (h : At Host.input io pos (data ++ rest)) :
    ∃ call io', expandEntry diskSys cb io ch = some (.ok, call, io') ∧
      At Host.input io' (pos + data.length) rest ∧
      io'.w.disk = io.w.disk.place cs (rawNode ch data) := by
  rw [expandEntry, rawNode]
  by_cases hreg : S_ISREG ch.mode = true
  · obtain ⟨written, io', hrun, hat, hdisk⟩ := expandRegular_disk cb hloc hf hsize h
    exact ⟨.expandRegular written, io', by simp only [hreg, if_true, hrun], hat,
      by rw [if_pos hreg]; exact hdisk⟩
  by_cases hdir : S_ISDIR ch.mode = true
  · have hlnk : S_ISLNK ch.mode = false := by
      simp only [S_ISLNK, S_ISDIR, decide_eq_true_eq, decide_eq_false_iff_not] at hdir ⊢
      omega
    obtain rfl := hc.empty (by simpa using hreg) hlnk
    refine ⟨.expandOther, { io with
      w := { io.w with disk := io.w.disk.place cs ⟨0o040000, 0, 0, 0, []⟩ } }, ?_, ?_, ?_⟩
    · simp only [hreg, hdir, Bool.false_eq_true, if_false, if_true,
        createDirectory_fresh hloc hf 0]
    · exact noData_at h _
    · rw [if_neg hreg, if_pos hdir]
  by_cases hlnk : S_ISLNK ch.mode = true
  · obtain ⟨hshort, htarget⟩ := hc.target hlnk
    obtain ⟨io', hrun, hat, hdisk⟩ := expandSymlink_disk hloc hf hsize hshort htarget h
    exact ⟨.expandSymlink (linkTarget diskSys io ch), io',
      by simp only [hreg, hdir, hlnk, Bool.false_eq_true, if_false, if_true, hrun, Option.map_some],
      hat, by rw [if_neg hreg, if_neg hdir, if_pos hlnk]; exact hdisk⟩
  obtain rfl := hc.empty (by simpa using hreg) (by simpa using hlnk)
  rw [if_neg hreg, if_neg hdir, if_neg hlnk]
  by_cases hfifo : S_ISFIFO ch.mode = true
  · refine ⟨.expandOther, _, ?_, noData_at h _, by rw [if_pos hfifo]⟩
    simp only [hreg, hdir, hlnk, hfifo, Bool.false_eq_true, if_false, if_true,
      expandFifo_disk hloc hf]
  · have hdev : S_ISCHR ch.mode = true ∨ S_ISBLK ch.mode = true := by
      rcases hc.type with h | h | h | h | h | h
      · exact absurd h hreg
      · exact absurd h hdir
      · exact absurd h hlnk
      · exact absurd h hfifo
      · exact Or.inl h
      · exact Or.inr h
    refine ⟨.expandOther, _, ?_, noData_at h _, by rw [if_neg hfifo]⟩
    simp only [hreg, hdir, hlnk, hfifo, hdev, Bool.false_eq_true, if_false, if_true,
      expandDevice_disk hloc hf]

theorem rawNode_lnk (h : S_ISLNK ch.mode = true) (data : Str) :
    rawNode ch data = ⟨0o120777, 0, 0, 0, data.takeWhile (· ≠ 0)⟩ := by
  have hreg : ¬ S_ISREG ch.mode = true := by
    simp only [S_ISLNK, S_ISREG, decide_eq_true_eq] at h ⊢
    omega
  have hdir : ¬ S_ISDIR ch.mode = true := by
    simp only [S_ISLNK, S_ISDIR, decide_eq_true_eq] at h ⊢
    omega
  rw [rawNode, if_neg hreg, if_neg hdir, if_pos h]

theorem S_IFMT_device (mode : ℕ) : S_IFMT (mode / 512 * 512 % 65536) = S_IFMT mode := by
  simp only [S_IFMT]
  omega

theorem rawNode_type (h : S_ISLNK ch.mode = false) (data : Str) :
    S_IFMT (rawNode ch data).mode = S_IFMT ch.mode := by
  have hmode : (rawNode ch data).mode = if S_ISREG ch.mode then 0o100000
      else if S_ISDIR ch.mode then 0o040000 else if S_ISLNK ch.mode then 0o120777
      else if S_ISFIFO ch.mode then 0o010000 else ch.mode / 512 * 512 % 65536 := by
    rw [rawNode]
    split_ifs <;> rfl
  have hconst : S_IFMT 0o100000 = 0o100000 ∧ S_IFMT 0o040000 = 0o040000 ∧
      S_IFMT 0o010000 = 0o010000 := by simp [S_IFMT]
  have hdevice := S_IFMT_device ch.mode
  rw [hmode]
  simp only [S_ISREG, S_ISDIR, S_ISLNK, S_ISFIFO, decide_eq_true_eq, decide_eq_false_iff_not] at *
  split_ifs <;> omega

theorem rawNode_isLnk (ch : CpioHeader) (data : Str) :
    S_ISLNK (rawNode ch data).mode = S_ISLNK ch.mode := by
  by_cases hlnk : S_ISLNK ch.mode = true
  · have hmode : S_ISLNK 0o120777 = true := by simp [S_ISLNK, S_IFMT]
    rw [rawNode_lnk hlnk, hlnk]
    exact hmode
  · have hplain : S_ISLNK ch.mode = false := by simpa using hlnk
    unfold S_ISLNK
    rw [rawNode_type hplain]

theorem rawNode_content (hc : Creatable ch data) (h : S_ISLNK ch.mode = false) :
    (rawNode ch data).rdev = (if S_ISCHR ch.mode ∨ S_ISBLK ch.mode then ch.rdev else 0) ∧
      (rawNode ch data).data = if S_ISREG ch.mode then data else [] := by
  have htype := hc.type
  rw [rawNode]
  simp only [S_ISREG, S_ISDIR, S_ISLNK, S_ISFIFO, S_ISCHR, S_ISBLK, decide_eq_true_eq,
    decide_eq_false_iff_not] at *
  split_ifs <;> first | exact ⟨rfl, rfl⟩ | omega

theorem rawNode_finish (hc : Creatable ch data) :
    { rawNode ch data with
      mode := if S_ISLNK ch.mode then (rawNode ch data).mode
        else S_IFMT (rawNode ch data).mode + ch.mode % 4096,
      uid := ch.uid, gid := ch.gid } = nodeOf ch data := by
  by_cases hlnk : S_ISLNK ch.mode = true
  · rw [rawNode_lnk hlnk, nodeOf, if_pos hlnk, if_pos hlnk]
  · have hplain : S_ISLNK ch.mode = false := by simpa using hlnk
    obtain ⟨hrdev, hdata⟩ := rawNode_content hc hplain
    rw [if_neg hlnk, rawNode_type hplain, S_IFMT_full, nodeOf, if_neg hlnk, ← hrdev, ← hdata]

variable {s : St Host}

/-- `createFile` of a file that is not there yet. `d'` is the disk with the directories above it. -/
theorem createFile_disk (cb : Bool) (hp : Proper ch.path) (hc : Creatable ch data)
    (hsize : ch.size = data.length) (h : At Host.input s.io pos (data ++ rest))
    {d' : Disk} {lastDir' : Option Str}
    (hcheck : checkDirectory diskSys s.io.w s.lastDir ch.path =
      (.ok, { s.io.w with disk := d' }, lastDir'))
    (hf : d'.Fresh (names ch.path)) :
    ∃ s', createFile diskSys cb s ch = some (.ok, s') ∧
      At Host.input s'.io (pos + data.length) rest ∧ s'.links = s.links ∧ s'.lastDir = lastDir' ∧
      s'.io.w.disk = d'.place (names ch.path) (nodeOf ch data) := by
  have hloc := hp.locate
  have hchecked : At Host.input { s.io with w := { s.io.w with disk := d' } } pos (data ++ rest) :=
    h.move rfl rfl
  obtain ⟨call, io1, hexp, hat, hdisk⟩ := expandEntry_disk cb hc hloc hf hsize hchecked
  have hino : io1.w.disk.ino (names ch.path) = some d'.next := by rw [hdisk, Disk.place_ino_self]
  have hnode : io1.w.disk.node d'.next = rawNode ch data := by rw [hdisk, Disk.place_node_self]
  have hinfo := setInfo_disk hloc hino (by rw [hnode]; exact rawNode_isLnk ch data)
  refine ⟨{ s with
    io := { io1 with w := (setInfo diskSys io1.w ch).2 }, lastDir := lastDir',
    log := s.log ++ [.result .checkDirectory ch.path .ok (!isLink ch)] ++
      [.result call ch.path .ok (!isLink ch)] ++ [.result .setInfo ch.path .ok (!isLink ch)] },
    ?_, ?_, rfl, rfl, ?_⟩
  · rw [createFile, if_neg hp.ne_nil, hcheck]
    simp only [ne_eq, not_true_eq_false, if_false, hexp, hinfo]
  · rw [hinfo]
    exact hat.move rfl rfl
  · rw [hinfo, hdisk, Disk.place_setNode, rawNode_finish hc]

theorem dirNode_notLnk : S_ISLNK dirNode.mode = false := by
  simp [dirNode, S_ISLNK, S_IFMT]

theorem nodeOf_dir (hdir : S_ISDIR ch.mode = true) :
    nodeOf ch [] = ⟨ch.mode % 65536, ch.uid, ch.gid, 0, []⟩ := by
  rw [nodeOf]
  simp only [S_ISREG, S_ISDIR, S_ISLNK, S_ISCHR, S_ISBLK, decide_eq_true_eq] at hdir ⊢
  rw [if_neg (by omega), if_neg (by omega), ite_self]

theorem dirNode_finish (hdir : S_ISDIR ch.mode = true) :
    { dirNode with
      mode := if S_ISLNK ch.mode then dirNode.mode else S_IFMT dirNode.mode + ch.mode % 4096,
      uid := ch.uid, gid := ch.gid } = nodeOf ch [] := by
  have hmode : S_IFMT dirNode.mode = S_IFMT ch.mode := by
    simp only [S_ISDIR, decide_eq_true_eq] at hdir
    rw [hdir]
    simp [dirNode, S_IFMT]
  have hlnk : ¬ S_ISLNK ch.mode = true := by
    simp only [S_ISLNK, S_ISDIR, decide_eq_true_eq] at hdir ⊢
    omega
  rw [nodeOf_dir hdir, if_neg hlnk, hmode, S_IFMT_full]
  rfl

/-- `createFile` of a directory that has been made on the way to another file. -/
theorem createFile_touch (cb : Bool) (hp : Proper ch.path) (hdir : S_ISDIR ch.mode = true)
    (h : At Host.input s.io pos rest) {d' : Disk} {lastDir' : Option Str}
    (hcheck : checkDirectory diskSys s.io.w s.lastDir ch.path =
      (.ok, { s.io.w with disk := d' }, lastDir'))
    {i : ℕ} (hino : d'.ino (names ch.path) = some i) (hnode : d'.node i = dirNode) :
    ∃ s', createFile diskSys cb s ch = some (.ok, s') ∧ At Host.input s'.io pos rest ∧
      s'.links = s.links ∧ s'.lastDir = lastDir' ∧
      s'.io.w.disk = d'.setNode i (fun _ => nodeOf ch []) := by
  have hloc := hp.locate
  have hreg : ¬ S_ISREG ch.mode = true := by
    simp only [S_ISREG, S_ISDIR, decide_eq_true_eq] at hdir ⊢
    omega
  have hlnk : ¬ S_ISLNK ch.mode = true := by
    simp only [S_ISLNK, S_ISDIR, decide_eq_true_eq] at hdir ⊢
    omega
  have hisDir : ({ s.io.w with disk := d' } : Host).disk.isDir (names ch.path) = true :=
    isDir_iff.mpr ⟨i, hino, by rw [hnode]; exact dirNode_isDir⟩
  have hexp : expandEntry diskSys cb { s.io with w := { s.io.w with disk := d' } } ch =
      some (.ok, .expandOther, { s.io with w := { s.io.w with disk := d' } }) := by
    simp only [expandEntry, hreg, hdir, if_true, if_false, Bool.false_eq_true,
      createDirectory_found hloc hisDir]
  have hdone : d'.setNode i (fun n => { n with
      mode := if S_ISLNK ch.mode then n.mode else S_IFMT n.mode + ch.mode % 4096,
      uid := ch.uid, gid := ch.gid }) = d'.setNode i (fun _ => nodeOf ch []) := by
    refine Disk.setNode_congr d' ?_
    rw [hnode]
    exact dirNode_finish hdir
  have hinfo := setInfo_disk (w := { s.io.w with disk := d' }) hloc hino (by
    rw [hnode, dirNode_notLnk]
    exact (Bool.eq_false_iff.mpr hlnk).symm)
  refine ⟨{ s with
    io := { s.io with w := (setInfo diskSys { s.io.w with disk := d' } ch).2 }, lastDir := lastDir',
    log := s.log ++ [.result .checkDirectory ch.path .ok (!isLink ch)] ++
      [.result .expandOther ch.path .ok (!isLink ch)] ++
      [.result .setInfo ch.path .ok (!isLink ch)] }, ?_, ?_, rfl, rfl, ?_⟩
  · rw [createFile, if_neg hp.ne_nil, hcheck]
    simp only [ne_eq, not_true_eq_false, if_false, hexp, hinfo]
  · rw [hinfo]
    exact h.move rfl rfl
  · rw [hinfo]
    exact hdone

end Expand

end Comodoo.CpioDiskFiles
