import Comodoo.DecimalText
import Comodoo.UeventMessage

set_option autoImplicit false

/-!
# The firmware loader

`load_firmware` of `stage-1/fwloader.c`, with `fetcher`, `_load_firmware` and what they call.
-/
namespace Comodoo.FirmwareLoader
open CString DecimalText UeventMessage

inductive Errno where
  | enoent
  | eperm
  | other
  deriving DecidableEq, Repr

inductive WriteResult where
  | took (n : ℕ)
  | failed (e : Errno)
  deriving DecidableEq, Repr

/-- The most that the kernel takes in one `write`. -/
abbrev MAX_RW_COUNT : ℕ := 0x7ffff000

inductive Stop where
  | finished
  | zero
  | failed (e : Errno)
  deriving DecidableEq, Repr

/-- The bytes that a `write` takes of those from `count` on. -/
def chunk (buf : Str) (count n : ℕ) : Str := (buf.drop count).take (min n MAX_RW_COUNT)

/-- A loop that writes `buf`; `going` is its condition, `put` what a write does to the file. -/
def copyLoop {σ : Type} (going : ℕ → Bool) (put : Str → σ → σ) (buf : Str)
    (writes : ℕ → WriteResult) (count : ℕ) (file : σ) : σ × Stop :=
  if going count then
    match writes 0 with
    | .failed e => (file, .failed e)
    | .took n =>
      if _hchunk : chunk buf count n = [] then (file, .zero)
      else
        copyLoop going put buf (fun k => writes (k + 1)) (count + (chunk buf count n).length)
          (put (chunk buf count n) file)
  else (file, .finished)
termination_by buf.length - count
decreasing_by
  have hpos : 0 < (chunk buf count n).length := List.length_pos_iff.mpr _hchunk
  have hle : (chunk buf count n).length ≤ (buf.drop count).length := List.length_take_le' _ _
  rw [List.length_drop] at hle
  omega

/-! ## The copy in a temporary file -/

structure Temp where
  bytes : Str
  pos : ℕ
  deriving DecidableEq, Repr

def Temp.put (chunk : Str) (t : Temp) : Temp :=
  ⟨t.bytes.take t.pos ++ chunk ++ t.bytes.drop (t.pos + chunk.length), t.pos + chunk.length⟩

def Temp.truncate (len : ℕ) (t : Temp) : Temp :=
  { t with bytes := t.bytes.take len ++ List.replicate (len - t.bytes.length) 0 }

/-- What stands under the name of a firmware file, and what the calls for it return: nothing, or the
error. -/
structure FileCalls where
  content : Str
  access : Option Errno
  opens : Option Errno
  fstat : Option Errno
  mmap : Option Errno
  lseek : Option Errno
  ftruncate0 : Option Errno
  ftruncate : Option Errno
  writes : ℕ → WriteResult

/-- What `mmap` gives; a `size_t` of 32 bits holds less than the size of a large file. -/
def mapped (wide : Bool) (content : Str) : Str :=
  if wide then content else content.take (content.length % 2 ^ 32)

/-- `mmap` refuses a length of zero. -/
def mmapCall (buf : Str) (call : Option Errno) : Option Errno := if buf = [] then some .other else call

/-- The `int` that counts, taken for a `size_t`. -/
def asSize (wide : Bool) (count : ℕ) : ℕ :=
  if wide = true ∧ 2 ^ 31 ≤ count % 2 ^ 32 then 2 ^ 64 - 2 ^ 32 + count % 2 ^ 32
  else count % 2 ^ 32

def Temp.after (call : Option Errno) (change : Temp → Temp) (t : Temp) : Temp :=
  if call = none then change t else t

def mapErrno (wide : Bool) (f : FileCalls) : Option Errno :=
  f.access.or (f.opens.or (f.fstat.or (mmapCall (mapped wide f.content) f.mmap)))

def Temp.prepare (f : FileCalls) (inlen : ℕ) (t : Temp) : Temp :=
  ((t.after f.lseek fun t => { t with pos := 0 }).after f.ftruncate0 (Temp.truncate 0)).after
    f.ftruncate (Temp.truncate inlen)

/-- The results of these calls are not looked at, but `errno` keeps the last error. -/
def prepareErrno (f : FileCalls) : Option Errno := f.ftruncate.or (f.ftruncate0.or f.lseek)

def loopErrno (stop : Stop) (en : Option Errno) : Option Errno :=
  match stop with
  | .failed e => some e
  | _ => en

def fetchGoing (wide : Bool) (inlen count : ℕ) : Bool := asSize wide count < inlen

/-- `errno` when it returns, 0 for `none`, and the temporary file. -/
def fetcher (wide : Bool) (f : FileCalls) (t : Temp) : Option Errno × Temp :=
  match mapErrno wide f with
  | some e => (some e, t)
  | none =>
    let inbuf := mapped wide f.content
    let r := copyLoop (fetchGoing wide inbuf.length) Temp.put inbuf f.writes 0
      (t.prepare f inbuf.length)
    (loopErrno r.2 (prepareErrno f), r.1)

/-! ## The device -/

/-- What the calls for a device return. `misses` says how often its directory is looked for in vain,
`begins` and `closes` whether the loading file takes the first and the second value. -/
structure DeviceCalls where
  misses : Option ℕ
  loadingOpens : Bool
  begins : Bool
  fstat : Option Errno
  mmap : Option Errno
  dataOpens : Bool
  writes : ℕ → WriteResult
  closes : Bool

/-- `timeout` is an `int`, here one that wraps. -/
def waitLoop : ℕ → ℤ → ℤ
  | 0, timeout => timeout
  | misses + 1, timeout =>
    if timeout = 0 then 0 else waitLoop misses (Int.bmod (timeout - 100) (2 ^ 32))

/-- A directory that never appears keeps the loader waiting, or it gives up. -/
def dirFound (misses : Option ℕ) (timeout : ℤ) : Bool :=
  match misses with
  | none => false
  | some n => waitLoop n (Int.bmod (timeout * 1000000) (2 ^ 32)) ≠ 0

/-- The values in the loading file of the device and the bytes in its data file. -/
structure Device where
  loading : List ℤ
  data : Str
  deriving DecidableEq, Repr

def setLoading (accepted : Bool) (value : ℤ) (d : Device) : Device :=
  if accepted then { d with loading := d.loading ++ [value] } else d

/-- `_load_firmware`, with what stands in the temporary file. -/
def loadDevice (c : DeviceCalls) (timeout : ℤ) (fw : Str) : Device :=
  let d : Device := ⟨[], []⟩
  if !dirFound c.misses timeout then d
  else if !c.loadingOpens then d
  else
    let d := setLoading c.begins 1 d
    if (c.fstat.or (mmapCall fw c.mmap)).isSome then setLoading c.closes (-1) d
    else if !c.dataOpens then setLoading c.closes (-1) d
    else
      match copyLoop (fun count => count < fw.length) (fun chunk data => data ++ chunk) fw c.writes 0
        d.data with
      | (data, .finished) => setLoading c.closes 0 { d with data := data }
      | (data, _) => setLoading c.closes (-1) { d with data := data }

/-! ## The whole call -/

/-- `files` gives the answers for a name that is tried after so many others. -/
structure Calls where
  mkstemp : Bool
  files : ℕ → Str → FileCalls
  device : Str → DeviceCalls

structure Outcome where
  found : Option Str
  device : Device
  deriving DecidableEq, Repr

def findFile (wide : Bool) (files : ℕ → Str → FileCalls) (firmware : Str) :
    ℕ → List Str → Temp → Option (Str × Temp)
  | _, [], _ => none
  | k, entry :: entries, t =>
    let f := files k (entry ++ ascii "/" ++ firmware)
    match fetcher wide f t with
    | (none, t) => some (f.content, t)
    | (some .enoent, t) => findFile wide files firmware (k + 1) entries t
    | (some .eperm, t) => findFile wide files firmware (k + 1) entries t
    | (some .other, _) => none

def longBits (wide : Bool) : ℕ := if wide then 64 else 32

def loadFrom (wide : Bool) (entries : List Str) (c : Calls) (devpath firmware timeout : Str) :
    Outcome :=
  if numberAborts (longBits wide) timeout then ⟨none, ⟨[], []⟩⟩
  else
    match findFile wide c.files firmware 0 entries ⟨[], 0⟩ with
    | none => ⟨none, ⟨[], []⟩⟩
    | some (content, t) =>
      ⟨some content, loadDevice (c.device (ascii "/sys" ++ devpath ++ ascii "/"))
        (strtolInt (longBits wide) timeout) t.bytes⟩

/-- Without `TIMEOUT` the number is read from a NULL pointer; nothing follows. -/
def loadFirmware (wide : Bool) (entries : List Str) (env : Env) (c : Calls) : Outcome :=
  if !c.mkstemp then ⟨none, ⟨[], []⟩⟩
  else
    match env.get (ascii "DEVPATH"), env.get (ascii "FIRMWARE"), env.get (ascii "TIMEOUT") with
    | some devpath, some firmware, some timeout => loadFrom wide entries c devpath firmware timeout
    | _, _, _ => ⟨none, ⟨[], []⟩⟩

/-! ## What is asked of it -/

/-- After 1 the loading file gets one more value, 0 for the whole content of the file that was
found and -1 otherwise. -/
def HandOver (o : Outcome) : Prop :=
  1 ∈ o.device.loading → ∃ content, o.found = some content ∧
    o.device.loading = [1, if o.device.data = content then 0 else -1]

/-- How far a loop comes that writes `len` bytes, and how it ends. -/
def reach (going : ℕ → Bool) (len : ℕ) (writes : ℕ → WriteResult) (count : ℕ) : ℕ × Stop :=
  if going count then
    match writes 0 with
    | .failed e => (count, .failed e)
    | .took n =>
      let taken := min (min n MAX_RW_COUNT) (len - count)
      if _htaken : taken = 0 then (count, .zero)
      else reach going len (fun k => writes (k + 1)) (count + taken)
  else (count, .finished)
termination_by len - count
decreasing_by omega

def fetched (wide : Bool) (f : FileCalls) : ℕ × Stop :=
  reach (fetchGoing wide (mapped wide f.content).length) (mapped wide f.content).length f.writes 0

def fetchErrno (wide : Bool) (f : FileCalls) : Option Errno :=
  (mapErrno wide f).or (loopErrno (fetched wide f).2 (prepareErrno f))

/-- The first entry of the path with a file for which `errno` stays 0; only ENOENT and EPERM lead on
to the next one. -/
def settles (wide : Bool) (files : ℕ → Str → FileCalls) (firmware : Str) :
    ℕ → List Str → Option FileCalls
  | _, [] => none
  | k, entry :: entries =>
    let f := files k (entry ++ ascii "/" ++ firmware)
    match fetchErrno wide f with
    | none => some f
    | some .other => none
    | some _ => settles wide files firmware (k + 1) entries

/-- Behind the place where the copy of `fetcher` stops the file has zeros only. -/
def Whole (wide : Bool) (f : FileCalls) : Prop :=
  f.content = (mapped wide f.content).take (fetched wide f).1 ++
    List.replicate ((mapped wide f.content).length - (fetched wide f).1) 0

/-- The data file takes all the `len` bytes of the temporary file. -/
def takesData (d : DeviceCalls) (len : ℕ) : Bool :=
  (d.fstat.or d.mmap).isNone && d.dataOpens &&
    (reach (fun count => count < len) len d.writes 0).2 = .finished

/-- When the loading file takes a 1, it takes the second value as well, and not all the bytes of a
file that `fetcher` has only begun reach the device. -/
def Honest (wide : Bool) (d : DeviceCalls) (timeout : ℤ) (f : FileCalls) : Prop :=
  dirFound d.misses timeout = true → d.loadingOpens = true → d.begins = true →
    d.closes = true ∧ (takesData d (mapped wide f.content).length = true → Whole wide f)

def HonestFrom (wide : Bool) (entries : List Str) (c : Calls) (devpath firmware timeout : Str) :
    Prop :=
  numberAborts (longBits wide) timeout = false →
    ∀ f, settles wide c.files firmware 0 entries = some f →
      Honest wide (c.device (ascii "/sys" ++ devpath ++ ascii "/"))
        (strtolInt (longBits wide) timeout) f

def HonestRun (wide : Bool) (entries : List Str) (env : Env) (c : Calls) : Prop :=
  ∀ devpath firmware timeout, c.mkstemp = true → env.get (ascii "DEVPATH") = some devpath →
    env.get (ascii "FIRMWARE") = some firmware → env.get (ascii "TIMEOUT") = some timeout →
    HonestFrom wide entries c devpath firmware timeout

section Loop
variable {σ : Type} {going : ℕ → Bool} {put : Str → σ → σ} {buf : Str} {writes : ℕ → WriteResult}
  {count len : ℕ}

theorem length_chunk (n : ℕ) :
    (chunk buf count n).length = min (min n MAX_RW_COUNT) (buf.length - count) := by
  rw [chunk, List.length_take, List.length_drop]

theorem copyLoop_rule (going : ℕ → Bool) (put : Str → σ → σ) (I : ℕ → σ → Prop)
    (hput : ∀ count n file, count ≤ buf.length → I count file →
      I (count + (chunk buf count n).length) (put (chunk buf count n) file))
    (writes : ℕ → WriteResult) (count : ℕ) (hcount : count ≤ buf.length) (file : σ)
    (hfile : I count file) :
    I (reach going buf.length writes count).1 (copyLoop going put buf writes count file).1 ∧
      (copyLoop going put buf writes count file).2 = (reach going buf.length writes count).2 := by
  fun_induction reach going buf.length writes count generalizing file with
  | case1 writes count hgoing e hwrite =>
    rw [copyLoop, if_pos hgoing, hwrite]
    exact ⟨hfile, rfl⟩
  | case2 writes count hgoing n hwrite taken htaken =>
    have hnil : chunk buf count n = [] := by
      rw [← List.length_eq_zero_iff, length_chunk]
      exact htaken
    rw [copyLoop, if_pos hgoing, hwrite]
    simp only [hnil, ↓reduceDIte]
    exact ⟨hfile, trivial⟩
  | case3 writes count hgoing n hwrite taken htaken ih =>
    have hlen : (chunk buf count n).length = taken := length_chunk n
    have hne : chunk buf count n ≠ [] := fun h => htaken (by rw [← hlen, h]; rfl)
    have hle : taken ≤ buf.length - count := Nat.min_le_right _ _
    have hnext := hput count n file hcount hfile
    rw [copyLoop, if_pos hgoing, hwrite]
    simp only [hne, ↓reduceDIte]
    rw [hlen] at hnext ⊢
    exact ih (by omega) _ hnext
  | case4 writes count hgoing =>
    rw [copyLoop, if_neg hgoing]
    exact ⟨hfile, rfl⟩

theorem take_append_chunk (count n : ℕ) :
    buf.take count ++ chunk buf count n = buf.take (count + (chunk buf count n).length) := by
  have hchunk : (buf.drop count).take (chunk buf count n).length = chunk buf count n := by
    rw [length_chunk, chunk, ← List.length_drop, ← List.take_eq_take_min]
  rw [List.take_add, hchunk]

theorem reach_le (writes : ℕ → WriteResult) (count : ℕ) (hcount : count ≤ len) :
    (reach going len writes count).1 ≤ len := by
  fun_induction reach going len writes count with
  | case1 => exact hcount
  | case2 => exact hcount
  | case3 writes count hgoing n hwrite taken htaken ih =>
    have hle : taken ≤ len - count := Nat.min_le_right _ _
    exact ih (by omega)
  | case4 => exact hcount

theorem reach_finished (writes : ℕ → WriteResult) (count : ℕ) :
    (reach going len writes count).2 = .finished ↔ going (reach going len writes count).1 = false := by
  fun_induction reach going len writes count with
  | case1 writes count hgoing e hwrite => simp [hgoing]
  | case2 writes count hgoing n hwrite taken htaken => simp [hgoing]
  | case3 writes count hgoing n hwrite taken htaken ih => exact ih
  | case4 writes count hgoing => simpa using hgoing

end Loop

section Fetch
variable {wide : Bool} {f : FileCalls} {t : Temp} {count n : ℕ}

/-- The temporary file when `count` bytes of `buf` are copied. -/
def Temp.Holds (buf : Str) (count : ℕ) (t : Temp) : Prop :=
  t.bytes = buf.take count ++ List.replicate (buf.length - count) 0 ∧ t.pos = count

theorem Temp.Holds.put {buf : Str} (hcount : count ≤ buf.length) (h : t.Holds buf count) :
    (Temp.put (chunk buf count n) t).Holds buf (count + (chunk buf count n).length) := by
  obtain ⟨hbytes, hpos⟩ := h
  have hlen : (buf.take count).length = count := List.length_take_of_le hcount
  refine ⟨?_, by rw [Temp.put, hpos]⟩
  rw [Temp.put, hpos, hbytes, List.take_left' hlen, List.drop_append, hlen,
    List.drop_of_length_le (by omega), List.nil_append, Nat.add_sub_cancel_left,
    List.drop_replicate, take_append_chunk, Nat.sub_sub]

theorem Temp.holds_prepare {buf : Str} (h : prepareErrno f = none) :
    (t.prepare f buf.length).Holds buf 0 := by
  obtain ⟨htruncate, hrest⟩ := Option.or_eq_none_iff.mp h
  obtain ⟨hclear, hseek⟩ := Option.or_eq_none_iff.mp hrest
  rw [Temp.prepare, htruncate, hclear, hseek]
  refine ⟨?_, rfl⟩
  simp [Temp.after, Temp.truncate]

theorem fetcher_errno (wide : Bool) (f : FileCalls) (t : Temp) :
    (fetcher wide f t).1 = fetchErrno wide f := by
  unfold fetcher fetchErrno
  cases mapErrno wide f with
  | some e => rfl
  | none =>
    obtain ⟨-, hstop⟩ := copyLoop_rule (fetchGoing wide (mapped wide f.content).length) Temp.put
      (fun _ _ => True) (fun _ _ _ _ _ => trivial) f.writes 0 (Nat.zero_le _)
      (t.prepare f (mapped wide f.content).length) trivial
    dsimp only
    rw [hstop]
    rfl

/-- The temporary file has the length of the firmware file, and its bytes as far as the copy came. -/
theorem fetcher_bytes (h : fetchErrno wide f = none) :
    (fetcher wide f t).2.bytes = (mapped wide f.content).take (fetched wide f).1 ++
      List.replicate ((mapped wide f.content).length - (fetched wide f).1) 0 := by
  obtain ⟨hmap, hloop⟩ := Option.or_eq_none_iff.mp h
  have hprepare : prepareErrno f = none := by
    unfold loopErrno at hloop
    split at hloop
    · cases hloop
    · exact hloop
  obtain ⟨hholds, -⟩ := copyLoop_rule (fetchGoing wide (mapped wide f.content).length) Temp.put
    (fun count t => Temp.Holds (mapped wide f.content) count t)
    (fun _ _ _ hcount hfile => hfile.put hcount) f.writes 0 (Nat.zero_le _)
    (t.prepare f (mapped wide f.content).length) (Temp.holds_prepare hprepare)
  rw [fetcher, hmap]
  exact hholds.1

theorem mapped_ne_nil (h : fetchErrno wide f = none) : mapped wide f.content ≠ [] := by
  intro hnil
  obtain ⟨hmap, -⟩ := Option.or_eq_none_iff.mp h
  have hmmap := (Option.or_eq_none_iff.mp (Option.or_eq_none_iff.mp
    (Option.or_eq_none_iff.mp hmap).2).2).2
  rw [mmapCall, if_pos hnil] at hmmap
  cases hmmap

theorem length_mapped_le (wide : Bool) (content : Str) :
    (mapped wide content).length ≤ content.length := by
  unfold mapped
  split_ifs
  · exact le_rfl
  · exact List.length_take_le' _ _

theorem findFile_eq (wide : Bool) (files : ℕ → Str → FileCalls) (firmware : Str) (k : ℕ)
    (entries : List Str) (t : Temp) :
    (settles wide files firmware k entries = none → findFile wide files firmware k entries t = none) ∧
    (∀ f, settles wide files firmware k entries = some f → fetchErrno wide f = none ∧
      ∃ t', findFile wide files firmware k entries t = some (f.content, t') ∧
        t'.bytes = (mapped wide f.content).take (fetched wide f).1 ++
          List.replicate ((mapped wide f.content).length - (fetched wide f).1) 0) := by
  induction entries generalizing k t with
  | nil => exact ⟨fun _ => rfl, fun f hf => by cases hf⟩
  | cons entry entries ih =>
    have herrno := fetcher_errno wide (files k (entry ++ ascii "/" ++ firmware)) t
    have hbytes := @fetcher_bytes wide (files k (entry ++ ascii "/" ++ firmware)) t
    unfold settles findFile
    dsimp only
    rcases hfetch : fetcher wide (files k (entry ++ ascii "/" ++ firmware)) t with ⟨errno, t'⟩
    rw [hfetch] at herrno hbytes
    dsimp only at herrno hbytes
    rw [← herrno]
    rcases errno with _ | _ | _ | _
    · refine ⟨fun h => absurd h (Option.some_ne_none _), ?_⟩
      intro f hf
      obtain rfl := Option.some.inj hf
      exact ⟨herrno.symm, t', rfl, hbytes herrno.symm⟩
    · exact ih (k + 1) t'
    · exact ih (k + 1) t'
    · exact ⟨fun _ => rfl, fun f hf => by cases hf⟩

end Fetch

section Load
variable {c : DeviceCalls} {timeout : ℤ} {fw : Str}

def dataOf (c : DeviceCalls) (fw : Str) : Str :=
  if (c.fstat.or c.mmap).isNone && c.dataOpens then
    fw.take (reach (fun count => count < fw.length) fw.length c.writes 0).1
  else []

theorem loadDevice_eq (c : DeviceCalls) (timeout : ℤ) (hfw : fw ≠ []) :
    loadDevice c timeout fw =
      if dirFound c.misses timeout && c.loadingOpens then
        setLoading c.closes (if takesData c fw.length then 0 else -1)
          ⟨if c.begins then [1] else [], dataOf c fw⟩
      else ⟨[], []⟩ := by
  have hmmap : mmapCall fw c.mmap = c.mmap := if_neg hfw
  obtain ⟨hdata, hstop⟩ := copyLoop_rule (fun count => count < fw.length)
    (fun chunk data => data ++ chunk) (fun count data => data = fw.take count) (by
      rintro count n data - rfl
      exact take_append_chunk count n) c.writes 0 (Nat.zero_le _) [] rfl
  have hbegin : ∀ begins : Bool, setLoading begins 1 ⟨[], []⟩ = ⟨if begins then [1] else [], []⟩ := by
    intro begins
    cases begins <;> rfl
  unfold loadDevice takesData dataOf
  rw [hmmap]
  cases dirFound c.misses timeout with
  | false => rfl
  | true =>
    cases c.loadingOpens with
    | false => rfl
    | true =>
      simp only [Bool.not_true, Bool.false_eq_true, ↓reduceIte, Bool.and_self, hbegin]
      cases c.fstat.or c.mmap with
      | some e => rfl
      | none =>
        cases c.dataOpens with
        | false => rfl
        | true =>
          rcases hloop : copyLoop (fun count => decide (count < fw.length))
            (fun chunk data => data ++ chunk) fw c.writes 0 [] with ⟨data, stop⟩
          rw [hloop] at hdata hstop
          dsimp only at hdata hstop
          rw [← hstop, hdata]
          cases stop <;> rfl

/-- All of `fw` is in the data file if the device takes it, and less if not. -/
theorem dataOf_cases (c : DeviceCalls) (hfw : fw ≠ []) :
    if takesData c fw.length then dataOf c fw = fw else (dataOf c fw).length < fw.length := by
  have hpos : 0 < fw.length := List.length_pos_iff.mpr hfw
  have hle : (reach (fun count => count < fw.length) fw.length c.writes 0).1 ≤ fw.length :=
    reach_le c.writes 0 (Nat.zero_le _)
  have hfinished := @reach_finished (fun count => count < fw.length) fw.length c.writes 0
  unfold takesData dataOf
  cases (c.fstat.or c.mmap).isNone && c.dataOpens with
  | false => exact hpos
  | true =>
    simp only [Bool.true_and, ↓reduceIte, decide_eq_true_eq, hfinished, decide_eq_false_iff_not]
    split_ifs with hend
    · rw [List.length_take]
      omega
    · exact List.take_of_length_le (Nat.not_lt.mp hend)

theorem handOver_device_iff (content : Str) (hfw : fw ≠ []) (hlen : fw.length ≤ content.length) :
    HandOver ⟨some content, setLoading c.closes (if takesData c fw.length then 0 else -1)
        ⟨if c.begins then [1] else [], dataOf c fw⟩⟩ ↔
      (c.begins = true → c.closes = true ∧ (takesData c fw.length = true → content = fw)) := by
  have hdata := dataOf_cases c hfw
  have hloading : ∀ v : ℤ, (setLoading c.closes v ⟨if c.begins then [1] else [], dataOf c fw⟩) =
      ⟨(if c.begins then [1] else []) ++ (if c.closes then [v] else []), dataOf c fw⟩ := by
    intro v
    cases c.closes with
    | false => simp [setLoading]
    | true => rfl
  rw [hloading, HandOver]
  cases c.begins with
  | false =>
    simp only [Bool.false_eq_true, ↓reduceIte, List.nil_append, false_imp_iff, iff_true]
    intro hone
    split_ifs at hone <;> simp at hone
  | true =>
    cases c.closes with
    | false => simp
    | true =>
      simp only [↓reduceIte, List.cons_append, List.nil_append, List.mem_cons, true_or, true_imp_iff,
        Option.some.injEq, List.cons.injEq, and_true, true_and, exists_eq_left']
      cases htakes : takesData c fw.length with
      | true =>
        rw [htakes, if_pos rfl] at hdata
        rw [hdata, if_pos rfl]
        by_cases heq : fw = content
        · simp [heq]
        · simp [heq, Ne.symm heq]
      | false =>
        rw [htakes, if_neg Bool.false_ne_true] at hdata
        have hne : dataOf c fw ≠ content := by
          rintro rfl
          omega
        simp [hne]

end Load

section Run

theorem handOver_nothing (found : Option Str) : HandOver ⟨found, ⟨[], []⟩⟩ := by
  intro hone
  cases hone

theorem handOver_found {wide : Bool} {f : FileCalls} (d : DeviceCalls) (timeout : ℤ)
    (herrno : fetchErrno wide f = none) :
    HandOver ⟨some f.content, loadDevice d timeout ((mapped wide f.content).take (fetched wide f).1 ++
        List.replicate ((mapped wide f.content).length - (fetched wide f).1) 0)⟩ ↔
      Honest wide d timeout f := by
  have hle : (fetched wide f).1 ≤ (mapped wide f.content).length := reach_le _ _ (Nat.zero_le _)
  have hlength : ((mapped wide f.content).take (fetched wide f).1 ++
      List.replicate ((mapped wide f.content).length - (fetched wide f).1) 0).length =
      (mapped wide f.content).length := by
    rw [List.length_append, List.length_take_of_le hle, List.length_replicate]
    omega
  have hne : (mapped wide f.content).take (fetched wide f).1 ++
      List.replicate ((mapped wide f.content).length - (fetched wide f).1) 0 ≠ [] := by
    rw [← List.length_pos_iff, hlength]
    exact List.length_pos_iff.mpr (mapped_ne_nil herrno)
  rw [loadDevice_eq d timeout hne, Honest]
  cases dirFound d.misses timeout with
  | false => simp [handOver_nothing]
  | true =>
    cases d.loadingOpens with
    | false => simp [handOver_nothing]
    | true =>
      rw [Bool.and_self, if_pos rfl, handOver_device_iff f.content hne
        (hlength.le.trans (length_mapped_le wide f.content)), hlength]
      exact ⟨fun h _ _ => h, fun h => h rfl rfl⟩

theorem handOver_from (wide : Bool) (entries : List Str) (c : Calls)
    (devpath firmware timeout : Str) :
    HandOver (loadFrom wide entries c devpath firmware timeout) ↔
      HonestFrom wide entries c devpath firmware timeout := by
  obtain ⟨hlost, hfound⟩ := findFile_eq wide c.files firmware 0 entries ⟨[], 0⟩
  unfold loadFrom HonestFrom
  by_cases haborts : numberAborts (longBits wide) timeout = true
  · rw [if_pos haborts, haborts]
    exact ⟨fun _ h => (Bool.noConfusion h), fun _ => handOver_nothing none⟩
  · rw [if_neg haborts]
    rw [Bool.not_eq_true] at haborts
    cases hsettles : settles wide c.files firmware 0 entries with
    | none =>
      rw [hlost hsettles]
      exact ⟨fun _ _ f hf => absurd hf.symm (Option.some_ne_none f), fun _ => handOver_nothing none⟩
    | some f =>
      obtain ⟨herrno, t, hfind, hbytes⟩ := hfound f hsettles
      have hdevice := handOver_found (c.device (ascii "/sys" ++ devpath ++ ascii "/"))
        (strtolInt (longBits wide) timeout) herrno
      rw [hfind]
      dsimp only
      rw [hbytes, hdevice]
      constructor
      · intro honest _ g hg
        exact Option.some.inj hg ▸ honest
      · exact fun h => h haborts f rfl

/-- A run hands the firmware over as it should unless a copy of `fetcher` has stopped short without
an error or the second value is refused. -/
theorem loadFirmware_handOver_iff (wide : Bool) (entries : List Str) (env : Env) (c : Calls) :
    HandOver (loadFirmware wide entries env c) ↔ HonestRun wide entries env c := by
  unfold loadFirmware HonestRun
  cases c.mkstemp with
  | false => simp [handOver_nothing]
  | true =>
    rw [if_neg (by decide)]
    cases env.get (ascii "DEVPATH") with
    | none => simp [handOver_nothing]
    | some devpath =>
      cases env.get (ascii "FIRMWARE") with
      | none => simp [handOver_nothing]
      | some firmware =>
        cases env.get (ascii "TIMEOUT") with
        | none => simp [handOver_nothing]
        | some timeout =>
          dsimp only
          rw [handOver_from]
          constructor
          · intro honest devpath' firmware' timeout' _ hdevpath hfirmware htimeout
            obtain rfl := Option.some.inj hdevpath
            obtain rfl := Option.some.inj hfirmware
            obtain rfl := Option.some.inj htimeout
            exact honest
          · exact fun h => h devpath firmware timeout rfl rfl rfl rfl

def shortFile : FileCalls where
  content := [1, 2]
  access := none
  opens := none
  fstat := none
  mmap := none
  lseek := none
  ftruncate0 := none
  ftruncate := none
  writes := fun k => .took (if k = 0 then 1 else 0)

def willing : DeviceCalls where
  misses := some 0
  loadingOpens := true
  begins := true
  fstat := none
  mmap := none
  dataOpens := true
  writes := fun _ => .took 2
  closes := true

def request : Env :=
  ((Env.empty.add (ascii "DEVPATH") (some (ascii "/d"))).add (ascii "FIRMWARE")
    (some (ascii "fw"))).add (ascii "TIMEOUT") (some (ascii "10"))

theorem loadFirmware_short : ¬ HandOver (loadFirmware true [ascii "/lib/firmware"] request
    ⟨true, fun _ _ => shortFile, fun _ => willing⟩) := by
  have hfetched : fetched true shortFile = (1, .zero) := by
    change reach (fetchGoing true 2) 2 (fun k => .took (if k = 0 then 1 else 0)) 0 = (1, .zero)
    -- the first write takes a byte, the second one nothing
    rw [reach, if_pos (by decide)]
    change (if h : 1 = 0 then (0, Stop.zero) else reach (fetchGoing true 2) 2 (fun _ => .took 0) 1) = _
    rw [dif_neg (by decide), reach, if_pos (by decide)]
    rfl
  have htakes : takesData willing 2 = true := by
    have hreach : reach (fun count => count < 2) 2 (fun _ => .took 2) 0 = (2, .finished) := by
      rw [reach, if_pos (by decide)]
      change (if h : 2 = 0 then (0, Stop.zero) else
        reach (fun count => count < 2) 2 (fun _ => .took 2) 2) = _
      rw [dif_neg (by decide), reach, if_neg (by decide)]
    change decide ((reach (fun count => count < 2) 2 (fun _ => .took 2) 0).2 = .finished) = true
    rw [hreach]
    rfl
  have herrno : fetchErrno true shortFile = none := by
    rw [fetchErrno, hfetched]
    rfl
  have hsettles : settles true (fun _ _ => shortFile) (ascii "fw") 0 [ascii "/lib/firmware"] =
      some shortFile := by
    rw [settles, herrno]
  have hfrom : loadFirmware true [ascii "/lib/firmware"] request
      ⟨true, fun _ _ => shortFile, fun _ => willing⟩ =
      loadFrom true [ascii "/lib/firmware"] ⟨true, fun _ _ => shortFile, fun _ => willing⟩
        (ascii "/d") (ascii "fw") (ascii "10") := rfl
  rw [hfrom, handOver_from]
  intro honest
  have hwhole := (honest (by decide) shortFile hsettles (by decide) rfl rfl).2 htakes
  rw [Whole, hfetched] at hwhole
  revert hwhole
  decide

end Run
end Comodoo.FirmwareLoader
