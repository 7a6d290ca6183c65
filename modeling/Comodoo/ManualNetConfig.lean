import Comodoo.NetIface
import Mathlib.Logic.Function.Basic

set_option autoImplicit false

/-!
# Manual address configuration

`manualNetConfig` of `stage-1/net.c`, with every index it uses on `have`, `stack` and `dns`. The
cells behind an array are taken to be its own; cells that are not written hold anything.
-/
namespace Comodoo.ManualNetConfig
open CString DecimalText InetText NetIface LoaderSettings

inductive ArrayName where
  | haveArray
  | stackArray
  | dnsArray
  deriving DecidableEq, Repr

def ArrayName.size : ArrayName → ℕ
  | .haveArray => 2
  | .stackArray => 2
  | .dnsArray => MAXNS

structure Access where
  array : ArrayName
  index : ℕ
  deriving DecidableEq, Repr

/-- `struct netconfopts`. -/
structure Opts where
  ipv4Choice : UInt8
  ipv6Choice : UInt8
  deriving DecidableEq, Repr

/-- The texts of `struct intfconfig_s`. -/
structure Comps where
  ipv4 : Option Str
  cidr4 : Option Str
  ipv6 : Option Str
  cidr6 : Option Str
  gw : Option Str
  ns : Option Str
  deriving DecidableEq, Repr

structure Form where
  comps : Comps
  back : Bool
  deriving DecidableEq, Repr

structure Frame where
  haveCell : ℕ → ℤ
  stackCell : ℕ → ℤ
  iface : Iface
  used : List Access

namespace Frame

def touch (s : Frame) (array : ArrayName) (i : ℕ) : Frame :=
  { s with used := s.used ++ [⟨array, i⟩] }

def setHave (s : Frame) (i : ℕ) (v : ℤ) : Frame :=
  { s.touch .haveArray i with haveCell := Function.update s.haveCell i v }

def setStack (s : Frame) (i : ℕ) (v : ℤ) : Frame :=
  { s.touch .stackArray i with stackCell := Function.update s.stackCell i v }

def count (s : Frame) (i : ℕ) : Frame := s.setHave i (s.haveCell i + 1)

def setIface (s : Frame) (iface : Iface) : Frame := { s with iface := iface }

section Fields
variable (s : Frame) (array : ArrayName) (i : ℕ) (v : ℤ) (iface : Iface)

@[simp] theorem touch_iface : (s.touch array i).iface = s.iface := rfl

@[simp] theorem touch_haveCell : (s.touch array i).haveCell = s.haveCell := rfl

@[simp] theorem touch_stackCell : (s.touch array i).stackCell = s.stackCell := rfl

@[simp] theorem setHave_iface : (s.setHave i v).iface = s.iface := rfl

@[simp] theorem setHave_haveCell :
    (s.setHave i v).haveCell = Function.update s.haveCell i v := rfl

@[simp] theorem setHave_stackCell : (s.setHave i v).stackCell = s.stackCell := rfl

@[simp] theorem setStack_iface : (s.setStack i v).iface = s.iface := rfl

@[simp] theorem setStack_haveCell : (s.setStack i v).haveCell = s.haveCell := rfl

@[simp] theorem setStack_stackCell :
    (s.setStack i v).stackCell = Function.update s.stackCell i v := rfl

@[simp] theorem setIface_iface : (s.setIface iface).iface = iface := rfl

@[simp] theorem setIface_haveCell : (s.setIface iface).haveCell = s.haveCell := rfl

@[simp] theorem setIface_stackCell : (s.setIface iface).stackCell = s.stackCell := rfl

end Fields

end Frame

abbrev star : UInt8 := 0x2a

def wants4 (opts : Opts) (iface : Iface) : Bool :=
  opts.ipv4Choice = star ∧ iface.ipv4method = .manual

def wants6 (opts : Opts) (iface : Iface) : Bool :=
  opts.ipv6Choice = star ∧ iface.ipv6method = .manual

/-- `stack` is filled once; without `ENABLE_IPV6` its last cell is not. -/
def storeStacks (b : Build) (opts : Opts) (s : Frame) : Frame :=
  let s' := s.setStack IPV4 (if wants4 opts s.iface then 1 else 0)
  if b.ipv6 then s'.setStack IPV6 (if wants6 opts s.iface then 1 else 0) else s'

/-- The cells that the layout of the window looks at. -/
def layOut (b : Build) (s : Frame) : Frame :=
  -- the number of rows
  let s' := (s.touch .stackArray 0).touch .stackArray 1
  -- the entries
  let s' := s'.touch .stackArray IPV4
  let s' := if b.ipv6 then s'.touch .stackArray IPV6 else s'
  if s.iface.numdns ≠ 0 then s'.touch .dnsArray 0 else s'

/-- A disabled stack counts as complete. -/
def skipDisabled (s : Frame) (i : ℕ) : Frame :=
  if s.stackCell i = 0 then (s.touch .stackArray i).setHave i 2 else s.touch .stackArray i

def prepare (b : Build) (opts : Opts) (iface : Iface) (junk : ArrayName → ℕ → ℤ) : Frame :=
  let s := layOut b (storeStacks b opts ⟨junk .haveArray, junk .stackArray, iface, []⟩)
  let s := (s.setHave IPV4 0).setHave IPV6 0
  skipDisabled (skipDisabled s IPV4) IPV6

def readAddress4 (s : Frame) (text : Option Str) : Frame :=
  match text.bind inetPton4 with
  | none => s
  | some addr => (s.setIface { s.iface with ipaddr := addr }).count IPV4

/-- A netmask, or else the length of one. `Except.error` is `abort`. -/
def readNetmask (mc : Machine) (b : Build) (s : Frame) (text : Option Str) : Except Frame Frame :=
  match text with
  | none => .ok s
  | some t =>
    match inetPton4 t with
    | some mask => .ok ((s.setIface { s.iface with netmask := mask }).count IPV4)
    | none =>
      let cidr := strtolInt b.longBits t
      if numberAborts b.longBits t then .error s
      else if 1 ≤ cidr ∧ cidr ≤ 32 then
        .ok ((s.setIface { s.iface with
          netmask := ifacePrefix2netmask mc cidr.toNat }).count IPV4)
      else .ok s

def readAddress6 (s : Frame) (text : Option Str) : Frame :=
  match text.bind inetPton6 with
  | none => s
  | some addr => (s.setIface { s.iface with ip6addr := addr }).count IPV6

/-- The range test joins its two bounds with "or". -/
def readPrefix (b : Build) (s : Frame) (text : Option Str) : Except Frame Frame :=
  match text with
  | none => .ok s
  | some t =>
    let n := strtolInt b.longBits t
    if numberAborts b.longBits t then .error s
    else if 0 < n ∨ n ≤ 128 then
      .ok ((s.setIface { s.iface with ip6prefix := n }).count IPV6)
    else .ok s

def readGateway (s : Frame) (text : Option Str) : Frame :=
  match text with
  | none => s
  | some t =>
    match inetPton4 t with
    | some addr => s.setIface { s.iface with gateway := addr }
    | none => s.setIface { s.iface with
        gateway := ⟨0, 0, 0, 0⟩,
        gateway6 := (inetPton6 t).getD (List.replicate 16 0) }

def readNameserver (b : Build) (s : Frame) (text : Option Str) : Frame :=
  match text with
  | none => s
  | some t =>
    if (inetPton4 t).isSome ∨ (b.ipv6 = true ∧ (inetPton6 t).isSome) then
      (s.touch .dnsArray 0).setIface { s.iface with
        dns := Function.update s.iface.dns 0 (some t),
        numdns := max s.iface.numdns 1 }
    else s

def collect4 (mc : Machine) (b : Build) (s : Frame) (c : Comps) : Except Frame Frame :=
  let s' := s.touch .stackArray IPV4
  if s.stackCell IPV4 ≠ 0 then readNetmask mc b (readAddress4 s' c.ipv4) c.cidr4 else .ok s'

def collect6 (b : Build) (s : Frame) (c : Comps) : Except Frame Frame :=
  if b.ipv6 then
    let s' := s.touch .stackArray IPV6
    if s.stackCell IPV6 ≠ 0 then readPrefix b (readAddress6 s' c.ipv6) c.cidr6 else .ok s'
  else .ok s

/-- From `newtRunForm` to the test for the back button. -/
def collect (mc : Machine) (b : Build) (s : Frame) (c : Comps) : Except Frame Frame :=
  match collect4 mc b s c with
  | .error s' => .error s'
  | .ok s' =>
    match collect6 b s' c with
    | .error s'' => .error s''
    | .ok s'' => .ok (readNameserver b (readGateway s'' c.gw) c.ns)

/-- `stack[i] && have[i] != 2`, which decides about the message only. -/
def askAgain (s : Frame) (i : ℕ) : Frame :=
  if s.stackCell i ≠ 0 then (s.touch .stackArray i).touch .haveArray i else s.touch .stackArray i

def finish (b : Build) (device : Str) (s : Frame) : Frame :=
  let s := askAgain s IPV4
  let s := if b.ipv6 then askAgain s IPV6 else s
  s.setIface { s.iface with device := device }

inductive Outcome where
  | ok
  | back
  | aborted
  | waiting
  deriving DecidableEq, Repr

structure Result where
  outcome : Outcome
  frame : Frame
  submitted : List Form

def testHave (s : Frame) : Frame :=
  let s' := s.touch .haveArray IPV4
  if s.haveCell IPV4 ≠ 2 then s'.touch .haveArray IPV6 else s'

def runForm (mc : Machine) (b : Build) (device : Str) : List Form → List Form → Frame → Result
  | forms, submitted, s =>
    if s.haveCell IPV4 ≠ 2 ∧ s.haveCell IPV6 ≠ 2 then
      match forms with
      | [] => ⟨.waiting, testHave s, submitted⟩
      | f :: forms =>
        match collect mc b (testHave s) f.comps with
        | .error s' => ⟨.aborted, s', submitted ++ [f]⟩
        | .ok s' =>
          if f.back then ⟨.back, s', submitted ++ [f]⟩
          else runForm mc b device forms (submitted ++ [f]) (finish b device s')
    else ⟨.ok, testHave s, submitted⟩

/-- `forms` are the submissions the user would make one after the other. -/
def manualNetConfig (mc : Machine) (b : Build) (device : Str) (opts : Opts) (iface : Iface)
    (junk : ArrayName → ℕ → ℤ) (forms : List Form) : Result :=
  runForm mc b device forms [] (prepare b opts iface junk)

/-! ## What is asked of it -/

/-- The dotted mask, or the one of a length from 1 to 32. -/
def maskOf (mc : Machine) (b : Build) (t : Str) : Option InAddr :=
  match inetPton4 t with
  | some mask => some mask
  | none =>
    let cidr := strtolInt b.longBits t
    if 1 ≤ cidr ∧ cidr ≤ 32 then some (ifacePrefix2netmask mc cidr.toNat) else none

def prefixOf (b : Build) (t : Str) : Option ℤ :=
  let n := strtolInt b.longBits t
  if 1 ≤ n ∧ n ≤ 128 then some n else none

structure Complete4 (mc : Machine) (b : Build) (c : Comps) (iface : Iface) : Prop where
  address : c.ipv4.bind inetPton4 = some iface.ipaddr
  mask : c.cidr4.bind (maskOf mc b) = some iface.netmask

structure Complete6 (b : Build) (c : Comps) (iface : Iface) : Prop where
  address : c.ipv6.bind inetPton6 = some iface.ip6addr
  mask : c.cidr6.bind (prefixOf b) = some iface.ip6prefix

/-- What holds when `LOADER_OK` is returned, and of every index. -/
structure Meets (mc : Machine) (b : Build) (opts : Opts) (iface : Iface) (r : Result) : Prop where
  complete4 : r.outcome = .ok → wants4 opts iface = true →
    ∃ f, r.submitted.getLast? = some f ∧ Complete4 mc b f.comps r.frame.iface
  complete6 : r.outcome = .ok → b.ipv6 = true → wants6 opts iface = true →
    ∃ f, r.submitted.getLast? = some f ∧ Complete6 b f.comps r.frame.iface
  inBounds : ∀ u ∈ r.frame.used, u.index < u.array.size

/-! ## The indices -/

variable {mc : Machine} {b : Build} {device : Str} {opts : Opts} {iface : Iface}
variable {junk : ArrayName → ℕ → ℤ} {s s' : Frame}

theorem touch_used (s : Frame) (a : ArrayName) (i : ℕ) : s.used ⊆ (s.touch a i).used :=
  List.subset_append_left _ _

theorem count_used (s : Frame) (i : ℕ) : s.used ⊆ (s.count i).used :=
  touch_used s .haveArray i

theorem readAddress4_used (s : Frame) (t : Option Str) : s.used ⊆ (readAddress4 s t).used := by
  unfold readAddress4
  split
  · exact List.Subset.refl _
  · exact count_used _ _

theorem readAddress6_used (s : Frame) (t : Option Str) : s.used ⊆ (readAddress6 s t).used := by
  unfold readAddress6
  split
  · exact List.Subset.refl _
  · exact count_used _ _

/-- The frame a step ends in, also where it is `abort`. -/
def frameOf : Except Frame Frame → Frame
  | .ok s => s
  | .error s => s

theorem readNetmask_used (mc : Machine) (b : Build) (s : Frame) (t : Option Str) :
    s.used ⊆ (frameOf (readNetmask mc b s t)).used := by
  unfold readNetmask
  split
  · exact List.Subset.refl _
  · split
    · exact count_used _ _
    · dsimp only
      split_ifs
      · exact List.Subset.refl _
      · exact count_used _ _
      · exact List.Subset.refl _

theorem readPrefix_used (b : Build) (s : Frame) (t : Option Str) :
    s.used ⊆ (frameOf (readPrefix b s t)).used := by
  unfold readPrefix
  split
  · exact List.Subset.refl _
  · dsimp only
    split_ifs
    · exact List.Subset.refl _
    · exact count_used _ _
    · exact List.Subset.refl _

theorem collect4_used (mc : Machine) (b : Build) (s : Frame) (c : Comps) :
    s.used ⊆ (frameOf (collect4 mc b s c)).used := by
  unfold collect4
  dsimp only
  split_ifs
  · exact List.Subset.trans (touch_used _ _ _)
      (List.Subset.trans (readAddress4_used _ _) (readNetmask_used _ _ _ _))
  · exact touch_used _ _ _

theorem collect6_used (b : Build) (s : Frame) (c : Comps) :
    s.used ⊆ (frameOf (collect6 b s c)).used := by
  unfold collect6
  dsimp only
  split_ifs
  · exact List.Subset.trans (touch_used _ _ _)
      (List.Subset.trans (readAddress6_used _ _) (readPrefix_used _ _ _))
  · exact touch_used _ _ _
  · exact List.Subset.refl _

theorem readGateway_used (s : Frame) (t : Option Str) : (readGateway s t).used = s.used := by
  unfold readGateway
  split
  · rfl
  · split
    · rfl
    · rfl

theorem readNameserver_used (b : Build) (s : Frame) (t : Option Str) :
    s.used ⊆ (readNameserver b s t).used := by
  unfold readNameserver
  split
  · exact List.Subset.refl _
  · split_ifs
    · exact touch_used _ _ _
    · exact List.Subset.refl _

theorem collect_used (mc : Machine) (b : Build) (s : Frame) (c : Comps) :
    s.used ⊆ (frameOf (collect mc b s c)).used := by
  have h4 := collect4_used mc b s c
  unfold collect
  cases hc4 : collect4 mc b s c with
  | error s' => rwa [hc4] at h4
  | ok s' =>
    rw [hc4] at h4
    have h6 := List.Subset.trans h4 (collect6_used b s' c)
    dsimp only
    cases hc6 : collect6 b s' c with
    | error s'' => rwa [hc6] at h6
    | ok s'' =>
      rw [hc6] at h6
      have hns := readNameserver_used b (readGateway s'' c.gw) c.ns
      rw [readGateway_used] at hns
      exact List.Subset.trans h6 hns

theorem testHave_used (s : Frame) : s.used ⊆ (testHave s).used := by
  unfold testHave
  dsimp only
  split_ifs
  · exact List.Subset.trans (touch_used _ _ _) (touch_used _ _ _)
  · exact touch_used _ _ _

theorem askAgain_used (s : Frame) (i : ℕ) : s.used ⊆ (askAgain s i).used := by
  unfold askAgain
  split_ifs
  · exact List.Subset.trans (touch_used _ _ _) (touch_used _ _ _)
  · exact touch_used _ _ _

theorem finish_used (b : Build) (device : Str) (s : Frame) :
    s.used ⊆ (finish b device s).used := by
  unfold finish
  dsimp only
  split_ifs
  · exact List.Subset.trans (askAgain_used _ _) (askAgain_used _ _)
  · exact askAgain_used _ _

theorem runForm_used (forms submitted : List Form) (s : Frame) :
    s.used ⊆ (runForm mc b device forms submitted s).frame.used := by
  induction forms generalizing submitted s with
  | nil =>
    unfold runForm
    split_ifs
    · exact testHave_used s
    · exact testHave_used s
  | cons f forms ih =>
    have hc := List.Subset.trans (testHave_used s) (collect_used mc b (testHave s) f.comps)
    unfold runForm
    split_ifs with hgo
    · dsimp only
      split
      · rename_i heq
        rwa [heq] at hc
      · rename_i s' heq
        rw [heq] at hc
        split_ifs
        · exact hc
        · exact List.Subset.trans hc (List.Subset.trans (finish_used b device s') (ih _ _))
    · exact testHave_used s

theorem prepare_outside (b : Build) (opts : Opts) (iface : Iface) (junk : ArrayName → ℕ → ℤ) :
    ⟨.haveArray, IPV6⟩ ∈ (prepare b opts iface junk).used := by
  have hskip : ∀ (s : Frame) (i : ℕ), s.used ⊆ (skipDisabled s i).used := by
    intro s i
    unfold skipDisabled
    split_ifs
    · exact List.Subset.trans (touch_used _ _ _) (touch_used _ _ _)
    · exact touch_used _ _ _
  unfold prepare
  dsimp only
  refine hskip _ _ (hskip _ _ ?_)
  exact List.mem_append_right _ (List.mem_singleton_self _)

/-- Whatever is submitted and whichever stacks are enabled. -/
theorem manualNetConfig_never_meets (mc : Machine) (b : Build) (device : Str) (opts : Opts)
    (iface : Iface) (junk : ArrayName → ℕ → ℤ) (forms : List Form) :
    ¬ Meets mc b opts iface (manualNetConfig mc b device opts iface junk forms) := by
  intro h
  have hused :
      ⟨.haveArray, IPV6⟩ ∈ (manualNetConfig mc b device opts iface junk forms).frame.used :=
    runForm_used forms [] _ (prepare_outside b opts iface junk)
  exact absurd (h.inBounds _ hused) (by decide)

/-- As `iface_init_iface_t` leaves it, with manual IPv4 and automatic IPv6 configuration. -/
def manual4 : Iface := { ifaceInit with ipv4method := .manual, ipv6method := .auto }

/-- IPv6 is chosen, but not manually: the user is never asked for the IPv4 address. -/
theorem manual4_unasked :
    (manualNetConfig ⟨false, true⟩ ⟨true, 64⟩ (ascii "eth0") ⟨star, star⟩ manual4 (fun _ _ => 0)
        []).outcome = .ok ∧
      (manualNetConfig ⟨false, true⟩ ⟨true, 64⟩ (ascii "eth0") ⟨star, star⟩ manual4 (fun _ _ => 0)
        []).submitted = [] ∧
      (manualNetConfig ⟨false, true⟩ ⟨true, 64⟩ (ascii "eth0") ⟨star, star⟩ manual4 (fun _ _ => 0)
        []).frame.used.any (fun u => u.array.size ≤ u.index) = true ∧
      ¬ Meets ⟨false, true⟩ ⟨true, 64⟩ ⟨star, star⟩ manual4
        (manualNetConfig ⟨false, true⟩ ⟨true, 64⟩ (ascii "eth0") ⟨star, star⟩ manual4 (fun _ _ => 0)
          []) := by
  refine ⟨rfl, rfl, rfl, fun h => ?_⟩
  obtain ⟨f, hf, -⟩ := h.complete4 rfl rfl
  cases hf

/-! ## What the counters hold -/

theorem layOut_cells (b : Build) (s : Frame) :
    (layOut b s).iface = s.iface ∧ (layOut b s).stackCell = s.stackCell ∧
      (layOut b s).haveCell = s.haveCell := by
  unfold layOut
  dsimp only
  split_ifs
  · exact ⟨rfl, rfl, rfl⟩
  · exact ⟨rfl, rfl, rfl⟩
  · exact ⟨rfl, rfl, rfl⟩
  · exact ⟨rfl, rfl, rfl⟩

theorem skipDisabled_cells (s : Frame) (i : ℕ) :
    (skipDisabled s i).iface = s.iface ∧ (skipDisabled s i).stackCell = s.stackCell ∧
      (skipDisabled s i).haveCell =
        if s.stackCell i = 0 then Function.update s.haveCell i 2 else s.haveCell := by
  unfold skipDisabled
  split_ifs
  · exact ⟨rfl, rfl, rfl⟩
  · exact ⟨rfl, rfl, rfl⟩

theorem storeStacks_cells (hb : b.ipv6 = true) (opts : Opts) (s : Frame) :
    (storeStacks b opts s).iface = s.iface ∧
      (storeStacks b opts s).stackCell IPV4 = (if wants4 opts s.iface then 1 else 0) ∧
      (storeStacks b opts s).stackCell IPV6 = (if wants6 opts s.iface then 1 else 0) := by
  unfold storeStacks
  rw [if_pos hb]
  simp

theorem prepare_cells (hb : b.ipv6 = true) (opts : Opts) (iface : Iface)
    (junk : ArrayName → ℕ → ℤ) :
    (prepare b opts iface junk).iface = iface ∧
      (prepare b opts iface junk).stackCell IPV4 = (if wants4 opts iface then 1 else 0) ∧
      (prepare b opts iface junk).stackCell IPV6 = (if wants6 opts iface then 1 else 0) ∧
      (prepare b opts iface junk).haveCell IPV4 = (if wants4 opts iface then 0 else 2) ∧
      (prepare b opts iface junk).haveCell IPV6 = (if wants6 opts iface then 0 else 2) := by
  obtain ⟨hiface, h4, h6⟩ := storeStacks_cells hb opts
    ⟨junk .haveArray, junk .stackArray, iface, []⟩
  unfold prepare
  dsimp only
  simp only [skipDisabled_cells, layOut_cells, Frame.setHave_iface, Frame.setHave_stackCell,
    Frame.setHave_haveCell, h4, h6, hiface, true_and]
  cases wants4 opts iface with
  | false =>
    cases wants6 opts iface with
    | false => simp
    | true => simp
  | true =>
    cases wants6 opts iface with
    | false => simp
    | true => simp

theorem runForm_done (h : s.haveCell IPV4 = 2 ∨ s.haveCell IPV6 = 2) (forms submitted : List Form) :
    runForm mc b device forms submitted s = ⟨.ok, testHave s, submitted⟩ := by
  unfold runForm
  exact if_neg (fun hn => h.elim hn.1 hn.2)

theorem testHave_iface (s : Frame) : (testHave s).iface = s.iface := by
  unfold testHave
  split_ifs
  · rfl
  · rfl

theorem disabled_stack_skips_form (hb : b.ipv6 = true)
    (hone : wants4 opts iface ≠ wants6 opts iface) (forms : List Form) :
    (manualNetConfig mc b device opts iface junk forms).outcome = .ok ∧
      (manualNetConfig mc b device opts iface junk forms).submitted = [] ∧
      (manualNetConfig mc b device opts iface junk forms).frame.iface = iface := by
  obtain ⟨hiface, -, -, h4, h6⟩ := prepare_cells hb opts iface junk
  have hdone : (prepare b opts iface junk).haveCell IPV4 = 2 ∨
      (prepare b opts iface junk).haveCell IPV6 = 2 := by
    cases hw4 : wants4 opts iface with
    | false =>
      left
      rw [h4, hw4]
      rfl
    | true =>
      right
      rw [h6]
      cases hw6 : wants6 opts iface with
      | false => rfl
      | true => exact absurd (hw4.trans hw6.symm) hone
  unfold manualNetConfig
  rw [runForm_done hdone]
  exact ⟨rfl, rfl, (testHave_iface _).trans hiface⟩

/-- How often a form counts for IPv4. -/
def parts4 (mc : Machine) (b : Build) (c : Comps) : ℤ :=
  (c.ipv4.bind inetPton4).toList.length + (c.cidr4.bind (maskOf mc b)).toList.length

/-- Any text counts as a prefix. -/
def parts6 (c : Comps) : ℤ := (c.ipv6.bind inetPton6).toList.length + c.cidr6.toList.length

structure Collected (mc : Machine) (b : Build) (c : Comps) (s s' : Frame) : Prop where
  stackCells : s'.stackCell = s.stackCell
  have4 : s'.haveCell IPV4 = s.haveCell IPV4 + parts4 mc b c
  have6 : s'.haveCell IPV6 = s.haveCell IPV6 + parts6 c
  ipaddr : s'.iface.ipaddr = (c.ipv4.bind inetPton4).getD s.iface.ipaddr
  netmask : s'.iface.netmask = (c.cidr4.bind (maskOf mc b)).getD s.iface.netmask
  ip6addr : s'.iface.ip6addr = (c.ipv6.bind inetPton6).getD s.iface.ip6addr
  ip6prefix : s'.iface.ip6prefix =
    (c.cidr6.map (strtolInt b.longBits)).getD s.iface.ip6prefix

theorem readAddress4_eq (s : Frame) (t : Option Str) :
    (readAddress4 s t).stackCell = s.stackCell ∧
      (readAddress4 s t).haveCell = Function.update s.haveCell IPV4
        (s.haveCell IPV4 + (t.bind inetPton4).toList.length) ∧
      (readAddress4 s t).iface =
        { s.iface with ipaddr := (t.bind inetPton4).getD s.iface.ipaddr } := by
  unfold readAddress4
  cases t.bind inetPton4 with
  | none => simp
  | some addr => simp [Frame.count]

theorem readAddress6_eq (s : Frame) (t : Option Str) :
    (readAddress6 s t).stackCell = s.stackCell ∧
      (readAddress6 s t).haveCell = Function.update s.haveCell IPV6
        (s.haveCell IPV6 + (t.bind inetPton6).toList.length) ∧
      (readAddress6 s t).iface =
        { s.iface with ip6addr := (t.bind inetPton6).getD s.iface.ip6addr } := by
  unfold readAddress6
  cases t.bind inetPton6 with
  | none => simp
  | some addr => simp [Frame.count]

theorem readNetmask_eq {t : Option Str} (h : readNetmask mc b s t = .ok s') :
    s'.stackCell = s.stackCell ∧
      s'.haveCell = Function.update s.haveCell IPV4
        (s.haveCell IPV4 + (t.bind (maskOf mc b)).toList.length) ∧
      s'.iface = { s.iface with netmask := (t.bind (maskOf mc b)).getD s.iface.netmask } := by
  cases t with
  | none =>
    cases h
    simp
  | some t =>
    rw [Option.bind_some, maskOf]
    simp only [readNetmask] at h
    cases hp : inetPton4 t with
    | some mask =>
      rw [hp] at h
      cases h
      simp [Frame.count]
    | none =>
      simp only [hp] at h
      split_ifs at h with ha hr
      · cases h
        simp [Frame.count, hr]
      · cases h
        simp [hr]

theorem readPrefix_eq {t : Option Str} (h : readPrefix b s t = .ok s') :
    s'.stackCell = s.stackCell ∧
      s'.haveCell = Function.update s.haveCell IPV6 (s.haveCell IPV6 + t.toList.length) ∧
      s'.iface = { s.iface with
        ip6prefix := (t.map (strtolInt b.longBits)).getD s.iface.ip6prefix } := by
  cases t with
  | none =>
    cases h
    simp
  | some t =>
    simp only [readPrefix] at h
    split_ifs at h with ha hr
    · cases h
      simp [Frame.count]
    · omega

theorem collect4_eq {c : Comps} (hs : s.stackCell IPV4 ≠ 0) (h : collect4 mc b s c = .ok s') :
    s'.stackCell = s.stackCell ∧
      s'.haveCell = Function.update s.haveCell IPV4 (s.haveCell IPV4 + parts4 mc b c) ∧
      s'.iface = { s.iface with
        ipaddr := (c.ipv4.bind inetPton4).getD s.iface.ipaddr,
        netmask := (c.cidr4.bind (maskOf mc b)).getD s.iface.netmask } := by
  simp only [collect4, if_pos hs] at h
  obtain ⟨hstack, hhave, hiface⟩ := readNetmask_eq h
  obtain ⟨hstack', hhave', hiface'⟩ := readAddress4_eq (s.touch .stackArray IPV4) c.ipv4
  refine ⟨hstack.trans hstack', ?_, ?_⟩
  · rw [hhave, hhave']
    simp [parts4, add_assoc]
  · rw [hiface, hiface']
    rfl

theorem collect6_eq {c : Comps} (hb : b.ipv6 = true) (hs : s.stackCell IPV6 ≠ 0)
    (h : collect6 b s c = .ok s') :
    s'.stackCell = s.stackCell ∧
      s'.haveCell = Function.update s.haveCell IPV6 (s.haveCell IPV6 + parts6 c) ∧
      s'.iface = { s.iface with
        ip6addr := (c.ipv6.bind inetPton6).getD s.iface.ip6addr,
        ip6prefix := (c.cidr6.map (strtolInt b.longBits)).getD s.iface.ip6prefix } := by
  simp only [collect6, if_pos hb, if_pos hs] at h
  obtain ⟨hstack, hhave, hiface⟩ := readPrefix_eq h
  obtain ⟨hstack', hhave', hiface'⟩ := readAddress6_eq (s.touch .stackArray IPV6) c.ipv6
  refine ⟨hstack.trans hstack', ?_, ?_⟩
  · rw [hhave, hhave']
    simp [parts6, add_assoc]
  · rw [hiface, hiface']
    rfl

/-- The common settings leave the two stacks alone. -/
structure Aside (s s' : Frame) : Prop where
  stackCells : s'.stackCell = s.stackCell
  haveCells : s'.haveCell = s.haveCell
  ipaddr : s'.iface.ipaddr = s.iface.ipaddr
  netmask : s'.iface.netmask = s.iface.netmask
  ip6addr : s'.iface.ip6addr = s.iface.ip6addr
  ip6prefix : s'.iface.ip6prefix = s.iface.ip6prefix

theorem Aside.trans {s'' : Frame} (h : Aside s s') (h' : Aside s' s'') : Aside s s'' :=
  ⟨h'.stackCells.trans h.stackCells, h'.haveCells.trans h.haveCells, h'.ipaddr.trans h.ipaddr,
    h'.netmask.trans h.netmask, h'.ip6addr.trans h.ip6addr, h'.ip6prefix.trans h.ip6prefix⟩

theorem readGateway_aside (s : Frame) (t : Option Str) : Aside s (readGateway s t) := by
  unfold readGateway
  split
  · exact ⟨rfl, rfl, rfl, rfl, rfl, rfl⟩
  · split
    · exact ⟨rfl, rfl, rfl, rfl, rfl, rfl⟩
    · exact ⟨rfl, rfl, rfl, rfl, rfl, rfl⟩

theorem readNameserver_aside (b : Build) (s : Frame) (t : Option Str) :
    Aside s (readNameserver b s t) := by
  unfold readNameserver
  split
  · exact ⟨rfl, rfl, rfl, rfl, rfl, rfl⟩
  · split_ifs
    · exact ⟨rfl, rfl, rfl, rfl, rfl, rfl⟩
    · exact ⟨rfl, rfl, rfl, rfl, rfl, rfl⟩

theorem testHave_aside (s : Frame) : Aside s (testHave s) := by
  unfold testHave
  dsimp only
  split_ifs
  · exact ⟨rfl, rfl, rfl, rfl, rfl, rfl⟩
  · exact ⟨rfl, rfl, rfl, rfl, rfl, rfl⟩

theorem askAgain_aside (s : Frame) (i : ℕ) : Aside s (askAgain s i) := by
  unfold askAgain
  split_ifs
  · exact ⟨rfl, rfl, rfl, rfl, rfl, rfl⟩
  · exact ⟨rfl, rfl, rfl, rfl, rfl, rfl⟩

theorem finish_aside (b : Build) (device : Str) (s : Frame) : Aside s (finish b device s) := by
  have hdevice : ∀ s : Frame, Aside s (s.setIface { s.iface with device := device }) :=
    fun s => ⟨rfl, rfl, rfl, rfl, rfl, rfl⟩
  unfold finish
  dsimp only
  split_ifs
  · exact (askAgain_aside s IPV4).trans ((askAgain_aside _ IPV6).trans (hdevice _))
  · exact (askAgain_aside s IPV4).trans (hdevice _)

theorem collect_collected {c : Comps} (hb : b.ipv6 = true) (h4 : s.stackCell IPV4 ≠ 0)
    (h6 : s.stackCell IPV6 ≠ 0) (h : collect mc b s c = .ok s') : Collected mc b c s s' := by
  unfold collect at h
  cases hc4 : collect4 mc b s c with
  | error t => simp [hc4] at h
  | ok t =>
    obtain ⟨hstack, hhave, hiface⟩ := collect4_eq h4 hc4
    simp only [hc4] at h
    cases hc6 : collect6 b t c with
    | error u => simp [hc6] at h
    | ok u =>
      obtain ⟨hstack', hhave', hiface'⟩ := collect6_eq hb (by rwa [hstack]) hc6
      simp only [hc6] at h
      cases h
      have haside := (readGateway_aside u c.gw).trans (readNameserver_aside b _ c.ns)
      constructor
      · rw [haside.stackCells, hstack', hstack]
      · rw [haside.haveCells, hhave', hhave]
        simp
      · rw [haside.haveCells, hhave', hhave]
        simp
      · rw [haside.ipaddr, hiface', hiface]
      · rw [haside.netmask, hiface', hiface]
      · rw [haside.ip6addr, hiface', hiface]
      · rw [haside.ip6prefix, hiface', hiface]

/-- The last value of a list, or else the first one. -/
def latest {α : Type} (x : α) (l : List (Option α)) : α := l.foldl (fun x o => o.getD x) x

theorem latest_concat {α : Type} (x : α) (l : List (Option α)) (o : Option α) :
    latest x (l ++ [o]) = o.getD (latest x l) := by
  simp [latest]

/-- What the frame holds after the forms submitted so far, both stacks being enabled. -/
structure Tally (mc : Machine) (b : Build) (iface : Iface) (submitted : List Form) (s : Frame) :
    Prop where
  stack4 : s.stackCell IPV4 ≠ 0
  stack6 : s.stackCell IPV6 ≠ 0
  have4 : s.haveCell IPV4 = (submitted.map (fun f => parts4 mc b f.comps)).sum
  have6 : s.haveCell IPV6 = (submitted.map (fun f => parts6 f.comps)).sum
  ipaddr : s.iface.ipaddr =
    latest iface.ipaddr (submitted.map (fun f => f.comps.ipv4.bind inetPton4))
  netmask : s.iface.netmask =
    latest iface.netmask (submitted.map (fun f => f.comps.cidr4.bind (maskOf mc b)))
  ip6addr : s.iface.ip6addr =
    latest iface.ip6addr (submitted.map (fun f => f.comps.ipv6.bind inetPton6))
  ip6prefix : s.iface.ip6prefix = latest iface.ip6prefix
    (submitted.map (fun f => f.comps.cidr6.map (strtolInt b.longBits)))

theorem Tally.aside {submitted : List Form} (h : Tally mc b iface submitted s) (ha : Aside s s') :
    Tally mc b iface submitted s' := by
  constructor
  · rw [ha.stackCells]
    exact h.stack4
  · rw [ha.stackCells]
    exact h.stack6
  · rw [ha.haveCells]
    exact h.have4
  · rw [ha.haveCells]
    exact h.have6
  · exact ha.ipaddr.trans h.ipaddr
  · exact ha.netmask.trans h.netmask
  · exact ha.ip6addr.trans h.ip6addr
  · exact ha.ip6prefix.trans h.ip6prefix

theorem Tally.collect {submitted : List Form} {f : Form} (h : Tally mc b iface submitted s)
    (hb : b.ipv6 = true) (hc : collect mc b s f.comps = .ok s') :
    Tally mc b iface (submitted ++ [f]) s' := by
  have hcol := collect_collected hb h.stack4 h.stack6 hc
  constructor
  · rw [hcol.stackCells]
    exact h.stack4
  · rw [hcol.stackCells]
    exact h.stack6
  · rw [hcol.have4, h.have4, List.map_append, List.sum_append]
    simp
  · rw [hcol.have6, h.have6, List.map_append, List.sum_append]
    simp
  · rw [hcol.ipaddr, h.ipaddr, List.map_append]
    exact (latest_concat _ _ _).symm
  · rw [hcol.netmask, h.netmask, List.map_append]
    exact (latest_concat _ _ _).symm
  · rw [hcol.ip6addr, h.ip6addr, List.map_append]
    exact (latest_concat _ _ _).symm
  · rw [hcol.ip6prefix, h.ip6prefix, List.map_append]
    exact (latest_concat _ _ _).symm

theorem runForm_tally (hb : b.ipv6 = true) (forms : List Form) {submitted : List Form}
    (h : Tally mc b iface submitted s)
    (hok : (runForm mc b device forms submitted s).outcome = .ok) :
    Tally mc b iface (runForm mc b device forms submitted s).submitted
        (runForm mc b device forms submitted s).frame ∧
      ((runForm mc b device forms submitted s).frame.haveCell IPV4 = 2 ∨
        (runForm mc b device forms submitted s).frame.haveCell IPV6 = 2) := by
  induction forms generalizing submitted s with
  | nil =>
    by_cases hdone : s.haveCell IPV4 = 2 ∨ s.haveCell IPV6 = 2
    · rw [runForm_done hdone]
      refine ⟨h.aside (testHave_aside s), ?_⟩
      rwa [(testHave_aside s).haveCells]
    · unfold runForm at hok
      rw [if_pos (not_or.mp hdone)] at hok
      cases hok
  | cons f forms ih =>
    by_cases hdone : s.haveCell IPV4 = 2 ∨ s.haveCell IPV6 = 2
    · rw [runForm_done hdone]
      refine ⟨h.aside (testHave_aside s), ?_⟩
      rwa [(testHave_aside s).haveCells]
    · unfold runForm at hok ⊢
      rw [if_pos (not_or.mp hdone)] at hok ⊢
      cases hc : collect mc b (testHave s) f.comps with
      | error s' => simp [hc] at hok
      | ok s' =>
        simp only [hc] at hok ⊢
        split_ifs at hok ⊢
        exact ih (((h.aside (testHave_aside s)).collect hb hc).aside (finish_aside b device s')) hok

/-- With both stacks enabled, the counts of all forms together decide, and what is stored may come
from different forms. -/
theorem both_stacks_ok (hb : b.ipv6 = true) (h4 : wants4 opts iface = true)
    (h6 : wants6 opts iface = true) (forms : List Form)
    (hok : (manualNetConfig mc b device opts iface junk forms).outcome = .ok) :
    Tally mc b iface (manualNetConfig mc b device opts iface junk forms).submitted
        (manualNetConfig mc b device opts iface junk forms).frame ∧
      ((manualNetConfig mc b device opts iface junk forms).frame.haveCell IPV4 = 2 ∨
        (manualNetConfig mc b device opts iface junk forms).frame.haveCell IPV6 = 2) := by
  obtain ⟨hiface, hs4, hs6, hh4, hh6⟩ := prepare_cells hb opts iface junk
  rw [h4] at hs4 hh4
  rw [h6] at hs6 hh6
  refine runForm_tally hb forms ?_ hok
  constructor
  · rw [hs4]
    decide
  · rw [hs6]
    decide
  · exact hh4
  · exact hh6
  · exact congrArg Iface.ipaddr hiface
  · exact congrArg Iface.netmask hiface
  · exact congrArg Iface.ip6addr hiface
  · exact congrArg Iface.ip6prefix hiface

end Comodoo.ManualNetConfig
