import Comodoo.ManualNetConfig
import Comodoo.StepRun

set_option autoImplicit false

/-!
# Choice of the address configuration

`configureTCPIP` of `stage-1/net.c`. One pass of its loop runs the form, or not if the boot
parameters have answered it. The loop ends through `i`, which the layout of the window leaves
behind the last row.
-/
namespace Comodoo.ConfigureTcpip
open LoaderSettings NetIface StepRun
open ManualNetConfig (Opts star)

abbrev LOADER_OK : ℤ := 0
abbrev LOADER_BACK : ℤ := 1
abbrev LOADER_NOOP : ℤ := 2
abbrev blank : UInt8 := 0x20

/-- The bits of `flags` that are looked at. -/
structure Flags where
  noipv4 : Bool
  noipv6 : Bool
  ipParam : Bool
  ipv6Param : Bool
  isKickstart : Bool
  deriving DecidableEq, Repr

inductive Radio4 where
  | dhcp
  | manual
  deriving DecidableEq, Repr

inductive Radio6 where
  | auto
  | dhcp
  | manual
  deriving DecidableEq, Repr

def Radio4.method : Radio4 → Ipv4Method
  | .dhcp => .dhcp
  | .manual => .manual

def Radio6.method : Radio6 → Ipv6Method
  | .auto => .auto
  | .dhcp => .dhcp
  | .manual => .manual

structure Form where
  back : Bool
  ipv4 : Bool
  ipv6 : Bool
  v4Method : Radio4
  v6Method : Radio6
  deriving DecidableEq, Repr

structure State where
  flags : Flags
  opts : Opts
  iface : Iface
  i : ℕ
  ret : ℤ

structure Outcome where
  ret : ℤ
  state : State

/-! ## In front of the loop -/

/-- The checkbox of a stack that has not been asked for yet. -/
def firstChoice (no param : Bool) (choice : UInt8) : UInt8 :=
  if choice = 0 then (if no && !param then blank else star) else choice

def initChoices (b : Build) (flags : Flags) (opts : Opts) : Opts :=
  { ipv4Choice := firstChoice flags.noipv4 flags.ipParam opts.ipv4Choice,
    ipv6Choice :=
      if b.ipv6 then firstChoice flags.noipv6 flags.ipv6Param opts.ipv6Choice
      else opts.ipv6Choice }

def skipForm (b : Build) (flags : Flags) : Bool :=
  if b.ipv6 then
    (flags.ipParam && flags.ipv6Param) || (flags.ipParam && flags.noipv6) ||
      (flags.ipv6Param && flags.noipv4) || (flags.noipv4 && flags.noipv6) || flags.isKickstart
  else flags.ipParam || flags.noipv4 || flags.isKickstart

/-- `i` counts the rows of the grid. -/
def rows (b : Build) : ℕ := if b.ipv6 then 8 else 3

/-- `ret` holds anything. -/
def prepare (b : Build) (flags : Flags) (opts : Opts) (iface : Iface) (ret : ℤ) : State :=
  ⟨flags, initChoices b flags opts, iface, rows b, ret⟩

/-! ## One pass -/

def checkbox (on : Bool) : UInt8 := if on then star else blank

def fill (b : Build) (s : State) (f : Form) : State :=
  { s with opts := {
      ipv4Choice := checkbox f.ipv4,
      ipv6Choice := if b.ipv6 then checkbox f.ipv6 else s.opts.ipv6Choice } }

/-- A window tells the user to try again. -/
def refused (b : Build) (methodNum : ℤ) (opts : Opts) : Bool :=
  (opts.ipv4Choice = blank && (!b.ipv6 || opts.ipv6Choice = blank)) ||
    (opts.ipv4Choice = blank && methodNum = METHOD_NFS)

def useIpv4 (s : State) (v4Method : Radio4) : State :=
  if s.opts.ipv4Choice = star then
    { s with
      flags := { s.flags with noipv4 := false },
      iface := { s.iface with ipv4method := v4Method.method } }
  else { s with flags := { s.flags with noipv4 := true } }

def useIpv6 (b : Build) (s : State) (v6Method : Radio6) : State :=
  if b.ipv6 then
    if s.opts.ipv6Choice = star then
      { s with
        flags := { s.flags with noipv6 := false },
        iface := { s.iface with ipv6method := v6Method.method } }
    else { s with flags := { s.flags with noipv6 := true } }
  else s

def useStacks (b : Build) (s : State) (v4Method : Radio4) (v6Method : Radio6) : State :=
  useIpv6 b (useIpv4 s v4Method) v6Method

def chooseRet (b : Build) (s : State) : State :=
  if (!s.flags.noipv4 && s.iface.ipv4method = .dhcp) ||
      (b.ipv6 && !s.flags.noipv6 && (s.iface.ipv6method = .auto || s.iface.ipv6method = .dhcp)) then
    { s with ret := LOADER_NOOP, i := 1 }
  else if (!s.flags.noipv4 && s.iface.ipv4method = .manual) ||
      (b.ipv6 && !s.flags.noipv6 && s.iface.ipv6method = .manual) then
    { s with ret := LOADER_OK, i := 1 }
  else s

/-- `while (i != 1)`. -/
def testLoop (s : State) : Status State Outcome :=
  if s.i ≠ 1 then .running s else .stopped ⟨s.ret, s⟩

def configure (b : Build) (s : State) (v4Method : Radio4) (v6Method : Radio6) :
    Status State Outcome :=
  testLoop (chooseRet b (useStacks b s v4Method v6Method))

/-- A form that is skipped has its first buttons set. -/
def pass (b : Build) (methodNum : ℤ) (skip : Bool) (s : State) (f : Form) :
    Status State Outcome :=
  if skip then configure b s .dhcp .auto
  else
    let s := fill b s f
    if f.back then .stopped ⟨LOADER_BACK, s⟩
    else if refused b methodNum s.opts then testLoop s
    else configure b s f.v4Method f.v6Method

/-- The passes for the forms the user submits; a pass that skips the form has no use for one. -/
def configureTCPIP (b : Build) (flags : Flags) (opts : Opts) (iface : Iface) (methodNum ret : ℤ)
    (forms : List Form) : Status State Outcome :=
  run (pass b methodNum (skipForm b flags)) (prepare b flags opts iface ret) forms

/-! ## What is asked of it -/

/-- The submission selects a stack that the method can use. -/
def selects (b : Build) (methodNum : ℤ) (f : Form) : Bool :=
  f.ipv4 || (b.ipv6 && f.ipv6 && methodNum ≠ METHOD_NFS)

def automatic (b : Build) (o : Outcome) : Bool :=
  (o.state.opts.ipv4Choice = star && o.state.iface.ipv4method = .dhcp) ||
    (b.ipv6 && o.state.opts.ipv6Choice = star &&
      (o.state.iface.ipv6method = .auto || o.state.iface.ipv6method = .dhcp))

def manual (b : Build) (o : Outcome) : Bool :=
  (o.state.opts.ipv4Choice = star && o.state.iface.ipv4method = .manual) ||
    (b.ipv6 && o.state.opts.ipv6Choice = star && o.state.iface.ipv6method = .manual)

/-- The value returned, for the stacks that are enabled and their methods. -/
def RightValue (b : Build) (back : Bool) (o : Outcome) : Prop :=
  if back then o.ret = LOADER_BACK
  else if automatic b o then o.ret = LOADER_NOOP
  else manual b o = true ∧ o.ret = LOADER_OK

structure Returns (b : Build) (flags : Flags) (opts : Opts) (iface : Iface)
    (methodNum ret : ℤ) : Prop where
  skipped : skipForm b flags = true → ∀ f, ∃ o,
    configureTCPIP b flags opts iface methodNum ret [f] = .stopped o ∧ RightValue b false o
  asks : skipForm b flags = false → ∀ fs, (∀ f ∈ fs, (f.back || selects b methodNum f) = false) →
    ∃ s, configureTCPIP b flags opts iface methodNum ret fs = .running s
  shown : skipForm b flags = false → ∀ fs, (∀ f ∈ fs, (f.back || selects b methodNum f) = false) →
    ∀ f, (f.back || selects b methodNum f) = true → ∃ o,
      configureTCPIP b flags opts iface methodNum ret (fs ++ [f]) = .stopped o ∧
      RightValue b f.back o

def someStack (b : Build) (opts : Opts) : Bool :=
  opts.ipv4Choice = star || (b.ipv6 && opts.ipv6Choice = star)

def stackOff (no param : Bool) (choice : UInt8) : Bool :=
  if choice = 0 then no && !param else choice ≠ star

def noStack (b : Build) (flags : Flags) (opts : Opts) : Bool :=
  stackOff flags.noipv4 flags.ipParam opts.ipv4Choice &&
    (!b.ipv6 || stackOff flags.noipv6 flags.ipv6Param opts.ipv6Choice)

/-! ## One pass keeps to the choices -/

section Pass
variable {b : Build} {s : State} {methodNum ret : ℤ} {f : Form}

/-- The flags say which stacks are enabled. -/
structure Aligned (b : Build) (s : State) : Prop where
  noipv4 : s.flags.noipv4 = !decide (s.opts.ipv4Choice = star)
  noipv6 : b.ipv6 = true → s.flags.noipv6 = !decide (s.opts.ipv6Choice = star)

theorem useIpv4_opts (s : State) (v4Method : Radio4) : (useIpv4 s v4Method).opts = s.opts := by
  unfold useIpv4
  split_ifs <;> rfl

theorem useIpv6_opts (b : Build) (s : State) (v6Method : Radio6) :
    (useIpv6 b s v6Method).opts = s.opts := by
  unfold useIpv6
  split_ifs <;> rfl

theorem useStacks_opts (b : Build) (s : State) (v4Method : Radio4) (v6Method : Radio6) :
    (useStacks b s v4Method v6Method).opts = s.opts :=
  (useIpv6_opts b _ v6Method).trans (useIpv4_opts s v4Method)

theorem useStacks_i (b : Build) (s : State) (v4Method : Radio4) (v6Method : Radio6) :
    (useStacks b s v4Method v6Method).i = s.i := by
  unfold useStacks useIpv6 useIpv4
  split_ifs <;> rfl

theorem useIpv4_noipv4 (s : State) (v4Method : Radio4) :
    (useIpv4 s v4Method).flags.noipv4 = !decide (s.opts.ipv4Choice = star) := by
  unfold useIpv4
  split_ifs with h <;> simp [h]

theorem useIpv6_noipv4 (b : Build) (s : State) (v6Method : Radio6) :
    (useIpv6 b s v6Method).flags.noipv4 = s.flags.noipv4 := by
  unfold useIpv6
  split_ifs <;> rfl

theorem useIpv6_noipv6 (hb : b.ipv6 = true) (s : State) (v6Method : Radio6) :
    (useIpv6 b s v6Method).flags.noipv6 = !decide (s.opts.ipv6Choice = star) := by
  unfold useIpv6
  rw [if_pos hb]
  split_ifs with h <;> simp [h]

theorem useStacks_aligned (b : Build) (s : State) (v4Method : Radio4) (v6Method : Radio6) :
    Aligned b (useStacks b s v4Method v6Method) := by
  constructor
  · rw [useStacks_opts, useStacks, useIpv6_noipv4, useIpv4_noipv4]
  · intro hb
    rw [useStacks_opts, useStacks, useIpv6_noipv6 hb, useIpv4_opts]

theorem useStacks_method4 (h : s.opts.ipv4Choice = star) (v4Method : Radio4) (v6Method : Radio6) :
    (useStacks b s v4Method v6Method).iface.ipv4method = v4Method.method := by
  unfold useStacks useIpv6 useIpv4
  rw [if_pos h]
  split_ifs <;> rfl

theorem useStacks_method6 (hb : b.ipv6 = true) (h : s.opts.ipv6Choice = star) (v4Method : Radio4)
    (v6Method : Radio6) :
    (useStacks b s v4Method v6Method).iface.ipv6method = v6Method.method := by
  unfold useStacks useIpv6
  rw [if_pos hb, useIpv4_opts, if_pos h]

theorem chooseRet_eq (h : Aligned b s) :
    chooseRet b s =
      if automatic b ⟨s.ret, s⟩ then { s with ret := LOADER_NOOP, i := 1 }
      else if manual b ⟨s.ret, s⟩ then { s with ret := LOADER_OK, i := 1 }
      else s := by
  rw [chooseRet, automatic, manual, h.noipv4, Bool.not_not]
  cases hb : b.ipv6 with
  | false => rfl
  | true =>
    rw [h.noipv6 hb, Bool.not_not]

theorem chooseRet_right (h : Aligned b s)
    (hmanual : automatic b ⟨s.ret, s⟩ = false → manual b ⟨s.ret, s⟩ = true) :
    ∃ o, testLoop (chooseRet b s) = .stopped o ∧ RightValue b false o := by
  rw [chooseRet_eq h]
  cases hauto : automatic b ⟨s.ret, s⟩ with
  | true =>
    refine ⟨⟨LOADER_NOOP, { s with ret := LOADER_NOOP, i := 1 }⟩, rfl, ?_⟩
    have hauto' : automatic b ⟨LOADER_NOOP, { s with ret := LOADER_NOOP, i := 1 }⟩ = true := hauto
    rw [RightValue, if_neg Bool.false_ne_true, if_pos hauto']
  | false =>
    have hman := hmanual hauto
    refine ⟨⟨LOADER_OK, { s with ret := LOADER_OK, i := 1 }⟩, ?_, ?_⟩
    · rw [if_neg Bool.false_ne_true, if_pos hman]
      rfl
    · have hauto' : automatic b ⟨LOADER_OK, { s with ret := LOADER_OK, i := 1 }⟩ = false := hauto
      rw [RightValue, if_neg Bool.false_ne_true, hauto', if_neg Bool.false_ne_true]
      exact ⟨hman, rfl⟩

theorem configure_enabled (hsome : someStack b s.opts = true) (v4Method : Radio4)
    (v6Method : Radio6) :
    ∃ o, configure b s v4Method v6Method = .stopped o ∧ RightValue b false o := by
  have hopts := useStacks_opts b s v4Method v6Method
  rw [configure]
  refine chooseRet_right (useStacks_aligned b s v4Method v6Method) (fun hauto => ?_)
  rw [someStack, Bool.or_eq_true, Bool.and_eq_true, decide_eq_true_eq, decide_eq_true_eq] at hsome
  rw [automatic, Bool.or_eq_false_iff] at hauto
  rw [manual, Bool.or_eq_true]
  dsimp only at hauto ⊢
  rw [hopts] at hauto ⊢
  rcases hsome with h4 | ⟨hb, h6⟩
  · left
    have hmethod := useStacks_method4 (b := b) h4 v4Method v6Method
    rw [hmethod, decide_eq_true h4, Bool.true_and] at hauto ⊢
    cases v4Method with
    | dhcp => exact absurd hauto.1 (by decide)
    | manual => rfl
  · right
    have hmethod := useStacks_method6 hb h6 v4Method v6Method
    rw [hmethod, hb, decide_eq_true h6, Bool.true_and, Bool.true_and] at hauto ⊢
    cases v6Method with
    | auto => exact absurd hauto.2 (by decide)
    | dhcp => exact absurd hauto.2 (by decide)
    | manual => rfl

theorem configure_none (hnone : someStack b s.opts = false) (hi : s.i ≠ 1) (v4Method : Radio4)
    (v6Method : Radio6) :
    ∃ s', configure b s v4Method v6Method = .running s' ∧ someStack b s'.opts = false ∧
      s'.i ≠ 1 := by
  have hopts := useStacks_opts b s v4Method v6Method
  have hti : (useStacks b s v4Method v6Method).i ≠ 1 := by
    rw [useStacks_i]
    exact hi
  have hchoose := chooseRet_eq (useStacks_aligned b s v4Method v6Method)
  rw [automatic, manual] at hchoose
  dsimp only at hchoose
  have hnone' := hnone
  rw [someStack, Bool.or_eq_false_iff] at hnone'
  simp only [hopts, hnone'.1, hnone'.2, Bool.false_and, Bool.false_or, Bool.false_eq_true,
    ↓reduceIte] at hchoose
  refine ⟨useStacks b s v4Method v6Method, ?_, ?_, hti⟩
  · rw [configure, hchoose]
    exact if_pos hti
  · rw [hopts]
    exact hnone

theorem checkbox_star (on : Bool) : decide (checkbox on = star) = on := by
  cases on <;> rfl

theorem checkbox_blank (on : Bool) : decide (checkbox on = blank) = !on := by
  cases on <;> rfl

theorem refused_fill (b : Build) (methodNum : ℤ) (s : State) (f : Form) :
    refused b methodNum (fill b s f).opts = !selects b methodNum f := by
  rw [refused, fill, selects]
  dsimp only
  rw [checkbox_blank]
  cases hb : b.ipv6 with
  | false => cases f.ipv4 <;> simp
  | true =>
    rw [if_pos rfl, checkbox_blank]
    cases f.ipv4 <;> cases f.ipv6 <;> simp

theorem someStack_fill (hsel : selects b methodNum f = true) (s : State) :
    someStack b (fill b s f).opts = true := by
  rw [selects, Bool.or_eq_true, Bool.and_eq_true, Bool.and_eq_true] at hsel
  rw [someStack, fill]
  dsimp only
  rw [checkbox_star]
  rcases hsel with h4 | ⟨⟨hb, h6⟩, -⟩
  · rw [h4, Bool.true_or]
  · rw [hb, if_pos rfl, checkbox_star, h6, Bool.true_and, Bool.or_true]

theorem pass_refused (hf : (f.back || selects b methodNum f) = false) (hi : s.i ≠ 1) :
    pass b methodNum false s f = .running (fill b s f) := by
  rw [Bool.or_eq_false_iff] at hf
  rw [pass, if_neg Bool.false_ne_true]
  dsimp only
  rw [hf.1, if_neg Bool.false_ne_true, refused_fill, hf.2, if_pos (Bool.not_false)]
  exact if_pos hi

theorem pass_settled (hf : (f.back || selects b methodNum f) = true) :
    ∃ o, pass b methodNum false s f = .stopped o ∧ RightValue b f.back o := by
  rw [pass, if_neg Bool.false_ne_true]
  dsimp only
  cases hback : f.back with
  | true =>
    refine ⟨⟨LOADER_BACK, fill b s f⟩, if_pos rfl, ?_⟩
    rw [RightValue, if_pos rfl]
  | false =>
    rw [hback, Bool.false_or] at hf
    rw [if_neg Bool.false_ne_true, refused_fill, hf, if_neg (by decide)]
    exact configure_enabled (someStack_fill hf s) f.v4Method f.v6Method

theorem run_refused (fs : List Form)
    (hfs : ∀ f ∈ fs, (f.back || selects b methodNum f) = false) (hi : s.i ≠ 1) :
    ∃ s', ∀ rest, run (pass b methodNum false) s (fs ++ rest) =
      run (pass b methodNum false) s' rest := by
  induction fs generalizing s with
  | nil => exact ⟨s, fun rest => rfl⟩
  | cons f fs ih =>
    obtain ⟨hf, hrest⟩ := List.forall_mem_cons.mp hfs
    obtain ⟨s', hs'⟩ := ih hrest (s := fill b s f) hi
    refine ⟨s', fun rest => ?_⟩
    rw [List.cons_append, run_cons_running _ (pass_refused hf hi)]
    exact hs' rest

end Pass

section Returns
variable (b : Build) (flags : Flags) (opts : Opts) (iface : Iface) (methodNum ret : ℤ)

theorem firstChoice_star (no param : Bool) (choice : UInt8) :
    decide (firstChoice no param choice = star) = !stackOff no param choice := by
  rw [firstChoice, stackOff]
  by_cases h : choice = 0
  · rw [if_pos h, if_pos h]
    cases no <;> cases param <;> rfl
  · rw [if_neg h, if_neg h, decide_not, Bool.not_not]

theorem someStack_initChoices :
    someStack b (initChoices b flags opts) = !noStack b flags opts := by
  rw [someStack, initChoices, noStack]
  dsimp only
  rw [firstChoice_star, Bool.not_and, Bool.not_or, Bool.not_not]
  cases hb : b.ipv6 with
  | false => rfl
  | true => rw [if_pos rfl, firstChoice_star]

/-- On the first call no stack is on only where the form is skipped. -/
theorem noStack_skips (h4 : opts.ipv4Choice = 0) (h6 : opts.ipv6Choice = 0)
    (hnone : noStack b flags opts = true) : skipForm b flags = true := by
  rw [noStack, stackOff, stackOff, if_pos h4, if_pos h6, Bool.and_eq_true, Bool.and_eq_true,
    Bool.or_eq_true, Bool.and_eq_true] at hnone
  obtain ⟨⟨hno4, -⟩, h⟩ := hnone
  rw [skipForm]
  split_ifs with hb
  · rw [hb] at h
    rcases h with h | ⟨hno6, -⟩
    · exact absurd h (by decide)
    · rw [hno4, hno6]
      simp
  · rw [hno4]
    simp

theorem prepare_i : (prepare b flags opts iface ret).i ≠ 1 := by
  change rows b ≠ 1
  unfold rows
  split_ifs <;> decide

/-- A skipped form with no stack enabled: every pass is like the first. -/
theorem configureTCPIP_stuck (hskip : skipForm b flags = true)
    (hnone : noStack b flags opts = true) (f : Form) (n : ℕ) :
    ∃ s, configureTCPIP b flags opts iface methodNum ret (List.replicate n f) = .running s := by
  have hstep : ∀ s : State, someStack b s.opts = false ∧ s.i ≠ 1 →
      ∃ s', pass b methodNum true s f = .running s' ∧ someStack b s'.opts = false ∧ s'.i ≠ 1 := by
    rintro s ⟨hs, hi⟩
    rw [pass, if_pos rfl]
    exact configure_none hs hi .dhcp .auto
  have hinit : someStack b (initChoices b flags opts) = false := by
    rw [someStack_initChoices, hnone, Bool.not_true]
  have hstart : someStack b (prepare b flags opts iface ret).opts = false ∧
      (prepare b flags opts iface ret).i ≠ 1 := ⟨hinit, prepare_i b flags opts iface ret⟩
  rw [configureTCPIP, hskip]
  obtain ⟨s', hrun, -⟩ := run_forever hstep hstart n
  exact ⟨s', hrun⟩

theorem configureTCPIP_skipped (hskip : skipForm b flags = true)
    (hsome : noStack b flags opts = false) (f : Form) :
    ∃ o, configureTCPIP b flags opts iface methodNum ret [f] = .stopped o ∧
      RightValue b false o := by
  have hinit : someStack b (prepare b flags opts iface ret).opts = true := by
    change someStack b (initChoices b flags opts) = true
    rw [someStack_initChoices, hsome, Bool.not_false]
  obtain ⟨o, hpass, ho⟩ := configure_enabled hinit .dhcp .auto
  refine ⟨o, ?_, ho⟩
  rw [configureTCPIP, hskip]
  refine run_cons_stopped [] ?_
  rw [pass, if_pos rfl, hpass]

theorem configureTCPIP_shown (hskip : skipForm b flags = false) {fs : List Form}
    (hfs : ∀ f ∈ fs, (f.back || selects b methodNum f) = false) {f : Form}
    (hf : (f.back || selects b methodNum f) = true) :
    ∃ o, configureTCPIP b flags opts iface methodNum ret (fs ++ [f]) = .stopped o ∧
      RightValue b f.back o := by
  rw [configureTCPIP, hskip]
  obtain ⟨s', hrun⟩ := run_refused fs hfs (prepare_i b flags opts iface ret)
  obtain ⟨o, hpass, ho⟩ := pass_settled (s := s') hf
  refine ⟨o, ?_, ho⟩
  rw [hrun, run_cons_stopped [] hpass]

theorem configureTCPIP_asks (hskip : skipForm b flags = false) {fs : List Form}
    (hfs : ∀ f ∈ fs, (f.back || selects b methodNum f) = false) :
    ∃ s, configureTCPIP b flags opts iface methodNum ret fs = .running s := by
  rw [configureTCPIP, hskip]
  obtain ⟨s', hrun⟩ := run_refused fs hfs (prepare_i b flags opts iface ret)
  have hend := hrun []
  rw [List.append_nil] at hend
  exact ⟨s', hend⟩

/-- The loop ends unless the form is skipped with no stack on. -/
theorem configureTCPIP_returns_iff :
    Returns b flags opts iface methodNum ret ↔
      ¬ (skipForm b flags = true ∧ noStack b flags opts = true) := by
  constructor
  · rintro h ⟨hskip, hnone⟩
    let f : Form := ⟨false, false, false, .dhcp, .auto⟩
    obtain ⟨o, hrun, -⟩ := h.skipped hskip f
    obtain ⟨s, hs⟩ := configureTCPIP_stuck b flags opts iface methodNum ret hskip hnone f 1
    rw [List.replicate_one, hrun] at hs
    cases hs
  · intro h
    refine ⟨fun hskip f => ?_, fun hskip fs hfs => ?_, fun hskip fs hfs f hf => ?_⟩
    · have hsome : noStack b flags opts = false :=
        Bool.eq_false_iff.mpr (fun hnone => h ⟨hskip, hnone⟩)
      exact configureTCPIP_skipped b flags opts iface methodNum ret hskip hsome f
    · exact configureTCPIP_asks b flags opts iface methodNum ret hskip hfs
    · exact configureTCPIP_shown b flags opts iface methodNum ret hskip hfs hf

end Returns

def bothOff : Flags := ⟨true, true, false, false, false⟩

theorem bothOff_never_returns :
    ¬ Returns ⟨true, 64⟩ bothOff ⟨0, 0⟩ ifaceInit METHOD_NFS 0 := by
  intro h
  let f : Form := ⟨false, false, false, .dhcp, .auto⟩
  obtain ⟨o, hrun, -⟩ := h.skipped rfl f
  obtain ⟨s, hs⟩ := configureTCPIP_stuck ⟨true, 64⟩ bothOff ⟨0, 0⟩ ifaceInit METHOD_NFS 0 rfl rfl f 1
  rw [List.replicate_one, hrun] at hs
  cases hs

end Comodoo.ConfigureTcpip
