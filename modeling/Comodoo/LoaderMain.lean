import Comodoo.LoaderMount
import Comodoo.StepRun

set_option autoImplicit false

/-!
# The loader's step machine

`doLoaderMain` of `stage-1/loader.c`. One answer of the environment stands for what all the
calls made in one pass of the `switch` return. An evaluation of
`installMethods[validMethods[loaderData->method]]` outside the table stops the run with
`badIndex`.
-/
namespace Comodoo.LoaderMain
open CString LoaderSettings LoaderMount StepRun

inductive Step where
  | lang
  | kbd
  | method
  | driver
  | driverdisk
  | network
  | iface
  | ip
  | stage2
  | done
  deriving DecidableEq, Repr

inductive DeviceType where
  | disk
  | cdrom
  | network
  deriving DecidableEq, Repr

abbrev LOADER_BACK : ℤ := 1
abbrev LOADER_NOOP : ℤ := 2
abbrev LOADER_ERROR : ℤ := -1

structure Flags where
  askMethod : Bool
  rescue : Bool
  cmdline : Bool
  askNetwork : Bool
  earlyNetworking : Bool
  testing : Bool
  deriving DecidableEq, Repr

/-- `rc` is not initialised; `devClass` is the variable `class`, with `none` for -1. -/
structure State where
  step : Step
  ld : LoaderData
  url : Option Str
  dir : ℤ
  rc : ℤ
  needsNetwork : Bool
  devClass : Option DeviceType
  skipMethodDialog : Bool
  skipLangKbd : Bool
  deriving DecidableEq, Repr

/-- The answers to the loop passes inside the four `mountImage` functions. -/
structure MountAnswers where
  cd : List CdScan
  hdJunk : Option Str × Option Str
  hdImages : Option Str
  hd : List HdDialog
  nfs : List NfsPass
  url : List UrlPass

/-- `newtWinMenu` leaves the highlighted entry in `method`, whichever button was pressed. -/
structure Answer where
  keymapFails : Bool
  keyboard : ℤ
  keyboardName : Option Str
  menuItem : Fin 4
  menu : ℤ
  haveDeviceOfType : DeviceType → Bool
  ternary : ℤ
  driverMedia : ℤ
  graphicalOverride : Bool
  iface : ℤ
  netConfig : ℤ
  mount : MountAnswers

inductive Outcome where
  | returned (url : Option Str) (ld : LoaderData)
  | exited
  | waiting
  | fault
  | badIndex (method : ℤ)
  deriving DecidableEq, Repr

inductive MountKind where
  | cdrom
  | hardDrive
  | nfs
  | url
  deriving DecidableEq, Repr

structure InstallMethod where
  type : DeviceType
  mountImage : MountKind
  deriving DecidableEq, Repr

def installMethods : List InstallMethod :=
  [⟨.cdrom, .cdrom⟩, ⟨.disk, .hardDrive⟩, ⟨.network, .nfs⟩, ⟨.network, .url⟩]

abbrev numMethods : ℕ := installMethods.length

def validMethods : List ℕ := List.range numMethods

/-- `installMethods[validMethods[method]]`, `none` when `method` is no index. -/
def methodAt (method : ℤ) : Option InstallMethod :=
  if method < 0 then none
  else (validMethods[method.toNat]?).bind (fun i => installMethods[i]?)

def mountImage (flags : Flags) (ld : LoaderData) (a : MountAnswers) : MountKind → Mounted
  | .cdrom => mountCdromImage ld a.cd
  | .hardDrive => mountHardDrive a.hdJunk a.hdImages ld a.hd
  | .nfs => mountNfsImage flags.testing .nfs ld a.nfs
  | .url => mountUrlImage flags.testing ld a.url

def leaveKbd (s : State) : Status State Outcome :=
  if s.rc = LOADER_NOOP then .running { s with step := if s.dir = -1 then .lang else .method }
  else if s.rc = LOADER_BACK then .running { s with step := .lang, dir := -1 }
  else .running { s with step := .method, dir := 1 }

def stepKbd (flags : Flags) (s : State) (a : Answer) : Status State Outcome :=
  if s.ld.kbd ≠ none ∧ s.ld.kbdSet = true then
    if a.keymapFails then
      .running { s with ld := { s.ld with kbd := none, kbdSet := false } }
    else leaveKbd { s with rc := LOADER_NOOP }
  else if flags.rescue = true ∨ s.skipLangKbd = false then
    if flags.cmdline then leaveKbd { s with rc := LOADER_NOOP }
    else
      leaveKbd { s with rc := a.keyboard, ld := { s.ld with kbd := a.keyboardName.or s.ld.kbd } }
  -- `rc` keeps its old value when the question is skipped
  else leaveKbd { s with step := .method, dir := 1 }

def leaveMethod (s : State) : Status State Outcome :=
  if s.rc ≠ 0 ∧ s.rc ≠ 1 then .running { s with step := .kbd, dir := -1 }
  else
    match methodAt s.ld.method with
    | none => .stopped (.badIndex s.ld.method)
    | some m => .running { s with devClass := some m.type, step := .driver, dir := 1 }

def stepMethod (flags : Flags) (s : State) (a : Answer) : Status State Outcome :=
  if s.ld.method ≠ -1 ∨ s.ld.stage2Data ≠ none then
    leaveMethod { s with skipMethodDialog := true, rc := if s.dir = 1 then 1 else -1 }
  else if flags.cmdline then .stopped .exited
  else if s.skipMethodDialog then leaveMethod { s with rc := if s.dir = 1 then 1 else -1 }
  else leaveMethod { s with rc := a.menu, ld := { s.ld with method := a.menuItem } }

/-- `class == -1 || haveDeviceOfType(class)`. -/
def haveClass (a : Answer) : Option DeviceType → Bool
  | none => true
  | some c => a.haveDeviceOfType c

def stepDriver (flags : Flags) (s : State) (a : Answer) : Status State Outcome :=
  if (flags.earlyNetworking = true ∧ a.haveDeviceOfType .network = true) ∨
      haveClass a s.devClass = true then
    .running { s with step := .network, dir := 1, devClass := none }
  else if s.skipLangKbd then .running { s with skipLangKbd := false, step := .kbd }
  else if a.ternary = 2 then .running { s with rc := a.ternary, step := .driverdisk, dir := 1 }
  else if a.ternary = 3 then .running { s with rc := a.ternary, step := .method, dir := -1 }
  else
    match methodAt s.ld.method with
    | none => .stopped (.badIndex s.ld.method)
    | some _ => .running { s with rc := a.ternary, step := .driver }

def stepDriverdisk (s : State) (a : Answer) : Status State Outcome :=
  if s.skipLangKbd then .running { s with skipLangKbd := false, step := .kbd }
  else if a.driverMedia = LOADER_BACK then
    .running { s with rc := a.driverMedia, step := .driver, dir := -1 }
  else .running { s with rc := a.driverMedia, step := .driver }

def stepIface (s : State) (a : Answer) : Status State Outcome :=
  if a.iface = LOADER_BACK ∨ a.iface = LOADER_ERROR ∨ (s.dir = -1 ∧ a.iface = LOADER_NOOP) then
    .running { s with rc := a.iface, step := .method, dir := -1 }
  else .running { s with rc := a.iface, step := .ip, dir := 1 }

def stepNetwork (flags : Flags) (s : State) (a : Answer) : Status State Outcome :=
  match methodAt s.ld.method with
  | none => .stopped (.badIndex s.ld.method)
  | some m =>
    if m.type ≠ .network ∧ a.graphicalOverride = false ∧ flags.askNetwork = false ∧
        flags.earlyNetworking = false then
      .running { s with
        needsNetwork := false,
        step := if s.dir = 1 then .stage2 else if s.dir = -1 then .method else .network }
    else if a.haveDeviceOfType .network = false then
      .running { s with needsNetwork := true, devClass := some .network, step := .driver }
    -- falls through to the interface selection
    else stepIface { s with needsNetwork := true } a

def stepIp (s : State) (a : Answer) : Status State Outcome :=
  if s.needsNetwork = false ∨ s.dir = -1 then .running { s with step := .method }
  else if a.netConfig = LOADER_BACK ∨ a.netConfig = LOADER_ERROR ∨
      (s.dir = -1 ∧ a.netConfig = LOADER_NOOP) then
    .running { s with rc := a.netConfig, needsNetwork := true, step := .iface, dir := -1 }
  else .running { s with rc := a.netConfig, step := .stage2, dir := 1 }

/-- The `/images` part of the url is cut off to correct a wrong `repo=`. -/
def correctRepo (url : Str) (ld : LoaderData) : LoaderData :=
  if ld.invalidRepoParam then
    match strstr (ascii "/images") url with
    | none => ld
    | some (repo, _) => { ld with instRepo := some repo }
  else ld

def stepStage2 (flags : Flags) (s : State) (a : Answer) : Status State Outcome :=
  match s.url with
  | some url => .stopped (.returned (some url) s.ld)
  | none =>
    match methodAt s.ld.method with
    | none => .stopped (.badIndex s.ld.method)
    | some m =>
      match mountImage flags s.ld a.mount m.mountImage with
      | .waiting => .stopped .waiting
      | .fault => .stopped .fault
      | .returned none ld =>
        .running { s with
          step := .ip, ld := { ld with method := -1 }, skipMethodDialog := false, dir := -1 }
      | .returned (some url) ld =>
        .running { s with step := .done, ld := correctRepo url ld, url := some url, dir := 1 }

/-- One pass of `while (step != STEP_DONE) switch (step)`. -/
def stepMain (flags : Flags) (s : State) (a : Answer) : Status State Outcome :=
  match s.step with
  | .lang => .running { s with step := .kbd, dir := 1 }
  | .kbd => stepKbd flags s a
  | .method => stepMethod flags s a
  | .driver => stepDriver flags s a
  | .driverdisk => stepDriverdisk s a
  | .network => stepNetwork flags s a
  | .iface => stepIface s a
  | .ip => stepIp s a
  | .stage2 => stepStage2 flags s a
  | .done => .stopped (.returned s.url s.ld)

/-- Everything before the loop: a CD with a second stage, or a guess from `repo=`. -/
def startMain (flags : Flags) (rc : ℤ) (findAnacondaCD : Option Str) (ld : LoaderData) :
    Option State :=
  if flags.askMethod = false ∧ ld.stage2Data = none then
    match findAnacondaCD, ld.instRepo with
    | some device, _ =>
      (setStage2LocFromCmdline (cdromUrl device) ld).map (fun ld =>
        ⟨.lang, ld, some (cdromUrl device), 1, rc, false, none, true, true⟩)
    | none, some repo =>
      (setStage2LocFromCmdline (repo ++ ascii "/images/install.img") ld).map (fun ld =>
        ⟨.lang, { ld with inferredStage2 := true }, none, 1, rc, false, none, false, false⟩)
    | none, none => some ⟨.lang, ld, none, 1, rc, false, none, false, false⟩
  else some ⟨.lang, ld, none, 1, rc, false, none, false, false⟩

/-- A whole call; a NULL argument to `strdup` before the loop is a fault. -/
def doLoaderMain (flags : Flags) (rc : ℤ) (findAnacondaCD : Option Str) (ld : LoaderData)
    (answers : List Answer) : Status State Outcome :=
  match startMain flags rc findAnacondaCD ld with
  | none => .stopped .fault
  | some s => run (stepMain flags) s answers

end Comodoo.LoaderMain
