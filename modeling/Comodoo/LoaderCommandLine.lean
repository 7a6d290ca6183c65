import Comodoo.CmdLineIp
import Comodoo.LastSetting
import Comodoo.NetInfo
import Mathlib.Logic.Function.Basic

set_option autoImplicit false

/-!
# The command line of the loader

`parseCmdLineFlags` of `stage-1/loader.c` with all it sets: the flags, the strings and numbers of
`struct loaderData_s`, and what else it touches. Behind the words it reads the configuration file
of the network.
-/
namespace Comodoo.LoaderCommandLine
open CString DecimalText LoaderSettings LoaderArgs LastSetting

/-- `LOADER_FLAGS_...`, those that the function sets or looks at. -/
inductive Flag where
  | testing
  | text
  | rescue
  | kickstartSendMac
  | noprobe
  | moddisk
  | earlyNetworking
  | serial
  | updates
  | selinux
  | noshell
  | telnetd
  | nopass
  | mediacheck
  | askmethod
  | asknetwork
  | cmdline
  | graphical
  | noipv4
  | noipv6
  | ipParam
  | ipv6Param
  | allowWireless
  | haveCmsconf
  | interactive
  deriving DecidableEq, Repr

def Flag.bit : Flag → ℕ
  | .testing => 0
  | .text => 2
  | .rescue => 3
  | .kickstartSendMac => 5
  | .noprobe => 7
  | .moddisk => 8
  | .earlyNetworking => 9
  | .serial => 10
  | .updates => 11
  | .selinux => 14
  | .noshell => 17
  | .telnetd => 19
  | .nopass => 20
  | .mediacheck => 22
  | .askmethod => 24
  | .asknetwork => 25
  | .cmdline => 28
  | .graphical => 29
  | .noipv4 => 31
  | .noipv6 => 32
  | .ipParam => 33
  | .ipv6Param => 34
  | .allowWireless => 36
  | .haveCmsconf => 37
  | .interactive => 38

abbrev Flags := BitVec 64

def Flag.mask (f : Flag) : Flags := BitVec.twoPow 64 f.bit

/-- `flags |= f` and `flags &= ~f`. -/
def Flags.set (flags : Flags) (f : Flag) : Flags := flags ||| f.mask

def Flags.clear (flags : Flags) (f : Flag) : Flags := flags &&& ~~~f.mask

def Flags.has (flags : Flags) (f : Flag) : Bool := (flags &&& f.mask) != 0

/-- The strings that are set here and nowhere in `LoaderData`; those from `peerid` on are set by
`readNetInfo` alone. -/
inductive Field where
  | updatessrc
  | dogtailurl
  | ddsrc
  | logLevel
  | netDev
  | bootIf
  | netCls
  /-- the environment variable -/
  | display
  | lang
  | hostname
  | ipv4
  | ipv6
  | netmask
  | gateway
  | dns
  | ethtool
  | essid
  | wepkey
  | gdbServer
  | peerid
  | subchannels
  | portname
  | nettype
  | ctcprot
  | layer2
  | macaddr
  deriving DecidableEq, Repr

inductive Number where
  | mtu
  | numLinkChecks
  | postLinkSleep
  | dhcpTimeout
  deriving DecidableEq, Repr

inductive Priority where
  | debug
  | info
  | warning
  | error
  | critical
  deriving DecidableEq, Repr

/-- What a branch does. -/
inductive Action where
  | flags (on off : List Flag)
  | value (f : Field) (offset : ℕ)
  /-- a string with its `_set` -/
  | valueSet (f : Field) (offset : ℕ)
  | driverdisk
  | blacklist (modules : List String)
  | logLevel
  | bootif
  | ksFile
  | keymap
  | repo (offset : ℕ)
  | stage2
  | ip
  | ipv6
  | number (n : Number) (offset : ℕ)
  deriving DecidableEq, Repr

def flagWord (name : String) (f : Flag) : Test × Action := (.word name, .flags [f] [])

def ipv6Only (b : Build) (t : Test) (a : Action) : List (Test × Action) :=
  if b.ipv6 then [(t, a)] else []

/-- The branches in front of the one for `extraArgs`, in the order they are tried. -/
def actions (b : Build) : List (Test × Action) := List.flatten [
  [flagWord "askmethod" .askmethod, flagWord "asknetwork" .asknetwork, flagWord "noshell" .noshell,
    flagWord "mediacheck" .mediacheck, flagWord "allowwireless" .allowWireless,
    flagWord "telnet" .telnetd, flagWord "inter" .interactive, flagWord "noprobe" .noprobe,
    (.word "text", .flags [.text] [.graphical]), flagWord "graphical" .graphical,
    flagWord "cmdline" .cmdline],
  [(.start 8 "updates=", .value .updatessrc 8), (.start 7 "updates", .flags [.updates] []),
    (.start 8 "dogtail=", .value .dogtailurl 8), (.start 3 "dd=", .driverdisk),
    (.start 11 "driverdisk=", .driverdisk)],
  [flagWord "dd" .moddisk, flagWord "driverdisk" .moddisk, flagWord "rescue" .rescue,
    flagWord "nopass" .nopass, flagWord "serial" .serial, flagWord "noipv4" .noipv4],
  ipv6Only b (.word "noipv6") (.flags [.noipv6] []),
  [flagWord "kssendmac" .kickstartSendMac, (.word "nousbstorage", .blacklist ["usb-storage"]),
    (.word "nousb", .blacklist ["ehci-hcd", "ohci-hcd", "uhci-hcd"]),
    (.word "nofirewire", .blacklist ["firewire-ohci"])],
  [(.start 9 "loglevel=", .logLevel), (.start 9 "ksdevice=", .valueSet .netDev 9),
    (.bootif, .bootif), (.start 10 "dhcpclass=", .valueSet .netCls 10), (.word "ks", .ksFile),
    (.start 3 "ks=", .ksFile), (.start 8 "display=", .value .display 8),
    (.longer 5 "lang=", .valueSet .lang 5), (.longer 7 "keymap=", .keymap),
    (.start 7 "method=", .repo 7), (.start 5 "repo=", .repo 5), (.start 7 "stage2=", .stage2),
    (.start 9 "hostname=", .value .hostname 9), (.start 3 "ip=", .ip)],
  ipv6Only b (.start 5 "ipv6=") .ipv6,
  [(.start 8 "netmask=", .value .netmask 8), (.start 8 "gateway=", .value .gateway 8),
    (.start 4 "dns=", .value .dns 4), (.start 8 "ethtool=", .value .ethtool 8),
    (.start 6 "essid=", .value .essid 6), (.start 4 "mtu=", .number .mtu 4),
    (.start 7 "wepkey=", .value .wepkey 7), (.start 10 "linksleep=", .number .numLinkChecks 10),
    (.start 9 "nicdelay=", .number .postLinkSleep 9),
    (.start 12 "dhcptimeout=", .number .dhcpTimeout 12),
    (.start 9 "selinux=0", .flags [] [.selinux]), (.start 7 "selinux", .flags [.selinux] []),
    (.start 4 "gdb=", .value .gdbServer 4)]]

structure Line where
  scan : Scan
  flags : Flags
  text : Field → Option Str
  /-- `netDev_set` and so on -/
  isSet : Field → Bool
  number : Number → ℤ
  blacklists : List Str
  /-- /tmp/vncpassword.dat -/
  vncPassword : Option Str
  /-- `setLogLevel` -/
  minLevel : Option Priority

def Line.setText (s : Line) (f : Field) (v : Option Str) : Line :=
  { s with text := Function.update s.text f v }

def Line.mark (s : Line) (f : Field) : Line := { s with isSet := Function.update s.isSet f true }

def Line.setFlag (s : Line) (f : Flag) : Line := { s with flags := s.flags.set f }

/-- The levels behind `loglevel=`. -/
def priority (level : Str) : Option Priority :=
  if sameCase level (ascii "debug") then some .debug
  else if sameCase level (ascii "info") then some .info
  else if sameCase level (ascii "warning") then some .warning
  else if sameCase level (ascii "error") then some .error
  else if sameCase level (ascii "critical") then some .critical
  else none

def dashToColon (b : UInt8) : UInt8 := if b = 0x2d then colon else b

/-- `(argv[i][1] == 'r' ? 11 : 3)`; the name itself is compared without regard to case. -/
def driverdiskOffset (w : Str) : ℕ := if w[1]? = some 0x72 then 11 else 3

def ipSettings (s : Line) : CmdLineIp.IpSettings :=
  ⟨s.text .ipv4, s.text .gateway, s.text .netmask, s.isSet .ipv4, s.flags.has .ipParam⟩

def withIp (s : Line) (i : CmdLineIp.IpSettings) : Line :=
  { s with
    text := Function.update (Function.update (Function.update s.text .ipv4 i.ipv4)
      .gateway i.gateway) .netmask i.netmask,
    isSet := Function.update s.isSet .ipv4 i.ipinfoSet,
    flags := if i.ipParam then s.flags.set .ipParam else s.flags }

def parseCmdLineIpv6 (s : Line) (w : Str) : Line :=
  let lower := w.map tolower
  let found (v : String) := ((s.setText .ipv6 (some (ascii v))).mark .ipv6).setFlag .ipv6Param
  if sameUpto 9 lower (ascii "ipv6=dhcp") then found "dhcp"
  else if sameUpto 9 lower (ascii "ipv6=auto") then found "auto"
  else s.setText .ipv6 none

/-- `none` is a fault or an `abort`. -/
def apply (b : Build) (s : Line) (w : Str) : Action → Option Line
  | .flags on off => some { s with flags := off.foldl Flags.clear (on.foldl Flags.set s.flags) }
  | .value f offset => some (s.setText f (some (w.drop offset)))
  | .valueSet f offset => some ((s.setText f (some (w.drop offset))).mark f)
  | .driverdisk => some (s.setText .ddsrc (some (w.drop (driverdiskOffset w))))
  | .blacklist modules => some { s with blacklists := s.blacklists ++ modules.map ascii }
  | .logLevel =>
    some (match priority (w.drop 9) with
      | some p => { s.setText .logLevel (some (w.drop 9)) with minLevel := some p }
      | none => s)
  -- a shorter word has ended before the place the address is copied from
  | .bootif =>
    if w.length < 10 then none
    else some ((s.setText .bootIf (some ((w.drop 10).map dashToColon))).mark .bootIf)
  | .ksFile => some { s with scan := { s.scan with ksFile := some w } }
  | .keymap => (settle s.scan (.keymap (w.drop 7))).map (fun scan => { s with scan := scan })
  | .repo offset => (settle s.scan (.repo (w.drop offset))).map (fun scan => { s with scan := scan })
  | .stage2 => (settle s.scan (.stage2 (w.drop 7))).map (fun scan => { s with scan := scan })
  | .ip => (CmdLineIp.parseCmdLineIp (ipSettings s) w).map (withIp s)
  | .ipv6 => some (parseCmdLineIpv6 s w)
  | .number n offset =>
    if numberAborts b.longBits (w.drop offset) then none
    else some { s with number := Function.update s.number n (strtolInt b.longBits (w.drop offset)) }

/-- What needs the network before anaconda runs; `none` is the fault of `isKickstartFileRemote`. -/
def needsNetwork (s : Scan) (w : Str) : Option Bool :=
  if sameCaseUpto 6 w (ascii "syslog") || sameCaseUpto 3 w (ascii "vnc") then some true
  else isKickstartFileRemote s.ksFile

/-- The flags that come with a word that is passed on. -/
def passFlags (flags : Flags) (w : Str) (early : Bool) : Flags :=
  let flags := if sameCaseUpto 3 w (ascii "vnc") then flags.set .graphical else flags
  if early then flags.set .earlyNetworking else flags

/-- The last branch. -/
def passOn (s : Line) (w : Str) : Option Line :=
  if s.scan.numExtraArgs < MAX_EXTRA_ARGS - 1 then
    if sameCaseUpto 12 w (ascii "vncpassword=") then
      some (if s.flags.has .testing then s
        else { s with vncPassword := some (w.drop 12 ++ [0x0a]) })
    else if passTests.any (Test.holds w) then do
      let early ← needsNetwork s.scan w
      let scan ← addExtraArg s.scan w
      some { s with scan := scan, flags := passFlags s.flags w early }
    else some s
  else some s

def action (b : Build) (w : Str) : Option Action :=
  ((actions b).find? (fun t => t.1.holds w)).map Prod.snd

def parseWord (b : Build) (s : Line) (w : Str) : Option Line :=
  match action b w with
  | some a => apply b s w a
  | none => passOn s w

/-- The setting of a configuration file that goes into the string. -/
def Field.key : Field → Option NetInfo.Key
  | .ipv4 => some .ipv4
  | .netmask => some .netmask
  | .gateway => some .gateway
  | .dns => some .dns
  | .hostname => some .hostname
  | .peerid => some .peerid
  | .subchannels => some .subchannels
  | .portname => some .portname
  | .nettype => some .nettype
  | .ctcprot => some .ctcprot
  | .layer2 => some .layer2
  | .macaddr => some .macaddr
  | _ => none

def keyField : NetInfo.Key → Field
  | .ipv4 => .ipv4
  | .netmask => .netmask
  | .gateway => .gateway
  | .dns => .dns
  | .hostname => .hostname
  | .peerid => .peerid
  | .subchannels => .subchannels
  | .portname => .portname
  | .nettype => .nettype
  | .ctcprot => .ctcprot
  | .layer2 => .layer2
  | .macaddr => .macaddr

def netData (s : Line) : NetInfo.NetData := ⟨fun k => s.text (keyField k), s.number .mtu⟩

def withNet (s : Line) (r : NetInfo.NetData × Bool) : Line :=
  { s with
    text := fun f => (f.key.map r.1.text).getD (s.text f),
    number := Function.update s.number .mtu r.1.mtu,
    flags := if r.2 then s.flags.set .haveCmsconf else s.flags }

/-- Without a command line, or with one that `poptParseArgvString` refuses, only the default is
set. The NULL behind `extraArgs` is left out. -/
def parseCmdLineFlags (b : Build) (directory : Option (List (Str × Option Str))) (s : Line)
    (words : Option (List Str)) : Option Line :=
  match words with
  | none => some (s.setFlag .graphical)
  | some ws => do
    let parsed ← ws.foldlM (parseWord b) (s.setFlag .graphical)
    let net ← NetInfo.readNetInfo b directory (netData parsed) (parsed.flags.has .haveCmsconf)
    some (withNet parsed net)

section Flags

variable {flags : Flags} {f g : Flag}

theorem bit_lt (f : Flag) : f.bit < 64 := by
  cases f <;> decide

theorem bit_injective (h : f.bit = g.bit) : f = g := by
  cases f <;> cases g <;> first | rfl | (exfalso; revert h; decide)

theorem has_eq (flags : Flags) (f : Flag) : flags.has f = flags.getLsbD f.bit := by
  have hbit := bit_lt f
  rw [Flags.has, Flag.mask, BitVec.and_twoPow]
  cases h : flags.getLsbD f.bit with
  | false => simp
  | true =>
    rw [if_pos rfl, bne_iff_ne]
    intro hzero
    have hget := congrArg (fun v => v.getLsbD f.bit) hzero
    simp [hbit] at hget

@[simp] theorem has_set : (flags.set f).has g = (flags.has g || g = f) := by
  have hbit := bit_lt g
  rw [has_eq, has_eq, Flags.set, Flag.mask, BitVec.getLsbD_or, BitVec.getLsbD_twoPow]
  congr 1
  by_cases h : g = f
  · simp [h, bit_lt]
  · have hne : f.bit ≠ g.bit := fun he => h (bit_injective he.symm)
    simp [h, hne]

@[simp] theorem has_clear : (flags.clear f).has g = (flags.has g && !decide (g = f)) := by
  have hbit := bit_lt g
  rw [has_eq, has_eq, Flags.clear, Flag.mask, BitVec.getLsbD_and, BitVec.getLsbD_not,
    BitVec.getLsbD_twoPow]
  congr 1
  by_cases h : g = f
  · simp [h, bit_lt]
  · have hne : f.bit ≠ g.bit := fun he => h (bit_injective he.symm)
    simp [h, hne, hbit]

theorem has_foldl_set (on : List Flag) :
    (on.foldl Flags.set flags).has g = (flags.has g || decide (g ∈ on)) := by
  induction on generalizing flags with
  | nil => simp
  | cons f on ih =>
    rw [List.foldl_cons, ih, has_set]
    by_cases h : g = f <;> simp [h]

theorem has_foldl_clear (off : List Flag) :
    (off.foldl Flags.clear flags).has g = (flags.has g && !decide (g ∈ off)) := by
  induction off generalizing flags with
  | nil => simp
  | cons f off ih =>
    rw [List.foldl_cons, ih, has_clear]
    by_cases h : g = f <;> simp [h]

end Flags

section Ip

variable {s r : CmdLineIp.IpSettings} {w : Str}

/-- What `ip=` sets, read off a run on settings that are all empty. -/
def ipWord (w : Str) : CmdLineIp.IpSettings :=
  (CmdLineIp.parseCmdLineIp ⟨none, none, none, false, false⟩ w).getD ⟨none, none, none, false, false⟩

/-- The settings with what a run on empty ones has set. -/
def overlay (new s : CmdLineIp.IpSettings) : CmdLineIp.IpSettings :=
  ⟨new.ipv4.or s.ipv4, new.gateway.or s.gateway, new.netmask.or s.netmask,
    new.ipinfoSet || s.ipinfoSet, new.ipParam || s.ipParam⟩

theorem parseAfterIp_overlay (client start : Str) :
    CmdLineIp.parseAfterIp { s with ipv4 := some client, ipinfoSet := true } start =
      overlay (CmdLineIp.parseAfterIp ⟨some client, none, none, true, false⟩ start) s := by
  unfold CmdLineIp.parseAfterIp
  split
  · simp [overlay]
  · split <;> simp [overlay, CmdLineIp.setIpParam]

theorem parseCmdLineIp_overlay (h : CmdLineIp.parseCmdLineIp s w = some r) :
    r = overlay (ipWord w) s := by
  unfold CmdLineIp.parseCmdLineIp at h
  unfold ipWord CmdLineIp.parseCmdLineIp
  split at h
  · rename_i hcolon
    rw [if_pos hcolon]
    cases hc : strchr Urls.colon (w.drop 3) with
    | none =>
      rw [hc] at h
      cases h
    | some c =>
      rw [hc] at h
      cases h
      exact parseAfterIp_overlay c.1 c.2
  · rename_i hcolon
    rw [if_neg hcolon]
    cases h
    simp [overlay, CmdLineIp.setIpParam]

end Ip

/-- The string that a branch gives a field, NULL included. -/
def Action.setsText (w : Str) (f : Field) : Action → Option (Option Str)
  | .value g offset | .valueSet g offset => if f = g then some (some (w.drop offset)) else none
  | .driverdisk => if f = .ddsrc then some (some (w.drop (driverdiskOffset w))) else none
  | .logLevel =>
    if f = .logLevel then (priority (w.drop 9)).map (fun _ => some (w.drop 9)) else none
  | .bootif => if f = .bootIf then some (some ((w.drop 10).map dashToColon)) else none
  | .ip =>
    match f with
    | .ipv4 => (ipWord w).ipv4.map some
    | .gateway => (ipWord w).gateway.map some
    | .netmask => (ipWord w).netmask.map some
    | _ => none
  | .ipv6 =>
    if f = .ipv6 then
      some (if sameUpto 9 (w.map tolower) (ascii "ipv6=dhcp") then some (ascii "dhcp")
        else if sameUpto 9 (w.map tolower) (ascii "ipv6=auto") then some (ascii "auto") else none)
    else none
  | _ => none

def Action.setsFlag (w : Str) (f : Flag) : Action → Option Bool
  | .flags on off => if f ∈ off then some false else if f ∈ on then some true else none
  | .ip => if f = .ipParam ∧ (ipWord w).ipParam then some true else none
  | .ipv6 =>
    if f = .ipv6Param ∧ (sameUpto 9 (w.map tolower) (ascii "ipv6=dhcp") ∨
      sameUpto 9 (w.map tolower) (ascii "ipv6=auto")) then some true else none
  | _ => none

def Action.setsNumber (b : Build) (w : Str) (n : Number) : Action → Option ℤ
  | .number m offset => if n = m then some (strtolInt b.longBits (w.drop offset)) else none
  | _ => none

def Action.setsKsFile (w : Str) : Action → Option (Option Str)
  | .ksFile => some (some w)
  | _ => none

def Action.setsRepo (w : Str) : Action → Option (Option Str)
  | .repo offset => some (some (w.drop offset))
  | _ => none

def Action.marks (w : Str) (f : Field) : Action → Option Bool
  | .valueSet g _ => if f = g then some true else none
  | .bootif => if f = .bootIf then some true else none
  | .ip => if f = .ipv4 ∧ (ipWord w).ipinfoSet then some true else none
  | .ipv6 =>
    if f = .ipv6 ∧ (sameUpto 9 (w.map tolower) (ascii "ipv6=dhcp") ∨
      sameUpto 9 (w.map tolower) (ascii "ipv6=auto")) then some true else none
  | _ => none

structure Sets (s s' : Line) (text : Field → Option (Option Str)) (mark : Field → Option Bool)
    (flag : Flag → Option Bool) (number : Number → Option ℤ) (ksFile repo : Option (Option Str)) :
    Prop where
  text : ∀ f, s'.text f = (text f).getD (s.text f)
  mark : ∀ f, s'.isSet f = (mark f).getD (s.isSet f)
  flag : ∀ f, s'.flags.has f = (flag f).getD (s.flags.has f)
  number : ∀ n, s'.number n = (number n).getD (s.number n)
  ksFile : s'.scan.ksFile = ksFile.getD s.scan.ksFile
  repo : s'.scan.loaderData.instRepo = repo.getD s.scan.loaderData.instRepo

abbrev Action.Sets (a : Action) (b : Build) (w : Str) (s s' : Line) : Prop :=
  LoaderCommandLine.Sets s s' (a.setsText w) (a.marks w) (a.setsFlag w) (a.setsNumber b w)
    (a.setsKsFile w) (a.setsRepo w)

section Words

variable {b : Build} {s s' : Line} {w : Str} {a : Action}

theorem update_getD {ι ν : Type} [DecidableEq ι] (g : ι → ν) (i : ι) (v : ν) (j : ι) :
    Function.update g i v j = (if j = i then some v else none).getD (g j) := by
  by_cases h : j = i
  · rw [h, Function.update_self, if_pos rfl, Option.getD_some]
  · rw [Function.update_of_ne h, if_neg h, Option.getD_none]

theorem setFlag_getD (flags : Flags) (g f : Flag) :
    (flags.set g).has f = (if f = g then some true else none).getD (flags.has f) := by
  rw [has_set]
  by_cases h : f = g <;> simp [h]

theorem flags_sets (on off : List Flag) :
    (Action.flags on off).Sets b w s
      { s with flags := off.foldl Flags.clear (on.foldl Flags.set s.flags) } := by
  refine ⟨fun _ => rfl, fun _ => rfl, ?_, fun _ => rfl, rfl, rfl⟩
  intro f
  rw [has_foldl_clear, has_foldl_set, Action.setsFlag]
  by_cases hoff : f ∈ off
  · simp [hoff]
  · by_cases hon : f ∈ on <;> simp [hoff, hon]

theorem instRepo_of_stage2 {location : Str} {ld ld' : LoaderData}
    (h : setStage2LocFromCmdline location ld = some ld') : ld'.instRepo = ld.instRepo := by
  unfold setStage2LocFromCmdline at h
  dsimp only at h
  split at h
  · cases h
    rfl
  · split at h
    · obtain ⟨c, -, rfl⟩ := Option.map_eq_some_iff.mp h
      rfl
    · split at h
      · cases h
        rfl
      · split at h
        · cases h
          rfl
        · split at h
          · obtain ⟨c, -, rfl⟩ := Option.map_eq_some_iff.mp h
            rfl
          · cases h
            rfl

theorem or_getD {ν : Type} (x y : Option ν) : x.or y = (x.map some).getD y := by
  cases x <;> rfl

theorem withIp_sets (w : Str) :
    Action.ip.Sets b w s (withIp s (overlay (ipWord w) (ipSettings s))) := by
  refine ⟨?_, ?_, ?_, fun _ => rfl, rfl, rfl⟩
  · intro f
    cases f with
    | ipv4 | gateway | netmask => exact or_getD _ _
    | _ => rfl
  · intro f
    change Function.update s.isSet .ipv4 ((ipWord w).ipinfoSet || s.isSet .ipv4) f =
      (if f = .ipv4 ∧ (ipWord w).ipinfoSet then some true else none).getD (s.isSet f)
    rw [update_getD]
    by_cases hf : f = .ipv4
    · subst hf
      cases (ipWord w).ipinfoSet <;> simp
    · simp [hf]
  · intro f
    change Flags.has (if ((ipWord w).ipParam || s.flags.has .ipParam) = true then
      s.flags.set .ipParam else s.flags) f =
        (if f = .ipParam ∧ (ipWord w).ipParam then some true else none).getD (s.flags.has f)
    by_cases hf : f = .ipParam
    · subst hf
      cases (ipWord w).ipParam <;> cases hhas : s.flags.has .ipParam <;> simp [hhas]
    · split <;> simp [hf]

theorem ipv6_sets (w : Str) : Action.ipv6.Sets b w s (parseCmdLineIpv6 s w) := by
  have hsets : ∀ (v : Option Str) (found : Bool),
      (∀ f, Action.ipv6.setsText w f = if f = .ipv6 then some v else none) →
      (∀ f, Action.ipv6.marks w f = if f = .ipv6 ∧ found then some true else none) →
      (∀ f, Action.ipv6.setsFlag w f = if f = .ipv6Param ∧ found then some true else none) →
      Action.ipv6.Sets b w s (if found then ((s.setText .ipv6 v).mark .ipv6).setFlag .ipv6Param
        else s.setText .ipv6 v) := by
    intro v found htext hmark hflag
    refine ⟨?_, ?_, ?_, ?_, ?_, ?_⟩
    · intro f
      rw [htext]
      cases found <;> exact update_getD _ _ _ _
    · intro f
      rw [hmark]
      cases found with
      | false => simp [Line.setText]
      | true =>
        simp only [and_true]
        exact update_getD _ _ _ _
    · intro f
      rw [hflag]
      cases found with
      | false => simp [Line.setText]
      | true =>
        simp only [and_true]
        exact setFlag_getD _ _ _
    · cases found <;> exact fun _ => rfl
    · cases found <;> rfl
    · cases found <;> rfl
  unfold parseCmdLineIpv6
  dsimp only
  by_cases hdhcp : sameUpto 9 (w.map tolower) (ascii "ipv6=dhcp") = true
  · rw [if_pos hdhcp]
    exact hsets (some (ascii "dhcp")) true (fun f => by simp [Action.setsText, hdhcp])
      (fun f => by simp [Action.marks, hdhcp]) (fun f => by simp [Action.setsFlag, hdhcp])
  · rw [if_neg hdhcp]
    by_cases hauto : sameUpto 9 (w.map tolower) (ascii "ipv6=auto") = true
    · rw [if_pos hauto]
      exact hsets (some (ascii "auto")) true (fun f => by simp [Action.setsText, hdhcp, hauto])
        (fun f => by simp [Action.marks, hauto]) (fun f => by simp [Action.setsFlag, hauto])
    · rw [if_neg hauto]
      exact hsets none false (fun f => by simp [Action.setsText, hdhcp, hauto])
        (fun f => by simp [Action.marks, hdhcp, hauto])
        (fun f => by simp [Action.setsFlag, hdhcp, hauto])

theorem apply_sets (h : apply b s w a = some s') : a.Sets b w s s' := by
  cases a with
  | flags on off =>
    cases h
    exact flags_sets on off
  | value g offset =>
    cases h
    exact ⟨update_getD _ _ _, fun _ => rfl, fun _ => rfl, fun _ => rfl, rfl, rfl⟩
  | valueSet g offset =>
    cases h
    exact ⟨update_getD _ _ _, update_getD _ _ _, fun _ => rfl, fun _ => rfl, rfl, rfl⟩
  | driverdisk =>
    cases h
    exact ⟨update_getD _ _ _, fun _ => rfl, fun _ => rfl, fun _ => rfl, rfl, rfl⟩
  | blacklist modules =>
    cases h
    exact ⟨fun _ => rfl, fun _ => rfl, fun _ => rfl, fun _ => rfl, rfl, rfl⟩
  | logLevel =>
    cases h
    cases hp : priority (w.drop 9) with
    | none =>
      refine ⟨?_, fun _ => rfl, fun _ => rfl, fun _ => rfl, rfl, rfl⟩
      intro f
      by_cases hf : f = .logLevel <;> simp [Action.setsText, hp, hf]
    | some p =>
      refine ⟨?_, fun _ => rfl, fun _ => rfl, fun _ => rfl, rfl, rfl⟩
      intro f
      rw [Action.setsText, hp]
      exact update_getD _ _ _ _
  | bootif =>
    simp only [apply] at h
    split at h
    · cases h
    · cases h
      exact ⟨update_getD _ _ _, update_getD _ _ _, fun _ => rfl, fun _ => rfl, rfl, rfl⟩
  | ksFile =>
    cases h
    exact ⟨fun _ => rfl, fun _ => rfl, fun _ => rfl, fun _ => rfl, rfl, rfl⟩
  | keymap | repo offset =>
    rw [apply] at h
    obtain ⟨scan, hscan, rfl⟩ := Option.map_eq_some_iff.mp h
    obtain ⟨ld, hld, rfl⟩ := Option.map_eq_some_iff.mp hscan
    cases hld
    exact ⟨fun _ => rfl, fun _ => rfl, fun _ => rfl, fun _ => rfl, rfl, rfl⟩
  | stage2 =>
    rw [apply] at h
    obtain ⟨scan, hscan, rfl⟩ := Option.map_eq_some_iff.mp h
    obtain ⟨ld, hld, rfl⟩ := Option.map_eq_some_iff.mp hscan
    exact ⟨fun _ => rfl, fun _ => rfl, fun _ => rfl, fun _ => rfl, rfl, instRepo_of_stage2 hld⟩
  | ip =>
    rw [apply] at h
    obtain ⟨r, hr, rfl⟩ := Option.map_eq_some_iff.mp h
    rw [parseCmdLineIp_overlay hr]
    exact withIp_sets w
  | ipv6 =>
    cases h
    exact ipv6_sets w
  | number n offset =>
    simp only [apply] at h
    split at h
    · cases h
    · cases h
      exact ⟨fun _ => rfl, fun _ => rfl, fun _ => rfl, update_getD _ _ _, rfl, rfl⟩

theorem addExtraArg_keeps {scan scan' : Scan} (h : addExtraArg scan w = some scan') :
    scan'.ksFile = scan.ksFile ∧ scan'.loaderData = scan.loaderData := by
  unfold addExtraArg at h
  dsimp only at h
  split at h
  · split at h
    · cases h
      exact ⟨rfl, rfl⟩
    · split at h
      · obtain ⟨early, -, rfl⟩ := Option.map_eq_some_iff.mp h
        exact ⟨rfl, rfl⟩
      · cases h
        exact ⟨rfl, rfl⟩
  · cases h
    exact ⟨rfl, rfl⟩

theorem passOn_sets (h : passOn s w = some s') :
    (∀ f, s'.text f = s.text f) ∧ (∀ f, s'.isSet f = s.isSet f) ∧ s'.number = s.number ∧
      s'.scan.ksFile = s.scan.ksFile ∧ s'.scan.loaderData = s.scan.loaderData ∧
      ∀ f, f ≠ .graphical → f ≠ .earlyNetworking → s'.flags.has f = s.flags.has f := by
  unfold passOn at h
  split at h
  · split at h
    · cases h
      split <;> exact ⟨fun _ => rfl, fun _ => rfl, rfl, rfl, rfl, fun _ _ _ => rfl⟩
    · split at h
      · obtain ⟨early, -, h⟩ := Option.bind_eq_some_iff.mp h
        obtain ⟨scan, hscan, h⟩ := Option.bind_eq_some_iff.mp h
        cases h
        have hkeeps := addExtraArg_keeps hscan
        refine ⟨fun _ => rfl, fun _ => rfl, rfl, hkeeps.1, hkeeps.2, ?_⟩
        intro f hg he
        simp only [passFlags]
        split <;> split <;> simp [hg, he]
      · cases h
        exact ⟨fun _ => rfl, fun _ => rfl, rfl, rfl, rfl, fun _ _ _ => rfl⟩
  · cases h
    exact ⟨fun _ => rfl, fun _ => rfl, rfl, rfl, rfl, fun _ _ _ => rfl⟩

def wordSets {ν : Type} (b : Build) (sets : Str → Action → Option ν) (w : Str) : Option ν :=
  (action b w).bind (sets w)

/-- The flags that the last branch leaves alone. -/
def Lasting (f : Flag) : Prop := f ≠ .graphical ∧ f ≠ .earlyNetworking

theorem parseWord_sets (h : parseWord b s w = some s') :
    (∀ f, s'.text f = (wordSets b (fun w a => a.setsText w f) w).getD (s.text f)) ∧
    (∀ f, s'.isSet f = (wordSets b (fun w a => a.marks w f) w).getD (s.isSet f)) ∧
    (∀ n, s'.number n = (wordSets b (fun w a => a.setsNumber b w n) w).getD (s.number n)) ∧
    s'.scan.ksFile = (wordSets b (fun w a => a.setsKsFile w) w).getD s.scan.ksFile ∧
    s'.scan.loaderData.instRepo =
      (wordSets b (fun w a => a.setsRepo w) w).getD s.scan.loaderData.instRepo ∧
    ∀ f, Lasting f →
      s'.flags.has f = (wordSets b (fun w a => a.setsFlag w f) w).getD (s.flags.has f) := by
  unfold parseWord at h
  unfold wordSets
  cases ha : action b w with
  | some a =>
    rw [ha] at h
    have hsets := apply_sets h
    exact ⟨hsets.text, hsets.mark, hsets.number, hsets.ksFile, hsets.repo, fun f _ => hsets.flag f⟩
  | none =>
    rw [ha] at h
    obtain ⟨htext, hmark, hnumber, hks, hld, hflag⟩ := passOn_sets h
    exact ⟨htext, hmark, fun n => congrFun hnumber n, hks, congrArg LoaderData.instRepo hld,
      fun f hf => hflag f hf.1 hf.2⟩

end Words

section Whole

variable {b : Build} {s s' : Line} {w : Str} {ws : List Str}

/-- Every setting is that of the last word whose branch sets it. -/
structure LastWins (b : Build) (ws : List Str) (s s' : Line) : Prop where
  text : ∀ f, s'.text f = lastSet (wordSets b (fun w a => a.setsText w f)) (s.text f) ws
  isSet : ∀ f, s'.isSet f = lastSet (wordSets b (fun w a => a.marks w f)) (s.isSet f) ws
  number : ∀ n, s'.number n = lastSet (wordSets b (fun w a => a.setsNumber b w n)) (s.number n) ws
  ksFile : s'.scan.ksFile = lastSet (wordSets b (fun w a => a.setsKsFile w)) s.scan.ksFile ws
  instRepo : s'.scan.loaderData.instRepo =
    lastSet (wordSets b (fun w a => a.setsRepo w)) s.scan.loaderData.instRepo ws
  flag : ∀ f, Lasting f →
    s'.flags.has f = lastSet (wordSets b (fun w a => a.setsFlag w f)) (s.flags.has f) ws

theorem parseWords_last {ν : Type} (get : Line → ν) (sets : Str → Option ν)
    (hsets : ∀ s w s', parseWord b s w = some s' → get s' = (sets w).getD (get s))
    (h : ws.foldlM (parseWord b) s = some s') : get s' = lastSet sets (get s) ws := by
  have hstep : ∀ s w (rest : List Str) s', True → parseWord b s w = some s' →
      True ∧ get s' = (sets w).getD (get s) := fun s w _ s' _ hs => ⟨trivial, hsets s w s' hs⟩
  exact @foldlM_lastSet Line Str ν (parseWord b) s s' ws (fun _ _ => True) get sets hstep trivial h

theorem parseWords_lastWins (h : ws.foldlM (parseWord b) s = some s') : LastWins b ws s s' := by
  constructor
  · intro f
    exact parseWords_last (fun t => t.text f) _ (fun s w s' hs => (parseWord_sets hs).1 f) h
  · intro f
    exact parseWords_last (fun t => t.isSet f) _ (fun s w s' hs => (parseWord_sets hs).2.1 f) h
  · intro n
    exact parseWords_last (fun t => t.number n) _ (fun s w s' hs => (parseWord_sets hs).2.2.1 n) h
  · exact parseWords_last (fun t => t.scan.ksFile) _
      (fun s w s' hs => (parseWord_sets hs).2.2.2.1) h
  · exact parseWords_last (fun t => t.scan.loaderData.instRepo) _
      (fun s w s' hs => (parseWord_sets hs).2.2.2.2.1) h
  · intro f hf
    exact parseWords_last (fun t => t.flags.has f) _
      (fun s w s' hs => (parseWord_sets hs).2.2.2.2.2 f hf) h

/-- What the branch is to the collection of `extraArgs`. -/
def Action.effect : Action → Effect
  | .keymap => .keymap
  | .repo offset => .repo offset
  | .stage2 => .stage2
  | .ksFile => .ksFile
  | .number _ offset => .number offset
  | _ => .flags

theorem actions_effects (b : Build) :
    (actions b).map (fun t => (t.1, t.2.effect)) = branches b := by
  obtain ⟨ipv6, longBits⟩ := b
  cases ipv6 <;> rfl

theorem branches_find (b : Build) (w : Str) :
    ((branches b).find? (fun t => t.1.holds w)).map Prod.snd = (action b w).map Action.effect := by
  rw [← actions_effects, List.find?_map, action, Option.map_map, Option.map_map]
  rfl

theorem parseCmdLineIpv6_scan (s : Line) (w : Str) : (parseCmdLineIpv6 s w).scan = s.scan := by
  unfold parseCmdLineIpv6
  dsimp only
  split
  · rfl
  · split <;> rfl

theorem parseWord_scan (h : parseWord b s w = some s') :
    LoaderArgs.parseWord b s.scan w = some s'.scan := by
  have hfind := branches_find b w
  unfold parseWord at h
  unfold LoaderArgs.parseWord
  cases ha : action b w with
  | none =>
    rw [ha] at h hfind
    rw [Option.map_eq_none_iff.mp hfind]
    unfold passOn at h
    simp only [addExtraArg] at h ⊢
    split at h
    · rename_i hroom
      rw [if_pos hroom]
      split at h
      · rename_i hvnc
        rw [if_pos hvnc]
        cases h
        split <;> rfl
      · rename_i hvnc
        rw [if_neg hvnc]
        split at h
        · rename_i hpass
          rw [if_pos hpass]
          obtain ⟨early, -, h⟩ := Option.bind_eq_some_iff.mp h
          obtain ⟨scan, hscan, h⟩ := Option.bind_eq_some_iff.mp h
          cases h
          exact hscan
        · rename_i hpass
          rw [if_neg hpass]
          cases h
          rfl
    · rename_i hroom
      rw [if_neg hroom]
      cases h
      rfl
  | some a =>
    rw [ha] at h hfind
    obtain ⟨t, ht, heffect⟩ := Option.map_eq_some_iff.mp hfind
    rw [ht]
    obtain ⟨test, effect⟩ := t
    dsimp only at heffect
    subst heffect
    cases a with
    | flags on off | value f offset | valueSet f offset | driverdisk | blacklist modules | ksFile =>
      cases h
      rfl
    | ipv6 =>
      cases h
      exact congrArg some (parseCmdLineIpv6_scan s w).symm
    | logLevel =>
      cases h
      cases priority (w.drop 9) <;> rfl
    | bootif | number n offset =>
      simp only [apply] at h
      split at h
      · cases h
      · rename_i hcond
        cases h
        first | rfl | exact if_neg hcond
    | keymap | repo offset | stage2 =>
      simp only [apply] at h
      obtain ⟨scan, hscan, rfl⟩ := Option.map_eq_some_iff.mp h
      exact hscan
    | ip =>
      simp only [apply] at h
      obtain ⟨r, -, rfl⟩ := Option.map_eq_some_iff.mp h
      rfl

/-- There is room in `extraArgs` for all words that are passed on. -/
def Room (b : Build) (s : Line) (ws : List Str) : Prop :=
  s.scan.numExtraArgs + (ws.filter (passedOn b)).length ≤ MAX_EXTRA_ARGS - 1

theorem passedOn_eq (b : Build) (w : Str) :
    passedOn b w = ((action b w).isNone && !sameCaseUpto 12 w (ascii "vncpassword=") &&
      passTests.any (Test.holds w)) := by
  have hfind := congrArg Option.isNone (branches_find b w)
  rw [Option.isNone_map, Option.isNone_map] at hfind
  rw [passedOn, hfind]

theorem settle_numExtraArgs {scan scan' : Scan} {st : Setting} (h : settle scan st = some scan') :
    scan'.numExtraArgs = scan.numExtraArgs := by
  obtain ⟨ld, -, rfl⟩ := Option.map_eq_some_iff.mp h
  rfl

theorem apply_numExtraArgs {a : Action} (ha : action b w = some a) (h : apply b s w a = some s') :
    s'.scan.numExtraArgs = s.scan.numExtraArgs := by
  have hscan : LoaderArgs.parseWord b s.scan w = some s'.scan := by
    apply parseWord_scan
    rw [parseWord, ha]
    exact h
  have hfind := branches_find b w
  rw [ha] at hfind
  obtain ⟨⟨test, effect⟩, ht, -⟩ := Option.map_eq_some_iff.mp hfind
  unfold LoaderArgs.parseWord at hscan
  rw [ht] at hscan
  cases effect with
  | flags =>
    rw [← Option.some.inj hscan]
  | ksFile =>
    rw [← Option.some.inj hscan]
  | keymap | repo offset | stage2 => exact settle_numExtraArgs hscan
  | number offset =>
    dsimp only at hscan
    split at hscan
    · cases hscan
    · rw [← Option.some.inj hscan]

/-- While there is room, a word that is passed on takes a place and brings its flags; any other
one sets the flags of its branch. -/
theorem parseWord_room (hroom : Room b s (w :: ws)) (h : parseWord b s w = some s') :
    Room b s' ws ∧
      (passedOn b w = true → ∃ early, needsNetwork s.scan w = some early ∧
        s'.flags = passFlags s.flags w early) ∧
      (passedOn b w = false → ∀ f, s'.flags.has f =
        (wordSets b (fun w a => a.setsFlag w f) w).getD (s.flags.has f)) := by
  unfold Room at hroom ⊢
  have hpassed := passedOn_eq b w
  unfold parseWord at h
  cases ha : action b w with
  | some a =>
    rw [ha] at h hpassed
    have hno : passedOn b w = false := by simpa using hpassed
    rw [List.filter_cons_of_neg (by simp [hno])] at hroom
    have hkeep := apply_numExtraArgs ha h
    refine ⟨by omega, by simp [hno], fun _ f => ?_⟩
    rw [wordSets, ha]
    exact (apply_sets h).flag f
  | none =>
    rw [ha] at h hpassed
    have hsets : ∀ f, (wordSets b (fun w a => a.setsFlag w f) w).getD (s.flags.has f) =
        s.flags.has f := by
      intro f
      rw [wordSets, ha]
      rfl
    by_cases hp : passedOn b w = true
    · have hcond : sameCaseUpto 12 w (ascii "vncpassword=") = false ∧
          passTests.any (Test.holds w) = true := by simpa [hp] using hpassed.symm
      rw [List.filter_cons_of_pos hp, List.length_cons] at hroom
      simp only [passOn] at h
      rw [if_pos (by omega), if_neg (by simp [hcond.1]), if_pos hcond.2] at h
      obtain ⟨early, hearly, h⟩ := Option.bind_eq_some_iff.mp h
      obtain ⟨scan, hscan, h⟩ := Option.bind_eq_some_iff.mp h
      cases h
      refine ⟨?_, fun _ => ⟨early, hearly, rfl⟩, by simp [hp]⟩
      rw [addExtraArg, if_pos (by omega), if_neg (by simp [hcond.1]), if_pos hcond.2] at hscan
      obtain ⟨_, -, rfl⟩ := Option.map_eq_some_iff.mp hscan
      dsimp only
      omega
    · have hno : passedOn b w = false := by simpa using hp
      rw [List.filter_cons_of_neg hp] at hroom
      have hcond : sameCaseUpto 12 w (ascii "vncpassword=") = true ∨
          passTests.any (Test.holds w) = false := by
        cases hv : sameCaseUpto 12 w (ascii "vncpassword=") with
        | true => exact Or.inl rfl
        | false =>
          right
          simpa [hno, hv] using hpassed.symm
      have hsame : s'.scan = s.scan ∧ s'.flags = s.flags := by
        simp only [passOn] at h
        split at h
        · split at h
          · cases h
            split <;> exact ⟨rfl, rfl⟩
          · rename_i hv
            rw [if_neg (by simp [hcond.resolve_left hv])] at h
            cases h
            exact ⟨rfl, rfl⟩
        · cases h
          exact ⟨rfl, rfl⟩
      refine ⟨by rw [hsame.1]; exact hroom, by simp [hno], fun _ f => ?_⟩
      rw [hsets, hsame.2]

/-- What a word does to the choice between text and graphics. -/
def setsGraphical (b : Build) (w : Str) : Option Bool :=
  if passedOn b w then if sameCaseUpto 3 w (ascii "vnc") then some true else none
  else wordSets b (fun w a => a.setsFlag w .graphical) w

theorem passFlags_graphical (flags : Flags) (w : Str) (early : Bool) :
    (passFlags flags w early).has .graphical =
      (if sameCaseUpto 3 w (ascii "vnc") then some true else none).getD (flags.has .graphical) := by
  have hne : (Flag.graphical = Flag.earlyNetworking) = False := by simp
  unfold passFlags
  split <;> cases early <;> simp

theorem parseWords_graphical (hroom : Room b s ws) (h : ws.foldlM (parseWord b) s = some s') :
    s'.flags.has .graphical = lastSet (setsGraphical b) (s.flags.has .graphical) ws := by
  have hstep : ∀ s w rest s', Room b s (w :: rest) → parseWord b s w = some s' →
      Room b s' rest ∧
        s'.flags.has .graphical = (setsGraphical b w).getD (s.flags.has .graphical) := by
    intro s w rest s' hroom hs
    obtain ⟨hroom', hpassed, hother⟩ := parseWord_room hroom hs
    refine ⟨hroom', ?_⟩
    unfold setsGraphical
    by_cases hp : passedOn b w = true
    · obtain ⟨early, -, hflags⟩ := hpassed hp
      rw [if_pos hp, hflags]
      exact passFlags_graphical _ _ _
    · rw [if_neg hp]
      exact hother (by simpa using hp) _
  exact @foldlM_lastSet Line Str Bool (parseWord b) s s' ws (Room b) (fun t => t.flags.has .graphical)
    (setsGraphical b) hstep hroom h

/-- The word is passed on and needs the network, with this kickstart file. -/
def asksNetwork (b : Build) (ksFile : Option Str) (w : Str) : Bool :=
  passedOn b w && (sameCaseUpto 6 w (ascii "syslog") || sameCaseUpto 3 w (ascii "vnc") ||
    isKickstartFileRemote ksFile == some true)

def Action.touches (f : Flag) : Action → Bool
  | .flags on off => decide (f ∈ on) || decide (f ∈ off)
  | .ip => f = .ipParam
  | .ipv6 => f = .ipv6Param
  | _ => false

theorem setsFlag_untouched {f : Flag} {a : Action} (h : a.touches f = false) (w : Str) :
    a.setsFlag w f = none := by
  cases a with
  | flags on off =>
    rw [Action.touches, Bool.or_eq_false_iff, decide_eq_false_iff_not, decide_eq_false_iff_not] at h
    rw [Action.setsFlag, if_neg h.2, if_neg h.1]
  | ip | ipv6 =>
    have hne := of_decide_eq_false h
    simp [Action.setsFlag, hne]
  | _ => rfl

theorem wordSets_early (b : Build) (w : Str) :
    wordSets b (fun w a => a.setsFlag w .earlyNetworking) w = none := by
  have htable : (actions b).all (fun e => !e.2.touches .earlyNetworking) = true := by
    obtain ⟨ipv6, longBits⟩ := b
    cases ipv6 <;> rfl
  unfold wordSets action
  cases hfind : (actions b).find? (fun t => t.1.holds w) with
  | none => rfl
  | some e =>
    have he := List.all_eq_true.mp htable e (List.mem_of_find?_eq_some hfind)
    exact setsFlag_untouched (by simpa using he) w

theorem passFlags_early (flags : Flags) (w : Str) (early : Bool) :
    (passFlags flags w early).has .earlyNetworking = (flags.has .earlyNetworking || early) := by
  unfold passFlags
  split <;> cases early <;> simp

theorem parseWord_early (hroom : Room b s (w :: ws)) (h : parseWord b s w = some s') :
    Room b s' ws ∧ s'.flags.has .earlyNetworking =
      (s.flags.has .earlyNetworking || asksNetwork b s.scan.ksFile w) := by
  have hword := parseWord_room hroom h
  refine ⟨hword.1, ?_⟩
  by_cases hp : passedOn b w = true
  · obtain ⟨early, hearly, hflags⟩ := hword.2.1 hp
    rw [hflags, passFlags_early]
    congr 1
    unfold needsNetwork at hearly
    split at hearly
    · rename_i hnet
      cases hearly
      rw [asksNetwork, hp, hnet]
      rfl
    · rename_i hnet
      have hnone : (sameCaseUpto 6 w (ascii "syslog") || sameCaseUpto 3 w (ascii "vnc")) = false := by
        simpa using hnet
      rw [asksNetwork, hp, hearly, hnone]
      cases early <;> rfl
  · have hno : passedOn b w = false := by simpa using hp
    rw [hword.2.2 hno, wordSets_early, asksNetwork, hno]
    simp

/-- Early networking is asked for by a word that is passed on; a kickstart file counts as it
stands in front of that word. -/
theorem parseWords_early (hroom : Room b s ws) (h : ws.foldlM (parseWord b) s = some s') :
    s'.flags.has .earlyNetworking = true ↔ s.flags.has .earlyNetworking = true ∨
      ∃ before w after, ws = before ++ w :: after ∧ asksNetwork b
        (lastSet (wordSets b (fun w a => a.setsKsFile w)) s.scan.ksFile before) w = true := by
  have hever := @foldlM_ever Line Str (parseWord b) s s' ws (Room b)
    (fun t => t.flags.has .earlyNetworking) (fun t w => asksNetwork b t.scan.ksFile w)
    (fun _ _ _ _ hroom hs => parseWord_early hroom hs) hroom h
  rw [hever]
  constructor
  · rintro (hs | ⟨before, w, after, m, hws, hm, hw⟩)
    · exact Or.inl hs
    · right
      rw [(parseWords_lastWins hm).ksFile] at hw
      exact ⟨before, w, after, hws, hw⟩
  · rintro (hs | ⟨before, w, after, rfl, hw⟩)
    · exact Or.inl hs
    · right
      rw [List.foldlM_append] at h
      obtain ⟨m, hm, -⟩ := Option.bind_eq_some_iff.mp h
      rw [← (parseWords_lastWins hm).ksFile] at hw
      exact ⟨before, w, after, m, rfl, hm, hw⟩

end Whole

section Order

variable {b : Build} {w : Str}

/-- What a word that passes the test begins with, in small letters and with its terminator. -/
def Test.pattern : Test → Str
  | .word name => (ascii name).map tolower ++ [0]
  | .start n name | .longer n name => ((ascii name).map tolower ++ [0]).take n
  | .bootif => ascii "bootif="

theorem sameCaseUpto_prefix {n : ℕ} {a : Str} (h : sameCaseUpto n w a = true) :
    (a.map tolower ++ [0]).take n <+: w.map tolower ++ [0] := by
  have htake : (w.map tolower ++ [0]).take n = (a.map tolower ++ [0]).take n := of_decide_eq_true h
  rw [← htake]
  exact List.take_prefix _ _

theorem pattern_begins {t : Test} (h : t.holds w = true) :
    Test.pattern t <+: w.map tolower ++ [0] := by
  cases t with
  | word name =>
    have hw : w.map tolower = (ascii name).map tolower := of_decide_eq_true h
    have hpattern : Test.pattern (.word name) = w.map tolower ++ [0] := by rw [Test.pattern, hw]
    exact hpattern ▸ List.prefix_rfl
  | start n name => exact sameCaseUpto_prefix h
  | longer n name => exact sameCaseUpto_prefix (Bool.and_eq_true_iff.mp h).1
  | bootif =>
    have htake : (w ++ [0]).take 7 = ascii "BOOTIF=" := of_decide_eq_true h
    have hlower : (w.map tolower ++ [0]).take 7 = ascii "bootif=" := by
      have hmap : w.map tolower ++ [0] = (w ++ [0]).map tolower := by
        rw [List.map_append]
        rfl
      rw [hmap, ← List.map_take, htake]
      decide
    rw [Test.pattern, ← hlower]
    exact List.take_prefix _ _

def apart (p q : Str) : Bool := !p.isPrefixOf q && !q.isPrefixOf p

theorem not_both {t u : Test} (h : apart (Test.pattern t) (Test.pattern u) = true)
    (ht : t.holds w = true) (hu : u.holds w = true) : False := by
  rw [apart, Bool.and_eq_true, Bool.not_eq_true', Bool.not_eq_true'] at h
  rcases List.prefix_or_prefix_of_prefix (pattern_begins ht) (pattern_begins hu) with hp | hp
  · rw [List.isPrefixOf_iff_prefix.mpr hp] at h
    cases h.1
  · rw [List.isPrefixOf_iff_prefix.mpr hp] at h
    cases h.2

/-- The tests that can hold together, the one tried first in front. -/
def nested : List (Test × Test) :=
  [(.start 8 "updates=", .start 7 "updates"), (.start 9 "selinux=0", .start 7 "selinux")]

theorem actions_apart (b : Build) : (actions b).Pairwise (fun e f =>
    (decide ((e.1, f.1) ∈ nested) || apart (Test.pattern e.1) (Test.pattern f.1)) = true) := by
  have hboth : ∀ ipv6, (actions ⟨ipv6, 64⟩).Pairwise (fun e f =>
      (decide ((e.1, f.1) ∈ nested) || apart (Test.pattern e.1) (Test.pattern f.1)) = true) := by
    decide +kernel
  exact hboth b.ipv6

theorem passTests_apart (b : Build) : ((actions b).all (fun e =>
    passTests.all (fun t => apart (Test.pattern e.1) (Test.pattern t)))) = true := by
  have hboth : ∀ ipv6, ((actions ⟨ipv6, 64⟩).all (fun e =>
      passTests.all (fun t => apart (Test.pattern e.1) (Test.pattern t)))) = true := by
    decide +kernel
  exact hboth b.ipv6

theorem nested_mem (b : Build) {p : Test × Test} (h : p ∈ nested) :
    ∃ a, (p.1, a) ∈ actions b := by
  have hboth : ∀ ipv6, nested.all (fun p =>
      (actions ⟨ipv6, 64⟩).any (fun e => decide (e.1 = p.1))) = true := by
    decide +kernel
  obtain ⟨e, he, heq⟩ := List.any_eq_true.mp (List.all_eq_true.mp (hboth b.ipv6) p h)
  rw [← of_decide_eq_true heq]
  exact ⟨e.2, he⟩

/-- The branch for a word does not depend on the order of the others, but for two pairs; and no
branch gets in front of the words that are passed on. -/
theorem action_iff (b : Build) (w : Str) :
    (∀ a, action b w = some a ↔ ∃ t, (t, a) ∈ actions b ∧ t.holds w = true ∧
      ∀ u, (u, t) ∈ nested → u.holds w = false) ∧
    (passedOn b w = true ↔
      passTests.any (Test.holds w) = true ∧ sameCaseUpto 12 w (ascii "vncpassword=") = false) := by
  have hpair : (actions b).Pairwise (fun e f =>
      e.1.holds w = true → f.1.holds w = true → (e.1, f.1) ∈ nested) := by
    apply (actions_apart b).imp
    intro e f hef he hf
    rcases Bool.or_eq_true_iff.mp hef with hef | hef
    · exact of_decide_eq_true hef
    · exact (not_both hef he hf).elim
  have hasymm : ∀ e f : Test × Action, (e.1, f.1) ∈ nested → ¬(f.1, e.1) ∈ nested := by
    intro ⟨t, _⟩ ⟨u, _⟩ htu hut
    have hnested : ∀ p ∈ nested, (p.2, p.1) ∉ nested := by decide
    exact hnested (t, u) htu hut
  constructor
  · intro a
    constructor
    · intro ha
      obtain ⟨⟨t, _⟩, hfind, rfl⟩ := Option.map_eq_some_iff.mp ha
      have htaken := (find?_eq_some_iff_of_nested hpair hasymm).mp hfind
      refine ⟨t, htaken.1, htaken.2.1, ?_⟩
      intro u hu
      obtain ⟨a, hmem⟩ := nested_mem b hu
      exact htaken.2.2 (u, a) hmem hu
    · intro ⟨t, hmem, hw, hno⟩
      have hfind := (@find?_eq_some_iff_of_nested _ _ (fun e => e.1.holds w) _ (t, a) hpair
        hasymm).mpr ⟨hmem, hw, fun e _ he => hno e.1 he⟩
      rw [action, hfind]
      rfl
  · rw [passedOn_eq]
    constructor
    · intro h
      simp only [Bool.and_eq_true, Bool.not_eq_true'] at h
      exact ⟨h.2, h.1.2⟩
    · intro ⟨hany, hvnc⟩
      obtain ⟨t, ht, htw⟩ := List.any_eq_true.mp hany
      have hnone : action b w = none := by
        rw [action, Option.map_eq_none_iff, List.find?_eq_none]
        intro e he hew
        have hall := List.all_eq_true.mp (List.all_eq_true.mp (passTests_apart b) e he) t ht
        exact not_both hall hew htw
      rw [hnone, hvnc, hany]
      rfl

end Order

section Function

variable {b : Build} {directory : Option (List (Str × Option Str))} {s s' : Line}
  {words : Option (List Str)}

/-- The variables of the file that `readNetInfo` reads, if there is one. -/
def netVars (directory : Option (List (Str × Option Str))) : Option (List NetInfoFile.Var) :=
  (directory.bind (fun entries =>
    (entries.find? (fun e => (ascii "ifcfg-").isPrefixOf e.1)).bind Prod.snd)).map
      (fun text => (LineBuffer.pieces (NetInfo.bufsiz - 1) [] text).filterMap NetInfo.assignment)

/-- A file that is read has the last word; only the name of the host is kept without a line. -/
def fileText (file : Option (List NetInfoFile.Var)) (f : Field) (v : Option Str) : Option Str :=
  match file, f.key with
  | some vars, some k => (NetInfo.lastFor k.matches vars).or (if k = .hostname then v else none)
  | _, _ => v

def fileNumber (b : Build) (file : Option (List NetInfoFile.Var)) (n : Number) (v : ℤ) : ℤ :=
  if n = .mtu then
    ((file.bind (NetInfo.lastFor NetInfo.isMtu)).map (strtolInt b.longBits)).getD v
  else v

/-- The file has an address and a mask. -/
def fileConf (file : Option (List NetInfoFile.Var)) : Bool :=
  file.any (fun vars => (NetInfo.lastFor (NetInfo.Key.matches .ipv4) vars).isSome &&
    (NetInfo.lastFor (NetInfo.Key.matches .netmask) vars).isSome)

structure Settled (b : Build) (file : Option (List NetInfoFile.Var)) (ws : List Str)
    (s s' : Line) : Prop where
  text : ∀ f, s'.text f =
    fileText file f (lastSet (wordSets b (fun w a => a.setsText w f)) (s.text f) ws)
  isSet : ∀ f, s'.isSet f = lastSet (wordSets b (fun w a => a.marks w f)) (s.isSet f) ws
  number : ∀ n, s'.number n =
    fileNumber b file n (lastSet (wordSets b (fun w a => a.setsNumber b w n)) (s.number n) ws)
  ksFile : s'.scan.ksFile = lastSet (wordSets b (fun w a => a.setsKsFile w)) s.scan.ksFile ws
  instRepo : s'.scan.loaderData.instRepo =
    lastSet (wordSets b (fun w a => a.setsRepo w)) s.scan.loaderData.instRepo ws
  flag : ∀ f, Lasting f → s'.flags.has f =
    (lastSet (wordSets b (fun w a => a.setsFlag w f)) (s.flags.has f) ws ||
      (f = .haveCmsconf && fileConf file))

theorem keyField_key {f : Field} {k : NetInfo.Key} (h : f.key = some k) : keyField k = f := by
  cases f <;> cases h <;> rfl

theorem readNetInfo_settled {parsed : Line} {net : NetInfo.NetData × Bool}
    (h : NetInfo.readNetInfo b directory (netData parsed) (parsed.flags.has .haveCmsconf) =
      some net) :
    (∀ f, (withNet parsed net).text f = fileText (netVars directory) f (parsed.text f)) ∧
      (∀ n, (withNet parsed net).number n =
        fileNumber b (netVars directory) n (parsed.number n)) ∧
      ∀ f, (withNet parsed net).flags.has f =
        (parsed.flags.has f || (f = .haveCmsconf && fileConf (netVars directory))) := by
  unfold NetInfo.readNetInfo at h
  unfold netVars
  cases hfile : directory.bind (fun entries =>
      (entries.find? (fun e => (ascii "ifcfg-").isPrefixOf e.1)).bind Prod.snd) with
  | none =>
    simp only [hfile, Option.some.injEq] at h
    subst h
    refine ⟨fun f => ?_, fun n => ?_, fun f => ?_⟩
    · cases hk : f.key with
      | none => simp [withNet, hk, fileText]
      | some k => simp [withNet, hk, fileText, netData, keyField_key hk]
    · by_cases hn : n = .mtu <;> simp [withNet, netData, fileNumber, hn]
    · cases hconf : parsed.flags.has .haveCmsconf with
      | false => simp [withNet, fileConf]
      | true =>
        by_cases hf : f = .haveCmsconf <;> simp [withNet, hconf, fileConf, hf]
  | some text =>
    simp only [hfile] at h
    obtain ⟨d', hd', rfl⟩ := Option.map_eq_some_iff.mp h
    obtain ⟨htext, hmtu, -⟩ := NetInfo.foldlM_storeVar hd'
    refine ⟨fun f => ?_, fun n => ?_, fun f => ?_⟩
    · cases hk : f.key with
      | none => simp [withNet, hk, fileText]
      | some k =>
        simp only [withNet, hk, fileText, Option.map_some, Option.getD_some, htext,
          NetInfo.NetData.clear, netData, keyField_key hk]
    · by_cases hn : n = .mtu
      · subst hn
        simp [withNet, fileNumber, hmtu, NetInfo.NetData.clear, netData]
      · simp [withNet, fileNumber, hn]
    · have hset : ∀ k, k ≠ .hostname → d'.text k = NetInfo.lastFor k.matches
          ((LineBuffer.pieces (NetInfo.bufsiz - 1) [] text).filterMap NetInfo.assignment) := by
        intro k hk
        rw [htext, NetInfo.NetData.clear]
        dsimp only
        rw [if_neg hk, Option.or_none]
      simp only [withNet, fileConf, Option.map_some, Option.any_some,
        ← hset .ipv4 (by decide), ← hset .netmask (by decide)]
      cases hconf : parsed.flags.has .haveCmsconf <;>
        cases hboth : (d'.text .ipv4).isSome && (d'.text .netmask).isSome <;>
          by_cases hf : f = .haveCmsconf <;> simp [hf, hconf]

theorem parseCmdLineFlags_cases (h : parseCmdLineFlags b directory s words = some s') :
    (words = none ∧ s' = s.setFlag .graphical) ∨
      ∃ ws parsed net, words = some ws ∧
        ws.foldlM (parseWord b) (s.setFlag .graphical) = some parsed ∧
        NetInfo.readNetInfo b directory (netData parsed) (parsed.flags.has .haveCmsconf) =
          some net ∧ s' = withNet parsed net := by
  cases words with
  | none =>
    cases h
    exact .inl ⟨rfl, rfl⟩
  | some ws =>
    obtain ⟨parsed, hparsed, h⟩ := Option.bind_eq_some_iff.mp h
    obtain ⟨net, hnet, h⟩ := Option.bind_eq_some_iff.mp h
    cases h
    exact .inr ⟨ws, parsed, net, rfl, hparsed, hnet, rfl⟩

/-- Graphics is the default, and the last word that speaks of it decides. The network is asked for
by a word that is passed on, and a remote kickstart file counts only in front of such a word. -/
theorem parseCmdLineFlags_passed (hroom : Room b s (words.getD []))
    (h : parseCmdLineFlags b directory s words = some s') :
    s'.flags.has .graphical = lastSet (setsGraphical b) true (words.getD []) ∧
      (s'.flags.has .earlyNetworking = true ↔ s.flags.has .earlyNetworking = true ∨
        ∃ before w after, words.getD [] = before ++ w :: after ∧ asksNetwork b
          (lastSet (wordSets b (fun w a => a.setsKsFile w)) s.scan.ksFile before) w = true) := by
  have hstart : Room b (s.setFlag .graphical) (words.getD []) := hroom
  have hwords : ∃ parsed, (words.getD []).foldlM (parseWord b) (s.setFlag .graphical) =
      some parsed ∧ s'.flags.has .graphical = parsed.flags.has .graphical ∧
        s'.flags.has .earlyNetworking = parsed.flags.has .earlyNetworking := by
    rcases parseCmdLineFlags_cases h with ⟨rfl, rfl⟩ | ⟨ws, parsed, net, rfl, hparsed, hnet, rfl⟩
    · exact ⟨_, rfl, rfl, rfl⟩
    · obtain ⟨-, -, hflag⟩ := readNetInfo_settled hnet
      exact ⟨parsed, hparsed, by simp [hflag], by simp [hflag]⟩
  obtain ⟨parsed, hparsed, hg, he⟩ := hwords
  have hgraphical := parseWords_graphical hstart hparsed
  have hearly := parseWords_early hstart hparsed
  rw [Line.setFlag, has_set] at hgraphical hearly
  constructor
  · rw [hg, hgraphical]
    simp
  · rw [he, hearly]
    simp

def unset : Line :=
  ⟨⟨.initial, none, List.replicate MAX_EXTRA_ARGS none, 0⟩, 0, fun _ => none, fun _ => false,
    fun _ => 0, [], none, none⟩

def cmdline : List Str :=
  ["text", "ksdevice=eth0", "lowres", "ks=http://host/ks.cfg", "mpath", "ksdevice=eth1",
    "dns=10.0.0.1", "gateway=10.0.0.2"].map ascii

def scripts : Option (List (Str × Option Str)) :=
  some [(ascii "ifcfg-eth0", some (ascii "IPADDR=10.0.0.9\nDNS=10.0.0.8\n"))]

theorem parseCmdLineFlags_passed_cmdline :
    ∃ s', parseCmdLineFlags ⟨true, 64⟩ scripts unset (some cmdline) = some s' ∧
      s'.flags.has .graphical = false ∧ s'.flags.has .earlyNetworking = true := by
  have hsome : (parseCmdLineFlags ⟨true, 64⟩ scripts unset (some cmdline)).isSome = true := by
    decide +kernel
  obtain ⟨s', h⟩ := Option.isSome_iff_exists.mp hsome
  have hroom : Room ⟨true, 64⟩ unset ((some cmdline).getD []) := by
    unfold Room
    decide +kernel
  have hpassed := parseCmdLineFlags_passed hroom h
  refine ⟨s', h, ?_, ?_⟩
  · rw [hpassed.1]
    decide +kernel
  · apply hpassed.2.mpr
    right
    exact ⟨cmdline.take 4, ascii "mpath", cmdline.drop 5, by decide +kernel, by decide +kernel⟩

end Function

end Comodoo.LoaderCommandLine
