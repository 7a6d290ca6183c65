import Comodoo.DecimalText
import Comodoo.LoaderSettings

set_option autoImplicit false

/-!
# Arguments for the second stage

`parseCmdLineFlags` of `stage-1/loader.c` collects the words it does not know in `extraArgs`,
and `main` builds `anacondaArgs` from them, the flags and the settings. The flags that
`parseCmdLineFlags` sets are left out: `main` may meet any of them.
-/
namespace Comodoo.LoaderArgs
open CString DecimalText LoaderSettings

abbrev MAX_EXTRA_ARGS : ℕ := 128
abbrev ANACONDA_ARGS : ℕ := 50
abbrev equals : UInt8 := 0x3d

def tolower (b : UInt8) : UInt8 := if 0x41 ≤ b ∧ b ≤ 0x5a then b + 0x20 else b

/-- `!strncasecmp(a, b, n)`. -/
def sameCaseUpto (n : ℕ) (a b : Str) : Bool := sameUpto n (a.map tolower) (b.map tolower)

/-- `!strcasecmp(a, b)`. -/
def sameCase (a b : Str) : Bool := a.map tolower = b.map tolower

/-- A condition of the chain. -/
inductive Test where
  | word (name : String)
  | start (n : ℕ) (name : String)
  | longer (n : ℕ) (name : String)
  | bootif
  deriving DecidableEq, Repr

def Test.holds (w : Str) : Test → Bool
  | .word name => sameCase w (ascii name)
  | .start n name => sameCaseUpto n w (ascii name)
  | .longer n name => sameCaseUpto n w (ascii name) && n < w.length
  | .bootif => sameUpto 7 w (ascii "BOOTIF=")

/-- What a branch does besides its flags. -/
inductive Effect where
  | flags
  | keymap
  | repo (offset : ℕ)
  | stage2
  | ksFile
  | number (offset : ℕ)
  deriving DecidableEq, Repr

def ipv6Branch (b : Build) (t : Test) : List (Test × Effect) :=
  if b.ipv6 then [(t, .flags)] else []

def flagWords (names : List String) : List (Test × Effect) :=
  names.map (fun name => (Test.word name, Effect.flags))

/-- The branches in front of the one for `extraArgs`, in the order they are tried. -/
def branches (b : Build) : List (Test × Effect) := List.flatten [
  flagWords ["askmethod", "asknetwork", "noshell", "mediacheck", "allowwireless", "telnet",
    "inter", "noprobe", "text", "graphical", "cmdline"],
  [(.start 8 "updates=", .flags), (.start 7 "updates", .flags), (.start 8 "dogtail=", .flags),
    (.start 3 "dd=", .flags), (.start 11 "driverdisk=", .flags)],
  flagWords ["dd", "driverdisk", "rescue", "nopass", "serial", "noipv4"],
  ipv6Branch b (.word "noipv6"),
  flagWords ["kssendmac", "nousbstorage", "nousb", "nofirewire"],
  [(.start 9 "loglevel=", .flags), (.start 9 "ksdevice=", .flags), (.bootif, .flags),
    (.start 10 "dhcpclass=", .flags), (.word "ks", .ksFile), (.start 3 "ks=", .ksFile),
    (.start 8 "display=", .flags), (.longer 5 "lang=", .flags), (.longer 7 "keymap=", .keymap),
    (.start 7 "method=", .repo 7), (.start 5 "repo=", .repo 5), (.start 7 "stage2=", .stage2),
    (.start 9 "hostname=", .flags), (.start 3 "ip=", .flags)],
  ipv6Branch b (.start 5 "ipv6="),
  [(.start 8 "netmask=", .flags), (.start 8 "gateway=", .flags), (.start 4 "dns=", .flags),
    (.start 8 "ethtool=", .flags), (.start 6 "essid=", .flags), (.start 4 "mtu=", .number 4),
    (.start 7 "wepkey=", .flags), (.start 10 "linksleep=", .number 10),
    (.start 9 "nicdelay=", .number 9), (.start 12 "dhcptimeout=", .number 12),
    (.start 9 "selinux=0", .flags), (.start 7 "selinux", .flags), (.start 4 "gdb=", .flags)]]

/-- The words that go on to anaconda. The lengths given with "mpath" and "nompath" reach their
terminators. -/
def passTests : List Test :=
  [.start 11 "resolution=", .start 6 "lowres", .start 7 "nomount", .start 3 "vnc",
    .start 11 "vncconnect=", .start 8 "headless", .start 6 "usefbx", .start 6 "mpath",
    .start 8 "nompath", .start 6 "dmraid", .start 8 "nodmraid", .start 8 "xdriver=",
    .start 4 "vesa", .start 7 "syslog="]

/-- `none` is the comparison with NULL where the word was not spelled `ks=`. -/
def isKickstartFileRemote (ksFile : Option Str) : Option Bool :=
  match ksFile with
  | none => some false
  | some w =>
    if sameUpto 3 w (ascii "ks=") then
      let location := w.drop 3
      some (sameUpto 2 location (ascii "ks") || sameUpto 7 location (ascii "http://") ||
        sameUpto 6 location (ascii "ftp://") || sameUpto 4 location (ascii "nfs:"))
    else none

/-- The part of the loop's state that is read again. -/
structure Scan where
  loaderData : LoaderData
  ksFile : Option Str
  extraArgs : List (Option Str)
  numExtraArgs : ℕ
  deriving DecidableEq, Repr

def extraArg (w : Str) : Str :=
  if sameCaseUpto 4 w (ascii "vesa") then ascii "--xdriver=vesa" else ascii "--" ++ w

/-- The last branch. -/
def addExtraArg (s : Scan) (w : Str) : Option Scan :=
  if s.numExtraArgs < MAX_EXTRA_ARGS - 1 then
    -- "vncpassword=" goes into a file
    if sameCaseUpto 12 w (ascii "vncpassword=") then some s
    else if passTests.any (Test.holds w) then
      let early := if sameCaseUpto 6 w (ascii "syslog") || sameCaseUpto 3 w (ascii "vnc") then
        some true else isKickstartFileRemote s.ksFile
      early.map (fun _ => { s with
        extraArgs := s.extraArgs.set s.numExtraArgs (some (extraArg w)),
        numExtraArgs := s.numExtraArgs + 1 })
    else some s
  else some s

def settle (s : Scan) (st : Setting) : Option Scan :=
  (applySetting s.loaderData st).map (fun ld => { s with loaderData := ld })

/-- One word; `none` is a fault or an `abort`. -/
def parseWord (b : Build) (s : Scan) (w : Str) : Option Scan :=
  match (branches b).find? (fun t => t.1.holds w) with
  | some (_, .flags) => some s
  | some (_, .keymap) => settle s (.keymap (w.drop 7))
  | some (_, .repo offset) => settle s (.repo (w.drop offset))
  | some (_, .stage2) => settle s (.stage2 (w.drop 7))
  | some (_, .ksFile) => some { s with ksFile := some w }
  | some (_, .number offset) => if numberAborts b.longBits (w.drop offset) then none else some s
  | none => addExtraArg s w

def parseWords (b : Build) (s : Scan) : List Str → Option Scan
  | [] => some s
  | w :: ws => (parseWord b s w).bind (fun s => parseWords b s ws)

/-- `extraArgs` on return. Without a command line, or with one that `poptParseArgvString`
refuses, the function returns at once. -/
def parseCmdLineFlags (b : Build) (words : Option (List Str)) : Option (List (Option Str)) :=
  let start : Scan := ⟨.initial, none, List.replicate MAX_EXTRA_ARGS none, 0⟩
  match words with
  | none => some start.extraArgs
  | some ws => (parseWords b start ws).map (fun s => s.extraArgs.set s.numExtraArgs none)

/-- What `main` looks at when it builds the arguments. -/
structure MainData where
  /-- `anaconda` in the first directory of `PATH` that has it -/
  anaconda : Option Str
  url : Str
  noipv4 : Bool
  noipv6 : Bool
  kickstart : Bool
  serial : Bool
  rescue : Bool
  text : Bool
  graphical : Bool
  cmdline : Bool
  selinux : Bool
  virtpconsole : Bool
  updates : Bool
  nopass : Bool
  ksFile : Option Str
  virtpcon : Option Str
  updatessrc : Option Str
  dogtailurl : Option Str
  lang : Option Str
  kbd : Option Str
  logLevel : Option Str
  instRepo : Option Str
  deriving DecidableEq, Repr

/-- An address with a password is handed on in a file. -/
def viaFile (url : Str) (file : String) : Str :=
  if sameUpto 4 url (ascii "ftp:") then ascii file else url

/-- The loop over `extraArgs`. -/
def extraEntries : List (Option Str) → List (Option Str)
  | [] => []
  | none :: _ => []
  | some w :: rest =>
    match strchr equals w with
    | some (name, value) => some name :: some value :: extraEntries rest
    | none => some w :: extraEntries rest

/-- A flag by itself, and an option that takes a value. -/
def flag (c : Bool) (name : String) : List (Option Str) := if c then [some (ascii name)] else []

def option (c : Bool) (name : String) (value : Option Str) : List (Option Str) :=
  if c then [some (ascii name), value] else []

/-- What is added outside rescue mode. -/
def installEntries (m : MainData) : List (Option Str) :=
  (if m.text then [some (ascii "-T")] else flag m.graphical "--graphical") ++
  flag m.cmdline "-C" ++
  (if m.selinux then [some (ascii "--selinux")] else [some (ascii "--noselinux")]) ++
  option m.virtpconsole "--virtpconsole" m.virtpcon ++
  option (m.updatessrc.isSome && m.updates) "--updates" m.updatessrc ++
  option m.dogtailurl.isSome "--dogtail" m.dogtailurl ++
  option (m.lang.isSome && !m.nopass) "--lang" m.lang ++
  option (m.kbd.isSome && !m.nopass) "--keymap" m.kbd ++
  option m.logLevel.isSome "--loglevel" m.logLevel ++
  option m.instRepo.isSome "--repo" (m.instRepo.map (fun repo => viaFile repo "@/tmp/ftp-repo"))

/-- The pointers written through `argptr`, the last NULL included. -/
def anacondaArgs (b : Build) (m : MainData) (extraArgs : List (Option Str)) : List (Option Str) :=
  m.anaconda.toList.map some ++
  [some (ascii "--stage2"), some (viaFile m.url "@/tmp/ftp-stage2")] ++
  extraEntries extraArgs ++
  flag m.noipv4 "--noipv4" ++
  flag (b.ipv6 && m.noipv6) "--noipv6" ++
  option m.kickstart "--kickstart" m.ksFile ++
  flag m.serial "--serial" ++
  (if m.rescue then [some (ascii "--rescue")] else installEntries m) ++
  [none]

section Collect

variable {b : Build} {s s' : Scan} {w : Str}

def passedOn (b : Build) (w : Str) : Bool :=
  ((branches b).find? (fun t => t.1.holds w)).isNone &&
    !sameCaseUpto 12 w (ascii "vncpassword=") && passTests.any (Test.holds w)

/-- `xs` are the entries so far; all slots behind them are NULL. -/
structure Holds (s : Scan) (xs : List Str) : Prop where
  slots : s.extraArgs = xs.map some ++ List.replicate (MAX_EXTRA_ARGS - xs.length) none
  count : s.numExtraArgs = xs.length
  room : xs.length ≤ MAX_EXTRA_ARGS - 1

theorem Holds.of_same {xs : List Str} (h : Holds s xs) (hslots : s'.extraArgs = s.extraArgs)
    (hcount : s'.numExtraArgs = s.numExtraArgs) : Holds s' xs :=
  ⟨hslots.trans h.slots, hcount.trans h.count, h.room⟩

theorem Holds.set {xs : List Str} (h : Holds s xs) (hlt : s.numExtraArgs < MAX_EXTRA_ARGS - 1)
    (x : Str) :
    Holds { s with
      extraArgs := s.extraArgs.set s.numExtraArgs (some x), numExtraArgs := s.numExtraArgs + 1 }
      (xs ++ [x]) := by
  have hc := h.count
  have hroom : MAX_EXTRA_ARGS - xs.length = (MAX_EXTRA_ARGS - (xs.length + 1)) + 1 := by
    simp only [MAX_EXTRA_ARGS] at hlt ⊢
    omega
  constructor
  · simp only [h.slots, hc, hroom, List.replicate_succ, List.map_append, List.map_cons,
      List.map_nil, List.length_append, List.length_singleton, List.append_assoc]
    rw [List.set_append_right _ _ (by simp)]
    simp
  · simp [hc]
  · rw [List.length_append, List.length_singleton]
    omega

theorem addExtraArg_holds {xs : List Str} (h : Holds s xs) (hadd : addExtraArg s w = some s') :
    ∃ ys, Holds s' ys ∧ ys = (xs ++ (if !sameCaseUpto 12 w (ascii "vncpassword=") &&
      passTests.any (Test.holds w) then [extraArg w] else [])).take (MAX_EXTRA_ARGS - 1) := by
  have htake : xs.take (MAX_EXTRA_ARGS - 1) = xs := List.take_of_length_le h.room
  have hc := h.count
  unfold addExtraArg at hadd
  split at hadd
  · rename_i hlt
    split at hadd
    · rename_i hvnc
      cases hadd
      exact ⟨xs, h, by rw [if_neg (by simp [hvnc]), List.append_nil, htake]⟩
    · rename_i hvnc
      split at hadd
      · rename_i hpass
        obtain ⟨_, -, rfl⟩ := Option.map_eq_some_iff.mp hadd
        refine ⟨_, h.set hlt (extraArg w), ?_⟩
        rw [if_pos (by simp [hvnc, hpass]), List.take_of_length_le]
        rw [List.length_append, List.length_singleton]
        omega
      · rename_i hpass
        cases hadd
        exact ⟨xs, h, by rw [if_neg (by simp [hpass]), List.append_nil, htake]⟩
  · rename_i hlt
    cases hadd
    refine ⟨xs, h, ?_⟩
    have hlen : xs.length = MAX_EXTRA_ARGS - 1 := by
      have := h.room
      omega
    rw [← hlen, List.take_left]

theorem parseWord_holds {xs : List Str} (h : Holds s xs) (hw : parseWord b s w = some s') :
    ∃ ys, Holds s' ys ∧
      ys = (xs ++ (if passedOn b w then [extraArg w] else [])).take (MAX_EXTRA_ARGS - 1) := by
  have htake : xs.take (MAX_EXTRA_ARGS - 1) = xs := List.take_of_length_le h.room
  have hsettle : ∀ st, settle s st = some s' → Holds s' xs := by
    intro st hst
    obtain ⟨ld, -, rfl⟩ := Option.map_eq_some_iff.mp hst
    exact h.of_same rfl rfl
  cases hf : (branches b).find? (fun t => t.1.holds w) with
  | none =>
    rw [parseWord, hf] at hw
    have hpass : passedOn b w = (!sameCaseUpto 12 w (ascii "vncpassword=") &&
        passTests.any (Test.holds w)) := by simp [passedOn, hf]
    rw [hpass]
    exact addExtraArg_holds h hw
  | some t =>
    have hno : passedOn b w = false := by simp [passedOn, hf]
    refine ⟨xs, ?_, by rw [if_neg (by simp [hno]), List.append_nil, htake]⟩
    rw [parseWord, hf] at hw
    obtain ⟨t, e⟩ := t
    cases e with
    | flags => cases hw; exact h
    | keymap => exact hsettle _ hw
    | repo offset => exact hsettle _ hw
    | stage2 => exact hsettle _ hw
    | ksFile => cases hw; exact h.of_same rfl rfl
    | number offset =>
      simp only at hw
      split at hw
      · cases hw
      · cases hw; exact h

theorem take_append_take {α : Type} (n : ℕ) (l r : List α) :
    ((l.take n) ++ r).take n = (l ++ r).take n := by
  rcases Nat.le_total n l.length with hle | hle
  · rw [List.take_append_of_le_length (by simp [hle]), List.take_append_of_le_length hle,
      List.take_take, Nat.min_self]
  · rw [List.take_of_length_le hle]

def passedWords (b : Build) (ws : List Str) : List Str := (ws.filter (passedOn b)).map extraArg

theorem parseWords_holds {xs : List Str} {ws : List Str} (h : Holds s xs)
    (hw : parseWords b s ws = some s') :
    ∃ ys, Holds s' ys ∧ ys = (xs ++ passedWords b ws).take (MAX_EXTRA_ARGS - 1) := by
  induction ws generalizing s xs with
  | nil =>
    cases hw
    have hnil : passedWords b [] = [] := rfl
    exact ⟨xs, h, by rw [hnil, List.append_nil, List.take_of_length_le h.room]⟩
  | cons w ws ih =>
    obtain ⟨t, ht, hw⟩ := Option.bind_eq_some_iff.mp hw
    obtain ⟨zs, hz, rfl⟩ := parseWord_holds h ht
    obtain ⟨ys, hy, rfl⟩ := ih hz hw
    refine ⟨_, hy, ?_⟩
    have hcons : passedWords b (w :: ws) =
        (if passedOn b w then [extraArg w] else []) ++ passedWords b ws := by
      by_cases hp : passedOn b w = true
      · simp [passedWords, hp]
      · simp [passedWords, hp]
    rw [hcons, ← List.append_assoc]
    exact take_append_take _ _ _

/-- The words in `extraArgs`: the first 127 that are passed on, with NULL behind them. -/
theorem parseCmdLineFlags_eq {words : Option (List Str)} {slots : List (Option Str)}
    (h : parseCmdLineFlags b words = some slots) :
    ∃ xs, xs = (passedWords b (words.getD [])).take (MAX_EXTRA_ARGS - 1) ∧
      slots = xs.map some ++ none :: List.replicate (MAX_EXTRA_ARGS - 1 - xs.length) none := by
  cases words with
  | none => exact ⟨[], rfl, (Option.some.inj h).symm⟩
  | some ws => ?_
  obtain ⟨s, hs, rfl⟩ := Option.map_eq_some_iff.mp h
  have hstart : Holds ⟨.initial, none, List.replicate MAX_EXTRA_ARGS none, 0⟩ [] :=
    ⟨rfl, rfl, Nat.zero_le _⟩
  obtain ⟨ys, hy, rfl⟩ := parseWords_holds hstart hs
  rw [List.nil_append] at hy
  refine ⟨_, rfl, ?_⟩
  have hroom := hy.room
  rw [hy.count, hy.slots, Option.getD_some, List.set_append_right _ _ (by simp)]
  generalize (passedWords b ws).take (MAX_EXTRA_ARGS - 1) = xs at hroom ⊢
  have hpos : MAX_EXTRA_ARGS - xs.length = (MAX_EXTRA_ARGS - 1 - xs.length) + 1 := by
    simp only [MAX_EXTRA_ARGS] at hroom ⊢
    omega
  rw [hpos, List.length_map, Nat.sub_self, List.replicate_succ, List.set_cons_zero]

/-- NULL stands somewhere in the 128 slots. -/
def Terminated (slots : List (Option Str)) : Prop := slots.length = MAX_EXTRA_ARGS ∧ none ∈ slots

theorem extraArgs_terminated {words : Option (List Str)} {slots : List (Option Str)}
    (h : parseCmdLineFlags b words = some slots) : Terminated slots := by
  obtain ⟨xs, hxs, rfl⟩ := parseCmdLineFlags_eq h
  have hlen : xs.length ≤ MAX_EXTRA_ARGS - 1 := by
    rw [hxs, List.length_take]
    exact Nat.min_le_left _ _
  constructor
  · simp only [List.length_append, List.length_map, List.length_cons, List.length_replicate,
      MAX_EXTRA_ARGS] at hlen ⊢
    omega
  · exact List.mem_append_right _ List.mem_cons_self

end Collect

section Count

/-- The entries one passed word takes: `name=value` becomes two. -/
def wordEntries (w : Str) : ℕ :=
  if sameCaseUpto 4 w (ascii "vesa") ∨ equals ∈ w then 2 else 1

/-- The entries of the words passed on, of which only 127 are kept. -/
def passedEntries (b : Build) (ws : List Str) : ℕ :=
  (((ws.filter (passedOn b)).take (MAX_EXTRA_ARGS - 1)).map wordEntries).sum

/-- The entries the flags and settings ask for. -/
def optionEntries (b : Build) (m : MainData) : ℕ :=
  m.noipv4.toNat + (b.ipv6 && m.noipv6).toNat + 2 * m.kickstart.toNat + m.serial.toNat +
  if m.rescue then 1
  else 1 + (m.text || m.graphical).toNat + m.cmdline.toNat +
    2 * [m.virtpconsole, m.updatessrc.isSome && m.updates, m.dogtailurl.isSome,
      m.lang.isSome && !m.nopass, m.kbd.isSome && !m.nopass, m.logLevel.isSome,
      m.instRepo.isSome].count true

@[simp] theorem flag_length (c : Bool) (name : String) : (flag c name).length = c.toNat := by
  cases c <;> rfl

@[simp] theorem option_length (c : Bool) (name : String) (value : Option Str) :
    (option c name value).length = 2 * c.toNat := by
  cases c <;> rfl

theorem count_cons_toNat (c : Bool) (l : List Bool) :
    (c :: l).count true = c.toNat + l.count true := by
  cases c
  · simp
  · simp [Nat.add_comm]

theorem installEntries_length (m : MainData) :
    (installEntries m).length = 1 + (m.text || m.graphical).toNat + m.cmdline.toNat +
      2 * [m.virtpconsole, m.updatessrc.isSome && m.updates, m.dogtailurl.isSome,
        m.lang.isSome && !m.nopass, m.kbd.isSome && !m.nopass, m.logLevel.isSome,
        m.instRepo.isSome].count true := by
  have hmode : (if m.text then [some (ascii "-T")] else flag m.graphical "--graphical").length =
      (m.text || m.graphical).toNat := by
    cases m.text
    · simp
    · rfl
  have hselinux : (if m.selinux then [some (ascii "--selinux")]
      else [some (ascii "--noselinux")]).length = 1 := by
    cases m.selinux <;> rfl
  simp only [installEntries, List.length_append, hmode, hselinux, flag_length, option_length,
    count_cons_toNat, List.count_nil]
  omega

theorem equals_mem_extraArg (w : Str) :
    equals ∈ extraArg w ↔ sameCaseUpto 4 w (ascii "vesa") ∨ equals ∈ w := by
  unfold extraArg
  split
  · rename_i hv
    simp only [hv, true_or, iff_true]
    decide
  · rename_i hv
    have hdash : equals ∉ ascii "--" := by decide
    simp [hv, hdash]

theorem extraEntries_length (xs : List Str) (rest : List (Option Str)) :
    (extraEntries (xs.map (some ∘ extraArg) ++ none :: rest)).length = (xs.map wordEntries).sum := by
  induction xs with
  | nil => rfl
  | cons w xs ih =>
    rw [List.map_cons, List.cons_append, List.map_cons, List.sum_cons, Function.comp_apply,
      extraEntries]
    by_cases hw : equals ∈ extraArg w
    · obtain ⟨r, hr⟩ := Option.ne_none_iff_exists'.mp
        (fun h => (strchr_eq_none_iff _ _).mp h hw)
      rw [hr, wordEntries, if_pos ((equals_mem_extraArg w).mp hw)]
      simp only [List.length_cons, ih]
      omega
    · rw [(strchr_eq_none_iff _ _).mpr hw, wordEntries,
        if_neg (fun h => hw ((equals_mem_extraArg w).mpr h)), List.length_cons, ih]
      omega

variable {b : Build} {m : MainData} {words : Option (List Str)} {slots : List (Option Str)}

theorem anacondaArgs_length (h : parseCmdLineFlags b words = some slots) :
    (anacondaArgs b m slots).length =
      m.anaconda.toList.length + 3 + passedEntries b (words.getD []) + optionEntries b m := by
  obtain ⟨xs, hxs, rfl⟩ := parseCmdLineFlags_eq h
  have hextra : (extraEntries (xs.map some ++
      none :: List.replicate (MAX_EXTRA_ARGS - 1 - xs.length) none)).length =
      passedEntries b (words.getD []) := by
    rw [passedWords, ← List.map_take] at hxs
    rw [passedEntries, ← extraEntries_length, hxs, List.map_map]
  have hrescue : (if m.rescue then [some (ascii "--rescue")] else installEntries m).length =
      if m.rescue then 1 else (installEntries m).length := by
    cases m.rescue <;> rfl
  simp only [anacondaArgs, List.length_append, hextra, hrescue, flag_length, option_length,
    List.length_map, List.length_cons, List.length_nil, installEntries_length, optionEntries]
  omega

/-- The arguments fit exactly when the words passed on and the options leave room for each
other. -/
theorem anacondaArgs_fit_iff (b : Build) (m : MainData) (words : Option (List Str))
    (slots : List (Option Str)) (h : parseCmdLineFlags b words = some slots) :
    Terminated slots ∧ (anacondaArgs b m slots).length ≤ ANACONDA_ARGS ↔
      m.anaconda.toList.length + passedEntries b (words.getD []) + optionEntries b m ≤ 47 := by
  have hlen := anacondaArgs_length (m := m) h
  constructor
  · intro hfit
    have hle := hfit.2
    simp only [ANACONDA_ARGS] at hle
    omega
  · intro hle
    refine ⟨extraArgs_terminated h, ?_⟩
    simp only [ANACONDA_ARGS]
    omega

/-- A rescue run. -/
def rescueData : MainData where
  anaconda := some (ascii "/usr/bin/anaconda")
  url := ascii "http://h/i"
  noipv4 := false
  noipv6 := false
  kickstart := false
  serial := false
  rescue := true
  text := false
  graphical := true
  cmdline := false
  selinux := true
  virtpconsole := false
  updates := false
  nopass := false
  ksFile := none
  virtpcon := none
  updatessrc := none
  dogtailurl := none
  lang := none
  kbd := none
  logLevel := none
  instRepo := none

/-- One word on the command line besides `rescue`. -/
def lowresSlots : List (Option Str) :=
  some (ascii "--lowres") :: List.replicate 127 none

theorem anacondaArgs_fit_lowres :
    parseCmdLineFlags ⟨false, 64⟩ (some [ascii "rescue", ascii "lowres"]) = some lowresSlots ∧
      (anacondaArgs ⟨false, 64⟩ rescueData lowresSlots).length ≤ ANACONDA_ARGS := by
  have hparse : parseCmdLineFlags ⟨false, 64⟩ (some [ascii "rescue", ascii "lowres"]) =
      some lowresSlots := by decide +kernel
  exact ⟨hparse, ((anacondaArgs_fit_iff _ rescueData _ _ hparse).mpr (by decide +kernel)).2⟩

/-- Forty-seven short words. -/
def crowdedLine : List Str := ascii "rescue" :: List.replicate 47 (ascii "vnc")

theorem crowdedLine_overflows :
    ∃ slots, parseCmdLineFlags ⟨false, 64⟩ (some crowdedLine) = some slots ∧
      ANACONDA_ARGS < (anacondaArgs ⟨false, 64⟩ rescueData slots).length := by
  refine ⟨List.replicate 47 (some (ascii "--vnc")) ++ List.replicate 81 none, ?_, ?_⟩
  · decide +kernel
  · decide +kernel

end Count

end Comodoo.LoaderArgs
