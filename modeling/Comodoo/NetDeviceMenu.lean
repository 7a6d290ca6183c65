import Comodoo.LoaderArgs
import Comodoo.ParallelSort
import Comodoo.VersionCompare

set_option autoImplicit false

/-!
# Choosing a network device

`chooseNetworkInterface` of `stage-1/net.c`. The names of the devices and the texts of the menu are
two arrays, and each is sorted for itself. The interface's hardware address, its link status and
`qsort` are parameters.
-/
namespace Comodoo.NetDeviceMenu
open CString LoaderArgs VersionCompare ComparisonSort ParallelSort

/-- `struct device` of `isys/devices.h`. -/
structure Device where
  device : Option Str
  description : Option Str
  deriving DecidableEq, Repr

/-- What the command line says about the device. -/
structure Wanted where
  netDev : Option Str
  netDevSet : Bool
  bootIf : Option Str
  bootIfSet : Bool
  deriving DecidableEq, Repr

/-- The local variables of the loop over the devices; `netDev` is the field of `loaderData`. -/
structure Listing where
  devices : List Str
  deviceNames : List Str
  foundDev : Bool
  netDev : Option Str
  deriving DecidableEq, Repr

inductive Outcome where
  | error
  | noop (netDev : Option Str)
  | back
  | ok (netDev : Str)
  deriving DecidableEq, Repr

structure MenuAnswer where
  rc : ℕ
  deviceNum : ℕ
  deriving DecidableEq, Repr

def str2upper (s : Str) : Str := s.map (fun b => if 0x61 ≤ b ∧ b ≤ 0x7a then b - 0x20 else b)

def ksMacAddr (w : Wanted) : Option Str :=
  if w.netDevSet then
    w.netDev.map (fun netDev =>
      match w.bootIf with
      | some bootIf =>
        if w.bootIfSet ∧ sameCase netDev (ascii "bootif") then str2upper bootIf
        else str2upper netDev
      | none => str2upper netDev)
  else none

/-- `"%s - %.50s"`, or the name where there is no description. -/
def label (device : Str) (description : Option Str) : Str :=
  match description with
  | some description => device ++ ascii " - " ++ description.take 50
  | none => device

def listDevices (mac2str : Str → Option Str) (w : Wanted) : List Device → Listing → Listing
  | [], s => s
  | dev :: devs, s =>
    match dev.device with
    | none => listDevices mac2str w devs s
    | some device =>
      let s := { s with
        devices := s.devices ++ [device],
        deviceNames := s.deviceNames ++ [label device dev.description] }
      if s.netDev.isSome ∧ w.netDevSet then
        if s.netDev = some device then listDevices mac2str w devs { s with foundDev := true }
        else if (ksMacAddr w).isSome ∧ mac2str device = ksMacAddr w then
          { s with foundDev := true, netDev := some device }
        else listDevices mac2str w devs s
      else listDevices mac2str w devs s

/-- The first device with link, in five rounds. -/
def firstLink (getLinkStatus : ℕ → Str → ℤ) (devices : List Str) : Option Str :=
  (List.range 5).findSome? (fun rc => devices.find? (fun device => getLinkStatus rc device = 1))

/-- The answer that ends the menu; `Identify` is 2 and shows it again. -/
def askMenu (devices : List Str) : List MenuAnswer → Option Outcome
  | [] => none
  | answer :: answers =>
    if answer.rc = 2 then askMenu devices answers
    else if answer.rc = 3 then some .back
    else (devices[answer.deviceNum]?).map .ok

def chooseNetworkInterface (qsort : (Str → Str → ℤ) → List Str → List Str)
    (mac2str : Str → Option Str) (getLinkStatus : ℕ → Str → ℤ) (w : Wanted)
    (devs : Option (List Device)) (answers : List MenuAnswer) : Option Outcome :=
  match devs with
  | none => some .error
  | some devs =>
    let s := listDevices mac2str w devs ⟨[], [], false, w.netDev⟩
    if s.foundDev then some (.noop s.netDev)
    else
      let devices := qsort simpleStringCmp s.devices
      if devices.length = 0 then some .error
      else if devices.length = 1 then some (.noop devices.head?)
      else
        let linked := firstLink getLinkStatus devices
        if s.netDev = some (ascii "link") ∧ w.netDevSet ∧ linked.isSome then some (.noop linked)
        else askMenu devices answers

/-- A device of the menu: its name and what is known about it. -/
abbrev Named := Str × Option Str

def namedDevices (devs : List Device) : List Named :=
  devs.filterMap (fun dev => dev.device.map (fun device => (device, dev.description)))

def labelOf (dev : Named) : Str := label dev.1 dev.2

/-- The devices of the machine; no two have the same name. -/
structure NetDevices where
  devs : List Device
  nodup : ((namedDevices devs).map Prod.fst).Nodup

def menuTexts (qsort : (Str → Str → ℤ) → List Str → List Str) (net : NetDevices) : List Str :=
  qsort simpleStringCmp ((namedDevices net.devs).map labelOf)

def menuDevices (qsort : (Str → Str → ℤ) → List Str → List Str) (net : NetDevices) : List Str :=
  qsort simpleStringCmp ((namedDevices net.devs).map Prod.fst)

/-- At every place of the menu stands the text of the device at that place. -/
def LabelsFollow (qsort : (Str → Str → ℤ) → List Str → List Str) (net : NetDevices) : Prop :=
  ∀ (i : ℕ) (device text : Str), (menuDevices qsort net)[i]? = some device →
    (menuTexts qsort net)[i]? = some text →
    ∃ dev ∈ namedDevices net.devs, dev.1 = device ∧ labelOf dev = text

/-- What the two sorted arrays must have in common: they are the same, all texts are, or the texts
are in the strict order of the names. -/
def SortedAlike (net : NetDevices) : Prop :=
  (namedDevices net.devs).map Prod.fst = (namedDevices net.devs).map labelOf ∨
    (∀ dev ∈ namedDevices net.devs, ∀ dev' ∈ namedDevices net.devs, labelOf dev = labelOf dev') ∨
    Agreeing simpleStringCmp Prod.fst labelOf (namedDevices net.devs)

section Runs
variable {qsort : (Str → Str → ℤ) → List Str → List Str} {mac2str : Str → Option Str}
  {getLinkStatus : ℕ → Str → ℤ} {w : Wanted} {answers : List MenuAnswer}

theorem listDevices_arrays (devs : List Device) (s : Listing)
    (hfound : (listDevices mac2str w devs s).foundDev = false) :
    (listDevices mac2str w devs s).devices = s.devices ++ (namedDevices devs).map Prod.fst ∧
      (listDevices mac2str w devs s).deviceNames =
        s.deviceNames ++ (namedDevices devs).map labelOf := by
  induction devs generalizing s with
  | nil => simp [listDevices, namedDevices]
  | cons dev devs ih =>
    rw [listDevices] at hfound ⊢
    cases hdev : dev.device with
    | none =>
      rw [hdev] at hfound
      simpa [namedDevices, hdev] using ih s hfound
    | some device =>
      have hlabel : labelOf (device, dev.description) = label device dev.description := rfl
      have hnamed : namedDevices (dev :: devs) = (device, dev.description) :: namedDevices devs := by
        simp [namedDevices, hdev]
      rw [hdev] at hfound
      rw [hnamed]
      dsimp only at hfound ⊢
      split_ifs at hfound ⊢
      · simpa [hlabel] using ih _ hfound
      · simpa [hlabel] using ih _ hfound
      · simpa [hlabel] using ih _ hfound

theorem askMenu_ok {devices : List Str} {netDev : Str}
    (hask : askMenu devices answers = some (.ok netDev)) :
    ∃ answer ∈ answers, devices[answer.deviceNum]? = some netDev := by
  induction answers with
  | nil => cases hask
  | cons answer answers ih =>
    rw [askMenu] at hask
    split_ifs at hask
    · obtain ⟨later, hlater, hdevice⟩ := ih hask
      exact ⟨later, List.mem_cons_of_mem answer hlater, hdevice⟩
    · cases hask
    · obtain ⟨device, hdevice, heq⟩ := Option.map_eq_some_iff.mp hask
      cases heq
      exact ⟨answer, List.mem_cons_self, hdevice⟩

theorem chooseNetworkInterface_ok {net : NetDevices} {netDev : Str}
    (hok : chooseNetworkInterface qsort mac2str getLinkStatus w (some net.devs) answers =
      some (.ok netDev)) :
    ∃ answer ∈ answers, (menuDevices qsort net)[answer.deviceNum]? = some netDev := by
  rw [chooseNetworkInterface] at hok
  dsimp only at hok
  split_ifs at hok with hfound hzero hone hlink
  · cases hok
  · cases hok
  · cases hok
  · cases hok
  · have harrays := listDevices_arrays net.devs ⟨[], [], false, w.netDev⟩
      (Bool.not_eq_true _ ▸ hfound)
    rw [harrays.1] at hok
    exact askMenu_ok hok

/-- Where the texts follow the devices, it is the one whose text stands there. -/
theorem chooseNetworkInterface_follows {net : NetDevices} {netDev : Str} (hsort : Sorts qsort)
    (hfollow : LabelsFollow qsort net)
    (hok : chooseNetworkInterface qsort mac2str getLinkStatus w (some net.devs) answers =
      some (.ok netDev)) :
    ∃ answer ∈ answers, ∃ dev ∈ namedDevices net.devs, dev.1 = netDev ∧
      (menuTexts qsort net)[answer.deviceNum]? = some (labelOf dev) := by
  obtain ⟨answer, hanswer, hdevice⟩ := chooseNetworkInterface_ok hok
  have hlen : (menuDevices qsort net).length = (menuTexts qsort net).length := by
    rw [menuDevices, menuTexts, (hsort.perm _ _).length_eq, (hsort.perm _ _).length_eq,
      List.length_map, List.length_map]
  have hplace : answer.deviceNum < (menuTexts qsort net).length := by
    rw [← hlen]
    exact (List.getElem?_eq_some_iff.mp hdevice).1
  have htext := List.getElem?_eq_getElem hplace
  obtain ⟨dev, hdev, hname, hlabel⟩ := hfollow _ _ _ hdevice htext
  exact ⟨answer, hanswer, dev, hdev, hname, by rw [htext, hlabel]⟩

end Runs

/-- Whatever order `qsort` may leave the arrays in, the menu shows every device under its own
text. -/
theorem labelsFollow_iff (net : NetDevices) :
    (∀ qsort, Sorts qsort → LabelsFollow qsort net) ↔ SortedAlike net :=
  follows_iff net.nodup

/-- `eth0` and `eth0A`, described as `isys/devices.c` does it. -/
def twoCards : NetDevices where
  devs := [⟨some (ascii "eth0"), some (ascii "Ethernet device eth0")⟩,
    ⟨some (ascii "eth0A"), some (ascii "Ethernet device eth0A")⟩]
  nodup := by decide +kernel

theorem twoCards_not_follow : ¬ ∀ net qsort, Sorts qsort → LabelsFollow qsort net := by
  intro hall
  have hcards : namedDevices twoCards.devs = [(ascii "eth0", some (ascii "Ethernet device eth0")),
      (ascii "eth0A", some (ascii "Ethernet device eth0A"))] := by decide +kernel
  have hnames : simpleStringCmp (ascii "eth0") (ascii "eth0A") = -1 := by decide +kernel
  have htexts : simpleStringCmp (labelOf (ascii "eth0", some (ascii "Ethernet device eth0")))
      (labelOf (ascii "eth0A", some (ascii "Ethernet device eth0A"))) = 1 := by decide +kernel
  have hdifferent : labelOf (ascii "eth0", some (ascii "Ethernet device eth0")) ≠
      labelOf (ascii "eth0A", some (ascii "Ethernet device eth0A")) := by decide +kernel
  have halike := (follows_iff twoCards.nodup).mp (hall twoCards)
  rw [hcards] at halike
  rcases halike with hsame | hsame | hagree
  · exact absurd hsame (by decide +kernel)
  · exact hdifferent (hsame _ (by simp) _ (by simp))
  · have hstrict := hagree.strict (ascii "eth0", some (ascii "Ethernet device eth0")) (by simp)
      (ascii "eth0A", some (ascii "Ethernet device eth0A")) (by simp)
    rw [hnames, htexts] at hstrict
    rcases hstrict with heq | hneg | hpos
    · exact hdifferent heq
    · exact absurd hneg.2 (by decide)
    · exact absurd hpos.1 (by decide)

end Comodoo.NetDeviceMenu
