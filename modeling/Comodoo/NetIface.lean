import Comodoo.InetText
import Comodoo.LoaderSettings

set_option autoImplicit false

/-!
# Network interfaces

The fields of `iface_t` of `isys/iface.h` that the loader's network dialogs and configuration
files use. A NULL string is `none`.
-/
namespace Comodoo.NetIface
open CString InetText

abbrev IPV4 : ℕ := 1
abbrev IPV6 : ℕ := 2

inductive Ipv4Method where
  | unused
  | dhcp
  | manual
  deriving DecidableEq, Repr

inductive Ipv6Method where
  | unused
  | auto
  | dhcp
  | manual
  deriving DecidableEq, Repr

abbrev MAXNS : ℕ := 3

structure Iface where
  device : Str
  ipaddr : InAddr
  netmask : InAddr
  broadcast : InAddr
  ip6addr : In6Addr
  ip6prefix : ℤ
  gateway : InAddr
  gateway6 : In6Addr
  dns : ℕ → Option Str
  numdns : ℕ
  hostname : Option Str
  domain : Option Str
  vendorclass : Option Str
  mtu : ℤ
  subchannels : Option Str
  portname : Option Str
  peerid : Option Str
  nettype : Option Str
  ctcprot : Option Str
  ipv4method : Ipv4Method
  ipv6method : Ipv6Method

/-- `iface_init_iface_t`. -/
def ifaceInit : Iface where
  device := []
  ipaddr := ⟨0, 0, 0, 0⟩
  netmask := ⟨0, 0, 0, 0⟩
  broadcast := ⟨0, 0, 0, 0⟩
  ip6addr := List.replicate 16 0
  ip6prefix := 0
  gateway := ⟨0, 0, 0, 0⟩
  gateway6 := List.replicate 16 0
  dns := fun _ => none
  numdns := 0
  hostname := none
  domain := none
  vendorclass := none
  mtu := 0
  subchannels := none
  portname := none
  peerid := none
  nettype := none
  ctcprot := none
  ipv4method := .unused
  ipv6method := .unused

/-- `iface_have_in_addr`. -/
def ifaceHaveInAddr (addr : InAddr) : Bool := (inetNtop4 addr).take 7 ≠ ascii "0.0.0.0"

/-- `iface_have_in6_addr`, with the text that `inet_ntop` gives. -/
def ifaceIn6Text (addr : In6Addr) : Option Str :=
  (inetNtop6 addr).filter (fun t => t.take 2 ≠ ascii "::")

/-- The byte order, and whether the processor takes `1 << 32` for `1 << 0`. C leaves it undefined;
where the count is not reduced the result is 0. -/
structure Machine where
  bigEndian : Bool
  reducesShift : Bool
  deriving DecidableEq, Repr

/-- `1 << n`. -/
def shiftOne (mc : Machine) (n : ℕ) : BitVec 32 :=
  if n < 32 then 1#32 <<< n
  else if mc.reducesShift then 1#32
  else 0#32

def addrOf (mask : BitVec 32) : InAddr :=
  ⟨(mask >>> 24).toNat.toUInt8, (mask >>> 16).toNat.toUInt8, (mask >>> 8).toNat.toUInt8,
    mask.toNat.toUInt8⟩

def ifacePrefix2netmask (mc : Machine) (n : ℕ) : InAddr :=
  addrOf (~~~(shiftOne mc (32 - n) - 1#32))

end Comodoo.NetIface
