import Comodoo.LineBuffer
import Comodoo.NetIface

set_option autoImplicit false

/-!
# Network configuration files

`writeEnabledNetInfo` of `stage-1/net.c`. Every line it prints is a variable and its value.
-/
namespace Comodoo.NetInfoFile
open CString DecimalText InetText NetIface LineBuffer LoaderSettings

abbrev equals : UInt8 := 0x3d

/-- The flags, what `iface_mac2str` returns and which of the system calls succeed. -/
structure WriteEnv where
  noipv4 : Bool
  noipv6 : Bool
  hwaddr : Option Str
  makesDirectory : Bool
  opensVendor : Bool
  closesVendor : Bool
  opens : Bool
  closes : Bool
  renames : Bool
  opensNetwork : Bool
  closesNetwork : Bool
  renamesNetwork : Bool
  deriving DecidableEq, Repr

abbrev Var := Str × Str

def body (v : Var) : Str := v.1 ++ equals :: v.2

/-- `fprintf(fp, "NAME=%s\n", value)` for each of them. -/
def printVars (vars : List Var) : Str := vars.flatMap (fun v => body v ++ [newline])

/-- `%s` of a NULL pointer. -/
def orNull (value : Option Str) : Str := value.getD (ascii "(null)")

def optVar (name : String) (value : Option Str) : List Var :=
  value.toList.map (fun v => (ascii name, v))

/-- An address that is not set is not written. The text always fits. -/
def addrVar (name : String) (addr : InAddr) : List Var :=
  if ifaceHaveInAddr addr then [(ascii name, inetNtop4 addr)] else []

def ipv4Vars (env : WriteEnv) (iface : Iface) : List Var :=
  if env.noipv4 then []
  else match iface.ipv4method with
    | .dhcp => [(ascii "BOOTPROTO", ascii "dhcp")]
    | .manual => List.flatten [[(ascii "BOOTPROTO", ascii "static")],
        addrVar "IPADDR" iface.ipaddr, addrVar "NETMASK" iface.netmask,
        addrVar "BROADCAST" iface.broadcast, addrVar "GATEWAY" iface.gateway]
    | .unused => []

def ip6addrVar (iface : Iface) : List Var :=
  optVar "IPV6ADDR" ((ifaceIn6Text iface.ip6addr).map (fun t =>
    if iface.ip6prefix ≠ 0 then t ++ 0x2f :: signedDecimal iface.ip6prefix else t))

def ipv6MethodVars (iface : Iface) : List Var :=
  match iface.ipv6method with
  | .auto => [(ascii "IPV6_AUTOCONF", ascii "yes")]
  | .dhcp => [(ascii "DHCPV6C", ascii "yes")]
  | .manual => ip6addrVar iface
  | .unused => []

def ipv6Vars (b : Build) (env : WriteEnv) (iface : Iface) : List Var :=
  if b.ipv6 = false ∨ env.noipv6 = true ∨ iface.ipv6method = .unused then []
  else List.flatten [[(ascii "IPV6INIT", ascii "yes")], ipv6MethodVars iface,
    optVar "IPV6_DEFAULTGW" (ifaceIn6Text iface.gateway6)]

def dnsVars (iface : Iface) : List Var :=
  (List.range iface.numdns).map (fun i => (ascii "DNS" ++ decimal (i + 1), orNull (iface.dns i)))

/-- The lines of `ifcfg-DEVICE` in front of the one for the domain. -/
def varsBefore (b : Build) (env : WriteEnv) (iface : Iface) : List Var :=
  List.flatten [[(ascii "DEVICE", iface.device), (ascii "HWADDR", orNull env.hwaddr),
      (ascii "ONBOOT", ascii "yes")],
    ipv4Vars env iface, ipv6Vars b env iface, dnsVars iface, optVar "HOSTNAME" iface.hostname]

def mtuVar (iface : Iface) : List Var :=
  if iface.mtu ≠ 0 then [(ascii "MTU", signedDecimal iface.mtu)] else []

def varsAfter (iface : Iface) : List Var :=
  List.flatten [mtuVar iface, optVar "PEERID" iface.peerid,
    optVar "SUBCHANNELS" iface.subchannels, optVar "PORTNAME" iface.portname,
    optVar "NETTYPE" iface.nettype, optVar "CTCPROT" iface.ctcprot]

def ifcfgVars (b : Build) (env : WriteEnv) (iface : Iface) : List Var :=
  List.flatten [varsBefore b env iface, optVar "DOMAIN" iface.domain, varsAfter iface]

def networkVars (b : Build) (env : WriteEnv) (iface : Iface) : List Var := List.flatten [
  if env.noipv4 then [] else [(ascii "NETWORKING", ascii "yes")],
  if b.ipv6 = false ∨ env.noipv6 = true then [] else [(ascii "NETWORKING_IPV6", ascii "yes")],
  optVar "HOSTNAME" iface.hostname, addrVar "GATEWAY" iface.gateway,
  if b.ipv6 then optVar "IPV6_DEFAULTGW" (ifaceIn6Text iface.gateway6) else []]

def vendorText (vendorclass : Str) : Str :=
  ascii "send vendor-class-identifier \"" ++ vendorclass ++ ascii "\";\n"

/-- The return code and the files that are in place by then. -/
structure Written where
  rc : ℤ
  vendor : Option Str
  ifcfg : Option Str
  network : Option Str
  deriving DecidableEq, Repr

def writeNetwork (b : Build) (env : WriteEnv) (iface : Iface) (w : Written) : Written :=
  if !env.opensNetwork then { w with rc := 9 }
  else if !env.closesNetwork then { w with rc := 12 }
  else if !env.renamesNetwork then { w with rc := 15 }
  else { w with rc := 0, network := some (printVars (networkVars b env iface)) }

def writeIfcfg (b : Build) (env : WriteEnv) (iface : Iface) (w : Written) : Written :=
  if !env.opens then { w with rc := 2 }
  else if !env.closes then { w with rc := 8 }
  else if !env.renames then { w with rc := 14 }
  else writeNetwork b env iface { w with ifcfg := some (printVars (ifcfgVars b env iface)) }

def writeEnabledNetInfo (b : Build) (env : WriteEnv) (iface : Iface) : Written :=
  let w : Written := ⟨0, none, none, none⟩
  if !env.makesDirectory then { w with rc := 16 }
  else match iface.vendorclass with
    | none => writeIfcfg b env iface w
    | some vendorclass =>
      if !env.opensVendor then { w with rc := 18 }
      else if !env.closesVendor then { w with rc := 19, vendor := some (vendorText vendorclass) }
      else writeIfcfg b env iface { w with vendor := some (vendorText vendorclass) }

theorem writeEnabledNetInfo_ifcfg {b : Build} {env : WriteEnv} {iface : Iface} {text : Str}
    (h : (writeEnabledNetInfo b env iface).ifcfg = some text) :
    text = printVars (ifcfgVars b env iface) := by
  have hnetwork : ∀ w, (writeNetwork b env iface w).ifcfg = w.ifcfg := by
    intro w
    unfold writeNetwork
    split_ifs
    all_goals rfl
  have hifcfg : ∀ w, w.ifcfg = none → (writeIfcfg b env iface w).ifcfg = some text →
      text = printVars (ifcfgVars b env iface) := by
    intro w hw hsome
    unfold writeIfcfg at hsome
    split_ifs at hsome
    · rw [hw] at hsome
      cases hsome
    · rw [hw] at hsome
      cases hsome
    · rw [hw] at hsome
      cases hsome
    · rw [hnetwork] at hsome
      exact (Option.some.inj hsome).symm
  unfold writeEnabledNetInfo at h
  by_cases hdir : (!env.makesDirectory) = true
  · rw [if_pos hdir] at h
    cases h
  · rw [if_neg hdir] at h
    cases hv : iface.vendorclass with
    | none =>
      rw [hv] at h
      exact hifcfg _ rfl h
    | some vendorclass =>
      rw [hv] at h
      dsimp only at h
      split_ifs at h
      exact hifcfg _ rfl h

end Comodoo.NetInfoFile
