import Comodoo.NetInfo

set_option autoImplicit false

/-!
# The lines of a network configuration file

Which lines `writeEnabledNetInfo` writes for a manually configured interface, and for which
settings `readNetInfo` takes them.
-/
namespace Comodoo.NetInfoLines
open CString DecimalText InetText LineBuffer LoaderSettings NetIface NetInfo NetInfoFile

abbrev comma : UInt8 := 0x2c

/-- The list of name servers as `setupIfaceStruct` reads it. -/
def dnsList (iface : Iface) : Str :=
  List.intercalate [comma] ((List.range iface.numdns).map (fun i => orNull (iface.dns i)))

def written (addr : InAddr) : Option Str :=
  if ifaceHaveInAddr addr then some (inetNtop4 addr) else none

def expected (iface : Iface) : Key → Option Str
  | .ipv4 => written iface.ipaddr
  | .netmask => written iface.netmask
  | .gateway => written iface.gateway
  | .dns => if iface.numdns = 0 then none else some (dnsList iface)
  | .peerid => iface.peerid
  | .subchannels => iface.subchannels
  | .portname => iface.portname
  | .nettype => iface.nettype
  | .ctcprot => iface.ctcprot
  | .layer2 => none
  | .macaddr => none
  | .hostname => iface.hostname

def claimed (k : Key) : Bool := k ≠ .layer2 ∧ k ≠ .macaddr

/-- Those that are written behind the domain. -/
def late (k : Key) : Bool :=
  k = .peerid ∨ k = .subchannels ∨ k = .portname ∨ k = .nettype ∨ k = .ctcprot

/-- An interface whose texts have no newline; `iface_mac2str` has room for nineteen bytes. -/
structure WellFormed (b : Build) (env : WriteEnv) (iface : Iface) : Prop where
  long : 32 ≤ b.longBits
  manual : iface.ipv4method = .manual
  enabled : env.noipv4 = false
  device : newline ∉ iface.device ∧ iface.device.length < 16
  hwaddr : ∀ t, env.hwaddr = some t → newline ∉ t ∧ t.length < 20
  numdns : iface.numdns ≤ MAXNS
  dns : ∀ i < iface.numdns, ∃ t, iface.dns i = some t ∧ newline ∉ t
  texts : ∀ o ∈ [iface.hostname, iface.domain, iface.peerid, iface.subchannels, iface.portname,
    iface.nettype, iface.ctcprot], ∀ t, o = some t → newline ∉ t
  mtu : -2 ^ 31 ≤ iface.mtu ∧ iface.mtu < 2 ^ 31
  ip6prefix : -2 ^ 31 ≤ iface.ip6prefix ∧ iface.ip6prefix < 2 ^ 31

/-! ## The names -/

def unread : List String := ["DEVICE", "HWADDR", "ONBOOT", "BOOTPROTO", "BROADCAST", "IPV6INIT",
  "IPV6_AUTOCONF", "DHCPV6C", "IPV6ADDR", "IPV6_DEFAULTGW", "DOMAIN"]

theorem unread_matches : ∀ n ∈ unread, isMtu (ascii n) = false ∧
    (∀ k : Key, k.matches (ascii n) = false) ∧ GoodName (ascii n) := by
  intro n hn
  have hall : ∀ n ∈ unread, isMtu (ascii n) = false ∧ ascii n ≠ [] ∧ Clean (ascii n) ∧
      (ascii n).length + 1 < bufsiz := by decide +kernel
  obtain ⟨hmtu, hne, hclean, hshort⟩ := hall n hn
  refine ⟨hmtu, fun k => ?_, hne, hclean, hshort⟩
  have hk : ∀ k : Key, ∀ n ∈ unread, k.matches (ascii n) = false := by
    intro k
    cases k
    all_goals decide +kernel
  exact hk k n hn

theorem name_matches (k l : Key) : k.matches (ascii l.name.1) = decide (k = l) := by
  cases k
  all_goals
    cases l
    all_goals decide +kernel

theorem name_good (k : Key) : GoodName (ascii k.name.1) ∧ isMtu (ascii k.name.1) = false := by
  cases k
  all_goals
    exact ⟨⟨by decide +kernel, by decide +kernel, by decide +kernel⟩, by decide +kernel⟩

theorem mtu_matches (k : Key) : k.matches (ascii "MTU") = false := by
  cases k
  all_goals decide

def dnsName (i : ℕ) : Str := ascii "DNS" ++ decimal (i + 1)

theorem dnsName_matches {i : ℕ} (h : i < MAXNS) : GoodName (dnsName i) ∧
    isMtu (dnsName i) = false ∧ (dnsName i).length = 4 ∧
      ∀ k : Key, k.matches (dnsName i) = decide (k = .dns) := by
  have hall : ∀ i < MAXNS, (dnsName i ≠ [] ∧ Clean (dnsName i) ∧
      (dnsName i).length + 1 < bufsiz) ∧ isMtu (dnsName i) = false ∧ (dnsName i).length = 4 := by
    decide +kernel
  obtain ⟨⟨hne, hclean, hshort⟩, hmtu, hlen⟩ := hall i h
  refine ⟨⟨hne, hclean, hshort⟩, hmtu, hlen, fun k => ?_⟩
  have hk : ∀ i < MAXNS, k.matches (dnsName i) = decide (k = .dns) := by
    cases k
    all_goals decide +kernel
  exact hk i h

/-! ## The lines -/

variable {b : Build} {env : WriteEnv} {iface : Iface} {v : Var}

/-- A line in front of the one for the domain. -/
inductive Before (iface : Iface) (v : Var) : Prop where
  | unread (n : String) (hn : n ∈ unread) (hname : v.1 = ascii n)
      (hfit : (body v).length < bufsiz)
  | setting (k : Key) (hk : claimed k = true) (hearly : NetInfoLines.late k = false)
      (hdns : k ≠ .dns) (hname : v.1 = ascii k.name.1) (hvalue : expected iface k = some v.2)
  | dns (i : ℕ) (hi : i < iface.numdns) (hname : v.1 = dnsName i)
      (hvalue : v.2 = orNull (iface.dns i))

inductive After (iface : Iface) (v : Var) : Prop where
  | mtu (hmtu : iface.mtu ≠ 0) (hname : v.1 = ascii "MTU") (hvalue : v.2 = signedDecimal iface.mtu)
  | setting (k : Key) (hlate : NetInfoLines.late k = true) (hname : v.1 = ascii k.name.1)
      (hvalue : expected iface k = some v.2)

theorem mem_optVar {name : String} {value : Option Str} (h : v ∈ optVar name value) :
    v.1 = ascii name ∧ value = some v.2 := by
  obtain ⟨t, ht, rfl⟩ := List.mem_map.mp h
  exact ⟨rfl, by simpa using ht⟩

theorem mem_addrVar {name : String} {addr : InAddr} (h : v ∈ addrVar name addr) :
    v.1 = ascii name ∧ written addr = some v.2 := by
  unfold addrVar at h
  unfold written
  split_ifs at h ⊢
  · rw [List.mem_singleton.mp h]
    exact ⟨rfl, rfl⟩
  · cases h

theorem written_line {addr : InAddr} {t : Str} (h : written addr = some t) :
    newline ∉ t ∧ t.length ≤ 15 := by
  unfold written at h
  obtain ⟨-, ht⟩ := Option.ite_none_right_eq_some.mp h
  cases ht
  exact ⟨newline_notMem_inetNtop4 _, inetNtop4_length_le _⟩

theorem ifaceIn6Text_line {addr : In6Addr} {t : Str} (h : ifaceIn6Text addr = some t) :
    newline ∉ t ∧ t.length < 46 :=
  inetNtop6_line (Option.eq_some_of_filter_eq_some h)

theorem ipv4Vars_before (hwf : WellFormed b env iface) (h : v ∈ ipv4Vars env iface) :
    newline ∉ v.2 ∧ Before iface v := by
  have haddr : ∀ {name addr}, v ∈ addrVar name addr →
      v.1 = ascii name ∧ written addr = some v.2 ∧ newline ∉ v.2 ∧ v.2.length ≤ 15 := by
    intro name addr hv
    obtain ⟨hname, hvalue⟩ := mem_addrVar hv
    exact ⟨hname, hvalue, written_line hvalue⟩
  unfold ipv4Vars at h
  rw [hwf.enabled, hwf.manual] at h
  simp only [Bool.false_eq_true, if_false, List.flatten_cons, List.flatten_nil, List.append_nil,
    List.mem_append, List.mem_singleton] at h
  rcases h with rfl | h | h | h | h
  · exact ⟨by decide, .unread "BOOTPROTO" (by decide) rfl (by decide)⟩
  · obtain ⟨hname, hvalue, hline, -⟩ := haddr h
    exact ⟨hline, .setting .ipv4 rfl rfl (by decide) hname hvalue⟩
  · obtain ⟨hname, hvalue, hline, -⟩ := haddr h
    exact ⟨hline, .setting .netmask rfl rfl (by decide) hname hvalue⟩
  · obtain ⟨hname, -, hline, hlen⟩ := haddr h
    refine ⟨hline, .unread "BROADCAST" (by decide) hname ?_⟩
    have hsize : (ascii "BROADCAST").length = 9 := rfl
    rw [body_length, hname, hsize]
    exact Nat.lt_of_le_of_lt (Nat.add_le_add_left hlen _) (by decide)
  · obtain ⟨hname, hvalue, hline, -⟩ := haddr h
    exact ⟨hline, .setting .gateway rfl rfl (by decide) hname hvalue⟩

theorem ip6addrVar_before (hwf : WellFormed b env iface) (h : v ∈ ip6addrVar iface) :
    newline ∉ v.2 ∧ Before iface v := by
  obtain ⟨hname, hvalue⟩ := mem_optVar h
  obtain ⟨t, ht, hv⟩ := Option.map_eq_some_iff.mp hvalue
  obtain ⟨hline, hlen⟩ := ifaceIn6Text_line ht
  have hprefix := signedDecimal_length_le hwf.ip6prefix
  have hv2 : newline ∉ v.2 ∧ v.2.length < 58 := by
    rw [← hv]
    split_ifs
    · refine ⟨?_, ?_⟩
      · intro hm
        rcases List.mem_append.mp hm with hm | hm
        · exact hline hm
        · rcases List.mem_cons.mp hm with hm | hm
          · exact absurd hm (by decide)
          · rcases mem_signedDecimal hm with hm | hm
            · exact absurd hm (by decide)
            · exact absurd hm (by decide)
      · rw [List.length_append, List.length_cons]
        omega
    · exact ⟨hline, by omega⟩
  refine ⟨hv2.1, .unread "IPV6ADDR" (by decide) hname ?_⟩
  have hsize : (ascii "IPV6ADDR").length = 8 := rfl
  rw [body_length, hname, hsize]
  exact Nat.lt_of_lt_of_le (Nat.add_lt_add_left hv2.2 _) (by decide)

theorem ipv6Vars_before (hwf : WellFormed b env iface) (h : v ∈ ipv6Vars b env iface) :
    newline ∉ v.2 ∧ Before iface v := by
  unfold ipv6Vars at h
  split_ifs at h
  · cases h
  · simp only [List.flatten_cons, List.flatten_nil, List.append_nil, List.mem_append,
      List.mem_singleton] at h
    rcases h with rfl | h | h
    · exact ⟨by decide, .unread "IPV6INIT" (by decide) rfl (by decide)⟩
    · unfold ipv6MethodVars at h
      cases hm : iface.ipv6method with
      | unused =>
        rw [hm] at h
        cases h
      | auto =>
        rw [hm] at h
        rw [List.mem_singleton.mp h]
        exact ⟨by decide, .unread "IPV6_AUTOCONF" (by decide) rfl (by decide)⟩
      | dhcp =>
        rw [hm] at h
        rw [List.mem_singleton.mp h]
        exact ⟨by decide, .unread "DHCPV6C" (by decide) rfl (by decide)⟩
      | manual =>
        rw [hm] at h
        exact ip6addrVar_before hwf h
    · obtain ⟨hname, hvalue⟩ := mem_optVar h
      obtain ⟨hline, hlen⟩ := ifaceIn6Text_line hvalue
      refine ⟨hline, .unread "IPV6_DEFAULTGW" (by decide) hname ?_⟩
      have hsize : (ascii "IPV6_DEFAULTGW").length = 14 := rfl
      rw [body_length, hname, hsize]
      exact Nat.lt_of_lt_of_le (Nat.add_lt_add_left hlen _) (by decide)

theorem mem_varsBefore (hwf : WellFormed b env iface) (h : v ∈ varsBefore b env iface) :
    newline ∉ v.2 ∧ Before iface v := by
  simp only [varsBefore, List.flatten_cons, List.flatten_nil, List.append_nil, List.mem_append,
    List.mem_cons, List.not_mem_nil, or_false] at h
  rcases h with (rfl | rfl | rfl) | h | h | h | h
  · refine ⟨hwf.device.1, .unread "DEVICE" (by decide) rfl ?_⟩
    have hsize : (ascii "DEVICE").length = 6 := rfl
    rw [body_length, hsize]
    exact Nat.lt_of_lt_of_le (Nat.add_lt_add_left hwf.device.2 _) (by decide)
  · have hline : newline ∉ orNull env.hwaddr ∧ (orNull env.hwaddr).length < 20 := by
      cases hmac : env.hwaddr with
      | none => exact ⟨by decide, by decide⟩
      | some t => exact hwf.hwaddr t hmac
    refine ⟨hline.1, .unread "HWADDR" (by decide) rfl ?_⟩
    have hsize : (ascii "HWADDR").length = 6 := rfl
    rw [body_length, hsize]
    exact Nat.lt_of_lt_of_le (Nat.add_lt_add_left hline.2 _) (by decide)
  · exact ⟨by decide, .unread "ONBOOT" (by decide) rfl (by decide)⟩
  · exact ipv4Vars_before hwf h
  · exact ipv6Vars_before hwf h
  · obtain ⟨i, hi, rfl⟩ := List.mem_map.mp h
    rw [List.mem_range] at hi
    obtain ⟨t, ht, hline⟩ := hwf.dns i hi
    refine ⟨?_, .dns i hi rfl rfl⟩
    rw [ht]
    exact hline
  · obtain ⟨hname, hvalue⟩ := mem_optVar h
    exact ⟨hwf.texts _ (by simp) _ hvalue, .setting .hostname rfl rfl (by decide) hname hvalue⟩

theorem mem_varsAfter (hwf : WellFormed b env iface) (h : v ∈ varsAfter iface) :
    newline ∉ v.2 ∧ After iface v := by
  simp only [varsAfter, List.flatten_cons, List.flatten_nil, List.append_nil, List.mem_append] at h
  rcases h with h | h | h | h | h | h
  · unfold mtuVar at h
    split_ifs at h with hmtu
    · rw [List.mem_singleton.mp h]
      refine ⟨fun hm => ?_, .mtu hmtu rfl rfl⟩
      rcases mem_signedDecimal hm with hm | hm
      · exact absurd hm (by decide)
      · exact absurd hm (by decide)
    · cases h
  · obtain ⟨hname, hvalue⟩ := mem_optVar h
    exact ⟨hwf.texts _ (by simp) _ hvalue, .setting .peerid rfl hname hvalue⟩
  · obtain ⟨hname, hvalue⟩ := mem_optVar h
    exact ⟨hwf.texts _ (by simp) _ hvalue, .setting .subchannels rfl hname hvalue⟩
  · obtain ⟨hname, hvalue⟩ := mem_optVar h
    exact ⟨hwf.texts _ (by simp) _ hvalue, .setting .portname rfl hname hvalue⟩
  · obtain ⟨hname, hvalue⟩ := mem_optVar h
    exact ⟨hwf.texts _ (by simp) _ hvalue, .setting .nettype rfl hname hvalue⟩
  · obtain ⟨hname, hvalue⟩ := mem_optVar h
    exact ⟨hwf.texts _ (by simp) _ hvalue, .setting .ctcprot rfl hname hvalue⟩

theorem newline_body (hname : GoodName v.1) (hline : newline ∉ v.2) : newline ∉ body v := by
  intro h
  rcases List.mem_append.mp h with h | h
  · exact absurd (hname.clean _ h).1 (by decide)
  · rcases List.mem_cons.mp h with h | h
    · exact absurd h (by decide)
    · exact hline h

/-- Each text could be read back. -/
def Plains (iface : Iface) : Prop :=
  ∀ k, claimed k = true → ∀ t, expected iface k = some t → Plain (ascii k.name.1) t

theorem intercalate_mem {s : UInt8} {x : Str} {l : List Str} (h : x ∈ l) :
    x ⊆ List.intercalate [s] l ∧ x.length + (l.length - 1) ≤ (List.intercalate [s] l).length := by
  induction l generalizing x with
  | nil => cases h
  | cons y l ih =>
    cases l with
    | nil =>
      rw [List.mem_singleton.mp h, List.intercalate_singleton]
      exact ⟨List.Subset.refl _, by simp⟩
    | cons z l =>
      rw [List.intercalate_cons_cons]
      simp only [List.length_append, List.length_cons, List.length_nil]
      rcases List.mem_cons.mp h with rfl | h
      · have hrest := (ih List.mem_cons_self).2
        rw [List.length_cons] at hrest
        refine ⟨fun c hc => by simp [hc], ?_⟩
        omega
      · obtain ⟨hsub, hlen⟩ := ih h
        rw [List.length_cons] at hlen
        refine ⟨fun c hc => List.mem_append_right _ (hsub hc), ?_⟩
        omega

theorem orNull_mem {i : ℕ} (hi : i < iface.numdns) :
    orNull (iface.dns i) ⊆ dnsList iface ∧
      (orNull (iface.dns i)).length + (iface.numdns - 1) ≤ (dnsList iface).length := by
  have hmem : orNull (iface.dns i) ∈
      (List.range iface.numdns).map (fun i => orNull (iface.dns i)) :=
    List.mem_map.mpr ⟨i, List.mem_range.mpr hi, rfl⟩
  have h := intercalate_mem (s := comma) hmem
  rw [List.length_map, List.length_range] at h
  exact h

theorem before_line (hwf : WellFormed b env iface) (h : v ∈ varsBefore b env iface) :
    GoodName v.1 ∧ newline ∉ body v := by
  obtain ⟨hline, hv⟩ := mem_varsBefore hwf h
  have hgood : GoodName v.1 := by
    cases hv with
    | unread n hn hname hfit => exact hname ▸ (unread_matches n hn).2.2
    | setting k hk hearly hdns hname hvalue => exact hname ▸ (name_good k).1
    | dns i hi hname hvalue =>
      exact hname ▸ (dnsName_matches (Nat.lt_of_lt_of_le hi hwf.numdns)).1
  exact ⟨hgood, newline_body hgood hline⟩

theorem after_line (hwf : WellFormed b env iface) (h : v ∈ varsAfter iface) :
    GoodName v.1 ∧ newline ∉ body v := by
  obtain ⟨hline, hv⟩ := mem_varsAfter hwf h
  have hgood : GoodName v.1 := by
    cases hv with
    | mtu hmtu hname hvalue =>
      rw [hname]
      exact ⟨by decide +kernel, by decide +kernel, by decide +kernel⟩
    | setting k hlate hname hvalue => exact hname ▸ (name_good k).1
  exact ⟨hgood, newline_body hgood hline⟩

theorem domain_line (hwf : WellFormed b env iface) (h : v ∈ optVar "DOMAIN" iface.domain) :
    v.1 = ascii "DOMAIN" ∧ GoodName v.1 ∧ newline ∉ body v := by
  obtain ⟨hname, hvalue⟩ := mem_optVar h
  have hgood : GoodName v.1 := hname ▸ (unread_matches "DOMAIN" (by decide)).2.2
  exact ⟨hname, hgood, newline_body hgood (hwf.texts _ (by simp) _ hvalue)⟩

theorem claimed_of_late {k : Key} (h : late k = true) : claimed k = true := by
  cases k
  all_goals first | rfl | cases h

theorem before_tail (hwf : WellFormed b env iface) (hplain : Plains iface)
    (h : v ∈ varsBefore b env iface) : tailVars v = [] := by
  obtain ⟨hgood, hline⟩ := before_line hwf h
  obtain ⟨-, hv⟩ := mem_varsBefore hwf h
  cases hv with
  | unread n hn hname hfit => exact tailVars_fits hline hfit
  | setting k hk hearly hdns hname hvalue =>
    exact tailVars_clean hgood hline (fun hm => ((hplain k hk _ hvalue).clean _ hm).2.1 rfl)
  | dns i hi hname hvalue =>
    have hlist := hplain .dns rfl (dnsList iface) (if_neg (by omega))
    refine tailVars_clean hgood hline (fun hm => ?_)
    rw [hvalue] at hm
    exact (hlist.clean _ ((orNull_mem hi).1 hm)).2.1 rfl

theorem after_tail (hwf : WellFormed b env iface) (hplain : Plains iface)
    (h : v ∈ varsAfter iface) : tailVars v = [] := by
  obtain ⟨hgood, hline⟩ := after_line hwf h
  obtain ⟨-, hv⟩ := mem_varsAfter hwf h
  refine tailVars_clean hgood hline (fun hm => ?_)
  cases hv with
  | mtu hmtu hname hvalue =>
    rw [hvalue] at hm
    rcases mem_signedDecimal hm with hm | hm
    · exact absurd hm (by decide)
    · exact absurd hm (by decide)
  | setting k hlate hname hvalue =>
    exact ((hplain k (claimed_of_late hlate) _ hvalue).clean _ hm).2.1 rfl

/-- Which setting a line in front of the domain is read for. -/
theorem before_matches (hwf : WellFormed b env iface) (h : v ∈ varsBefore b env iface) {k : Key}
    (hk : k ≠ .dns) (hm : k.matches v.1 = true) :
    late k = false ∧ v.1 = ascii k.name.1 ∧ expected iface k = some v.2 := by
  obtain ⟨-, hv⟩ := mem_varsBefore hwf h
  cases hv with
  | unread n hn hname hfit =>
    rw [hname, (unread_matches n hn).2.1 k] at hm
    cases hm
  | setting l hl hearly hdns hname hvalue =>
    rw [hname, name_matches, decide_eq_true_iff] at hm
    subst hm
    exact ⟨hearly, hname, hvalue⟩
  | dns i hi hname hvalue =>
    rw [hname, (dnsName_matches (Nat.lt_of_lt_of_le hi hwf.numdns)).2.2.2,
      decide_eq_true_iff] at hm
    exact absurd hm hk

theorem after_matches (hwf : WellFormed b env iface) (h : v ∈ varsAfter iface) {k : Key}
    (hm : k.matches v.1 = true) :
    late k = true ∧ v.1 = ascii k.name.1 ∧ expected iface k = some v.2 := by
  obtain ⟨-, hv⟩ := mem_varsAfter hwf h
  cases hv with
  | mtu hmtu hname hvalue =>
    rw [hname, mtu_matches] at hm
    cases hm
  | setting l hlate hname hvalue =>
    rw [hname, name_matches, decide_eq_true_iff] at hm
    subst hm
    exact ⟨hlate, hname, hvalue⟩

theorem before_isMtu (hwf : WellFormed b env iface) (h : v ∈ varsBefore b env iface) :
    isMtu v.1 = false := by
  obtain ⟨-, hv⟩ := mem_varsBefore hwf h
  cases hv with
  | unread n hn hname hfit => exact hname ▸ (unread_matches n hn).1
  | setting k hk hearly hdns hname hvalue => exact hname ▸ (name_good k).2
  | dns i hi hname hvalue =>
    exact hname ▸ (dnsName_matches (Nat.lt_of_lt_of_le hi hwf.numdns)).2.1

theorem after_isMtu (hwf : WellFormed b env iface) (h : v ∈ varsAfter iface)
    (hm : isMtu v.1 = true) : iface.mtu ≠ 0 ∧ v.2 = signedDecimal iface.mtu ∧ Plain v.1 v.2 := by
  obtain ⟨-, hv⟩ := mem_varsAfter hwf h
  cases hv with
  | mtu hmtu hname hvalue =>
    refine ⟨hmtu, hvalue, ?_⟩
    rw [hname, hvalue]
    refine ⟨signedDecimal_ne_nil _, fun c hc => ?_, ?_⟩
    · rcases mem_signedDecimal hc with rfl | hc
      · decide
      · exact ⟨isdigit_not_isspace hc, fun he => absurd (he ▸ hc) (by decide),
          fun he => absurd (he ▸ hc) (by decide)⟩
    · have hlen := signedDecimal_length_le hwf.mtu
      exact Nat.lt_of_le_of_lt (Nat.add_le_add_left hlen _) (by decide)
  | setting k hlate hname hvalue =>
    rw [hname, (name_good k).2] at hm
    cases hm

end Comodoo.NetInfoLines
