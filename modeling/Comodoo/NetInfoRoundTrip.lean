import Comodoo.NetInfoLines

set_option autoImplicit false

/-!
# The network configuration read back

`readNetInfo` on the file that `writeEnabledNetInfo` has written for a manually configured
interface.
-/
namespace Comodoo.NetInfoRoundTrip
open CString DecimalText InetText LineBuffer LoaderSettings NetIface NetInfo NetInfoFile
open NetInfoLines

structure RoundTrip (iface : Iface) (d : NetData) : Prop where
  text : ∀ k, claimed k = true → d.text k = expected iface k
  mtu : d.mtu = iface.mtu

/-- Variables that are read from the domain, when its line fills the buffer. -/
def domainVars (iface : Iface) : List Var :=
  (iface.domain.map (fun t => tailVars (ascii "DOMAIN", t))).getD []

structure ReadsBack (b : Build) (iface : Iface) : Prop where
  plain : ∀ k, claimed k = true → ∀ t, expected iface k = some t → Plain (ascii k.name.1) t
  early : ∀ k, claimed k = true → late k = false →
    ∀ t, lastFor k.matches (domainVars iface) = some t → expected iface k = some t
  late : ∀ k, late k = true → expected iface k = none →
    lastFor k.matches (domainVars iface) = none
  dns : lastFor Key.dns.matches (domainVars iface) = none → iface.numdns ≤ 1 ∧
    (iface.numdns = 1 → Plain (ascii "DNS1") (dnsList iface))
  numbers : ∀ v ∈ domainVars iface, isMtu v.1 = true → numberAborts b.longBits v.2 = false
  mtu : iface.mtu = 0 → ∀ t, lastFor isMtu (domainVars iface) = some t →
    strtolInt b.longBits t = 0

variable {b : Build} {env : WriteEnv} {iface : Iface} {v : Var}

/-! ## What is read -/

def readBefore (b : Build) (env : WriteEnv) (iface : Iface) : List Var :=
  (varsBefore b env iface).flatMap lineVars

def readAfter (iface : Iface) : List Var := (varsAfter iface).flatMap lineVars

def readList (b : Build) (env : WriteEnv) (iface : Iface) : List Var :=
  (ifcfgVars b env iface).flatMap lineVars

theorem readVars_ifcfg (hwf : WellFormed b env iface) (d : NetData) :
    readVars b d (printVars (ifcfgVars b env iface)) =
      (readList b env iface).foldlM (storeVar b) d := by
  refine readVars_printVars b d _ (fun v hv => ?_)
  simp only [ifcfgVars, List.flatten_cons, List.flatten_nil, List.append_nil, List.mem_append] at hv
  rcases hv with hv | hv | hv
  · exact (before_line hwf hv).2
  · exact (domain_line hwf hv).2.2
  · exact (after_line hwf hv).2

theorem lastFor_readList (hwf : WellFormed b env iface) {p : Str → Bool}
    (hp : p (ascii "DOMAIN") = false) :
    lastFor p (readList b env iface) =
      ((lastFor p (readAfter iface)).or (lastFor p (domainVars iface))).or
        (lastFor p (readBefore b env iface)) := by
  have hdomain : lastFor p ((optVar "DOMAIN" iface.domain).flatMap lineVars) =
      lastFor p (domainVars iface) := by
    cases hd : iface.domain with
    | none => simp [optVar, domainVars, hd]
    | some t =>
      have hmem : (ascii "DOMAIN", t) ∈ optVar "DOMAIN" iface.domain := by simp [optVar, hd]
      obtain ⟨-, hgood, hline⟩ := domain_line hwf hmem
      simp only [optVar, domainVars, hd, Option.toList_some, List.map_cons, List.map_nil,
        List.flatMap_cons, List.flatMap_nil, List.append_nil, Option.map_some, Option.getD_some]
      exact lastFor_lineVars hgood hline hp
  simp only [readList, readBefore, readAfter, ifcfgVars, List.flatten_cons, List.flatten_nil,
    List.append_nil, List.flatMap_append, lastFor_append, hdomain]

theorem mem_addrVar_of_written {name : String} {addr : InAddr} {t : Str}
    (h : written addr = some t) : (ascii name, t) ∈ addrVar name addr := by
  unfold written at h
  unfold addrVar
  split_ifs at h ⊢
  cases h
  exact List.mem_singleton_self _

theorem mem_optVar_of_some {name : String} {value : Option Str} {t : Str}
    (h : value = some t) : (ascii name, t) ∈ optVar name value := by
  rw [h]
  exact List.mem_singleton_self _

theorem mem_varsBefore_of_expected (hwf : WellFormed b env iface) {k : Key}
    (hk : claimed k = true) (hearly : late k = false) (hdns : k ≠ .dns) {t : Str}
    (h : expected iface k = some t) : (ascii k.name.1, t) ∈ varsBefore b env iface := by
  have hipv4 : ∀ v, v ∈ addrVar "IPADDR" iface.ipaddr ∨ v ∈ addrVar "NETMASK" iface.netmask ∨
      v ∈ addrVar "GATEWAY" iface.gateway → v ∈ varsBefore b env iface := by
    intro v hv
    have hmem : v ∈ ipv4Vars env iface := by
      unfold ipv4Vars
      rw [hwf.enabled, hwf.manual]
      simp only [Bool.false_eq_true, if_false, List.flatten_cons, List.flatten_nil,
        List.append_nil, List.mem_append]
      rcases hv with hv | hv | hv
      · exact Or.inr (Or.inl hv)
      · exact Or.inr (Or.inr (Or.inl hv))
      · exact Or.inr (Or.inr (Or.inr (Or.inr hv)))
    simp only [varsBefore, List.flatten_cons, List.flatten_nil, List.append_nil, List.mem_append]
    exact Or.inr (Or.inl hmem)
  cases k with
  | ipv4 => exact hipv4 _ (Or.inl (mem_addrVar_of_written h))
  | netmask => exact hipv4 _ (Or.inr (Or.inl (mem_addrVar_of_written h)))
  | gateway => exact hipv4 _ (Or.inr (Or.inr (mem_addrVar_of_written h)))
  | dns => exact absurd rfl hdns
  | hostname =>
    simp only [varsBefore, List.flatten_cons, List.flatten_nil, List.append_nil, List.mem_append]
    exact Or.inr (Or.inr (Or.inr (Or.inr (mem_optVar_of_some h))))
  | layer2 => cases hk
  | macaddr => cases hk
  | peerid => cases hearly
  | subchannels => cases hearly
  | portname => cases hearly
  | nettype => cases hearly
  | ctcprot => cases hearly

theorem mem_varsAfter_of_expected {k : Key} (hlate : late k = true) {t : Str}
    (h : expected iface k = some t) : (ascii k.name.1, t) ∈ varsAfter iface := by
  simp only [varsAfter, List.flatten_cons, List.flatten_nil, List.append_nil, List.mem_append]
  cases k with
  | peerid => exact Or.inr (Or.inl (mem_optVar_of_some h))
  | subchannels => exact Or.inr (Or.inr (Or.inl (mem_optVar_of_some h)))
  | portname => exact Or.inr (Or.inr (Or.inr (Or.inl (mem_optVar_of_some h))))
  | nettype => exact Or.inr (Or.inr (Or.inr (Or.inr (Or.inl (mem_optVar_of_some h)))))
  | ctcprot => exact Or.inr (Or.inr (Or.inr (Or.inr (Or.inr (mem_optVar_of_some h)))))
  | ipv4 => cases hlate
  | netmask => cases hlate
  | gateway => cases hlate
  | dns => cases hlate
  | hostname => cases hlate
  | layer2 => cases hlate
  | macaddr => cases hlate

section Plain
variable (hwf : WellFormed b env iface) (hplain : Plains iface)
include hwf hplain

/-- In front of the domain, the early settings are read, and nothing else but name servers. -/
theorem lastFor_readBefore {k : Key} (hk : claimed k = true) (hdns : k ≠ .dns) :
    lastFor k.matches (readBefore b env iface) = if late k then none else expected iface k := by
  unfold readBefore
  have hgood : ∀ v ∈ varsBefore b env iface, GoodName v.1 ∧ newline ∉ body v ∧ tailVars v = [] :=
    fun v hv => ⟨(before_line hwf hv).1, (before_line hwf hv).2, before_tail hwf hplain hv⟩
  rw [lastFor_flatMap hgood (fun v hv hm => by
    obtain ⟨-, hname, hvalue⟩ := before_matches hwf hv hdns hm
    exact hname ▸ hplain k hk _ hvalue)]
  refine lastFor_eq (fun v hv hm => ?_) (fun w hw => ?_)
  · obtain ⟨hearly, -, hvalue⟩ := before_matches hwf hv hdns hm
    rw [hearly]
    exact hvalue
  · cases hlate : late k with
    | true =>
      rw [hlate] at hw
      cases hw
    | false =>
      rw [hlate] at hw
      exact ⟨_, mem_varsBefore_of_expected hwf hk hlate hdns hw,
        by rw [name_matches]; exact decide_eq_true rfl⟩

theorem lastFor_readAfter {k : Key} (hk : claimed k = true) :
    lastFor k.matches (readAfter iface) = if late k then expected iface k else none := by
  unfold readAfter
  have hgood : ∀ v ∈ varsAfter iface, GoodName v.1 ∧ newline ∉ body v ∧ tailVars v = [] :=
    fun v hv => ⟨(after_line hwf hv).1, (after_line hwf hv).2, after_tail hwf hplain hv⟩
  rw [lastFor_flatMap hgood (fun v hv hm => by
    obtain ⟨-, hname, hvalue⟩ := after_matches hwf hv hm
    exact hname ▸ hplain k hk _ hvalue)]
  refine lastFor_eq (fun v hv hm => ?_) (fun w hw => ?_)
  · obtain ⟨hlate, -, hvalue⟩ := after_matches hwf hv hm
    rw [hlate]
    exact hvalue
  · cases hlate : late k with
    | true =>
      rw [hlate] at hw
      exact ⟨_, mem_varsAfter_of_expected hlate hw,
        by rw [name_matches]; exact decide_eq_true rfl⟩
    | false =>
      rw [hlate] at hw
      cases hw

theorem lastFor_mtu :
    lastFor isMtu (readBefore b env iface) = none ∧
      lastFor isMtu (readAfter iface) =
        if iface.mtu ≠ 0 then some (signedDecimal iface.mtu) else none := by
  constructor
  · unfold readBefore
    rw [lastFor_flatMap
      (fun v hv => ⟨(before_line hwf hv).1, (before_line hwf hv).2, before_tail hwf hplain hv⟩)
      (fun v hv hm => by rw [before_isMtu hwf hv] at hm; cases hm)]
    exact lastFor_eq_none (fun v hv => before_isMtu hwf hv)
  · unfold readAfter
    rw [lastFor_flatMap
      (fun v hv => ⟨(after_line hwf hv).1, (after_line hwf hv).2, after_tail hwf hplain hv⟩)
      (fun v hv hm => (after_isMtu hwf hv hm).2.2)]
    refine lastFor_eq (fun v hv hm => ?_) (fun w hw => ?_)
    · obtain ⟨hmtu, hvalue, -⟩ := after_isMtu hwf hv hm
      rw [if_pos hmtu, hvalue]
    · obtain ⟨hmtu, -⟩ := Option.ite_none_right_eq_some.mp hw
      have hmatch : isMtu (ascii "MTU") = true := by decide
      refine ⟨(ascii "MTU", signedDecimal iface.mtu), ?_, hmatch⟩
      simp only [varsAfter, List.flatten_cons, List.mem_append, mtuVar, if_pos hmtu]
      exact Or.inl (List.mem_singleton_self _)

theorem numbers_iff :
    (∀ v ∈ readList b env iface, isMtu v.1 = true → numberAborts b.longBits v.2 = false) ↔
      ∀ v ∈ domainVars iface, isMtu v.1 = true → numberAborts b.longBits v.2 = false := by
  have hdomain : (optVar "DOMAIN" iface.domain).flatMap tailVars = domainVars iface := by
    cases hd : iface.domain with
    | none => simp [optVar, domainVars, hd]
    | some t => simp [optVar, domainVars, hd]
  constructor
  · intro h v hv
    rw [← hdomain] at hv
    obtain ⟨u, hu, hvu⟩ := List.mem_flatMap.mp hv
    obtain ⟨-, hgood, hline⟩ := domain_line hwf hu
    obtain ⟨own, heq, -⟩ := lineVars_eq hgood hline
    refine h v (List.mem_flatMap.mpr ⟨u, ?_, ?_⟩)
    · simp [ifcfgVars, hu]
    · rw [heq]
      exact List.mem_append_right _ hvu
  · intro h v hv hm
    obtain ⟨u, hu, hvu⟩ := List.mem_flatMap.mp hv
    have hname : GoodName u.1 → newline ∉ body u → v.1 = u.1 ∨ v ∈ tailVars u := by
      intro hgood hline
      obtain ⟨own, heq, hown⟩ := lineVars_eq hgood hline
      rw [heq] at hvu
      exact (List.mem_append.mp hvu).imp (hown v) id
    simp only [ifcfgVars, List.flatten_cons, List.flatten_nil, List.append_nil,
      List.mem_append] at hu
    rcases hu with hu | hu | hu
    · obtain ⟨hgood, hline⟩ := before_line hwf hu
      rcases hname hgood hline with he | ht
      · rw [he, before_isMtu hwf hu] at hm
        cases hm
      · rw [before_tail hwf hplain hu] at ht
        cases ht
    · obtain ⟨hdom, hgood, hline⟩ := domain_line hwf hu
      rcases hname hgood hline with he | ht
      · rw [he, hdom, (unread_matches "DOMAIN" (by decide)).1] at hm
        cases hm
      · refine h v ?_ hm
        rw [← hdomain]
        exact List.mem_flatMap.mpr ⟨u, hu, ht⟩
    · obtain ⟨hgood, hline⟩ := after_line hwf hu
      rcases hname hgood hline with he | ht
      · rw [he] at hm
        obtain ⟨-, hvalue, hpl⟩ := after_isMtu hwf hu hm
        rw [lineVars_plain hgood hline hpl] at hvu
        rw [List.mem_singleton.mp hvu, hvalue]
        exact (strtolInt_signedDecimal hwf.long hwf.mtu).2
      · rw [after_tail hwf hplain hu] at ht
        cases ht

omit hplain in
/-- The lines in front of the domain that are taken for name servers are theirs. -/
theorem dns_of_matches (hv : v ∈ varsBefore b env iface) (hm : Key.dns.matches v.1 = true) :
    ∃ i < iface.numdns, v.1 = dnsName i ∧ v.2 = orNull (iface.dns i) := by
  obtain ⟨-, hv⟩ := mem_varsBefore hwf hv
  cases hv with
  | unread n hn hname hfit =>
    rw [hname, (unread_matches n hn).2.1 .dns] at hm
    cases hm
  | setting l hl hearly hdns hname hvalue =>
    rw [hname, name_matches, decide_eq_true_iff] at hm
    exact absurd hm.symm hdns
  | dns i hi hname hvalue => exact ⟨i, hi, hname, hvalue⟩

/-- The list of all name servers stands in one line only if there is only one. -/
theorem single_of_lastFor_dns
    (h : lastFor Key.dns.matches (readBefore b env iface) = some (dnsList iface)) :
    iface.numdns ≤ 1 ∧ Plain (ascii "DNS1") (dnsList iface) := by
  obtain ⟨n, hn, hm⟩ := mem_of_lastFor h
  obtain ⟨u, hu, hnu⟩ := List.mem_flatMap.mp hn
  obtain ⟨hgood, hline⟩ := before_line hwf hu
  obtain ⟨hpl, hinf⟩ := mem_lineVars hgood hline hnu
  have hnu1 : n = u.1 := by
    obtain ⟨own, heq, hown⟩ := lineVars_eq hgood hline
    rw [heq, before_tail hwf hplain hu, List.append_nil] at hnu
    exact hown _ hnu
  rw [hnu1] at hm hpl
  obtain ⟨i, hi, hname, hvalue⟩ := dns_of_matches hwf hu hm
  -- the list has no newline in it, so it stands in the value
  have hin : dnsList iface <:+: u.2 ++ [newline] := hinf
  have hlen : (dnsList iface).length ≤ u.2.length := by
    have hle := hin.length_le
    rw [List.length_append, List.length_singleton] at hle
    by_contra hgt
    have heq := hin.eq_of_length (by simp; omega)
    have hnl : newline ∈ dnsList iface := heq ▸ List.mem_append_right _ (by simp)
    exact absurd (hpl.clean _ hnl).1 (by decide)
  have hitem := (orNull_mem hi).2
  rw [hvalue] at hlen
  refine ⟨by omega, hpl.ne_nil, hpl.clean, ?_⟩
  have hfits := hpl.fits
  rw [hname, (dnsName_matches (Nat.lt_of_lt_of_le hi hwf.numdns)).2.2.1] at hfits
  exact hfits

theorem lastFor_dns_of_single (hle : iface.numdns ≤ 1)
    (hone : iface.numdns = 1 → Plain (ascii "DNS1") (dnsList iface)) :
    lastFor Key.dns.matches (readBefore b env iface) = expected iface .dns := by
  have hzero : ∀ {i}, i < iface.numdns → i = 0 ∧ iface.numdns = 1 := fun hi => by omega
  have hlist : iface.numdns = 1 → dnsList iface = orNull (iface.dns 0) := by
    intro h1
    unfold dnsList
    rw [h1]
    exact List.intercalate_singleton
  unfold readBefore
  rw [lastFor_flatMap
    (fun v hv => ⟨(before_line hwf hv).1, (before_line hwf hv).2, before_tail hwf hplain hv⟩)
    (fun v hv hm => by
      obtain ⟨i, hi, hname, hvalue⟩ := dns_of_matches hwf hv hm
      obtain ⟨rfl, h1⟩ := hzero hi
      rw [hname, hvalue, ← hlist h1]
      exact hone h1)]
  refine lastFor_eq (fun v hv hm => ?_) (fun w hw => ?_)
  · obtain ⟨i, hi, hname, hvalue⟩ := dns_of_matches hwf hv hm
    obtain ⟨rfl, h1⟩ := hzero hi
    rw [hvalue, ← hlist h1]
    exact if_neg (by omega)
  · have hpos : 0 < iface.numdns := by
      by_contra h0
      have hnone : expected iface .dns = none := if_pos (by omega)
      rw [hnone] at hw
      cases hw
    refine ⟨(dnsName 0, orNull (iface.dns 0)), ?_, (dnsName_matches (by decide)).2.2.2 .dns⟩
    simp only [varsBefore, List.flatten_cons, List.mem_append]
    exact Or.inr (Or.inr (Or.inr (Or.inl
      (List.mem_map.mpr ⟨0, List.mem_range.mpr hpos, rfl⟩))))

/-- The name servers that are read from their own lines: all of them, only if there is at most
one. -/
theorem lastFor_dns_iff : lastFor Key.dns.matches (readBefore b env iface) = expected iface .dns ↔
    iface.numdns ≤ 1 ∧ (iface.numdns = 1 → Plain (ascii "DNS1") (dnsList iface)) := by
  constructor
  · intro h
    rcases Nat.eq_zero_or_pos iface.numdns with h0 | hpos
    · exact ⟨by omega, fun h1 => by omega⟩
    · have hexp : expected iface .dns = some (dnsList iface) := if_neg (by omega)
      obtain ⟨hle, hplain1⟩ := single_of_lastFor_dns hwf hplain (h.trans hexp)
      exact ⟨hle, fun _ => hplain1⟩
  · rintro ⟨hle, hone⟩
    exact lastFor_dns_of_single hwf hplain hle hone

end Plain

/-- Of a name that is read for a setting, the whole name of the setting is the beginning. -/
theorem plain_of_matches {k : Key} {n t : Str} (hm : k.matches n = true) (h : Plain n t) :
    Plain (ascii k.name.1) t := by
  have hk : (ascii k.name.1).length ≤ k.name.2 ∧ 0 ∉ ascii k.name.1 := by
    cases k
    all_goals exact ⟨by decide, by decide⟩
  have hlen := (prefix_of_sameUpto hm hk.1 hk.2).length_le
  have hfits := h.fits
  exact ⟨h.ne_nil, h.clean, by omega⟩

theorem text_fresh (k : Key) : NetData.fresh.clear.text k = none := by
  simp [NetData.fresh, NetData.clear]

theorem domain_unread (k : Key) : k.matches (ascii "DOMAIN") = false :=
  (unread_matches "DOMAIN" (by decide)).2.1 k

theorem domain_not_mtu : isMtu (ascii "DOMAIN") = false := by decide

/-- When the settings come back, nothing that is written has an assignment of its own in it. -/
theorem plains_of_last (hwf : WellFormed b env iface)
    (hlast : ∀ k, claimed k = true →
      lastFor k.matches (readList b env iface) = expected iface k) : Plains iface := by
  intro k hk t ht
  have hsome := (hlast k hk).trans ht
  obtain ⟨n, hn, hm⟩ := mem_of_lastFor hsome
  obtain ⟨u, hu, hnu⟩ := List.mem_flatMap.mp hn
  have hline : GoodName u.1 ∧ newline ∉ body u := by
    simp only [ifcfgVars, List.flatten_cons, List.flatten_nil, List.append_nil,
      List.mem_append] at hu
    rcases hu with hu | hu | hu
    · exact before_line hwf hu
    · exact (domain_line hwf hu).2
    · exact after_line hwf hu
  exact plain_of_matches hm (mem_lineVars hline.1 hline.2 hnu).1

theorem readsBack_of_roundTrip (hwf : WellFormed b env iface) {d : NetData}
    (hd : (readList b env iface).foldlM (storeVar b) NetData.fresh.clear = some d)
    (hrt : RoundTrip iface d) : ReadsBack b iface := by
  obtain ⟨htext, hmtu, habort⟩ := foldlM_storeVar hd
  have hlast : ∀ k, claimed k = true →
      lastFor k.matches (readList b env iface) = expected iface k := by
    intro k hk
    rw [← hrt.text k hk, htext, text_fresh, Option.or_none]
  have hplain : Plains iface := plains_of_last hwf hlast
  have hearly : ∀ k, claimed k = true → late k = false →
      (lastFor k.matches (domainVars iface)).or (lastFor k.matches (readBefore b env iface)) =
        expected iface k := by
    intro k hk hl
    have h := hlast k hk
    rw [lastFor_readList hwf (domain_unread k), lastFor_readAfter hwf hplain hk, hl] at h
    simpa using h
  constructor
  · exact hplain
  · intro k hk hl t ht
    rw [← hearly k hk hl, ht]
    rfl
  · intro k hl hnone
    have hk := claimed_of_late hl
    have hdns : k ≠ .dns := by
      rintro rfl
      cases hl
    have h := hlast k hk
    rw [lastFor_readList hwf (domain_unread k), lastFor_readAfter hwf hplain hk,
      lastFor_readBefore hwf hplain hk hdns, hl, hnone] at h
    simpa using h
  · intro hnone
    have h := hearly .dns rfl rfl
    rw [hnone, Option.none_or] at h
    exact (lastFor_dns_iff hwf hplain).mp h
  · exact (numbers_iff hwf hplain).mp habort
  · intro h0 t ht
    obtain ⟨hb, ha⟩ := lastFor_mtu hwf hplain
    have h := hrt.mtu
    rw [hmtu, lastFor_readList hwf domain_not_mtu, hb, ha, ht, h0] at h
    simpa using h

theorem roundTrip_of_readsBack (hwf : WellFormed b env iface) (h : ReadsBack b iface) :
    ∃ d, (readList b env iface).foldlM (storeVar b) NetData.fresh.clear = some d ∧
      RoundTrip iface d := by
  have hplain : Plains iface := h.plain
  obtain ⟨d, hd⟩ := foldlM_storeVar_isSome NetData.fresh.clear
    ((numbers_iff hwf hplain).mpr h.numbers)
  obtain ⟨htext, hmtu, -⟩ := foldlM_storeVar hd
  refine ⟨d, hd, ?_, ?_⟩
  · intro k hk
    rw [htext, text_fresh, Option.or_none, lastFor_readList hwf (domain_unread k),
      lastFor_readAfter hwf hplain hk]
    cases hl : late k with
    | true =>
      have hdns : k ≠ .dns := by
        rintro rfl
        cases hl
      rw [lastFor_readBefore hwf hplain hk hdns, hl]
      cases he : expected iface k with
      | some t => rfl
      | none =>
        rw [h.late k hl he]
        rfl
    | false =>
      cases hd : lastFor k.matches (domainVars iface) with
      | some t =>
        rw [h.early k hk hl t hd]
        rfl
      | none =>
        by_cases hdns : k = .dns
        · subst hdns
          exact (lastFor_dns_iff hwf hplain).mpr (h.dns hd)
        · rw [lastFor_readBefore hwf hplain hk hdns, hl]
          rfl
  · obtain ⟨hb, ha⟩ := lastFor_mtu hwf hplain
    rw [hmtu, lastFor_readList hwf domain_not_mtu, hb, ha]
    by_cases h0 : iface.mtu = 0
    · rw [if_neg (not_not.mpr h0), h0]
      cases hd : lastFor isMtu (domainVars iface) with
      | none => rfl
      | some t => exact h.mtu h0 t hd
    · rw [if_pos h0]
      exact (strtolInt_signedDecimal hwf.long hwf.mtu).1

/-- The file that has been written is read back as it was meant, exactly when nothing in it is too
long, blank or an assignment of its own. -/
theorem readNetInfo_reads_back_iff (hwf : WellFormed b env iface)
    {entries : List (Str × Option Str)} {name text : Str} (cmsconf : Bool)
    (hwritten : (writeEnabledNetInfo b env iface).ifcfg = some text)
    (hfound : entries.find? (fun e => (ascii "ifcfg-").isPrefixOf e.1) = some (name, some text)) :
    (∃ d c, readNetInfo b (some entries) NetData.fresh cmsconf = some (d, c) ∧
        RoundTrip iface d) ↔ ReadsBack b iface := by
  have hread : readNetInfo b (some entries) NetData.fresh cmsconf =
      ((readList b env iface).foldlM (storeVar b) NetData.fresh.clear).map (fun d' =>
        (d', cmsconf || ((d'.text .ipv4).isSome && (d'.text .netmask).isSome))) := by
    unfold readNetInfo
    simp only [Option.bind_some, hfound]
    rw [writeEnabledNetInfo_ifcfg hwritten, readVars_ifcfg hwf]
  rw [hread]
  constructor
  · rintro ⟨d, c, hd, hrt⟩
    obtain ⟨d', hd', he⟩ := Option.map_eq_some_iff.mp hd
    cases he
    exact readsBack_of_roundTrip hwf hd' hrt
  · intro h
    obtain ⟨d, hd, hrt⟩ := roundTrip_of_readsBack hwf h
    exact ⟨d, _, by rw [hd]; rfl, hrt⟩

def plainEnv : WriteEnv where
  noipv4 := false
  noipv6 := true
  hwaddr := some (ascii "00:11:22:33:44:55")
  makesDirectory := true
  opensVendor := true
  closesVendor := true
  opens := true
  closes := true
  renames := true
  opensNetwork := true
  closesNetwork := true
  renamesNetwork := true

def eth0 (servers : List String) : Iface where
  device := ascii "eth0"
  ipaddr := ⟨10, 0, 0, 2⟩
  netmask := ⟨255, 255, 255, 0⟩
  broadcast := ⟨0, 0, 0, 0⟩
  ip6addr := List.replicate 16 0
  ip6prefix := 0
  gateway := ⟨10, 0, 0, 1⟩
  gateway6 := List.replicate 16 0
  dns := fun i => servers[i]?.map ascii
  numdns := servers.length
  hostname := some (ascii "host")
  domain := some (ascii "lan")
  vendorclass := none
  mtu := 1500
  subchannels := some (ascii "0.0.0600,0.0.0601")
  portname := none
  peerid := none
  nettype := none
  ctcprot := none
  ipv4method := .manual
  ipv6method := .unused

def eth0Directory (servers : List String) : List (Str × Option Str) :=
  [(ascii ".", none),
    (ascii "ifcfg-eth0", some (printVars (ifcfgVars ⟨false, 64⟩ plainEnv (eth0 servers))))]

/-- With one name server, everything comes back. -/
theorem readNetInfo_reads_back_oneServer :
    ∃ d c, readNetInfo ⟨false, 64⟩ (some (eth0Directory ["10.0.0.1"])) NetData.fresh false =
      some (d, c) ∧ RoundTrip (eth0 ["10.0.0.1"]) d := by
  have hwf : WellFormed ⟨false, 64⟩ plainEnv (eth0 ["10.0.0.1"]) := by
    constructor
    · decide
    · rfl
    · rfl
    · exact ⟨by decide, by decide⟩
    · rintro t ⟨⟩
      exact ⟨by decide, by decide⟩
    · decide
    · intro i hi
      obtain rfl : i = 0 := Nat.lt_one_iff.mp hi
      exact ⟨_, rfl, by decide⟩
    · decide
    · decide
    · decide
  have hvars : domainVars (eth0 ["10.0.0.1"]) = [] := by decide +kernel
  refine (readNetInfo_reads_back_iff hwf false rfl rfl).mpr ?_
  constructor
  · intro k hk t ht
    cases k
    all_goals cases ht
    all_goals exact ⟨by decide +kernel, by decide +kernel, by decide +kernel⟩
  · intro k _ _ t ht
    rw [hvars] at ht
    cases ht
  · intro k _ _
    rw [hvars]
    rfl
  · intro _
    exact ⟨by decide +kernel, fun _ =>
      ⟨by decide +kernel, by decide +kernel, by decide +kernel⟩⟩
  · rw [hvars]
    exact fun v hv => absurd hv List.not_mem_nil
  · intro h0
    cases h0

/-- Of two name servers the first one is lost. -/
theorem twoServers_lose_first :
    ¬ ∃ d c, readNetInfo ⟨false, 64⟩ (some (eth0Directory ["10.0.0.1", "10.0.0.3"]))
      NetData.fresh false = some (d, c) ∧ RoundTrip (eth0 ["10.0.0.1", "10.0.0.3"]) d := by
  rintro ⟨d, c, hd, hrt⟩
  have hdns : (readNetInfo ⟨false, 64⟩ (some (eth0Directory ["10.0.0.1", "10.0.0.3"]))
      NetData.fresh false).map (fun r => r.1.text .dns) = some (some (ascii "10.0.0.3")) := by
    decide +kernel
  rw [hd, Option.map_some, hrt.text .dns rfl] at hdns
  exact absurd hdns (by decide +kernel)

end Comodoo.NetInfoRoundTrip
