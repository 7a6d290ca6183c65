import Comodoo.CString
import Comodoo.NetIface
import Comodoo.StepRun
import Mathlib.Logic.Function.Basic

set_option autoImplicit false

/-!
# Name servers from the command line

The loop of `setupIfaceStruct` in `stage-1/net.c` over the addresses of `dns=`. It goes on to the next
token only behind an address.
-/
namespace Comodoo.NameServers
open CString InetText NetIface StepRun

abbrev comma : UInt8 := 0x2c
abbrev INET_ADDRSTRLEN : ℕ := 16

/-- The interface, and `c` with what `strtok` has left behind it. -/
structure Scan where
  iface : Iface
  c : Option (Str × Str)

def addServer (iface : Iface) (c : Str) : Iface :=
  { iface with
    dns := Function.update iface.dns iface.numdns (some c),
    numdns := iface.numdns + 1 }

def dnsRound (s : Scan) (_ : Unit) : Status Scan Iface :=
  match s.c with
  | none => .stopped s.iface
  | some (c, rest) =>
    if s.iface.numdns < MAXNS then
      match inetPton4 c with
      | some addr =>
        let iface := addServer s.iface c
        if (inetNtop4 addr).length < INET_ADDRSTRLEN then .running ⟨iface, strtok comma rest⟩
        else .running ⟨iface, s.c⟩
      | none =>
        match inetPton6 c with
        | some addr6 =>
          let iface := addServer s.iface c
          match inetNtop6 addr6 with
          | some _ => .running ⟨iface, strtok comma rest⟩
          | none => .running ⟨iface, s.c⟩
        | none => .running s
    else .stopped s.iface

def setupNameServers (iface : Iface) (dns : Str) (n : ℕ) : Status Scan Iface :=
  run dnsRound ⟨iface, strtok comma dns⟩ (List.replicate n ())

def isAddress (c : Str) : Bool := (inetPton4 c).isSome || (inetPton6 c).isSome

def servers (iface : Iface) : List (Option Str) := (List.range iface.numdns).map iface.dns

def fitting (iface : Iface) (dns : Str) : List Str :=
  (tokens comma dns).take (MAXNS - iface.numdns)

def firstServers (dns : Str) : List Str := ((tokens comma dns).filter isAddress).take MAXNS

def SetsServers (iface : Iface) (dns : Str) : Prop :=
  ∃ n iface', setupNameServers iface dns n = .stopped iface' ∧
    servers iface' = (firstServers dns).map some

section Rounds
variable {iface : Iface} {c rest : Str}

theorem servers_addServer (iface : Iface) (c : Str) :
    servers (addServer iface c) = servers iface ++ [some c] := by
  rw [servers, addServer]
  dsimp only
  rw [List.range_succ, List.map_append, List.map_singleton, Function.update_self]
  congr 1
  refine List.map_congr_left (fun i hi => ?_)
  rw [Function.update_of_ne]
  have hlt := List.mem_range.mp hi
  omega

theorem dnsRound_address (hroom : iface.numdns < MAXNS) (haddr : isAddress c = true) :
    dnsRound ⟨iface, some (c, rest)⟩ () = .running ⟨addServer iface c, strtok comma rest⟩ := by
  rw [dnsRound]
  dsimp only
  rw [if_pos hroom]
  cases h4 : inetPton4 c with
  | some addr =>
    dsimp only
    rw [if_pos (Nat.lt_succ_of_le (inetNtop4_length_le addr))]
  | none =>
    rw [isAddress, h4, Option.isSome_none, Bool.false_or] at haddr
    obtain ⟨addr6, h6⟩ := Option.isSome_iff_exists.mp haddr
    obtain ⟨text, htext⟩ := inetNtop6_isSome (inetPton6_length h6)
    rw [h6]
    dsimp only
    rw [htext]

theorem dnsRound_invalid (hroom : iface.numdns < MAXNS) (haddr : isAddress c = false) :
    dnsRound ⟨iface, some (c, rest)⟩ () = .running ⟨iface, some (c, rest)⟩ := by
  rw [isAddress, Bool.or_eq_false_iff, Option.isSome_eq_false_iff, Option.isSome_eq_false_iff,
    Option.isNone_iff_eq_none, Option.isNone_iff_eq_none] at haddr
  rw [dnsRound]
  dsimp only
  rw [if_pos hroom, haddr.1, haddr.2]

theorem dnsRound_ends {s : Scan} (hend : s.c = none ∨ MAXNS ≤ s.iface.numdns) :
    dnsRound s () = .stopped s.iface := by
  rw [dnsRound]
  cases hc : s.c with
  | none => rfl
  | some c =>
    rw [hc] at hend
    rcases hend with hend | hend
    · cases hend
    · exact if_neg (Nat.not_lt.mpr hend)

theorem setupNameServers_ends {dns : Str} (hend : strtok comma dns = none ∨ MAXNS ≤ iface.numdns) :
    setupNameServers iface dns 1 = .stopped iface :=
  run_cons_stopped _ (dnsRound_ends (s := ⟨iface, strtok comma dns⟩) hend)

theorem setupNameServers_succ {dns : Str} (hroom : iface.numdns < MAXNS)
    (hfirst : strtok comma dns = some (c, rest)) (haddr : isAddress c = true) (n : ℕ) :
    setupNameServers iface dns (n + 1) = setupNameServers (addServer iface c) rest n := by
  rw [setupNameServers, hfirst, List.replicate_succ]
  exact run_cons_running _ (dnsRound_address hroom haddr)

theorem strtok_of_tokens {dns t : Str} {ts : List Str} (htokens : tokens comma dns = t :: ts) :
    ∃ rest, strtok comma dns = some (t, rest) ∧ tokens comma rest = ts := by
  rcases strtok_tokens comma dns with ⟨-, hnil⟩ | ⟨t', rest, hfirst, hcons, -⟩
  · rw [hnil] at htokens
    cases htokens
  · rw [htokens] at hcons
    obtain ⟨rfl, hrest⟩ := List.cons.inj hcons
    exact ⟨rest, hfirst, hrest.symm⟩

theorem fitting_cons {dns : Str} {t : Str} {ts : List Str} (hroom : iface.numdns < MAXNS)
    (htokens : tokens comma dns = t :: ts) (hrest : tokens comma rest = ts) (c : Str) :
    fitting iface dns = t :: fitting (addServer iface c) rest := by
  have hnum : MAXNS - iface.numdns = MAXNS - (addServer iface c).numdns + 1 := by
    change MAXNS - iface.numdns = MAXNS - (iface.numdns + 1) + 1
    omega
  rw [fitting, fitting, htokens, hrest, hnum, List.take_succ_cons]

/-- With addresses only among the tokens that fit, the loop ends and has added them. -/
theorem setupNameServers_adds (iface : Iface) (dns : Str)
    (hvalid : ∀ c ∈ fitting iface dns, isAddress c = true) :
    ∃ n iface', setupNameServers iface dns n = .stopped iface' ∧
      servers iface' = servers iface ++ (fitting iface dns).map some := by
  generalize htokens : tokens comma dns = ts
  induction ts generalizing iface dns with
  | nil =>
    have hnone : strtok comma dns = none := by
      rcases strtok_tokens comma dns with ⟨hnone, -⟩ | ⟨t, rest, -, hcons, -⟩
      · exact hnone
      · rw [htokens] at hcons
        cases hcons
    refine ⟨1, iface, setupNameServers_ends (Or.inl hnone), ?_⟩
    rw [fitting, htokens, List.take_nil, List.map_nil, List.append_nil]
  | cons t ts ih =>
    obtain ⟨rest, hfirst, hrest⟩ := strtok_of_tokens htokens
    by_cases hroom : iface.numdns < MAXNS
    · rw [fitting_cons hroom htokens hrest t] at hvalid ⊢
      obtain ⟨n, iface', hrun, hservers⟩ := ih (addServer iface t) rest
        (fun c hc => hvalid c (List.mem_cons_of_mem t hc)) hrest
      refine ⟨n + 1, iface', ?_, ?_⟩
      · rw [setupNameServers_succ hroom hfirst (hvalid t List.mem_cons_self), hrun]
      · rw [hservers, servers_addServer, List.append_assoc]
        rfl
    · have hfull : MAXNS ≤ iface.numdns := Nat.le_of_not_lt hroom
      refine ⟨1, iface, setupNameServers_ends (Or.inr hfull), ?_⟩
      rw [fitting, Nat.sub_eq_zero_of_le hfull, List.take_zero, List.map_nil, List.append_nil]

/-- A token that is no address, and for which there is room, is never left. -/
theorem setupNameServers_stuck (iface : Iface) (dns : Str)
    (hinvalid : ¬ ∀ c ∈ fitting iface dns, isAddress c = true) (n : ℕ) :
    ∃ s, setupNameServers iface dns n = .running s := by
  generalize htokens : tokens comma dns = ts
  induction ts generalizing iface dns n with
  | nil =>
    refine absurd (fun c hc => ?_) hinvalid
    rw [fitting, htokens, List.take_nil] at hc
    exact absurd hc List.not_mem_nil
  | cons t ts ih =>
    obtain ⟨rest, hfirst, hrest⟩ := strtok_of_tokens htokens
    by_cases hroom : iface.numdns < MAXNS
    · by_cases haddr : isAddress t = true
      · rw [fitting_cons hroom htokens hrest t, List.forall_mem_cons, not_and] at hinvalid
        cases n with
        | zero => exact ⟨_, rfl⟩
        | succ n =>
          rw [setupNameServers_succ hroom hfirst haddr]
          exact ih (addServer iface t) rest (hinvalid haddr) n hrest
      · rw [Bool.not_eq_true] at haddr
        have hstep : ∀ s : Scan, s = ⟨iface, some (t, rest)⟩ →
            ∃ s', dnsRound s () = .running s' ∧ s' = ⟨iface, some (t, rest)⟩ := by
          rintro s rfl
          exact ⟨_, dnsRound_invalid hroom haddr, rfl⟩
        rw [setupNameServers, hfirst]
        obtain ⟨s', hrun, -⟩ := run_forever hstep rfl n
        exact ⟨s', hrun⟩
    · refine absurd (fun c hc => ?_) hinvalid
      rw [fitting, Nat.sub_eq_zero_of_le (Nat.le_of_not_lt hroom), List.take_zero] at hc
      exact absurd hc List.not_mem_nil

theorem servers_unused (hnone : iface.numdns = 0) : servers iface = [] := by
  rw [servers, hnone]
  rfl

theorem fitting_eq_firstServers {dns : Str} (hnone : iface.numdns = 0)
    (hvalid : ∀ c ∈ fitting iface dns, isAddress c = true) :
    fitting iface dns = firstServers dns := by
  rw [fitting, hnone, Nat.sub_zero] at hvalid ⊢
  rw [firstServers]
  have hsplit : (tokens comma dns).filter isAddress =
      (tokens comma dns).take MAXNS ++ ((tokens comma dns).drop MAXNS).filter isAddress := by
    conv_lhs => rw [← List.take_append_drop MAXNS (tokens comma dns), List.filter_append]
    rw [List.filter_eq_self.mpr hvalid]
  rw [hsplit]
  by_cases hlen : (tokens comma dns).length ≤ MAXNS
  · rw [List.drop_eq_nil_of_le hlen, List.filter_nil, List.append_nil, List.take_take, Nat.min_self]
  · have htake : ((tokens comma dns).take MAXNS).length = MAXNS :=
      List.length_take_of_le (Nat.le_of_not_le hlen)
    rw [List.take_append_of_le_length (Nat.le_of_eq htake.symm), List.take_take, Nat.min_self]

/-- The loop is right when the tokens that fit are addresses, and the interface had no entries or
they are, followed by these tokens, the first addresses of the string. -/
theorem setupNameServers_iff (iface : Iface) (dns : Str) :
    SetsServers iface dns ↔
      (∀ c ∈ fitting iface dns, isAddress c = true) ∧
      (iface.numdns = 0 ∨
        servers iface ++ (fitting iface dns).map some = (firstServers dns).map some) := by
  constructor
  · rintro ⟨n, iface', hrun, hservers⟩
    have hvalid : ∀ c ∈ fitting iface dns, isAddress c = true := by
      by_contra hinvalid
      obtain ⟨s, hs⟩ := setupNameServers_stuck iface dns hinvalid n
      rw [hs] at hrun
      cases hrun
    obtain ⟨m, iface'', hrun', hservers'⟩ := setupNameServers_adds iface dns hvalid
    refine ⟨hvalid, Or.inr ?_⟩
    rw [← hservers', ← hservers, run_replicate_inj hrun' hrun]
  · rintro ⟨hvalid, hbefore⟩
    obtain ⟨n, iface', hrun, hservers⟩ := setupNameServers_adds iface dns hvalid
    refine ⟨n, iface', hrun, hservers.trans ?_⟩
    rcases hbefore with hnone | heq
    · rw [servers_unused hnone, List.nil_append, fitting_eq_firstServers hnone hvalid]
    · exact heq

/-- The loop stays at `ns1`. -/
theorem hostName_not_set : ¬ SetsServers ifaceInit (ascii "10.0.0.1,ns1") := by
  rintro ⟨n, iface', hrun, -⟩
  obtain ⟨s, hs⟩ := setupNameServers_stuck ifaceInit (ascii "10.0.0.1,ns1") (by decide) n
  rw [hs] at hrun
  cases hrun

end Rounds

end Comodoo.NameServers
