import Comodoo.HttpRedirect

set_option autoImplicit false

/-!
# Splitting a host from its port

`splitHostname` of `stage-1/net.c` on every way to write a host: a name or IPv4 address with an
optional port, an IPv6 address as it is, and one in brackets with an optional port.
-/
namespace Comodoo.SplitHostname
open CString Urls HttpRedirect

structure HostName where
  text : Str
  colon_not_mem : colon ∉ text
  bracket_not_mem : leftBracket ∉ text

/-- A text for an IPv6 address: every one has two colons at least. -/
structure Ipv6 where
  text : Str
  two_colons : 2 ≤ text.count colon
  left_not_mem : leftBracket ∉ text
  right_not_mem : rightBracket ∉ text

structure Port where
  text : Str
  colon_not_mem : colon ∉ text

inductive HostText where
  | name (host : HostName) (port : Option Port)
  | bare (host : Ipv6)
  | bracketed (host : Ipv6) (port : Option Port)

def portSuffix : Option Port → Str
  | none => []
  | some port => colon :: port.text

namespace HostText

def format : HostText → Str
  | name host port => host.text ++ portSuffix port
  | bare host => host.text
  | bracketed host port => leftBracket :: host.text ++ rightBracket :: portSuffix port

def host : HostText → Str
  | name host _ => host.text
  | bare host => host.text
  | bracketed host _ => host.text

def port : HostText → Option Str
  | name _ port => port.map Port.text
  | bare _ => none
  | bracketed _ port => port.map Port.text

def Bracketed : HostText → Prop
  | bracketed _ _ => True
  | _ => False

end HostText

section Counting
variable {c : UInt8} {s : Str}

/-- `strcount` stops at the end of the string unless its last byte is the one it looks for. -/
theorem strcount_eq_count (hne : s ≠ []) (hlast : s.getLast? ≠ some c) :
    strcount c s = some (s.count c) := by
  induction s with
  | nil => exact absurd rfl hne
  | cons b s ih =>
    by_cases hs : s = []
    · subst hs
      have hb : b ≠ c := by simpa using hlast
      simp [strcount, hb]
    · have htail : strcount c s = some (s.count c) := by
        refine ih hs ?_
        rwa [List.getLast?_cons_of_ne_nil hs] at hlast
      by_cases hb : b = c
      · subst hb
        rw [strcount, if_pos rfl, htail, Option.map_some, List.count_cons_self]
      · rw [strcount, if_neg hb, if_neg hs, htail, List.count_cons_of_ne hb]

theorem strcount_eq_none (hend : s = [] ∨ s.getLast? = some c) : strcount c s = none := by
  induction s with
  | nil => rfl
  | cons b s ih =>
    have hlast : (b :: s).getLast? = some c := hend.resolve_left (List.cons_ne_nil _ _)
    by_cases hs : s = []
    · subst hs
      have hb : b = c := by simpa using hlast
      simp [strcount, hb]
    · rw [List.getLast?_cons_of_ne_nil hs] at hlast
      rw [strcount, ih (Or.inr hlast), Option.map_none, if_neg hs, ite_self]

theorem strcount_isSome_iff : (strcount c s).isSome = true ↔ s ≠ [] ∧ s.getLast? ≠ some c := by
  by_cases hend : s = [] ∨ s.getLast? = some c
  · rw [strcount_eq_none hend]
    tauto
  · rw [not_or] at hend
    rw [strcount_eq_count hend.1 hend.2]
    tauto

end Counting

section Splitting
variable {str : Str}

theorem splitPlain_isSome_iff :
    (splitPlain str).isSome = true ↔ str ≠ [] ∧ str.getLast? ≠ some colon := by
  rw [← strcount_isSome_iff, splitPlain]
  cases strcount colon str with
  | none => rfl
  | some n =>
    dsimp only
    by_cases hn : 1 < n
    · rw [if_pos hn]
      rfl
    · rw [if_neg hn]
      cases strrchr colon str with
      | none => rfl
      | some r => rfl

theorem splitHostname_name (host : HostName) (port : Option Port) :
    splitHostname (host.text ++ portSuffix port) = splitPlain (host.text ++ portSuffix port) := by
  apply splitHostname_plain
  cases htext : host.text with
  | nil =>
    cases port with
    | none => simp [portSuffix]
    | some port =>
      have hne : colon ≠ leftBracket := by decide
      simpa [portSuffix] using hne
  | cons b rest =>
    have hb := host.bracket_not_mem
    rw [htext, List.mem_cons, not_or] at hb
    simpa using Ne.symm hb.1

theorem splitHostname_bare (host : Ipv6) : splitHostname host.text = splitPlain host.text := by
  apply splitHostname_plain
  intro hhead
  exact host.left_not_mem (List.mem_of_mem_head? hhead)

theorem splitHostname_bracketed (host : Ipv6) (port : Option Port) :
    splitHostname (leftBracket :: host.text ++ rightBracket :: portSuffix port) =
      some (host.text, port.map Port.text) := by
  have hmem : rightBracket ∉ leftBracket :: host.text := by
    rw [List.mem_cons, not_or]
    exact ⟨by decide, host.right_not_mem⟩
  have hport : (strrchr colon (portSuffix port)).map Prod.snd = port.map Port.text := by
    cases port with
    | none => rfl
    | some port =>
      have hlast := strrchr_append [] port.colon_not_mem
      rw [List.nil_append] at hlast
      rw [portSuffix, hlast]
      rfl
  have hhead : (leftBracket :: host.text ++ rightBracket :: portSuffix port).head? =
      some leftBracket := rfl
  rw [splitHostname, strchr_append _ _ _ hmem]
  dsimp only
  rw [if_pos hhead, hport]
  rfl

theorem splitPlain_name (host : HostName) (port : Option Port)
    (hsome : (splitPlain (host.text ++ portSuffix port)).isSome = true) :
    splitPlain (host.text ++ portSuffix port) = some (host.text, port.map Port.text) := by
  obtain ⟨hne, hlast⟩ := splitPlain_isSome_iff.mp hsome
  have hzero : host.text.count colon = 0 := List.count_eq_zero.mpr host.colon_not_mem
  rw [splitPlain, strcount_eq_count hne hlast]
  dsimp only
  rw [List.count_append, hzero]
  cases port with
  | none =>
    have hnone : strrchr colon (host.text ++ []) = none := by
      rw [List.append_nil]
      exact strrchr_eq_none host.colon_not_mem
    rw [portSuffix, if_neg (by simp), hnone, List.append_nil]
    rfl
  | some port =>
    have hport : port.text.count colon = 0 := List.count_eq_zero.mpr port.colon_not_mem
    rw [portSuffix, List.count_cons_self, hport, if_neg (by omega),
      strrchr_append _ port.colon_not_mem]
    rfl

theorem splitPlain_bare (host : Ipv6) (hsome : (splitPlain host.text).isSome = true) :
    splitPlain host.text = some (host.text, none) := by
  obtain ⟨hne, hlast⟩ := splitPlain_isSome_iff.mp hsome
  have htwo : 1 < host.text.count colon := host.two_colons
  rw [splitPlain, strcount_eq_count hne hlast]
  dsimp only
  rw [if_pos htwo]

/-- The host and the port come back if and only if the text is in brackets or ends in something
other than a colon. -/
theorem splitHostname_format_iff (text : HostText) :
    splitHostname text.format = some (text.host, text.port) ↔
      text.Bracketed ∨ text.format ≠ [] ∧ text.format.getLast? ≠ some colon := by
  cases text with
  | name host port =>
    have hformat : (HostText.name host port).format = host.text ++ portSuffix port := rfl
    rw [hformat, splitHostname_name, ← splitPlain_isSome_iff]
    constructor
    · intro hsplit
      rw [hsplit]
      exact Or.inr rfl
    · rintro (hbracketed | hsome)
      · exact hbracketed.elim
      · exact splitPlain_name host port hsome
  | bare host =>
    have hformat : (HostText.bare host).format = host.text := rfl
    rw [hformat, splitHostname_bare, ← splitPlain_isSome_iff]
    constructor
    · intro hsplit
      rw [hsplit]
      exact Or.inr rfl
    · rintro (hbracketed | hsome)
      · exact hbracketed.elim
      · exact splitPlain_bare host hsome
  | bracketed host port => exact iff_of_true (splitHostname_bracketed host port) (Or.inl trivial)

/-- `strindex` goes on behind the terminator of `fe80::`. -/
theorem splitHostname_overruns :
    ¬ ∀ text : HostText, splitHostname text.format = some (text.host, text.port) := by
  intro hall
  have hbare := hall (.bare ⟨ascii "fe80::", by decide +kernel, by decide +kernel,
    by decide +kernel⟩)
  have hnone : splitHostname (ascii "fe80::") = none := by decide +kernel
  have hsome : splitHostname (ascii "fe80::") = some (ascii "fe80::", none) := hbare
  rw [hnone] at hsome
  cases hsome

end Splitting

end Comodoo.SplitHostname
