import Comodoo.LoaderArgs
import Comodoo.Urls

set_option autoImplicit false

/-!
# The `ip=` argument

`parseCmdLineIp` of `stage-1/loader.c` on arguments of any number of fields between colons.
-/
namespace Comodoo.CmdLineIp
open CString Urls LoaderArgs

/-- What the function sets; `ipParam` is `LOADER_FLAGS_IP_PARAM`. -/
structure IpSettings where
  ipv4 : Option Str
  gateway : Option Str
  netmask : Option Str
  ipinfoSet : Bool
  ipParam : Bool
  deriving DecidableEq, Repr

/-- The end of the function, which the early returns do not reach. -/
def setIpParam (s : IpSettings) : IpSettings :=
  if s.ipinfoSet then { s with ipParam := true } else s

/-- From the boot server on. The tests `end + 1 == '\0'` compare a pointer and never hold. -/
def parseAfterIp (s : IpSettings) (start : Str) : IpSettings :=
  match strchr colon start with
  | none => s
  | some (_, start) =>
    match strchr colon start with
    | none => { s with gateway := some start }
    | some (gateway, start) =>
      setIpParam { s with gateway := some gateway, netmask := some start }

/-- `none` is a NULL `end`. -/
def parseCmdLineIp (s : IpSettings) (argv : Str) : Option IpSettings :=
  if colon ∈ argv then
    match strchr colon (argv.drop 3) with
    | none => none
    | some (ipv4, start) => some (parseAfterIp { s with ipv4 := some ipv4, ipinfoSet := true } start)
  else some (setIpParam { s with ipv4 := some (argv.drop 3), ipinfoSet := true })

structure Field where
  text : Str
  colon_not_mem : colon ∉ text

def fieldsText (fields : List Field) : Str := fields.flatMap (fun field => colon :: field.text)

/-- `ip=` in any letter case, the client, and what comes behind it: the boot server, the gateway,
the netmask and any number of further fields. -/
structure IpArgument where
  name : Str
  client : Field
  more : List Field
  name_eq : sameCase name (ascii "ip=") = true

def IpArgument.format (arg : IpArgument) : Str :=
  arg.name ++ (arg.client.text ++ fieldsText arg.more)

/-- The fields arrive, a missing one leaves its setting alone, and the flag comes with
`ipinfo_set`. -/
structure TakesFields (arg : IpArgument) (s s' : IpSettings) : Prop where
  ipv4 : s'.ipv4 = some arg.client.text
  gateway : s'.gateway = ((arg.more[1]?).map Field.text).or s.gateway
  netmask : s'.netmask = ((arg.more[2]?).map Field.text).or s.netmask
  ipParam : s'.ipinfoSet = true → s'.ipParam = true

section Fields
variable {s : IpSettings} {arg : IpArgument}

theorem fieldsText_cons (field : Field) (fields : List Field) :
    fieldsText (field :: fields) = colon :: (field.text ++ fieldsText fields) := rfl

theorem strchr_last (field : Field) : strchr colon (field.text ++ fieldsText []) = none := by
  rw [strchr_eq_none_iff]
  simpa [fieldsText] using field.colon_not_mem

theorem strchr_field (field next : Field) (fields : List Field) :
    strchr colon (field.text ++ fieldsText (next :: fields)) =
      some (field.text, next.text ++ fieldsText fields) :=
  strchr_append _ _ _ field.colon_not_mem

theorem name_length (arg : IpArgument) : arg.name.length = 3 := by
  have hlower : arg.name.map tolower = (ascii "ip=").map tolower := of_decide_eq_true arg.name_eq
  have hlen := congrArg List.length hlower
  rwa [List.length_map, List.length_map] at hlen

theorem format_drop (arg : IpArgument) :
    arg.format.drop 3 = arg.client.text ++ fieldsText arg.more := by
  rw [IpArgument.format, ← name_length arg, List.drop_left]

theorem colon_not_mem_name (arg : IpArgument) : colon ∉ arg.name := by
  intro hmem
  have hlower : arg.name.map tolower = (ascii "ip=").map tolower := of_decide_eq_true arg.name_eq
  have hmap : tolower colon ∈ (ascii "ip=").map tolower := by
    rw [← hlower]
    exact List.mem_map_of_mem hmem
  exact absurd hmap (by decide)

theorem parse_client_only (hmore : arg.more = []) :
    parseCmdLineIp s arg.format =
      some (setIpParam { s with ipv4 := some arg.client.text, ipinfoSet := true }) := by
  have hnone : colon ∉ arg.format := by
    rw [IpArgument.format, hmore]
    simpa [fieldsText] using ⟨colon_not_mem_name arg, arg.client.colon_not_mem⟩
  rw [parseCmdLineIp, if_neg hnone, format_drop, hmore]
  simp [fieldsText]

theorem parse_more {server : Field} {fields : List Field} (hmore : arg.more = server :: fields) :
    parseCmdLineIp s arg.format =
      some (parseAfterIp { s with ipv4 := some arg.client.text, ipinfoSet := true }
        (server.text ++ fieldsText fields)) := by
  have hcolon : colon ∈ arg.format := by
    rw [IpArgument.format, hmore, fieldsText_cons]
    simp
  rw [parseCmdLineIp, if_pos hcolon, format_drop, hmore, strchr_field]

/-- With four fields or more the rest of the argument becomes the netmask. -/
theorem parseAfterIp_rest (server gateway netmask : Field) (fields : List Field) :
    parseAfterIp s (server.text ++ fieldsText (gateway :: netmask :: fields)) =
      setIpParam { s with gateway := some gateway.text,
                          netmask := some (netmask.text ++ fieldsText fields) } := by
  rw [parseAfterIp, strchr_field]
  dsimp only
  rw [strchr_field]

theorem parseAfterIp_gateway (server gateway : Field) :
    parseAfterIp s (server.text ++ fieldsText [gateway]) =
      { s with gateway := some gateway.text } := by
  rw [parseAfterIp, strchr_field]
  dsimp only
  rw [strchr_last]
  simp [fieldsText]

theorem parseAfterIp_server (server : Field) :
    parseAfterIp s (server.text ++ fieldsText []) = s := by
  rw [parseAfterIp, strchr_last]

theorem takes_iff {s' : IpSettings} (hparse : parseCmdLineIp s arg.format = some s') :
    (∃ s', parseCmdLineIp s arg.format = some s' ∧ TakesFields arg s s') ↔
      TakesFields arg s s' := by
  rw [hparse]
  constructor
  · rintro ⟨s'', heq, htakes⟩
    rwa [← Option.some.inj heq] at htakes
  · exact fun htakes => ⟨s', rfl, htakes⟩

theorem client_takes (hmore : arg.more = []) : ∃ s', parseCmdLineIp s arg.format = some s' ∧
    TakesFields arg s s' := by
  refine ⟨_, parse_client_only hmore, rfl, ?_, ?_, fun _ => rfl⟩
  · rw [hmore]
    rfl
  · rw [hmore]
    rfl

/-- The early returns leave the flag as it is. -/
theorem server_takes_iff {server : Field} (hmore : arg.more = [server]) :
    (∃ s', parseCmdLineIp s arg.format = some s' ∧ TakesFields arg s s') ↔ s.ipParam = true := by
  have hparse := parse_more (s := s) hmore
  rw [parseAfterIp_server] at hparse
  rw [takes_iff hparse]
  refine ⟨fun htakes => htakes.ipParam rfl, fun hflag => ⟨rfl, ?_, ?_, fun _ => hflag⟩⟩
  · rw [hmore]
    rfl
  · rw [hmore]
    rfl

theorem gateway_takes_iff {server gateway : Field} (hmore : arg.more = [server, gateway]) :
    (∃ s', parseCmdLineIp s arg.format = some s' ∧ TakesFields arg s s') ↔ s.ipParam = true := by
  have hparse := parse_more (s := s) hmore
  rw [parseAfterIp_gateway] at hparse
  rw [takes_iff hparse]
  refine ⟨fun htakes => htakes.ipParam rfl, fun hflag => ⟨rfl, ?_, ?_, fun _ => hflag⟩⟩
  · rw [hmore]
    rfl
  · rw [hmore]
    rfl

theorem netmask_takes {server gateway netmask : Field}
    (hmore : arg.more = [server, gateway, netmask]) :
    ∃ s', parseCmdLineIp s arg.format = some s' ∧ TakesFields arg s s' := by
  have hparse := parse_more (s := s) hmore
  rw [parseAfterIp_rest] at hparse
  refine ⟨_, hparse, rfl, ?_, ?_, fun _ => rfl⟩
  · rw [hmore]
    rfl
  · rw [hmore]
    exact congrArg some (List.append_nil netmask.text)

theorem further_not_takes {server gateway netmask next : Field} {fields : List Field}
    (hmore : arg.more = server :: gateway :: netmask :: next :: fields) :
    ¬ ∃ s', parseCmdLineIp s arg.format = some s' ∧ TakesFields arg s s' := by
  have hparse := parse_more (s := s) hmore
  rw [parseAfterIp_rest] at hparse
  rw [takes_iff hparse]
  intro htakes
  have hnetmask := htakes.netmask
  rw [hmore] at hnetmask
  have htext : netmask.text ++ fieldsText (next :: fields) = netmask.text :=
    Option.some.inj hnetmask
  apply netmask.colon_not_mem
  rw [← htext, fieldsText_cons]
  simp

/-- The argument is taken as it is meant with the client alone or with all four fields; with two
or three of them only if the flag was set before. -/
theorem parseCmdLineIp_takesFields_iff (s : IpSettings) (arg : IpArgument) :
    (∃ s', parseCmdLineIp s arg.format = some s' ∧ TakesFields arg s s') ↔
      arg.more.length = 0 ∨ arg.more.length = 3 ∨ (arg.more.length < 3 ∧ s.ipParam = true) := by
  rcases hmore : arg.more with - | ⟨server, - | ⟨gateway, - | ⟨netmask, - | ⟨next, fields⟩⟩⟩⟩
  · exact iff_of_true (client_takes hmore) (Or.inl rfl)
  · rw [server_takes_iff hmore]
    simp
  · rw [gateway_takes_iff hmore]
    simp
  · exact iff_of_true (netmask_takes hmore) (Or.inr (Or.inl rfl))
  · refine iff_of_false (further_not_takes hmore) ?_
    simp only [List.length_cons]
    omega

/-- `ip=192.168.0.2:192.168.0.1` sets the address without the flag. -/
theorem twoFields_not_taken :
    ¬ ∀ s arg, ∃ s', parseCmdLineIp s (IpArgument.format arg) = some s' ∧
      TakesFields arg s s' := by
  intro hall
  obtain ⟨s', hparse, htakes⟩ := hall ⟨none, none, none, false, false⟩
    ⟨ascii "ip=", ⟨ascii "192.168.0.2", by decide +kernel⟩,
      [⟨ascii "192.168.0.1", by decide +kernel⟩], by decide +kernel⟩
  have hresult : parseCmdLineIp ⟨none, none, none, false, false⟩
      (ascii "ip=192.168.0.2:192.168.0.1") =
      some ⟨some (ascii "192.168.0.2"), none, none, true, false⟩ := by decide +kernel
  have hformat : parseCmdLineIp ⟨none, none, none, false, false⟩
      (ascii "ip=192.168.0.2:192.168.0.1") = some s' := hparse
  rw [hresult] at hformat
  rw [← Option.some.inj hformat] at htakes
  exact absurd (htakes.ipParam rfl) (by decide)

end Fields

end Comodoo.CmdLineIp
