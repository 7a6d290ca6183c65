import Comodoo.NetInfoFile

set_option autoImplicit false

/-!
# Reading network configuration files

`readNetInfo` of `stage-1/loader.c`.
-/
namespace Comodoo.NetInfo
open CString DecimalText LineBuffer LoaderSettings NetInfoFile

/-- The settings of `struct loaderData_s` that are texts. -/
inductive Key where
  | ipv4
  | netmask
  | gateway
  | dns
  | peerid
  | subchannels
  | portname
  | nettype
  | ctcprot
  | layer2
  | macaddr
  | hostname
  deriving DecidableEq, Repr

/-- The variable a setting is read from, and how much of it is compared. -/
def Key.name : Key → String × ℕ
  | .ipv4 => ("IPADDR", 6)
  | .netmask => ("NETMASK", 7)
  | .gateway => ("GATEWAY", 7)
  | .dns => ("DNS", 3)
  | .peerid => ("PEERID", 6)
  | .subchannels => ("SUBCHANNELS", 12)
  | .portname => ("PORTNAME", 8)
  | .nettype => ("NETTYPE", 7)
  | .ctcprot => ("CTCPROT", 7)
  | .layer2 => ("LAYER2", 6)
  | .macaddr => ("MACADDR", 7)
  | .hostname => ("HOSTNAME", 8)

def Key.matches (k : Key) (vname : Str) : Bool := sameUpto k.name.2 vname (ascii k.name.1)

def isMtu (vname : Str) : Bool := sameUpto 3 vname (ascii "MTU")

structure NetData where
  text : Key → Option Str
  mtu : ℤ

def NetData.fresh : NetData := ⟨fun _ => none, 0⟩

/-- What is NULL before the file is read. -/
def NetData.clear (d : NetData) : NetData :=
  { d with text := fun k => if k = .hostname then d.text k else none }

def cut (buf : Str) : Str := (buf.takeWhile (fun b => !isspace b)).takeWhile (· ≠ 0)

def assignment (buf : Str) : Option Var :=
  if equals ∈ cut buf then
    match strtok equals (cut buf) with
    | none => none
    | some (vname, rest) => (strtok equals rest).map (fun vparm => (vname, vparm.1))
  else none

/-- `none` is `abort`. -/
def storeVar (b : Build) (d : NetData) (v : Var) : Option NetData :=
  let d' := { d with text := fun k => if k.matches v.1 then some v.2 else d.text k }
  if isMtu v.1 then
    if numberAborts b.longBits v.2 then none
    else some { d' with mtu := strtolInt b.longBits v.2 }
  else some d'

def bufsiz : ℕ := 100

def readVars (b : Build) (d : NetData) (text : Str) : Option NetData :=
  ((pieces (bufsiz - 1) [] text).filterMap assignment).foldlM (storeVar b) d

/-- The directory in the order it is read; a file that cannot be opened is `none`. The second
component is the flag `HAVE_CMSCONF`. -/
def readNetInfo (b : Build) (directory : Option (List (Str × Option Str))) (d : NetData)
    (cmsconf : Bool) : Option (NetData × Bool) :=
  match directory.bind (fun entries =>
      (entries.find? (fun e => (ascii "ifcfg-").isPrefixOf e.1)).bind Prod.snd) with
  | none => some (d, cmsconf)
  | some text => (readVars b d.clear text).map (fun d' =>
      (d', cmsconf || ((d'.text .ipv4).isSome && (d'.text .netmask).isSome)))

/-! ## The settings -/

def lastFor (p : Str → Bool) (vars : List Var) : Option Str :=
  ((vars.filter (fun v => p v.1)).map Prod.snd).getLast?

theorem lastFor_append (p : Str → Bool) (l l' : List Var) :
    lastFor p (l ++ l') = (lastFor p l').or (lastFor p l) := by
  unfold lastFor
  rw [List.filter_append, List.map_append, List.getLast?_append]

theorem lastFor_eq_none {p : Str → Bool} {l : List Var} (h : ∀ v ∈ l, p v.1 = false) :
    lastFor p l = none := by
  unfold lastFor
  rw [List.filter_eq_nil_iff.mpr (fun v hv => by simp [h v hv])]
  rfl

theorem mem_of_lastFor {p : Str → Bool} {l : List Var} {w : Str} (h : lastFor p l = some w) :
    ∃ n, (n, w) ∈ l ∧ p n = true := by
  obtain ⟨v, hv, rfl⟩ := List.mem_map.mp (List.mem_of_getLast? h)
  exact ⟨v.1, List.mem_of_mem_filter hv, by simpa using (List.mem_filter.mp hv).2⟩

theorem foldlM_storeVar {b : Build} {vars : List Var} {d d' : NetData}
    (h : vars.foldlM (storeVar b) d = some d') :
    (∀ k, d'.text k = (lastFor k.matches vars).or (d.text k)) ∧
      d'.mtu = ((lastFor isMtu vars).map (strtolInt b.longBits)).getD d.mtu ∧
      ∀ v ∈ vars, isMtu v.1 = true → numberAborts b.longBits v.2 = false := by
  induction vars generalizing d with
  | nil =>
    cases h
    exact ⟨fun k => rfl, rfl, by simp⟩
  | cons v vars ih =>
    rw [List.foldlM_cons] at h
    obtain ⟨d₁, hd₁, h⟩ := Option.bind_eq_some_iff.mp h
    obtain ⟨htext, hmtu, habort⟩ := ih h
    have hcons : ∀ p, lastFor p (v :: vars) =
        (lastFor p vars).or (if p v.1 then some v.2 else none) := by
      intro p
      rw [← List.singleton_append, lastFor_append]
      cases hp : p v.1 with
      | false => simp [lastFor, hp]
      | true => simp [lastFor, hp]
    have hstore : (∀ k, d₁.text k = if k.matches v.1 then some v.2 else d.text k) ∧
        d₁.mtu = (if isMtu v.1 then strtolInt b.longBits v.2 else d.mtu) ∧
        (isMtu v.1 = true → numberAborts b.longBits v.2 = false) := by
      unfold storeVar at hd₁
      dsimp only at hd₁
      split_ifs at hd₁ with hm ha
      · cases hd₁
        exact ⟨fun k => rfl, (if_pos hm).symm, fun _ => by simpa using ha⟩
      · cases hd₁
        exact ⟨fun k => rfl, (if_neg hm).symm, fun h => absurd h hm⟩
    refine ⟨?_, ?_, ?_⟩
    · intro k
      rw [htext, hcons, hstore.1]
      cases lastFor k.matches vars with
      | some w => rfl
      | none =>
        cases k.matches v.1 with
        | false => rfl
        | true => rfl
    · rw [hmtu, hcons, hstore.2.1]
      cases lastFor isMtu vars with
      | some w => rfl
      | none =>
        cases isMtu v.1 with
        | false => rfl
        | true => rfl
    · intro u hu
      rcases List.mem_cons.mp hu with rfl | hu
      · exact hstore.2.2
      · exact habort u hu

theorem foldlM_storeVar_isSome {b : Build} {vars : List Var} (d : NetData)
    (h : ∀ v ∈ vars, isMtu v.1 = true → numberAborts b.longBits v.2 = false) :
    ∃ d', vars.foldlM (storeVar b) d = some d' := by
  induction vars generalizing d with
  | nil => exact ⟨d, rfl⟩
  | cons v vars ih =>
    have hstore : ∃ d₁, storeVar b d v = some d₁ := by
      unfold storeVar
      dsimp only
      split_ifs with hm ha
      · rw [h v (by simp) hm] at ha
        cases ha
      · exact ⟨_, rfl⟩
      · exact ⟨_, rfl⟩
    obtain ⟨d₁, hd₁⟩ := hstore
    obtain ⟨d', hd'⟩ := ih d₁ (fun u hu => h u (by simp [hu]))
    refine ⟨d', ?_⟩
    rw [List.foldlM_cons, hd₁]
    exact hd'

/-! ## Variables -/

/-- Neither blank nor `=`. -/
def Clean (s : Str) : Prop := ∀ b ∈ s, isspace b = false ∧ b ≠ equals ∧ b ≠ 0

instance (s : Str) : Decidable (Clean s) :=
  List.decidableBAll (fun b => isspace b = false ∧ b ≠ equals ∧ b ≠ 0) s

/-- A value that comes back under its name. -/
structure Plain (name value : Str) : Prop where
  ne_nil : value ≠ []
  clean : Clean value
  fits : name.length + 1 + value.length < bufsiz


theorem mem_cut {buf : Str} {b : UInt8} (h : b ∈ cut buf) : isspace b = false ∧ b ≠ 0 := by
  have h0 := List.mem_takeWhile_imp h
  have hs := List.mem_takeWhile_imp ((List.takeWhile_prefix _).subset h)
  exact ⟨by simpa using hs, by simpa using h0⟩

theorem cut_isInfix (buf : Str) : cut buf <:+: buf :=
  ((List.takeWhile_prefix _).trans (List.takeWhile_prefix _)).isInfix

theorem cut_append {x y : Str} (h : Clean x) : cut (x ++ y) = x ++ cut y := by
  unfold cut
  rw [List.takeWhile_append_of_pos (fun b hb => by simp [(h b hb).1]),
    List.takeWhile_append_of_pos (fun b hb => by simp [(h b hb).2.2])]

theorem assignment_spec {buf : Str} {n w : Str} (h : assignment buf = some (n, w)) :
    w ≠ [] ∧ Clean n ∧ Clean w ∧ n.length + 1 + w.length ≤ buf.length ∧ w <:+: buf := by
  unfold assignment at h
  split_ifs at h
  cases hn : strtok equals (cut buf) with
  | none => simp [hn] at h
  | some t =>
    obtain ⟨vname, rest⟩ := t
    simp only [hn, Option.map_eq_some_iff, Prod.mk.injEq, Prod.exists] at h
    obtain ⟨vparm, rest', hw, rfl, rfl⟩ := h
    obtain ⟨-, hno, a, ha⟩ := strtok_infix hn
    obtain ⟨hne, hwo, c, hc⟩ := strtok_infix hw
    have hwinf : vparm <:+: rest := by
      rcases hc with ⟨hc, -⟩ | hc
      · exact ⟨c, [], by simpa using hc⟩
      · exact ⟨c, equals :: rest', hc⟩
    rcases ha with ⟨-, rfl⟩ | ha
    · exact absurd (List.infix_nil.mp hwinf) hne
    · have hwcut : vparm <:+: cut buf := by
        refine hwinf.trans ⟨a ++ vname ++ [equals], [], ?_⟩
        rw [← ha]
        simp
      refine ⟨hne, fun b hb => ?_, fun b hb => ?_, ?_, hwcut.trans (cut_isInfix buf)⟩
      · have hin : b ∈ cut buf := by
          rw [← ha]
          simp [hb]
        have := mem_cut hin
        exact ⟨this.1, fun he => hno (he ▸ hb), this.2⟩
      · have := mem_cut (hwcut.subset hb)
        exact ⟨this.1, fun he => hwo (he ▸ hb), this.2⟩
      · have hlen := (cut_isInfix buf).length_le
        have := hwinf.length_le
        rw [← ha] at hlen
        simp only [List.length_append, List.length_cons] at hlen
        omega

theorem assignment_name {name x : Str} (hne : name ≠ []) (hname : Clean name) :
    assignment (name ++ equals :: x) =
      (strtok equals (cut x)).map (fun vparm => (name, vparm.1)) := by
  have hcut : cut (name ++ equals :: x) = name ++ equals :: cut x := cut_append hname
  have hno : equals ∉ name := fun h => (hname _ h).2.1 rfl
  unfold assignment
  rw [hcut, if_pos (by simp), strtok_append (cut x) hne hno]

theorem assignment_plain {name value x : Str} (hname : name ≠ [] ∧ Clean name)
    (hvalue : value ≠ [] ∧ Clean value) (hx : cut x = []) :
    assignment (name ++ equals :: (value ++ x)) = some (name, value) := by
  have hno : equals ∉ value := fun h => (hvalue.2 _ h).2.1 rfl
  rw [assignment_name hname.1 hname.2, cut_append hvalue.2, hx, List.append_nil,
    strtok_self hvalue.1 hno]
  rfl

theorem assignment_none {buf : Str} (h : equals ∉ buf) : assignment buf = none :=
  if_neg (fun hm => h ((cut_isInfix buf).subset hm))

def lineVars (v : Var) : List Var :=
  (pieces (bufsiz - 1) [] (body v ++ [newline])).filterMap assignment

/-- Those in what is left of the line when the buffer has been full. -/
def tailVars (v : Var) : List Var :=
  ((pieces (bufsiz - 1) [] (body v ++ [newline])).drop 1).filterMap assignment

theorem readVars_printVars (b : Build) (d : NetData) (vars : List Var)
    (h : ∀ v ∈ vars, newline ∉ body v) :
    readVars b d (printVars vars) = (vars.flatMap lineVars).foldlM (storeVar b) d := by
  unfold readVars printVars
  rw [pieces_flatMap body vars h, List.filterMap_flatMap]
  rfl

structure GoodName (name : Str) : Prop where
  ne_nil : name ≠ []
  clean : Clean name
  short : name.length + 1 < bufsiz

theorem body_length (v : Var) : (body v).length = v.1.length + 1 + v.2.length := by
  simp [body]
  omega

theorem pieces_fits {v : Var} (hline : newline ∉ body v) (hfit : (body v).length < bufsiz) :
    pieces (bufsiz - 1) [] (body v ++ [newline]) = [body v ++ [newline]] ∨
      pieces (bufsiz - 1) [] (body v ++ [newline]) = [body v, [newline]] := by
  by_cases hlast : (body v).length = bufsiz - 1
  · right
    rw [pieces_long hline (by decide) (by simp [hlast]), List.length_nil, Nat.sub_zero, ← hlast,
      List.take_length, List.drop_length]
    rfl
  · left
    rw [pieces_short hline (by rw [List.length_nil]; omega)]
    rfl

theorem pieces_overlong {v : Var} (hname : GoodName v.1) (hline : newline ∉ body v)
    (hlong : bufsiz ≤ (body v).length) :
    pieces (bufsiz - 1) [] (body v ++ [newline]) =
      (v.1 ++ equals :: v.2.take (bufsiz - 2 - v.1.length)) ::
        pieces (bufsiz - 1) [] (v.2.drop (bufsiz - 2 - v.1.length) ++ [newline]) := by
  have hshort := hname.short
  have hcount : bufsiz - 1 = v.1.length + (bufsiz - 2 - v.1.length + 1) := by omega
  rw [pieces_long hline (by decide) (by rw [List.length_nil]; omega), List.length_nil, Nat.sub_zero,
    List.nil_append]
  congr 1
  · rw [hcount, body, List.take_length_add_append, List.take_succ_cons]
  · congr 2
    rw [hcount, body, List.drop_length_add_append, List.drop_succ_cons]

theorem assignment_body {name x : Str} {u : Var} (hname : GoodName name)
    (h : assignment (name ++ equals :: x) = some u) : u.1 = name ∧ u.2 <:+: x := by
  rw [assignment_name hname.ne_nil hname.clean, Option.map_eq_some_iff] at h
  obtain ⟨⟨w, rest⟩, htok, rfl⟩ := h
  obtain ⟨-, -, a, ha⟩ := strtok_infix htok
  refine ⟨rfl, List.IsInfix.trans ?_ (cut_isInfix x)⟩
  rcases ha with ⟨ha, -⟩ | ha
  · exact ⟨a, [], by simpa using ha⟩
  · exact ⟨a, equals :: rest, ha⟩

theorem assignment_newline : assignment [newline] = none := rfl

theorem lineVars_plain {v : Var} (hname : GoodName v.1) (hline : newline ∉ body v)
    (h : Plain v.1 v.2) : lineVars v = [v] := by
  have hfit : (body v).length < bufsiz := by
    rw [body_length]
    exact h.fits
  have hassign : ∀ x, cut x = [] → assignment (body v ++ x) = some v := by
    intro x hx
    rw [body, List.append_assoc, List.cons_append]
    exact assignment_plain ⟨hname.ne_nil, hname.clean⟩ ⟨h.ne_nil, h.clean⟩ hx
  have hend := hassign [] rfl
  rw [List.append_nil] at hend
  unfold lineVars
  rcases pieces_fits hline hfit with hp | hp
  · rw [hp, List.filterMap_cons_some (hassign [newline] rfl)]
    rfl
  · rw [hp, List.filterMap_cons_some hend, List.filterMap_cons_none assignment_newline]
    rfl

theorem tailVars_fits {v : Var} (hline : newline ∉ body v) (hfit : (body v).length < bufsiz) :
    tailVars v = [] := by
  unfold tailVars
  rcases pieces_fits hline hfit with hp | hp
  · rw [hp]
    rfl
  · rw [hp]
    rfl

/-- A value without `=` has no variables in its line but its own. -/
theorem tailVars_clean {v : Var} (hname : GoodName v.1) (hline : newline ∉ body v)
    (h : equals ∉ v.2) : tailVars v = [] := by
  by_cases hfit : (body v).length < bufsiz
  · exact tailVars_fits hline hfit
  · unfold tailVars
    rw [pieces_overlong hname hline (by omega), List.drop_one, List.tail_cons,
      List.filterMap_eq_nil_iff]
    intro p hp
    refine assignment_none (fun hm => ?_)
    have := (pieces_isInfix p hp).subset hm
    simp only [List.nil_append, List.mem_append, List.mem_singleton] at this
    rcases this with hdrop | hnl
    · exact h ((List.drop_suffix _ _).subset hdrop)
    · exact absurd hnl (by decide)

/-- The first piece gives at most a variable of the line's name. -/
theorem lineVars_eq {v : Var} (hname : GoodName v.1) (hline : newline ∉ body v) :
    ∃ own, lineVars v = own ++ tailVars v ∧ ∀ u ∈ own, u.1 = v.1 := by
  have hhead : ∃ x rest, pieces (bufsiz - 1) [] (body v ++ [newline]) =
      (v.1 ++ equals :: x) :: rest := by
    by_cases hfit : (body v).length < bufsiz
    · rcases pieces_fits hline hfit with hp | hp
      · refine ⟨v.2 ++ [newline], [], ?_⟩
        rw [hp]
        simp [body]
      · exact ⟨v.2, [[newline]], hp⟩
    · exact ⟨_, _, pieces_overlong hname hline (by omega)⟩
  obtain ⟨x, rest, hp⟩ := hhead
  unfold lineVars tailVars
  rw [hp, List.drop_one, List.tail_cons]
  cases ha : assignment (v.1 ++ equals :: x) with
  | none => exact ⟨[], by rw [List.filterMap_cons_none ha]; rfl, by simp⟩
  | some u =>
    refine ⟨[u], by rw [List.filterMap_cons_some ha]; rfl, ?_⟩
    intro w hw
    rw [List.mem_singleton.mp hw]
    exact (assignment_body hname ha).1

/-- A line of another name has nothing to say but in its later pieces. -/
theorem lastFor_lineVars {p : Str → Bool} {v : Var} (hname : GoodName v.1)
    (hline : newline ∉ body v) (hp : p v.1 = false) :
    lastFor p (lineVars v) = lastFor p (tailVars v) := by
  obtain ⟨own, heq, hown⟩ := lineVars_eq hname hline
  have hnone : lastFor p own = none := lastFor_eq_none (fun u hu => by rw [hown u hu, hp])
  rw [heq, lastFor_append, hnone, Option.or_none]

theorem mem_lineVars {v u : Var} (hname : GoodName v.1) (hline : newline ∉ body v)
    (hu : u ∈ lineVars v) : Plain u.1 u.2 ∧ u.2 <:+: v.2 ++ [newline] := by
  obtain ⟨p, hp, ha⟩ := List.mem_filterMap.mp hu
  obtain ⟨hne, -, hclean, hlen, -⟩ := assignment_spec ha
  have hple := pieces_length_le (m := bufsiz - 1) (by decide) p hp
  refine ⟨⟨hne, hclean, ?_⟩, ?_⟩
  · have hsize : bufsiz = 100 := rfl
    omega
  · by_cases hfit : (body v).length < bufsiz
    · have hown : ∀ x, x <+: v.2 ++ [newline] → p = v.1 ++ equals :: x →
          u.2 <:+: v.2 ++ [newline] := by
        intro x hx he
        rw [he] at ha
        exact (assignment_body hname ha).2.trans hx.isInfix
      rcases pieces_fits hline hfit with hpieces | hpieces
      · rw [hpieces] at hp
        exact hown _ (List.prefix_refl _) (by simp [List.mem_singleton.mp hp, body])
      · rw [hpieces] at hp
        rcases List.mem_cons.mp hp with hp | hp
        · exact hown _ (List.prefix_append _ _) hp
        · rw [List.mem_singleton.mp hp, assignment_newline] at ha
          cases ha
    · rw [pieces_overlong hname hline (by omega)] at hp
      rcases List.mem_cons.mp hp with rfl | hp
      · exact (assignment_body hname ha).2.trans
          ((List.take_prefix _ _).trans (List.prefix_append _ _)).isInfix
      · have hinf := (assignment_spec ha).2.2.2.2.trans (pieces_isInfix p hp)
        refine hinf.trans ?_
        rw [List.nil_append]
        refine List.IsSuffix.isInfix ?_
        exact ⟨v.2.take (bufsiz - 2 - v.1.length), by
          rw [← List.append_assoc, List.take_append_drop]⟩

/-- Lines that hold one variable each are read as they were written. -/
theorem lastFor_flatMap {p : Str → Bool} {vars : List Var}
    (hgood : ∀ v ∈ vars, GoodName v.1 ∧ newline ∉ body v ∧ tailVars v = [])
    (hplain : ∀ v ∈ vars, p v.1 = true → Plain v.1 v.2) :
    lastFor p (vars.flatMap lineVars) = lastFor p vars := by
  induction vars with
  | nil => rfl
  | cons v vars ih =>
    obtain ⟨hname, hline, htail⟩ := hgood v (by simp)
    have hfirst : lastFor p (lineVars v) = lastFor p [v] := by
      cases hp : p v.1 with
      | true => rw [lineVars_plain hname hline (hplain v (by simp) hp)]
      | false =>
        rw [lastFor_lineVars hname hline hp, htail]
        exact (lastFor_eq_none (by simp [hp])).symm
    rw [List.flatMap_cons, lastFor_append, ih (fun u hu => hgood u (by simp [hu]))
      (fun u hu => hplain u (by simp [hu])), hfirst, ← lastFor_append]
    rfl

theorem lastFor_eq {p : Str → Bool} {vars : List Var} {value : Option Str}
    (hval : ∀ v ∈ vars, p v.1 = true → value = some v.2)
    (hex : ∀ w, value = some w → ∃ v ∈ vars, p v.1 = true) : lastFor p vars = value := by
  cases hlast : lastFor p vars with
  | some w =>
    obtain ⟨n, hn, hp⟩ := mem_of_lastFor hlast
    exact (hval (n, w) hn hp).symm
  | none =>
    cases hvalue : value with
    | none => rfl
    | some w =>
      obtain ⟨v, hv, hp⟩ := hex w hvalue
      have hmem : v ∈ vars.filter (fun v => p v.1) := List.mem_filter.mpr ⟨hv, by simpa using hp⟩
      unfold lastFor at hlast
      rw [List.getLast?_eq_none_iff, List.map_eq_nil_iff] at hlast
      rw [hlast] at hmem
      cases hmem

end Comodoo.NetInfo
