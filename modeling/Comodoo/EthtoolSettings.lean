import Comodoo.CString
import Mathlib.Data.List.Chain

set_option autoImplicit false

/-!
# Ethtool settings

`parseEthtoolSettings` of `stage-1/net.c`. A token that begins with `duplex` or `speed` is passed
over together with the next one. Its value is read from a fixed place, which may be behind the end
of the token; behind the end of the buffer nothing is read.
-/
namespace Comodoo.EthtoolSettings
open CString

abbrev blank : UInt8 := 0x20
abbrev quote : UInt8 := 0x22

inductive Duplex where
  | half
  | full
  deriving DecidableEq, Repr

inductive Speed where
  | speed10
  | speed100
  | speed1000
  deriving DecidableEq, Repr

/-- `none` stands for `ETHTOOL_DUPLEX_UNSPEC` and `ETHTOOL_SPEED_UNSPEC`. -/
structure Settings where
  duplex : Option Duplex
  speed : Option Speed
  deriving DecidableEq, Repr

/-- A token, and what the buffer holds behind its terminator. -/
structure Token where
  text : Str
  behind : Option Str
  deriving DecidableEq, Repr

def unquoteEnd (t : Str) : Str := if t.getLast? = some quote then t.dropLast else t

def unquote (t : Str) : Str :=
  if (unquoteEnd t).head? = some quote then (unquoteEnd t).tail else unquoteEnd t

def isDuplex (t : Str) : Bool := (ascii "duplex").isPrefixOf (unquote t)

def isSpeed (t : Str) : Bool := !isDuplex t && (ascii "speed").isPrefixOf (unquote t)

/-- `option + n`. A quote taken off leaves a terminator of its own. -/
def textAt (n : ℕ) (p : Token) : Option Str :=
  if n ≤ (unquote p.text).length then some ((unquote p.text).drop n)
  else if p.text.getLast? = some quote then some []
  else p.behind

def readDuplex (text : Str) : Option Duplex :=
  if (ascii "full").isPrefixOf text then some .full
  else if (ascii "half").isPrefixOf text then some .half
  else none

def readSpeed (text : Str) : Option Speed :=
  if (ascii "1000").isPrefixOf text then some .speed1000
  else if (ascii "100").isPrefixOf text then some .speed100
  else if (ascii "10").isPrefixOf text then some .speed10
  else none

def token (s t rest : Str) : Token :=
  ⟨t, if rest = [] ∧ s.getLast? ≠ some blank then none else some rest⟩

def pastToken (s : Str) : Str :=
  match strtok blank s with
  | none => []
  | some (_, rest) => rest

theorem strtok_shorter {s t rest : Str} (h : strtok blank s = some (t, rest)) :
    rest.length < s.length := by
  obtain ⟨hne, -, a, ⟨hs, hrest⟩ | hs⟩ := strtok_infix h
  · rw [hrest, ← hs, List.length_append, List.length_nil]
    exact Nat.add_pos_right _ (List.length_pos_iff.mpr hne)
  · rw [← hs, List.length_append, List.length_cons]
    omega

theorem pastToken_le (s : Str) : (pastToken s).length ≤ s.length := by
  rw [pastToken]
  cases h : strtok blank s with
  | none => exact Nat.zero_le _
  | some r => exact Nat.le_of_lt (strtok_shorter h)

/-- The loop; `none` where it reads behind the buffer. -/
def parseLoop (s : Str) (c : Settings) : Option Settings :=
  match _h : strtok blank s with
  | none => some c
  | some (t, rest) =>
    if isDuplex t then
      match textAt 7 (token s t rest) with
      | none => none
      | some text =>
        parseLoop (pastToken rest) { c with duplex := (readDuplex text).or c.duplex }
    else if isSpeed t then
      match textAt 6 (token s t rest) with
      | none => none
      | some text => parseLoop (pastToken rest) { c with speed := (readSpeed text).or c.speed }
    else parseLoop rest c
termination_by s.length
decreasing_by
  · exact Nat.lt_of_le_of_lt (pastToken_le rest) (strtok_shorter _h)
  · exact Nat.lt_of_le_of_lt (pastToken_le rest) (strtok_shorter _h)
  · exact strtok_shorter _h

def parseEthtoolSettings (ethtool : Str) : Option Settings := parseLoop ethtool ⟨none, none⟩

/-! ## What is asked of it -/

def wellFormedDuplex (t : Str) : Option Duplex :=
  if unquote t = ascii "duplex=full" then some .full
  else if unquote t = ascii "duplex=half" then some .half
  else none

def wellFormedSpeed (t : Str) : Option Speed :=
  if unquote t = ascii "speed=1000" then some .speed1000
  else if unquote t = ascii "speed=100" then some .speed100
  else if unquote t = ascii "speed=10" then some .speed10
  else none

/-- The settings are those of the last well-formed tokens. -/
def AppliesLast (ethtool : Str) : Prop :=
  parseEthtoolSettings ethtool =
    some ⟨((tokens blank ethtool).filterMap wellFormedDuplex).getLast?,
      ((tokens blank ethtool).filterMap wellFormedSpeed).getLast?⟩

/-! ## The tokens that are looked at -/

def tokenList (s : Str) : List Token :=
  match _h : strtok blank s with
  | none => []
  | some (t, rest) => token s t rest :: tokenList rest
termination_by s.length
decreasing_by exact strtok_shorter _h

def begins (t : Str) : Bool := isDuplex t || isSpeed t

/-- The tokens that have an even number of settings directly in front of them, `k` of them in front
of the first. -/
def lookedFrom (k : ℕ) : List Token → List Token
  | [] => []
  | p :: ps =>
    let later := lookedFrom (if begins p.text then k + 1 else 0) ps
    if k % 2 = 0 then p :: later else later

def looked (ethtool : Str) : List Token := lookedFrom 0 (tokenList ethtool)

def duplexOf (p : Token) : Option Duplex :=
  if isDuplex p.text then (textAt 7 p).bind readDuplex else none

def speedOf (p : Token) : Option Speed :=
  if isSpeed p.text then (textAt 6 p).bind readSpeed else none

def inBuffer (p : Token) : Bool :=
  if isDuplex p.text then (textAt 7 p).isSome
  else if isSpeed p.text then (textAt 6 p).isSome
  else true

/-- The last token that is looked at and gives a setting gives it as the last well-formed one. -/
structure ReadsLast (ethtool : Str) : Prop where
  inBuffer : ∀ p ∈ looked ethtool, inBuffer p = true
  duplex : ((looked ethtool).filterMap duplexOf).getLast? =
    ((tokens blank ethtool).filterMap wellFormedDuplex).getLast?
  speed : ((looked ethtool).filterMap speedOf).getLast? =
    ((tokens blank ethtool).filterMap wellFormedSpeed).getLast?

section Loop
variable {s t rest : Str} {p : Token} {ps : List Token} {k : ℕ}

theorem tokenList_none (h : strtok blank s = none) : tokenList s = [] := by
  rw [tokenList]
  split
  · rfl
  · rename_i hsome
    rw [h] at hsome
    cases hsome

theorem tokenList_some (h : strtok blank s = some (t, rest)) :
    tokenList s = token s t rest :: tokenList rest := by
  rw [tokenList]
  split
  · rename_i hnone
    rw [h] at hnone
    cases hnone
  · rename_i t' rest' hsome
    rw [h] at hsome
    obtain ⟨rfl, rfl⟩ := Prod.mk.inj (Option.some.inj hsome)
    rfl

theorem tokenList_pastToken (s : Str) : tokenList (pastToken s) = (tokenList s).tail := by
  rw [pastToken]
  cases h : strtok blank s with
  | none => rw [tokenList_none h, tokenList_none rfl, List.tail_nil]
  | some r => rw [tokenList_some h, List.tail_cons]

theorem lookedFrom_parity (k : ℕ) (ps : List Token) : lookedFrom (k + 2) ps = lookedFrom k ps := by
  induction ps generalizing k with
  | nil => rfl
  | cons p ps ih =>
    rw [lookedFrom, lookedFrom, Nat.add_mod_right]
    cases begins p.text with
    | true => rw [if_pos rfl, if_pos rfl, Nat.add_right_comm k 2 1, ih]
    | false => rfl

theorem lookedFrom_one (ps : List Token) : lookedFrom 1 ps = lookedFrom 0 ps.tail := by
  cases ps with
  | nil => rfl
  | cons p ps =>
    rw [lookedFrom, if_neg (by decide), List.tail_cons]
    cases begins p.text with
    | true => exact lookedFrom_parity 0 ps
    | false => rfl

theorem lookedFrom_subset {k : ℕ} : lookedFrom k ps ⊆ ps := by
  induction ps generalizing k with
  | nil => exact List.Subset.refl _
  | cons p ps ih =>
    rw [lookedFrom]
    split_ifs
    · exact List.cons_subset_cons p ih
    · exact List.cons_subset_cons p ih
    · exact List.subset_cons_of_subset p ih
    · exact List.subset_cons_of_subset p ih

theorem lookedFrom_setting (h : begins p.text = true) :
    lookedFrom 0 (p :: ps) = p :: lookedFrom 0 ps.tail := by
  rw [lookedFrom, h, if_pos rfl, if_pos rfl, Nat.zero_add, lookedFrom_one]

theorem lookedFrom_other (h : begins p.text = false) :
    lookedFrom 0 (p :: ps) = p :: lookedFrom 0 ps := by
  rw [lookedFrom, h, if_neg Bool.false_ne_true, if_pos rfl]

theorem getLast?_filterMap_cons {α β : Type} (f : α → Option β) (x : α) (l : List α)
    (o : Option β) :
    ((x :: l).filterMap f).getLast?.or o = (l.filterMap f).getLast?.or ((f x).or o) := by
  rw [List.filterMap_cons]
  cases f x with
  | none => rfl
  | some y =>
    dsimp only
    rw [List.getLast?_cons]
    cases (l.filterMap f).getLast? <;> rfl

/-- What the tokens looked at make of the settings. -/
def settle (ps : List Token) (c : Settings) : Option Settings :=
  if ps.all inBuffer then
    some ⟨(ps.filterMap duplexOf).getLast?.or c.duplex, (ps.filterMap speedOf).getLast?.or c.speed⟩
  else none

theorem settle_cons (p : Token) (ps : List Token) (c : Settings) :
    settle (p :: ps) c =
      if inBuffer p then settle ps ⟨(duplexOf p).or c.duplex, (speedOf p).or c.speed⟩ else none := by
  rw [settle, settle, List.all_cons, getLast?_filterMap_cons, getLast?_filterMap_cons]
  cases inBuffer p with
  | true => rfl
  | false => rfl

theorem not_isSpeed (h : isDuplex t = true) : isSpeed t = false := by
  rw [isSpeed, h]
  rfl

theorem settle_duplex {text : Option Str} (h : isDuplex p.text = true) (htext : textAt 7 p = text)
    (ps : List Token) (c : Settings) :
    settle (p :: ps) c =
      if text.isSome then settle ps { c with duplex := (text.bind readDuplex).or c.duplex }
      else none := by
  rw [settle_cons, inBuffer, duplexOf, speedOf, not_isSpeed h, if_pos h, if_pos h,
    if_neg Bool.false_ne_true, htext]
  rfl

theorem settle_speed {text : Option Str} (hd : isDuplex p.text = false) (h : isSpeed p.text = true)
    (htext : textAt 6 p = text) (ps : List Token) (c : Settings) :
    settle (p :: ps) c =
      if text.isSome then settle ps { c with speed := (text.bind readSpeed).or c.speed }
      else none := by
  rw [settle_cons, inBuffer, duplexOf, speedOf, hd, if_neg Bool.false_ne_true,
    if_neg Bool.false_ne_true, if_pos h, if_pos h, htext]
  rfl

theorem settle_other (h : begins p.text = false) (ps : List Token) (c : Settings) :
    settle (p :: ps) c = settle ps c := by
  rw [begins, Bool.or_eq_false_iff] at h
  rw [settle_cons, inBuffer, duplexOf, speedOf, h.1, h.2, if_neg Bool.false_ne_true,
    if_neg Bool.false_ne_true, if_neg Bool.false_ne_true, if_pos rfl]
  rfl

theorem parseLoop_eq (s : Str) (c : Settings) :
    parseLoop s c = settle (lookedFrom 0 (tokenList s)) c := by
  fun_induction parseLoop s c with
  | case1 s c h =>
    rw [tokenList_none h]
    rfl
  | case2 s c t rest h hduplex htext =>
    have hbegins : begins t = true := by rw [begins, hduplex, Bool.true_or]
    rw [tokenList_some h, lookedFrom_setting hbegins, settle_duplex hduplex htext]
    rfl
  | case3 s c t rest h hduplex text htext ih =>
    have hbegins : begins t = true := by rw [begins, hduplex, Bool.true_or]
    rw [tokenList_some h, lookedFrom_setting hbegins, settle_duplex hduplex htext, ih,
      tokenList_pastToken]
    rfl
  | case4 s c t rest h hduplex hspeed htext =>
    rw [Bool.not_eq_true] at hduplex
    have hbegins : begins t = true := by rw [begins, hspeed, Bool.or_true]
    rw [tokenList_some h, lookedFrom_setting hbegins, settle_speed hduplex hspeed htext]
    rfl
  | case5 s c t rest h hduplex hspeed text htext ih =>
    rw [Bool.not_eq_true] at hduplex
    have hbegins : begins t = true := by rw [begins, hspeed, Bool.or_true]
    rw [tokenList_some h, lookedFrom_setting hbegins, settle_speed hduplex hspeed htext, ih,
      tokenList_pastToken]
    rfl
  | case6 s c t rest h hduplex hspeed ih =>
    have hbegins : begins t = false := by
      rw [begins, Bool.eq_false_iff.mpr hduplex, Bool.eq_false_iff.mpr hspeed, Bool.or_false]
    rw [tokenList_some h, lookedFrom_other hbegins, settle_other hbegins, ih]

/-- The settings are right when the last token that is looked at and gives a value gives the last
well-formed one. -/
theorem parseEthtoolSettings_last_iff (ethtool : Str) :
    AppliesLast ethtool ↔ ReadsLast ethtool := by
  rw [AppliesLast, parseEthtoolSettings, parseLoop_eq, settle, Option.or_none, Option.or_none]
  constructor
  · intro h
    split_ifs at h with hin
    rw [Option.some_inj, Settings.mk.injEq] at h
    exact ⟨List.all_eq_true.mp hin, h.1, h.2⟩
  · rintro ⟨hin, hduplex, hspeed⟩
    rw [← hduplex, ← hspeed]
    exact if_pos (List.all_eq_true.mpr hin)

end Loop

/-- The speed stands directly behind the duplex and is passed over. -/
theorem speed_passedOver : ¬ AppliesLast (ascii "duplex=full speed=100") := by
  have hfirst : strtok blank (ascii "duplex=full speed=100") =
      some (ascii "duplex=full", ascii "speed=100") := by decide
  have hsecond : strtok blank (ascii "speed=100") = some (ascii "speed=100", []) := by decide
  rw [AppliesLast, parseEthtoolSettings, parseLoop_eq, tokenList_some hfirst,
    tokenList_some hsecond, tokenList_none rfl]
  decide

/-! ## Settings that stand apart -/

section Apart
variable {s t : Str} {p : Token} {ps : List Token}

theorem tokenList_text (s : Str) : (tokenList s).map Token.text = tokens blank s := by
  fun_induction tokenList s with
  | case1 s h =>
    rcases strtok_tokens blank s with ⟨-, hnil⟩ | ⟨t, rest, hsome, -⟩
    · exact hnil.symm
    · rw [h] at hsome
      cases hsome
  | case2 s t rest h ih =>
    rcases strtok_tokens blank s with ⟨hnone, -⟩ | ⟨t', rest', hsome, hcons, -⟩
    · rw [h] at hnone
      cases hnone
    · rw [h] at hsome
      obtain ⟨rfl, rfl⟩ := Prod.mk.inj (Option.some.inj hsome)
      rw [List.map_cons, ih, hcons]
      rfl

/-- The value of a well-formed token is read as it is meant. -/
structure ReadAsMeant (p : Token) : Prop where
  inBuffer : inBuffer p = true
  duplex : duplexOf p = wellFormedDuplex p.text
  speed : speedOf p = wellFormedSpeed p.text

theorem readAsMeant_duplex (value : Str) (h : unquote p.text = ascii "duplex=" ++ value)
    (hread : readDuplex value = wellFormedDuplex p.text) : ReadAsMeant p := by
  have hduplex : isDuplex p.text = true := by
    rw [isDuplex, h]
    rfl
  have htext : textAt 7 p = some value := by
    rw [textAt, h, if_pos (by rw [List.length_append]; exact Nat.le_add_right 7 _)]
    rfl
  have hspeed : wellFormedSpeed p.text = none := by
    rw [wellFormedSpeed, h]
    rfl
  refine ⟨?_, ?_, ?_⟩
  · rw [inBuffer, if_pos hduplex, htext]
    rfl
  · rw [duplexOf, if_pos hduplex, htext]
    exact hread
  · rw [speedOf, not_isSpeed hduplex, hspeed]
    rfl

theorem readAsMeant_speed (value : Str) (h : unquote p.text = ascii "speed=" ++ value)
    (hread : readSpeed value = wellFormedSpeed p.text) : ReadAsMeant p := by
  have hduplex : isDuplex p.text = false := by
    rw [isDuplex, h]
    rfl
  have hspeed : isSpeed p.text = true := by
    rw [isSpeed, hduplex, h]
    rfl
  have htext : textAt 6 p = some value := by
    rw [textAt, h, if_pos (by rw [List.length_append]; exact Nat.le_add_right 6 _)]
    rfl
  have hformed : wellFormedDuplex p.text = none := by
    rw [wellFormedDuplex, h]
    rfl
  refine ⟨?_, ?_, ?_⟩
  · rw [inBuffer, hduplex, if_neg Bool.false_ne_true, if_pos hspeed, htext]
    rfl
  · rw [duplexOf, hduplex, hformed]
    rfl
  · rw [speedOf, if_pos hspeed, htext]
    exact hread

theorem duplex_formed (h : (wellFormedDuplex t).isSome = true) :
    unquote t = ascii "duplex=full" ∨ unquote t = ascii "duplex=half" := by
  unfold wellFormedDuplex at h
  split_ifs at h with hfull hhalf
  · exact Or.inl hfull
  · exact Or.inr hhalf
  · cases h

theorem speed_formed (h : (wellFormedSpeed t).isSome = true) :
    unquote t = ascii "speed=1000" ∨ unquote t = ascii "speed=100" ∨
      unquote t = ascii "speed=10" := by
  unfold wellFormedSpeed at h
  split_ifs at h with h1000 h100 h10
  · exact Or.inl h1000
  · exact Or.inr (Or.inl h100)
  · exact Or.inr (Or.inr h10)
  · cases h

theorem readAsMeant_formed
    (h : (wellFormedDuplex p.text).isSome = true ∨ (wellFormedSpeed p.text).isSome = true) :
    ReadAsMeant p := by
  rcases h with h | h
  · rcases duplex_formed h with ht | ht
    · exact readAsMeant_duplex (ascii "full") ht (by rw [wellFormedDuplex, ht]; rfl)
    · exact readAsMeant_duplex (ascii "half") ht (by rw [wellFormedDuplex, ht]; rfl)
  · rcases speed_formed h with ht | ht | ht
    · exact readAsMeant_speed (ascii "1000") ht (by rw [wellFormedSpeed, ht]; rfl)
    · exact readAsMeant_speed (ascii "100") ht (by rw [wellFormedSpeed, ht]; rfl)
    · exact readAsMeant_speed (ascii "10") ht (by rw [wellFormedSpeed, ht]; rfl)

/-- Every token that begins like a setting is one, and no two stand directly behind each other. -/
structure Apart (ts : List Str) : Prop where
  formed : ∀ t ∈ ts, begins t = true →
    (wellFormedDuplex t).isSome = true ∨ (wellFormedSpeed t).isSome = true
  apart : ts.IsChain (fun t u => begins t = false ∨ begins u = false)

theorem readAsMeant_other (h : begins p.text = false) : ReadAsMeant p := by
  have hparts := Bool.or_eq_false_iff.mp h
  have hduplex : wellFormedDuplex p.text = none := by
    rw [← Option.not_isSome_iff_eq_none]
    intro hsome
    have hbegins : isDuplex p.text = true := by
      rcases duplex_formed hsome with ht | ht <;> (rw [isDuplex, ht]; rfl)
    exact absurd (hparts.1.symm.trans hbegins) Bool.false_ne_true
  have hspeed : wellFormedSpeed p.text = none := by
    rw [← Option.not_isSome_iff_eq_none]
    intro hsome
    have hbegins : isSpeed p.text = true := by
      rcases speed_formed hsome with ht | ht | ht <;> (rw [isSpeed, hparts.1, ht]; rfl)
    exact absurd (hparts.2.symm.trans hbegins) Bool.false_ne_true
  refine ⟨?_, ?_, ?_⟩
  · rw [inBuffer, hparts.1, hparts.2]
    rfl
  · rw [duplexOf, hparts.1, hduplex]
    rfl
  · rw [speedOf, hparts.2, hspeed]
    rfl

theorem Apart.readAsMeant (h : Apart (tokens blank s)) (hp : p ∈ tokenList s) : ReadAsMeant p := by
  cases hbegins : begins p.text with
  | false => exact readAsMeant_other hbegins
  | true =>
    refine readAsMeant_formed (h.formed p.text ?_ hbegins)
    rw [← tokenList_text]
    exact List.mem_map_of_mem hp

/-- Where settings stand apart, none is passed over. -/
theorem filterMap_lookedFrom {α : Type} {f : Token → Option α} {k : ℕ}
    (hf : ∀ p ∈ ps, begins p.text = false → f p = none)
    (hapart : ps.IsChain (fun p q => begins p.text = false ∨ begins q.text = false))
    (hk : k = 0 ∨ k = 1 ∧ ∀ p, ps.head? = some p → begins p.text = false) :
    (lookedFrom k ps).filterMap f = ps.filterMap f := by
  induction ps generalizing k with
  | nil => rfl
  | cons p ps ih =>
    have hrest : ps.IsChain (fun p q => begins p.text = false ∨ begins q.text = false) :=
      hapart.tail
    have hf' : ∀ q ∈ ps, begins q.text = false → f q = none :=
      fun q hq => hf q (List.mem_cons_of_mem p hq)
    have hnext : begins p.text = true → ∀ q, ps.head? = some q → begins q.text = false := by
      intro hbegins q hq
      obtain ⟨qs, rfl⟩ := List.head?_eq_some_iff.mp hq
      rcases (List.isChain_cons_cons.mp hapart).1 with hfalse | hfalse
      · exact absurd (hfalse.symm.trans hbegins) Bool.false_ne_true
      · exact hfalse
    rcases hk with rfl | ⟨rfl, hhead⟩
    · cases hbegins : begins p.text with
      | true =>
        rw [lookedFrom, hbegins, if_pos rfl, if_pos rfl, List.filterMap_cons, List.filterMap_cons,
          ih hf' hrest (Or.inr ⟨rfl, hnext hbegins⟩)]
      | false =>
        rw [lookedFrom_other hbegins, List.filterMap_cons, List.filterMap_cons,
          ih hf' hrest (Or.inl rfl)]
    · have hbegins := hhead p rfl
      rw [lookedFrom_one, List.tail_cons, List.filterMap_cons,
        hf p List.mem_cons_self hbegins, ih hf' hrest (Or.inl rfl)]

theorem Apart.readsLast {ethtool : Str} (h : Apart (tokens blank ethtool)) : ReadsLast ethtool := by
  have hchain : (tokenList ethtool).IsChain
      (fun p q => begins p.text = false ∨ begins q.text = false) := by
    have hapart := h.apart
    rw [← tokenList_text, List.isChain_map] at hapart
    exact hapart
  have hduplex : ∀ p ∈ tokenList ethtool, begins p.text = false → duplexOf p = none := by
    intro p _ hbegins
    rw [duplexOf, (Bool.or_eq_false_iff.mp hbegins).1]
    rfl
  have hspeed : ∀ p ∈ tokenList ethtool, begins p.text = false → speedOf p = none := by
    intro p _ hbegins
    rw [speedOf, (Bool.or_eq_false_iff.mp hbegins).2]
    rfl
  refine ⟨fun p hp => (h.readAsMeant (lookedFrom_subset hp)).inBuffer, ?_, ?_⟩
  · rw [looked, filterMap_lookedFrom hduplex hchain (Or.inl rfl), ← tokenList_text,
      List.filterMap_map]
    exact congrArg List.getLast? (List.filterMap_congr fun p hp => (h.readAsMeant hp).duplex)
  · rw [looked, filterMap_lookedFrom hspeed hchain (Or.inl rfl), ← tokenList_text,
      List.filterMap_map]
    exact congrArg List.getLast? (List.filterMap_congr fun p hp => (h.readAsMeant hp).speed)

end Apart

end Comodoo.EthtoolSettings
