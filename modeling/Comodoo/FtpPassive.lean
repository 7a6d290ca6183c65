import Comodoo.InetText

set_option autoImplicit false

/-!
# The answer to PASV

The branch of `ftpGetFileDesc` in `stage-1/ftp.c` that takes the address and the port of the data
connection out of the reply.
-/
namespace Comodoo.FtpPassive
open CString HttpHeaders DecimalText InetText

abbrev FTPERR_PASSIVE_ERROR : ℤ := -8
abbrev comma : UInt8 := 0x2c
abbrev openParen : UInt8 := 0x28
abbrev closeParen : UInt8 := 0x29

/-- What is behind the blanks and the sign of a number. -/
def afterSign (s : Str) : Str :=
  match s.dropWhile isspace with
  | [] => []
  | b :: ds => if b = 0x2d ∨ b = 0x2b then ds else b :: ds

/-- `%d` of `sscanf`: the number and what is left behind it. -/
def scanInt (longBits : ℕ) (s : Str) : Option (ℤ × Str) :=
  if (afterSign s).head?.any isdigit then
    some (strtolInt longBits s, (afterSign s).dropWhile isdigit)
  else none

/-- `sscanf(s, "%d,%d", &i, &j) == 2`. -/
def scanPair (longBits : ℕ) (s : Str) : Option (ℤ × ℤ) :=
  match scanInt longBits s with
  | none => none
  | some (_, []) => none
  | some (i, b :: rest) =>
    if b = comma then (scanInt longBits rest).map (fun r => (i, r.1)) else none

/-- A scan that goes back to a comma: the bytes it went over, the byte it stopped at and those in
front of that one. It also stops at a NUL, and at the end of memory. -/
structure Scan where
  passed : Str
  stop : Option UInt8
  rest : Str

/-- `while (*chptr && *chptr != ',') chptr--`; the bytes are given from the last one on. -/
def scanBack (passed : Str) : Str → Scan
  | [] => ⟨passed, none, []⟩
  | b :: s => if b = 0 ∨ b = comma then ⟨passed, some b, s⟩ else scanBack (b :: passed) s

def Scan.looked (r : Scan) : ℕ := r.passed.length + r.stop.toList.length

def toDot (b : UInt8) : UInt8 := if b = comma then dot else b

/-- `while (*chptr++) if (*chptr == ',') *chptr = '.'`: the first byte stays as it is. -/
def dotted : Str → Str
  | [] => []
  | b :: s => b :: s.map toDot

inductive Outcome where
  | fault
  | returned (rc : ℤ)
  | connect (address : InAddr) (port : ℕ)
  deriving DecidableEq, Repr

/-- The outcome, and how many bytes the two scans have looked at. -/
structure Parsed where
  outcome : Outcome
  looked : ℕ

/-- `htons((i << 8) + j)`. -/
def portOf (i j : ℤ) : ℕ := ((256 * i + j) % 65536).toNat

def connectTo (longBits : ℕ) (address ports : Str) : Outcome :=
  match scanPair longBits ports with
  | none => .returned FTPERR_PASSIVE_ERROR
  | some (i, j) =>
    match inetPton4 (dotted address) with
    | none => .returned FTPERR_PASSIVE_ERROR
    | some x => .connect x (portOf i j)

/-- Everything behind the search for the parentheses. `before` is what memory holds in front of
`part`. A NUL is written behind `part`, and in place of the second comma if there is one. -/
def parsePart (longBits : ℕ) (before part : Str) : Parsed :=
  let first := scanBack [] (part.reverse ++ before.reverse)
  match first.stop with
  | none => ⟨.fault, first.looked⟩
  | some b =>
    if b ≠ comma then ⟨.returned FTPERR_PASSIVE_ERROR, first.looked⟩
    else
      let second := scanBack [] first.rest
      let looked := first.looked + second.looked
      match second.stop with
      | none => ⟨.fault, looked⟩
      | some b =>
        if b ≠ comma then ⟨.returned FTPERR_PASSIVE_ERROR, looked⟩
        else
          let ports := second.passed ++ comma :: first.passed
          let address :=
            if ports.length < part.length then part.take (part.length - ports.length - 1) else part
          ⟨connectTo longBits address ports, looked⟩

/-- The text between the first `(` and the first `)` behind it, with the text in front of it. -/
def findPart (reply : Str) : Option (Str × Str) :=
  match strchr openParen reply with
  | none => none
  | some (front, rest) => (strchr closeParen rest).map (fun r => (front ++ [openParen], r.1))

/-- The reply stands in the buffer of `ftpCheckResponse` with the bytes `buf` in front of it. -/
def passive (longBits : ℕ) (buf reply : Str) : Parsed :=
  match findPart reply with
  | none => ⟨.returned FTPERR_PASSIVE_ERROR, 0⟩
  | some (front, part) => parsePart longBits (buf ++ front) part

def number (s : Str) : Option UInt8 :=
  if s ≠ [] ∧ s.all isdigit ∧ digitsValue s ≤ 255 then some (digitsValue s).toUInt8 else none

def sixNumbers (part : Str) : Option (InAddr × ℕ) :=
  match (part.splitOn comma).map number with
  | [some a, some b, some c, some d, some p, some q] => some (⟨a, b, c, d⟩, 256 * p.toNat + q.toNat)
  | _ => none

def wanted (reply : Str) : Outcome :=
  match (findPart reply).bind (fun r => sixNumbers r.2) with
  | some (address, port) => .connect address port
  | none => .returned FTPERR_PASSIVE_ERROR

/-- The branch does what is wanted, and its scans stay in the parentheses. -/
def Exact (longBits : ℕ) (buf reply : Str) : Prop :=
  (passive longBits buf reply).outcome = wanted reply ∧
    ∀ front part, findPart reply = some (front, part) →
      (passive longBits buf reply).looked ≤ part.length

/-- The text in front of the last two commas, between them and behind them. -/
def cutPorts (part : Str) : Option (Str × Str × Str) :=
  match strrchr comma part with
  | none => none
  | some (front, q) => (strrchr comma front).map (fun r => (r.1, r.2, q))

/-- What passes for an address and two numbers: dots for commas, blanks and signs in front of the
numbers, anything behind the second one, and numbers of any size. -/
def Passes (address p q : Str) : Prop :=
  (inetPton4 (address.map toDot)).isSome = true ∧
    (afterSign p ≠ [] ∧ (afterSign p).all isdigit = true) ∧ (afterSign q).head?.any isdigit = true

def noLeadingZero (s : Str) : Prop := s.head? = some 0x30 → s.length = 1

/-- There are two commas; what passes for an address and two numbers has no dots in the address
and numbers of a byte behind it; and six numbers have no zeros in front of the first four. -/
def Strict (part : Str) : Prop :=
  ∃ address p q, cutPorts part = some (address, p, q) ∧
    (Passes address p q → dot ∉ address ∧ (number p).isSome = true ∧ (number q).isSome = true) ∧
    ((sixNumbers part).isSome = true → ∀ field ∈ address.splitOn comma, noLeadingZero field)

section Scan

variable {s t x y : Str}

theorem scanBack_append (hx : ∀ b ∈ x, b ≠ 0 ∧ b ≠ comma) (passed s : Str) :
    scanBack passed (x.reverse ++ s) = scanBack (x ++ passed) s := by
  induction x generalizing s with
  | nil => rfl
  | cons b x ih =>
    have hb := hx b (by simp)
    rw [List.reverse_cons, List.append_assoc, ih (fun c hc => hx c (by simp [hc])),
      List.singleton_append, scanBack, if_neg (by simp [hb.1, hb.2])]
    rfl

theorem scanBack_comma (passed s : Str) :
    scanBack passed (comma :: s) = ⟨passed, some comma, s⟩ := by
  rw [scanBack, if_pos (Or.inr rfl)]

theorem looked_scanBack {b : UInt8} (hb : b ≠ 0 ∧ b ≠ comma) (passed s : Str) :
    passed.length < (scanBack passed (b :: s)).looked := by
  have hmono : ∀ (s passed : Str), passed.length ≤ (scanBack passed s).looked := by
    intro s
    induction s with
    | nil => exact fun passed => Nat.le_add_right _ _
    | cons c s ih =>
      intro passed
      rw [scanBack]
      split
      · exact Nat.le_add_right _ _
      · exact Nat.le_of_succ_le (ih (c :: passed))
  rw [scanBack, if_neg (by simp [hb.1, hb.2])]
  exact hmono s (b :: passed)

end Scan

section Cut

variable {part a p q : Str}

/-- A part has two commas behind each other, or the scans leave it. -/
theorem cutPorts_cases (part : Str) :
    (cutPorts part = none ∧
      (comma ∉ part ∨ ∃ a q, part = a ++ comma :: q ∧ comma ∉ a ∧ comma ∉ q)) ∨
      ∃ a p q, cutPorts part = some (a, p, q) ∧ part = a ++ comma :: (p ++ comma :: q) ∧
        comma ∉ p ∧ comma ∉ q := by
  rw [cutPorts]
  rcases strrchr_cases comma part with ⟨hnone, hnot⟩ | ⟨front, q, hsome, rfl, hq⟩
  · rw [hnone]
    exact Or.inl ⟨rfl, Or.inl hnot⟩
  · rw [hsome]
    dsimp only
    rcases strrchr_cases comma front with ⟨hnone, hnot⟩ | ⟨a, p, hsome', rfl, hp⟩
    · rw [hnone]
      exact Or.inl ⟨rfl, Or.inr ⟨front, q, rfl, hnot, hq⟩⟩
    · rw [hsome']
      exact Or.inr ⟨a, p, q, rfl, by rw [List.append_assoc]; rfl, hp, hq⟩

theorem plain_bytes {s : Str} (hnul : (0 : UInt8) ∉ s) (hcomma : comma ∉ s) :
    ∀ b ∈ s, b ≠ 0 ∧ b ≠ comma := by
  intro b hb
  refine ⟨?_, ?_⟩
  · rintro rfl
    exact hnul hb
  · rintro rfl
    exact hcomma hb

theorem parsePart_cut (longBits : ℕ) (before : Str) (hnul : (0 : UInt8) ∉ part)
    (hpart : part = a ++ comma :: (p ++ comma :: q)) (hp : comma ∉ p) (hq : comma ∉ q) :
    (parsePart longBits before part).outcome = connectTo longBits a (p ++ comma :: q) ∧
      (parsePart longBits before part).looked ≤ part.length := by
  subst hpart
  simp only [List.mem_append, List.mem_cons, not_or] at hnul
  have hq' := plain_bytes hnul.2.2.2.2 hq
  have hp' := plain_bytes hnul.2.2.1 hp
  have hfirst : scanBack [] ((a ++ comma :: (p ++ comma :: q)).reverse ++ before.reverse) =
      ⟨q, some comma, p.reverse ++ (comma :: (a.reverse ++ before.reverse))⟩ := by
    simp only [List.reverse_append, List.reverse_cons, List.append_assoc, List.cons_append,
      List.nil_append]
    rw [scanBack_append hq', scanBack_comma, List.append_nil]
  have hsecond : scanBack [] (p.reverse ++ (comma :: (a.reverse ++ before.reverse))) =
      ⟨p, some comma, a.reverse ++ before.reverse⟩ := by
    rw [scanBack_append hp', scanBack_comma, List.append_nil]
  have hlen : (a ++ comma :: (p ++ comma :: q)).length - (p ++ comma :: q).length - 1 =
      a.length := by
    simp only [List.length_append, List.length_cons]
    omega
  rw [parsePart, hfirst]
  simp only [hsecond, ne_eq, not_true_eq_false, if_false]
  constructor
  · rw [if_pos (by simp only [List.length_append, List.length_cons]; omega), hlen,
      List.take_left]
  · simp only [Scan.looked, Option.toList_some, List.length_cons, List.length_nil,
      List.length_append]
    omega

theorem looked_first (longBits : ℕ) (before part : Str) :
    (scanBack [] (part.reverse ++ before.reverse)).looked ≤
      (parsePart longBits before part).looked := by
  rw [parsePart]
  dsimp only
  split
  · exact Nat.le_refl _
  · split
    · exact Nat.le_refl _
    · split
      · exact Nat.le_add_right _ _
      · split <;> exact Nat.le_add_right _ _

theorem looked_second (longBits : ℕ) (before part : Str) {s : Str}
    (h : scanBack [] (part.reverse ++ before.reverse) = ⟨q, some comma, s⟩) :
    (parsePart longBits before part).looked = q.length + 1 + (scanBack [] s).looked := by
  rw [parsePart, h]
  simp only [ne_eq, not_true_eq_false, if_false]
  split
  · rfl
  · split <;> rfl

theorem parsePart_leaves (longBits : ℕ) (buf front : Str) (hnul : (0 : UInt8) ∉ part)
    (hpart : comma ∉ part ∨ ∃ a q, part = a ++ comma :: q ∧ comma ∉ a ∧ comma ∉ q) :
    part.length < (parsePart longBits (buf ++ (front ++ [openParen])) part).looked := by
  have hbefore : (buf ++ (front ++ [openParen])).reverse =
      openParen :: (front.reverse ++ buf.reverse) := by simp
  have hopen : openParen ≠ 0 ∧ openParen ≠ comma := by decide
  rcases hpart with hnone | ⟨a, q, rfl, ha, hq⟩
  · have hlooked := looked_first longBits (buf ++ (front ++ [openParen])) part
    rw [hbefore, scanBack_append (plain_bytes hnul hnone), List.append_nil] at hlooked
    exact Nat.lt_of_lt_of_le (looked_scanBack hopen _ _) hlooked
  · simp only [List.mem_append, List.mem_cons, not_or] at hnul
    have hfirst : scanBack [] ((a ++ comma :: q).reverse ++
        (buf ++ (front ++ [openParen])).reverse) =
        ⟨q, some comma, a.reverse ++ (openParen :: (front.reverse ++ buf.reverse))⟩ := by
      simp only [hbefore, List.reverse_append, List.reverse_cons, List.append_assoc,
        List.cons_append, List.nil_append]
      rw [scanBack_append (plain_bytes hnul.2.2 hq), scanBack_comma, List.append_nil]
    have hsecond := looked_scanBack hopen (a ++ []) (front.reverse ++ buf.reverse)
    rw [looked_second longBits _ _ hfirst, scanBack_append (plain_bytes hnul.1 ha)]
    simp only [List.length_append, List.length_cons, List.length_nil] at hsecond ⊢
    omega

end Cut

section Numbers

variable {longBits : ℕ} {p q s : Str} {n : UInt8}

theorem number_eq_some : number s = some n ↔
    s ≠ [] ∧ s.all isdigit = true ∧ digitsValue s = n.toNat := by
  unfold number
  constructor
  · intro h
    split at h
    · rename_i hs
      refine ⟨hs.1, hs.2.1, ?_⟩
      rw [← Option.some.inj h, Nat.toUInt8_eq, UInt8.toNat_ofNat']
      omega
    · cases h
  · rintro ⟨hne, hdigits, hvalue⟩
    have hn := n.toNat_lt
    rw [if_pos ⟨hne, hdigits, by omega⟩, hvalue]
    simp

theorem octet_eq_some : octet s = some n ↔ number s = some n ∧ noLeadingZero s := by
  by_cases hzero : noLeadingZero s
  · have heq : octet s = number s := by
      unfold octet number
      congr 1
      exact propext ⟨fun h => ⟨h.1, h.2.1, h.2.2.2⟩, fun h => ⟨h.1, h.2.1, hzero, h.2.2⟩⟩
    rw [heq, and_iff_left hzero]
  · have hnone : octet s = none := by
      unfold octet
      exact if_neg (fun h => hzero h.2.2.1)
    simp [hnone, hzero]

theorem afterSign_append (p q : Str) :
    afterSign (p ++ comma :: q) = afterSign p ++ comma :: q := by
  unfold afterSign
  by_cases hblank : ∀ b ∈ p, isspace b = true
  · rw [List.dropWhile_append_of_pos hblank, List.dropWhile_eq_nil_iff.mpr hblank]
    have hcomma : (comma :: q).dropWhile isspace = comma :: q := rfl
    rw [hcomma]
    rfl
  · have hne : p.dropWhile isspace ≠ [] := fun h => hblank (List.dropWhile_eq_nil_iff.mp h)
    obtain ⟨b, ds, hds⟩ := List.exists_cons_of_ne_nil hne
    have happend : (p ++ comma :: q).dropWhile isspace = b :: (ds ++ comma :: q) := by
      rw [List.dropWhile_append, hds]
      rfl
    rw [happend, hds]
    dsimp only
    split <;> rfl

theorem afterSign_subset : ∀ b ∈ afterSign p, b ∈ p := by
  unfold afterSign
  intro b hb
  have hsuffix := (List.dropWhile_suffix (l := p) isspace).subset
  split at hb
  · cases hb
  · rename_i c ds hds
    rw [hds] at hsuffix
    split at hb
    · exact hsuffix (List.mem_cons_of_mem _ hb)
    · exact hsuffix hb

theorem scanPair_isSome (hp : comma ∉ p) :
    (scanPair longBits (p ++ comma :: q)).isSome = true ↔
      (afterSign p ≠ [] ∧ (afterSign p).all isdigit = true) ∧
        (afterSign q).head?.any isdigit = true := by
  have hcomma : comma ∉ afterSign p := fun h => hp (afterSign_subset comma h)
  rw [scanPair, scanInt, afterSign_append]
  generalize afterSign p = ds at hcomma ⊢
  cases ds with
  | nil => simp [isdigit, comma]
  | cons b ds =>
    rw [List.cons_append, List.head?_cons, Option.any_some, List.all_cons, Bool.and_eq_true]
    by_cases hb : isdigit b = true
    · rw [if_pos hb, List.dropWhile_cons_of_pos hb]
      by_cases hall : ds.all isdigit = true
      · rw [List.dropWhile_append_of_pos (List.all_eq_true.mp hall)]
        have hstop : (comma :: q).dropWhile isdigit = comma :: q := rfl
        rw [hstop]
        simp only [if_true, scanInt]
        split <;> simp_all
      · have hne : ds.dropWhile isdigit ≠ [] := by
          intro h
          exact hall (List.all_eq_true.mpr (List.dropWhile_eq_nil_iff.mp h))
        obtain ⟨c, rest, hrest⟩ := List.exists_cons_of_ne_nil hne
        have hc : c ≠ comma := by
          rintro rfl
          have hmem := (List.dropWhile_suffix (l := ds) isdigit).subset
          rw [hrest] at hmem
          exact hcomma (List.mem_cons_of_mem _ (hmem List.mem_cons_self))
        rw [List.dropWhile_append, hrest]
        simp [hc, hall]
    · simp [hb]

theorem number_afterSign (hp : number p = some n) : afterSign p = p := by
  obtain ⟨hne, hdigits, -⟩ := number_eq_some.mp hp
  rw [List.all_eq_true] at hdigits
  obtain ⟨b, ds, rfl⟩ := List.exists_cons_of_ne_nil hne
  have hb : isdigit b = true := hdigits b (by simp)
  have hsign : ¬ (b = 0x2d ∨ b = 0x2b) := by
    rintro (rfl | rfl) <;> exact absurd hb (by decide)
  unfold afterSign
  rw [List.dropWhile_cons_of_neg (by simp [isdigit_not_isspace hb])]
  exact if_neg hsign

theorem number_scan (hp : number p = some n) :
    (afterSign p ≠ [] ∧ (afterSign p).all isdigit = true) ∧
      (afterSign p).head?.any isdigit = true := by
  obtain ⟨hne, hdigits, -⟩ := number_eq_some.mp hp
  rw [number_afterSign hp]
  obtain ⟨b, ds, rfl⟩ := List.exists_cons_of_ne_nil hne
  exact ⟨⟨hne, hdigits⟩, List.all_eq_true.mp hdigits b (by simp)⟩

theorem scanPair_numbers (hlong : 32 ≤ longBits) {m : UInt8} (hp : number p = some m)
    (hq : number q = some n) :
    ∃ i j, scanPair longBits (p ++ comma :: q) = some (i, j) ∧
      portOf i j = 256 * m.toNat + n.toNat := by
  obtain ⟨hpne, hpdigits, hpvalue⟩ := number_eq_some.mp hp
  obtain ⟨hqne, hqdigits, hqvalue⟩ := number_eq_some.mp hq
  rw [List.all_eq_true] at hpdigits hqdigits
  have hm := m.toNat_lt
  have hn := n.toNat_lt
  have hi : strtolInt longBits (p ++ comma :: q) = m.toNat := by
    apply strtolInt_eq hlong _ (by omega)
    rw [strtolValue_digits_append hpne hpdigits (by simp [isdigit, comma]), hpvalue]
  have hj : strtolInt longBits q = n.toNat := by
    apply strtolInt_eq hlong _ (by omega)
    rw [strtolValue_digits hqne hqdigits, hqvalue]
  have hleft : (afterSign (p ++ comma :: q)).dropWhile isdigit = comma :: q := by
    rw [afterSign_append, number_afterSign hp, List.dropWhile_append_of_pos hpdigits]
    rfl
  have hfirst : scanInt longBits (p ++ comma :: q) = some ((m.toNat : ℤ), comma :: q) := by
    rw [scanInt, hleft, hi, afterSign_append, number_afterSign hp]
    obtain ⟨b, ds, rfl⟩ := List.exists_cons_of_ne_nil hpne
    exact if_pos (hpdigits b (by simp))
  have hsecond : ∃ rest, scanInt longBits q = some ((n.toNat : ℤ), rest) := by
    rw [scanInt, if_pos (number_scan hq).2, hj]
    exact ⟨_, rfl⟩
  obtain ⟨rest, hsecond⟩ := hsecond
  refine ⟨m.toNat, n.toNat, ?_, ?_⟩
  · rw [scanPair, hfirst]
    dsimp only
    rw [if_pos rfl, hsecond, Option.map_some]
  · rw [portOf]
    omega

end Numbers

section Address

variable {a p q part s : Str} {x : InAddr} {port : ℕ}

theorem splitOn_toDot (h : dot ∉ a) : (a.map toDot).splitOn dot = a.splitOn comma := by
  induction a with
  | nil => rfl
  | cons b a ih =>
    rw [List.mem_cons, not_or] at h
    rw [List.map_cons, List.splitOn_cons_eq_if_modifyHead, List.splitOn_cons_eq_if_modifyHead,
      ih h.2]
    by_cases hb : b = comma
    · simp [hb, toDot]
    · simp [hb, toDot, Ne.symm h.1]

theorem inetPton4_eq_some : inetPton4 s = some x ↔
    ∃ f g h k, s.splitOn dot = [f, g, h, k] ∧ octet f = some x.a ∧ octet g = some x.b ∧
      octet h = some x.c ∧ octet k = some x.d := by
  unfold inetPton4
  constructor
  · intro hx
    split at hx
    · rename_i f g h k hsplit
      split at hx
      · rename_i hf hg hh hk
        rw [Option.some.injEq] at hx
        rw [← hx]
        exact ⟨f, g, h, k, hsplit, hf, hg, hh, hk⟩
      · cases hx
    · cases hx
  · rintro ⟨f, g, h, k, hsplit, hf, hg, hh, hk⟩
    rw [hsplit]
    dsimp only
    rw [hf, hg, hh, hk]

theorem inetPton4_first {f : Str} {fields : List Str} (hsplit : s.splitOn dot = f :: fields)
    (hf : octet f = none) : inetPton4 s = none := by
  cases hx : inetPton4 s with
  | none => rfl
  | some x =>
    obtain ⟨f', g, h, k, hsplit', hf', -⟩ := inetPton4_eq_some.mp hx
    rw [hsplit, List.cons.injEq] at hsplit'
    rw [← hsplit'.1, hf] at hf'
    cases hf'

theorem inetPton4_dotted (a : Str) : inetPton4 (dotted a) = inetPton4 (a.map toDot) := by
  cases a with
  | nil => rfl
  | cons b s =>
    rw [dotted, List.map_cons]
    by_cases hb : b = comma
    · subst hb
      have hdot : (toDot comma :: s.map toDot).splitOn dot = [] :: (s.map toDot).splitOn dot := by
        rw [List.splitOn_cons_eq_if_modifyHead]
        rfl
      obtain ⟨f, fields, hfields⟩ :=
        List.exists_cons_of_ne_nil (List.splitOn_ne_nil dot (s.map toDot))
      have hcomma : (comma :: s.map toDot).splitOn dot = (comma :: f) :: fields := by
        rw [List.splitOn_cons_eq_if_modifyHead, hfields]
        rfl
      rw [inetPton4_first hdot rfl, inetPton4_first hcomma]
      unfold octet
      exact if_neg (fun h => absurd h.2.1 (by simp [isdigit, comma]))
    · rw [toDot, if_neg hb]

theorem sixNumbers_eq_some (hpart : part = a ++ comma :: (p ++ comma :: q)) (hp : comma ∉ p)
    (hq : comma ∉ q) : sixNumbers part = some (x, port) ↔
    ∃ f g h k m n, a.splitOn comma = [f, g, h, k] ∧ number f = some x.a ∧ number g = some x.b ∧
      number h = some x.c ∧ number k = some x.d ∧ number p = some m ∧ number q = some n ∧
      port = 256 * m.toNat + n.toNat := by
  have hsplit : part.splitOn comma = a.splitOn comma ++ [p, q] := by
    rw [hpart, List.splitOn_append_cons_self, List.splitOn_append_cons_self_of_not_mem hp,
      List.splitOn_eq_singleton hq]
  rw [sixNumbers, hsplit]
  constructor
  · intro hx
    split at hx
    · rename_i n1 n2 n3 n4 m n heq
      have hlen : (a.splitOn comma).length = 4 := by
        have hlen' := congrArg List.length heq
        simp only [List.length_map, List.length_append, List.length_cons, List.length_nil] at hlen'
        omega
      obtain ⟨f, g, h, k, hfields⟩ := List.length_eq_four.mp hlen
      rw [hfields] at heq
      simp only [List.cons_append, List.nil_append, List.map_cons, List.map_nil, List.cons.injEq,
        and_true] at heq
      rw [Option.some.injEq, Prod.mk.injEq] at hx
      rw [← hx.1, ← hx.2]
      obtain ⟨h1, h2, h3, h4, h5, h6⟩ := heq
      exact ⟨f, g, h, k, m, n, hfields, h1, h2, h3, h4, h5, h6, rfl⟩
    · cases hx
  · rintro ⟨f, g, h, k, m, n, hfields, h1, h2, h3, h4, h5, h6, rfl⟩
    rw [hfields]
    simp only [List.cons_append, List.nil_append, List.map_cons, List.map_nil, h1, h2, h3, h4, h5,
      h6]

end Address

section Exact

variable {longBits : ℕ} {a p q part : Str}

theorem connectTo_passes (longBits : ℕ) (hp : comma ∉ p) (h : Passes a p q) :
    ∃ x i j, inetPton4 (a.map toDot) = some x ∧ scanPair longBits (p ++ comma :: q) = some (i, j) ∧
      connectTo longBits a (p ++ comma :: q) = .connect x (portOf i j) := by
  obtain ⟨x, hx⟩ := Option.isSome_iff_exists.mp h.1
  obtain ⟨⟨i, j⟩, hij⟩ := Option.isSome_iff_exists.mp ((scanPair_isSome hp).mpr h.2)
  refine ⟨x, i, j, hx, hij, ?_⟩
  rw [connectTo, hij]
  dsimp only
  rw [inetPton4_dotted, hx]

theorem connectTo_fails (hp : comma ∉ p) (h : ¬ Passes a p q) :
    connectTo longBits a (p ++ comma :: q) = .returned FTPERR_PASSIVE_ERROR := by
  rw [connectTo]
  cases hscan : scanPair longBits (p ++ comma :: q) with
  | none => rfl
  | some r =>
    dsimp only
    cases hx : inetPton4 (dotted a) with
    | none => rfl
    | some x =>
      rw [inetPton4_dotted] at hx
      exact absurd ⟨by rw [hx]; rfl, (scanPair_isSome hp).mp (by rw [hscan]; rfl)⟩ h

theorem six_passes (hpart : part = a ++ comma :: (p ++ comma :: q)) (hp : comma ∉ p)
    (hq : comma ∉ q) {x : InAddr} {port : ℕ} (hsix : sixNumbers part = some (x, port)) :
    dot ∉ a ∧ (number p).isSome = true ∧ (number q).isSome = true ∧
      ((∀ field ∈ a.splitOn comma, noLeadingZero field) →
        inetPton4 (a.map toDot) = some x ∧ Passes a p q) := by
  obtain ⟨f, g, h, k, m, n, hfields, hf, hg, hh, hk, hm, hn, -⟩ :=
    (sixNumbers_eq_some hpart hp hq).mp hsix
  have hdot : dot ∉ a := by
    have hdigit : ∀ {s : Str} {n : UInt8}, number s = some n → dot ∉ s := by
      intro s n hs hmem
      have hall := List.all_eq_true.mp (number_eq_some.mp hs).2.1 dot hmem
      exact absurd hall (by decide)
    have hjoin : [comma].intercalate (a.splitOn comma) = a := List.intercalate_splitOn comma
    rw [hfields] at hjoin
    rw [← hjoin]
    simp [List.intercalate, hdigit hf, hdigit hg, hdigit hh, hdigit hk, dot, comma]
  refine ⟨hdot, by rw [hm]; rfl, by rw [hn]; rfl, fun hzero => ?_⟩
  have hx : inetPton4 (a.map toDot) = some x := by
    rw [inetPton4_eq_some]
    refine ⟨f, g, h, k, by rw [splitOn_toDot hdot, hfields], ?_⟩
    rw [hfields] at hzero
    simp only [octet_eq_some]
    exact ⟨⟨hf, hzero f (by simp)⟩, ⟨hg, hzero g (by simp)⟩, ⟨hh, hzero h (by simp)⟩,
      ⟨hk, hzero k (by simp)⟩⟩
  exact ⟨hx, by rw [hx]; rfl, (number_scan hm).1, (number_scan hn).2⟩

theorem passes_six (hpart : part = a ++ comma :: (p ++ comma :: q)) (hp : comma ∉ p)
    (hq : comma ∉ q) (h : Passes a p q) (hdot : dot ∉ a) (hm : (number p).isSome = true)
    (hn : (number q).isSome = true) :
    (sixNumbers part).isSome = true ∧ ∀ field ∈ a.splitOn comma, noLeadingZero field := by
  obtain ⟨x, hx⟩ := Option.isSome_iff_exists.mp h.1
  obtain ⟨m, hm⟩ := Option.isSome_iff_exists.mp hm
  obtain ⟨n, hn⟩ := Option.isSome_iff_exists.mp hn
  obtain ⟨f, g, h, k, hfields, hf, hg, hh, hk⟩ := inetPton4_eq_some.mp hx
  rw [splitOn_toDot hdot] at hfields
  rw [octet_eq_some] at hf hg hh hk
  have hsix := (sixNumbers_eq_some hpart hp hq).mpr
    ⟨f, g, h, k, m, n, hfields, hf.1, hg.1, hh.1, hk.1, hm, hn, rfl⟩
  rw [hsix, hfields]
  refine ⟨rfl, ?_⟩
  simp only [List.forall_mem_cons]
  exact ⟨hf.2, hg.2, hh.2, hk.2, fun _ hnil => absurd hnil List.not_mem_nil⟩

def wantedPart (part : Str) : Outcome :=
  match sixNumbers part with
  | some (address, port) => .connect address port
  | none => .returned FTPERR_PASSIVE_ERROR

theorem connectTo_exact_iff (hlong : 32 ≤ longBits)
    (hpart : part = a ++ comma :: (p ++ comma :: q)) (hp : comma ∉ p) (hq : comma ∉ q) :
    connectTo longBits a (p ++ comma :: q) = wantedPart part ↔
      (Passes a p q → dot ∉ a ∧ (number p).isSome = true ∧ (number q).isSome = true) ∧
      ((sixNumbers part).isSome = true → ∀ field ∈ a.splitOn comma, noLeadingZero field) := by
  rw [wantedPart]
  by_cases hpass : Passes a p q
  · obtain ⟨x, i, j, hx, hij, hconnect⟩ := connectTo_passes longBits hp hpass
    rw [hconnect]
    cases hsix : sixNumbers part with
    | none =>
      refine iff_of_false nofun (fun h => ?_)
      obtain ⟨hdot, hm, hn⟩ := h.1 hpass
      have hsome := (passes_six hpart hp hq hpass hdot hm hn).1
      rw [hsix] at hsome
      cases hsome
    | some r =>
      obtain ⟨x', port⟩ := r
      obtain ⟨hdot, hm, hn, himp⟩ := six_passes hpart hp hq hsix
      have hzero := (passes_six hpart hp hq hpass hdot hm hn).2
      refine iff_of_true ?_ ⟨fun _ => ⟨hdot, hm, hn⟩, fun _ => hzero⟩
      obtain ⟨f, g, h, k, m, n, -, -, -, -, -, hm', hn', hport⟩ :=
        (sixNumbers_eq_some hpart hp hq).mp hsix
      obtain ⟨i', j', hij', hport'⟩ := scanPair_numbers hlong hm' hn'
      rw [hij, Option.some.injEq, Prod.mk.injEq] at hij'
      have hx' := (himp hzero).1
      rw [hx, Option.some.injEq] at hx'
      rw [hx', hij'.1, hij'.2, hport', hport]
  · rw [connectTo_fails hp hpass]
    cases hsix : sixNumbers part with
    | none => exact iff_of_true rfl ⟨fun h => absurd h hpass, fun h => nomatch h⟩
    | some r =>
      obtain ⟨x, port⟩ := r
      obtain ⟨-, -, -, himp⟩ := six_passes hpart hp hq hsix
      exact iff_of_false nofun (fun h => hpass (himp (h.2 rfl)).2)

theorem findPart_eq_some {reply front : Str} (h : findPart reply = some (front, part)) :
    ∃ text rest, front = text ++ [openParen] ∧ reply = front ++ part ++ closeParen :: rest := by
  rw [findPart] at h
  cases hopen : strchr openParen reply with
  | none =>
    rw [hopen] at h
    cases h
  | some found =>
    obtain ⟨text, behind⟩ := found
    rw [hopen, Option.map_eq_some_iff] at h
    obtain ⟨⟨part', rest⟩, hclose, heq⟩ := h
    rw [Prod.mk.injEq] at heq
    obtain ⟨hreply, -⟩ := (strchr_eq_some_iff _ _ _ _).mp hopen
    obtain ⟨hbehind, -⟩ := (strchr_eq_some_iff _ _ _ _).mp hclose
    refine ⟨text, rest, heq.1.symm, ?_⟩
    rw [hreply, hbehind, ← heq.1, ← heq.2]
    simp

/-- The branch does what is wanted, and keeps to the text in parentheses, if and only if that text
is in strict form or there is none. -/
theorem passive_exact_iff (longBits : ℕ) (hlong : 32 ≤ longBits) (buf reply : Str)
    (hnul : (0 : UInt8) ∉ reply) :
    Exact longBits buf reply ↔
      ∀ front part, findPart reply = some (front, part) → Strict part := by
  rw [Exact, passive, wanted]
  cases hfind : findPart reply with
  | none => exact iff_of_true ⟨rfl, nofun⟩ nofun
  | some found =>
    obtain ⟨front, part⟩ := found
    obtain ⟨text, rest, rfl, hreply⟩ := findPart_eq_some hfind
    have hpart : (0 : UInt8) ∉ part := by
      intro hmem
      rw [hreply] at hnul
      simp [hmem] at hnul
    have hall : ∀ {P : Str → Str → Prop}, (∀ f p, some (text ++ [openParen], part) = some (f, p) →
        P f p) ↔ P (text ++ [openParen]) part := by
      intro P
      constructor
      · exact fun h => h _ _ rfl
      · rintro h f p heq
        rw [Option.some.injEq, Prod.mk.injEq] at heq
        rw [← heq.1, ← heq.2]
        exact h
    rw [hall, hall]
    dsimp only
    rw [Option.bind_some]
    change (parsePart longBits _ part).outcome = wantedPart part ∧ _ ↔ _
    rcases cutPorts_cases part with ⟨hnone, hcommas⟩ | ⟨a, p, q, hcut, hsplit, hp, hq⟩
    · have hlooked := parsePart_leaves longBits buf text hpart hcommas
      refine iff_of_false (fun h => ?_) (fun h => ?_)
      · exact absurd h.2 (Nat.not_le_of_lt hlooked)
      · obtain ⟨a, p, q, hcut, -⟩ := h
        rw [hnone] at hcut
        cases hcut
    · obtain ⟨houtcome, hlooked⟩ := parsePart_cut longBits (buf ++ (text ++ [openParen])) hpart
        hsplit hp hq
      rw [houtcome, connectTo_exact_iff hlong hsplit hp hq, and_iff_left hlooked]
      constructor
      · exact fun h => ⟨a, p, q, hcut, h⟩
      · rintro ⟨a', p', q', hcut', h⟩
        rw [hcut, Option.some.injEq, Prod.mk.injEq, Prod.mk.injEq] at hcut'
        rw [hcut'.1, hcut'.2.1, hcut'.2.2]
        exact h

/-- The reply that a comment of the source shows. -/
theorem passive_exact_documented :
    Exact 32 [] (ascii "227 Entering Passive Mode (209,132,176,30,57,229)") := by
  apply (passive_exact_iff 32 (by decide) [] _ (by decide +kernel)).mpr
  intro front part hfind
  have hpart : (findPart (ascii "227 Entering Passive Mode (209,132,176,30,57,229)")).map Prod.snd =
      some (ascii "209,132,176,30,57,229") := by decide +kernel
  rw [hfind, Option.map_some, Option.some.injEq] at hpart
  dsimp only at hpart
  rw [hpart]
  refine ⟨ascii "209,132,176,30", ascii "57", ascii "229", by decide +kernel, fun _ => ?_,
    fun _ => ?_⟩
  · decide +kernel
  · unfold noLeadingZero
    decide +kernel

/-- A number above 255, dots, and parentheses with nothing in them. -/
theorem passive_inexact :
    ((passive 32 [] (ascii "227 Entering Passive Mode (192,168,0,1,4,300)")).outcome =
        .connect ⟨192, 168, 0, 1⟩ 1324 ∧
      wanted (ascii "227 Entering Passive Mode (192,168,0,1,4,300)") =
        .returned FTPERR_PASSIVE_ERROR) ∧
    ((passive 32 [] (ascii "227 ok (10.0.0.1, 4,-5 )")).outcome = .connect ⟨10, 0, 0, 1⟩ 1019 ∧
      wanted (ascii "227 ok (10.0.0.1, 4,-5 )") = .returned FTPERR_PASSIVE_ERROR) ∧
    (passive 32 [] (ascii "227 ok ()")).outcome = .fault ∧
    ¬ Exact 32 [] (ascii "227 Entering Passive Mode (192,168,0,1,4,300)") := by
  refine ⟨by decide +kernel, by decide +kernel, by decide +kernel, fun h => ?_⟩
  exact absurd h.1 (by decide +kernel)

end Exact

end Comodoo.FtpPassive
