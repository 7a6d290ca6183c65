import Comodoo.DecimalText

set_option autoImplicit false

/-!
# Internet addresses as text

`inet_pton` and `inet_ntop` of the C library.
-/
namespace Comodoo.InetText
open CString HttpHeaders DecimalText

abbrev dot : UInt8 := 0x2e
abbrev colon : UInt8 := 0x3a

structure InAddr where
  a : UInt8
  b : UInt8
  c : UInt8
  d : UInt8
  deriving DecidableEq, Repr

/-- An octet has one to three digits, and no zero in front of others. -/
def octet (s : Str) : Option UInt8 :=
  if s ≠ [] ∧ s.all isdigit ∧ (s.head? = some 0x30 → s.length = 1) ∧ digitsValue s ≤ 255 then
    some (digitsValue s).toUInt8
  else none

/-- `inet_pton(AF_INET, s)`. -/
def inetPton4 (s : Str) : Option InAddr :=
  match s.splitOn dot with
  | [a, b, c, d] =>
    match octet a, octet b, octet c, octet d with
    | some a, some b, some c, some d => some ⟨a, b, c, d⟩
    | _, _, _, _ => none
  | _ => none

/-- `inet_ntop(AF_INET, x)`. -/
def inetNtop4 (x : InAddr) : Str :=
  decimal x.a.toNat ++ dot :: decimal x.b.toNat ++ dot :: decimal x.c.toNat ++
    dot :: decimal x.d.toNat

/-- The sixteen bytes of an IPv6 address. -/
abbrev In6Addr := List UInt8

def hexDigit (b : UInt8) : Option ℕ :=
  if 0x30 ≤ b ∧ b ≤ 0x39 then some (b.toNat - 0x30)
  else if 0x61 ≤ b ∧ b ≤ 0x66 then some (b.toNat - 0x57)
  else if 0x41 ≤ b ∧ b ≤ 0x46 then some (b.toNat - 0x37)
  else none

/-- The bytes written so far, the place of `::` among them, the digits of the group that has
begun and the text it began with. -/
structure Groups where
  bytes : In6Addr
  gap : Option ℕ
  digits : ℕ
  value : ℕ
  group : Str
  deriving DecidableEq, Repr

def Groups.put (g : Groups) : In6Addr := g.bytes ++ [(g.value / 256).toUInt8, g.value.toUInt8]

def Groups.close (g : Groups) : Option In6Addr :=
  if g.digits > 0 ∧ 16 < g.bytes.length + 2 then none
  else
    let bytes := if g.digits > 0 then g.put else g.bytes
    match g.gap with
    | none => if bytes.length = 16 then some bytes else none
    | some n =>
      if bytes.length = 16 then none
      else some (bytes.take n ++ List.replicate (16 - bytes.length) 0 ++ bytes.drop n)

def groups (g : Groups) : Str → Option In6Addr
  | [] => g.close
  | ch :: s =>
    match hexDigit ch with
    | some digit =>
      if g.digits = 4 then none
      else groups { g with digits := g.digits + 1, value := 16 * g.value + digit } s
    | none =>
      if ch = colon then
        if g.digits = 0 then
          if g.gap.isSome then none
          else groups { g with gap := some g.bytes.length, group := s } s
        else if s = [] ∨ 16 < g.bytes.length + 2 then none
        else groups { g with bytes := g.put, digits := 0, value := 0, group := s } s
      else if ch = dot ∧ g.bytes.length + 4 ≤ 16 then
        match inetPton4 g.group with
        | some x => { g with bytes := g.bytes ++ [x.a, x.b, x.c, x.d], digits := 0 }.close
        | none => none
      else none

/-- `inet_pton(AF_INET6, s)`. -/
def inetPton6 (s : Str) : Option In6Addr :=
  let start := fun (t : Str) => groups ⟨[], none, 0, 0, t⟩ t
  match s with
  | [] => none
  | 0x3a :: t => if t.head? = some colon then start t else none
  | t => start t

def hexChar (n : ℕ) : UInt8 := if n < 10 then (0x30 + n).toUInt8 else (0x57 + n).toUInt8

/-- `%x` of a 16 bit number. -/
def hexWord (n : ℕ) : Str :=
  let digits := [n / 4096 % 16, n / 256 % 16, n / 16 % 16]
  (digits.dropWhile (· = 0) ++ [n % 16]).map hexChar

def wordsOf : In6Addr → List ℕ
  | a :: b :: bytes => (256 * a.toNat + b.toNat) :: wordsOf bytes
  | _ => []

/-- A run of zeros: where it begins, and its length. -/
abbrev Run := ℕ × ℕ

def longer (best cur : Option Run) : Option Run :=
  match best, cur with
  | some b, some c => if c.2 > b.2 then some c else some b
  | none, c => c
  | b, none => b

def bestRun (i : ℕ) (best cur : Option Run) : List ℕ → Option Run
  | [] => longer best cur
  | w :: ws =>
    if w = 0 then bestRun (i + 1) best (some (match cur with
      | none => (i, 1)
      | some c => (c.1, c.2 + 1))) ws
    else bestRun (i + 1) (longer best cur) none ws

def printWords (x : In6Addr) (best : Option Run) (i : ℕ) : List ℕ → Str
  | [] => []
  | w :: ws =>
    let inside := best.any (fun r => r.1 ≤ i && i < r.1 + r.2)
    if inside then
      (if best.any (fun r => r.1 = i) then [colon] else []) ++ printWords x best (i + 1) ws
    else
      let mark := if i ≠ 0 then [colon] else []
      if i = 6 ∧ (best = some (0, 6) ∨ (best = some (0, 5) ∧ (wordsOf x)[5]? = some 0xffff)) then
        mark ++ inetNtop4 ⟨x.getD 12 0, x.getD 13 0, x.getD 14 0, x.getD 15 0⟩
      else mark ++ hexWord w ++ printWords x best (i + 1) ws

/-- `inet_ntop(AF_INET6, x)` with room for `INET6_ADDRSTRLEN` bytes. -/
def inetNtop6 (x : In6Addr) : Option Str :=
  let best := (bestRun 0 none none (wordsOf x)).filter (fun r => 2 ≤ r.2)
  let text := printWords x best 0 (wordsOf x) ++
    (if best.any (fun r => r.1 + r.2 = 8) then [colon] else [])
  if text.length < 46 then some text else none

theorem decimal_octet (x : UInt8) : octet (decimal x.toNat) = some x := by
  have hall : ∀ n < 256, ((decimal n).head? = some 0x30 → (decimal n).length = 1) := by
    decide +kernel
  unfold octet
  rw [digitsValue_decimal, if_pos]
  · simp
  · refine ⟨decimal_ne_nil _, List.all_eq_true.mpr (isdigit_decimal _), hall _ x.toNat_lt, ?_⟩
    have := x.toNat_lt
    omega

theorem dot_notMem_decimal (n : ℕ) : dot ∉ decimal n := by
  intro h
  exact absurd (isdigit_decimal n dot h) (by decide)

theorem inetPton4_inetNtop4 (x : InAddr) : inetPton4 (inetNtop4 x) = some x := by
  have hsplit : (inetNtop4 x).splitOn dot =
      [decimal x.a.toNat, decimal x.b.toNat, decimal x.c.toNat, decimal x.d.toNat] := by
    unfold inetNtop4
    simp only [List.append_assoc, List.cons_append]
    rw [List.splitOn_append_cons_self_of_not_mem (dot_notMem_decimal _),
      List.splitOn_append_cons_self_of_not_mem (dot_notMem_decimal _),
      List.splitOn_append_cons_self_of_not_mem (dot_notMem_decimal _),
      List.splitOn_eq_singleton (dot_notMem_decimal _)]
  unfold inetPton4
  rw [hsplit]
  simp only [decimal_octet]

theorem inetNtop4_inj {x y : InAddr} : inetNtop4 x = inetNtop4 y ↔ x = y := by
  refine ⟨fun h => ?_, fun h => congrArg inetNtop4 h⟩
  rw [← Option.some_inj, ← inetPton4_inetNtop4 x, ← inetPton4_inetNtop4 y, h]

theorem mem_inetNtop4 {x : InAddr} {b : UInt8} (hb : b ∈ inetNtop4 x) :
    isdigit b = true ∨ b = dot := by
  simp only [inetNtop4, List.append_assoc, List.cons_append, List.mem_append, List.mem_cons] at hb
  rcases hb with h | h | h | h | h | h | h
  · exact Or.inl (isdigit_decimal _ b h)
  · exact Or.inr h
  · exact Or.inl (isdigit_decimal _ b h)
  · exact Or.inr h
  · exact Or.inl (isdigit_decimal _ b h)
  · exact Or.inr h
  · exact Or.inl (isdigit_decimal _ b h)

theorem inetNtop4_length_le (x : InAddr) : (inetNtop4 x).length ≤ 15 := by
  have hall : ∀ n < 256, (decimal n).length ≤ 3 := by decide +kernel
  have ha := hall _ x.a.toNat_lt
  have hb := hall _ x.b.toNat_lt
  have hc := hall _ x.c.toNat_lt
  have hd := hall _ x.d.toNat_lt
  simp only [inetNtop4, List.append_assoc, List.cons_append, List.length_append, List.length_cons]
  omega

theorem newline_notMem_inetNtop4 (x : InAddr) : 0x0a ∉ inetNtop4 x := by
  intro h
  rcases mem_inetNtop4 h with hd | hd
  · exact absurd hd (by decide)
  · exact absurd hd (by decide)

theorem newline_notMem_hexWord (n : ℕ) : 0x0a ∉ hexWord n := by
  have hchar : ∀ m < 16, hexChar m ≠ 0x0a := by decide
  unfold hexWord
  dsimp only
  intro h
  obtain ⟨m, hm, he⟩ := List.mem_map.mp h
  refine hchar m ?_ he
  rcases List.mem_append.mp hm with hm | hm
  · have := (List.dropWhile_suffix _).subset hm
    simp only [List.mem_cons, List.not_mem_nil, or_false] at this
    omega
  · rw [List.mem_singleton.mp hm]
    omega

theorem newline_notMem_mark (c : Prop) [Decidable c] :
    0x0a ∉ (if c then [colon] else ([] : Str)) := by
  split_ifs
  · decide
  · exact List.not_mem_nil

theorem newline_notMem_printWords (x : In6Addr) (best : Option Run) (i : ℕ) (ws : List ℕ) :
    0x0a ∉ printWords x best i ws := by
  induction ws generalizing i with
  | nil => exact List.not_mem_nil
  | cons w ws ih =>
    intro h
    unfold printWords at h
    dsimp only at h
    split at h
    · rcases List.mem_append.mp h with h | h
      · exact newline_notMem_mark _ h
      · exact ih _ h
    · split at h
      · rcases List.mem_append.mp h with h | h
        · exact newline_notMem_mark _ h
        · exact newline_notMem_inetNtop4 _ h
      · rcases List.mem_append.mp h with h | h
        · rcases List.mem_append.mp h with h | h
          · exact newline_notMem_mark _ h
          · exact newline_notMem_hexWord _ h
        · exact ih _ h

theorem inetNtop6_line {x : In6Addr} {t : Str} (h : inetNtop6 x = some t) :
    0x0a ∉ t ∧ t.length < 46 := by
  unfold inetNtop6 at h
  obtain ⟨hlen, ht⟩ := Option.ite_none_right_eq_some.mp h
  cases ht
  refine ⟨?_, hlen⟩
  rw [List.mem_append, not_or]
  exact ⟨newline_notMem_printWords _ _ _ _, newline_notMem_mark _⟩

section Printing
variable {x : In6Addr} {best : Option Run}

theorem hexWord_length_le (n : ℕ) : (hexWord n).length ≤ 4 := by
  have hdrop := (List.dropWhile_suffix (l := [n / 4096 % 16, n / 256 % 16, n / 16 % 16])
    (fun d => decide (d = 0))).length_le
  simp only [hexWord, List.length_map, List.length_append, List.length_singleton]
  exact Nat.succ_le_succ hdrop

theorem mark_length_le (c : Prop) [Decidable c] :
    (if c then [colon] else ([] : Str)).length ≤ 1 := by
  split_ifs <;> decide

/-- Five characters for each word from the `i`th one on, and six more where the address ends in
dotted form. -/
theorem printWords_length_le (i : ℕ) (ws : List ℕ) (hi : i + ws.length = 8) :
    (printWords x best i ws).length ≤
      5 * ws.length + if best = some (0, 6) ∨ best = some (0, 5) then 6 else 0 := by
  induction ws generalizing i with
  | nil => exact Nat.zero_le _
  | cons w ws ih =>
    rw [List.length_cons] at hi
    have hrest := ih (i + 1) (by omega)
    rw [printWords, List.length_cons]
    dsimp only
    split
    · have hmark := mark_length_le (best.any (fun r => decide (r.1 = i)) = true)
      rw [List.length_append]
      omega
    · have hmark := mark_length_le (i ≠ 0)
      split
      · rename_i hdotted
        have htail := inetNtop4_length_le ⟨x.getD 12 0, x.getD 13 0, x.getD 14 0, x.getD 15 0⟩
        have hform : best = some (0, 6) ∨ best = some (0, 5) := hdotted.2.imp id And.left
        rw [List.length_append, if_pos hform]
        omega
      · have hword := hexWord_length_le w
        rw [List.length_append, List.length_append]
        omega

theorem wordsOf_length (x : In6Addr) : (wordsOf x).length = x.length / 2 := by
  induction x using wordsOf.induct with
  | case1 a b bytes ih =>
    rw [wordsOf, List.length_cons, List.length_cons, List.length_cons, ih]
    omega
  | case2 x hshort =>
    cases x with
    | nil => rfl
    | cons a x =>
      cases x with
      | nil => simp [wordsOf]
      | cons b bytes => exact absurd rfl (hshort a b bytes)

theorem inetNtop6_isSome (hx : x.length = 16) : ∃ t, inetNtop6 x = some t := by
  have hlen : (wordsOf x).length = 8 := by rw [wordsOf_length, hx]
  obtain ⟨w, ws, hws⟩ : ∃ w ws, wordsOf x = w :: ws := List.exists_cons_of_length_eq_add_one hlen
  rw [hws, List.length_cons] at hlen
  unfold inetNtop6
  dsimp only
  rw [hws]
  generalize (bestRun 0 none none (w :: ws)).filter (fun r => 2 ≤ r.2) = best
  have hrest : (printWords x best 1 ws).length ≤
      5 * ws.length + if best = some (0, 6) ∨ best = some (0, 5) then 6 else 0 :=
    printWords_length_le 1 ws (by omega)
  have hfirst : (printWords x best 0 (w :: ws)).length ≤ (printWords x best 1 ws).length + 4 := by
    rw [printWords, Nat.zero_add]
    dsimp only
    split
    · have hmark := mark_length_le (best.any (fun r => decide (r.1 = 0)) = true)
      rw [List.length_append]
      omega
    · have hword := hexWord_length_le w
      rw [if_neg (by omega), List.length_append, List.length_append]
      simp only [ne_eq, not_true_eq_false, if_false, List.length_nil]
      omega
  refine ⟨_, if_pos ?_⟩
  have hcolon := mark_length_le (best.any (fun r => decide (r.1 + r.2 = 8)) = true)
  rw [List.length_append]
  by_cases hform : best = some (0, 6) ∨ best = some (0, 5)
  · have hnone : best.any (fun r => decide (r.1 + r.2 = 8)) = false := by
      rcases hform with rfl | rfl <;> rfl
    rw [if_pos hform] at hrest
    rw [hnone]
    simp only [Bool.false_eq_true, if_false, List.length_nil]
    omega
  · rw [if_neg hform] at hrest
    omega

end Printing

section Reading
variable {g : Groups} {x : In6Addr}

/-- No more than sixteen bytes, with the place of `::` among them. -/
def Groups.Fits (g : Groups) : Prop := g.bytes.length ≤ 16 ∧ ∀ n, g.gap = some n → n ≤ g.bytes.length

theorem close_length (hfits : g.Fits) (hclose : g.close = some x) : x.length = 16 := by
  have hput : g.put.length = g.bytes.length + 2 := by simp [Groups.put]
  have hsmall := hfits.1
  rw [Groups.close] at hclose
  split at hclose
  · cases hclose
  rename_i hfull
  dsimp only at hclose
  have hle : g.bytes.length ≤ (if g.digits > 0 then g.put else g.bytes).length ∧
      (if g.digits > 0 then g.put else g.bytes).length ≤ 16 := by
    split_ifs <;> omega
  generalize (if g.digits > 0 then g.put else g.bytes) = bytes at hclose hle
  cases hgap : g.gap with
  | none =>
    rw [hgap] at hclose
    dsimp only at hclose
    split_ifs at hclose with hlen
    cases hclose
    exact hlen
  | some n =>
    have hn := hfits.2 n hgap
    rw [hgap] at hclose
    dsimp only at hclose
    split_ifs at hclose
    cases hclose
    simp only [List.length_append, List.length_take, List.length_replicate, List.length_drop]
    omega

theorem groups_length (s : Str) (hfits : g.Fits) (hread : groups g s = some x) :
    x.length = 16 := by
  induction s generalizing g with
  | nil => exact close_length hfits hread
  | cons ch s ih =>
    have hput : g.put.length = g.bytes.length + 2 := by simp [Groups.put]
    rw [groups] at hread
    cases hdigit : hexDigit ch with
    | some digit =>
      rw [hdigit] at hread
      dsimp only at hread
      split_ifs at hread
      refine ih ?_ hread
      exact hfits
    | none =>
      rw [hdigit] at hread
      dsimp only at hread
      split_ifs at hread with hcolon hempty hgap hend hdot
      · refine ih ?_ hread
        refine ⟨hfits.1, fun n hn => ?_⟩
        cases hn
        exact Nat.le_refl _
      · refine ih ?_ hread
        refine ⟨?_, fun n hn => ?_⟩
        · change g.put.length ≤ 16
          omega
        · have hold := hfits.2 n hn
          change n ≤ g.put.length
          omega
      · cases haddr : inetPton4 g.group with
        | none =>
          rw [haddr] at hread
          cases hread
        | some a =>
          rw [haddr] at hread
          refine close_length ?_ hread
          refine ⟨?_, fun n hn => ?_⟩
          · change (g.bytes ++ [a.a, a.b, a.c, a.d]).length ≤ 16
            rw [List.length_append]
            exact hdot.2
          · have hold := hfits.2 n hn
            change n ≤ (g.bytes ++ [a.a, a.b, a.c, a.d]).length
            rw [List.length_append]
            omega

theorem inetPton6_length {s : Str} (hread : inetPton6 s = some x) : x.length = 16 := by
  have hstart : ∀ t, groups ⟨[], none, 0, 0, t⟩ t = some x → x.length = 16 := by
    intro t ht
    refine groups_length t ?_ ht
    exact ⟨Nat.zero_le 16, fun n hn => by cases hn⟩
  unfold inetPton6 at hread
  dsimp only at hread
  split at hread
  · cases hread
  · split_ifs at hread
    exact hstart _ hread
  · exact hstart _ hread

end Reading

end Comodoo.InetText
