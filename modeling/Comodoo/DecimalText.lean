import Comodoo.HttpHeaders
import Mathlib.Data.List.TakeWhile

set_option autoImplicit false

/-!
# Decimal numbers in C strings

What `%d` prints and what `strtol` reads from it.
-/
namespace Comodoo.DecimalText
open CString HttpHeaders

/-- `%u`. -/
def decimal (n : ℕ) : Str := (Nat.toDigits 10 n).map (fun c => c.toNat.toUInt8)

/-- `%d`. -/
def signedDecimal (n : ℤ) : Str :=
  if n < 0 then 0x2d :: decimal n.natAbs else decimal n.natAbs

/-- The value `strtol` reads in base 10, before it is clamped. -/
def strtolValue (s : Str) : ℤ :=
  match s.dropWhile isspace with
  | 0x2d :: ds => -(digitsValue (ds.takeWhile isdigit) : ℤ)
  | 0x2b :: ds => digitsValue (ds.takeWhile isdigit)
  | ds => digitsValue (ds.takeWhile isdigit)

/-- What an `int` holds that is given the result of `strtol`. -/
def strtolInt (longBits : ℕ) (s : Str) : ℤ :=
  Int.bmod (max (-2 ^ (longBits - 1)) (min (2 ^ (longBits - 1) - 1) (strtolValue s))) (2 ^ 32)

/-- The test for `abort` behind `strtol`; the variable is an `int`. -/
def numberAborts (longBits : ℕ) (s : Str) : Bool :=
  let v := strtolValue s
  let low : ℤ := -2 ^ (longBits - 1)
  let high : ℤ := 2 ^ (longBits - 1) - 1
  let stored := strtolInt longBits s
  (v < low || high < v) && (stored = low || stored = high || stored = 0)

theorem isDigit_byte {c : Char} (h : c.isDigit = true) :
    c.toNat.toUInt8.toNat = c.toNat ∧ isdigit c.toNat.toUInt8 = true := by
  have hrange : 48 ≤ c.toNat ∧ c.toNat ≤ 57 := by
    simp only [Char.isDigit, Bool.and_eq_true, decide_eq_true_eq, UInt32.le_iff_toNat_le] at h
    exact h
  have hnat : c.toNat.toUInt8.toNat = c.toNat := by
    rw [Nat.toUInt8_eq, UInt8.toNat_ofNat']
    omega
  refine ⟨hnat, ?_⟩
  rw [isdigit, decide_eq_true_iff, UInt8.le_iff_toNat_le, UInt8.le_iff_toNat_le, hnat]
  exact hrange

theorem isdigit_decimal (n : ℕ) : ∀ b ∈ decimal n, isdigit b = true := by
  intro b hb
  obtain ⟨c, hc, rfl⟩ := List.mem_map.mp hb
  exact (isDigit_byte (Nat.isDigit_of_mem_toDigits (by omega) (by omega) hc)).2

theorem decimal_ne_nil (n : ℕ) : decimal n ≠ [] := by
  unfold decimal
  simp

theorem digitsValue_decimal (n : ℕ) : digitsValue (decimal n) = n := by
  have hfold : ∀ (l : List Char) (m : ℕ), (∀ c ∈ l, c.isDigit = true) →
      (l.map (fun c => c.toNat.toUInt8)).foldl (fun n d => 10 * n + (d.toNat - 0x30)) m =
        Nat.ofDigitChars 10 l m := by
    intro l
    induction l with
    | nil => intro m _; simp
    | cons c l ih =>
      intro m hl
      rw [List.map_cons, List.foldl_cons, ih _ (fun d hd => hl d (by simp [hd])),
        Nat.ofDigitChars_cons, (isDigit_byte (hl c (by simp))).1]
      rfl
  unfold digitsValue decimal
  rw [hfold _ _ (fun c hc => Nat.isDigit_of_mem_toDigits (by omega) (by omega) hc)]
  exact Nat.ofDigitChars_ten_toDigits

theorem digitsValue_cons (d : UInt8) (ds : Str) :
    digitsValue (d :: ds) = (d.toNat - 0x30) * 10 ^ ds.length + digitsValue ds := by
  have hfold : ∀ (l : Str) (m : ℕ), l.foldl (fun n d => 10 * n + (d.toNat - 0x30)) m =
      m * 10 ^ l.length + digitsValue l := by
    intro l
    induction l with
    | nil => simp [digitsValue]
    | cons c l ih =>
      intro m
      have hzero := ih (10 * 0 + (c.toNat - 0x30))
      rw [digitsValue, List.foldl_cons, List.foldl_cons, hzero, ih, List.length_cons,
        Nat.pow_succ, Nat.mul_zero, Nat.zero_add, Nat.add_mul, ← Nat.add_assoc]
      congr 2
      rw [Nat.mul_comm 10 m, Nat.mul_assoc, Nat.mul_comm 10]
  rw [digitsValue, List.foldl_cons, hfold, Nat.mul_zero, Nat.zero_add]

theorem digitsValue_lt {ds : Str} (hd : ∀ b ∈ ds, isdigit b = true) :
    digitsValue ds < 10 ^ ds.length := by
  induction ds with
  | nil => exact Nat.one_pos
  | cons d ds ih =>
    have hdigit : d.toNat - 0x30 ≤ 9 := by
      have hrange := hd d List.mem_cons_self
      rw [isdigit, decide_eq_true_iff, UInt8.le_iff_toNat_le, UInt8.le_iff_toNat_le] at hrange
      have h57 : (0x39 : UInt8).toNat = 57 := rfl
      omega
    have hrest := ih (fun b hb => hd b (List.mem_cons_of_mem d hb))
    have hmul := Nat.mul_le_mul_right (10 ^ ds.length) hdigit
    rw [digitsValue_cons, List.length_cons, Nat.pow_succ]
    omega

theorem isdigit_not_isspace {b : UInt8} (h : isdigit b = true) : isspace b = false := by
  rw [isdigit, decide_eq_true_iff, UInt8.le_iff_toNat_le, UInt8.le_iff_toNat_le] at h
  rw [isspace, decide_eq_false_iff_not]
  rintro (rfl | hb)
  · exact absurd h.1 (by decide)
  · rw [UInt8.le_iff_toNat_le, UInt8.le_iff_toNat_le] at hb
    have h13 : (0x0d : UInt8).toNat = 13 := rfl
    have h48 : (0x30 : UInt8).toNat = 48 := rfl
    omega

theorem strtolValue_minus {ds : Str} (hd : ∀ b ∈ ds, isdigit b = true) :
    strtolValue (0x2d :: ds) = -(digitsValue ds : ℤ) := by
  have hhead : (0x2d :: ds).dropWhile isspace = 0x2d :: ds := rfl
  unfold strtolValue
  rw [hhead]
  exact congrArg (fun l => -(digitsValue l : ℤ)) (List.takeWhile_eq_self_iff.mpr hd)

theorem strtolValue_digits_append {ds rest : Str} (hne : ds ≠ [])
    (hd : ∀ b ∈ ds, isdigit b = true) (hrest : ∀ b, rest.head? = some b → isdigit b = false) :
    strtolValue (ds ++ rest) = digitsValue ds := by
  have htake : (ds ++ rest).takeWhile isdigit = ds := takeWhile_append_stop hd hrest
  cases ds with
  | nil => exact absurd rfl hne
  | cons b s =>
    have hb : isdigit b = true := hd b (by simp)
    have hhead : (b :: s ++ rest).dropWhile isspace = b :: s ++ rest :=
      List.dropWhile_cons_of_neg (by simp [isdigit_not_isspace hb])
    unfold strtolValue
    rw [hhead]
    split
    · rename_i heq
      cases heq
      exact absurd hb (by decide)
    · rename_i heq
      cases heq
      exact absurd hb (by decide)
    · rw [htake]

theorem strtolValue_digits {ds : Str} (hne : ds ≠ []) (hd : ∀ b ∈ ds, isdigit b = true) :
    strtolValue ds = digitsValue ds := by
  have h : strtolValue (ds ++ []) = digitsValue ds := strtolValue_digits_append hne hd nofun
  rwa [List.append_nil] at h

theorem strtolValue_signedDecimal (n : ℤ) : strtolValue (signedDecimal n) = n := by
  unfold signedDecimal
  split
  · rw [strtolValue_minus (isdigit_decimal _), digitsValue_decimal]
    omega
  · rw [strtolValue_digits (decimal_ne_nil _) (isdigit_decimal _), digitsValue_decimal]
    omega

theorem mem_signedDecimal {n : ℤ} {b : UInt8} (h : b ∈ signedDecimal n) :
    b = 0x2d ∨ isdigit b = true := by
  unfold signedDecimal at h
  split_ifs at h
  · rcases List.mem_cons.mp h with h | h
    · exact Or.inl h
    · exact Or.inr (isdigit_decimal _ b h)
  · exact Or.inr (isdigit_decimal _ b h)

theorem signedDecimal_ne_nil (n : ℤ) : signedDecimal n ≠ [] := by
  unfold signedDecimal
  split_ifs
  · exact List.cons_ne_nil _ _
  · exact decimal_ne_nil _

theorem signedDecimal_length_le {n : ℤ} (h : -2 ^ 31 ≤ n ∧ n < 2 ^ 31) :
    (signedDecimal n).length ≤ 11 := by
  have hten : (decimal n.natAbs).length ≤ 10 := by
    unfold decimal
    rw [List.length_map, Nat.length_toDigits_le_iff (by omega) (by omega)]
    omega
  unfold signedDecimal
  split_ifs
  · rw [List.length_cons]
    omega
  · omega

theorem strtolInt_eq {longBits : ℕ} {s : Str} {n : ℤ} (hlong : 32 ≤ longBits)
    (hvalue : strtolValue s = n) (h : -2 ^ 31 ≤ n ∧ n < 2 ^ 31) : strtolInt longBits s = n := by
  have hpow : (2 : ℤ) ^ 31 ≤ 2 ^ (longBits - 1) := by
    exact_mod_cast Nat.pow_le_pow_right (by omega : 0 < 2) (by omega : 31 ≤ longBits - 1)
  unfold strtolInt
  rw [hvalue]
  generalize (2 : ℤ) ^ (longBits - 1) = high at hpow
  have hclamp : max (-high) (min (high - 1) n) = n := by omega
  rw [hclamp]
  exact Int.bmod_eq_of_le (by omega) (by omega)

theorem strtolInt_signedDecimal {longBits : ℕ} {n : ℤ} (hlong : 32 ≤ longBits)
    (h : -2 ^ 31 ≤ n ∧ n < 2 ^ 31) :
    strtolInt longBits (signedDecimal n) = n ∧
      numberAborts longBits (signedDecimal n) = false := by
  refine ⟨strtolInt_eq hlong (strtolValue_signedDecimal n) h, ?_⟩
  have hpow : (2 : ℤ) ^ 31 ≤ 2 ^ (longBits - 1) := by
    exact_mod_cast Nat.pow_le_pow_right (by omega : 0 < 2) (by omega : 31 ≤ longBits - 1)
  unfold numberAborts
  rw [strtolValue_signedDecimal]
  dsimp only
  rw [Bool.and_eq_false_iff]
  left
  rw [Bool.or_eq_false_iff, decide_eq_false_iff_not, decide_eq_false_iff_not]
  omega

end Comodoo.DecimalText
