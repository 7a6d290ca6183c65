import Comodoo.CpioFormat
import Mathlib.Data.Nat.Digits.Lemmas

set_option autoImplicit false

/-!
# The number fields of a cpio header

What `GET_NUM_FIELD` makes of eight bytes, for each type of field it is stored in, and
`SET_NUM_FIELD`, which nothing in the program uses.
-/
namespace Comodoo.CpioNumbers
open CString CpioSystem CpioRead CpioFormat

/-- The types of the variables that `GET_NUM_FIELD` sets. -/
inductive FieldType where
  /-- `mode_t`, `uid_t`, `gid_t` -/
  | unsigned32
  /-- `unsigned long`, `ino_t` -/
  | unsigned64
  /-- `int`, `time_t` -/
  | signed
  deriving DecidableEq, Repr

/-- The `int` that `strntoul` returns, in the type of the variable. -/
def FieldType.store : FieldType → ℤ → ℤ
  | .unsigned32, n => CpioRead.unsigned32 n
  | .unsigned64, n => CpioRead.unsigned64 n
  | .signed, n => n

def getNumField (type : FieldType) (phys : Str) : Option ℤ := (strntoul phys).map type.store

/-- `sprintf` with `%8.8lx`, of which eight bytes are copied. -/
def setNumField (val : ℕ) : Str :=
  let digits := (Nat.digits 16 val).reverse.map hexDigit
  (List.replicate (8 - digits.length) 0x30 ++ digits).take 8

/-- The number as the format has it: eight hexadecimal digits and nothing else. -/
def fieldNumber (phys : Str) : Option ℤ :=
  if phys.all isxdigit then some (hexDigits phys : ℤ) else none

/-- What `strtoul` takes to be a number: the empty text, or digits behind blanks, a sign and a
`0x`. -/
def Numeral (s : Str) : Prop :=
  s = [] ∨ ∃ blanks sign mark digits : Str,
    s = blanks ++ sign ++ mark ++ digits ∧ (∀ b ∈ blanks, isspace b = true) ∧
      (sign = [] ∨ sign = [0x2d] ∨ sign = [0x2b]) ∧
      (mark = [] ∨ mark = [0x30, 0x78] ∨ mark = [0x30, 0x58]) ∧
      digits ≠ [] ∧ ∀ b ∈ digits, isxdigit b = true

/-- The whole field, or its part before a NUL, is such a number without being eight digits. -/
def Lenient (phys : Str) : Prop :=
  ¬ (∀ b ∈ phys, isxdigit b = true) ∧ Numeral (phys.takeWhile (· ≠ 0))

theorem parseFields_getNumField {phys : Str} {ch : CpioHeader} {nameSize : ℤ}
    (h : parseFields phys = some (ch, nameSize)) :
    getNumField .unsigned64 (field phys 0) = some (ch.inode : ℤ) ∧
      getNumField .unsigned32 (field phys 1) = some (ch.mode : ℤ) ∧
      getNumField .unsigned32 (field phys 2) = some (ch.uid : ℤ) ∧
      getNumField .unsigned32 (field phys 3) = some (ch.gid : ℤ) ∧
      getNumField .signed (field phys 4) = some ch.nlink ∧
      getNumField .signed (field phys 5) = some ch.mtime ∧
      getNumField .unsigned64 (field phys 6) = some (ch.size : ℤ) ∧
      getNumField .signed (field phys 11) = some nameSize := by
  obtain ⟨inode, h0, h⟩ := Option.bind_eq_some_iff.mp h
  obtain ⟨mode, h1, h⟩ := Option.bind_eq_some_iff.mp h
  obtain ⟨uid, h2, h⟩ := Option.bind_eq_some_iff.mp h
  obtain ⟨gid, h3, h⟩ := Option.bind_eq_some_iff.mp h
  obtain ⟨nlink, h4, h⟩ := Option.bind_eq_some_iff.mp h
  obtain ⟨mtime, h5, h⟩ := Option.bind_eq_some_iff.mp h
  obtain ⟨size, h6, h⟩ := Option.bind_eq_some_iff.mp h
  obtain ⟨devMajor, -, h⟩ := Option.bind_eq_some_iff.mp h
  obtain ⟨devMinor, -, h⟩ := Option.bind_eq_some_iff.mp h
  obtain ⟨rdevMajor, -, h⟩ := Option.bind_eq_some_iff.mp h
  obtain ⟨rdevMinor, -, h⟩ := Option.bind_eq_some_iff.mp h
  obtain ⟨length, h11, h⟩ := Option.bind_eq_some_iff.mp h
  obtain ⟨rfl, rfl⟩ := Prod.mk.inj (Option.some.inj h)
  simp [getNumField, h0, h1, h2, h3, h4, h5, h6, h11, FieldType.store]

section Strtoul
variable {s t : Str} {value : ℤ}

/-- The part of `strtoul` behind blanks and sign. -/
def afterSign (s t : Str) (sign : ℤ) : ℤ × Str :=
  if (skipHexMark t).takeWhile isxdigit = [] then (0, s)
  else (sign * hexDigits ((skipHexMark t).takeWhile isxdigit), (skipHexMark t).dropWhile isxdigit)

theorem skipHexMark_cases (t : Str) :
    skipHexMark t = t ∨ ∃ mark, (mark = [0x30, 0x78] ∨ mark = [0x30, 0x58]) ∧
      t = mark ++ skipHexMark t := by
  unfold skipHexMark
  split
  · rename_i x d rest
    split
    · rename_i hx
      rcases hx.1 with rfl | rfl
      · exact Or.inr ⟨[0x30, 0x78], Or.inl rfl, rfl⟩
      · exact Or.inr ⟨[0x30, 0x58], Or.inr rfl, rfl⟩
    · exact Or.inl rfl
  · exact Or.inl rfl

theorem afterSign_marked {mark digits : Str} (s : Str) (sign : ℤ)
    (hmark : mark = [] ∨ mark = [0x30, 0x78] ∨ mark = [0x30, 0x58]) (hne : digits ≠ [])
    (hdigits : ∀ b ∈ digits, isxdigit b = true) :
    afterSign s (mark ++ digits) sign = (sign * hexDigits digits, []) := by
  have hskip : skipHexMark (mark ++ digits) = digits := by
    obtain ⟨d, ds, rfl⟩ := List.exists_cons_of_ne_nil hne
    have hd := hdigits d (by simp)
    rcases hmark with rfl | rfl | rfl
    · exact skipHexMark_digits hdigits
    · simp [skipHexMark, hd]
    · simp [skipHexMark, hd]
  rw [afterSign, hskip, List.takeWhile_eq_self_iff.mpr hdigits, List.dropWhile_eq_nil_iff.mpr hdigits,
    if_neg hne]

theorem marked_of_afterSign {sign : ℤ} (hs : s ≠ []) (h : afterSign s t sign = (value, [])) :
    ∃ mark digits : Str, t = mark ++ digits ∧
      (mark = [] ∨ mark = [0x30, 0x78] ∨ mark = [0x30, 0x58]) ∧
      digits ≠ [] ∧ ∀ b ∈ digits, isxdigit b = true := by
  rw [afterSign] at h
  split at h
  · exact absurd (Prod.mk.inj h).2 hs
  · rename_i hne
    have hall : ∀ b ∈ skipHexMark t, isxdigit b = true :=
      List.dropWhile_eq_nil_iff.mp (Prod.mk.inj h).2
    rw [List.takeWhile_eq_self_iff.mpr hall] at hne
    rcases skipHexMark_cases t with heq | ⟨mark, hmark, heq⟩
    · refine ⟨[], t, rfl, Or.inl rfl, ?_, ?_⟩
      · rwa [heq] at hne
      · rwa [heq] at hall
    · exact ⟨mark, skipHexMark t, heq, Or.inr hmark, hne, hall⟩

theorem strtoul_minus (h : s.dropWhile isspace = 0x2d :: t) : strtoul s = afterSign s t (-1) := by
  rw [strtoul, h]
  rfl

theorem strtoul_plus (h : s.dropWhile isspace = 0x2b :: t) : strtoul s = afterSign s t 1 := by
  rw [strtoul, h]
  rfl

theorem strtoul_unsigned (h : s.dropWhile isspace = t) (hm : t.head? ≠ some 0x2d)
    (hp : t.head? ≠ some 0x2b) : strtoul s = afterSign s t 1 := by
  unfold strtoul
  rw [h]
  split
  · simp at hm
  · simp at hp
  · rfl

theorem dropWhile_blanks {blanks : Str} (hblanks : ∀ b ∈ blanks, isspace b = true) {c : UInt8}
    (hc : isspace c = false) (t : Str) : (blanks ++ c :: t).dropWhile isspace = c :: t := by
  rw [List.dropWhile_append_of_pos hblanks, List.dropWhile_cons, if_neg (by simp [hc])]

theorem numeral_of_end {value : ℤ} (h : strtoul s = (value, [])) : Numeral s := by
  by_cases hs : s = []
  · exact Or.inl hs
  · have hsplit : s.takeWhile isspace ++ s.dropWhile isspace = s :=
      List.takeWhile_append_dropWhile
    have hblanks : ∀ b ∈ s.takeWhile isspace, isspace b = true :=
      fun b hb => List.mem_takeWhile_imp hb
    by_cases hminus : (s.dropWhile isspace).head? = some 0x2d
    · obtain ⟨t, ht⟩ : ∃ t, s.dropWhile isspace = 0x2d :: t := List.head?_eq_some_iff.mp hminus
      rw [strtoul_minus ht] at h
      obtain ⟨mark, digits, heq, hmark, hne, hdigits⟩ := marked_of_afterSign hs h
      refine Or.inr ⟨s.takeWhile isspace, [0x2d], mark, digits, ?_, hblanks, by simp, hmark, hne,
        hdigits⟩
      calc s = s.takeWhile isspace ++ s.dropWhile isspace := hsplit.symm
        _ = s.takeWhile isspace ++ 0x2d :: (mark ++ digits) := by rw [ht, heq]
        _ = s.takeWhile isspace ++ [0x2d] ++ mark ++ digits := by simp
    · by_cases hplus : (s.dropWhile isspace).head? = some 0x2b
      · obtain ⟨t, ht⟩ : ∃ t, s.dropWhile isspace = 0x2b :: t := List.head?_eq_some_iff.mp hplus
        rw [strtoul_plus ht] at h
        obtain ⟨mark, digits, heq, hmark, hne, hdigits⟩ := marked_of_afterSign hs h
        refine Or.inr ⟨s.takeWhile isspace, [0x2b], mark, digits, ?_, hblanks, by simp, hmark,
          hne, hdigits⟩
        calc s = s.takeWhile isspace ++ s.dropWhile isspace := hsplit.symm
          _ = s.takeWhile isspace ++ 0x2b :: (mark ++ digits) := by rw [ht, heq]
          _ = s.takeWhile isspace ++ [0x2b] ++ mark ++ digits := by simp
      · rw [strtoul_unsigned rfl hminus hplus] at h
        obtain ⟨mark, digits, heq, hmark, hne, hdigits⟩ := marked_of_afterSign hs h
        refine Or.inr ⟨s.takeWhile isspace, [], mark, digits, ?_, hblanks, Or.inl rfl, hmark,
          hne, hdigits⟩
        rw [List.append_nil, List.append_assoc, ← heq, hsplit]

theorem end_of_numeral (h : Numeral s) : ∃ value, strtoul s = (value, []) := by
  rcases h with rfl | ⟨blanks, sign, mark, digits, rfl, hblanks, hsign, hmark, hne, hdigits⟩
  · exact ⟨0, by decide⟩
  · rcases hsign with rfl | rfl | rfl
    · -- without a sign the text goes on with a digit
      obtain ⟨c, t, hct, hc⟩ : ∃ c t, mark ++ digits = c :: t ∧ isxdigit c = true := by
        obtain ⟨d, ds, rfl⟩ := List.exists_cons_of_ne_nil hne
        rcases hmark with rfl | rfl | rfl
        · exact ⟨d, ds, rfl, hdigits d (by simp)⟩
        · exact ⟨0x30, _, rfl, by decide⟩
        · exact ⟨0x30, _, rfl, by decide⟩
      have hfacts := isxdigit_facts hc
      refine ⟨1 * hexDigits digits, ?_⟩
      rw [List.append_nil, List.append_assoc]
      rw [← afterSign_marked (blanks ++ (mark ++ digits)) 1 hmark hne hdigits, hct]
      exact strtoul_unsigned (dropWhile_blanks hblanks hfacts.2.1 t)
        (by simpa using hfacts.2.2.1) (by simpa using hfacts.2.2.2.1)
    · refine ⟨-1 * hexDigits digits, ?_⟩
      rw [← afterSign_marked (blanks ++ [0x2d] ++ mark ++ digits) (-1) hmark hne hdigits]
      apply strtoul_minus
      rw [List.append_assoc, List.append_assoc, List.singleton_append]
      exact dropWhile_blanks hblanks (by decide) _
    · refine ⟨1 * hexDigits digits, ?_⟩
      rw [← afterSign_marked (blanks ++ [0x2b] ++ mark ++ digits) 1 hmark hne hdigits]
      apply strtoul_plus
      rw [List.append_assoc, List.append_assoc, List.singleton_append]
      exact dropWhile_blanks hblanks (by decide) _

theorem strtoul_end_iff (s : Str) : (∃ value, strtoul s = (value, [])) ↔ Numeral s := by
  constructor
  · rintro ⟨value, h⟩
    exact numeral_of_end h
  · exact end_of_numeral

theorem strntoul_isSome_iff (phys : Str) :
    (strntoul phys).isSome = true ↔ Numeral (phys.takeWhile (· ≠ 0)) := by
  rw [← strtoul_end_iff, strntoul]
  split
  · rename_i value heq
    exact ⟨fun _ => ⟨value, heq⟩, fun _ => rfl⟩
  · rename_i heq
    simp only [Option.isSome_none, Bool.false_eq_true, false_iff]
    rintro ⟨value, h⟩
    exact heq value h

end Strtoul

section Numbers
variable {phys : Str} {type : FieldType}

theorem hexValue_lt {b : UInt8} {n : ℕ} (h : hexValue b = some n) : n < 16 := by
  have hb := b.toNat_lt
  simp only [hexValue, UInt8.le_iff_toNat_le] at h
  split at h
  · rename_i hr
    have h39 : (0x39 : UInt8).toNat = 57 := rfl
    rw [← Option.some.inj h]
    omega
  · split at h
    · rename_i hr
      have h46 : (0x46 : UInt8).toNat = 70 := rfl
      rw [← Option.some.inj h]
      omega
    · split at h
      · rename_i hr
        have h66 : (0x66 : UInt8).toNat = 102 := rfl
        rw [← Option.some.inj h]
        omega
      · simp at h

theorem hexDigits_append (ds : Str) (d : UInt8) :
    hexDigits (ds ++ [d]) = 16 * hexDigits ds + (hexValue d).getD 0 := by
  simp [hexDigits]

theorem hexDigits_lt (ds : Str) : hexDigits ds < 16 ^ ds.length := by
  induction ds using List.reverseRecOn with
  | nil => exact Nat.one_pos
  | append_singleton ds d ih =>
    have hd : (hexValue d).getD 0 < 16 := by
      cases hv : hexValue d with
      | none => decide
      | some n => exact hexValue_lt hv
    rw [hexDigits_append, List.length_append, List.length_singleton, Nat.pow_succ]
    omega

theorem store_bmod_iff (type : FieldType) {n : ℕ} (hn : n < 2 ^ 32) :
    type.store (Int.bmod n (2 ^ 32)) = n ↔ type = .unsigned32 ∨ n < 2 ^ 31 := by
  have hmod : Int.bmod (n : ℤ) (2 ^ 32) = if n < 2 ^ 31 then (n : ℤ) else n - 2 ^ 32 := by
    rw [Int.bmod_def]
    split <;> split <;> omega
  cases type with
  | unsigned32 =>
    rw [hmod, FieldType.store, unsigned32]
    simp only [true_or, iff_true]
    split <;> omega
  | unsigned64 =>
    rw [hmod, FieldType.store, unsigned64]
    simp only [reduceCtorEq, false_or]
    split <;> omega
  | signed =>
    rw [hmod, FieldType.store]
    simp only [reduceCtorEq, false_or]
    split <;> omega

theorem fieldNumber_hex (h : ∀ b ∈ phys, isxdigit b = true) :
    fieldNumber phys = some (hexDigits phys : ℤ) := by
  rw [fieldNumber, if_pos (List.all_eq_true.mpr h)]

theorem fieldNumber_other (h : ¬ ∀ b ∈ phys, isxdigit b = true) : fieldNumber phys = none := by
  rw [fieldNumber, if_neg]
  rwa [List.all_eq_true]

theorem getNumField_iff (type : FieldType) (hlen : phys.length = 8) :
    getNumField type phys = fieldNumber phys ↔
      ¬ Lenient phys ∧ (type = .unsigned32 ∨ ∀ n, fieldNumber phys = some n → n < 2 ^ 31) := by
  by_cases hhex : ∀ b ∈ phys, isxdigit b = true
  · have hlt := hexDigits_lt phys
    rw [hlen] at hlt
    have hne : phys ≠ [] := by
      rintro rfl
      simp at hlen
    have hlenient : ¬ Lenient phys := fun h => h.1 hhex
    rw [getNumField, strntoul_digits hne hhex, fieldNumber_hex hhex, Option.map_some,
      Option.some.injEq, store_bmod_iff type hlt]
    simp only [hlenient, not_false_eq_true, true_and, Option.some.injEq, forall_eq']
    refine or_congr_right ?_
    omega
  · have hsome := strntoul_isSome_iff phys
    rw [fieldNumber_other hhex, getNumField, Option.map_eq_none_iff, Lenient]
    simp only [hhex, not_false_eq_true, true_and, reduceCtorEq, false_implies, implies_true,
      or_true, and_true, ← hsome, Option.not_isSome_iff_eq_none]

end Numbers

section Written

theorem hexDigits_zeros (k : ℕ) (ds : Str) :
    hexDigits (List.replicate k 0x30 ++ ds) = hexDigits ds := by
  induction k with
  | zero => rfl
  | succ k ih => exact ih

theorem hexDigits_reverse {ds : List ℕ} (h : ∀ d ∈ ds, d < 16) :
    hexDigits (ds.reverse.map hexDigit) = Nat.ofDigits 16 ds := by
  induction ds with
  | nil => rfl
  | cons d ds ih =>
    rw [List.forall_mem_cons] at h
    rw [List.reverse_cons, List.map_append, List.map_singleton, hexDigits_append, ih h.2,
      hexValue_hexDigit h.1, Nat.ofDigits_cons]
    exact Nat.add_comm _ _

theorem setNumField_eq {val : ℕ} (h : val < 2 ^ 32) :
    setNumField val = List.replicate (8 - (Nat.digits 16 val).length) 0x30 ++
      (Nat.digits 16 val).reverse.map hexDigit ∧ (setNumField val).length = 8 := by
  have hlen : (Nat.digits 16 val).length ≤ 8 := (Nat.digits_length_le_iff (by decide) val).mpr h
  have htext : (List.replicate (8 - (Nat.digits 16 val).length) (0x30 : UInt8) ++
      (Nat.digits 16 val).reverse.map hexDigit).length = 8 := by
    rw [List.length_append, List.length_replicate, List.length_map, List.length_reverse]
    omega
  have heq : setNumField val = List.replicate (8 - (Nat.digits 16 val).length) 0x30 ++
      (Nat.digits 16 val).reverse.map hexDigit := by
    rw [setNumField, List.length_map, List.length_reverse]
    exact List.take_of_length_le (Nat.le_of_eq htext)
  exact ⟨heq, heq ▸ htext⟩

theorem fieldNumber_setNumField {val : ℕ} (h : val < 2 ^ 32) :
    fieldNumber (setNumField val) = some (val : ℤ) := by
  have hdigit : ∀ d ∈ Nat.digits 16 val, d < 16 := fun d hd => Nat.digits_lt_base (by decide) hd
  have hhex : ∀ b ∈ setNumField val, isxdigit b = true := by
    intro b hb
    rw [(setNumField_eq h).1, List.mem_append, List.mem_replicate, List.mem_map] at hb
    rcases hb with ⟨_, rfl⟩ | ⟨d, hd, rfl⟩
    · decide
    · rw [isxdigit, hexValue_hexDigit (hdigit d (List.mem_reverse.mp hd))]
      rfl
  rw [fieldNumber_hex hhex, (setNumField_eq h).1, hexDigits_zeros, hexDigits_reverse hdigit,
    Nat.ofDigits_digits]

end Written

/-- A field is read as the format has it, unless it is a numeral of another form, or a number of
2^31 and more for a variable that is not an unsigned one of 32 bits; so the text of a 32-bit value
does not always give it back. -/
theorem getNumField_exact_iff (type : FieldType) (phys : Str) (val : ℕ) (hlen : phys.length = 8)
    (hval : val < 2 ^ 32) :
    (getNumField type phys = fieldNumber phys ↔
      ¬ Lenient phys ∧ (type = .unsigned32 ∨ ∀ n, fieldNumber phys = some n → n < 2 ^ 31)) ∧
      (getNumField type (setNumField val) = some (val : ℤ) ↔
        type = .unsigned32 ∨ val < 2 ^ 31) := by
  refine ⟨getNumField_iff type hlen, ?_⟩
  have hnumber := fieldNumber_setNumField hval
  have hlenient : ¬ Lenient (setNumField val) := by
    intro h
    rw [fieldNumber_other h.1] at hnumber
    simp at hnumber
  have hiff := getNumField_iff type (setNumField_eq hval).2
  rw [hnumber] at hiff
  rw [hiff]
  simp only [hlenient, not_false_eq_true, true_and, Option.some.injEq, forall_eq']
  refine or_congr_right ?_
  omega

theorem getNumField_exact_page :
    getNumField .unsigned64 (ascii "00001000") = some 0x1000 ∧
      getNumField .unsigned64 (setNumField 0x1000) = some 0x1000 := by
  have hexact := getNumField_exact_iff .unsigned64 (ascii "00001000") 0x1000 (by decide +kernel)
    (by decide)
  have hnumber : fieldNumber (ascii "00001000") = some 0x1000 := by decide +kernel
  refine ⟨?_, hexact.2.mpr (Or.inr (by decide))⟩
  rw [hexact.1.mpr ⟨fun h => h.1 (by decide +kernel), Or.inr ?_⟩, hnumber]
  intro n hn
  rw [hnumber] at hn
  rw [← Option.some.inj hn]
  decide

/-- A size of 2 GiB becomes almost 2^64, and a size padded with blanks is accepted. -/
theorem twoGigabytes_misread :
    getNumField .unsigned64 (setNumField (2 ^ 31)) = some (2 ^ 64 - 2 ^ 31) ∧
      getNumField .unsigned64 (ascii "    1000") = some 0x1000 ∧
      fieldNumber (ascii "    1000") = none := by
  decide +kernel

end Comodoo.CpioNumbers
