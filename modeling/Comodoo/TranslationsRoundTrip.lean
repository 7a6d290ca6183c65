import Mathlib.Data.List.Pairwise
import Comodoo.SimpleMotRun
import Comodoo.TranslationKeys

set_option autoImplicit false

/-!
# From the `.po` file to the screen

What `translateString` returns once `loadLanguage` has read the output of `simplemot`.
-/
namespace Comodoo.TranslationsRoundTrip
open CString LineBuffer SimpleMot PoFile SimpleMotRun Translations

/-! ## Reading the records -/

section Records

theorem length_packN (n : ℕ) : (packN n).length = 4 := rfl

theorem ntohl_packN (n : ℕ) : ntohl (packN n) = packedN n := by
  rw [← UInt32.toNat_inj]
  have hlt := (packedN n).toNat_lt
  unfold ntohl packN
  simp only [List.getD_cons_zero, List.getD_cons_succ, UInt8.toNat_ofNat', UInt32.toNat_ofNat']
  omega

theorem ntohs_packn {n : ℕ} (h : n < 2 ^ 16) : ntohs (packn n) = n := by
  unfold ntohs packn
  simp only [List.getD_cons_zero, List.getD_cons_succ, UInt8.toNat_ofNat']
  omega

theorem readStrings_record (total : ℕ) {tran : Str} (h : tran.length < 2 ^ 16) (fuel : ℕ)
    (data : Str) : readStrings (fuel + 1) (record total tran ++ data) =
      if 2 ^ 15 ≤ tran.length then none
      else (readStrings fuel data).map (⟨packedN total, tran.length, tran⟩ :: ·) := by
  have hdata : record total tran ++ data =
      packN total ++ (packn tran.length ++ (tran ++ data)) := by
    unfold record
    rw [List.append_assoc, List.append_assoc]
  have hhash : (record total tran ++ data).take 4 = packN total := by
    rw [hdata]
    exact List.take_left' (length_packN total)
  have hlength : ((record total tran ++ data).drop 4).take 2 = packn tran.length := by
    rw [hdata, List.drop_left' (length_packN total)]
    exact List.take_left' rfl
  have hrest : (record total tran ++ data).drop 6 = tran ++ data := by
    rw [hdata, show (6 : ℕ) = 4 + 2 from rfl, ← List.drop_drop,
      List.drop_left' (length_packN total)]
    rfl
  have hlong : 6 ≤ (record total tran ++ data).length := by
    rw [hdata, List.length_append, List.length_append, length_packN]
    exact Nat.add_le_add_left (Nat.le_add_right 2 _) 4
  have hnext : ∀ k, (record total tran ++ data).drop (6 + k) = (tran ++ data).drop k := by
    intro k
    rw [← List.drop_drop, hrest]
  rw [readStrings, hhash, hlength, hrest, if_pos (length_packN total), ntohl_packN,
    ntohs_packn h]
  dsimp only
  by_cases hneg : 2 ^ 15 ≤ tran.length
  · have hbmod : Int.bmod tran.length (2 ^ 16) < 0 := by
      rw [Int.bmod_def]
      split_ifs <;> omega
    rw [if_pos hneg, if_pos (Or.inr (Or.inl hbmod))]
  · have hbmod : Int.bmod tran.length (2 ^ 16) = tran.length :=
      Int.bmod_eq_of_le (by omega) (by omega)
    rw [if_neg hneg, hbmod, Int.toNat_natCast, List.take_left, hnext, List.drop_left, if_neg]
    omega

def stringOf (e : Entry) : AString := ⟨packedN (total (idOf e)), (tranOf e).length, tranOf e⟩

theorem readStrings_records {ws : List Entry} (h : ∀ w ∈ ws, (tranOf w).length < 2 ^ 16)
    {fuel : ℕ} (hfuel : (ws.flatMap recordOf).length ≤ fuel) :
    readStrings fuel (ws.flatMap recordOf) =
      if ∀ w ∈ ws, (tranOf w).length < 2 ^ 15 then some (ws.map stringOf) else none := by
  induction ws generalizing fuel with
  | nil =>
    cases fuel <;> simp [readStrings]
  | cons w ws ih =>
    have hlength : (recordOf w).length = 6 + (tranOf w).length := by
      unfold recordOf record
      rw [List.length_append, List.length_append, length_packN]
      rfl
    rw [List.flatMap_cons, List.length_append, hlength] at hfuel
    obtain ⟨fuel, rfl⟩ : ∃ k, fuel = k + 1 := ⟨fuel - 1, by omega⟩
    rw [List.flatMap_cons]
    have hrec := readStrings_record (total (idOf w)) (h w List.mem_cons_self) fuel
      (ws.flatMap recordOf)
    rw [ih (fun v hv => h v (List.mem_cons_of_mem w hv)) (by omega)] at hrec
    refine hrec.trans ?_
    by_cases hlong : 2 ^ 15 ≤ (tranOf w).length
    · rw [if_pos hlong, if_neg]
      intro hall
      have := hall w List.mem_cons_self
      omega
    · rw [if_neg hlong]
      by_cases hall : ∀ v ∈ ws, (tranOf v).length < 2 ^ 15
      · rw [if_pos hall, if_pos (List.forall_mem_cons.mpr ⟨by omega, hall⟩)]
        rfl
      · rw [if_neg hall, if_neg fun hcons => hall (List.forall_mem_cons.mp hcons).2]
        rfl

end Records

/-! ## Looking up -/

section Lookup

theorem aStringCmp_neg {a b : AString} : aStringCmp a b < 0 ↔ a.hash < b.hash := by
  unfold aStringCmp
  split_ifs with hlt heq
  · exact iff_of_true (by decide) hlt
  · exact iff_of_false (by decide) hlt
  · exact iff_of_false (by decide) hlt

theorem aStringCmp_zero {a b : AString} : aStringCmp a b = 0 ↔ a.hash = b.hash := by
  unfold aStringCmp
  split_ifs with hlt heq
  · exact iff_of_false (by decide) (UInt32.ne_of_lt hlt)
  · exact iff_of_true rfl heq
  · exact iff_of_false (by decide) heq

theorem aStringCmp_pos {a b : AString} : 0 < aStringCmp a b ↔ b.hash < a.hash := by
  have hneg := aStringCmp_neg (a := a) (b := b)
  have hzero := aStringCmp_zero (a := a) (b := b)
  rw [UInt32.lt_iff_toNat_lt] at hneg ⊢
  rw [← UInt32.toNat_inj] at hzero
  omega

def sorted (strings : List AString) : List AString :=
  strings.mergeSort fun a b => aStringCmp a b ≤ 0

theorem ordered_sorted (key : AString) (strings : List AString) :
    BinarySearch.Ordered aStringCmp key (sorted strings) := by
  have hle : ∀ a b : AString, decide (aStringCmp a b ≤ 0) = true ↔ a.hash.toNat ≤ b.hash.toNat := by
    intro a b
    have hpos := aStringCmp_pos (a := a) (b := b)
    rw [UInt32.lt_iff_toNat_lt] at hpos
    rw [decide_eq_true_iff]
    omega
  have hsorted : (sorted strings).Pairwise fun a b => decide (aStringCmp a b ≤ 0) = true := by
    apply List.pairwise_mergeSort
    · exact fun a b c hab hbc => (hle a c).mpr (((hle a b).mp hab).trans ((hle b c).mp hbc))
    · intro a b
      rw [Bool.or_eq_true, hle, hle]
      exact Nat.le_total _ _
  apply hsorted.imp
  intro a b hab
  rw [hle] at hab
  rw [aStringCmp_neg, aStringCmp_neg, aStringCmp_pos, aStringCmp_pos, UInt32.lt_iff_toNat_lt,
    UInt32.lt_iff_toNat_lt, UInt32.lt_iff_toNat_lt, UInt32.lt_iff_toNat_lt]
  omega

variable {charSigned : Bool} {strings : List AString} {str : Str}

theorem translateString_none (h : ∀ s ∈ strings, s.hash ≠ keyHash charSigned str) :
    translateString charSigned strings str = str := by
  have hnone : BinarySearch.bsearch aStringCmp ⟨keyHash charSigned str, 0, []⟩ strings = none :=
    BinarySearch.bsearch_eq_none fun s hs hzero => h s hs (aStringCmp_zero.mp hzero).symm
  unfold translateString
  rw [hnone]

theorem translateString_sorted {s : AString} (hs : s ∈ strings)
    (hhash : s.hash = keyHash charSigned str) (honly : ∀ t ∈ strings, t.hash = s.hash → t = s) :
    translateString charSigned (sorted strings) str = cString s.str := by
  have hfound : BinarySearch.bsearch aStringCmp ⟨keyHash charSigned str, 0, []⟩ (sorted strings) =
      some s := by
    apply BinarySearch.bsearch_eq_some (ordered_sorted _ strings) (List.mem_mergeSort.mpr hs)
    · exact aStringCmp_zero.mpr hhash.symm
    · intro t ht hzero
      exact honly t (List.mem_mergeSort.mp ht) ((aStringCmp_zero.mp hzero).symm.trans hhash.symm)
  unfold translateString
  rw [hfound]

end Lookup

/-! ## The round trip -/

section RoundTrip

/-- The number that the script packs for an entry. -/
def packedOf (e : Entry) : UInt32 := packedN (total (idOf e))

/-- The number that the string of an entry is looked up by. -/
def keyOf (charSigned : Bool) (e : Entry) : UInt32 := keyHash charSigned (value e.msgid.tokens)

variable {charSigned : Bool} {ws : List Entry} {e : Entry}

theorem eq_of_packedOf (h : ws.Pairwise fun a b => packedOf a ≠ packedOf b) {v w : Entry}
    (hv : v ∈ ws) (hw : w ∈ ws) (heq : packedOf v = packedOf w) : v = w := by
  have hsymm : Std.Symm fun a b : Entry => packedOf a ≠ packedOf b := ⟨fun a b hab => hab.symm⟩
  by_contra hne
  exact h.forall hv hw hne heq

theorem translateString_entries (h : ws.Pairwise fun a b => packedOf a ≠ packedOf b) (e : Entry) :
    translateString charSigned (sorted (ws.map stringOf)) (value e.msgid.tokens) =
        value e.msgstr.tokens ↔
      (∃ w ∈ ws, packedOf w = keyOf charSigned e ∧ tranOf w = value e.msgstr.tokens) ∨
      ((∀ w ∈ ws, packedOf w ≠ keyOf charSigned e) ∧
        value e.msgid.tokens = value e.msgstr.tokens) := by
  by_cases hfound : ∃ w ∈ ws, packedOf w = keyOf charSigned e
  · obtain ⟨w, hw, hkey⟩ := hfound
    have htranslate : translateString charSigned (sorted (ws.map stringOf))
        (value e.msgid.tokens) = tranOf w := by
      apply (translateString_sorted (List.mem_map_of_mem hw) hkey ?_).trans
      · exact cString_self (zero_notMem_unescape w.msgstr.tokens)
      intro t ht hhash
      obtain ⟨v, hv, rfl⟩ := List.mem_map.mp ht
      rw [eq_of_packedOf h hv hw hhash]
    rw [htranslate]
    constructor
    · exact fun heq => Or.inl ⟨w, hw, hkey, heq⟩
    · rintro (⟨v, hv, hv', heq⟩ | ⟨hnone, -⟩)
      · rwa [← eq_of_packedOf h hv hw (hv'.trans hkey.symm)]
      · exact absurd hkey (hnone w hw)
  · have hnone : ∀ w ∈ ws, packedOf w ≠ keyOf charSigned e := fun w hw hkey =>
      hfound ⟨w, hw, hkey⟩
    have htranslate : translateString charSigned (sorted (ws.map stringOf))
        (value e.msgid.tokens) = value e.msgid.tokens := by
      apply translateString_none
      intro s hs
      obtain ⟨w, hw, rfl⟩ := List.mem_map.mp (List.mem_mergeSort.mp hs)
      exact hnone w hw
    rw [htranslate]
    constructor
    · exact fun heq => Or.inr ⟨hnone, heq⟩
    · rintro (⟨w, hw, hkey, -⟩ | ⟨-, heq⟩)
      · exact absurd hkey (hnone w hw)
      · exact heq

def Required (e : Entry) : Prop := e.msgid.tokens ≠ [] ∧ e.msgstr.tokens ≠ []

structure Correct (charSigned : Bool) (po : File) (strings : List AString) : Prop where
  entries : ∀ e ∈ po.entries, Required e →
    translateString charSigned strings (value e.msgid.tokens) = value e.msgstr.tokens
  others : ∀ str, (∀ s ∈ strings, s.hash ≠ keyHash charSigned str) →
    translateString charSigned strings str = str

/-- An entry that comes through as it should. -/
def Kept (charSigned : Bool) (entries : List Entry) (e : Entry) : Prop :=
  IsWritten entries e ∧ packedOf e = keyOf charSigned e ∧ Token.backslash ∉ e.msgstr.tokens

/-- One that is not found, where another one's text or the `msgid` itself is what was wanted. -/
def ByChance (charSigned : Bool) (entries : List Entry) (e : Entry) : Prop :=
  ¬ (IsWritten entries e ∧ packedOf e = keyOf charSigned e) ∧
    ((∃ w, w ≠ e ∧ IsWritten entries w ∧ packedOf w = keyOf charSigned e ∧
        tranOf w = value e.msgstr.tokens) ∨
      ((∀ w, IsWritten entries w → packedOf w ≠ keyOf charSigned e) ∧
        value e.msgid.tokens = value e.msgstr.tokens))

/-- The two numbers of a `msgid` in which no backslash is meant. -/
theorem packedOf_eq_keyOf_iff (h : Token.backslash ∉ e.msgid.tokens) :
    packedOf e = keyOf charSigned e ↔
      charSigned = false ∨ 256 ∣ TranslationKeys.highBytes (value e.msgid.tokens) := by
  have hid : idOf e = value e.msgid.tokens := (unescape_raw_iff _).mpr h
  unfold packedOf keyOf
  rw [hid, eq_comm]
  exact TranslationKeys.keyHash_eq_packed_iff (zero_notMem_value _)

theorem kept_or_byChance_iff {entries : List Entry}
    (h : entries.Pairwise fun a b => packedOf a ≠ packedOf b) (he : e ∈ entries) :
    Kept charSigned entries e ∨ ByChance charSigned entries e ↔
      (∃ w ∈ written entries, packedOf w = keyOf charSigned e ∧
        tranOf w = value e.msgstr.tokens) ∨
      ((∀ w ∈ written entries, packedOf w ≠ keyOf charSigned e) ∧
        value e.msgid.tokens = value e.msgstr.tokens) := by
  simp only [mem_written_iff]
  constructor
  · rintro (⟨hwritten, hkey, hslash⟩ | ⟨-, ⟨w, -, hw, hkey, htran⟩ | hsame⟩)
    · exact Or.inl ⟨e, hwritten, hkey, (unescape_raw_iff _).mpr hslash⟩
    · exact Or.inl ⟨w, hw, hkey, htran⟩
    · exact Or.inr hsame
  · rintro (⟨w, hw, hkey, htran⟩ | ⟨hnone, hsame⟩)
    · by_cases hwe : w = e
      · subst hwe
        exact Or.inl ⟨hw, hkey, (unescape_raw_iff _).mp htran⟩
      · refine Or.inr ⟨fun hself => ?_, Or.inl ⟨w, hwe, hw, hkey, htran⟩⟩
        exact hwe (eq_of_packedOf h hw.mem he (hkey.trans hself.2.symm))
    · exact Or.inr ⟨fun hself => hnone e hself.1 hself.2, Or.inr ⟨hnone, hsame⟩⟩

theorem loadLanguage_simplemot (po : File) (translation : Str → Option Str) {key : Str}
    (hkey : key ≠ ascii "en")
    (hfile : translation (key ++ ascii ".tr") = some (simplemot po.text))
    (hshort : ∀ e ∈ po.entries, (value e.msgstr.tokens).length < 2 ^ 15) :
    loadLanguage translation key =
      if ∀ w ∈ written po.entries, (tranOf w).length < 2 ^ 15 then
        some (sorted ((written po.entries).map stringOf))
      else none := by
  have hlength : ∀ w ∈ written po.entries, (tranOf w).length < 2 ^ 16 := by
    intro w hw
    have hraw := length_raw_le w.msgstr.tokens
    have hle := length_unescape_le (raw w.msgstr.tokens)
    have := hshort w ((written_sublist po.entries).subset hw)
    unfold tranOf
    omega
  unfold loadLanguage
  rw [if_neg hkey, hfile]
  dsimp only
  rw [simplemot_text, readStrings_records hlength le_rfl]
  split_ifs
  · rfl
  · rfl

/-- The archive and the language are arbitrary, as is the signedness of `char`. -/
theorem translations_correct_iff (charSigned : Bool) (po : File) (translation : Str → Option Str)
    (key : Str) (hkey : key ≠ ascii "en")
    (hfile : translation (key ++ ascii ".tr") = some (simplemot po.text))
    (hhash : po.entries.Pairwise fun a b => packedOf a ≠ packedOf b)
    (hshort : ∀ e ∈ po.entries, (value e.msgstr.tokens).length < 2 ^ 15) :
    (∃ strings, loadLanguage translation key = some strings ∧ Correct charSigned po strings) ↔
      (∀ w, IsWritten po.entries w → (tranOf w).length < 2 ^ 15) ∧
      ∀ e ∈ po.entries, Required e →
        Kept charSigned po.entries e ∨ ByChance charSigned po.entries e := by
  have hws := hhash.sublist (written_sublist po.entries)
  have hload := loadLanguage_simplemot po translation hkey hfile hshort
  simp only [← mem_written_iff]
  constructor
  · rintro ⟨strings, hstrings, hcorrect⟩
    rw [hload] at hstrings
    split_ifs at hstrings with hall
    cases hstrings
    refine ⟨hall, fun e he hreq => ?_⟩
    rw [kept_or_byChance_iff hhash he]
    exact (translateString_entries hws e).mp (hcorrect.entries e he hreq)
  · rintro ⟨hall, hentries⟩
    rw [hload, if_pos hall]
    refine ⟨_, rfl, fun e he hreq => ?_, fun str => translateString_none⟩
    rw [translateString_entries hws e, ← kept_or_byChance_iff hhash he]
    exact hentries e he hreq

end RoundTrip

section Samples

/-- `msgid "Yes"` and `msgstr "Ja"`, and what stands behind them. -/
def yes (fillers : List Filler) : Entry where
  msgid := ⟨[.plain ⟨0x59, by decide⟩, .plain ⟨0x65, by decide⟩, .plain ⟨0x73, by decide⟩], []⟩
  msgstr := ⟨[.plain ⟨0x4a, by decide⟩, .plain ⟨0x61, by decide⟩], []⟩
  fillers := fillers

def blankLine : Filler := ⟨[], List.not_mem_nil, by decide +kernel, by decide +kernel,
  by decide +kernel⟩

/-- A blank line at the end of the file saves the last entry. -/
theorem translations_correct_blankLine :
    ∃ strings, loadLanguage (fun _ => some (simplemot (File.text ⟨[], [yes [blankLine]]⟩)))
        (ascii "de") = some strings ∧ Correct true ⟨[], [yes [blankLine]]⟩ strings := by
  have hwritten : IsWritten [yes [blankLine]] (yes [blankLine]) := by
    rw [← mem_written_iff]
    exact List.mem_singleton.mpr rfl
  apply (translations_correct_iff true ⟨[], [yes [blankLine]]⟩ _ (ascii "de") (by decide) rfl
    (List.pairwise_singleton _ _) ?_).mpr
  · constructor
    · intro w hw
      rw [List.mem_singleton.mp hw.mem]
      decide
    · intro e he _
      rw [List.mem_singleton.mp he]
      exact Or.inl ⟨hwritten, by decide +kernel, by decide⟩
  · intro e he
    rw [List.mem_singleton.mp he]
    decide

/-- Without it there is no record. -/
theorem lastEntry_lost :
    ¬ ∀ (charSigned : Bool) (po : File) (translation : Str → Option Str) (key : Str),
      key ≠ ascii "en" → translation (key ++ ascii ".tr") = some (simplemot po.text) →
      (po.entries.Pairwise fun a b => packedOf a ≠ packedOf b) →
      (∀ e ∈ po.entries, (value e.msgstr.tokens).length < 2 ^ 15) →
      ∃ strings, loadLanguage translation key = some strings ∧ Correct charSigned po strings := by
  intro h
  have hshort : ∀ e ∈ [yes []], (value e.msgstr.tokens).length < 2 ^ 15 := by
    intro e he
    rw [List.mem_singleton.mp he]
    decide
  have hkey : ascii "de" ≠ ascii "en" := by decide
  obtain ⟨strings, hstrings, hcorrect⟩ := h true ⟨[], [yes []]⟩
    (fun _ => some (simplemot (File.text ⟨[], [yes []]⟩))) (ascii "de") hkey rfl
    (List.pairwise_singleton _ _) hshort
  have hempty : strings = [] := by
    have hnone : written [yes []] = [] := rfl
    have hload := loadLanguage_simplemot ⟨[], [yes []]⟩
      (fun _ => some (simplemot (File.text ⟨[], [yes []]⟩))) hkey rfl hshort
    rw [hstrings, hnone, if_pos nofun, List.map_nil, sorted, List.mergeSort_nil] at hload
    exact Option.some.inj hload
  have hlost := hcorrect.entries _ List.mem_cons_self ⟨nofun, nofun⟩
  rw [hempty, translateString_none fun s hs => absurd hs List.not_mem_nil] at hlost
  exact absurd hlost (by decide)

end Samples

end Comodoo.TranslationsRoundTrip
