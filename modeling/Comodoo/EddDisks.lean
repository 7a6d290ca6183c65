import Comodoo.CpioFormat
import Comodoo.EddSupport
import Mathlib.Data.List.Nodup

set_option autoImplicit false

/-!
# What the BIOS numbers lead to

The table is filled with the drives whose signature stands on one disk only, in the order of the
directory. The text asked for is read with `sscanf`, whose result nobody looks at: a text without a
number asks for whatever was in the variable.
-/
namespace Comodoo.EddDisks
open CString CpioRead ChainedTable EddSupport

def carriers (devices : List Device) (sig : UInt32) : List Device :=
  devices.filter (fun d => d.device.isSome ∧ d.read = .signature sig)

/-- A disk that can be read, or that has no medium. -/
def Readable (d : Device) : Prop :=
  d.device = none ∨ (∃ sig, d.read = .signature sig) ∨ d.read = .openFailed ENOMEDIUM

/-- The number behind `int13_dev`. -/
def entryNumber (e : EddEntry) : ℕ := hexDigits (e.d_name.drop 9)

def Drive (e : EddEntry) : Prop :=
  ∃ hex, e.d_name = ascii "int13_dev" ++ hex ∧ hex ≠ [] ∧ ∀ b ∈ hex, isxdigit b = true

def isHidden (e : EddEntry) : Bool := e.d_name.head? = some dot

section Disks

variable {devices : List Device} {sig : UInt32} {m : Match}

theorem carriers_cons (d : Device) (devices : List Device) (sig : UInt32) :
    carriers (d :: devices) sig =
      if d.device.isSome ∧ d.read = .signature sig then d :: carriers devices sig
      else carriers devices sig := by
  unfold carriers
  rw [List.filter_cons]
  simp only [decide_eq_true_eq]

theorem matchDisks_absent {d : Device} (hi : m.i < 2) (h : d.device = none) :
    matchDisks sig (d :: devices) m = matchDisks sig devices m := by
  rw [matchDisks, if_neg (not_not.mpr hi), if_pos h]

theorem matchDisks_noMedium {d : Device} (hi : m.i < 2) (hd : d.device ≠ none)
    (h : d.read = .openFailed ENOMEDIUM) :
    matchDisks sig (d :: devices) m = matchDisks sig devices m := by
  have hread : readDiskSig d.read m.currentSig = (-ENOMEDIUM, m.currentSig) := by
    rw [h]
    rfl
  rw [matchDisks, if_neg (not_not.mpr hi), if_neg hd]
  simp only [hread]
  rfl

theorem matchDisks_signature {d : Device} {s : UInt32} (hi : m.i < 2) (hd : d.device ≠ none)
    (h : d.read = .signature s) :
    matchDisks sig (d :: devices) m =
      if sig = s then matchDisks sig devices ⟨m.i + 1, some d, s⟩
      else matchDisks sig devices ⟨m.i, m.foundDisk, s⟩ := by
  have hread : readDiskSig d.read m.currentSig = (0, s) := by
    rw [h]
    rfl
  rw [matchDisks, if_neg (not_not.mpr hi), if_neg hd]
  simp only [hread]
  rfl

/-- The scan counts the carriers up to two; a single one is the disk found. -/
theorem matchDisks_spec (sig : UInt32) (h : ∀ d ∈ devices, Readable d) (hi : m.i ≤ 2) :
    ∃ found cur, matchDisks sig devices m =
        (⟨min 2 (m.i + (carriers devices sig).length), found, cur⟩, true) ∧
      (m.i + (carriers devices sig).length = 1 →
        found = (carriers devices sig).head?.or m.foundDisk) := by
  induction devices generalizing m with
  | nil =>
    have hmin : min 2 (m.i + (carriers [] sig).length) = m.i := by
      change min 2 (m.i + 0) = m.i
      omega
    refine ⟨m.foundDisk, m.currentSig, ?_, fun _ => rfl⟩
    rw [hmin, matchDisks]
  | cons d devices ih =>
    have hrest : ∀ d ∈ devices, Readable d := fun c hc => h c (List.mem_cons_of_mem d hc)
    by_cases hfull : m.i < 2
    · by_cases hnone : d.device = none
      · rw [matchDisks_absent hfull hnone, carriers_cons, if_neg (by simp [hnone])]
        exact ih hrest hi
      · rcases h d List.mem_cons_self with hno | ⟨s, hs⟩ | hmedium
        · exact absurd hno hnone
        · have hiff : (d.device.isSome ∧ d.read = .signature sig) ↔ sig = s := by
            rw [hs, DiskRead.signature.injEq]
            exact ⟨fun hc => hc.2.symm, fun hc => ⟨Option.isSome_iff_ne_none.mpr hnone, hc.symm⟩⟩
          rw [matchDisks_signature hfull hnone hs, carriers_cons]
          by_cases heq : sig = s
          · rw [if_pos heq, if_pos (hiff.mpr heq)]
            obtain ⟨found, cur, hrun, hfound⟩ :=
              ih (m := ⟨m.i + 1, some d, s⟩) hrest (by dsimp only; omega)
            dsimp only at hrun hfound
            refine ⟨found, cur, ?_, ?_⟩
            · rw [hrun, List.length_cons]
              rw [show m.i + 1 + (carriers devices sig).length =
                m.i + ((carriers devices sig).length + 1) by omega]
            · intro hone
              rw [List.length_cons] at hone
              have hnil : carriers devices sig = [] := List.length_eq_zero_iff.mp (by omega)
              rw [hfound (by omega), hnil]
              rfl
          · rw [if_neg heq, if_neg (fun hc => heq (hiff.mp hc))]
            exact ih (m := ⟨m.i, m.foundDisk, s⟩) hrest hi
        · have hno : ¬ (d.device.isSome ∧ d.read = .signature sig) := by
            rw [hmedium]
            exact fun hc => nomatch hc.2
          rw [matchDisks_noMedium hfull hnone hmedium, carriers_cons, if_neg hno]
          exact ih hrest hi
    · have htwo : m.i = 2 := by omega
      refine ⟨m.foundDisk, m.currentSig, ?_, fun hone => by omega⟩
      rw [matchDisks, if_pos hfull,
        show min 2 (m.i + (carriers (d :: devices) sig).length) = m.i by omega]

def onlyCarrier (devices : List Device) (sig : UInt32) : Option Str :=
  match carriers devices sig with
  | [d] => d.device
  | _ => none

theorem matchDisks_onlyCarrier (h : ∀ d ∈ devices, Readable d) (sig cur : UInt32) :
    ∃ m', matchDisks sig devices ⟨0, none, cur⟩ = (m', true) ∧
      (if m'.i = 1 then m'.foundDisk.bind Device.device else none) = onlyCarrier devices sig := by
  obtain ⟨found, cur', hrun, hfound⟩ :=
    matchDisks_spec sig (m := ⟨0, none, cur⟩) h (Nat.zero_le 2)
  dsimp only at hrun hfound
  refine ⟨_, hrun, ?_⟩
  dsimp only
  unfold onlyCarrier
  cases hcar : carriers devices sig with
  | nil => rfl
  | cons d rest =>
    rw [hcar, List.length_cons] at hfound
    cases rest with
    | nil =>
      rw [hfound rfl]
      rfl
    | cons c rest =>
      rw [List.length_cons, List.length_cons, if_neg (by omega)]

end Disks

section Entries

variable {devices : List Device} {longBits : ℕ} {e : EddEntry} {s : Scan}

def filed (longBits : ℕ) (devices : List Device) (e : EddEntry) : Option (ℕ × Str) :=
  if isHidden e then none
  else ((readMbrSig longBits e).bind (onlyCarrier devices)).map (fun name => (entryNumber e, name))

theorem scanHex_digits {hex : Str} (hne : hex ≠ []) (h : ∀ b ∈ hex, isxdigit b = true) :
    scanHex hex = some (hexDigits hex : ℤ) := by
  have hnul : hex.takeWhile (· ≠ 0) = hex :=
    List.takeWhile_eq_self_iff.mpr (fun b hb => by simpa using (CpioFormat.isxdigit_facts (h b hb)).1)
  obtain ⟨b, t, rfl⟩ := List.exists_cons_of_ne_nil hne
  have hb := CpioFormat.isxdigit_facts (h b List.mem_cons_self)
  have hspace : (b :: t).dropWhile isspace = b :: t := by
    rw [List.dropWhile_cons, if_neg (by simp [hb.2.1])]
  unfold scanHex
  rw [hnul, hspace]
  split
  · rename_i heq
    exact absurd (List.cons.inj heq).1 hb.2.2.1
  · rename_i heq
    exact absurd (List.cons.inj heq).1 hb.2.2.2.1
  · simp only [CpioFormat.skipHexMark_digits h, List.takeWhile_eq_self_iff.mpr h]
    simp

theorem drive_not_hidden (h : Drive e) : isHidden e = false := by
  obtain ⟨hex, hname, _⟩ := h
  rw [isHidden, hname]
  rfl

theorem drive_number (h : Drive e) : scanHex (e.d_name.drop 9) = some (entryNumber e : ℤ) := by
  obtain ⟨hex, hname, hne, hhex⟩ := h
  have hdrop : e.d_name.drop 9 = hex := by
    rw [hname]
    rfl
  rw [entryNumber, hdrop]
  exact scanHex_digits hne hhex

theorem mapEntry_table (longBits : ℕ) (s : Scan) (hdev : ∀ d ∈ devices, Readable d)
    (he : isHidden e = true ∨ Drive e) :
    ∃ s', mapEntry longBits devices s e = (s', true) ∧
      s'.table = ((filed longBits devices e).map (fun q => (stored longBits q.1, q.2))).elim s.table
        (insert hashIndex s.table) := by
  unfold mapEntry filed
  rcases he with hhid | hdrive
  · rw [if_pos hhid, if_pos (of_decide_eq_true hhid)]
    exact ⟨s, rfl, rfl⟩
  · have hhid := drive_not_hidden hdrive
    rw [if_neg (of_decide_eq_false hhid), hhid, drive_number hdrive]
    dsimp only
    cases hsig : readMbrSig longBits e with
    | none => exact ⟨_, rfl, rfl⟩
    | some sig =>
      obtain ⟨m', hrun, honly⟩ := matchDisks_onlyCarrier hdev sig s.currentSig
      simp only [hrun, not_true_eq_false, Bool.false_eq_true, if_false, Option.bind_some, ← honly]
      by_cases hone : m'.i = 1
      · simp only [hone, if_true]
        cases m'.foundDisk.bind Device.device with
        | none => exact ⟨_, rfl, rfl⟩
        | some name => exact ⟨_, rfl, rfl⟩
      · simp only [hone, if_false]
        exact ⟨_, rfl, rfl⟩

theorem mapEntries_table (hdev : ∀ d ∈ devices, Readable d) {entries : List EddEntry}
    (he : ∀ e ∈ entries, isHidden e = true ∨ Drive e) (s : Scan) :
    (mapEntries longBits devices entries s).table =
      ((entries.filterMap (filed longBits devices)).map
        (fun q => (stored longBits q.1, q.2))).foldl (insert hashIndex) s.table := by
  induction entries generalizing s with
  | nil => rfl
  | cons e entries ih =>
    obtain ⟨s', hrun, htable⟩ :=
      mapEntry_table longBits s hdev (he e List.mem_cons_self)
    rw [mapEntries, hrun]
    dsimp only
    rw [ih (fun c hc => he c (List.mem_cons_of_mem e hc)) s', htable]
    cases hfiled : filed longBits devices e with
    | none => rw [List.filterMap_cons_none hfiled]; rfl
    | some q => rw [List.filterMap_cons_some hfiled]; rfl

end Entries

section Answers

variable {mc : Machine} {g : Globals} {biosStr : Str} {junk : UInt32}

def disks (mc : Machine) : List Device := mc.devices.getD []

def drives (mc : Machine) : List EddEntry := mc.listing.getD []

/-- Disks that can be read or have no medium, and drives with different numbers. -/
structure WellFormed (mc : Machine) : Prop where
  readable : ∀ d ∈ disks mc, Readable d
  named : ∀ e ∈ drives mc, isHidden e = true ∨ Drive e
  distinct : (((drives mc).filter (fun e => !isHidden e)).map entryNumber).Nodup

/-- The drive with this number has a signature that this disk and no other carries. -/
def Answers (mc : Machine) (n : ℕ) (name : Str) : Prop :=
  ∃ e ∈ drives mc, isHidden e = false ∧ entryNumber e = n ∧
    ∃ sig, readMbrSig mc.longBits e = some sig ∧
      ∃ d, carriers (disks mc) sig = [d] ∧ d.device = some name

/-- The drives that are filed, in the order of the directory. -/
def allFiled (mc : Machine) : List (ℕ × Str) :=
  (drives mc).filterMap (filed mc.longBits (disks mc))

theorem onlyCarrier_eq_some {devices : List Device} {sig : UInt32} {name : Str} :
    onlyCarrier devices sig = some name ↔
      ∃ d, carriers devices sig = [d] ∧ d.device = some name := by
  unfold onlyCarrier
  constructor
  · intro h
    split at h
    · rename_i d heq
      exact ⟨d, heq, h⟩
    · cases h
  · rintro ⟨d, heq, h⟩
    rw [heq]
    exact h

theorem mem_allFiled {n : ℕ} {name : Str} : (n, name) ∈ allFiled mc ↔ Answers mc n name := by
  unfold allFiled Answers
  rw [List.mem_filterMap]
  constructor
  · rintro ⟨e, he, hfiled⟩
    unfold filed at hfiled
    split_ifs at hfiled with hhid
    · obtain ⟨name', hname, heq⟩ := Option.map_eq_some_iff.mp hfiled
      cases heq
      obtain ⟨sig, hsig, honly⟩ := Option.bind_eq_some_iff.mp hname
      exact ⟨e, he, by simpa using hhid, rfl, sig, hsig, onlyCarrier_eq_some.mp honly⟩
  · rintro ⟨e, he, hhid, rfl, sig, hsig, honly⟩
    refine ⟨e, he, ?_⟩
    rw [filed, hhid, hsig]
    simp [onlyCarrier_eq_some.mpr honly]

theorem answers_unique (h : WellFormed mc) {n : ℕ} {name name' : Str} (ha : Answers mc n name)
    (ha' : Answers mc n name') : name = name' := by
  obtain ⟨e, he, hhid, hn, sig, hsig, d, hd, hname⟩ := ha
  obtain ⟨e', he', hhid', hn', sig', hsig', d', hd', hname'⟩ := ha'
  have hmem : e ∈ (drives mc).filter (fun e => !isHidden e) := by simp [he, hhid]
  have hmem' : e' ∈ (drives mc).filter (fun e => !isHidden e) := by simp [he', hhid']
  have heq : e = e' := List.inj_on_of_nodup_map h.distinct hmem hmem' (hn.trans hn'.symm)
  subst heq
  rw [hsig] at hsig'
  cases hsig'
  rw [hd] at hd'
  cases hd'
  rw [hname] at hname'
  exact Option.some.inj hname'

/-- Nothing has been probed yet, or this machine has. -/
def Probed (mc : Machine) (g : Globals) : Prop :=
  g.diskHashInit = true → g.mbrSigToName = probeBiosDisks mc

/-- What `biosNum` holds when it is looked up. -/
def biosNum (mc : Machine) (biosStr : Str) (junk : UInt32) : UInt32 :=
  (scanHex biosStr).elim junk (stored mc.longBits)

def lastFiled (mc : Machine) (key : UInt32) : Option (ℕ × Str) :=
  (allFiled mc).reverse.find? (fun q => stored mc.longBits q.1 = key)

theorem find_map_key {α : Type} (l : List (ℕ × α)) (f : ℕ → UInt32) (key : UInt32) :
    ((l.map (fun q => (f q.1, q.2))).reverse.find? (fun item => item.1 = key)).map Prod.snd =
      (l.reverse.find? (fun q => f q.1 = key)).map Prod.snd := by
  rw [← List.map_reverse, List.find?_map, Option.map_map]
  rfl

theorem getBiosDisk_eq (h : WellFormed mc) (hg : Probed mc g) :
    (getBiosDisk mc g biosStr junk).1 =
      (lastFiled mc (biosNum mc biosStr junk)).map Prod.snd := by
  have hprobe : (if g.diskHashInit then g else ⟨probeBiosDisks mc, true⟩ : Globals).mbrSigToName =
      probeBiosDisks mc := by
    split_ifs with hinit
    · exact hg hinit
    · rfl
  have hget : (getBiosDisk mc g biosStr junk).1 =
      (probeBiosDisks mc).bind (fun t => lookupHashItem t (biosNum mc biosStr junk)) := by
    unfold getBiosDisk
    dsimp only
    rw [hprobe]
    cases probeBiosDisks mc <;> rfl
  rw [hget]
  unfold lastFiled allFiled probeBiosDisks
  have hread := h.readable
  have hnamed := h.named
  unfold disks at hread ⊢
  unfold drives at hnamed ⊢
  cases hdev : mc.devices with
  | none =>
    have hnone : ∀ entries : List EddEntry,
        entries.filterMap (filed mc.longBits ((none : Option (List Device)).getD [])) = [] := by
      intro entries
      rw [List.filterMap_eq_nil_iff]
      intro e _
      unfold filed
      cases readMbrSig mc.longBits e with
      | none => simp
      | some sig => simp [onlyCarrier, carriers]
    rw [hnone]
    rfl
  | some devices =>
    rw [hdev] at hread
    cases hlist : mc.listing with
    | none => rfl
    | some entries =>
      rw [hlist] at hnamed
      dsimp only [Option.getD_some, Option.map_some, Option.bind_some] at hread hnamed ⊢
      rw [mapEntries_table hread hnamed, lookupHashItem, lookup_foldl, lookup_empty, Option.or_none,
        find_map_key _ (fun n => stored mc.longBits n)]

/-- The answer is the disk of the number asked for. -/
def Correct (mc : Machine) (g : Globals) (biosStr : Str) (junk : UInt32) : Prop :=
  ∀ name, (getBiosDisk mc g biosStr junk).1 = some name ↔
    ∃ n : ℕ, scanHex biosStr = some (n : ℤ) ∧ Answers mc n name

theorem getBiosDisk_correct_of_lastFiled (h : WellFormed mc) (hg : Probed mc g) (biosStr : Str)
    (junk : UInt32) (hcond : ∀ q ∈ lastFiled mc (biosNum mc biosStr junk),
      ∃ n : ℕ, scanHex biosStr = some (n : ℤ) ∧ (n, q.2) ∈ allFiled mc) :
    Correct mc g biosStr junk := by
  unfold Correct
  rw [getBiosDisk_eq h hg]
  intro name
  constructor
  · intro hfound
    obtain ⟨q, hq, rfl⟩ := Option.map_eq_some_iff.mp hfound
    obtain ⟨n, hn, hmem⟩ := hcond q hq
    exact ⟨n, hn, mem_allFiled.mp hmem⟩
  · rintro ⟨n, hn, ha⟩
    -- the drive itself is filed under this key, so something is found
    have hkey : biosNum mc biosStr junk = stored mc.longBits n := by
      rw [biosNum, hn]
      rfl
    cases hlast : lastFiled mc (biosNum mc biosStr junk) with
    | none =>
      have hno := List.find?_eq_none.mp hlast (n, name)
        (List.mem_reverse.mpr (mem_allFiled.mpr ha))
      rw [hkey] at hno
      exact absurd (decide_eq_true rfl) hno
    | some q =>
      obtain ⟨n', hn', hmem⟩ := hcond q hlast
      rw [hn] at hn'
      have heq : n = n' := Int.ofNat.inj (Option.some.inj hn')
      subst heq
      rw [Option.map_some, answers_unique h (mem_allFiled.mp hmem) ha]

theorem correct_iff_lastFiled (h : WellFormed mc) (hg : Probed mc g) (biosStr : Str)
    (junk : UInt32) :
    Correct mc g biosStr junk ↔ ∀ q ∈ lastFiled mc (biosNum mc biosStr junk),
      ∃ n : ℕ, scanHex biosStr = some (n : ℤ) ∧ (n, q.2) ∈ allFiled mc := by
  refine ⟨fun hcorrect q hq => ?_, getBiosDisk_correct_of_lastFiled h hg biosStr junk⟩
  unfold Correct at hcorrect
  rw [getBiosDisk_eq h hg] at hcorrect
  obtain ⟨n, hn, ha⟩ := (hcorrect q.2).mp (by rw [Option.mem_def.mp hq]; rfl)
  exact ⟨n, hn, mem_allFiled.mpr ha⟩

/-- Without a number in the text, what is left in the variable must be the number of no drive. With
one, the drive filed last under its low bits must have the disk of a drive with that number. -/
theorem getBiosDisk_correct_iff (h : WellFormed mc) (hg : Probed mc g) (biosStr : Str)
    (junk : UInt32) :
    Correct mc g biosStr junk ↔
      match scanHex biosStr with
      | none => ∀ q ∈ allFiled mc, stored mc.longBits q.1 ≠ junk
      | some z => ∀ q ∈ lastFiled mc (stored mc.longBits z),
          ∃ n : ℕ, z = n ∧ (n, q.2) ∈ allFiled mc := by
  rw [correct_iff_lastFiled h hg, biosNum]
  cases scanHex biosStr with
  | none =>
    have hnone : (∀ q ∈ allFiled mc, stored mc.longBits q.1 ≠ junk) ↔ lastFiled mc junk = none := by
      simp [lastFiled]
    dsimp only
    rw [hnone, Option.eq_none_iff_forall_not_mem]
    simp
  | some z => simp only [Option.elim_some, Option.some_inj]

theorem getBiosDisk_correct_of_small (h : WellFormed mc) (hg : Probed mc g)
    (hbits : 32 ≤ mc.longBits) {n : ℕ} (hscan : scanHex biosStr = some (n : ℤ)) (hn : n < 2 ^ 32)
    (hsmall : ∀ e ∈ drives mc, isHidden e = false → entryNumber e < 2 ^ 32) :
    Correct mc g biosStr junk := by
  have hstored : ∀ m : ℕ, m < 2 ^ 32 → stored mc.longBits m = UInt32.ofNat m := by
    intro m hm
    have hpow : 2 ^ 32 ≤ 2 ^ mc.longBits := Nat.pow_le_pow_right (by decide) hbits
    have hmod : ((m : ℤ) % 2 ^ 32).toNat = m := by omega
    unfold stored UInt32.ofInt
    rw [if_neg (by rw [Int.natAbs_natCast]; omega), hmod]
  refine getBiosDisk_correct_of_lastFiled h hg biosStr junk ?_
  intro q hq
  have hmem : q ∈ allFiled mc := List.mem_reverse.mp (List.mem_of_find?_eq_some hq)
  have hkey := List.find?_some hq
  rw [decide_eq_true_eq, biosNum, hscan] at hkey
  obtain ⟨e, he, hhid, hnum, _⟩ := mem_allFiled.mp hmem
  have hqn : q.1 < 2 ^ 32 := hnum ▸ hsmall e he hhid
  change stored mc.longBits q.1 = stored mc.longBits n at hkey
  rw [hstored _ hqn, hstored _ hn] at hkey
  have heq : q.1 = n := by
    have := congrArg UInt32.toNat hkey
    rw [UInt32.toNat_ofNat', UInt32.toNat_ofNat'] at this
    omega
  exact ⟨n, hscan, heq ▸ hmem⟩

/-- One disk, with the signature of drive 80. -/
def oneDisk : Machine where
  longBits := 64
  devices := some [⟨some (ascii "sda"), .signature 0x1234⟩]
  listing := some [⟨ascii ".", none⟩, ⟨ascii "int13_dev80", some (ascii "0x00001234\n")⟩]
  biosNum := 0
  currentSig := 0

theorem oneDisk_wellFormed : WellFormed oneDisk := by
  constructor
  · intro d hd
    rw [List.mem_singleton.mp hd]
    exact Or.inr (Or.inl ⟨_, rfl⟩)
  · intro e he
    rcases List.mem_pair.mp he with rfl | rfl
    · exact Or.inl (by decide)
    · exact Or.inr ⟨ascii "80", by decide, by decide, by decide +kernel⟩
  · decide +kernel

def unprobed : Globals := ⟨none, false⟩

theorem oneDisk_unprobed : Probed oneDisk unprobed := by
  intro hinit
  cases hinit

theorem getBiosDisk_correct_drive80 : Correct oneDisk unprobed (ascii "80") 0 := by
  rw [getBiosDisk_correct_iff oneDisk_wellFormed oneDisk_unprobed]
  have hscan : scanHex (ascii "80") = some 0x80 := by decide +kernel
  have hlast : lastFiled oneDisk (stored oneDisk.longBits 0x80) = some (0x80, ascii "sda") := by
    decide +kernel
  rw [hscan]
  dsimp only
  rw [hlast]
  rintro q ⟨⟩
  exact ⟨0x80, rfl, by decide +kernel⟩

/-- A text that is no number gets the disk of the number left in the variable. -/
theorem junk_not_correct : ¬ Correct oneDisk unprobed (ascii "hda") 0x80 := by
  intro h
  obtain ⟨n, hn, _⟩ := (h (ascii "sda")).mp (by decide +kernel)
  have hnone : scanHex (ascii "hda") = none := by decide +kernel
  rw [hnone] at hn
  cases hn

end Answers

end Comodoo.EddDisks
