import Comodoo.NetIface

set_option autoImplicit false

/-!
# Netmasks and prefixes

`iface_netmask2prefix` of `isys/iface.c`, and the functions of `isys.py` that work on the texts of
netmasks.
-/
namespace Comodoo.NetmaskPrefix
open CString InetText NetIface

/-- The four bytes as the number `s_addr`. -/
def sAddr (mc : Machine) (x : InAddr) : ℕ :=
  if mc.bigEndian then
    x.a.toNat * 2 ^ 24 + x.b.toNat * 2 ^ 16 + x.c.toNat * 2 ^ 8 + x.d.toNat
  else x.a.toNat + x.b.toNat * 2 ^ 8 + x.c.toNat * 2 ^ 16 + x.d.toNat * 2 ^ 24

/-- The loop; its first argument is fuel. -/
def shiftOut : ℕ → ℕ → ℤ → ℤ
  | 0, _, ret => ret
  | fuel + 1, mask, ret => if mask ≠ 0 then shiftOut fuel (mask >>> 1) (ret + 1) else ret

/-- After 32 rounds nothing is left of `s_addr`. -/
def netmask2Prefix (mc : Machine) (netmask : Option InAddr) : ℤ :=
  match netmask with
  | none => -1
  | some mask => shiftOut 32 (sAddr mc mask) (-1)

/-- `isys.prefix2netmask`. -/
def isysPrefix2netmask (mc : Machine) (n : ℕ) : Str := inetNtop4 (ifacePrefix2netmask mc n)

def isysLoop (mc : Machine) (netmask : Str) : ℕ → ℕ → ℕ
  | 0, n => n
  | left + 1, n =>
    if isysPrefix2netmask mc n = netmask then n else isysLoop mc netmask left (n + 1)

/-- `isys.netmask2prefix`. -/
def isysNetmask2Prefix (mc : Machine) (netmask : Str) : ℕ := isysLoop mc netmask 33 0

def byteBits (b : UInt8) : List Bool := [7, 6, 5, 4, 3, 2, 1, 0].map b.toNat.testBit

def addrBits (x : InAddr) : List Bool := byteBits x.a ++ byteBits x.b ++ byteBits x.c ++ byteBits x.d

def maskOf (n : ℕ) : InAddr :=
  let mask := 2 ^ 32 - 2 ^ (32 - n)
  ⟨(mask / 2 ^ 24).toUInt8, (mask / 2 ^ 16).toUInt8, (mask / 2 ^ 8).toUInt8, mask.toUInt8⟩

/-- `n` ones with zeros behind them. -/
def IsMask (n : ℕ) (x : InAddr) : Prop :=
  addrBits x = List.replicate n true ++ List.replicate (32 - n) false

instance (n : ℕ) (x : InAddr) : Decidable (IsMask n x) := inferInstanceAs (Decidable (_ = _))

/-- The prefix of a mask, and -1 for any other address. -/
def IfaceRight (mc : Machine) (x : InAddr) : Prop :=
  (∀ n : ℕ, n ≤ 32 → (netmask2Prefix mc (some x) = n ↔ IsMask n x)) ∧
    ((∀ n : ℕ, n ≤ 32 → ¬ IsMask n x) → netmask2Prefix mc (some x) = -1)

/-- The prefix of a mask given as text. -/
def IsysRight (mc : Machine) (x : InAddr) : Prop :=
  ∀ n : ℕ, n ≤ 32 → IsMask n x → isysNetmask2Prefix mc (inetNtop4 x) = n

section Masks
variable {x y : InAddr} {n p : ℕ}

theorem byteBits_inj {b c : UInt8} (h : byteBits b = byteBits c) : b = c := by
  have hback : ∀ k < 256, (byteBits (UInt8.ofNat k)).foldl (fun m bit => 2 * m + bit.toNat) 0 = k := by
    decide +kernel
  have hb := hback b.toNat b.toNat_lt
  have hc := hback c.toNat c.toNat_lt
  rw [UInt8.ofNat_toNat] at hb hc
  rw [← UInt8.toNat_inj, ← hb, ← hc, h]

theorem addrBits_inj (h : addrBits x = addrBits y) : x = y := by
  have hlen : ∀ b : UInt8, (byteBits b).length = 8 := fun b => rfl
  obtain ⟨habc, hd⟩ := List.append_inj h (by simp [hlen])
  obtain ⟨hab, hc⟩ := List.append_inj habc (by simp [hlen])
  obtain ⟨ha, hb⟩ := List.append_inj hab (by simp [hlen])
  cases x
  cases y
  rw [InAddr.mk.injEq]
  exact ⟨byteBits_inj ha, byteBits_inj hb, byteBits_inj hc, byteBits_inj hd⟩

theorem isMask_maskOf : ∀ n ≤ 32, IsMask n (maskOf n) := by
  decide +kernel

theorem eq_of_isMask (hn : n ≤ 32) (hmask : IsMask n x) : x = maskOf n :=
  addrBits_inj (hmask.trans (isMask_maskOf n hn).symm)

theorem isMask_inj (hmask : IsMask n x) (hmask' : IsMask p x) :
    n = p := by
  have hcount := congrArg (List.count true) (hmask.symm.trans hmask')
  simpa [List.count_replicate] using hcount

theorem isMask_iff (hmask : IsMask n x) : IsMask p x ↔ n = p := by
  refine ⟨isMask_inj hmask, ?_⟩
  rintro rfl
  exact hmask

theorem ifacePrefix2netmask_eq (mc : Machine) : ∀ n ≤ 32, 1 ≤ n →
    ifacePrefix2netmask mc n = maskOf n := by
  obtain ⟨e, r⟩ := mc
  revert e r
  decide +kernel

/-- The loop counts up to the highest bit of `s_addr`, and it starts at -1. -/
theorem netmask2Prefix_mask (mc : Machine) : ∀ n ≤ 32,
    (netmask2Prefix mc (some (maskOf n)) = n ↔
      n = 31 ∨ (mc.bigEndian = false ∧ (n = 7 ∨ n = 15 ∨ n = 23))) := by
  obtain ⟨e, r⟩ := mc
  revert e r
  decide +kernel

theorem shiftOut_ge (fuel mask : ℕ) (ret : ℤ) : ret ≤ shiftOut fuel mask ret := by
  induction fuel generalizing mask ret with
  | zero => exact Int.le_refl ret
  | succ fuel ih =>
    have hnext := ih (mask >>> 1) (ret + 1)
    rw [shiftOut]
    split_ifs <;> omega

theorem shiftOut_add {fuel mask : ℕ} (hmask : mask < 2 ^ fuel) (more : ℕ) (ret : ℤ) :
    shiftOut (fuel + more) mask ret = shiftOut fuel mask ret := by
  induction fuel generalizing mask ret with
  | zero =>
    have hzero : mask = 0 := Nat.lt_one_iff.mp hmask
    cases more with
    | zero => rfl
    | succ more =>
      rw [hzero]
      rfl
  | succ fuel ih =>
    have hhalf : mask >>> 1 < 2 ^ fuel := by
      rw [Nat.shiftRight_one]
      rw [Nat.pow_succ] at hmask
      omega
    rw [Nat.add_right_comm, shiftOut, shiftOut, ih hhalf]

theorem sAddr_lt (mc : Machine) (x : InAddr) : sAddr mc x < 2 ^ 32 := by
  have ha := x.a.toNat_lt
  have hb := x.b.toNat_lt
  have hc := x.c.toNat_lt
  have hd := x.d.toNat_lt
  unfold sAddr
  split_ifs <;> omega

/-- So the loop of the program gives the same, which goes on as long as there are bits. -/
theorem netmask2Prefix_fuel (mc : Machine) (x : InAddr) (more : ℕ) :
    shiftOut (32 + more) (sAddr mc x) (-1) = netmask2Prefix mc (some x) :=
  shiftOut_add (sAddr_lt mc x) more (-1)

theorem sAddr_eq_zero {mc : Machine} (hzero : sAddr mc x = 0) : x = ⟨0, 0, 0, 0⟩ := by
  have hbyte : ∀ b : UInt8, b.toNat = 0 → b = 0 := fun b hb => UInt8.toNat_inj.mp hb
  have ha := hbyte x.a
  have hb := hbyte x.b
  have hc := hbyte x.c
  have hd := hbyte x.d
  cases x
  rw [InAddr.mk.injEq]
  unfold sAddr at hzero
  split_ifs at hzero
  · exact ⟨ha (by omega), hb (by omega), hc (by omega), hd (by omega)⟩
  · exact ⟨ha (by omega), hb (by omega), hc (by omega), hd (by omega)⟩

theorem netmask2Prefix_neg {mc : Machine} (hneg : netmask2Prefix mc (some x) = -1) :
    x = ⟨0, 0, 0, 0⟩ := by
  by_contra hne
  have hbits : ¬ sAddr mc x = 0 := mt sAddr_eq_zero hne
  have hge := shiftOut_ge 31 (sAddr mc x >>> 1) (-1 + 1)
  rw [netmask2Prefix, shiftOut, if_pos hbits] at hneg
  omega

theorem ifaceRight_mask (mc : Machine) (hn : n ≤ 32) (hmask : IsMask n x) :
    IfaceRight mc x ↔ n = 31 ∨ (mc.bigEndian = false ∧ (n = 7 ∨ n = 15 ∨ n = 23)) := by
  rw [← netmask2Prefix_mask mc n hn, ← eq_of_isMask hn hmask]
  constructor
  · exact fun hright => (hright.1 n hn).mpr hmask
  · intro hresult
    refine ⟨fun p _ => ?_, fun hnone => absurd hmask (hnone n hn)⟩
    rw [hresult, Int.natCast_inj]
    constructor
    · rintro rfl
      exact hmask
    · exact fun hmask' => isMask_inj hmask hmask'

theorem ifaceRight_iff (mc : Machine) (x : InAddr) :
    IfaceRight mc x ↔
      IsMask 31 x ∨ (mc.bigEndian = false ∧ (IsMask 7 x ∨ IsMask 15 x ∨ IsMask 23 x)) := by
  by_cases hmask : ∃ n ≤ 32, IsMask n x
  · obtain ⟨n, hn, hmask⟩ := hmask
    rw [ifaceRight_mask mc hn hmask, isMask_iff hmask, isMask_iff hmask, isMask_iff hmask,
      isMask_iff hmask]
  · push Not at hmask
    refine iff_of_false (fun hright => ?_) ?_
    · have hzero := netmask2Prefix_neg (hright.2 hmask)
      rw [hzero] at hmask
      exact hmask 0 (by decide) (by decide)
    · rintro (hmask' | ⟨-, hmask' | hmask' | hmask'⟩)
      · exact hmask 31 (by decide) hmask'
      · exact hmask 7 (by decide) hmask'
      · exact hmask 15 (by decide) hmask'
      · exact hmask 23 (by decide) hmask'

/-- The search among the masks themselves. -/
def maskLoop (mc : Machine) (x : InAddr) : ℕ → ℕ → ℕ
  | 0, n => n
  | left + 1, n => if ifacePrefix2netmask mc n = x then n else maskLoop mc x left (n + 1)

theorem isysLoop_eq (mc : Machine) (x : InAddr) (left n : ℕ) :
    isysLoop mc (inetNtop4 x) left n = maskLoop mc x left n := by
  induction left generalizing n with
  | zero => rfl
  | succ left ih =>
    rw [isysLoop, maskLoop, isysPrefix2netmask, ih]
    simp only [inetNtop4_inj]

theorem maskLoop_mask (mc : Machine) : ∀ n ≤ 32,
    (maskLoop mc (maskOf n) 33 0 = n ↔
      (mc.reducesShift = true → n ≠ 0 ∧ n ≠ 32)) := by
  obtain ⟨e, r⟩ := mc
  revert e r
  decide +kernel

theorem isysNetmask2Prefix_mask (mc : Machine) : ∀ n ≤ 32,
    (isysNetmask2Prefix mc (inetNtop4 (maskOf n)) = n ↔
      (mc.reducesShift = true → n ≠ 0 ∧ n ≠ 32)) := by
  intro n hn
  rw [isysNetmask2Prefix, isysLoop_eq]
  exact maskLoop_mask mc n hn

theorem isysRight_mask (mc : Machine) (hn : n ≤ 32) (hmask : IsMask n x) :
    IsysRight mc x ↔ (mc.reducesShift = true → n ≠ 0 ∧ n ≠ 32) := by
  rw [← isysNetmask2Prefix_mask mc n hn, ← eq_of_isMask hn hmask]
  constructor
  · exact fun hright => hright n hn hmask
  · intro hresult p _ hmask'
    rw [hresult, isMask_inj hmask hmask']

theorem isysRight_iff (mc : Machine) (x : InAddr) :
    IsysRight mc x ↔ (mc.reducesShift = true → ¬ IsMask 0 x ∧ ¬ IsMask 32 x) := by
  by_cases hmask : ∃ n ≤ 32, IsMask n x
  · obtain ⟨n, hn, hmask⟩ := hmask
    rw [isysRight_mask mc hn hmask, isMask_iff hmask, isMask_iff hmask]
  · push Not at hmask
    refine iff_of_true (fun p hp hmask' => absurd hmask' (hmask p hp)) (fun _ => ?_)
    exact ⟨hmask 0 (by decide), hmask 32 (by decide)⟩

/-- The two functions give the prefix of an address for the prefix 31, and on a little-endian machine
for 7, 15 and 23. -/
theorem netmask2Prefix_right_iff (mc : Machine) (x : InAddr) :
    (IfaceRight mc x ∧ IsysRight mc x) ↔
      IsMask 31 x ∨ (mc.bigEndian = false ∧ (IsMask 7 x ∨ IsMask 15 x ∨ IsMask 23 x)) := by
  rw [ifaceRight_iff, isysRight_iff, and_iff_left_iff_imp]
  rintro hmask -
  have hother : ∀ n, IsMask n x → n ≠ 0 → n ≠ 32 → ¬ IsMask 0 x ∧ ¬ IsMask 32 x :=
    fun n hn hzero hfull => ⟨fun h => hzero (isMask_inj hn h), fun h => hfull (isMask_inj hn h)⟩
  rcases hmask with h | ⟨-, h | h | h⟩
  · exact hother 31 h (by decide) (by decide)
  · exact hother 7 h (by decide) (by decide)
  · exact hother 15 h (by decide) (by decide)
  · exact hother 23 h (by decide) (by decide)

/-- 255.255.255.0 on a little-endian machine has the prefix 23. -/
theorem classC_not_right : ¬ ∀ mc x, IfaceRight mc x ∧ IsysRight mc x := by
  intro hall
  have hright := (hall ⟨false, true⟩ ⟨255, 255, 255, 0⟩).1.1 24 (by decide)
  have hresult : netmask2Prefix ⟨false, true⟩ (some ⟨255, 255, 255, 0⟩) = 23 := by decide +kernel
  have hmask : IsMask 24 ⟨255, 255, 255, 0⟩ := by decide +kernel
  rw [hresult] at hright
  exact absurd (hright.mpr hmask) (by decide)

end Masks

end Comodoo.NetmaskPrefix
