import Mathlib.Data.Int.Bitwise
import Comodoo.NetmaskPrefix

set_option autoImplicit false

/-!
# Network and broadcast address

`inet_calcNetBroad` of `isys.py`, and the lines of `readNetConfig` in `net.c` that compute the same
two addresses.
-/
namespace Comodoo.NetBroadcast
open CString InetText NetIface NetmaskPrefix

inductive PyError where
  | socketError
  | structError
  deriving DecidableEq, Repr

/-- What the interpreter does with a number that does not fit an unsigned 32-bit field. Up to 2.6
`struct.pack` takes it modulo `2 ^ 32`; 2.7, the one of the images, raises an error. -/
structure Interpreter where
  wraps : Bool
  deriving DecidableEq, Repr

def python27 : Interpreter := ⟨false⟩

/-- `s_addr`, a word whose bytes in memory are the address. -/
def word (mc : Machine) (x : InAddr) : BitVec 32 :=
  if mc.bigEndian then x.a.toBitVec ++ x.b.toBitVec ++ x.c.toBitVec ++ x.d.toBitVec
  else x.d.toBitVec ++ x.c.toBitVec ++ x.b.toBitVec ++ x.a.toBitVec

def unword (mc : Machine) (w : BitVec 32) : InAddr :=
  if mc.bigEndian then addrOf w
  else
    let x := addrOf w
    ⟨x.d, x.c, x.b, x.a⟩

def inetPton (s : Str) : Except PyError InAddr :=
  match inetPton4 s with
  | some x => .ok x
  | none => .error .socketError

def unpackI (mc : Machine) (x : InAddr) : ℤ := (word mc x).toNat

/-- `socket.ntohl`; its argument has 32 bits. -/
def ntohl (mc : Machine) (v : ℤ) : ℤ :=
  if mc.bigEndian then v
  else (v % 2 ^ 8) * 2 ^ 24 + (v / 2 ^ 8 % 2 ^ 8) * 2 ^ 16 + (v / 2 ^ 16 % 2 ^ 8) * 2 ^ 8 +
    v / 2 ^ 24 % 2 ^ 8

/-- `struct.pack('!I', v)`. -/
def packNetI (py : Interpreter) (v : ℤ) : Except PyError InAddr :=
  if (0 ≤ v ∧ v < 2 ^ 32) ∨ py.wraps then .ok (addrOf (BitVec.ofInt 32 v))
  else .error .structError

def inetCalcNetBroad (py : Interpreter) (mc : Machine) (ip nm : Str) :
    Except PyError (Str × Str) := do
  let ipaddr := ntohl mc (unpackI mc (← inetPton ip))
  let nmaddr := ntohl mc (unpackI mc (← inetPton nm))
  let netaddr := Int.land ipaddr nmaddr
  let bcaddr := Int.lor netaddr (Int.lnot nmaddr)
  let nw ← packNetI py netaddr
  let bc ← packNetI py bcaddr
  return (inetNtop4 nw, inetNtop4 bc)

def missingPieces (mc : Machine) (iface : Iface) : InAddr × Iface :=
  let addr := word mc iface.ipaddr &&& word mc iface.netmask
  if word mc iface.broadcast = 0#32 then
    (unword mc addr, { iface with broadcast := unword mc (addr ||| ~~~(word mc iface.netmask)) })
  else (unword mc addr, iface)

def value (x : InAddr) : BitVec 32 :=
  x.a.toBitVec ++ x.b.toBitVec ++ x.c.toBitVec ++ x.d.toBitVec

def network (ip nm : InAddr) : InAddr := addrOf (value ip &&& value nm)

def broadcast (ip nm : InAddr) : InAddr := addrOf (value (network ip nm) ||| ~~~(value nm))

structure Dotted where
  text : Str
  addr : InAddr
  parsed : inetPton4 text = some addr

/-- The function returns the network and the broadcast address, the ones that `readNetConfig`
computes for an interface without a broadcast address. -/
def CalcRight (py : Interpreter) (mc : Machine) (ip nm : Dotted) : Prop :=
  inetCalcNetBroad py mc ip.text nm.text =
      .ok (inetNtop4 (network ip.addr nm.addr), inetNtop4 (broadcast ip.addr nm.addr)) ∧
    ∀ iface : Iface, iface.ipaddr = ip.addr → iface.netmask = nm.addr →
      iface.broadcast = ⟨0, 0, 0, 0⟩ →
      missingPieces mc iface = (network ip.addr nm.addr,
        { iface with broadcast := broadcast ip.addr nm.addr })

section Words
variable (mc : Machine) (x y : InAddr)

theorem toNat_append4 (a b c d : BitVec 8) :
    (a ++ b ++ c ++ d).toNat =
      a.toNat * 2 ^ 24 + b.toNat * 2 ^ 16 + c.toNat * 2 ^ 8 + d.toNat := by
  have hstep : ∀ {n : ℕ} (hi : BitVec n) (lo : BitVec 8),
      (hi ++ lo).toNat = hi.toNat * 2 ^ 8 + lo.toNat := by
    intro n hi lo
    rw [BitVec.toNat_append, ← Nat.shiftLeft_add_eq_or_of_lt lo.isLt, Nat.shiftLeft_eq]
  rw [hstep, hstep, hstep]
  omega

theorem addrOf_append (a b c d : BitVec 8) :
    addrOf (a ++ b ++ c ++ d) = ⟨⟨a⟩, ⟨b⟩, ⟨c⟩, ⟨d⟩⟩ := by
  have ha : a.toNat < 2 ^ 8 := a.isLt
  have hb : b.toNat < 2 ^ 8 := b.isLt
  have hc : c.toNat < 2 ^ 8 := c.isLt
  have hd : d.toNat < 2 ^ 8 := d.isLt
  have hbyte : ∀ (n : ℕ) (v : BitVec 8), n % 2 ^ 8 = v.toNat → n.toUInt8 = ⟨v⟩ := by
    intro n v hn
    rw [← UInt8.toNat_inj]
    exact hn
  rw [addrOf, InAddr.mk.injEq]
  refine ⟨hbyte _ a ?_, hbyte _ b ?_, hbyte _ c ?_, hbyte _ d ?_⟩
  all_goals
    simp only [BitVec.toNat_ushiftRight, toNat_append4, Nat.shiftRight_eq_div_pow]
    omega

theorem addrOf_and (a b c d a' b' c' d' : BitVec 8) :
    addrOf ((a ++ b ++ c ++ d) &&& (a' ++ b' ++ c' ++ d')) =
      ⟨⟨a &&& a'⟩, ⟨b &&& b'⟩, ⟨c &&& c'⟩, ⟨d &&& d'⟩⟩ := by
  have hand : (a ++ b ++ c ++ d) &&& (a' ++ b' ++ c' ++ d') =
      (a &&& a') ++ (b &&& b') ++ (c &&& c') ++ (d &&& d') := by
    rw [BitVec.and_append, BitVec.and_append, BitVec.and_append]
  exact (congrArg addrOf hand).trans (addrOf_append _ _ _ _)

theorem addrOf_or_not (a b c d a' b' c' d' : BitVec 8) :
    addrOf ((a ++ b ++ c ++ d) ||| ~~~(a' ++ b' ++ c' ++ d')) =
      ⟨⟨a ||| ~~~a'⟩, ⟨b ||| ~~~b'⟩, ⟨c ||| ~~~c'⟩, ⟨d ||| ~~~d'⟩⟩ := by
  have hor : (a ++ b ++ c ++ d) ||| ~~~(a' ++ b' ++ c' ++ d') =
      (a ||| ~~~a') ++ (b ||| ~~~b') ++ (c ||| ~~~c') ++ (d ||| ~~~d') := by
    rw [BitVec.not_append, BitVec.not_append, BitVec.not_append, BitVec.or_append,
      BitVec.or_append, BitVec.or_append]
  exact (congrArg addrOf hor).trans (addrOf_append _ _ _ _)

theorem unword_and : unword mc (word mc x &&& word mc y) = addrOf (value x &&& value y) := by
  unfold unword word value
  by_cases hend : mc.bigEndian = true
  · simp only [hend, ↓reduceIte]
  · simp only [hend, Bool.false_eq_true, ↓reduceIte, addrOf_and]

theorem unword_or_not :
    unword mc (word mc x ||| ~~~(word mc y)) = addrOf (value x ||| ~~~(value y)) := by
  unfold unword word value
  by_cases hend : mc.bigEndian = true
  · simp only [hend, ↓reduceIte]
  · simp only [hend, Bool.false_eq_true, ↓reduceIte, addrOf_or_not]

theorem value_addrOf (w : BitVec 32) : value (addrOf w) = w := by
  have hlt := w.isLt
  apply BitVec.eq_of_toNat_eq
  rw [value, toNat_append4]
  change (w >>> 24).toNat % 2 ^ 8 * 2 ^ 24 + (w >>> 16).toNat % 2 ^ 8 * 2 ^ 16 +
    (w >>> 8).toNat % 2 ^ 8 * 2 ^ 8 + w.toNat % 2 ^ 8 = w.toNat
  simp only [BitVec.toNat_ushiftRight, Nat.shiftRight_eq_div_pow]
  omega

theorem word_unword (w : BitVec 32) : word mc (unword mc w) = w := by
  unfold word unword
  by_cases hend : mc.bigEndian = true
  · rw [if_pos hend, if_pos hend]
    exact value_addrOf w
  · rw [if_neg hend, if_neg hend]
    exact value_addrOf w

theorem word_eq_zero : word mc ⟨0, 0, 0, 0⟩ = 0#32 := by
  unfold word
  split_ifs <;> decide

/-- `ntohl` makes the number of a word the number of the address. -/
theorem ntohl_unpackI : ntohl mc (unpackI mc x) = (value x).toNat := by
  have ha := x.a.toBitVec.isLt
  have hb := x.b.toBitVec.isLt
  have hc := x.c.toBitVec.isLt
  have hd := x.d.toBitVec.isLt
  simp only [ntohl, unpackI, word, value]
  split_ifs
  · rfl
  · simp only [toNat_append4]
    omega

theorem lor_lnot (m n : ℕ) : Int.lor m (Int.lnot n) = Int.negSucc (Nat.ldiff n m) := rfl

theorem ofInt_bcaddr (v w : BitVec 32) :
    BitVec.ofInt 32 (Int.lor v.toNat (Int.lnot w.toNat)) = v ||| ~~~w := by
  rw [lor_lnot, BitVec.ofInt_negSucc_eq_not_ofNat]
  apply BitVec.eq_of_getLsbD_eq
  intro i hi
  have hbit : (Nat.ldiff w.toNat v.toNat).testBit i = (w.getLsbD i && !v.getLsbD i) :=
    Nat.testBit_ldiff _ _ _
  rw [BitVec.getLsbD_not, BitVec.getLsbD_ofNat, hbit, BitVec.getLsbD_or, BitVec.getLsbD_not]
  cases v.getLsbD i <;> cases w.getLsbD i <;> simp [hi]

theorem land_toNat (v w : BitVec 32) :
    Int.land v.toNat w.toNat = (v &&& w).toNat := rfl

end Words

section Calc
variable (py : Interpreter) (mc : Machine) (ip nm : Dotted)

theorem packNetI_toNat (v : BitVec 32) : packNetI py v.toNat = .ok (addrOf v) := by
  have hlt := v.isLt
  rw [packNetI, if_pos (Or.inl ⟨by omega, by omega⟩), BitVec.ofInt_natCast, BitVec.ofNat_toNat,
    BitVec.setWidth_eq]

theorem inetPton_eq : inetPton ip.text = .ok ip.addr := by
  rw [inetPton, ip.parsed]

theorem bcaddr_neg (m n : ℕ) : Int.lor m (Int.lnot n) < 0 := by
  rw [lor_lnot]
  exact Int.negSucc_lt_zero _

theorem inetCalcNetBroad_eq : inetCalcNetBroad py mc ip.text nm.text =
    if py.wraps then
      .ok (inetNtop4 (network ip.addr nm.addr), inetNtop4 (broadcast ip.addr nm.addr))
    else .error .structError := by
  have hnet : packNetI py (Int.land (value ip.addr).toNat (value nm.addr).toNat) =
      .ok (network ip.addr nm.addr) := by
    rw [land_toNat, packNetI_toNat, network]
  have hland : Int.land (value ip.addr).toNat (value nm.addr).toNat =
      (value (network ip.addr nm.addr)).toNat := by
    rw [land_toNat, network, value_addrOf]
  have hbc : packNetI py (Int.lor (value (network ip.addr nm.addr)).toNat
      (Int.lnot (value nm.addr).toNat)) =
      if py.wraps then .ok (broadcast ip.addr nm.addr) else .error .structError := by
    have hneg := bcaddr_neg (value (network ip.addr nm.addr)).toNat (value nm.addr).toNat
    have hcond : ∀ p : Prop, ((0 ≤ Int.lor (value (network ip.addr nm.addr)).toNat
        (Int.lnot (value nm.addr).toNat) ∧ p) ∨ py.wraps = true) ↔ py.wraps = true := by
      intro p
      refine ⟨?_, Or.inr⟩
      rintro (⟨hnonneg, _⟩ | hwraps)
      · omega
      · exact hwraps
    rw [packNetI, ofInt_bcaddr, broadcast]
    simp only [hcond]
  unfold inetCalcNetBroad
  rw [inetPton_eq, inetPton_eq]
  simp only [bind, Except.bind, ntohl_unpackI, hnet]
  rw [hland, hbc]
  cases py.wraps <;> rfl

theorem missingPieces_eq (iface : Iface) (hzero : iface.broadcast = ⟨0, 0, 0, 0⟩) :
    missingPieces mc iface = (network iface.ipaddr iface.netmask,
      { iface with broadcast := broadcast iface.ipaddr iface.netmask }) := by
  have hand := unword_and mc iface.ipaddr iface.netmask
  have hword : word mc (network iface.ipaddr iface.netmask) =
      word mc iface.ipaddr &&& word mc iface.netmask := by
    rw [network, ← hand, word_unword]
  rw [missingPieces, hzero, if_pos (word_eq_zero mc), hand, ← hword, unword_or_not, ← network,
    ← broadcast]

/-- The number of the broadcast address is negative, so the function fails on every address and
mask where the interpreter checks the range. -/
theorem inetCalcNetBroad_right_iff : CalcRight py mc ip nm ↔ py.wraps = true := by
  rw [CalcRight, inetCalcNetBroad_eq]
  constructor
  · rintro ⟨hcalc, -⟩
    by_contra hwraps
    rw [if_neg hwraps] at hcalc
    cases hcalc
  · intro hwraps
    rw [if_pos hwraps]
    refine ⟨rfl, ?_⟩
    intro iface hip hnm hzero
    rw [missingPieces_eq mc iface hzero, hip, hnm]

/-- `192.168.1.10` with the mask `255.255.255.0`. -/
theorem inetCalcNetBroad_python27 :
    ¬ CalcRight python27 ⟨false, true⟩
      ⟨inetNtop4 ⟨192, 168, 1, 10⟩, ⟨192, 168, 1, 10⟩, inetPton4_inetNtop4 _⟩
      ⟨inetNtop4 ⟨255, 255, 255, 0⟩, ⟨255, 255, 255, 0⟩, inetPton4_inetNtop4 _⟩ := by
  rintro ⟨hcalc, -⟩
  rw [inetCalcNetBroad_eq] at hcalc
  cases hcalc

end Calc
end Comodoo.NetBroadcast
