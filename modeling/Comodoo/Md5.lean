import Comodoo.IsoImage

set_option autoImplicit false

/-!
# MD5

`isomd5sum/md5.c` on a little-endian machine.
-/
namespace Comodoo.Md5
open CString IsoImage

structure Buf where
  a : UInt32
  b : UInt32
  c : UInt32
  d : UInt32
deriving DecidableEq, Repr

structure MD5Context where
  buf : Buf
  bits : UInt32 × UInt32
  input : Str

/-- What the 64 input bytes are at first is never looked at. -/
def MD5_Init : MD5Context :=
  ⟨⟨0x67452301, 0xefcdab89, 0x98badcfe, 0x10325476⟩, (0, 0), List.replicate 64 0⟩

def F1 (x y z : UInt32) : UInt32 := z ^^^ (x &&& (y ^^^ z))
def F2 (x y z : UInt32) : UInt32 := F1 z x y
def F3 (x y z : UInt32) : UInt32 := x ^^^ y ^^^ z
def F4 (x y z : UInt32) : UInt32 := y ^^^ (x ||| ~~~z)

def MD5STEP (f : UInt32 → UInt32 → UInt32 → UInt32) (w x y z data s : UInt32) : UInt32 :=
  let w := w + (f x y z + data)
  let w := w <<< s ||| w >>> (32 - s)
  w + x

/-- Each round names its words in the order in which it takes them, and has four shifts. -/
structure Round where
  f : UInt32 → UInt32 → UInt32 → UInt32
  shifts : List UInt32
  data : List (ℕ × UInt32)

def rounds : List Round :=
  [⟨F1, [7, 12, 17, 22],
    [(0, 0xd76aa478), (1, 0xe8c7b756), (2, 0x242070db), (3, 0xc1bdceee),
     (4, 0xf57c0faf), (5, 0x4787c62a), (6, 0xa8304613), (7, 0xfd469501),
     (8, 0x698098d8), (9, 0x8b44f7af), (10, 0xffff5bb1), (11, 0x895cd7be),
     (12, 0x6b901122), (13, 0xfd987193), (14, 0xa679438e), (15, 0x49b40821)]⟩,
   ⟨F2, [5, 9, 14, 20],
    [(1, 0xf61e2562), (6, 0xc040b340), (11, 0x265e5a51), (0, 0xe9b6c7aa),
     (5, 0xd62f105d), (10, 0x02441453), (15, 0xd8a1e681), (4, 0xe7d3fbc8),
     (9, 0x21e1cde6), (14, 0xc33707d6), (3, 0xf4d50d87), (8, 0x455a14ed),
     (13, 0xa9e3e905), (2, 0xfcefa3f8), (7, 0x676f02d9), (12, 0x8d2a4c8a)]⟩,
   ⟨F3, [4, 11, 16, 23],
    [(5, 0xfffa3942), (8, 0x8771f681), (11, 0x6d9d6122), (14, 0xfde5380c),
     (1, 0xa4beea44), (4, 0x4bdecfa9), (7, 0xf6bb4b60), (10, 0xbebfbc70),
     (13, 0x289b7ec6), (0, 0xeaa127fa), (3, 0xd4ef3085), (6, 0x04881d05),
     (9, 0xd9d4d039), (12, 0xe6db99e5), (15, 0x1fa27cf8), (2, 0xc4ac5665)]⟩,
   ⟨F4, [6, 10, 15, 21],
    [(0, 0xf4292244), (7, 0x432aff97), (14, 0xab9423a7), (5, 0xfc93a039),
     (12, 0x655b59c3), (3, 0x8f0ccc92), (10, 0xffeff47d), (1, 0x85845dd1),
     (8, 0x6fa87e4f), (15, 0xfe2ce6e0), (6, 0xa3014314), (13, 0x4e0811a1),
     (4, 0xf7537e82), (11, 0xbd3af235), (2, 0x2ad7d2bb), (9, 0xeb86d391)]⟩]

def longword (input : Str) (i : ℕ) : UInt32 :=
  UInt32.ofNat ((input.getD (4 * i) 0).toNat + (input.getD (4 * i + 1) 0).toNat * 0x100 +
    (input.getD (4 * i + 2) 0).toNat * 0x10000 + (input.getD (4 * i + 3) 0).toNat * 0x1000000)

def longwordBytes (w : UInt32) : Str :=
  [w.toUInt8, (w >>> 8).toUInt8, (w >>> 16).toUInt8, (w >>> 24).toUInt8]

/-- The word that a step alters comes last in the next one's turn. -/
def steps (f : UInt32 → UInt32 → UInt32 → UInt32) (input : Str) :
    List (UInt32 × ℕ × UInt32) → Buf → Buf
  | [], buf => buf
  | (s, i, t) :: rest, buf =>
    let w := MD5STEP f buf.a buf.b buf.c buf.d (longword input i + t) s
    steps f input rest ⟨buf.d, w, buf.b, buf.c⟩

def Round.run (input : Str) (buf : Buf) (r : Round) : Buf :=
  steps r.f input ((r.shifts ++ r.shifts ++ r.shifts ++ r.shifts).zip r.data) buf

def MD5_Transform (buf : Buf) (input : Str) : Buf :=
  let r := rounds.foldl (Round.run input) buf
  ⟨buf.a + r.a, buf.b + r.b, buf.c + r.c, buf.d + r.d⟩

/-- `while (len >= 64)`, and what is left after it. The length is fuel. -/
def absorb : ℕ → Buf → Str → Str → Buf × Str
  | 0, buf, input, data => (buf, fill input data)
  | fuel + 1, buf, input, data =>
    if 64 ≤ data.length then
      absorb fuel (MD5_Transform buf (data.take 64)) (data.take 64) (data.drop 64)
    else (buf, fill input data)

def addBits (bits : UInt32 × UInt32) (len : UInt32) : UInt32 × UInt32 :=
  let low := bits.1 + (len <<< 3)
  (low, (if low < bits.1 then bits.2 + 1 else bits.2) + (len >>> 29))

def MD5_Update (ctx : MD5Context) (data : Str) : MD5Context :=
  let bits := addBits ctx.bits (UInt32.ofNat data.length)
  let t := ctx.bits.1.toNat / 8 % 64
  if t ≠ 0 then
    if data.length < 64 - t then ⟨ctx.buf, bits, writeAt ctx.input t data⟩
    else
      let input := writeAt ctx.input t (data.take (64 - t))
      let rest := data.drop (64 - t)
      let (buf, input) := absorb rest.length (MD5_Transform ctx.buf input) input rest
      ⟨buf, bits, input⟩
  else
    let (buf, input) := absorb data.length ctx.buf ctx.input data
    ⟨buf, bits, input⟩

/-- The bytes of the four words as they lie in memory. -/
def digestOf (buf : Buf) : Vector UInt8 16 :=
  let digest := longwordBytes buf.a ++ longwordBytes buf.b ++ longwordBytes buf.c ++
    longwordBytes buf.d
  Vector.ofFn fun i : Fin 16 => digest.getD i 0

def MD5_Final (ctx : MD5Context) : Vector UInt8 16 :=
  let count := ctx.bits.1.toNat / 8 % 64
  let input := writeAt ctx.input count [0x80]
  let left := 64 - 1 - count
  let (buf, input) :=
    if left < 8 then
      let input := writeAt input (count + 1) (List.replicate left 0)
      (MD5_Transform ctx.buf input, writeAt input 0 (List.replicate 56 0))
    else (ctx.buf, writeAt input (count + 1) (List.replicate (left - 8) 0))
  let input := writeAt input 56 (longwordBytes ctx.bits.1 ++ longwordBytes ctx.bits.2)
  digestOf (MD5_Transform buf input)

/-! ## Input in pieces -/

def consume (buf : Buf) (data : Str) : Buf × Str :=
  if 64 ≤ data.length then consume (MD5_Transform buf (data.take 64)) (data.drop 64)
  else (buf, data)
termination_by data.length
decreasing_by
  rw [List.length_drop]
  omega

theorem consume_short {data : Str} (h : data.length < 64) (buf : Buf) :
    consume buf data = (buf, data) := by
  rw [consume, if_neg (by omega)]

theorem consume_block {data : Str} (h : 64 ≤ data.length) (buf : Buf) :
    consume buf data = consume (MD5_Transform buf (data.take 64)) (data.drop 64) := by
  rw [consume, if_pos h]

theorem length_consume (buf : Buf) (data : Str) :
    (consume buf data).2.length = data.length % 64 := by
  induction hn : data.length using Nat.strong_induction_on generalizing buf data with
  | _ n ih =>
    subst hn
    by_cases h : 64 ≤ data.length
    · rw [consume_block h, ih (data.drop 64).length (by rw [List.length_drop]; omega) _ _ rfl,
        List.length_drop]
      omega
    · rw [consume_short (by omega)]
      dsimp only
      omega

theorem consume_append (buf : Buf) (a b : Str) :
    consume buf (a ++ b) = consume (consume buf a).1 ((consume buf a).2 ++ b) := by
  induction hn : a.length using Nat.strong_induction_on generalizing buf a with
  | _ n ih =>
    subst hn
    by_cases h : 64 ≤ a.length
    · rw [consume_block (by rw [List.length_append]; omega), consume_block h,
        List.take_append_of_le_length h, List.drop_append_of_le_length h]
      exact ih (a.drop 64).length (by rw [List.length_drop]; omega) _ _ rfl
    · have hshort := consume_short (Nat.lt_of_not_le h) buf
      rw [hshort]

/-- What an input buffer has to hold in front. -/
def Holds (input rest : Str) : Prop := input.length = 64 ∧ input.take rest.length = rest

theorem holds_fill {input data : Str} (hinput : input.length = 64) (h : data.length < 64) :
    Holds (fill input data) data := by
  constructor
  · unfold fill
    rw [List.length_append, List.length_drop]
    omega
  · exact List.take_left

theorem holds_writeAt {input rest : Str} (h : Holds input rest) (data : Str)
    (hfit : rest.length + data.length ≤ 64) :
    Holds (writeAt input rest.length data) (rest ++ data) := by
  obtain ⟨hinput, hrest⟩ := h
  have hgap : rest.length - input.length = 0 := by omega
  unfold writeAt
  rw [hrest, hgap, List.replicate_zero, List.append_nil]
  constructor
  · rw [List.length_append, List.length_append, List.length_drop]
    omega
  · exact List.take_left

theorem Holds.eq {input rest : Str} (h : Holds input rest) (hfull : rest.length = 64) :
    input = rest := by
  obtain ⟨hinput, hrest⟩ := h
  rw [hfull, ← hinput, List.take_length] at hrest
  exact hrest

theorem absorb_spec {fuel : ℕ} {input data : Str} (hfuel : data.length ≤ fuel)
    (hinput : input.length = 64) (buf : Buf) :
    (absorb fuel buf input data).1 = (consume buf data).1 ∧
      Holds (absorb fuel buf input data).2 (consume buf data).2 := by
  induction fuel generalizing buf input data with
  | zero =>
    have hshort : data.length < 64 := by omega
    rw [absorb, consume_short hshort]
    exact ⟨rfl, holds_fill hinput hshort⟩
  | succ fuel ih =>
    rw [absorb]
    split_ifs with h
    · have hrest : (data.drop 64).length ≤ fuel := by
        rw [List.length_drop]
        omega
      have hblock : (data.take 64).length = 64 := by
        rw [List.length_take]
        omega
      rw [consume_block h]
      exact ih hrest hblock _
    · rw [consume_short (Nat.lt_of_not_le h)]
      exact ⟨rfl, holds_fill hinput (Nat.lt_of_not_le h)⟩

structure Represents (ctx : MD5Context) (data : Str) : Prop where
  buf : ctx.buf = (consume MD5_Init.buf data).1
  bits : ctx.bits.1.toNat + 2 ^ 32 * ctx.bits.2.toNat = 8 * data.length % 2 ^ 64
  input : Holds ctx.input (consume MD5_Init.buf data).2

theorem represents_init : Represents MD5_Init [] := by
  have hempty := consume_short (show ([] : Str).length < 64 by decide) MD5_Init.buf
  constructor
  · rw [hempty]
  · rfl
  · rw [hempty]
    exact ⟨rfl, rfl⟩

theorem addBits_eq {bits : UInt32 × UInt32} {n len : ℕ}
    (h : bits.1.toNat + 2 ^ 32 * bits.2.toNat = 8 * n % 2 ^ 64) (hlen : len < 2 ^ 32) :
    (addBits bits (UInt32.ofNat len)).1.toNat + 2 ^ 32 * (addBits bits (UInt32.ofNat len)).2.toNat =
      8 * (n + len) % 2 ^ 64 := by
  have hlow := bits.1.toNat_lt
  have hhigh := bits.2.toNat_lt
  have hshl : (UInt32.ofNat len <<< 3).toNat = 8 * len % 2 ^ 32 := by
    rw [UInt32.toNat_shiftLeft, UInt32.toNat_ofNat', Nat.mod_eq_of_lt hlen]
    change len <<< 3 % 2 ^ 32 = _
    rw [Nat.shiftLeft_eq]
    omega
  have hshr : (UInt32.ofNat len >>> 29).toNat = len / 2 ^ 29 := by
    rw [UInt32.toNat_shiftRight, UInt32.toNat_ofNat', Nat.mod_eq_of_lt hlen]
    exact Nat.shiftRight_eq_div_pow len 29
  unfold addBits
  dsimp only
  rw [UInt32.toNat_add, hshl]
  split_ifs with hcarry
  · rw [UInt32.lt_iff_toNat_lt, UInt32.toNat_add, hshl] at hcarry
    rw [UInt32.toNat_add, UInt32.toNat_add, hshr]
    change _ + 2 ^ 32 * (((bits.2.toNat + 1) % 2 ^ 32 + _) % 2 ^ 32) = _
    omega
  · rw [UInt32.lt_iff_toNat_lt, UInt32.toNat_add, hshl] at hcarry
    rw [UInt32.toNat_add, hshr]
    omega

theorem Represents.waiting {ctx : MD5Context} {data : Str} (h : Represents ctx data) :
    ctx.bits.1.toNat / 8 % 64 = (consume MD5_Init.buf data).2.length := by
  have hbits := h.bits
  have hlow := ctx.bits.1.toNat_lt
  rw [length_consume]
  omega

/-- "Update context to reflect the concatenation of another buffer full of bytes." -/
theorem represents_update {ctx : MD5Context} {data : Str} (h : Represents ctx data) {more : Str}
    (hlen : more.length < 2 ^ 32) : Represents (MD5_Update ctx more) (data ++ more) := by
  have hbits := addBits_eq h.bits hlen
  have hlt := length_consume MD5_Init.buf data
  have happend := consume_append MD5_Init.buf data more
  rw [← List.length_append] at hbits
  unfold MD5_Update
  dsimp only
  rw [h.waiting]
  split_ifs with hwaiting hshort
  · -- the input buffer does not get full
    have hfit : ((consume MD5_Init.buf data).2 ++ more).length < 64 := by
      rw [List.length_append]
      omega
    rw [consume_short hfit] at happend
    constructor
    · rw [happend]
      exact h.buf
    · exact hbits
    · rw [happend]
      refine holds_writeAt h.input more ?_
      rw [← List.length_append]
      omega
  · -- it is filled up first
    have htake : ((consume MD5_Init.buf data).2 ++
        more.take (64 - (consume MD5_Init.buf data).2.length)).length = 64 := by
      rw [List.length_append, List.length_take]
      omega
    have hfits := List.length_append.symm.trans htake
    have hfull := (holds_writeAt h.input _ hfits.le).eq htake
    have hlong : 64 ≤ ((consume MD5_Init.buf data).2 ++ more).length := by
      rw [List.length_append]
      omega
    have hblock := consume_block hlong (consume MD5_Init.buf data).1
    rw [List.take_append, List.drop_append, List.take_of_length_le (by omega),
      List.drop_of_length_le (by omega), List.nil_append] at hblock
    rw [hblock] at happend
    rw [hfull, h.buf]
    have hrest : (more.drop (64 - (consume MD5_Init.buf data).2.length)).length ≤
        (more.drop (64 - (consume MD5_Init.buf data).2.length)).length := Nat.le_refl _
    have habsorb := absorb_spec hrest htake (MD5_Transform (consume MD5_Init.buf data).1
      ((consume MD5_Init.buf data).2 ++ more.take (64 - (consume MD5_Init.buf data).2.length)))
    rw [← happend] at habsorb
    exact ⟨habsorb.1, hbits, habsorb.2⟩
  · -- nothing waits
    have hnil : (consume MD5_Init.buf data).2 = [] :=
      List.eq_nil_of_length_eq_zero (not_not.mp hwaiting)
    rw [hnil, List.nil_append] at happend
    have habsorb := absorb_spec (Nat.le_refl more.length) h.input.1 ctx.buf
    rw [h.buf, ← happend, ← h.buf] at habsorb
    exact ⟨habsorb.1, hbits, habsorb.2⟩

/-! ## The digest -/

/-- The last block or two, from the bytes that wait. -/
def padded (buf : Buf) (bits : UInt32 × UInt32) (rest : Str) : Buf :=
  let length := longwordBytes bits.1 ++ longwordBytes bits.2
  if 64 - 1 - rest.length < 8 then
    MD5_Transform
      (MD5_Transform buf (rest ++ [0x80] ++ List.replicate (64 - 1 - rest.length) 0))
      (List.replicate 56 0 ++ length)
  else
    MD5_Transform buf
      (rest ++ [0x80] ++ List.replicate (64 - 1 - rest.length - 8) 0 ++ length)

theorem MD5_Final_eq {ctx : MD5Context} {data : Str} (h : Represents ctx data) :
    MD5_Final ctx =
      digestOf (padded ctx.buf ctx.bits (consume MD5_Init.buf data).2) := by
  have hlt : (consume MD5_Init.buf data).2.length < 64 := by
    rw [length_consume]
    exact Nat.mod_lt _ (by decide)
  have hinput := h.input
  have hwaiting := h.waiting
  generalize (consume MD5_Init.buf data).2 = rest at *
  have hone : (rest ++ [0x80]).length = rest.length + 1 := List.length_append
  have hmark := holds_writeAt hinput [0x80] hlt
  have hpad : ∀ k, rest.length + 1 + k ≤ 64 →
      Holds (writeAt (writeAt ctx.input rest.length [0x80]) (rest.length + 1)
        (List.replicate k 0)) (rest ++ [0x80] ++ List.replicate k 0) := by
    intro k hk
    rw [← hone]
    exact holds_writeAt hmark _ (by rw [hone, List.length_replicate]; exact hk)
  have hcount : ∀ {input pad : Str}, Holds input pad → pad.length = 56 →
      writeAt input 56 (longwordBytes ctx.bits.1 ++ longwordBytes ctx.bits.2) =
        pad ++ (longwordBytes ctx.bits.1 ++ longwordBytes ctx.bits.2) := by
    intro input pad hpad' hlen
    have hfit : pad.length + (longwordBytes ctx.bits.1 ++ longwordBytes ctx.bits.2).length = 64 := by
      rw [hlen]
      rfl
    have hlast := (holds_writeAt hpad' _ hfit.le).eq (List.length_append.trans hfit)
    rwa [hlen] at hlast
  unfold MD5_Final padded
  dsimp only
  rw [hwaiting]
  by_cases hleft : 64 - 1 - rest.length < 8
  · -- the length needs a block of its own
    have hfirst := hpad (64 - 1 - rest.length) (by omega)
    have hfull : (rest ++ [0x80] ++ List.replicate (64 - 1 - rest.length) 0).length = 64 := by
      rw [List.length_append, hone, List.length_replicate]
      omega
    have hsecond : Holds (writeAt (rest ++ [0x80] ++ List.replicate (64 - 1 - rest.length) 0) 0
        (List.replicate 56 0)) (List.replicate 56 0) := by
      have hnone : Holds (rest ++ [0x80] ++ List.replicate (64 - 1 - rest.length) 0) [] :=
        ⟨hfull, rfl⟩
      exact holds_writeAt hnone _ (by rw [List.length_replicate]; decide)
    rw [if_pos hleft, if_pos hleft, hfirst.eq hfull]
    dsimp only
    rw [hcount hsecond List.length_replicate]
  · have hfirst := hpad (64 - 1 - rest.length - 8) (by omega)
    rw [if_neg hleft, if_neg hleft]
    dsimp only
    rw [hcount hfirst]
    rw [List.length_append, hone, List.length_replicate]
    omega

theorem MD5_Final_congr {ctx ctx' : MD5Context} {data : Str} (h : Represents ctx data)
    (h' : Represents ctx' data) : MD5_Final ctx = MD5_Final ctx' := by
  have hbits : ctx.bits = ctx'.bits := by
    have hb := h.bits
    have hb' := h'.bits
    have hlow := ctx.bits.1.toNat_lt
    have hlow' := ctx'.bits.1.toNat_lt
    apply Prod.ext
    · rw [← UInt32.toNat_inj]
      omega
    · rw [← UInt32.toNat_inj]
      omega
  rw [MD5_Final_eq h, MD5_Final_eq h', h.buf, h'.buf, hbits]

/-- The hash that the images are hashed with. -/
def md5 : IsoImage.Md5 MD5Context := ⟨MD5_Init, MD5_Update, MD5_Final⟩

theorem represents_pieces {pieces : List Str} (h : ∀ piece ∈ pieces, piece.length < 2 ^ 32)
    {ctx : MD5Context} {data : Str} (hctx : Represents ctx data) :
    Represents (pieces.foldl md5.update ctx) (data ++ pieces.flatten) := by
  induction pieces generalizing ctx data with
  | nil =>
    rw [List.flatten_nil, List.append_nil]
    exact hctx
  | cons piece pieces ih =>
    rw [List.flatten_cons, ← List.append_assoc]
    exact ih (fun p hp => h p (List.mem_cons_of_mem piece hp))
      (represents_update hctx (h piece List.mem_cons_self))

theorem md5_pieces {pieces pieces' : List Str} (h : ∀ piece ∈ pieces, piece.length < 2 ^ 32)
    (h' : ∀ piece ∈ pieces', piece.length < 2 ^ 32) (hsame : pieces.flatten = pieces'.flatten) :
    md5.final (pieces.foldl md5.update md5.init) = md5.final (pieces'.foldl md5.update md5.init) := by
  have hpieces := represents_pieces h represents_init
  have hpieces' := represents_pieces h' represents_init
  rw [← hsame] at hpieces'
  exact MD5_Final_congr hpieces hpieces'

example : sumText (md5.final (md5.update md5.init (ascii "abc"))) =
    ascii "900150983cd24fb0d6963f7d28e17f72" := by decide +kernel

end Comodoo.Md5
