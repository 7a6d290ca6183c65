import Comodoo.FtpReply

set_option autoImplicit false

/-!
# One scan of the reply buffer

The scan of a buffer of whole lines, with or without an unfinished line behind them.
-/
namespace Comodoo.FtpScan
open CString ByteMemory FtpResponse FtpReply

theorem nextStop_append (buf : Mem) (s : Str) (b : UInt8) (a fuel : ℕ)
    (h : Holds buf a (s ++ [b])) (hs : LF ∉ s ∧ (0 : UInt8) ∉ s) (hb : b = LF ∨ b = 0)
    (hf : s.length < fuel) : nextStop buf fuel a = a + s.length := by
  induction s generalizing a fuel with
  | nil =>
    cases fuel with
    | zero => simp at hf
    | succ fuel => simp [nextStop, h.1, hb]
  | cons c s ih =>
    cases fuel with
    | zero => simp at hf
    | succ fuel =>
      simp only [List.mem_cons, not_or] at hs
      simp only [List.length_cons] at hf ⊢
      have hc : ¬ (buf a = LF ∨ buf a = 0) := by
        rw [h.1]
        rintro (h0 | h0)
        · exact hs.1.1 h0.symm
        · exact hs.2.1 h0.symm
      rw [nextStop, if_neg hc, ih (a + 1) fuel h.2 ⟨hs.1.2, hs.2.2⟩ (by omega)]
      omega

theorem cutLine_below (buf : Mem) (p i : ℕ) (h : i + 1 < p ∨ p < i) : cutLine buf p i = buf i := by
  simp only [cutLine]
  split
  · rw [Function.update_of_ne (by omega), Function.update_of_ne (by omega)]
  · rw [Function.update_of_ne (by omega)]

theorem holds_cutLine (buf : Mem) (t : Str) (a : ℕ) (ht : t ≠ [])
    (h : Holds buf a (t ++ [LF])) :
    Holds (cutLine buf (a + t.length)) a (text t ++ [0]) := by
  have hpos : 0 < t.length := List.length_pos_of_ne_nil ht
  have hdrop : t.dropLast ++ [t.getLast ht] = t := List.dropLast_append_getLast ht
  have hlen : t.dropLast.length + 1 = t.length := by rw [List.length_dropLast]; omega
  obtain ⟨hT, -⟩ := (holds_append buf a t [LF]).mp h
  have hT' := hT
  rw [← hdrop, holds_append] at hT'
  have hlast : buf (a + t.length - 1) = t.getLast ht := by
    rw [show a + t.length - 1 = a + t.dropLast.length by omega]
    exact hT'.2.1
  have hsame : Function.update buf (a + t.length) 0 (a + t.length - 1) = t.getLast ht := by
    rw [Function.update_of_ne (by omega), hlast]
  rw [text, List.getLast?_eq_some_getLast ht]
  by_cases hcr : t.getLast ht = CR
  · rw [if_pos (by rw [hcr]), cutLine, if_pos (by rw [hsame, hcr]), holds_append]
    refine ⟨holds_congr ?_ hT'.1, ?_, trivial⟩
    · intro i hi hlt
      rw [Function.update_of_ne (by omega), Function.update_of_ne (by omega)]
    · rw [show a + t.dropLast.length = a + t.length - 1 by omega, Function.update_self]
  · rw [if_neg (by simpa using hcr), cutLine, if_neg (by rwa [hsame]), holds_append]
    refine ⟨holds_congr ?_ hT, ?_, trivial⟩
    · intro i hi hlt
      rw [Function.update_of_ne (by omega)]
    · rw [Function.update_self]

theorem cutLine_zero (buf : Mem) (p : ℕ) : cutLine buf p p = 0 := by
  unfold cutLine
  split
  · by_cases hp : p = p - 1
    · rw [← hp, Function.update_self]
    · rw [Function.update_of_ne hp, Function.update_self]
  · exact Function.update_self _ _ _

theorem cutLine_eq_store (buf : Mem) (t : Str) (a : ℕ) (ht : t ≠ []) (h : Holds buf a (t ++ [LF])) :
    cutLine buf (a + t.length) = store buf a (cut t) := by
  have hpos : 0 < t.length := List.length_pos_of_ne_nil ht
  have hheld := holds_cutLine buf t a ht h
  obtain ⟨tail, htail, hshort⟩ := text_append t
  have hlen : t.length = (text t).length + tail.length := by
    rw [← List.length_append, ← htail]
  refine eq_store ?_ (fun i hi => cutLine_below buf _ i ?_)
  · by_cases hcr : tail = []
    · rw [hcr, List.length_nil, Nat.add_zero] at hlen
      rw [hlen] at hheld ⊢
      rw [cut, hlen, Nat.add_sub_cancel_left]
      exact hheld
    · have hone : tail.length = 1 := by
        have := List.length_pos_of_ne_nil hcr
        omega
      rw [cut, hlen, hone, show (text t).length + 1 + 1 - (text t).length = 2 by omega,
        show List.replicate 2 (0 : UInt8) = [0] ++ [0] from rfl, ← List.append_assoc, holds_append]
      refine ⟨by rwa [hlen, hone] at hheld, ?_, trivial⟩
      rw [List.length_append, List.length_singleton]
      exact cutLine_zero buf _
  · rw [length_cut] at hi
    omega

theorem holds_fourth {m : Mem} {a : ℕ} {t : Str} (h : Holds m a (t ++ [0])) (ht : 3 ≤ t.length)
    (b : UInt8) (hb : b ≠ 0) : m (a + 3) = b ↔ t[3]? = some b := by
  have hget := holds_get h 3 (by rw [List.length_append, List.length_singleton]; omega)
  rw [hget]
  by_cases h3 : 3 < t.length
  · rw [List.getElem_append_left h3, List.getElem?_eq_getElem h3, Option.some.injEq]
  · rw [List.getElem_append_right (by omega), List.getElem?_eq_none (by omega)]
    simp [Ne.symm hb]

/-- What is known of `errorCode` when the line `t` comes up. -/
def CodeFits (code t : Str) : Prop := (code = [] → 3 ≤ t.length) ∧ (code ≠ [] → code.length = 3)

theorem lineStep_code {s : Str × Bool} {t : Str} (h : CodeFits s.1 t) :
    (lineStep s t).1.length = 3 := by
  by_cases hs : s.1 = []
  · have := h.1 hs
    rw [lineStep, if_neg (by simpa using hs)]
    split <;> (simp only [List.length_take]; omega)
  · rw [lineStep, if_pos hs]
    split <;> exact h.2 hs

theorem checkLine_text (r : Response) (a : ℕ) (t : Str) (h : Holds r.buf a (t ++ [0]))
    (h0 : (0 : UInt8) ∉ t) (hb : a + t.length ≤ BUFFER_SIZE) (hfits : CodeFits r.errorCode t) :
    checkLine r a = some { r with
      errorCode := (lineStep (r.errorCode, r.doesContinue) t).1,
      doesContinue := (lineStep (r.errorCode, r.doesContinue) t).2 } := by
  have hstr : strn r.buf a 3 = t.take 3 := strn_of_holds r.buf a 3 t h h0
  rw [checkLine, hstr, lineStep]
  by_cases hcode : r.errorCode = []
  · have hlen := hfits.1 hcode
    have hdash := holds_fourth h hlen dash (by decide)
    have hin : ¬ BUFFER_SIZE < a + 3 := by omega
    by_cases hd : t[3]? = some dash
    · simp [hcode, hin, hd, hdash.mpr hd]
    · simp [hcode, hin, hd, mt hdash.mp hd]
  · rw [if_pos hcode, if_pos hcode]
    by_cases heq : t.take 3 = r.errorCode
    · have hlen : 3 ≤ t.length := by
        have := hfits.2 hcode
        rw [← heq, List.length_take] at this
        omega
      have hblank := holds_fourth h hlen blank (by decide)
      rw [if_pos heq, if_neg (by omega)]
      by_cases hbl : t[3]? = some blank
      · rw [if_pos (hblank.mpr hbl), if_pos (by simp [closes, heq, hbl])]
      · rw [if_neg (fun hm => hbl (hblank.mp hm)), if_neg (by simp [closes, hbl])]
    · rw [if_neg heq, if_neg (by simp [closes, heq])]

theorem holds_text {m : Mem} {a : ℕ} {t : Str} (h : Holds m a (cut t)) :
    Holds m a (text t ++ [0]) := by
  obtain ⟨tail, htail, -⟩ := text_append t
  have hlen := congrArg List.length htail
  rw [List.length_append] at hlen
  rw [cut, show t.length + 1 - (text t).length = tail.length + 1 by omega, List.replicate_succ,
    ← List.singleton_append, ← List.append_assoc, holds_append] at h
  exact h.1

theorem scanLines_line (r : Response) (a : ℕ) (t : Str) (h : Holds r.buf a (t ++ [LF]))
    (ht : LineOk t) (hb : a + t.length < BUFFER_SIZE) (hfits : CodeFits r.errorCode (text t)) :
    ∃ r', (r'.errorCode, r'.doesContinue) = lineStep (r.errorCode, r.doesContinue) (text t) ∧
      r'.str = some a ∧ r'.buf = store r.buf a (cut t) ∧
      ∀ fuel, scanLines (fuel + 1) r a a =
        if r.buf (a + t.length + 1) ≠ 0 then
          scanLines fuel r' (a + t.length + 1) (a + t.length + 1)
        else some (r', a + t.length + 1, a + t.length + 1) := by
  obtain ⟨hne, hlf, h0⟩ := ht
  have hpos : 0 < t.length := List.length_pos_of_ne_nil hne
  have hcut := holds_cutLine r.buf t a hne h
  obtain ⟨tail, htail, -⟩ := text_append t
  have hlen : (text t).length ≤ t.length := by
    have := congrArg List.length htail
    rw [List.length_append] at this
    omega
  have h0' : (0 : UInt8) ∉ text t := fun hm => h0 (by rw [htail]; simp [hm])
  have hcheck := checkLine_text
    { r with buf := cutLine r.buf (a + t.length), str := some a } a (text t) hcut h0' (by omega)
    hfits
  refine ⟨{ r with
    buf := cutLine r.buf (a + t.length), str := some a,
    errorCode := (lineStep (r.errorCode, r.doesContinue) (text t)).1,
    doesContinue := (lineStep (r.errorCode, r.doesContinue) (text t)).2 }, rfl, rfl,
    cutLine_eq_store r.buf t a hne h, fun fuel => ?_⟩
  have hstop : nextStop r.buf (BUFFER_SIZE + 1 - a) a = a + t.length :=
    nextStop_append r.buf t LF a _ h ⟨hlf, h0⟩ (Or.inl rfl) (by omega)
  have hLF : r.buf (a + t.length) = LF := ((holds_append r.buf a t [LF]).mp h).2.1
  rw [scanLines]
  simp only [hstop, hLF]
  rw [if_neg (by omega), if_pos trivial, if_neg (by omega), hcheck]
  simp only
  rw [if_neg (by omega), cutLine_below _ _ _ (by omega)]

theorem scanLines_wire (rest : List Str) (r : Response) (a : ℕ) (b : UInt8) (hb : b ≠ 0)
    (h : Holds r.buf a (wire rest ++ [b])) (hok : ∀ t ∈ rest, LineOk t)
    (hin : a + (wire rest).length ≤ BUFFER_SIZE)
    (hfits : ∀ t, rest.head? = some t → CodeFits r.errorCode (text t)) :
    ∃ r', (r'.errorCode, r'.doesContinue) =
        (rest.map text).foldl lineStep (r.errorCode, r.doesContinue) ∧
      (rest = [] → r' = r) ∧ (rest ≠ [] → r'.errorCode.length = 3) ∧
      r'.buf = store r.buf a (rest.flatMap cut) ∧
      ∀ fuel, scanLines (fuel + rest.length) r a a =
        scanLines fuel r' (a + (wire rest).length) (a + (wire rest).length) := by
  induction rest generalizing r a with
  | nil => exact ⟨r, rfl, fun _ => rfl, fun hne => absurd rfl hne, rfl, fun _ => rfl⟩
  | cons t rest ih =>
    have hlen : (wire (t :: rest)).length = t.length + 1 + (wire rest).length := by
      simp only [wire_cons, List.length_append, List.length_cons]
      omega
    have ht := hok t (by simp)
    have hsplit : wire (t :: rest) ++ [b] = (t ++ [LF]) ++ (wire rest ++ [b]) := by
      simp [wire_cons]
    rw [hsplit, holds_append] at h
    obtain ⟨r1, hstep, -, hbuf, hscan⟩ := scanLines_line r a t h.1 ht (by omega) (hfits t rfl)
    have hsame : ∀ i, a + t.length < i → r1.buf i = r.buf i := by
      intro i hi
      rw [hbuf]
      exact store_outside _ _ _ _ (Or.inr (by rw [length_cut]; omega))
    have hnext : Holds r.buf (a + t.length + 1) (wire rest ++ [b]) := by
      have := h.2
      rwa [List.length_append, List.length_singleton, ← Nat.add_assoc] at this
    have hcode : r1.errorCode.length = 3 := by
      have hfst : r1.errorCode = (lineStep (r.errorCode, r.doesContinue) (text t)).1 :=
        congrArg Prod.fst hstep
      rw [hfst]
      exact lineStep_code (hfits t rfl)
    obtain ⟨r', hfold, hnil, hcons, hbuf', hscan'⟩ := ih r1 (a + t.length + 1)
      (holds_congr (fun i hi _ => hsame i (by omega)) hnext)
      (fun x hx => hok x (by simp [hx])) (by omega)
      (fun x _ => ⟨fun hnil => by simp [hnil] at hcode, fun _ => hcode⟩)
    refine ⟨r', ?_, by simp, fun _ => ?_, ?_, fun fuel => ?_⟩
    · rw [hfold, hstep, List.map_cons, List.foldl_cons]
    · by_cases hrest : rest = []
      · rw [hnil hrest, hcode]
      · exact hcons hrest
    · rw [hbuf', hbuf, List.flatMap_cons, store_append, length_cut, Nat.add_assoc a t.length 1]
    · -- the next byte is the first of the next line, or `b`
      have hnz : r.buf (a + t.length + 1) ≠ 0 := by
        cases rest with
        | nil =>
          rw [hnext.1]
          exact hb
        | cons u rest =>
          have hu := hok u (by simp)
          cases u with
          | nil => exact absurd rfl hu.1
          | cons c u =>
            rw [wire_cons] at hnext
            rw [hnext.1]
            exact fun hc => hu.2.2 (by simp [hc])
      rw [List.length_cons, ← Nat.add_assoc, hscan, if_pos hnz, hscan' fuel, hlen]
      simp only [Nat.add_assoc]

/-- What one scan leaves behind: the lines are digested and cut. -/
structure Scanned (r r' : Response) (a : ℕ) (rest : List Str) (p : Str) : Prop where
  state : (r'.errorCode, r'.doesContinue) =
    (rest.map text).foldl lineStep (r.errorCode, r.doesContinue)
  mem : r'.buf = store r.buf a (rest.flatMap cut)
  str : ∀ last, (rest.map text).getLast? = some last →
    p = [] → ∃ s, r'.str = some s ∧ Holds r'.buf s (last ++ [0])

theorem Scanned.outside {r r' : Response} {a : ℕ} {rest : List Str} {p : Str}
    (h : Scanned r r' a rest p) (i : ℕ) (hi : a + (wire rest).length ≤ i) :
    r'.buf i = r.buf i := by
  rw [h.mem]
  exact store_outside _ _ _ _ (Or.inr (by rwa [length_flatMap_cut]))

theorem scanLines_unfinished (rest : List Str) (p : Str) (r : Response) (a fuel : ℕ)
    (hp : p ≠ []) (hlf : LF ∉ p) (h0 : (0 : UInt8) ∉ p)
    (h : Holds r.buf a (wire rest ++ p ++ [0])) (hok : ∀ t ∈ rest, LineOk t)
    (hin : a + (wire rest).length + p.length < BUFFER_SIZE)
    (hfits : ∀ t, rest.head? = some t → CodeFits r.errorCode (text t))
    (hnul : r.buf (a + (wire rest).length + p.length + 1) = 0) :
    ∃ r', Scanned r r' a rest p ∧ scanLines (fuel + 1 + rest.length) r a a =
      some (r', a + (wire rest).length + p.length + 1, a + (wire rest).length) := by
  rw [List.append_assoc, holds_append] at h
  obtain ⟨hw, hpz⟩ := h
  have hb : ∃ b q, p = b :: q := List.exists_cons_of_ne_nil hp
  obtain ⟨b, q, rfl⟩ := hb
  have hw1 : Holds r.buf a (wire rest ++ [b]) :=
    (holds_append _ _ _ _).mpr ⟨hw, hpz.1, trivial⟩
  obtain ⟨r', hstate, -, -, hbuf, hscan⟩ := scanLines_wire rest r a b (fun hb => h0 (by simp [hb])) hw1
    hok (by omega) hfits
  have hs : Scanned r r' a rest (b :: q) := ⟨hstate, hbuf, by simp⟩
  have hpz' : Holds r'.buf (a + (wire rest).length) ((b :: q) ++ [0]) :=
    holds_congr (fun i hi _ => hs.outside i hi) hpz
  have hp' := (holds_append _ _ _ _).mp hpz'
  refine ⟨r', hs, ?_⟩
  rw [hscan, scanLines]
  have hstop := nextStop_append r'.buf (b :: q) 0 _ (BUFFER_SIZE + 1 - (a + (wire rest).length))
    hpz' ⟨hlf, h0⟩ (Or.inr rfl) (by omega)
  simp only [hstop]
  rw [if_neg (by omega), hp'.2.1, if_neg (by decide), if_neg (by omega), if_neg ?_]
  rw [hs.outside _ (by omega), hnul]
  simp

theorem scanLines_stale (rest : List Str) (p junk : Str) (r : Response) (a fuel : ℕ)
    (hp : p ≠ []) (hj : junk ≠ []) (hlf : LF ∉ p ∧ LF ∉ junk)
    (h0 : (0 : UInt8) ∉ p ∧ (0 : UInt8) ∉ junk) (hw : Holds r.buf a (wire rest ++ p ++ [0]))
    (hs : Holds r.buf (a + (wire rest).length + p.length + 1) (junk ++ [0]))
    (hok : ∀ t ∈ rest, LineOk t)
    (hin : a + (wire rest).length + p.length + 1 + junk.length = BUFFER_SIZE)
    (hfits : ∀ t, rest.head? = some t → CodeFits r.errorCode (text t)) :
    scanLines (fuel + 2 + rest.length) r a a = none := by
  rw [List.append_assoc, holds_append] at hw
  obtain ⟨hw, hpz⟩ := hw
  obtain ⟨b, q, rfl⟩ := List.exists_cons_of_ne_nil hp
  obtain ⟨d, junk, rfl⟩ := List.exists_cons_of_ne_nil hj
  have hw1 : Holds r.buf a (wire rest ++ [b]) :=
    (holds_append _ _ _ _).mpr ⟨hw, hpz.1, trivial⟩
  obtain ⟨r', -, -, -, hbuf, hscan⟩ := scanLines_wire rest r a b
    (fun hb => h0.1 (by simp [hb])) hw1 hok (by omega) hfits
  have hsame : ∀ i, a + (wire rest).length ≤ i → r'.buf i = r.buf i := by
    intro i hi
    rw [hbuf]
    exact store_outside _ _ _ _ (Or.inr (by rwa [length_flatMap_cut]))
  have hpz' := holds_congr (fun i hi _ => hsame i hi) hpz
  have hz := ((holds_append _ _ _ _).mp hpz').2.1
  have hs' : Holds r'.buf (a + (wire rest).length + (b :: q).length + 1) (d :: junk ++ [0]) :=
    holds_congr (fun i hi _ => hsame i (by omega)) hs
  have hz' := ((holds_append _ _ _ _).mp hs').2.1
  have hd : r'.buf (a + (wire rest).length + (b :: q).length + 1) ≠ 0 := by
    rw [hs'.1]
    exact fun hd => h0.2 (by simp [hd])
  have hstop := nextStop_append r'.buf (b :: q) 0 _ (BUFFER_SIZE + 1 - (a + (wire rest).length))
    hpz' ⟨hlf.1, h0.1⟩ (Or.inr rfl) (by omega)
  have hstop' := nextStop_append r'.buf (d :: junk) 0 _
    (BUFFER_SIZE + 1 - (a + (wire rest).length + (b :: q).length + 1)) hs' ⟨hlf.2, h0.2⟩
    (Or.inr rfl) (by omega)
  rw [hscan, scanLines]
  simp only [hstop]
  rw [if_neg (by omega), hz, if_neg (by decide), if_neg (by omega), if_pos hd, scanLines]
  simp only [hstop']
  rw [if_neg (by omega), hz', if_neg (by decide), if_pos (by omega)]

theorem scanLines_complete (rest : List Str) (r : Response) (a fuel : ℕ) (hne : rest ≠ [])
    (h : Holds r.buf a (wire rest ++ [0])) (hok : ∀ t ∈ rest, LineOk t)
    (hin : a + (wire rest).length ≤ BUFFER_SIZE)
    (hfits : ∀ t, rest.head? = some t → CodeFits r.errorCode (text t)) :
    ∃ r', Scanned r r' a rest [] ∧ scanLines (fuel + rest.length) r a a =
      some (r', a + (wire rest).length, a + (wire rest).length) := by
  obtain ⟨init, t, rfl⟩ : ∃ init t, rest = init ++ [t] :=
    ⟨rest.dropLast, rest.getLast hne, (List.dropLast_append_getLast hne).symm⟩
  have ht := hok t (by simp)
  have hlen : (wire (init ++ [t])).length = (wire init).length + t.length + 1 := by
    simp only [wire_append, wire_cons, List.length_append, List.length_cons]
    simp [wire]
    omega
  have hsplit : wire (init ++ [t]) ++ [0] = wire init ++ ((t ++ [LF]) ++ [0]) := by
    simp [wire]
  rw [hsplit, holds_append, holds_append] at h
  obtain ⟨hw, htl, hz, -⟩ := h
  obtain ⟨b, q, hbq⟩ := List.exists_cons_of_ne_nil ht.1
  have hw1 : Holds r.buf a (wire init ++ [b]) := by
    rw [hbq] at htl
    exact (holds_append _ _ _ _).mpr ⟨hw, htl.1, trivial⟩
  have hinit : ∀ x, init.head? = some x → CodeFits r.errorCode (text x) := by
    intro x hx
    apply hfits x
    simp [hx]
  obtain ⟨r1, hstate, hnil, hcons, hbuf, hscan⟩ := scanLines_wire init r a b
    (fun hb => ht.2.2 (by simp [hbq, hb])) hw1 (fun x hx => hok x (by simp [hx])) (by omega) hinit
  have hsame : ∀ i, a + (wire init).length ≤ i → r1.buf i = r.buf i := by
    intro i hi
    rw [hbuf]
    exact store_outside _ _ _ _ (Or.inr (by rwa [length_flatMap_cut]))
  have hfits1 : CodeFits r1.errorCode (text t) := by
    by_cases hi : init = []
    · rw [hnil hi]
      exact hfits t (by simp [hi])
    · exact ⟨fun h0 => by simp [h0] at hcons; exact absurd hcons hi, fun _ => hcons hi⟩
  obtain ⟨r', hstep, hstr, hbuf', hscan'⟩ := scanLines_line r1 (a + (wire init).length) t
    (holds_congr (fun i hi _ => hsame i hi) htl) ht (by omega) hfits1
  refine ⟨r', ⟨?_, ?_, ?_⟩, ?_⟩
  · rw [hstep, hstate, List.map_append, List.foldl_append]
    rfl
  · rw [hbuf', hbuf, List.flatMap_append, store_append, length_flatMap_cut, List.flatMap_singleton]
  · intro last hlast _
    rw [List.map_append, List.map_singleton, List.getLast?_concat, Option.some.injEq] at hlast
    refine ⟨_, hstr, hlast ▸ holds_text ?_⟩
    rw [hbuf']
    exact holds_store _ _ _
  · have hfuel : fuel + (init ++ [t]).length = (fuel + 1) + init.length := by
      rw [List.length_append, List.length_singleton]
      omega
    have hzero : r1.buf (a + (wire init).length + t.length + 1) = 0 := by
      rw [hsame _ (by omega), ← hz]
      simp [Nat.add_assoc]
    rw [hfuel, hscan, hscan', if_neg (by simpa using hzero), hlen]
    simp only [Nat.add_assoc]

end Comodoo.FtpScan
