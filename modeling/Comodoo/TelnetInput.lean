import Mathlib.Data.List.GetD
import Mathlib.Tactic.Common

set_option autoImplicit false

/-!
# The telnet input filter

`telnetProcessInput` is `telnet_process_input` of `stage-1/telnet.c`: one pass
with a read index `s` and a write index `d` over the same buffer. `strip` is the
byte automaton it implements on one buffer. The object byte of a three-byte
command is skipped by moving `s`, not by a state, so a buffer that ends after
the verb loses track of it: `processBuffers_agree_iff` says exactly which
streams can be cut without harm.
-/
namespace Comodoo.TelnetInput

inductive TelnetState where
  | data
  | iac
  | sb
  | sbIac
  deriving DecidableEq, Repr

abbrev IAC : UInt8 := 0xff
abbrev SB : UInt8 := 0xfa
abbrev SE : UInt8 := 0xf0

@[simp] theorem IAC_ne_SB : IAC ≠ SB := by decide
@[simp] theorem SB_ne_IAC : SB ≠ IAC := by decide
@[simp] theorem SB_ne_SE : SB ≠ SE := by decide

/-- The inner `while` of `TS_SB`: stop at an IAC or at the last byte. -/
def skipSB (data : List UInt8) : ℕ → ℕ → ℕ
  | 0, s => s
  | fuel + 1, s =>
    if s < data.length - 1 then
      if data.getD s 0 = IAC then s else skipSB data fuel (s + 1)
    else s

/-- The `for` loop. Every round advances `s`, so `data.length` rounds suffice. -/
def processLoop : ℕ → TelnetState → List UInt8 → ℕ → ℕ → TelnetState × List UInt8 × ℕ
  | 0, ts, data, _, d => (ts, data, d)
  | fuel + 1, ts, data, s, d =>
    if s < data.length then
      match ts with
      | .data =>
        if data.getD s 0 = IAC then processLoop fuel .iac data (s + 1) d
        else if d < s then processLoop fuel .data (data.set d (data.getD s 0)) (s + 1) (d + 1)
        else processLoop fuel .data data (s + 1) (d + 1)
      | .iac =>
        if data.getD s 0 = SB then processLoop fuel .sb data (s + 1) d
        -- if not SB, skip IAC verb object: `s += 1`, then the `s++` of the loop
        else processLoop fuel .data data (s + 2) d
      | .sb =>
        let s' := skipSB data data.length s
        if data.getD s' 0 = IAC then processLoop fuel .sbIac data (s' + 1) d
        else processLoop fuel .sb data (s' + 1) d
      | .sbIac =>
        if data.getD s 0 = SE then processLoop fuel .data data (s + 1) d
        else processLoop fuel .sb data (s + 1) d
    else (ts, data, d)

/-- State, buffer and returned length after one call. -/
def telnetProcessInput (ts : TelnetState) (data : List UInt8) : TelnetState × List UInt8 × ℕ :=
  processLoop data.length ts data 0 0

/-- What the relay in `telnetd.c` forwards: the first returned-length bytes. -/
def relayed (ts : TelnetState) (data : List UInt8) : List UInt8 × TelnetState :=
  let (ts', data', len) := telnetProcessInput ts data
  (data'.take len, ts')

/-- The relay loop over consecutive reads, the state carried from call to call. -/
def processBuffers (ts : TelnetState) : List (List UInt8) → List UInt8 × TelnetState
  | [] => ([], ts)
  | buf :: bufs =>
    let (out, ts') := relayed ts buf
    let (outs, ts'') := processBuffers ts' bufs
    (out ++ outs, ts'')

/-- The automaton on one buffer: kept bytes and final state. -/
def strip : TelnetState → List UInt8 → List UInt8 × TelnetState
  | ts, [] => ([], ts)
  | .data, b :: bs =>
    if b = IAC then strip .iac bs else (b :: (strip .data bs).1, (strip .data bs).2)
  | .iac, b :: bs =>
    if b = SB then strip .sb bs
    else match bs with
      | [] => ([], .data)
      | _ :: bs => strip .data bs
  | .sb, b :: bs => if b = IAC then strip .sbIac bs else strip .sb bs
  | .sbIac, b :: bs => if b = SE then strip .data bs else strip .sb bs

/-- The buffer ends with the verb of a command whose object is still to come. -/
def endsAtVerb : TelnetState → List UInt8 → Bool
  | _, [] => false
  | .data, b :: bs => if b = IAC then endsAtVerb .iac bs else endsAtVerb .data bs
  | .iac, b :: bs =>
    if b = SB then endsAtVerb .sb bs
    else match bs with
      | [] => true
      | _ :: bs => endsAtVerb .data bs
  | .sb, b :: bs => if b = IAC then endsAtVerb .sbIac bs else endsAtVerb .sb bs
  | .sbIac, b :: bs => if b = SE then endsAtVerb .data bs else endsAtVerb .sb bs

/-- Some byte of the stream stands in the place of an object. -/
def hasObject : TelnetState → List UInt8 → Bool
  | _, [] => false
  | .data, b :: bs => if b = IAC then hasObject .iac bs else hasObject .data bs
  | .iac, b :: bs => if b = SB then hasObject .sb bs else !bs.isEmpty
  | .sb, b :: bs => if b = IAC then hasObject .sbIac bs else hasObject .sb bs
  | .sbIac, b :: bs => if b = SE then hasObject .data bs else hasObject .sb bs

/-- Some buffer other than the last ends at a verb. -/
def cutsCommand : TelnetState → List (List UInt8) → Bool
  | _, [] => false
  | _, [_] => false
  | ts, buf :: bufs => endsAtVerb ts buf || cutsCommand (strip ts buf).2 bufs

@[simp] theorem strip_nil (ts : TelnetState) : strip ts [] = ([], ts) := by
  cases ts <;> rfl

theorem strip_suboption (bs : List UInt8) : strip .iac (SB :: bs) = strip .sb bs := by
  cases bs <;> rfl

theorem strip_verb (b : UInt8) (bs : List UInt8) (hb : b ≠ SB) :
    strip .iac (b :: bs) = strip .data (bs.drop 1) := by
  cases bs <;> simp [strip, hb]

theorem drop_cons (data : List UInt8) (s : ℕ) (hs : s < data.length) :
    data.drop s = data.getD s 0 :: data.drop (s + 1) := by
  rw [List.drop_eq_getElem_cons hs, List.getD_eq_getElem data 0 hs]

theorem skipSB_strip (data : List UInt8) (fuel s : ℕ) (hs : s < data.length)
    (hf : data.length - s ≤ fuel) :
    s ≤ skipSB data fuel s ∧ skipSB data fuel s < data.length ∧
      strip .sb (data.drop s) =
        if data.getD (skipSB data fuel s) 0 = IAC
        then strip .sbIac (data.drop (skipSB data fuel s + 1))
        else strip .sb (data.drop (skipSB data fuel s + 1)) := by
  induction fuel generalizing s with
  | zero => omega
  | succ fuel ih =>
    rw [drop_cons data s hs, strip]
    by_cases hlast : s < data.length - 1
    · by_cases hiac : data.getD s 0 = IAC
      · simp only [skipSB, hlast, hiac, ↓reduceIte]
        exact ⟨Nat.le_refl s, hs, trivial⟩
      · obtain ⟨hle, hlt, heq⟩ := ih (s + 1) (by omega) (by omega)
        simp only [skipSB, hlast, hiac, ↓reduceIte]
        exact ⟨by omega, hlt, heq⟩
    · simp [skipSB, hlast, hs]

/-- The copy stays behind the read index, so unread bytes are never overwritten. -/
theorem processLoop_strip (fuel : ℕ) (ts : TelnetState) (data : List UInt8) (s d : ℕ)
    (hd : d ≤ s) (hdl : d ≤ data.length) (hf : data.length - s ≤ fuel) :
    let r := processLoop fuel ts data s d
    r.1 = (strip ts (data.drop s)).2 ∧
      r.2.1.take r.2.2 = data.take d ++ (strip ts (data.drop s)).1 ∧
      r.2.1.length = data.length ∧ r.2.2 ≤ data.length := by
  induction fuel generalizing ts data s d with
  | zero =>
    have hnil : data.drop s = [] := List.drop_eq_nil_of_le (by omega)
    simp [processLoop, hnil, hdl]
  | succ fuel ih =>
    by_cases hs : s < data.length
    · rw [drop_cons data s hs]
      cases ts with
      | data =>
        simp only [processLoop, hs, ↓reduceIte, strip]
        split_ifs with hiac hlt
        · exact ih .iac data (s + 1) d (by omega) hdl (by omega)
        · obtain ⟨h1, h2, h3, h4⟩ := ih .data (data.set d (data.getD s 0)) (s + 1) (d + 1)
            (by omega) (by rw [List.length_set]; omega) (by rw [List.length_set]; omega)
          have hrest : (data.set d (data.getD s 0)).drop (s + 1) = data.drop (s + 1) :=
            List.drop_set_of_lt (by omega)
          have hkept : (data.set d (data.getD s 0)).take (d + 1) =
              data.take d ++ [data.getD s 0] := by
            rw [List.take_add_one, List.take_set_of_le (Nat.le_refl d)]
            simp [show d < data.length by omega]
          rw [hrest] at h1 h2
          rw [hkept] at h2
          rw [List.length_set] at h3 h4
          exact ⟨h1, by simpa using h2, h3, h4⟩
        · have heq : d = s := by omega
          subst heq
          obtain ⟨h1, h2, h3, h4⟩ := ih .data data (d + 1) (d + 1) (by omega) (by omega) (by omega)
          have hkept : data.take (d + 1) = data.take d ++ [data.getD d 0] := by
            rw [List.take_add_one, List.getD_eq_getElem data 0 hs]
            simp [hs]
          rw [hkept] at h2
          exact ⟨h1, by simpa using h2, h3, h4⟩
      | iac =>
        simp only [processLoop, hs, ↓reduceIte]
        by_cases hsb : data.getD s 0 = SB
        · simp only [hsb, ↓reduceIte, strip_suboption]
          exact ih .sb data (s + 1) d (by omega) hdl (by omega)
        · simp only [hsb, ↓reduceIte]
          rw [strip_verb _ _ hsb, List.drop_drop]
          exact ih .data data (s + 2) d (by omega) hdl (by omega)
      | sb =>
        rw [← drop_cons data s hs]
        obtain ⟨hle, hlt, heq⟩ := skipSB_strip data data.length s hs (by omega)
        rw [heq]
        simp only [processLoop, hs, ↓reduceIte]
        split_ifs with hiac
        · exact ih .sbIac data _ d (by omega) hdl (by omega)
        · exact ih .sb data _ d (by omega) hdl (by omega)
      | sbIac =>
        simp only [processLoop, hs, ↓reduceIte, strip]
        split_ifs with hse
        · exact ih .data data (s + 1) d (by omega) hdl (by omega)
        · exact ih .sb data (s + 1) d (by omega) hdl (by omega)
    · have hnil : data.drop s = [] := List.drop_eq_nil_of_le (by omega)
      simp [processLoop, hs, hnil, hdl]

theorem relayed_eq_strip (ts : TelnetState) (data : List UInt8) :
    relayed ts data = strip ts data := by
  obtain ⟨h1, h2, _, _⟩ := processLoop_strip data.length ts data 0 0 (Nat.le_refl 0) (Nat.zero_le _)
    (by omega)
  simp only [List.drop_zero, List.take_zero, List.nil_append] at h1 h2
  exact Prod.ext h2 h1

theorem endsAtVerb_suboption (bs : List UInt8) : endsAtVerb .iac (SB :: bs) = endsAtVerb .sb bs := by
  cases bs <;> rfl

/-- A cut that does not fall between a verb and its object loses nothing. -/
theorem strip_append (ts : TelnetState) (xs ys : List UInt8) (h : endsAtVerb ts xs = false) :
    strip ts (xs ++ ys) =
      ((strip ts xs).1 ++ (strip (strip ts xs).2 ys).1, (strip (strip ts xs).2 ys).2) := by
  fun_induction strip ts xs with
  | case1 ts => simp
  | case2 bs ih => simpa [strip, endsAtVerb] using ih (by simpa [endsAtVerb] using h)
  | case3 b bs hb ih => simp [strip, hb, ih (by simpa [endsAtVerb, hb] using h)]
  | case4 bs ih =>
    rw [List.cons_append, strip_suboption]
    exact ih (by rwa [endsAtVerb_suboption] at h)
  | case5 b hb => simp [endsAtVerb, hb] at h
  | case6 b hb o bs ih =>
    rw [List.cons_append, strip_verb _ _ hb]
    exact ih (by simpa [endsAtVerb, hb] using h)
  | case7 bs ih => simpa [strip, endsAtVerb] using ih (by simpa [endsAtVerb] using h)
  | case8 b bs hb ih => simpa [strip, hb] using ih (by simpa [endsAtVerb, hb] using h)
  | case9 bs ih => simpa [strip, endsAtVerb] using ih (by simpa [endsAtVerb] using h)
  | case10 b bs hb ih => simpa [strip, hb] using ih (by simpa [endsAtVerb, hb] using h)

/-- A cut between a verb and its object: the object is read as data. -/
theorem strip_append_object (ts : TelnetState) (xs : List UInt8) (o : UInt8) (ys : List UInt8)
    (h : endsAtVerb ts xs = true) :
    strip ts (xs ++ o :: ys) = ((strip ts xs).1 ++ (strip .data ys).1, (strip .data ys).2) ∧
      (strip ts xs).2 = .data := by
  fun_induction strip ts xs with
  | case1 ts => simp [endsAtVerb] at h
  | case2 bs ih => simpa [strip, endsAtVerb] using ih (by simpa [endsAtVerb] using h)
  | case3 b bs hb ih => simp [strip, hb, ih (by simpa [endsAtVerb, hb] using h)]
  | case4 bs ih =>
    rw [List.cons_append, strip_suboption]
    exact ih (by rwa [endsAtVerb_suboption] at h)
  | case5 b hb =>
    rw [List.cons_append, strip_verb _ _ hb]
    exact ⟨rfl, rfl⟩
  | case6 b hb o' bs ih =>
    rw [List.cons_append, strip_verb _ _ hb]
    exact ih (by simpa [endsAtVerb, hb] using h)
  | case7 bs ih => simpa [strip, endsAtVerb] using ih (by simpa [endsAtVerb] using h)
  | case8 b bs hb ih => simpa [strip, hb] using ih (by simpa [endsAtVerb, hb] using h)
  | case9 bs ih => simpa [strip, endsAtVerb] using ih (by simpa [endsAtVerb] using h)
  | case10 b bs hb ih => simpa [strip, hb] using ih (by simpa [endsAtVerb, hb] using h)

@[simp] theorem processBuffers_nil (ts : TelnetState) : processBuffers ts [] = ([], ts) := rfl

theorem processBuffers_cons (ts : TelnetState) (buf : List UInt8) (bufs : List (List UInt8)) :
    processBuffers ts (buf :: bufs) =
      ((strip ts buf).1 ++ (processBuffers (strip ts buf).2 bufs).1,
        (processBuffers (strip ts buf).2 bufs).2) := by
  simp only [processBuffers, relayed_eq_strip]

theorem processBuffers_single (ts : TelnetState) (buf : List UInt8) :
    processBuffers ts [buf] = strip ts buf := by
  rw [processBuffers_cons]
  simp

theorem processBuffers_uncut (ts : TelnetState) (bufs : List (List UInt8))
    (h : cutsCommand ts bufs = false) : processBuffers ts bufs = strip ts bufs.flatten := by
  induction bufs generalizing ts with
  | nil => simp
  | cons buf bufs ih =>
    cases bufs with
    | nil => simp [processBuffers_single]
    | cons next bufs =>
      simp only [cutsCommand, Bool.or_eq_false_iff] at h
      change _ = strip ts (buf ++ (next :: bufs).flatten)
      rw [processBuffers_cons, ih _ h.2, strip_append ts buf _ h.1]

theorem hasObject_append (ts : TelnetState) (xs ys : List UInt8) (hy : ys ≠ [])
    (h : hasObject ts (xs ++ ys) = false) :
    endsAtVerb ts xs = false ∧ hasObject (strip ts xs).2 ys = false := by
  fun_induction strip ts xs with
  | case1 ts => exact ⟨by cases ts <;> rfl, h⟩
  | case2 bs ih => simpa [endsAtVerb] using ih (by simpa [hasObject] using h)
  | case3 b bs hb ih => simpa [endsAtVerb, hb] using ih (by simpa [hasObject, hb] using h)
  | case4 bs ih =>
    rw [endsAtVerb_suboption]
    exact ih (by simpa [hasObject] using h)
  | case5 b hb => simp [hasObject, hb, hy] at h
  | case6 b hb o bs ih => simp [hasObject, hb] at h
  | case7 bs ih => simpa [endsAtVerb] using ih (by simpa [hasObject] using h)
  | case8 b bs hb ih => simpa [endsAtVerb, hb] using ih (by simpa [hasObject, hb] using h)
  | case9 bs ih => simpa [endsAtVerb] using ih (by simpa [hasObject] using h)
  | case10 b bs hb ih => simpa [endsAtVerb, hb] using ih (by simpa [hasObject, hb] using h)

theorem cutsCommand_of_no_object (ts : TelnetState) (bufs : List (List UInt8))
    (hne : ∀ buf ∈ bufs, buf ≠ []) (h : hasObject ts bufs.flatten = false) :
    cutsCommand ts bufs = false := by
  induction bufs generalizing ts with
  | nil => rfl
  | cons buf bufs ih =>
    cases bufs with
    | nil => rfl
    | cons next bufs =>
      have hnext : (next :: bufs).flatten ≠ [] := by simp [hne next (by simp)]
      obtain ⟨hcut, hrest⟩ := hasObject_append ts buf _ hnext h
      simp only [cutsCommand, hcut, Bool.false_or]
      exact ih _ (fun b hb => hne b (by simp [hb])) hrest

theorem last_object (ts : TelnetState) (bs : List UInt8) (h : hasObject ts bs = true) :
    ∃ xs o ys, bs = xs ++ o :: ys ∧ endsAtVerb ts xs = true ∧ hasObject .data ys = false := by
  fun_induction strip ts bs with
  | case1 ts => cases ts <;> simp [hasObject] at h
  | case2 bs ih =>
    obtain ⟨xs, o, ys, rfl, hx, hy⟩ := ih (by simpa [hasObject] using h)
    exact ⟨IAC :: xs, o, ys, rfl, by simpa [endsAtVerb] using hx, hy⟩
  | case3 b bs hb ih =>
    obtain ⟨xs, o, ys, rfl, hx, hy⟩ := ih (by simpa [hasObject, hb] using h)
    exact ⟨b :: xs, o, ys, rfl, by simpa [endsAtVerb, hb] using hx, hy⟩
  | case4 bs ih =>
    obtain ⟨xs, o, ys, rfl, hx, hy⟩ := ih (by simpa [hasObject] using h)
    exact ⟨SB :: xs, o, ys, rfl, by rwa [endsAtVerb_suboption], hy⟩
  | case5 b hb => simp [hasObject, hb] at h
  | case6 b hb o bs ih =>
    -- a later object, if there is one, else this one
    cases hlater : hasObject .data bs with
    | true =>
      obtain ⟨xs, o', ys, rfl, hx, hy⟩ := ih hlater
      exact ⟨b :: o :: xs, o', ys, rfl, by simpa [endsAtVerb, hb] using hx, hy⟩
    | false => exact ⟨[b], o, bs, rfl, by simp [endsAtVerb, hb], hlater⟩
  | case7 bs ih =>
    obtain ⟨xs, o, ys, rfl, hx, hy⟩ := ih (by simpa [hasObject] using h)
    exact ⟨IAC :: xs, o, ys, rfl, by simpa [endsAtVerb] using hx, hy⟩
  | case8 b bs hb ih =>
    obtain ⟨xs, o, ys, rfl, hx, hy⟩ := ih (by simpa [hasObject, hb] using h)
    exact ⟨b :: xs, o, ys, rfl, by simpa [endsAtVerb, hb] using hx, hy⟩
  | case9 bs ih =>
    obtain ⟨xs, o, ys, rfl, hx, hy⟩ := ih (by simpa [hasObject] using h)
    exact ⟨SE :: xs, o, ys, rfl, by simpa [endsAtVerb] using hx, hy⟩
  | case10 b bs hb ih =>
    obtain ⟨xs, o, ys, rfl, hx, hy⟩ := ih (by simpa [hasObject, hb] using h)
    exact ⟨b :: xs, o, ys, rfl, by simpa [endsAtVerb, hb] using hx, hy⟩

/-- Without objects, reading the stream inside a suboption keeps no more than reading it as data. -/
theorem suboption_keeps_less (bs : List UInt8) (h : hasObject .data bs = false) :
    (strip .sb bs).1.length ≤ (strip .data bs).1.length := by
  induction bs with
  | nil => simp
  | cons b bs ih =>
    by_cases hb : b = IAC
    · subst hb
      cases bs with
      | nil => simp [strip]
      | cons c cs =>
        by_cases hc : c = SB
        · subst hc
          have hdata : strip .data (IAC :: SB :: cs) = strip .sb cs := by
            rw [strip, if_pos rfl, strip_suboption]
          have hsub : strip .sb (IAC :: SB :: cs) = strip .sb cs := by
            simp [strip]
          simp only [hdata, hsub, Nat.le_refl]
        · have hnil : cs = [] := by simpa [hasObject, hc] using h
          subst hnil
          simp only [strip, ↓reduceIte]
          split_ifs <;> simp
    · simp only [strip, hb, ↓reduceIte, List.length_cons]
      have := ih (by simpa [hasObject, hb] using h)
      omega

/-- After a verb, some way of cutting the object and what follows differs from skipping the object. -/
theorem object_cut_differs (o : UInt8) (ys : List UInt8) (h : hasObject .data ys = false) :
    ∃ bufs : List (List UInt8), (∀ buf ∈ bufs, buf ≠ []) ∧ bufs.flatten = o :: ys ∧
      processBuffers .data bufs ≠ strip .data ys := by
  by_cases ho : o = IAC
  · subst ho
    cases ys with
    | nil => exact ⟨[[IAC]], by simp, by simp, by simp [processBuffers_single, strip]⟩
    | cons b bs =>
      by_cases hiac : b = IAC
      · subst hiac
        cases bs with
        | nil => exact ⟨[[IAC, IAC]], by simp, by simp, by simp [processBuffers_single, strip]⟩
        | cons v vs =>
          by_cases hv : v = SB
          · subst hv
            have hwhole : strip .data (IAC :: SB :: vs) = strip .sb vs := by
              rw [strip, if_pos rfl, strip_suboption]
            have hone : processBuffers .data [IAC :: IAC :: SB :: vs] = strip .data vs := by
              rw [processBuffers_single, strip, if_pos rfl, strip_verb _ _ IAC_ne_SB, List.drop_one,
                List.tail_cons]
            have htwo : processBuffers .data [[IAC, IAC], SB :: vs] =
                (SB :: (strip .data vs).1, (strip .data vs).2) := by
              simp [processBuffers_cons, strip]
            by_cases heq : processBuffers .data [IAC :: IAC :: SB :: vs] = strip .sb vs
            · refine ⟨[[IAC, IAC], SB :: vs], by simp, by simp, ?_⟩
              rw [hwhole, ← heq, hone, htwo]
              intro hbad
              have hlen := congrArg (fun r => r.1.length) hbad
              simp at hlen
            · exact ⟨[IAC :: IAC :: SB :: vs], by simp, by simp, by rwa [hwhole]⟩
          · have hnil : vs = [] := by simpa [hasObject, hv] using h
            subst hnil
            refine ⟨[[IAC, IAC], [v]], by simp, by simp, ?_⟩
            by_cases hvi : v = IAC <;> simp [processBuffers_cons, strip, hv, hvi]
      · by_cases hsb : b = SB
        · subst hsb
          refine ⟨[IAC :: SB :: bs], by simp, by simp, ?_⟩
          have hone : processBuffers .data [IAC :: SB :: bs] = strip .sb bs := by
            rw [processBuffers_single, strip, if_pos rfl, strip_suboption]
          have hless := suboption_keeps_less bs (by simpa [hasObject] using h)
          rw [hone]
          intro hbad
          have hlen := congrArg (fun r => r.1.length) hbad
          simp [strip] at hlen
          omega
        · refine ⟨[IAC, b] :: (if bs = [] then [] else [bs]), ?_, ?_, ?_⟩
          · intro buf hbuf
            split_ifs at hbuf with hbs <;> simp at hbuf <;> aesop
          · split_ifs with hbs <;> simp [hbs]
          · have hrest : processBuffers .data (if bs = [] then [] else [bs]) = strip .data bs := by
              split_ifs with hbs
              · simp [hbs]
              · exact processBuffers_single .data bs
            rw [processBuffers_cons]
            intro hbad
            have hlen := congrArg (fun r => r.1.length) hbad
            simp [strip, hsb, hiac, hrest] at hlen
  · refine ⟨[o :: ys], by simp, by simp, ?_⟩
    rw [processBuffers_single]
    intro hbad
    have hlen := congrArg (fun r => r.1.length) hbad
    simp [strip, ho] at hlen

/-- For a fixed split a cut between verb and object is the only way to go wrong; and the relay is
independent of all splits exactly when the stream has no object byte to cut off. -/
theorem processBuffers_agree_iff (ts : TelnetState) (stream : List UInt8) :
    (∀ bufs : List (List UInt8), bufs.flatten = stream → cutsCommand ts bufs = false →
      processBuffers ts bufs = relayed ts stream) ∧
    ((∀ bufs : List (List UInt8), (∀ buf ∈ bufs, buf ≠ []) → bufs.flatten = stream →
      processBuffers ts bufs = relayed ts stream) ↔ hasObject ts stream = false) := by
  have huncut : ∀ bufs : List (List UInt8), bufs.flatten = stream → cutsCommand ts bufs = false →
      processBuffers ts bufs = relayed ts stream := by
    intro bufs hflat hcut
    rw [processBuffers_uncut ts bufs hcut, hflat, relayed_eq_strip]
  refine ⟨huncut, ?_, ?_⟩
  · intro hall
    by_contra hobj
    obtain ⟨xs, o, ys, rfl, hx, hy⟩ := last_object ts stream (by simpa using hobj)
    obtain ⟨hwhole, hdata⟩ := strip_append_object ts xs o ys hx
    obtain ⟨bufs, hne, hflat, hdiff⟩ := object_cut_differs o ys hy
    have hxs : xs ≠ [] := by
      rintro rfl
      cases ts <;> simp [endsAtVerb] at hx
    have hagree := hall (xs :: bufs) (by simpa [hxs] using hne) (by simp [hflat])
    rw [relayed_eq_strip, hwhole, processBuffers_cons, hdata, Prod.mk.injEq,
      List.append_cancel_left_eq] at hagree
    exact hdiff (Prod.ext hagree.1 hagree.2)
  · intro hobj bufs hne hflat
    exact huncut bufs hflat (cutsCommand_of_no_object ts bufs hne (by rw [hflat]; exact hobj))

/-- `IAC DO ECHO` cut before the option: the option byte is relayed as typed input. -/
theorem split_relays_object :
    [[IAC, 0xfd], [0x01]].flatten = [IAC, 0xfd, 0x01] ∧
      (∀ buf ∈ [[IAC, 0xfd], [0x01]], buf ≠ []) ∧
      processBuffers .data [[IAC, 0xfd], [0x01]] ≠ relayed .data [IAC, 0xfd, 0x01] := by
  decide

end Comodoo.TelnetInput
