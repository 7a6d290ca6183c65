import Comodoo.FtpScan

set_option autoImplicit false

/-!
# Reading one FTP reply

`ftpCheckResponse` agrees with the reference parser for every splitting into reads, as long
as no read that ends inside a line is followed, behind its terminating NUL, by a byte left
over in the static buffer, and the unfinished line is not longer than the lines in front of it,
on which it is copied.
-/
namespace Comodoo.FtpReads
open CString ByteMemory FtpResponse FtpReply FtpScan

theorem holds_receive (r : Response) (p c : Str) (hp : Holds r.buf 0 p)
    (hlen : r.bufLength = p.length) : Holds (receive r c).buf 0 (p ++ c ++ [0]) := by
  rw [holds_append, holds_append]
  simp only [receive, hlen, List.length_append, Nat.zero_add]
  refine ⟨⟨holds_congr ?_ hp, holds_congr ?_ (holds_store r.buf p.length c)⟩, ?_, trivial⟩
  · intro i _ hi
    rw [Function.update_of_ne (by omega), store_outside _ _ _ _ (by omega)]
  · intro i _ hi
    rw [Function.update_of_ne (by omega)]
  · rw [Function.update_self]

/-- A read that ends inside a line needs a NUL behind its terminator. -/
def noStaleByte (buf : Mem) (got : Str) : Bool :=
  got.getLast? == some LF || (got.length < BUFFER_SIZE && buf (got.length + 1) == 0)

def apart (got : Str) : Bool := (arrived got).2.length ≤ (wire (arrived got).1).length

/-- What a pass that goes on leaves in the buffer. -/
def left (buf : Mem) (got : Str) : Mem :=
  store (store (store buf 0 (got ++ [0])) 0 ((arrived got).1.flatMap cut)) 0 (arrived got).2

theorem receive_buf (r : Response) (p c : Str) (hp : Holds r.buf 0 p)
    (hlen : r.bufLength = p.length) : (receive r c).buf = store r.buf 0 (p ++ c ++ [0]) := by
  refine eq_store (holds_receive r p c hp hlen) (fun i hi => ?_)
  simp only [receive, hlen, List.length_append, List.length_singleton] at hi ⊢
  rw [Function.update_of_ne (by omega), store_outside _ _ _ _ (by omega)]

section Scan
variable {r : Response} {lines : List Str} {p : Str}

theorem getLast?_ends {got : Str} (hgot : got = wire lines ++ p) (hlf : LF ∉ p)
    (h : got.getLast? = some LF) : lines ≠ [] ∧ p = [] := by
  have hp : p = [] := by
    by_contra hne
    rw [hgot, List.getLast?_append, List.getLast?_eq_some_getLast hne, Option.some_or,
      Option.some.injEq] at h
    exact hlf (h ▸ List.getLast_mem hne)
  refine ⟨?_, hp⟩
  rintro rfl
  rw [hgot, hp] at h
  cases h

/-- The scan of the lines that have arrived stops in front of the unfinished one, or behind it. -/
theorem scanLines_arrived (h : Holds r.buf 0 (wire lines ++ p ++ [0])) (hok : ∀ t ∈ lines, LineOk t)
    (hlf : LF ∉ p) (h0 : (0 : UInt8) ∉ p) (hin : (wire lines ++ p).length ≤ BUFFER_SIZE)
    (hfits : ∀ t, lines.head? = some t → CodeFits r.errorCode (text t))
    (hnul : noStaleByte r.buf (wire lines ++ p) = true) :
    ∃ r' chptr, scanLines (BUFFER_SIZE + 1) r 0 0 = some (r', chptr, (wire lines).length) ∧
      (chptr = (wire lines).length + p.length + 1 ∨ chptr = (wire lines).length ∧ p = []) ∧
      Scanned r r' 0 lines p := by
  have hcount := length_le_wire lines
  rw [List.length_append] at hin
  simp only [noStaleByte, Bool.or_eq_true, beq_iff_eq, Bool.and_eq_true, decide_eq_true_eq,
    List.length_append] at hnul
  by_cases hends : lines ≠ [] ∧ p = []
  · obtain ⟨hne, rfl⟩ := hends
    rw [List.append_nil] at h
    rw [List.length_nil] at hin
    obtain ⟨r', hs, hscan⟩ := scanLines_complete lines r 0 (BUFFER_SIZE + 1 - lines.length)
      hne h hok (by omega) hfits
    rw [Nat.sub_add_cancel (by omega), Nat.zero_add] at hscan
    exact ⟨r', _, hscan, Or.inr ⟨rfl, rfl⟩, hs⟩
  · obtain ⟨hlt, hzero⟩ := hnul.resolve_left (fun hlast => hends (getLast?_ends rfl hlf hlast))
    by_cases hp : p = []
    · -- nothing has arrived
      have hlines : lines = [] := by
        by_contra hne
        exact hends ⟨hne, hp⟩
      subst hp hlines
      have hnul0 : r.buf 0 = 0 := h.1
      have hnul1 : r.buf 1 = 0 := hzero
      refine ⟨r, 1, ?_, Or.inl rfl, ⟨rfl, rfl, by simp⟩⟩
      have hstop : nextStop r.buf (BUFFER_SIZE + 1 - 0) 0 = 0 := by
        rw [show BUFFER_SIZE + 1 - 0 = BUFFER_SIZE + 1 from rfl, nextStop, if_pos (Or.inr hnul0)]
      rw [scanLines]
      simp only [hstop]
      rw [if_neg (by omega), hnul0, if_neg (by decide), if_neg (by decide), if_neg (by simpa)]
      rfl
    · obtain ⟨r', hs, hscan⟩ := scanLines_unfinished lines p r 0 (BUFFER_SIZE - lines.length)
        hp hlf h0 h hok (by omega) hfits (by rwa [Nat.zero_add])
      rw [show BUFFER_SIZE - lines.length + 1 + lines.length = BUFFER_SIZE + 1 by omega,
        Nat.zero_add] at hscan
      exact ⟨r', _, hscan, Or.inl rfl, hs⟩

theorem digest_arrived (h : Holds r.buf 0 (wire lines ++ p ++ [0])) (hok : ∀ t ∈ lines, LineOk t)
    (hlf : LF ∉ p) (h0 : (0 : UInt8) ∉ p) (hin : (wire lines ++ p).length ≤ BUFFER_SIZE)
    (hfits : ∀ t, lines.head? = some t → CodeFits r.errorCode (text t))
    (hnul : noStaleByte r.buf (wire lines ++ p) = true) {code : Str} {more : Bool}
    (hstate : (lines.map text).foldl lineStep (r.errorCode, r.doesContinue) = (code, more)) :
    ∃ str, digest r =
        (if more = false then some ⟨store r.buf 0 (lines.flatMap cut), 0, code, false, str⟩
        else if p.length ≤ (wire lines).length then
          some ⟨store (store r.buf 0 (lines.flatMap cut)) 0 p, p.length, code, true, str⟩
        else none) ∧
      ∀ last, (lines.map text).getLast? = some last → p = [] → ∃ a, str = some a ∧
        Holds (store r.buf 0 (lines.flatMap cut)) a (last ++ [0]) := by
  obtain ⟨r', chptr, hscan, hch, hs⟩ := scanLines_arrived h hok hlf h0 hin hfits hnul
  have hst := hs.state
  rw [hstate, Prod.mk.injEq] at hst
  obtain ⟨hcode, hmore⟩ := hst
  refine ⟨r'.str, ?_, ?_⟩
  · rw [digest, hscan]
    simp only
    cases more with
    | false =>
      rw [if_neg (by simp [hmore]), if_pos rfl, ← hs.mem, ← hcode]
      obtain ⟨buf, bufLength, errorCode, doesContinue, str⟩ := r'
      subst hmore
      rfl
    | true =>
      have hopen : ¬ true = false := by decide
      rw [if_neg hopen, ← hs.mem, ← hcode]
      rcases hch with rfl | ⟨rfl, rfl⟩
      · have hn : (wire lines).length + p.length + 1 - (wire lines).length - 1 = p.length := by omega
        have hheld : Holds r'.buf (wire lines).length p := by
          have hp := ((holds_append _ _ _ _).mp ((holds_append _ _ _ _).mp h).1).2
          rw [Nat.zero_add] at hp
          exact holds_congr (fun i hi _ => hs.outside i (by omega)) hp
        rw [if_pos (show r'.doesContinue = true ∧ _ from ⟨hmore, by omega⟩), hn]
        by_cases hle : p.length ≤ (wire lines).length
        · rw [if_pos hle, copyToFront_of_holds hheld hle, Option.map_some, ← hmore]
        · rw [if_neg hle, copyToFront_overlap (by omega)]
          rfl
      · rw [if_neg (by simp), List.length_nil, if_pos (Nat.zero_le _), ← hmore]
        rfl
  · intro last hlast hp
    obtain ⟨a, ha, hheld⟩ := hs.str last hlast hp
    rw [hs.mem] at hheld
    exact ⟨a, ha, hheld⟩

end Scan

/-- Between two reads: `done` is digested, `p` of the next line is kept. -/
structure Waiting (r : Response) (done : List Str) (p : Str) : Prop where
  state : (r.errorCode, r.doesContinue) = progress (done.map text)
  held : Holds r.buf 0 p
  length : r.bufLength = p.length

structure Answered (r : Response) (rc : ℤ) (last : Str) : Prop where
  stopped : r.doesContinue = false
  code : codeResult r.errorCode = rc
  str : ∃ s, r.str = some s ∧ Holds r.buf s (last ++ [0])

theorem digest_receive {r : Response} {done : List Str} {p c : Str} (hw : Waiting r done p)
    (hok : ∀ t ∈ (arrived (p ++ c)).1, LineOk t) (h0 : (0 : UInt8) ∉ (arrived (p ++ c)).2)
    (hin : (p ++ c).length ≤ BUFFER_SIZE)
    (hfits : ∀ t, (arrived (p ++ c)).1.head? = some t → CodeFits r.errorCode (text t))
    (hnul : noStaleByte r.buf (p ++ c) = true) {code : Str} {more : Bool}
    (hstate : progress ((done ++ (arrived (p ++ c)).1).map text) = (code, more)) :
    ∃ buf str, digest (receive r c) =
        (if more = false then some ⟨buf, 0, code, false, str⟩
        else if apart (p ++ c) = true then
          some ⟨left r.buf (p ++ c), (arrived (p ++ c)).2.length, code, true, str⟩
        else none) ∧
      ∀ last, ((arrived (p ++ c)).1.map text).getLast? = some last → (arrived (p ++ c)).2 = [] →
        ∃ a, str = some a ∧ Holds buf a (last ++ [0]) := by
  obtain ⟨hgot, -, hlf⟩ := arrived_spec (p ++ c)
  have hbuf := receive_buf r p c hw.held hw.length
  have hheld := holds_receive r p c hw.held hw.length
  have hsame : (receive r c).buf ((p ++ c).length + 1) = r.buf ((p ++ c).length + 1) := by
    rw [hbuf]
    refine store_outside _ _ _ _ (Or.inr ?_)
    rw [Nat.zero_add, List.length_append, List.length_singleton]
  have hnul' : noStaleByte (receive r c).buf (p ++ c) = true := by
    rw [noStaleByte, hsame]
    exact hnul
  have hfold : ((arrived (p ++ c)).1.map text).foldl lineStep
      ((receive r c).errorCode, (receive r c).doesContinue) = (code, more) := by
    have hr : ((receive r c).errorCode, (receive r c).doesContinue) = progress (done.map text) :=
      hw.state
    rw [hr, progress, ← List.foldl_append, ← List.map_append]
    exact hstate
  have hleft : left r.buf (p ++ c) = store (store (receive r c).buf 0
      ((arrived (p ++ c)).1.flatMap cut)) 0 (arrived (p ++ c)).2 := by
    rw [hbuf]
    rfl
  rw [hgot] at hheld hin hnul'
  obtain ⟨str, hdig, hstr⟩ := digest_arrived hheld hok hlf h0 hin hfits hnul' hfold
  refine ⟨_, str, ?_, hstr⟩
  rw [hdig, hleft]
  simp only [apart, decide_eq_true_eq]

theorem codeFits_head {done rest : List Str} {res : ℤ × Str} {r : Response} {p : Str}
    (hw : Waiting r done p) (hr : parseReply ((done ++ rest).map text) = some res) (t : Str)
    (ht : rest.head? = some t) : CodeFits r.errorCode (text t) := by
  obtain ⟨rest', rfl⟩ : ∃ rest', rest = t :: rest' := by
    cases rest with
    | nil => simp at ht
    | cons u rest' => exact ⟨rest', by simpa using ht⟩
  have hcode : r.errorCode = (progress (done.map text)).1 := congrArg Prod.fst hw.state
  rw [List.map_append] at hr
  obtain ⟨-, hnil, hlen⟩ := progress_prefix (by simp) hr
  rw [hcode]
  refine ⟨fun h0 => ?_, hlen⟩
  have hdone := hnil.mp h0
  rw [hdone] at hr
  exact parseReply_first hr

theorem digest_reply {r : Response} {done rest : List Str} {p c later : Str} {rc : ℤ} {last : Str}
    (hw : Waiting r done p) (hok : ∀ t ∈ done ++ rest, LineOk t)
    (hr : parseReply ((done ++ rest).map text) = some (rc, last)) (hc : c ≠ [])
    (hbytes : p ++ c ++ later = wire rest) (hin : (wire rest).length < BUFFER_SIZE)
    (hnul : noStaleByte r.buf (p ++ c) = true) :
    (later = [] ∧ apart (p ++ c) = true ∧
      ∃ r', digest (receive r c) = some r' ∧ Answered r' rc last) ∨
    (later ≠ [] ∧ apart (p ++ c) = false ∧ digest (receive r c) = none) ∨
    (later ≠ [] ∧ apart (p ++ c) = true ∧ ∃ r' done' rest', digest (receive r c) = some r' ∧
      r'.doesContinue = true ∧ r'.buf = left r.buf (p ++ c) ∧ done ++ rest = done' ++ rest' ∧
      Waiting r' done' (arrived (p ++ c)).2 ∧ (arrived (p ++ c)).2 ++ later = wire rest') := by
  have hokr : ∀ t ∈ rest, LineOk t := fun t ht => hok t (by simp [ht])
  obtain ⟨comp, rest', p', rfl, hgot, hlater, hlf, h0⟩ := split_wire rest (p ++ c) later hbytes hokr
  have hshort : (p ++ c).length < BUFFER_SIZE := by
    have := congrArg List.length hbytes
    rw [List.length_append] at this
    omega
  have hcomp : ∀ t ∈ comp, LineOk t := fun t ht => hokr t (by simp [ht])
  have harrived : arrived (p ++ c) = (comp, p') := by
    rw [hgot]
    exact arrived_wire (fun t ht => (hcomp t ht).2.1) hlf
  have hstep := @digest_receive r done p c hw (by rw [harrived]; exact hcomp)
    (by rw [harrived]; exact h0) (by omega)
    (by rw [harrived]; exact fun t ht => codeFits_head hw hr t (by simp_all)) hnul
  rw [harrived] at hstep ⊢
  dsimp only at hstep ⊢
  rw [← List.append_assoc] at hr
  by_cases hl : later = []
  · left
    subst hl
    rw [List.append_nil] at hlater
    have hrest : rest' = [] := by
      cases rest' with
      | nil => rfl
      | cons t rest' => exact absurd (by rw [hlater, wire_cons]; simp) hlf
    subst hrest
    have hp : p' = [] := hlater
    rw [List.append_nil] at hr
    obtain ⟨hstop, hcode, hlast⟩ := progress_complete hr
    have hstate : progress ((done ++ comp).map text) =
        ((progress ((done ++ comp).map text)).1, false) := Prod.ext rfl hstop
    obtain ⟨buf, str, hdig, hstr⟩ := hstep hstate
    have hends : (comp.map text).getLast? = some last := by
      have hne : comp ≠ [] := by
        rintro rfl
        simp [hp, wire, hc] at hgot
      rw [List.map_append, List.getLast?_append_of_ne_nil] at hlast
      · exact hlast
      · simpa using hne
    rw [if_pos rfl] at hdig
    refine ⟨rfl, by simp [apart, harrived, hp], _, hdig, rfl, hcode, hstr last hends hp⟩
  · right
    have hrest : rest' ≠ [] := by
      rintro rfl
      exact hl (List.append_eq_nil_iff.mp hlater).2
    rw [List.map_append] at hr
    obtain ⟨hopen, -⟩ := progress_prefix (by simpa using hrest) hr
    have hstate : progress ((done ++ comp).map text) =
        ((progress ((done ++ comp).map text)).1, true) := Prod.ext rfl hopen
    obtain ⟨buf, str, hdig, -⟩ := hstep hstate
    rw [if_neg (by simp)] at hdig
    cases hapart : apart (p ++ c) with
    | false =>
      rw [hapart, if_neg (by simp)] at hdig
      exact Or.inl ⟨hl, rfl, hdig⟩
    | true =>
      rw [hapart, if_pos rfl] at hdig
      refine Or.inr ⟨hl, rfl, _, done ++ comp, rest', hdig, rfl, rfl, by simp,
        ⟨hstate.symm, ?_, rfl⟩, hlater⟩
      rw [left, harrived]
      exact holds_store _ _ _

theorem finish_answered {r : Response} {rc : ℤ} {last : Str} (h : Answered r rc last)
    (h0 : (0 : UInt8) ∉ last) (hlen : last.length ≤ BUFFER_SIZE) :
    finish r 0 = .returned rc (some last) r.buf := by
  obtain ⟨s, hs, hheld⟩ := h.str
  have hstr : strn r.buf s (BUFFER_SIZE + 1) = last := by
    rw [strn_of_holds r.buf s _ last hheld h0, List.take_of_length_le (by omega)]
  rw [← h.code, finish, hs, Option.map_some, hstr, codeResult]
  by_cases h421 : r.errorCode = ascii "421"
  · simp [h421, ascii]
  · by_cases h550 : r.errorCode = ascii "550"
    · simp [h550, ascii]
    · simp only [h421, h550, if_false]
      split <;> rfl

/-- Along the reads of one call no unfinished line is followed by a stale byte. -/
def noStaleBytes : Mem → Str → List Str → Bool
  | _, _, [] => true
  | buf, p, c :: chunks =>
    noStaleByte buf (p ++ c) && noStaleBytes (left buf (p ++ c)) (arrived (p ++ c)).2 chunks

/-- Along the reads of one call no unfinished line is longer than the lines in front of it. -/
def alwaysApart : Str → List Str → Bool
  | _, [] => true
  | p, c :: chunks => apart (p ++ c) && alwaysApart (arrived (p ++ c)).2 chunks

def arrivals (chunks : List Str) : List Round := chunks.map (fun c => .ready (.bytes c))

theorem responseLoop_reply (chunks : List Str) (r : Response) (done rest : List Str) (p : Str)
    (rc : ℤ) (last : Str) (hw : Waiting r done p) (hok : ∀ t ∈ done ++ rest, LineOk t)
    (hr : parseReply ((done ++ rest).map text) = some (rc, last)) (hne : ∀ c ∈ chunks, c ≠ [])
    (hrest : chunks ≠ []) (hbytes : p ++ chunks.flatten = wire rest)
    (hin : (wire (done ++ rest)).length < BUFFER_SIZE) (hnul : noStaleBytes r.buf p chunks = true) :
    (∃ buf, responseLoop chunks.length r (arrivals chunks) = .returned rc (some last) buf) ↔
      alwaysApart p chunks = true := by
  induction chunks generalizing r done rest p with
  | nil => exact absurd rfl hrest
  | cons c chunks ih =>
    have hin' : (wire rest).length < BUFFER_SIZE := by
      rw [wire_append, List.length_append] at hin
      omega
    rw [List.flatten_cons, ← List.append_assoc] at hbytes
    rw [noStaleBytes, Bool.and_eq_true] at hnul
    have hfit : c.length ≤ BUFFER_SIZE - r.bufLength := by
      have := congrArg List.length hbytes
      rw [List.length_append, List.length_append] at this
      rw [hw.length]
      omega
    have hread : (readInto r (.bytes c)).bind digest = digest (receive r c) := by
      rw [readInto, List.take_of_length_le hfit, Option.bind_some]
    have hleft : leftover r (.bytes c) = [] := by rw [leftover, if_pos hfit]
    have hloop : responseLoop (c :: chunks).length r (arrivals (c :: chunks)) =
        (digest (receive r c)).elim .fault (fun r' =>
          if r'.doesContinue then responseLoop chunks.length r' (arrivals chunks)
          else finish r' 0) := by
      simp only [arrivals, List.map_cons, List.length_cons, responseLoop, hread, hleft,
        List.nil_append]
      cases digest (receive r c) <;> rfl
    rw [hloop, alwaysApart]
    rcases digest_reply hw hok hr (hne c (by simp)) hbytes hin' hnul.1 with
      ⟨hlater, hapart, r', hdig, hans⟩ | ⟨hlater, hapart, hdig⟩ |
        ⟨hlater, hapart, r', done', rest', hdig, hcont, hbuf, hsplit, hw', hbytes'⟩
    · have hnil : chunks = [] := by
        rw [List.flatten_eq_nil_iff] at hlater
        exact List.eq_nil_iff_forall_not_mem.mpr (fun d hd => hne d (by simp [hd]) (hlater d hd))
      rw [hapart, hnil, hdig, Option.elim_some, hans.stopped, if_neg (by simp)]
      refine iff_of_true ⟨r'.buf, ?_⟩ rfl
      obtain ⟨-, -, hlast⟩ := progress_complete hr
      obtain ⟨t, ht, rfl⟩ := List.mem_map.mp (List.mem_of_getLast? hlast)
      obtain ⟨tail, htail, -⟩ := text_append t
      have h0 := (hok t ht).2.2
      rw [htail, List.mem_append] at h0
      have hlen := length_lt_wire ht
      rw [htail, List.length_append] at hlen
      exact finish_answered hans (fun hm => h0 (Or.inl hm)) (by omega)
    · rw [hapart, hdig]
      simp
    · rw [hapart, hdig, Option.elim_some, if_pos hcont, Bool.true_and]
      rw [hsplit] at hok hr hin
      have hne' : chunks ≠ [] := by
        rintro rfl
        exact hlater rfl
      exact ih r' done' rest' _ hw' hok hr (fun x hx => hne x (by simp [hx])) hne' hbytes' hin
        (by rw [hbuf]; exact hnul.2)

/-- A static buffer full of other bytes; its last byte is never written with anything but NUL. -/
def littered : Mem := fun i => if i < BUFFER_SIZE then 0x58 else 0

theorem holds_littered (r : Response) (hr : r.buf = littered) (hl : r.bufLength = 0) (c : Str)
    (hc : c.length + 1 < BUFFER_SIZE) :
    Holds (receive r c).buf (c.length + 1)
      (List.replicate (BUFFER_SIZE - (c.length + 1)) 0x58 ++ [0]) := by
  have hbuf : ∀ i, c.length < i → (receive r c).buf i = littered i := by
    intro i hi
    simp only [receive, hl, hr, Nat.zero_add]
    rw [Function.update_of_ne (by omega), store_outside _ _ _ _ (by omega)]
  have hrep : ∀ n a, c.length < a → a + n ≤ BUFFER_SIZE →
      Holds (receive r c).buf a (List.replicate n 0x58) := by
    intro n
    induction n with
    | zero => intros; trivial
    | succ n ih =>
      intro a ha hn
      refine ⟨?_, ih (a + 1) (by omega) (by omega)⟩
      rw [hbuf a ha, littered, if_pos (by omega)]
  rw [holds_append, List.length_replicate]
  refine ⟨hrep _ _ (by omega) (by omega), ?_, trivial⟩
  rw [hbuf _ (by omega), littered, if_neg (by omega)]

/-- A first read that ends inside a line runs off the end of such a buffer. -/
theorem digest_littered {lines : List Str} {res : ℤ × Str} {c later : Str}
    (hok : ∀ t ∈ lines, LineOk t) (hr : parseReply (lines.map text) = some res)
    (hin : (wire lines).length < BUFFER_SIZE) (hbytes : c ++ later = wire lines)
    (hc : c.getLast? ≠ some LF) (hne : c ≠ []) :
    digest (receive ⟨littered, 0, [], true, none⟩ c) = none := by
  obtain ⟨comp, rest', p, rfl, rfl, hlater, hlf, h0⟩ := split_wire lines c later hbytes hok
  have hp : p ≠ [] := by
    rintro rfl
    rw [List.append_nil] at hc hne
    apply hc (getLast?_wire ?_)
    rintro rfl
    exact hne rfl
  have hlater' : later ≠ [] := by
    rintro rfl
    rw [List.append_nil] at hlater
    have hrest : rest' ≠ [] := by
      rintro rfl
      exact hp hlater
    exact hlf (List.mem_of_getLast? (hlater ▸ getLast?_wire hrest))
  have hshort : (wire comp ++ p).length + 1 < BUFFER_SIZE := by
    have hlen := congrArg List.length hbytes
    have := List.length_pos_of_ne_nil hlater'
    rw [List.length_append] at hlen
    omega
  have hw : Waiting ⟨littered, 0, [], true, none⟩ [] [] := ⟨rfl, trivial, rfl⟩
  have hheld := holds_receive _ [] (wire comp ++ p) hw.held hw.length
  have hstale := holds_littered ⟨littered, 0, [], true, none⟩ rfl rfl (wire comp ++ p) hshort
  have hlen : (wire comp ++ p).length = (wire comp).length + p.length := List.length_append
  have hcount := length_le_wire comp
  have hstop := scanLines_stale comp p
    (List.replicate (BUFFER_SIZE - ((wire comp ++ p).length + 1)) 0x58) _ 0
    (BUFFER_SIZE - 1 - comp.length) hp
    (List.ne_nil_of_length_pos (by rw [List.length_replicate]; omega))
    ⟨hlf, fun hm => absurd (List.eq_of_mem_replicate hm) (by decide)⟩
    ⟨h0, fun hm => absurd (List.eq_of_mem_replicate hm) (by decide)⟩ hheld
    (by rw [Nat.zero_add, ← hlen]; exact hstale) (fun t ht => hok t (by simp [ht]))
    (by rw [List.length_replicate]; omega)
    (fun t ht => codeFits_head hw hr t (by simp [ht]))
  rw [show BUFFER_SIZE - 1 - comp.length + 2 + comp.length = BUFFER_SIZE + 1 by omega] at hstop
  rw [digest, hstop]

/-- One complete reply and a splitting of it into reads. -/
structure Received (lines chunks : List Str) : Prop where
  ok : ∀ t ∈ lines, LineOk t
  short : (wire lines).length < BUFFER_SIZE
  nonempty : ∀ c ∈ chunks, c ≠ []
  bytes : chunks.flatten = wire lines

/-- The call returns the reference result, with `*str` at the final line. -/
def Answers (buf : Mem) (chunks : List Str) (rc : ℤ) (last : Str) : Prop :=
  ∃ buf', ftpCheckResponse chunks.length buf (arrivals chunks) = .returned rc (some last) buf'

/-- Where no stale byte is met, the call answers if and only if no line is copied on itself; and a
first read that ends inside a line does not answer whatever the buffer holds. -/
theorem ftpCheckResponse_answers (lines chunks : List Str) (rc : ℤ) (last : Str)
    (h : Received lines chunks) (hr : parseReply (lines.map text) = some (rc, last)) :
    (∀ buf, noStaleBytes buf [] chunks = true →
      (Answers buf chunks rc last ↔ alwaysApart [] chunks = true)) ∧
    ((∀ buf : Mem, buf BUFFER_SIZE = 0 → Answers buf chunks rc last) →
      ∀ c, chunks.head? = some c → c.getLast? = some LF) := by
  have hne : chunks ≠ [] := by
    rintro rfl
    have hlines : lines = [] := by
      cases lines with
      | nil => rfl
      | cons t lines => simpa [wire_cons] using h.bytes
    simp [hlines, parseReply] at hr
  constructor
  · intro buf hnul
    exact responseLoop_reply chunks ⟨buf, 0, [], true, none⟩ [] lines [] rc last
      ⟨rfl, trivial, rfl⟩ h.ok hr h.nonempty hne h.bytes h.short hnul
  · intro hall c hc
    obtain ⟨later, rfl⟩ : ∃ later, chunks = c :: later := by
      cases chunks with
      | nil => simp at hc
      | cons d later => exact ⟨later, by simpa using hc⟩
    by_contra hend
    obtain ⟨buf', hret⟩ := hall littered rfl
    have hfault := digest_littered h.ok hr h.short h.bytes hend (h.nonempty c (by simp))
    have hfit : c.length ≤ BUFFER_SIZE - 0 := by
      have := congrArg List.length h.bytes
      have := h.short
      rw [List.flatten_cons, List.length_append] at *
      omega
    have hread : (readInto ⟨littered, 0, [], true, none⟩ (.bytes c)).bind digest = none := by
      rw [readInto]
      simp only
      rw [List.take_of_length_le hfit, Option.bind_some, hfault]
    simp [ftpCheckResponse, arrivals, responseLoop, hread] at hret

/-- A reply in two reads, the first of which ends behind the beginning of the second line. -/
def twoReads : List Str :=
  [ascii "230-Hello there" ++ [CR, LF] ++ ascii "23", ascii "0 Done" ++ [CR, LF]]

theorem received_twoReads :
    Received [ascii "230-Hello there" ++ [CR], ascii "230 Done" ++ [CR]] twoReads :=
  ⟨by unfold LineOk; decide, by decide, by decide, by decide⟩

theorem ftpCheckResponse_answers_two_reads :
    Received [ascii "230-Hello there" ++ [CR], ascii "230 Done" ++ [CR]] twoReads ∧
      Answers (fun _ => 0) twoReads 0 (ascii "230 Done") :=
  ⟨received_twoReads, ((ftpCheckResponse_answers _ _ 0 _ received_twoReads (by decide)).1 _
    (by decide +kernel)).mpr (by decide)⟩

def Outcome.result : Outcome → Option (ℤ × Option Str)
  | .returned rc str _ => some (rc, str)
  | _ => none

def Outcome.memory : Outcome → Mem
  | .returned _ _ buf => buf
  | _ => fun _ => 0

def greeted : Mem := Outcome.memory
  (ftpCheckResponse 1 (fun _ => 0) (arrivals [ascii "220 Welcome to the server" ++ [CR, LF]]))

/-- The same reply behind the greeting: the last line is not recognised. -/
theorem stale_bytes_misread :
    Received [ascii "230-Hello there" ++ [CR], ascii "230 Done" ++ [CR]] twoReads ∧
    parseReply [ascii "230-Hello there", ascii "230 Done"] = some (0, ascii "230 Done") ∧
    ¬ Answers greeted twoReads 0 (ascii "230 Done") := by
  refine ⟨received_twoReads, by decide, ?_⟩
  rintro ⟨buf', h⟩
  have hres := congrArg Outcome.result h
  have hcode : Outcome.result (ftpCheckResponse 2 greeted (arrivals twoReads)) = none := by
    decide +kernel
  rw [show List.length twoReads = 2 from rfl, hcode] at hres
  cases hres

end Comodoo.FtpReads
