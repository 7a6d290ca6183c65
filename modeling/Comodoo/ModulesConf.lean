import Comodoo.Modules

set_option autoImplicit false

/-!
# The file written by `writeModulesConf`

Runs of the four entry points of `stage-1/modules.c`. The loader and the children it forks for
`modprobe` write the same file, each from its own tables.
-/
namespace Comodoo.ModulesConf
open CString Modules

/-- The tables of the loader, and the file. -/
structure World where
  modopts : Option (List ModuleOptions)
  blacklists : List (Option Str)
  conf : Option Str
  deriving DecidableEq, Repr

inductive Event where
  /-- what `readModuleOpts` and `readBlacklist` find, and the write -/
  | mlInitModuleConfig (opts blacklist : Option Str) (a : WriteAnswer)
  | mlAddBlacklist (module : Str) (a : WriteAnswer)
  | mlRemoveBlacklist (module : Str)
  /-- `forks` is false where `fork` fails -/
  | mlLoadModule (module : Str) (args : Option (List Str)) (forks : Bool) (a : WriteAnswer)
  deriving DecidableEq, Repr

/-- A call of `writeModulesConf`: the tables of the process that makes it, and the file before. -/
structure Call where
  answer : WriteAnswer
  modopts : Option (List ModuleOptions)
  blacklists : List (Option Str)
  conf : Option Str
  deriving DecidableEq, Repr

def Call.text (c : Call) : Str := confText c.modopts c.blacklists

def Call.result (c : Call) : WriteResult :=
  writeModulesConf c.answer c.modopts c.blacklists c.conf

/-- The tables after an event and the call it makes; `none` is a fault of the loader itself. -/
def callOf (isValidModule : Str → Bool) (w : World) : Event → Option (World × Option Call)
  | .mlInitModuleConfig opts blacklist a =>
    let w := { w with
      modopts := some (readModuleOpts isValidModule opts),
      blacklists := w.blacklists ++ readBlacklist blacklist }
    some (w, some ⟨a, w.modopts, w.blacklists, w.conf⟩)
  | .mlAddBlacklist module a =>
    let w := { w with blacklists := w.blacklists ++ [some module] }
    some (w, some ⟨a, w.modopts, w.blacklists, w.conf⟩)
  | .mlRemoveBlacklist module =>
    (removeBlacklist module w.blacklists).map
      (fun blacklists => ({ w with blacklists := blacklists }, none))
  | .mlLoadModule module args forks a =>
    match args with
    | none => some (w, none)
    | some args =>
      if forks then
        -- a fault in the child ends the child only
        some (w, (addArgs w.modopts module args).map
          (fun modopts => ⟨a, modopts, w.blacklists, w.conf⟩))
      else some (w, none)

def inChild : Event → Bool
  | .mlLoadModule .. => true
  | _ => false

/-- The file after a call that comes back, or that ends the child. -/
def step (isValidModule : Str → Bool) (w : World) (e : Event) : Option World :=
  (callOf isValidModule w e).bind (fun r =>
    match r.2.map Call.result with
    | none => some r.1
    | some (.returned _ conf) => some { r.1 with conf := conf }
    | some .overflow => if inChild e then some r.1 else none)

def calls (isValidModule : Str → Bool) : World → List Event → List Call
  | _, [] => []
  | w, e :: es =>
    ((callOf isValidModule w e).bind Prod.snd).toList ++
      match step isValidModule w e with
      | none => []
      | some w => calls isValidModule w es

/-- Where the call returns 0, the file holds the text and nothing else. -/
def Call.Exact (c : Call) : Prop :=
  ∀ conf, c.result = .returned 0 conf → conf = some c.text

/-- The file opens, the buffer is large enough and all of it is written. -/
def Call.completes (c : Call) : Bool :=
  c.answer.opens && (c.answer.stack ++ c.text).length < BUFSIZE &&
    match c.answer.accepted with
    | none => false
    | some n => (c.answer.stack ++ c.text).length ≤ n

/-- A complete write starts from an empty buffer and meets a file no longer than the text; where
the file does not open, it holds the text already. -/
structure Call.Fresh (c : Call) : Prop where
  written : c.completes = true → c.answer.stack = [] ∧ (c.conf.getD []).length ≤ c.text.length
  unopened : c.answer.opens = false → c.conf = some c.text

section Write

variable {c : Call}

theorem result_unopened (h : c.answer.opens = false) : c.result = .returned 0 c.conf := by
  simp [Call.result, writeModulesConf, h]

theorem result_complete (h : c.completes = true) :
    c.result = .returned 0
      (some (c.answer.stack ++ c.text ++
        (c.conf.getD []).drop (c.answer.stack ++ c.text).length)) := by
  rw [Call.completes, Bool.and_eq_true, Bool.and_eq_true, decide_eq_true_iff] at h
  obtain ⟨⟨hopen, hroom⟩, hall⟩ := h
  cases ha : c.answer.accepted with
  | none =>
    rw [ha] at hall
    cases hall
  | some n =>
    rw [ha, decide_eq_true_iff] at hall
    unfold Call.text at hroom hall ⊢
    have hbuf := Nat.not_le.mpr hroom
    rw [Call.result, writeModulesConf, if_pos hopen]
    simp only [ha, if_neg hbuf]
    rw [if_pos hall, List.take_of_length_le hall, Nat.min_eq_right hall]

theorem result_zero {conf : Option Str} (h : c.result = .returned 0 conf) :
    c.answer.opens = false ∨ c.completes = true := by
  by_cases hopen : c.answer.opens = true
  · right
    rw [Call.result, writeModulesConf, if_pos hopen] at h
    by_cases hroom : BUFSIZE ≤ (c.answer.stack ++ confText c.modopts c.blacklists).length
    · simp only [if_pos hroom] at h
      cases h
    · simp only [if_neg hroom] at h
      cases ha : c.answer.accepted with
      | none =>
        rw [ha] at h
        injection h with hrc _
        exact absurd hrc (by decide)
      | some n =>
        rw [ha] at h
        injection h with hrc _
        by_cases hn : (c.answer.stack ++ confText c.modopts c.blacklists).length ≤ n
        · simp only [Call.completes, hopen, ha, Bool.true_and, Bool.and_eq_true,
            decide_eq_true_iff]
          exact ⟨Nat.not_le.mp hroom, hn⟩
        · rw [if_neg hn] at hrc
          exact absurd hrc (by decide)
  · left
    simpa using hopen

/-- Nothing is left over from the stack or from the old file. -/
theorem append_eq_text_iff (stack text old : Str) :
    stack ++ text ++ old.drop (stack ++ text).length = text ↔
      stack = [] ∧ old.length ≤ text.length := by
  constructor
  · intro h
    have hlen := congrArg List.length h
    simp only [List.length_append, List.length_drop] at hlen
    have hstack : stack.length = 0 := by omega
    exact ⟨List.eq_nil_of_length_eq_zero hstack, by omega⟩
  · rintro ⟨rfl, hle⟩
    rw [List.nil_append, List.drop_eq_nil_of_le hle, List.append_nil]

theorem exact_iff_fresh (c : Call) : c.Exact ↔ c.Fresh := by
  constructor
  · intro h
    constructor
    · intro hc
      have hexact := h _ (result_complete hc)
      exact (append_eq_text_iff _ _ _).mp (Option.some.inj hexact)
    · intro hopen
      exact h _ (result_unopened hopen)
  · intro h conf hres
    rcases result_zero hres with hopen | hc
    · rw [result_unopened hopen] at hres
      injection hres with _ hconf
      rw [← hconf, h.unopened hopen]
    · rw [result_complete hc] at hres
      injection hres with _ hconf
      rw [← hconf, (append_eq_text_iff _ _ _).mpr (h.written hc)]

end Write

/-- In every run the file is exact after each write that returns 0 if and only if every call
that is made is fresh. -/
theorem run_exact_iff_fresh (isValidModule : Str → Bool) (w : World) (es : List Event) :
    (∀ c ∈ calls isValidModule w es, c.Exact) ↔ ∀ c ∈ calls isValidModule w es, c.Fresh := by
  constructor
  · intro h c hc
    exact (exact_iff_fresh c).mp (h c hc)
  · intro h c hc
    exact (exact_iff_fresh c).mpr (h c hc)

def plainAnswer : WriteAnswer := ⟨true, [], some 4096⟩

/-- Two modules are loaded by hand, the second with less to say. -/
def twoModules : List Event :=
  [.mlInitModuleConfig none none plainAnswer,
    .mlLoadModule (ascii "e100") (some [ascii "debug=16"]) true plainAnswer,
    .mlLoadModule (ascii "tg3") (some [ascii "x=1"]) true plainAnswer]

def secondCall : Call where
  answer := plainAnswer
  modopts := some [⟨ascii "tg3", [ascii "x=1"]⟩]
  blacklists := []
  conf := some (confText (some [⟨ascii "e100", [ascii "debug=16"]⟩]) [])

theorem twoModules_leave_rest :
    secondCall ∈ calls (fun _ => false) ⟨none, [], none⟩ twoModules ∧
      secondCall.result =
        .returned 0 (some (confText secondCall.modopts [] ++ ascii "ug=16\n")) ∧
      ¬ secondCall.Exact := by
  have hres : secondCall.result =
      .returned 0 (some (confText secondCall.modopts [] ++ ascii "ug=16\n")) := by decide +kernel
  refine ⟨by decide +kernel, hres, fun h => ?_⟩
  exact absurd (h _ hres) (by decide +kernel)

section Growth

variable {isValidModule : Str → Bool} {w w' : World} {e : Event}

theorem callOf_conf {r : Option Call} (h : callOf isValidModule w e = some (w', r)) :
    w'.conf = w.conf ∧ ∀ c, r = some c → c.conf = w.conf := by
  cases e with
  | mlInitModuleConfig opts blacklist a =>
    cases h
    exact ⟨rfl, fun c hc => by cases hc; rfl⟩
  | mlAddBlacklist module a =>
    cases h
    exact ⟨rfl, fun c hc => by cases hc; rfl⟩
  | mlRemoveBlacklist module =>
    obtain ⟨blacklists, -, heq⟩ := Option.map_eq_some_iff.mp h
    cases heq
    exact ⟨rfl, fun c hc => by cases hc⟩
  | mlLoadModule module args forks a =>
    cases args with
    | none =>
      cases h
      exact ⟨rfl, fun c hc => by cases hc⟩
    | some args =>
      cases forks with
      | false =>
        cases h
        exact ⟨rfl, fun c hc => by cases hc⟩
      | true =>
        injection h with hpair
        injection hpair with hw hr
        refine ⟨by rw [← hw], fun c hc => ?_⟩
        obtain ⟨modopts, -, rfl⟩ := Option.map_eq_some_iff.mp (hr.trans hc)
        rfl

/-- Where every write is complete and starts from an empty buffer, the file is exact throughout
if and only if the texts never get shorter. -/
theorem run_exact_iff_growing (w : World) (es : List Event)
    (h : ∀ c ∈ calls isValidModule w es, c.completes = true ∧ c.answer.stack = []) :
    (∀ c ∈ calls isValidModule w es, c.Exact) ↔
      ((w.conf.getD []).length ::
        (calls isValidModule w es).map (fun c => c.text.length)).IsChain (· ≤ ·) := by
  induction es generalizing w with
  | nil => simp [calls]
  | cons e es ih =>
    cases hcall : callOf isValidModule w e with
    | none => simp [calls, step, hcall]
    | some r =>
      obtain ⟨w', c⟩ := r
      obtain ⟨hconf, hcconf⟩ := callOf_conf hcall
      cases c with
      | none =>
        have hcalls : calls isValidModule w (e :: es) = calls isValidModule w' es := by
          simp [calls, step, hcall]
        rw [hcalls] at h ⊢
        rw [← hconf]
        exact ih w' h
      | some c =>
        have hc : c.completes = true ∧ c.answer.stack = [] := h c (by simp [calls, hcall])
        have hold := hcconf c rfl
        have hres := result_complete hc.1
        rw [hc.2, List.nil_append, hold] at hres
        have hcalls : calls isValidModule w (e :: es) = c :: calls isValidModule
            { w' with conf := some (c.text ++ (w.conf.getD []).drop c.text.length) } es := by
          simp [calls, step, hcall, hres]
        rw [hcalls] at h ⊢
        rw [List.map_cons, List.isChain_cons_cons, List.forall_mem_cons, exact_iff_fresh,
          ih _ (fun c hm => h c (List.mem_cons_of_mem _ hm))]
        have hfresh : c.Fresh ↔ (w.conf.getD []).length ≤ c.text.length := by
          constructor
          · intro hf
            rw [← hold]
            exact (hf.written hc.1).2
          · intro hle
            refine ⟨fun _ => ⟨hc.2, hold ▸ hle⟩, fun hopen => ?_⟩
            simp [Call.completes, hopen] at hc
        rw [hfresh]
        refine and_congr_right (fun hle => ?_)
        rw [List.drop_eq_nil_of_le hle, List.append_nil]
        rfl

end Growth

end Comodoo.ModulesConf
