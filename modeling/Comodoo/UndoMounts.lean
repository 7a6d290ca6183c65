import Comodoo.CString
import Comodoo.Postorder
import Mathlib.Data.Fintype.EquivFin

set_option autoImplicit false

/-!
# Undoing mounts and loop devices

`undoMount`, `undoLoop` and the two passes of `unmountFilesystems` of `stage-1/undomounts.c`
over a table of `n` entries. `mounted` is the only field that changes. The results of the system
calls are ignored there; whether `/tmp/loop` opens decides if `LOOP_CLR_FD` is issued.
-/
namespace Comodoo.UndoMounts
open CString Postorder

abbrev slash : UInt8 := 0x2f

inductive What where
  | FS
  | LOOP
  deriving DecidableEq, Repr

structure UnmountInfo where
  name : Str
  loopDevice : ℤ
  what : What
  deriving DecidableEq, Repr

/-- A system call and the entry it is made for. -/
inductive Call (n : ℕ) where
  | umount2 (this : Fin n)
  | loopClrFd (this : Fin n)
  deriving DecidableEq, Repr

structure State (n : ℕ) where
  mounted : Fin n → Bool
  calls : List (Call n)

/-- `fs[this].mounted = 0` -/
def State.clear {n : ℕ} (s : State n) (this : Fin n) : State n :=
  { s with mounted := Function.update s.mounted this false }

def State.call {n : ℕ} (s : State n) (c : Call n) : State n := { s with calls := s.calls ++ [c] }

variable {n : ℕ} (fs : Fin n → UnmountInfo)

/-- The name of `i` goes on with a slash where the name of `this` ends. -/
def underneath (this i : Fin n) : Bool :=
  (fs this).name.length ≤ (fs i).name.length &&
    (fs i).name[(fs this).name.length]? = some slash && (fs this).name.isPrefixOf (fs i).name

def deviceMount (this : Fin n) : Option (Fin n) :=
  (List.finRange n).find? (fun i => (fs i).what = .FS && (fs i).loopDevice = (fs this).loopDevice)

/-- `testing` is the loader's test mode; `opens` says which loop devices can be opened. -/
structure Env where
  testing : Bool
  opens : ℤ → Bool

variable (env : Env)

mutual

def undoMount : ℕ → State n → Fin n → Option (State n)
  | 0, _, _ => none
  | fuel + 1, s, this =>
    if s.mounted this then
      ((List.finRange n).foldlM (fun s i =>
        if underneath fs this i then
          match (fs i).what with
          | .LOOP => undoLoop fuel s i
          | .FS => undoMount fuel s i
        else some s) (s.clear this)).map
        (fun s => if env.testing then s else s.call (.umount2 this))
    else some s

def undoLoop : ℕ → State n → Fin n → Option (State n)
  | 0, _, _ => none
  | fuel + 1, s, this =>
    if s.mounted this then
      (match deviceMount fs this with
        | some i => undoMount fuel (s.clear this) i
        | none => some (s.clear this)).map
        (fun (s : State n) =>
          if env.opens (fs this).loopDevice && !env.testing then s.call (.loopClrFd this) else s)
    else some s

end

/-- The two passes, from the table as it has been filled. -/
def unmountFilesystems (fuel : ℕ) : Option (State n) :=
  ((List.finRange n).foldlM (fun s i =>
    if (fs i).what = .LOOP then undoLoop fs env fuel s i else some s)
    ⟨fun _ => true, []⟩).bind (fun s =>
  (List.finRange n).foldlM (fun s i =>
    if s.mounted i then undoMount fs env fuel s i else some s) s)

/-- `x` has to be undone before `y`: it lies under the mount point of `y`, or is the file system
on the loop device `y`. -/
def MustPrecede (x y : Fin n) : Prop :=
  (fs y).what = .FS ∧ (fs y).name ++ [slash] <+: (fs x).name ∨
    (fs y).what = .LOOP ∧ (fs x).what = .FS ∧ (fs x).loopDevice = (fs y).loopDevice

instance (x y : Fin n) : Decidable (MustPrecede fs x y) := inferInstanceAs (Decidable (_ ∨ _))

/-- Loop devices have numbers below 16 and are mounted at most once. -/
structure Table : Prop where
  number : ∀ y, (fs y).what = .LOOP → 0 ≤ (fs y).loopDevice ∧ (fs y).loopDevice < 16
  once : ∀ x x' y, (fs y).what = .LOOP → (fs x).what = .FS → (fs x').what = .FS →
    (fs x).loopDevice = (fs y).loopDevice → (fs x').loopDevice = (fs y).loopDevice → x = x'

def undoCall (i : Fin n) : Call n :=
  match (fs i).what with
  | .FS => .umount2 i
  | .LOOP => .loopClrFd i

/-- Nothing is called in test mode, and `LOOP_CLR_FD` only on a device that can be opened. -/
def issued (i : Fin n) : Bool :=
  !env.testing && ((fs i).what = .FS || env.opens (fs i).loopDevice)

/-- What is visited on the way to an entry. -/
def before (this : Fin n) : List (Fin n) :=
  match (fs this).what with
  | .FS => (List.finRange n).filter (underneath fs this)
  | .LOOP => (deviceMount fs this).toList

section Order

variable {fs}

theorem underneath_iff (this i : Fin n) :
    underneath fs this i = true ↔ (fs this).name ++ [slash] <+: (fs i).name := by
  simp only [underneath, Bool.and_eq_true, decide_eq_true_iff, List.isPrefixOf_iff_prefix]
  constructor
  · rintro ⟨⟨-, hget⟩, t, ht⟩
    rw [← ht, List.getElem?_append_right (Nat.le_refl _), Nat.sub_self] at hget
    cases t with
    | nil => cases hget
    | cons b t =>
      obtain rfl := Option.some.inj hget
      exact ⟨t, by rw [← ht, List.append_assoc, List.singleton_append]⟩
  · rintro ⟨t, ht⟩
    rw [List.append_assoc, List.singleton_append] at ht
    refine ⟨⟨?_, ?_⟩, slash :: t, ht⟩
    · rw [← ht, List.length_append]
      omega
    · rw [← ht, List.getElem?_append_right (Nat.le_refl _), Nat.sub_self]
      rfl

theorem precedes_iff (ht : Table fs) (x y : Fin n) :
    Precedes (before fs) x y ↔ MustPrecede fs x y := by
  unfold Precedes before MustPrecede
  cases hy : (fs y).what with
  | FS =>
    rw [List.mem_filter, underneath_iff]
    simp
  | LOOP =>
    rw [Option.mem_toList, deviceMount]
    constructor
    · intro h
      have hx := List.find?_some h
      rw [Bool.and_eq_true, decide_eq_true_iff, decide_eq_true_iff] at hx
      exact Or.inr ⟨rfl, hx⟩
    · intro h
      obtain ⟨-, hx, hdev⟩ := h.resolve_left (fun h => by cases h.1)
      cases hf : (List.finRange n).find? (fun i =>
          (fs i).what = .FS && (fs i).loopDevice = (fs y).loopDevice) with
      | none =>
        have hnone := List.find?_eq_none.mp hf x (List.mem_finRange x)
        simp [hx, hdev] at hnone
      | some x' =>
        have hx' := List.find?_some hf
        rw [Bool.and_eq_true, decide_eq_true_iff, decide_eq_true_iff] at hx'
        rw [ht.once x x' y hy hx hx'.1 hdev hx'.2]

end Order

section Simulate

def ofWalk (w : Walk (Fin n)) : State n :=
  ⟨fun i => decide (i ∉ w.seen), (w.out.filter (issued fs env)).map (undoCall fs)⟩

variable {fs env}

theorem foldlM_ofWalk (fs : Fin n → UnmountInfo) (env : Env) {f : State n → Fin n → Option (State n)}
    {g : Walk (Fin n) → Fin n → Option (Walk (Fin n))} (xs : List (Fin n))
    (h : ∀ w, ∀ x ∈ xs, f (ofWalk fs env w) x = (g w x).map (ofWalk fs env)) (w : Walk (Fin n)) :
    xs.foldlM f (ofWalk fs env w) = (xs.foldlM g w).map (ofWalk fs env) := by
  induction xs generalizing w with
  | nil => rfl
  | cons x xs ih =>
    rw [List.foldlM_cons, List.foldlM_cons, h w x List.mem_cons_self]
    cases g w x with
    | none => rfl
    | some w' => exact ih (fun v y hy => h v y (List.mem_cons_of_mem _ hy)) w'

theorem clear_ofWalk (w : Walk (Fin n)) (this : Fin n) :
    (ofWalk fs env w).clear this = ofWalk fs env ⟨this :: w.seen, w.out⟩ := by
  have hmounted : Function.update (fun i => decide (i ∉ w.seen)) this false =
      fun i => decide (i ∉ this :: w.seen) := by
    funext i
    by_cases hi : i = this
    · rw [hi, Function.update_self]
      simp
    · rw [Function.update_of_ne hi]
      simp [hi]
  rw [State.clear, ofWalk, hmounted]
  rfl

theorem call_ofWalk (w : Walk (Fin n)) (i : Fin n) :
    (if issued fs env i then (ofWalk fs env w).call (undoCall fs i) else ofWalk fs env w) =
      ofWalk fs env ⟨w.seen, w.out ++ [i]⟩ := by
  by_cases hi : issued fs env i = true
  · simp [State.call, ofWalk, hi]
  · simp [ofWalk, hi]

/-- `undoMount` or `undoLoop`, as the entry asks for. -/
def undo (fs : Fin n → UnmountInfo) (env : Env) (fuel : ℕ) (s : State n) (i : Fin n) :
    Option (State n) :=
  match (fs i).what with
  | .LOOP => undoLoop fs env fuel s i
  | .FS => undoMount fs env fuel s i

theorem deviceMount_what {this i : Fin n} (h : deviceMount fs this = some i) :
    (fs i).what = .FS := by
  have hi := List.find?_some h
  rw [Bool.and_eq_true, decide_eq_true_iff] at hi
  exact hi.1

theorem undo_succ (fuel : ℕ) (s : State n) (this : Fin n) :
    undo fs env (fuel + 1) s this =
      if s.mounted this then
        ((before fs this).foldlM (undo fs env fuel) (s.clear this)).map
          (fun s => if issued fs env this then s.call (undoCall fs this) else s)
      else some s := by
  rw [undo, before, undoCall, issued]
  cases hw : (fs this).what with
  | FS =>
    dsimp only
    rw [undoMount, List.foldlM_filter]
    cases env.testing <;> rfl
  | LOOP =>
    dsimp only
    rw [undoLoop]
    have htest : (!env.testing && (decide (What.LOOP = What.FS) ||
        env.opens (fs this).loopDevice)) =
        (env.opens (fs this).loopDevice && !env.testing) := by
      cases env.testing <;> simp
    rw [htest]
    cases hd : deviceMount fs this with
    | none => rfl
    | some i =>
      have hi : undo fs env fuel (s.clear this) i = undoMount fs env fuel (s.clear this) i := by
        rw [undo, deviceMount_what hd]
      rw [Option.toList_some, List.foldlM_cons, hi]
      simp

/-- The recursion is a depth-first search in postorder. -/
theorem undo_ofWalk (fuel : ℕ) (w : Walk (Fin n)) (i : Fin n) :
    undo fs env fuel (ofWalk fs env w) i = (visit (before fs) fuel w i).map (ofWalk fs env) := by
  induction fuel generalizing w i with
  | zero =>
    rw [undo]
    cases (fs i).what with
    | FS => rfl
    | LOOP => rfl
  | succ fuel ih =>
    rw [undo_succ, visit]
    by_cases hi : i ∈ w.seen
    · rw [if_pos hi, if_neg (by simp [ofWalk, hi])]
      rfl
    · rw [if_neg hi, if_pos (by simp [ofWalk, hi]), clear_ofWalk,
        foldlM_ofWalk fs env (before fs i) (fun v x _ => ih v x), Option.map_map, Option.map_map]
      congr 1
      funext v
      exact call_ofWalk v i

theorem secondPass_ofWalk (fuel : ℕ) (xs : List (Fin n))
    (w : Walk (Fin n)) (hf : n < fuel) (hloops : ∀ i, (fs i).what = .LOOP → i ∈ w.seen) :
    xs.foldlM (fun s i => if s.mounted i then undoMount fs env fuel s i else some s)
      (ofWalk fs env w) = (xs.foldlM (visit (before fs) fuel) w).map (ofWalk fs env) := by
  induction xs generalizing w with
  | nil => rfl
  | cons i xs ih =>
    have hcard : Fintype.card (Fin n) < fuel := by rw [Fintype.card_fin]; exact hf
    obtain ⟨w', hw', hsub⟩ := visit_isSome (before fs) i (unseen_card_lt w hcard)
    rw [List.foldlM_cons, List.foldlM_cons, hw']
    have hstep : (if (ofWalk fs env w).mounted i then undoMount fs env fuel (ofWalk fs env w) i
        else some (ofWalk fs env w)) = some (ofWalk fs env w') := by
      have hundo := @undo_ofWalk n fs env fuel w i
      rw [hw', Option.map_some] at hundo
      by_cases hi : i ∈ w.seen
      · obtain ⟨fuel', rfl⟩ : ∃ fuel', fuel = fuel' + 1 := ⟨fuel - 1, by omega⟩
        rw [visit, if_pos hi] at hw'
        cases hw'
        rw [if_neg (by simp [ofWalk, hi])]
      · have hfs : (fs i).what = .FS := by
          cases hw : (fs i).what with
          | FS => rfl
          | LOOP => exact absurd (hloops i hw) hi
        rw [undo, hfs] at hundo
        rw [if_pos (by simp [ofWalk, hi])]
        exact hundo
    rw [hstep]
    exact ih w' (fun j hj => hsub (hloops j hj))

theorem unmountFilesystems_eq (fuel : ℕ) (hf : n < fuel)
    {w : Walk (Fin n)}
    (hw : ((List.finRange n).filter (fun i => (fs i).what = .LOOP)).foldlM
      (visit (before fs) fuel) ⟨[], []⟩ = some w)
    (hloops : ∀ i, (fs i).what = .LOOP → i ∈ w.seen) :
    unmountFilesystems fs env fuel =
      ((List.finRange n).foldlM (visit (before fs) fuel) w).map (ofWalk fs env) := by
  have hstart : (⟨fun _ => true, []⟩ : State n) = ofWalk fs env ⟨[], []⟩ := by
    simp [ofWalk]
  have hfirst : (List.finRange n).foldlM (fun s i =>
      if (fs i).what = .LOOP then undoLoop fs env fuel s i else some s)
      ⟨fun _ => true, []⟩ = some (ofWalk fs env w) := by
    have hpass := foldlM_ofWalk fs env ((List.finRange n).filter
      (fun i => (fs i).what = .LOOP)) (fun v x _ => undo_ofWalk fuel v x) ⟨[], []⟩
    rw [hw, List.foldlM_filter, ← hstart] at hpass
    rw [← Option.map_some, ← hpass]
    congr 1
    funext s i
    by_cases hi : (fs i).what = .LOOP
    · simp [hi, undo]
    · simp [hi]
  rw [unmountFilesystems, hfirst, Option.bind_some]
  exact secondPass_ofWalk fuel _ w hf hloops

end Simulate

/-- Every entry is undone once, behind all that has to be undone before it; for a loop device that
cannot be opened there is no call. -/
structure Undone (s : State n) : Prop where
  unmarked : ∀ i, s.mounted i = false
  once : s.calls.Nodup
  mounts : ∀ i, .umount2 i ∈ s.calls ↔ (fs i).what = .FS ∧ env.testing = false
  loops : ∀ i, .loopClrFd i ∈ s.calls ↔ (fs i).what = .LOOP ∧ env.testing = false ∧
    env.opens (fs i).loopDevice = true
  order : ∀ x y l r, MustPrecede fs x y → issued fs env x = true →
    s.calls = l ++ undoCall fs y :: r → undoCall fs x ∈ l

section Undone

variable {fs env}

theorem undoCall_injective : Function.Injective (undoCall fs) := by
  intro i j h
  unfold undoCall at h
  cases hi : (fs i).what with
  | FS =>
    cases hj : (fs j).what with
    | FS => rw [hi, hj] at h; exact Call.umount2.inj h
    | LOOP => rw [hi, hj] at h; cases h
  | LOOP =>
    cases hj : (fs j).what with
    | FS => rw [hi, hj] at h; cases h
    | LOOP => rw [hi, hj] at h; exact Call.loopClrFd.inj h

theorem mem_calls {w : Walk (Fin n)} (hall : ∀ i, i ∈ w.out) (c : Call n) :
    c ∈ (ofWalk fs env w).calls ↔ ∃ i, issued fs env i = true ∧ undoCall fs i = c := by
  simp only [ofWalk, List.mem_map, List.mem_filter, hall, true_and]

theorem ofWalk_undone {w : Walk (Fin n)} (ht : Table fs) (hinv : Inv (before fs) [] w)
    (hall : ∀ i, i ∈ w.out) : Undone fs env (ofWalk fs env w) := by
  refine ⟨fun i => ?_, ?_, fun i => ?_, fun i => ?_, fun x y l r hxy hx heq => ?_⟩
  · have hseen : i ∈ w.seen := (hinv.seen i).mpr (Or.inl (hall i))
    simp [ofWalk, hseen]
  · exact (hinv.nodup.filter _).map undoCall_injective
  · rw [mem_calls hall]
    constructor
    · rintro ⟨j, hj, hcall⟩
      unfold undoCall at hcall
      cases hw : (fs j).what with
      | FS =>
        rw [hw] at hcall
        rw [← Call.umount2.inj hcall, hw]
        exact ⟨rfl, by simpa [issued, hw] using hj⟩
      | LOOP => rw [hw] at hcall; cases hcall
    · rintro ⟨hi, htest⟩
      exact ⟨i, by simp [issued, hi, htest], by rw [undoCall, hi]⟩
  · rw [mem_calls hall]
    constructor
    · rintro ⟨j, hj, hcall⟩
      unfold undoCall at hcall
      cases hw : (fs j).what with
      | FS => rw [hw] at hcall; cases hcall
      | LOOP =>
        rw [hw] at hcall
        rw [← Call.loopClrFd.inj hcall, hw]
        exact ⟨rfl, by simpa [issued, hw] using hj⟩
    · rintro ⟨hi, htest, hopen⟩
      exact ⟨i, by simp [issued, hi, htest, hopen], by rw [undoCall, hi]⟩
  · obtain ⟨l', r', hfilter, rfl, hr⟩ := List.map_eq_append_iff.mp heq
    obtain ⟨y', r'', rfl, hy, -⟩ := List.map_eq_cons_iff.mp hr
    rw [undoCall_injective hy] at hfilter
    obtain ⟨front, back, hout, hfront, hback⟩ := List.filter_eq_append_iff.mp hfilter
    obtain ⟨skipped, rest, rfl, hskipped, -, -⟩ := List.filter_eq_cons_iff.mp hback
    -- what is passed over between two calls has none of its own
    have hxmem := hinv.ordered (front ++ skipped) y rest (by rw [hout, List.append_assoc]) x
      ((precedes_iff ht x y).mpr hxy)
    refine List.mem_map_of_mem ?_
    rw [← hfront, List.mem_filter]
    exact ⟨(List.mem_append.mp hxmem).resolve_right (fun hskip => hskipped x hskip hx), hx⟩

end Undone

/-- On every table whose entries wait for each other in no circle, both passes end and undo each
entry once, in order. -/
theorem unmountFilesystems_undone (n : ℕ) (fs : Fin n → UnmountInfo) (env : Env) (ht : Table fs)
    (hac : ∀ x, ¬ Relation.TransGen (MustPrecede fs) x x) (fuel : ℕ) (hf : n < fuel) :
    ∃ s, unmountFilesystems fs env fuel = some s ∧ Undone fs env s := by
  have hrel : Precedes (before fs) = MustPrecede fs := by
    funext x y
    exact propext (precedes_iff ht x y)
  rw [← hrel] at hac
  have hcard : Fintype.card (Fin n) < fuel := by rw [Fintype.card_fin]; exact hf
  obtain ⟨w, hw, hinv, hroots⟩ := visit_roots hac hcard
    ((List.finRange n).filter (fun i => (fs i).what = .LOOP)) (inv_start (before fs))
  have hloops : ∀ i, (fs i).what = .LOOP → i ∈ w.seen := by
    intro i hi
    refine (hinv.seen i).mpr (Or.inl (hroots i ?_))
    rw [List.mem_filter]
    exact ⟨List.mem_finRange i, by simpa using hi⟩
  obtain ⟨w', hw', hinv', hall⟩ := visit_roots hac hcard (List.finRange n) hinv
  refine ⟨ofWalk fs env w', ?_, ?_⟩
  · rw [unmountFilesystems_eq fuel hf hw hloops, hw', Option.map_some]
  · exact ofWalk_undone ht hinv' (fun i => hall i (List.mem_finRange i))

/-- A loop device on an image below one mount point, itself mounted at another. -/
def imageTable : Fin 3 → UnmountInfo := fun i =>
  match i with
  | 0 => ⟨ascii "/mnt/isodir", -1, .FS⟩
  | 1 => ⟨ascii "/mnt/source", 0, .FS⟩
  | 2 => ⟨ascii "/mnt/isodir/disc1.iso", 0, .LOOP⟩

def imageRank : Fin 3 → ℕ := fun i =>
  match i with
  | 0 => 2
  | 1 => 0
  | 2 => 1

theorem unmountFilesystems_image :
    ∃ s, unmountFilesystems imageTable ⟨false, fun _ => true⟩ 4 = some s ∧
      Undone imageTable ⟨false, fun _ => true⟩ s := by
  refine unmountFilesystems_undone 3 imageTable _ ⟨?_, ?_⟩
    (Postorder.acyclic_of_rank imageRank (by decide)) 4 (by decide)
  · decide
  · decide

/-- Where `/tmp/loop` cannot be opened, the loop device is not freed. -/
theorem unopenable_not_cleared :
    Table imageTable ∧ (∀ x, ¬ Relation.TransGen (MustPrecede imageTable) x x) ∧
      ∃ s, unmountFilesystems imageTable ⟨false, fun _ => false⟩ 4 = some s ∧
        .loopClrFd 2 ∉ s.calls := by
  refine ⟨⟨by decide, by decide⟩, Postorder.acyclic_of_rank imageRank (by decide), ?_⟩
  have hcalls : (unmountFilesystems imageTable ⟨false, fun _ => false⟩ 4).map State.calls =
      some [.umount2 1, .umount2 0] := by decide +kernel
  obtain ⟨s, hs, hlist⟩ := Option.map_eq_some_iff.mp hcalls
  exact ⟨s, hs, by rw [hlist]; decide⟩

end Comodoo.UndoMounts
