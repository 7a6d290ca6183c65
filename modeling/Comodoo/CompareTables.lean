import Comodoo.DecimalText

set_option autoImplicit false

/-!
# Comparing the tables of two device maps

`map_dev` and `compare_tables` of `block/device.py`. A row of a table is compared as the fields of
its text, with the path of a block device read as its numbers. What `stat` answers is a parameter.
-/
namespace Comodoo.CompareTables
open CString HttpHeaders DecimalText

abbrev slash : UInt8 := 0x2f
abbrev colon : UInt8 := 0x3a
abbrev space : UInt8 := 0x20

def mirror : Str := ascii "mirror"

/-- A row, `dm.table`. -/
structure Table where
  start : ℕ
  size : ℕ
  type : Str
  params : Str
  deriving DecidableEq, Repr

def Table.text (t : Table) : Str :=
  decimal t.start ++ space :: decimal t.size ++ space :: t.type ++ space :: t.params

def strip (s : Str) : Str := ((s.dropWhile isspace).reverse.dropWhile isspace).reverse

def Table.fields (t : Table) : List Str := (strip t.text).splitOn space

section Program

-- `st_rdev` where the path names a block device
variable (blk : Str → Option ℕ)

/-- An empty path raises an IndexError. -/
def mapDev (path : Str) : Option Str :=
  match path with
  | [] => none
  | c :: _ =>
    if c ≠ slash then some path
    else
      match blk path with
      | none => some path
      | some rdev => some (decimal (rdev / 256) ++ colon :: decimal (rdev % 256))

def entry (d offset : Str) : Str := d ++ space :: offset

/-- The loop over the fields, to `table1sets` and `table2sets`; `some none` returns False. The
`i += 1` of the source has no effect on the loop. -/
def scan : List Str → List Str → Option (Option (List Str × List Str))
  | f₁ :: row₁, f₂ :: row₂ =>
    match mapDev blk f₁, mapDev blk f₂ with
    | some d₁, some d₂ =>
      if f₁ ≠ d₁ ∨ f₂ ≠ d₂ then
        match row₁, row₂ with
        | o₁ :: _, o₂ :: _ =>
          (scan row₁ row₂).map (Option.map (fun sets =>
            (entry d₁ o₁ :: sets.1, entry d₂ o₂ :: sets.2)))
        | _, _ => some none
      else if d₁ = d₂ then scan row₁ row₂
      else some none
    | _, _ => none
  | _, _ => some (some ([], []))

/-- One turn of the loop over the rows; `none` is an IndexError. -/
def compareRow (row₁ row₂ : List Str) : Option Bool :=
  if row₁.length ≠ row₂.length then some false
  else
    match scan blk row₁ row₂ with
    | none => none
    | some none => some false
    | some (some (sets₁, sets₂)) =>
      match row₁[2]? with
      | none => none
      | some kind =>
        if kind = mirror then some (decide (sets₁ ⊆ sets₂ ∧ sets₂ ⊆ sets₁))
        else some (decide (sets₁ = sets₂))

def compareTables : List Table → List Table → Option Bool
  | t₁ :: ts₁, t₂ :: ts₂ =>
    match compareRow blk t₁.fields t₂.fields with
    | none => none
    | some false => some false
    | some true => compareTables ts₁ ts₂
  | _, _ => some true

end Program

/-! ## When two tables are the same -/

section Rows
variable (blk : Str → Option ℕ)

/-- The numbers of a block device in place of its path. -/
def dev (path : Str) : Str := (mapDev blk path).getD path

/-- One of two fields in the same place is the path of a block device. -/
def Marked (f₁ f₂ : Str) : Prop := f₁ ≠ dev blk f₁ ∨ f₂ ≠ dev blk f₂

instance (f₁ f₂ : Str) : Decidable (Marked blk f₁ f₂) := inferInstanceAs (Decidable (_ ∨ _))

/-- Each device with what follows it, for both rows. -/
def legs (row₁ row₂ : List Str) : List (Str × Str) :=
  (((row₁.zip row₁.tail).zip (row₂.zip row₂.tail)).filter (fun p => Marked blk p.1.1 p.2.1)).map
    (fun p => (entry (dev blk p.1.1) p.1.2, entry (dev blk p.2.1) p.2.2))

/-- What does not concern devices is the same, and a device is not the last field. -/
structure Aligned (row₁ row₂ : List Str) : Prop where
  length : row₁.length = row₂.length
  nonempty₁ : [] ∉ row₁
  nonempty₂ : [] ∉ row₂
  plain : ∀ p ∈ row₁.zip row₂, ¬ Marked blk p.1 p.2 → p.1 = p.2
  followed : ∀ p, (row₁.zip row₂).getLast? = some p → ¬ Marked blk p.1 p.2

variable {blk}

theorem mapDev_of_ne_nil {f : Str} (h : f ≠ []) : mapDev blk f = some (dev blk f) := by
  have hsome : ∃ d, mapDev blk f = some d := by
    cases f with
    | nil => exact absurd rfl h
    | cons c f =>
      unfold mapDev
      dsimp only
      split
      · exact ⟨_, rfl⟩
      · split <;> exact ⟨_, rfl⟩
  obtain ⟨d, hd⟩ := hsome
  unfold dev
  rw [hd]
  rfl

variable {f₁ f₂ o₁ o₂ : Str} {row₁ row₂ : List Str}

theorem legs_marked (h : Marked blk f₁ f₂) : legs blk (f₁ :: o₁ :: row₁) (f₂ :: o₂ :: row₂) =
    (entry (dev blk f₁) o₁, entry (dev blk f₂) o₂) :: legs blk (o₁ :: row₁) (o₂ :: row₂) := by
  change ((((f₁, o₁), (f₂, o₂)) :: _).filter _).map _ = _
  rw [List.filter_cons_of_pos (by simp [h])]
  rfl

theorem legs_plain (hlen : row₁.length = row₂.length) (h : ¬ Marked blk f₁ f₂) :
    legs blk (f₁ :: row₁) (f₂ :: row₂) = legs blk row₁ row₂ := by
  match row₁, row₂ with
  | [], [] => rfl
  | o₁ :: row₁, o₂ :: row₂ =>
    change ((((f₁, o₁), (f₂, o₂)) :: _).filter _).map _ = _
    rw [List.filter_cons_of_neg (by simp [h])]
    rfl

theorem aligned_nil : Aligned blk [] [] where
  length := rfl
  nonempty₁ := List.not_mem_nil
  nonempty₂ := List.not_mem_nil
  plain := by simp
  followed := by simp

theorem aligned_cons_iff (hlen : row₁.length = row₂.length) :
    Aligned blk (f₁ :: row₁) (f₂ :: row₂) ↔ f₁ ≠ [] ∧ f₂ ≠ [] ∧
      (if Marked blk f₁ f₂ then row₁ ≠ [] else f₁ = f₂) ∧ Aligned blk row₁ row₂ := by
  constructor
  · intro h
    have hrest : Aligned blk row₁ row₂ := by
      refine ⟨hlen, fun hmem => h.nonempty₁ (List.mem_cons_of_mem _ hmem),
        fun hmem => h.nonempty₂ (List.mem_cons_of_mem _ hmem),
        fun p hp => h.plain p (List.mem_cons_of_mem _ hp), ?_⟩
      intro p hp
      apply h.followed p
      rw [List.zip_cons_cons, List.getLast?_cons, hp]
      rfl
    refine ⟨fun hf => h.nonempty₁ (by simp [hf]), fun hf => h.nonempty₂ (by simp [hf]), ?_, hrest⟩
    split
    · rename_i hmarked
      intro hnil
      rw [hnil] at h hlen
      exact h.followed (f₁, f₂) (by simp) hmarked
    · rename_i hmarked
      exact h.plain (f₁, f₂) (by simp) hmarked
  · rintro ⟨hf₁, hf₂, hhead, hrest⟩
    refine ⟨congrArg (· + 1) hlen, ?_, ?_, ?_, ?_⟩
    · simp [hrest.nonempty₁, Ne.symm hf₁]
    · simp [hrest.nonempty₂, Ne.symm hf₂]
    · intro p hp hmarked
      cases List.mem_cons.mp hp with
      | inl hp =>
        subst hp
        rw [if_neg hmarked] at hhead
        exact hhead
      | inr hp => exact hrest.plain p hp hmarked
    · intro p hp
      rw [List.zip_cons_cons, List.getLast?_cons] at hp
      cases hlast : (row₁.zip row₂).getLast? with
      | none =>
        rw [hlast] at hp
        cases hp
        intro (hmarked : Marked blk f₁ f₂)
        rw [if_pos hmarked] at hhead
        have hnil := List.getLast?_eq_none_iff.mp hlast
        have hlength := congrArg List.length hnil
        rw [List.length_zip, ← hlen, min_self] at hlength
        exact hhead (List.length_eq_zero_iff.mp hlength)
      | some q =>
        rw [hlast] at hp
        cases hp
        exact hrest.followed q hlast

theorem scan_cons (hf₁ : f₁ ≠ []) (hf₂ : f₂ ≠ []) :
    scan blk (f₁ :: row₁) (f₂ :: row₂) =
      if Marked blk f₁ f₂ then
        match row₁, row₂ with
        | o₁ :: _, o₂ :: _ =>
          (scan blk row₁ row₂).map (Option.map (fun sets =>
            (entry (dev blk f₁) o₁ :: sets.1, entry (dev blk f₂) o₂ :: sets.2)))
        | _, _ => some none
      else if f₁ = f₂ then scan blk row₁ row₂
      else some none := by
  rw [scan, mapDev_of_ne_nil hf₁, mapDev_of_ne_nil hf₂]
  by_cases hmarked : Marked blk f₁ f₂
  · exact (if_pos hmarked).trans (if_pos hmarked).symm
  · have hsame : dev blk f₁ = f₁ ∧ dev blk f₂ = f₂ := by
      constructor
      · by_contra h
        exact hmarked (Or.inl (Ne.symm h))
      · by_contra h
        exact hmarked (Or.inr (Ne.symm h))
    apply (if_neg hmarked).trans
    rw [if_neg hmarked, hsame.1, hsame.2]

theorem scan_eq_some_iff (sets : List Str × List Str) (hlen : row₁.length = row₂.length) :
    scan blk row₁ row₂ = some (some sets) ↔ Aligned blk row₁ row₂ ∧
      sets = ((legs blk row₁ row₂).map Prod.fst, (legs blk row₁ row₂).map Prod.snd) := by
  induction row₁ generalizing row₂ sets with
  | nil =>
    rw [List.eq_nil_of_length_eq_zero hlen.symm]
    constructor
    · intro h
      cases h
      exact ⟨aligned_nil, rfl⟩
    · rintro ⟨-, rfl⟩
      rfl
  | cons f₁ row₁ ih =>
    cases row₂ with
    | nil => cases hlen
    | cons f₂ row₂ =>
      have hlen' : row₁.length = row₂.length := Nat.succ.inj hlen
      rw [aligned_cons_iff hlen']
      by_cases hf₁ : f₁ = []
      · simp [hf₁, scan, mapDev]
      by_cases hf₂ : f₂ = []
      · simp [hf₂, scan, mapDev]
      rw [scan_cons hf₁ hf₂]
      by_cases hmarked : Marked blk f₁ f₂
      · rw [if_pos hmarked, if_pos hmarked]
        cases row₁ with
        | nil =>
          rw [List.eq_nil_of_length_eq_zero hlen'.symm]
          simp
        | cons o₁ row₁ =>
          cases row₂ with
          | nil => cases hlen'
          | cons o₂ row₂ =>
            rw [legs_marked hmarked]
            constructor
            · intro h
              obtain ⟨got, hscan, hgot⟩ := Option.map_eq_some_iff.mp h
              obtain ⟨rest, rfl, rfl⟩ := Option.map_eq_some_iff.mp hgot
              obtain ⟨haligned, rfl⟩ := (ih rest hlen').mp hscan
              exact ⟨⟨hf₁, hf₂, List.cons_ne_nil _ _, haligned⟩, rfl⟩
            · rintro ⟨⟨-, -, -, haligned⟩, rfl⟩
              rw [(ih _ hlen').mpr ⟨haligned, rfl⟩]
              rfl
      · rw [if_neg hmarked, if_neg hmarked, legs_plain hlen' hmarked]
        by_cases heq : f₁ = f₂
        · rw [if_pos heq, ih sets hlen']
          simp [hf₂, heq]
        · simp [heq]

structure SameRow (blk : Str → Option ℕ) (row₁ row₂ : List Str) : Prop where
  aligned : Aligned blk row₁ row₂
  three : 3 ≤ row₁.length
  devices : if row₁[2]? = some mirror then
      ∀ e, e ∈ (legs blk row₁ row₂).map Prod.fst ↔ e ∈ (legs blk row₁ row₂).map Prod.snd
    else (legs blk row₁ row₂).map Prod.fst = (legs blk row₁ row₂).map Prod.snd

theorem sets_eq_true_iff (sets₁ sets₂ : List Str) :
    (match row₁[2]? with
      | none => none
      | some kind =>
        if kind = mirror then some (decide (sets₁ ⊆ sets₂ ∧ sets₂ ⊆ sets₁))
        else some (decide (sets₁ = sets₂))) = some true ↔
      3 ≤ row₁.length ∧
        if row₁[2]? = some mirror then ∀ e, e ∈ sets₁ ↔ e ∈ sets₂ else sets₁ = sets₂ := by
  cases hkind : row₁[2]? with
  | none =>
    have hshort := List.getElem?_eq_none_iff.mp hkind
    constructor
    · intro h
      cases h
    · rintro ⟨hthree, -⟩
      omega
  | some kind =>
    have hthree : 3 ≤ row₁.length := (List.getElem?_eq_some_iff.mp hkind).1
    by_cases hmirror : kind = mirror
    · rw [if_pos (congrArg some hmirror)]
      dsimp only
      rw [if_pos hmirror, Option.some.injEq, decide_eq_true_iff]
      constructor
      · intro h
        exact ⟨hthree, fun e => ⟨fun he => h.1 he, fun he => h.2 he⟩⟩
      · intro h
        exact ⟨fun e => (h.2 e).mp, fun e => (h.2 e).mpr⟩
    · rw [if_neg (fun h => hmirror (Option.some.inj h))]
      dsimp only
      rw [if_neg hmirror, Option.some.injEq, decide_eq_true_iff]
      exact ⟨fun h => ⟨hthree, h⟩, fun h => h.2⟩

theorem compareRow_eq_true_iff : compareRow blk row₁ row₂ = some true ↔ SameRow blk row₁ row₂ := by
  unfold compareRow
  by_cases hlen : row₁.length = row₂.length
  · rw [if_neg (not_not_intro hlen)]
    constructor
    · intro h
      match hscan : scan blk row₁ row₂ with
      | none =>
        rw [hscan] at h
        cases h
      | some none =>
        rw [hscan] at h
        cases h
      | some (some sets) =>
        obtain ⟨haligned, rfl⟩ := (scan_eq_some_iff sets hlen).mp hscan
        rw [hscan] at h
        have hsets := (sets_eq_true_iff _ _).mp h
        exact ⟨haligned, hsets.1, hsets.2⟩
    · intro h
      rw [(scan_eq_some_iff _ hlen).mpr ⟨h.aligned, rfl⟩]
      exact (sets_eq_true_iff _ _).mpr ⟨h.three, h.devices⟩
  · rw [if_pos hlen]
    constructor
    · intro h
      cases h
    · intro h
      exact absurd h.aligned.length hlen

end Rows

/-- Rows are compared as far as the shorter table goes, so that a table without rows is the same as
any. -/
theorem compareTables_eq_true_iff (blk : Str → Option ℕ) (t₁ t₂ : List Table) :
    compareTables blk t₁ t₂ = some true ↔ ∀ p ∈ t₁.zip t₂, SameRow blk p.1.fields p.2.fields := by
  induction t₁ generalizing t₂ with
  | nil => simp [compareTables]
  | cons row₁ t₁ ih =>
    cases t₂ with
    | nil => simp [compareTables]
    | cons row₂ t₂ =>
      rw [List.zip_cons_cons, List.forall_mem_cons, ← ih, ← compareRow_eq_true_iff, compareTables]
      cases compareRow blk row₁.fields row₂.fields with
      | none => simp
      | some same => cases same <;> simp

/-! ## Rows of a raid set -/

/-- Devices with their offsets behind the other fields. -/
structure RaidRow (blk : Str → Option ℕ) where
  head : List Str
  members : List (Str × Str)
  three : 3 ≤ head.length
  plain : ∀ f ∈ head, f ≠ [] ∧ dev blk f = f
  paths : ∀ m ∈ members, m.1 ≠ [] ∧ space ∉ m.1
  offsets : ∀ m ∈ members, m.2 ≠ [] ∧ dev blk m.2 = m.2

def membersFields (members : List (Str × Str)) : List Str := members.flatMap (fun m => [m.1, m.2])

def RaidRow.fields {blk : Str → Option ℕ} (r : RaidRow blk) : List Str :=
  r.head ++ membersFields r.members

section RaidRows

variable {blk : Str → Option ℕ} {f₁ f₂ : Str} {head₁ head₂ row₁ row₂ : List Str}
  {members₁ members₂ : List (Str × Str)}

theorem not_marked (h₁ : dev blk f₁ = f₁) (h₂ : dev blk f₂ = f₂) : ¬ Marked blk f₁ f₂ := by
  intro h
  exact h.elim (fun h => h h₁.symm) (fun h => h h₂.symm)

theorem aligned_head (hlen : head₁.length = head₂.length) (hrow : row₁.length = row₂.length)
    (h₁ : ∀ f ∈ head₁, f ≠ [] ∧ dev blk f = f) (h₂ : ∀ f ∈ head₂, f ≠ [] ∧ dev blk f = f) :
    (Aligned blk (head₁ ++ row₁) (head₂ ++ row₂) ↔ head₁ = head₂ ∧ Aligned blk row₁ row₂) ∧
      legs blk (head₁ ++ row₁) (head₂ ++ row₂) = legs blk row₁ row₂ := by
  induction head₁ generalizing head₂ with
  | nil =>
    rw [List.eq_nil_of_length_eq_zero hlen.symm]
    simp
  | cons f₁ head₁ ih =>
    cases head₂ with
    | nil => cases hlen
    | cons f₂ head₂ =>
      rw [List.forall_mem_cons] at h₁ h₂
      have hlen' : head₁.length = head₂.length := Nat.succ.inj hlen
      have hboth : (head₁ ++ row₁).length = (head₂ ++ row₂).length := by
        rw [List.length_append, List.length_append, hlen', hrow]
      have hmarked := not_marked h₁.1.2 h₂.1.2
      have hrest := ih hlen' h₁.2 h₂.2
      constructor
      · rw [List.cons_append, List.cons_append, aligned_cons_iff hboth, if_neg hmarked, hrest.1,
          List.cons.injEq]
        simp [h₁.1.1, h₂.1.1, and_assoc]
      · exact (legs_plain hboth hmarked).trans hrest.2

theorem membersFields_length (members : List (Str × Str)) :
    (membersFields members).length = 2 * members.length := by
  induction members with
  | nil => rfl
  | cons m members ih =>
    change (membersFields members).length + 2 = 2 * (members.length + 1)
    omega

theorem membersFields_cons (m : Str × Str) (members : List (Str × Str)) :
    membersFields (m :: members) = m.1 :: m.2 :: membersFields members := rfl

def memberEntry (blk : Str → Option ℕ) (m : Str × Str) : Str := entry (dev blk m.1) m.2

theorem aligned_members (hlen : members₁.length = members₂.length)
    (hpaths₁ : ∀ m ∈ members₁, m.1 ≠ []) (hpaths₂ : ∀ m ∈ members₂, m.1 ≠ [])
    (hoffsets₁ : ∀ m ∈ members₁, m.2 ≠ [] ∧ dev blk m.2 = m.2)
    (hoffsets₂ : ∀ m ∈ members₂, m.2 ≠ [] ∧ dev blk m.2 = m.2)
    (hmarked : ∀ p ∈ members₁.zip members₂, Marked blk p.1.1 p.2.1) :
    (Aligned blk (membersFields members₁) (membersFields members₂) ↔
        members₁.map Prod.snd = members₂.map Prod.snd) ∧
      (legs blk (membersFields members₁) (membersFields members₂)).map Prod.fst =
        members₁.map (memberEntry blk) ∧
      (legs blk (membersFields members₁) (membersFields members₂)).map Prod.snd =
        members₂.map (memberEntry blk) := by
  induction members₁ generalizing members₂ with
  | nil =>
    rw [List.eq_nil_of_length_eq_zero hlen.symm]
    exact ⟨⟨fun _ => rfl, fun _ => aligned_nil⟩, rfl, rfl⟩
  | cons m₁ members₁ ih =>
    cases members₂ with
    | nil => cases hlen
    | cons m₂ members₂ =>
      rw [List.forall_mem_cons] at hpaths₁ hpaths₂ hoffsets₁ hoffsets₂
      rw [List.zip_cons_cons, List.forall_mem_cons] at hmarked
      have hlen' : members₁.length = members₂.length := Nat.succ.inj hlen
      have hrest := ih hlen' hpaths₁.2 hpaths₂.2 hoffsets₁.2 hoffsets₂.2 hmarked.2
      have hfields : (membersFields members₁).length = (membersFields members₂).length := by
        rw [membersFields_length, membersFields_length, hlen']
      have hfields' : (m₁.2 :: membersFields members₁).length =
          (m₂.2 :: membersFields members₂).length := congrArg (· + 1) hfields
      have hoffset := not_marked hoffsets₁.1.2 hoffsets₂.1.2
      have hlegs : legs blk (membersFields (m₁ :: members₁)) (membersFields (m₂ :: members₂)) =
          (memberEntry blk m₁, memberEntry blk m₂) ::
            legs blk (membersFields members₁) (membersFields members₂) := by
        rw [membersFields_cons, membersFields_cons, legs_marked hmarked.1,
          legs_plain hfields hoffset]
        rfl
      rw [hlegs]
      refine ⟨?_, congrArg (memberEntry blk m₁ :: ·) hrest.2.1,
        congrArg (memberEntry blk m₂ :: ·) hrest.2.2⟩
      rw [membersFields_cons, membersFields_cons, aligned_cons_iff hfields', if_pos hmarked.1,
        aligned_cons_iff hfields, if_neg hoffset, hrest.1, List.map_cons,
        List.map_cons, List.cons.injEq]
      simp [hpaths₁.1, hpaths₂.1, hoffsets₁.1.1, hoffsets₂.1.1]

theorem space_not_mem_dev (h : space ∉ f₁) : space ∉ dev blk f₁ := by
  have hdecimal : ∀ n, space ∉ decimal n := by
    intro n hmem
    have hdigit := isdigit_decimal n space hmem
    exact absurd hdigit (by decide)
  unfold dev mapDev
  cases f₁ with
  | nil => exact h
  | cons c f =>
    dsimp only
    split
    · exact h
    · cases blk (c :: f) with
      | none => exact h
      | some rdev =>
        change space ∉ decimal (rdev / 256) ++ colon :: decimal (rdev % 256)
        rw [List.mem_append, List.mem_cons, not_or, not_or]
        exact ⟨hdecimal _, by decide, hdecimal _⟩

def numbered (blk : Str → Option ℕ) (m : Str × Str) : Str × Str := (dev blk m.1, m.2)

theorem memberEntry_inj {m₁ m₂ : Str × Str} (h₁ : space ∉ m₁.1) (h₂ : space ∉ m₂.1) :
    memberEntry blk m₁ = memberEntry blk m₂ ↔ numbered blk m₁ = numbered blk m₂ := by
  constructor
  · intro h
    have hcut := congrArg (strchr space) h
    unfold memberEntry entry at hcut
    rw [strchr_append _ _ _ (space_not_mem_dev h₁), strchr_append _ _ _ (space_not_mem_dev h₂)] at hcut
    exact Option.some.inj hcut
  · intro h
    exact congrArg (fun e => entry e.1 e.2) h

section Maps

variable {α β γ : Type} {f : α → β} {g : α → γ} {l₁ l₂ : List α}

theorem map_eq_map_iff_of_inj (h : ∀ a ∈ l₁, ∀ b ∈ l₂, f a = f b ↔ g a = g b) :
    l₁.map f = l₂.map f ↔ l₁.map g = l₂.map g := by
  induction l₁ generalizing l₂ with
  | nil => cases l₂ <;> simp
  | cons a l₁ ih =>
    cases l₂ with
    | nil => simp
    | cons b l₂ =>
      have hrest := @ih l₂ (fun a' ha b' hb =>
        h a' (List.mem_cons_of_mem a ha) b' (List.mem_cons_of_mem b hb))
      rw [List.map_cons, List.map_cons, List.map_cons, List.map_cons, List.cons.injEq,
        List.cons.injEq, hrest, h a List.mem_cons_self b List.mem_cons_self]

theorem forall_mem_map_iff_of_inj (h : ∀ a ∈ l₁, ∀ b ∈ l₂, f a = f b ↔ g a = g b) :
    (∀ e, e ∈ l₁.map f ↔ e ∈ l₂.map f) ↔ (∀ e, e ∈ l₁.map g ↔ e ∈ l₂.map g) := by
  have hleft : ∀ a ∈ l₁, f a ∈ l₂.map f ↔ g a ∈ l₂.map g := by
    intro a ha
    rw [List.mem_map, List.mem_map]
    apply exists_congr
    intro b
    apply and_congr_right
    intro hb
    rw [eq_comm, h a ha b hb, eq_comm]
  have hright : ∀ b ∈ l₂, f b ∈ l₁.map f ↔ g b ∈ l₁.map g := by
    intro b hb
    rw [List.mem_map, List.mem_map]
    apply exists_congr
    intro a
    apply and_congr_right
    intro ha
    exact h a ha b hb
  have hsplit : ∀ {δ : Type} (l l' : List δ),
      (∀ e, e ∈ l ↔ e ∈ l') ↔ (∀ e ∈ l, e ∈ l') ∧ ∀ e ∈ l', e ∈ l := by
    intro δ l l'
    exact ⟨fun h => ⟨fun e => (h e).mp, fun e => (h e).mpr⟩, fun h e => ⟨h.1 e, h.2 e⟩⟩
  rw [hsplit, hsplit, List.forall_mem_map, List.forall_mem_map, List.forall_mem_map,
    List.forall_mem_map]
  exact and_congr (forall₂_congr hleft) (forall₂_congr hright)

end Maps

/-- Two rows of one shape with a path on one side of each member: all but the members is the same,
the offsets stand in the same order, and the members are the same ones, in the same order unless
the row is a mirror. -/
theorem compareRow_members (r₁ r₂ : RaidRow blk) (hhead : r₁.head.length = r₂.head.length)
    (hlen : r₁.members.length = r₂.members.length)
    (hmarked : ∀ p ∈ r₁.members.zip r₂.members, Marked blk p.1.1 p.2.1) :
    compareRow blk r₁.fields r₂.fields = some true ↔
      r₁.head = r₂.head ∧ r₁.members.map Prod.snd = r₂.members.map Prod.snd ∧
        if r₁.head[2]? = some mirror then
          ∀ e, e ∈ r₁.members.map (numbered blk) ↔ e ∈ r₂.members.map (numbered blk)
        else r₁.members.map (numbered blk) = r₂.members.map (numbered blk) := by
  have hfields : (membersFields r₁.members).length = (membersFields r₂.members).length := by
    rw [membersFields_length, membersFields_length, hlen]
  have hhead' := aligned_head hhead hfields r₁.plain r₂.plain
  have hmembers := aligned_members hlen (fun m hm => (r₁.paths m hm).1)
    (fun m hm => (r₂.paths m hm).1) r₁.offsets r₂.offsets hmarked
  have hinj : ∀ m ∈ r₁.members, ∀ m' ∈ r₂.members,
      memberEntry blk m = memberEntry blk m' ↔ numbered blk m = numbered blk m' :=
    fun m hm m' hm' => memberEntry_inj (r₁.paths m hm).2 (r₂.paths m' hm').2
  have hkind : (r₁.head ++ membersFields r₁.members)[2]? = r₁.head[2]? :=
    List.getElem?_append_left r₁.three
  have hthree : 3 ≤ r₁.fields.length := by
    have := r₁.three
    change 3 ≤ (r₁.head ++ membersFields r₁.members).length
    rw [List.length_append]
    omega
  have hdevices : (if r₁.head[2]? = some mirror then
        ∀ e, e ∈ r₁.members.map (memberEntry blk) ↔ e ∈ r₂.members.map (memberEntry blk)
      else r₁.members.map (memberEntry blk) = r₂.members.map (memberEntry blk)) ↔
      if r₁.head[2]? = some mirror then
        ∀ e, e ∈ r₁.members.map (numbered blk) ↔ e ∈ r₂.members.map (numbered blk)
      else r₁.members.map (numbered blk) = r₂.members.map (numbered blk) := by
    split
    · exact forall_mem_map_iff_of_inj hinj
    · exact map_eq_map_iff_of_inj hinj
  rw [compareRow_eq_true_iff, ← hdevices]
  have hsame : SameRow blk r₁.fields r₂.fields ↔ Aligned blk r₁.fields r₂.fields ∧ _ :=
    ⟨fun h => ⟨h.aligned, h.devices⟩, fun h => ⟨h.1, hthree, h.2⟩⟩
  unfold RaidRow.fields at hsame ⊢
  rw [hsame, hhead'.1, hmembers.1, hkind, hhead'.2, hmembers.2.1, hmembers.2.2, and_assoc]

def disks (path : Str) : Option ℕ :=
  if path = ascii "/dev/sda" then some 0x800
  else if path = ascii "/dev/sdb" then some 0x810
  else none

def mirrorOf (members : List (Str × Str)) (hpaths : ∀ m ∈ members, m.1 ≠ [] ∧ space ∉ m.1)
    (hoffsets : ∀ m ∈ members, m.2 ≠ [] ∧ dev disks m.2 = m.2) : RaidRow disks where
  head := [ascii "0", ascii "100", mirror, ascii "core", ascii "1", ascii "64", ascii "2"]
  members := members
  three := by decide
  plain := by decide
  paths := hpaths
  offsets := hoffsets

/-- The mirror as the kernel has it; it is asked for with the other disk first. -/
def kernelRow : RaidRow disks :=
  mirrorOf [(ascii "8:0", ascii "0"), (ascii "8:16", ascii "0")] (by decide) (by decide)

def raidRow : RaidRow disks :=
  mirrorOf [(ascii "/dev/sdb", ascii "0"), (ascii "/dev/sda", ascii "0")] (by decide) (by decide)

theorem compareRow_members_swapped :
    compareRow disks kernelRow.fields raidRow.fields = some true ∧
      kernelRow.members.map (numbered disks) ≠ raidRow.members.map (numbered disks) := by
  refine ⟨(compareRow_members kernelRow raidRow rfl rfl (by decide)).mpr ⟨rfl, rfl, ?_⟩, by decide⟩
  rw [if_pos (by decide)]
  intro e
  change e ∈ [(ascii "8:0", ascii "0"), (ascii "8:16", ascii "0")] ↔
    e ∈ [(ascii "8:16", ascii "0"), (ascii "8:0", ascii "0")]
  simp [or_comm]

end RaidRows

end Comodoo.CompareTables
