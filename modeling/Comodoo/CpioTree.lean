import Comodoo.CpioDiskLinks

set_option autoImplicit false

/-!
# The tree of an archive

What an archive asks for, and how far a disk has got with it after some of the entries. A
member of a hard-link group may still be missing; the directories above a file are there once
the file has been made, whether they are entries or not.
-/
namespace Comodoo.CpioTree
open CString CpioSystem CpioRead CpioExpand CpioInstall CpioGroups CpioDisk CpioDiskCalls
open CpioDiskFiles CpioDiskLinks FilePath

structure Item where
  head : CpioHeader
  data : Str
  deriving DecidableEq, Repr

def place (e : Item) : Place := names e.head.path

def above (e : Item) : Place := (place e).dropLast

def isDirEntry (e : Item) : Bool := S_ISDIR e.head.mode

def isMember (e : Item) : Bool := isLink e.head

def sameGroup (e m : Item) : Bool :=
  isMember e = true ∧ isMember m = true ∧ m.head.inode = e.head.inode ∧
    m.head.dev = e.head.dev

/-- The first member of the group of `e` that carries data. -/
def carrier (es : List Item) (e : Item) : Option Item :=
  es.find? (fun c => sameGroup e c = true ∧ c.data ≠ [])

/-- The entry that says what the file of `e` is: of the members of a group the one with the
data, or the first one if there are no data. -/
def origin (es : List Item) (e : Item) : Item :=
  (carrier es e).getD ((es.find? (sameGroup e)).getD e)

structure Installable (es : List Item) : Prop where
  proper : ∀ e ∈ es, Proper e.head.path
  named : ∀ e ∈ es, isDirEntry e = false → endsInName e.head.path = true
  distinct : es.Pairwise (fun e e' => place e ≠ place e')
  creatable : ∀ e ∈ es, Creatable e.head e.data
  nested : ∀ e ∈ es, ∀ e' ∈ es, place e' <+: above e → isDirEntry e' = true
  nlinks : ∀ e ∈ es, ∀ m ∈ es, sameGroup e m = true → m.head.nlink = e.head.nlink
  members : ∀ e ∈ es, isMember e = true → ((es.filter (sameGroup e)).length : ℤ) ≤ e.head.nlink

/-- The entry comes with the directories above it: `checkDirectory` is called for it. -/
def checked (done : List Item) (e : Item) : Bool := isMember e = false ∨ carrier done e = some e

def HasDir (done : List Item) (cs : Place) : Prop :=
  cs = [] ∨ ∃ e ∈ done, checked done e = true ∧
    (cs <+: above e ∨ isDirEntry e = true ∧ cs = place e)

instance (done : List Item) (cs : Place) : Decidable (HasDir done cs) :=
  inferInstanceAs (Decidable (cs = [] ∨ ∃ e ∈ done, checked done e = true ∧
    (cs <+: above e ∨ isDirEntry e = true ∧ cs = place e)))

theorem forall_split {es : List Item} {p : List Item → Item → List Item → Prop} :
    (∀ k : Fin es.length, p (es.take k) es[k] (es.drop (k + 1))) ↔
      ∀ front e rest, es = front ++ e :: rest → p front e rest := by
  constructor
  · rintro h front e rest rfl
    have hk := h ⟨front.length, by simp⟩
    simpa using hk
  · intro h k
    refine h _ _ _ ?_
    rw [Fin.getElem_fin, List.getElem_cons_drop k.isLt, List.take_append_drop]

instance (es : List Item) (p : List Item → Item → List Item → Prop)
    [∀ front e rest, Decidable (p front e rest)] :
    Decidable (∀ front e rest, es = front ++ e :: rest → p front e rest) :=
  decidable_of_iff _ forall_split

section Carrier

variable {done : List Item} {e m c : Item}

theorem sameGroup_iff : sameGroup e m = true ↔ isMember e = true ∧ isMember m = true ∧
    m.head.inode = e.head.inode ∧ m.head.dev = e.head.dev := by
  rw [sameGroup, decide_eq_true_iff]

theorem carrier_spec (h : carrier done e = some c) :
    c ∈ done ∧ sameGroup e c = true ∧ c.data ≠ [] := by
  have hc := List.find?_some h
  rw [decide_eq_true_iff] at hc
  exact ⟨List.mem_of_find?_eq_some h, hc⟩

theorem sameGroup_congr (h : sameGroup e m = true) : sameGroup m = sameGroup e := by
  rw [sameGroup_iff] at h
  funext c
  rw [Bool.eq_iff_iff, sameGroup_iff, sameGroup_iff, h.2.2.1, h.2.2.2]
  simp only [h.1, h.2.1]

theorem sameGroup_symm (h : sameGroup e m = true) : sameGroup m e = true := by
  rw [sameGroup_iff] at h ⊢
  exact ⟨h.2.1, h.1, h.2.2.1.symm, h.2.2.2.symm⟩

theorem sameGroup_trans (h : sameGroup e m = true) (h' : sameGroup m c = true) :
    sameGroup e c = true := by
  rwa [sameGroup_congr h] at h'

theorem carrier_congr (h : sameGroup e m = true) : carrier done m = carrier done e := by
  rw [carrier, carrier, sameGroup_congr h]

theorem carrier_self (h : carrier done e = some c) : carrier done c = some c := by
  rw [carrier_congr (carrier_spec h).2.1, h]

theorem carrier_append_of_some (h : carrier done e = some c) (rest : List Item) :
    carrier (done ++ rest) e = some c := by
  rw [carrier, List.find?_append, ← carrier, h, Option.some_or]

theorem carrier_append_of_none (h : carrier done e = none) (rest : List Item) :
    carrier (done ++ rest) e = carrier rest e := by
  rw [carrier, List.find?_append, ← carrier, h, Option.none_or, ← carrier]

theorem carrier_single (e m : Item) :
    carrier [m] e = if sameGroup e m = true ∧ m.data ≠ [] then some m else none := by
  rw [carrier, List.find?_cons]
  split
  · rename_i h
    rw [if_pos (by simpa using h)]
  · rename_i h
    rw [if_neg (by simpa using h)]
    rfl

theorem carrier_not_member (h : isMember e = false) : carrier done e = none := by
  rw [carrier, List.find?_eq_none]
  intro c _ hc
  rw [decide_eq_true_iff, sameGroup_iff, h] at hc
  cases hc.1.1

/-- An entry further on does not change who carries the data, or who is checked. -/
theorem carrier_append_old (hm : m ∈ done) (he : e ∉ done) :
    carrier (done ++ [e]) m = some m ↔ carrier done m = some m := by
  cases hc : carrier done m with
  | some c => rw [carrier_append_of_some hc]
  | none =>
    rw [carrier_append_of_none hc, carrier_single]
    split
    · refine ⟨fun h => absurd (Option.some.inj h ▸ hm) he, fun h => ?_⟩
      cases h
    · rfl

theorem checked_append (hm : m ∈ done) (he : e ∉ done) :
    checked (done ++ [e]) m = checked done m := by
  simp only [checked, carrier_append_old hm he]

end Carrier

section Dirs

variable {done : List Item} {e : Item}

theorem hasDir_mono (he : e ∉ done) {cs : Place} (h : HasDir done cs) : HasDir (done ++ [e]) cs := by
  refine h.imp_right ?_
  rintro ⟨m, hm, hchecked, hcs⟩
  exact ⟨m, List.mem_append_left _ hm, by rw [checked_append hm he]; exact hchecked, hcs⟩

theorem hasDir_append (he : e ∉ done) (cs : Place) :
    HasDir (done ++ [e]) cs ↔ HasDir done cs ∨ checked (done ++ [e]) e = true ∧
      (cs <+: above e ∨ isDirEntry e = true ∧ cs = place e) := by
  constructor
  · rintro (h | ⟨m, hm, hchecked, hcs⟩)
    · exact Or.inl (Or.inl h)
    · rcases List.mem_append.mp hm with hm | hm
      · rw [checked_append hm he] at hchecked
        exact Or.inl (Or.inr ⟨m, hm, hchecked, hcs⟩)
      · obtain rfl := List.mem_singleton.mp hm
        exact Or.inr ⟨hchecked, hcs⟩
  · rintro (h | ⟨hchecked, hcs⟩)
    · exact hasDir_mono he h
    · exact Or.inr ⟨e, by simp, hchecked, hcs⟩

end Dirs

/-- What the disk holds after some entries, the set of directories apart. -/
structure Core (done : List Item) (d : Disk) : Prop where
  sound : Sound d
  only : ∀ cs, d.ino cs ≠ none → d.isDir cs = true ∨ ∃ e ∈ done, place e = cs
  implied : ∀ cs i, d.ino cs = some i → (∀ e ∈ done, place e ≠ cs) → d.node i = dirNode
  plain : ∀ e ∈ done, isMember e = false →
    ∃ i, d.ino (place e) = some i ∧ d.node i = nodeOf e.head e.data
  linked : ∀ e ∈ done, isMember e = true → ∀ i, d.ino (place e) = some i →
    ∃ c, carrier done e = some c ∧ d.ino (place c) = some i ∧ d.node i = nodeOf c.head c.data
  apart : ∀ cs cs' i, d.ino cs = some i → d.ino cs' = some i →
    cs = cs' ∨ ∃ e ∈ done, ∃ e' ∈ done, place e = cs ∧ place e' = cs' ∧ sameGroup e e' = true

section Core

variable {done : List Item} {d : Disk} {cs : Place} {e : Item}

theorem place_cases (hs : Sound d) {n : Node} {x : Place} {i : ℕ}
    (h : (d.place cs n).ino x = some i) :
    (x = cs ∧ i = d.next) ∨
      (x ≠ cs ∧ d.ino x = some i ∧ i ≠ d.next ∧ (d.place cs n).node i = d.node i) := by
  by_cases hx : x = cs
  · subst hx
    rw [Disk.place_ino_self] at h
    exact Or.inl ⟨rfl, (Option.some.inj h).symm⟩
  · rw [Disk.place_ino_ne d n hx] at h
    have hi := Nat.ne_of_lt (hs.bound x i h)
    exact Or.inr ⟨hx, h, hi, Disk.place_node_ne d cs n hi⟩

theorem ne_of_absent {x : Place} {i : ℕ} (habsent : d.ino cs = none) (hx : d.ino x = some i) :
    x ≠ cs := by
  rintro rfl
  rw [habsent] at hx
  cases hx

theorem place_old (hs : Sound d) (habsent : d.ino cs = none) (n : Node) {x : Place} {i : ℕ}
    (hx : d.ino x = some i) :
    (d.place cs n).ino x = some i ∧ (d.place cs n).node i = d.node i := by
  refine ⟨?_, Disk.place_node_ne d cs n (Nat.ne_of_lt (hs.bound x i hx))⟩
  rw [Disk.place_ino_ne d n (ne_of_absent habsent hx), hx]

theorem place_shared (hs : Sound d) {n : Node} {x y : Place} {i : ℕ}
    (hx : (d.place cs n).ino x = some i) (hy : (d.place cs n).ino y = some i) :
    x = y ∨ d.ino x = some i ∧ d.ino y = some i := by
  rcases place_cases hs hx with ⟨hxc, hin⟩ | ⟨-, hx, hin, -⟩ <;>
    rcases place_cases hs hy with ⟨hyc, hin'⟩ | ⟨-, hy, hin', -⟩
  · exact Or.inl (hxc.trans hyc.symm)
  · exact absurd hin hin'
  · exact absurd hin' hin
  · exact Or.inr ⟨hx, hy⟩

theorem Core.addDir (h : Core done d) (hf : d.Fresh cs) (hnew : ∀ e ∈ done, place e ≠ cs) :
    Core done (d.place cs dirNode) where
  sound := h.sound.place hf dirNode
  only x hx := by
    rw [isDir_place h.sound]
    by_cases hxc : x = cs
    · rw [if_pos hxc]
      exact Or.inl dirNode_isDir
    · rw [if_neg hxc]
      rw [Disk.place_ino_ne d _ hxc] at hx
      exact h.only x hx
  implied x i hx hold := by
    rcases place_cases h.sound hx with ⟨-, rfl⟩ | ⟨-, hx, -, hnode⟩
    · exact Disk.place_node_self d cs dirNode
    · rw [hnode]
      exact h.implied x i hx hold
  plain e he hplain := by
    obtain ⟨i, hi, hnode⟩ := h.plain e he hplain
    obtain ⟨hi', hnode'⟩ := place_old h.sound hf.absent dirNode hi
    exact ⟨i, hi', hnode'.trans hnode⟩
  linked e he hlink i hi := by
    rcases place_cases h.sound hi with ⟨heq, -⟩ | ⟨-, hi, -, hnode⟩
    · exact absurd heq (hnew e he)
    · obtain ⟨c, hc, hci, hcn⟩ := h.linked e he hlink i hi
      exact ⟨c, hc, (place_old h.sound hf.absent dirNode hci).1, hnode.trans hcn⟩
  apart x y i hx hy := by
    rcases place_shared h.sound hx hy with heq | ⟨hx, hy⟩
    · exact Or.inl heq
    · exact h.apart x y i hx hy

theorem Core.addFile (h : Core done d) (hf : d.Fresh (place e))
    (hnew : ∀ m ∈ done, place m ≠ place e)
    (hcarry : isMember e = true → carrier (done ++ [e]) e = some e) :
    Core (done ++ [e]) (d.place (place e) (nodeOf e.head e.data)) where
  sound := h.sound.place hf _
  only x hx := by
    by_cases hxe : x = place e
    · exact Or.inr ⟨e, by simp, hxe.symm⟩
    · rw [isDir_place h.sound, if_neg hxe]
      rw [Disk.place_ino_ne d _ hxe] at hx
      refine (h.only x hx).imp_right ?_
      rintro ⟨m, hm, hmx⟩
      exact ⟨m, List.mem_append_left _ hm, hmx⟩
  implied x i hx hold := by
    rcases place_cases h.sound hx with ⟨hxe, -⟩ | ⟨-, hx, -, hnode⟩
    · exact absurd hxe.symm (hold e (by simp))
    · rw [hnode]
      exact h.implied x i hx (fun m hm => hold m (List.mem_append_left _ hm))
  plain m hm hplain := by
    rcases List.mem_append.mp hm with hm | hm
    · obtain ⟨i, hi, hnode⟩ := h.plain m hm hplain
      obtain ⟨hi', hnode'⟩ := place_old h.sound hf.absent (nodeOf e.head e.data) hi
      exact ⟨i, hi', hnode'.trans hnode⟩
    · obtain rfl := List.mem_singleton.mp hm
      exact ⟨d.next, Disk.place_ino_self d _ _, Disk.place_node_self d _ _⟩
  linked m hm hlink i hi := by
    rcases List.mem_append.mp hm with hm | hm
    · rcases place_cases h.sound hi with ⟨heq, -⟩ | ⟨-, hi, -, hnode⟩
      · exact absurd heq (hnew m hm)
      · obtain ⟨c, hc, hci, hcn⟩ := h.linked m hm hlink i hi
        exact ⟨c, carrier_append_of_some hc _, (place_old h.sound hf.absent _ hci).1,
          hnode.trans hcn⟩
    · obtain rfl := List.mem_singleton.mp hm
      have hself := Disk.place_ino_self d (place m) (nodeOf m.head m.data)
      obtain rfl := Option.some.inj (hself.symm.trans hi)
      exact ⟨m, hcarry hlink, hself, Disk.place_node_self d _ _⟩
  apart x y i hx hy := by
    rcases place_shared h.sound hx hy with heq | ⟨hx, hy⟩
    · exact Or.inl heq
    · refine (h.apart x y i hx hy).imp_right ?_
      rintro ⟨m, hm, m', hm', hmx, hmy, hsame⟩
      exact ⟨m, List.mem_append_left _ hm, m', List.mem_append_left _ hm', hmx, hmy, hsame⟩

theorem Core.addWaiting (h : Core done d) (habsent : d.ino (place e) = none)
    (hlink : isMember e = true) : Core (done ++ [e]) d where
  sound := h.sound
  only x hx := by
    refine (h.only x hx).imp_right ?_
    rintro ⟨m, hm, hmx⟩
    exact ⟨m, List.mem_append_left _ hm, hmx⟩
  implied x i hx hold := h.implied x i hx (fun m hm => hold m (List.mem_append_left _ hm))
  plain m hm hplain := by
    rcases List.mem_append.mp hm with hm | hm
    · exact h.plain m hm hplain
    · obtain rfl := List.mem_singleton.mp hm
      rw [hlink] at hplain
      cases hplain
  linked m hm hmem i hi := by
    rcases List.mem_append.mp hm with hm | hm
    · obtain ⟨c, hc, hci, hcn⟩ := h.linked m hm hmem i hi
      exact ⟨c, carrier_append_of_some hc _, hci, hcn⟩
    · obtain rfl := List.mem_singleton.mp hm
      exact absurd rfl (ne_of_absent habsent hi)
  apart x y i hx hy := by
    refine (h.apart x y i hx hy).imp_right ?_
    rintro ⟨m, hm, m', hm', hmx, hmy, hsame⟩
    exact ⟨m, List.mem_append_left _ hm, m', List.mem_append_left _ hm', hmx, hmy, hsame⟩

theorem isDir_setNode {i : ℕ} {f : Node → Node}
    (h : S_ISDIR (f (d.node i)).mode = S_ISDIR (d.node i).mode) (x : Place) :
    (d.setNode i f).isDir x = d.isDir x := by
  have hino : (d.setNode i f).ino x = d.ino x := rfl
  unfold Disk.isDir
  rw [hino]
  cases d.ino x with
  | none => rw [Option.any_none, Option.any_none]
  | some j =>
    rw [Option.any_some, Option.any_some]
    by_cases hj : j = i
    · rw [hj, setNode_node, h]
    · have hnode : (d.setNode i f).node j = d.node j := by simp [Disk.setNode, hj]
      rw [hnode]

theorem S_IFMT_mod (mode : ℕ) : S_IFMT (mode % 65536) = S_IFMT mode := by
  simp only [S_IFMT]
  omega

theorem nodeOf_isDir (ch : CpioHeader) (data : Str) :
    S_ISDIR (nodeOf ch data).mode = S_ISDIR ch.mode := by
  unfold S_ISDIR
  by_cases hlnk : S_ISLNK ch.mode = true
  · have hmode : S_IFMT 0o120777 = 0o120000 := by simp [S_IFMT]
    rw [nodeOf, if_pos hlnk]
    unfold S_ISLNK at hlnk
    rw [decide_eq_true_iff] at hlnk
    simp only [hmode, hlnk]
  · rw [nodeOf, if_neg hlnk, S_IFMT_mod]

theorem Core.touch (h : Core done d) {i : ℕ} (hdir : isDirEntry e = true) (hdata : e.data = [])
    (hplain : isMember e = false) (hi : d.ino (place e) = some i) (hnode : d.node i = dirNode)
    (hnew : ∀ m ∈ done, place m ≠ place e) :
    Core (done ++ [e]) (d.setNode i (fun _ => nodeOf e.head [])) := by
  have hisDir : ∀ x, (d.setNode i (fun _ => nodeOf e.head [])).isDir x = d.isDir x := by
    refine isDir_setNode ?_
    rw [hnode, dirNode_isDir, nodeOf_isDir]
    exact hdir
  have hother : ∀ x j, d.ino x = some j → x ≠ place e →
      (d.setNode i (fun _ => nodeOf e.head [])).node j = d.node j := by
    intro x j hx hne
    have hj : j ≠ i := by
      rintro rfl
      rcases h.apart x (place e) j hx hi with heq | ⟨-, -, m, hm, -, heq, -⟩
      · exact hne heq
      · exact hnew m hm heq
    simp [Disk.setNode, hj]
  refine ⟨⟨?_, h.sound.bound, ?_⟩, ?_, ?_, ?_, ?_, ?_⟩
  · rw [hisDir]
    exact h.sound.root
  · intro x j hne hx
    rw [hisDir]
    exact h.sound.parents x j hne hx
  · intro x hx
    rw [hisDir]
    refine (h.only x hx).imp_right ?_
    rintro ⟨m, hm, hmx⟩
    exact ⟨m, List.mem_append_left _ hm, hmx⟩
  · intro x j hx hold
    rw [hother x j hx (fun heq => hold e (by simp) heq.symm)]
    exact h.implied x j hx (fun m hm => hold m (List.mem_append_left _ hm))
  · intro m hm hmplain
    rcases List.mem_append.mp hm with hm | hm
    · obtain ⟨j, hj, hjn⟩ := h.plain m hm hmplain
      exact ⟨j, hj, (hother _ j hj (hnew m hm)).trans hjn⟩
    · obtain rfl := List.mem_singleton.mp hm
      exact ⟨i, hi, by rw [setNode_node, hdata]⟩
  · intro m hm hlink j hj
    rcases List.mem_append.mp hm with hm | hm
    · obtain ⟨c, hc, hcj, hcn⟩ := h.linked m hm hlink j hj
      exact ⟨c, carrier_append_of_some hc _, hcj, (hother _ j hj (hnew m hm)).trans hcn⟩
    · obtain rfl := List.mem_singleton.mp hm
      rw [hplain] at hlink
      cases hlink
  · intro x y j hx hy
    refine (h.apart x y j hx hy).imp_right ?_
    rintro ⟨m, hm, m', hm', hmx, hmy, hsame⟩
    exact ⟨m, List.mem_append_left _ hm, m', List.mem_append_left _ hm', hmx, hmy, hsame⟩

theorem member_isReg (h : isMember e = true) : S_ISREG e.head.mode = true := by
  rw [isMember, isLink, decide_eq_true_iff] at h
  exact h.1

theorem member_notDir (h : isMember e = true) (data : Str) :
    S_ISDIR (nodeOf e.head data).mode = false := by
  have hreg := member_isReg h
  rw [nodeOf_isDir]
  unfold S_ISREG at hreg
  unfold S_ISDIR
  rw [decide_eq_true_iff] at hreg
  rw [decide_eq_false_iff_not]
  omega

theorem Core.join (h : Core done d) {m c : Item} {i : ℕ}
    (hapart : ∀ a ∈ done, ∀ b ∈ done, place a = place b → a = b) (hm : m ∈ done)
    (hlink : isMember m = true) (hcarry : carrier done m = some c) (hi : d.ino (place c) = some i)
    (hnode : d.node i = nodeOf c.head c.data) (hf : d.Fresh (place m)) :
    Core done (d.join (place m) i) := by
  obtain ⟨hc, hgroup, -⟩ := carrier_spec hcarry
  have hfile : S_ISDIR (d.node i).mode = false := by
    rw [hnode]
    exact member_notDir (sameGroup_iff.mp hgroup).2.1 _
  have hisDir := isDir_join hf.absent hfile
  have hself : (d.join (place m) i).ino (place m) = some i := by simp [Disk.join]
  have hold : ∀ {x j}, d.ino x = some j → (d.join (place m) i).ino x = some j := by
    intro x j hx
    rw [join_ino_ne (ne_of_absent hf.absent hx), hx]
  -- whoever has the inode of the carrier is in its group
  have hshare : ∀ {y}, d.ino y = some i → ∃ e ∈ done, place e = y ∧ sameGroup m e = true := by
    intro y hy
    rcases h.apart y (place c) i hy hi with rfl | ⟨e, he, e', he', hey, hec, hsame⟩
    · exact ⟨c, hc, rfl, hgroup⟩
    · obtain rfl := hapart e' he' c hc hec
      exact ⟨e, he, hey, sameGroup_trans hgroup (sameGroup_symm hsame)⟩
  refine ⟨sound_join h.sound hf (h.sound.bound _ _ hi) hfile, ?_, ?_, ?_, ?_, ?_⟩
  · intro x hx
    rw [hisDir]
    by_cases hxm : x = place m
    · exact Or.inr ⟨m, hm, hxm.symm⟩
    · rw [join_ino_ne hxm] at hx
      exact h.only x hx
  · intro x j hx hnone
    have hxm : x ≠ place m := fun heq => hnone m hm heq.symm
    rw [join_ino_ne hxm] at hx
    exact h.implied x j hx hnone
  · intro e he hplain
    obtain ⟨j, hj, hjn⟩ := h.plain e he hplain
    exact ⟨j, hold hj, hjn⟩
  · intro e he hmem j hj
    by_cases heq : place e = place m
    · obtain rfl := hapart e he m hm heq
      obtain rfl := Option.some.inj (hself.symm.trans hj)
      exact ⟨c, hcarry, hold hi, hnode⟩
    · rw [join_ino_ne heq] at hj
      obtain ⟨c', hc', hcj, hcn⟩ := h.linked e he hmem j hj
      exact ⟨c', hc', hold hcj, hcn⟩
  · intro x y j hx hy
    by_cases hxm : x = place m <;> by_cases hym : y = place m
    · exact Or.inl (hxm.trans hym.symm)
    · subst hxm
      obtain rfl := Option.some.inj (hself.symm.trans hx)
      rw [join_ino_ne hym] at hy
      obtain ⟨e, he, hey, hsame⟩ := hshare hy
      exact Or.inr ⟨m, hm, e, he, rfl, hey, hsame⟩
    · subst hym
      obtain rfl := Option.some.inj (hself.symm.trans hy)
      rw [join_ino_ne hxm] at hx
      obtain ⟨e, he, hex, hsame⟩ := hshare hx
      exact Or.inr ⟨e, he, m, hm, hex, rfl, sameGroup_symm hsame⟩
    · rw [join_ino_ne hxm] at hx
      rw [join_ino_ne hym] at hy
      exact h.apart x y j hx hy

theorem Core.addDirs {d' : Disk} {css : List Place} (hadd : AddDirs d d' css) (h : Core done d)
    (hnew : ∀ x ∈ css, ∀ e ∈ done, place e ≠ x) : Core done d' := by
  induction hadd with
  | none => exact h
  | add hf _ ih =>
    exact ih (h.addDir hf (hnew _ (by simp))) (fun x hx => hnew x (by simp [hx]))

end Core

end Comodoo.CpioTree
