import Mathlib.Data.List.Perm.Subperm
import Mathlib.Logic.Function.Basic
import Comodoo.CString

set_option autoImplicit false

/-!
# Messages of the kernel

`get_netlink_msg` of `stage-1/fwloader.c`. Of the buffer the model keeps what stands from a pointer
on; the buffer is static, so older bytes follow the NUL behind the message.
-/
namespace Comodoo.UeventMessage
open CString

abbrev NUL : UInt8 := 0x00
abbrev atSign : UInt8 := 0x40
abbrev equals : UInt8 := 0x3d

abbrev BUFFER : ℕ := 2560

/-- `envz`: a name stands for an entry without a value or for one with a value. -/
abbrev Env := Str → Option (Option Str)

def Env.empty : Env := fun _ => none

def Env.add (env : Env) (name : Str) (value : Option Str) : Env :=
  Function.update env name (some value)

def Env.get (env : Env) (name : Str) : Option Str := (env name).join

structure Uevent where
  msg : Str
  path : Str
  env : Env

inductive Received where
  | failed
  | outside
  | ok (uevent : Uevent)

def cstr (pos : Str) : Str := pos.takeWhile (· ≠ NUL)

/-- `pos += strlen(pos) + 1`. -/
def skip (pos : Str) : Option Str := (strchr NUL pos).map Prod.snd

/-- The NUL in place of the `=`, and `value`. -/
def cutEquals (pos : Str) : Str × Option Str :=
  match strchr equals (cstr pos) with
  | none => (pos, none)
  | some (name, _) => (pos.set name.length NUL, some (pos.drop (name.length + 1)))

/-- The loop; `none` when it leaves the buffer. Every round passes a byte, so the first argument can
be the number of bytes left. -/
def walk : ℕ → Str → Env → Option Env
  | 0, _, _ => none
  | _ + 1, [], _ => none
  | left + 1, b :: bytes, env =>
    if b = NUL then some env
    else
      let cut := cutEquals (b :: bytes)
      let added := env.add (cstr cut.1) (cut.2.map cstr)
      match skip cut.1 with
      | none => none
      | some [] => none
      | some (c :: rest) =>
        if c = NUL then walk left (c :: rest) added
        else (skip (c :: rest)).bind (fun next => walk left next added)

/-- `message` is what `recv` puts into the buffer, `none` if it fails; `old` is what the buffer holds
behind the NUL. -/
def getNetlinkMsg (message : Option Str) (old : Str) : Received :=
  match message with
  | none => .failed
  | some bytes =>
    let size := min bytes.length (BUFFER - 1)
    let buffer := bytes.take size ++ NUL :: old
    let len := (buffer.takeWhile (fun b => b ≠ atSign ∧ b ≠ NUL)).length
    if buffer[len]? = some NUL then .failed
    else
      let pos := buffer.drop (len + 1)
      let uevent := fun env => Received.ok ⟨buffer.take len, cstr pos, env⟩
      match skip pos with
      | none => .outside
      | some next =>
        if len + 1 < size + 1 then
          match walk next.length next Env.empty with
          | none => .outside
          | some env => uevent env
        else uevent Env.empty

structure Var where
  key : Str
  value : Str
  key_ne_nil : key ≠ []
  key_clean : NUL ∉ key
  key_single : equals ∉ key
  value_clean : NUL ∉ value

def Var.bytes (v : Var) : Str := v.key ++ equals :: v.value ++ [NUL]

def messageBytes (action path : Str) (vars : List Var) : Str :=
  action ++ atSign :: path ++ NUL :: vars.flatMap Var.bytes

/-- A message as the kernel sends it, shorter than the buffer. -/
structure Message where
  action : Str
  path : Str
  vars : List Var
  action_clean : NUL ∉ action
  action_single : atSign ∉ action
  path_clean : NUL ∉ path
  distinct : (vars.map Var.key).Nodup
  short : (messageBytes action path vars).length < BUFFER

def Message.bytes (m : Message) : Str := messageBytes m.action m.path m.vars

def Message.value (m : Message) (key : Str) : Option Str :=
  (m.vars.find? (fun v => v.key = key)).map Var.value

def MessageRight (m : Message) (old : Str) : Prop :=
  ∃ env, getNetlinkMsg (some m.bytes) old = .ok ⟨m.action, m.path, env⟩ ∧
    ∀ key, env key = (m.value key).map some

/-- The variables up to the first one with an empty value. -/
def reached : List Var → List Var
  | [] => []
  | v :: vs => if v.value = [] then [v] else v :: reached vs

section Walk
variable {v : Var} {vs : List Var} {word after : Str} {env : Env} {left : ℕ}

theorem cstr_append (hword : NUL ∉ word) : cstr (word ++ NUL :: after) = word :=
  cString_append hword fun _ hb => (Option.some.inj hb).symm

theorem skip_append (hword : NUL ∉ word) : skip (word ++ NUL :: after) = some after := by
  rw [skip, strchr_append NUL word after hword]
  rfl

theorem cutEquals_var (v : Var) (after : Str) :
    cutEquals (v.key ++ equals :: v.value ++ NUL :: after) =
      (v.key ++ NUL :: v.value ++ NUL :: after, some (v.value ++ NUL :: after)) := by
  have hclean : NUL ∉ v.key ++ equals :: v.value := by
    simp only [List.mem_append, List.mem_cons, not_or]
    exact ⟨v.key_clean, by decide, v.value_clean⟩
  have hdrop : (v.key ++ equals :: v.value ++ NUL :: after).drop (v.key.length + 1) =
      v.value ++ NUL :: after := by
    rw [List.append_assoc, List.drop_length_add_append]
    rfl
  have hset : (v.key ++ equals :: v.value ++ NUL :: after).set v.key.length NUL =
      v.key ++ NUL :: v.value ++ NUL :: after := by
    rw [List.append_assoc, List.set_append_right _ _ le_rfl, Nat.sub_self, List.append_assoc]
    rfl
  rw [cutEquals, cstr_append hclean, strchr_append _ _ _ v.key_single]
  simp only [hset, hdrop]

theorem length_le_flatMap (vs : List Var) : vs.length ≤ (vs.flatMap Var.bytes).length := by
  induction vs with
  | nil => exact le_rfl
  | cons v vs ih =>
    rw [List.flatMap_cons, List.length_append, List.length_cons, Var.bytes, List.length_append,
      List.length_singleton]
    omega

theorem walk_var (v : Var) (after : Str) (env : Env) :
    walk (left + 1) (v.bytes ++ after) env =
      if v.value = [] then walk left (NUL :: after) (env.add v.key (some v.value))
      else walk left after (env.add v.key (some v.value)) := by
  have hbytes : v.bytes ++ after = v.key ++ equals :: v.value ++ NUL :: after := by
    rw [Var.bytes, List.append_assoc, List.singleton_append]
  have hcut := cutEquals_var v after
  have hname : cstr (v.key ++ NUL :: v.value ++ NUL :: after) = v.key := by
    rw [List.append_assoc]
    exact cstr_append v.key_clean
  have hskip : skip (v.key ++ NUL :: v.value ++ NUL :: after) = some (v.value ++ NUL :: after) := by
    rw [List.append_assoc]
    exact skip_append v.key_clean
  have hvalue : cstr (v.value ++ NUL :: after) = v.value := cstr_append v.value_clean
  obtain ⟨b, key, hkey⟩ := List.exists_cons_of_ne_nil v.key_ne_nil
  have hb : b ≠ NUL := fun h => v.key_clean (by rw [hkey, h]; exact List.mem_cons_self)
  obtain ⟨bytes, hpos⟩ : ∃ bytes, v.key ++ equals :: v.value ++ NUL :: after = b :: bytes :=
    ⟨key ++ equals :: v.value ++ NUL :: after, by rw [hkey]; rfl⟩
  rw [hbytes, hpos]
  rw [hpos] at hcut
  simp only [walk, hb, ↓reduceIte, hcut, hname, Option.map_some, hvalue, hskip]
  rcases hval : v.value with _ | ⟨c, value⟩
  · rfl
  · have hc : c ≠ NUL := fun h => v.value_clean (by rw [hval, h]; exact List.mem_cons_self)
    have hnext : skip (c :: value ++ NUL :: after) = some after := by
      rw [← hval]
      exact skip_append v.value_clean
    rw [List.cons_append] at hnext ⊢
    simp only [hc, ↓reduceIte, hnext, Option.bind_some, reduceCtorEq]

theorem walk_vars (vs : List Var) (old : Str) (env : Env) (left : ℕ) (hleft : vs.length < left) :
    walk left (vs.flatMap Var.bytes ++ NUL :: old) env =
      some ((reached vs).foldl (fun env v => env.add v.key (some v.value)) env) := by
  induction vs generalizing env left with
  | nil =>
    obtain ⟨left, rfl⟩ := Nat.exists_eq_succ_of_ne_zero (Nat.ne_zero_of_lt hleft)
    rfl
  | cons v vs ih =>
    obtain ⟨left, rfl⟩ := Nat.exists_eq_succ_of_ne_zero (Nat.ne_zero_of_lt hleft)
    have hlt : vs.length < left := Nat.lt_of_succ_lt_succ hleft
    rw [List.flatMap_cons, List.append_assoc, walk_var, reached]
    by_cases hval : v.value = []
    · obtain ⟨left, rfl⟩ := Nat.exists_eq_succ_of_ne_zero (Nat.ne_zero_of_lt hlt)
      rw [if_pos hval, if_pos hval]
      rfl
    · rw [if_neg hval, if_neg hval, ih _ _ hlt]
      rfl

theorem getNetlinkMsg_eq (m : Message) (old : Str) :
    getNetlinkMsg (some m.bytes) old = .ok ⟨m.action, m.path,
      (reached m.vars).foldl (fun env v => env.add v.key (some v.value)) Env.empty⟩ := by
  have hshort := m.short
  have hsize : min m.bytes.length (BUFFER - 1) = m.bytes.length := by
    change m.bytes.length < BUFFER at hshort
    omega
  have hbuffer : m.bytes ++ NUL :: old = m.action ++ atSign ::
      (m.path ++ NUL :: (m.vars.flatMap Var.bytes ++ NUL :: old)) := by
    simp [Message.bytes, messageBytes]
  have hlen : ∀ rest : Str, ((m.action ++ atSign :: rest).takeWhile
      (fun b => decide (b ≠ atSign ∧ b ≠ NUL))).length = m.action.length := by
    intro rest
    refine congrArg List.length (takeWhile_append_stop (fun b hb => ?_) (by simp))
    exact decide_eq_true ⟨fun h => m.action_single (h ▸ hb), fun h => m.action_clean (h ▸ hb)⟩
  have hat : ∀ rest : Str, (m.action ++ atSign :: rest)[m.action.length]? = some atSign := by
    intro rest
    rw [List.getElem?_append_right le_rfl, Nat.sub_self]
    rfl
  have hdrop : ∀ rest : Str, (m.action ++ atSign :: rest).drop (m.action.length + 1) = rest := by
    intro rest
    rw [List.drop_length_add_append]
    rfl
  have htake : ∀ rest : Str, (m.action ++ atSign :: rest).take m.action.length = m.action :=
    fun rest => List.take_left
  have hfits : m.action.length + 1 < m.bytes.length + 1 := by
    have hlength := congrArg List.length hbuffer
    simp only [List.length_append, List.length_cons] at hlength
    omega
  have hwalk := walk_vars m.vars old Env.empty (m.vars.flatMap Var.bytes ++ NUL :: old).length (by
    have hle : m.vars.length ≤ (m.vars.flatMap Var.bytes).length := length_le_flatMap m.vars
    simp only [List.length_append, List.length_cons]
    omega)
  simp only [getNetlinkMsg, hsize, List.take_length, hbuffer, hlen, hat, hdrop, htake, hfits,
    cstr_append m.path_clean, skip_append m.path_clean, hwalk, ↓reduceIte]
  rfl

end Walk

section Map
variable {v : Var} {vs : List Var} {env : Env} {key : Str}

theorem foldl_add (vs : List Var) (env : Env) (hdistinct : (vs.map Var.key).Nodup) :
    vs.foldl (fun env v => env.add v.key (some v.value)) env key =
      ((vs.find? (fun v => v.key = key)).map (fun v => some v.value)).or (env key) := by
  induction vs generalizing env with
  | nil => rfl
  | cons v vs ih =>
    obtain ⟨hnot, hrest⟩ := List.nodup_cons.mp hdistinct
    rw [List.foldl_cons, ih _ hrest]
    by_cases hkey : v.key = key
    · subst hkey
      have hnone : vs.find? (fun w => w.key = v.key) = none := by
        rw [List.find?_eq_none]
        intro w hw hwk
        exact hnot (List.mem_map.mpr ⟨w, hw, of_decide_eq_true hwk⟩)
      rw [hnone, List.find?_cons_of_pos (by simp), Env.add, Function.update_self]
      rfl
    · rw [List.find?_cons_of_neg (by simpa using hkey), Env.add,
        Function.update_of_ne (Ne.symm hkey)]

theorem reached_prefix (vs : List Var) : reached vs <+: vs := by
  induction vs with
  | nil => exact List.prefix_rfl
  | cons v vs ih =>
    unfold reached
    split_ifs
    · exact ⟨vs, rfl⟩
    · exact (List.prefix_cons_inj v).mpr ih

theorem reached_eq_iff (vs : List Var) :
    reached vs = vs ↔ ∀ v ∈ vs.dropLast, v.value ≠ [] := by
  induction vs with
  | nil => simp [reached]
  | cons v vs ih =>
    rcases vs with _ | ⟨w, vs⟩
    · by_cases hval : v.value = [] <;> simp [reached, hval]
    · rw [List.dropLast_cons_of_ne_nil (List.cons_ne_nil _ _), List.forall_mem_cons, ← ih, reached]
      by_cases hval : v.value = []
      · simp [hval]
      · simp [hval]

/-- The variables behind an empty value are lost. -/
theorem getNetlinkMsg_right_iff (m : Message) (old : Str) :
    MessageRight m old ↔ ∀ v ∈ m.vars.dropLast, v.value ≠ [] := by
  have hstarts := reached_prefix m.vars
  have hdistinct : ((reached m.vars).map Var.key).Nodup :=
    m.distinct.sublist (hstarts.sublist.map Var.key)
  have hmap : ∀ key, (reached m.vars).foldl (fun env v => env.add v.key (some v.value)) Env.empty key =
      ((reached m.vars).find? (fun v => v.key = key)).map (fun v => some v.value) := by
    intro key
    rw [foldl_add _ _ hdistinct, Env.empty, Option.or_none]
  rw [MessageRight, getNetlinkMsg_eq, ← reached_eq_iff]
  constructor
  · rintro ⟨env, hok, hvalue⟩
    obtain rfl := (Uevent.mk.inj (Received.ok.inj hok)).2.2
    -- every key of the message is one of a variable that was reached
    have hsub : m.vars.map Var.key ⊆ (reached m.vars).map Var.key := by
      intro key hkey
      obtain ⟨v, hv, rfl⟩ := List.mem_map.mp hkey
      have hsome : (m.value v.key).isSome = true := by
        rw [Message.value, Option.isSome_map, List.find?_isSome]
        exact ⟨v, hv, decide_eq_true rfl⟩
      have hfound := congrArg Option.isSome (hvalue v.key)
      rw [hmap, Option.isSome_map, Option.isSome_map, hsome, List.find?_isSome] at hfound
      obtain ⟨w, hw, hwk⟩ := hfound
      exact List.mem_map.mpr ⟨w, hw, of_decide_eq_true hwk⟩
    have hle := (List.subperm_of_subset m.distinct hsub).length_le
    rw [List.length_map, List.length_map] at hle
    exact hstarts.eq_of_length_le hle
  · intro heq
    refine ⟨_, rfl, ?_⟩
    intro key
    rw [hmap, heq, Message.value, Option.map_map]
    rfl

def emptyFirst : Message where
  action := ascii "add"
  path := ascii "/p"
  vars := [⟨ascii "A", [], by decide, by decide, by decide, by decide⟩,
    ⟨ascii "B", ascii "1", by decide, by decide, by decide, by decide⟩]
  action_clean := by decide
  action_single := by decide
  path_clean := by decide
  distinct := by decide
  short := by decide

theorem emptyFirst_not_right : ¬ MessageRight emptyFirst (List.replicate 2545 NUL) := by
  rintro ⟨env, hok, hvalue⟩
  rw [getNetlinkMsg_eq] at hok
  obtain rfl := (Uevent.mk.inj (Received.ok.inj hok)).2.2
  have hlost := hvalue (ascii "B")
  revert hlost
  decide

end Map
end Comodoo.UeventMessage
