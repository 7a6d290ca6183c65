import Mathlib.Tactic.Common
import Comodoo.SetupCdrom

set_option autoImplicit false

/-!
# What the scan for a CD leaves mounted

A drive is a hit when its image gets mounted. Every hit leaves one image on `/mnt/runtime`, and
one file system on `location` unless the image was copied; everything else is undone. The scan
goes on after a hit, so the run is right just if there is one hit only, and when a copy is
mounted, if it was last written whole and from this drive.
-/
namespace Comodoo.SetupCdrom
open CString

def found : Option Str × Visit → Option Str
  | (none, _) => none
  | (some name, v) =>
    if v.opened ∧ v.status ≠ .noDisc ∧ v.mounted ∧ v.readable then some (devName name) else none

def hit (visit : Option Str × Visit) : Option Str :=
  if mountStage2 visit.2 = 0 then found visit else none

/-- The drive that `/tmp/install.img` is written from, and whether the image is written whole. -/
def written (m : Mode) (visit : Option Str × Visit) : Option (Option Str × Bool) :=
  match copiesToRam m, visit.2.copied with
  | true, .cut => (found visit).map fun dev => (some dev, false)
  | true, .whole => (found visit).map fun dev => (some dev, true)
  | _, _ => none

def hits (visits : List (Option Str × Visit)) : List Str := visits.filterMap hit

def lastWritten (m : Mode) (visits : List (Option Str × Visit))
    (ramImage : Option (Option Str × Bool)) : Option (Option Str × Bool) :=
  (visits.filterMap (written m)).getLast?.or ramImage

/-- What a hit leaves on `location`, and on `/mnt/runtime`. -/
def left (m : Mode) (dev : Str) : List Str := if copiesToRam m then [] else [dev]

def image (m : Mode) (dev : Str) : Image := if copiesToRam m then .ram else .disc (some dev)

variable {m : Mode} {location : Str}

theorem remount_eq {dev : Str} {attempts : List Attempt} {w w' : World}
    (h : remount dev attempts w = some w') : w' = w.mount dev := by
  induction attempts with
  | nil => cases h
  | cons a attempts ih =>
    unfold remount at h
    split at h
    · exact ih h
    · dsimp only at h
      split at h
      · exact ih h
      · exact (Option.some.inj h).symm

theorem queryCDMediaCheck_eq {dev : Str} {v : Visit} {w w' : World}
    (h : queryCDMediaCheck m dev v (w.mount dev) = some w') : w' = w.mount dev := by
  unfold queryCDMediaCheck at h
  split at h
  · exact (Option.some.inj h).symm
  · split at h
    · split at h
      · exact remount_eq h
      · exact (Option.some.inj h).symm
    · exact (Option.some.inj h).symm

theorem copiesToRam_rescue (h : copiesToRam m = true) : m.rescue = true := by
  unfold copiesToRam at h
  rw [Bool.and_assoc, Bool.and_eq_true] at h
  exact h.1

theorem found_eq (name : Str) {v : Visit} (hopened : v.opened = true)
    (hstatus : v.status ≠ .noDisc) (hmounted : v.mounted = true) (hreadable : v.readable = true) :
    found (some name, v) = some (devName name) :=
  if_pos ⟨hopened, hstatus, hmounted, hreadable⟩

def pass (m : Mode) (location : Str) (visit : Option Str × Visit) (s : State) : State :=
  let ramImage := (written m visit).or s.world.ramImage
  match hit visit with
  | none => ⟨⟨s.world.location, s.world.runtime, ramImage⟩, s.retbuf⟩
  | some dev =>
    ⟨⟨left m dev ++ s.world.location, image m dev :: s.world.runtime, ramImage⟩,
      some (url dev location)⟩

theorem pass_of_not_found {visit : Option Str × Visit} {s : State} (h : found visit = none) :
    pass m location visit s = s := by
  have hhit : hit visit = none := by rw [hit, h, ite_self]
  have hwritten : written m visit = none := by
    unfold written
    rw [h]
    split <;> rfl
  rw [pass, hhit, hwritten]
  rfl

theorem useStage2_eq {name : Str} {v : Visit} {s : State}
    (h : found (some name, v) = some (devName name)) :
    useStage2 m location (devName name) v (s.world.mount (devName name)) s.retbuf =
      pass m location (some name, v) s := by
  have hrescue := copiesToRam_rescue (m := m)
  unfold useStage2 pass hit written left image
  rw [h]
  cases hram : copiesToRam m with
  | false => by_cases hstage : mountStage2 v = 0 <;> simp [hstage, World.mount, World.umount]
  | true =>
    by_cases hstage : mountStage2 v = 0 <;> cases v.copied <;>
      simp [hstage, hrescue hram, World.mount, World.umount, World.copyFile]

theorem tryDevice_of_not_found {name : Str} {v : Visit} {s : State}
    (h : ¬ (v.opened ∧ v.status ≠ .noDisc ∧ v.mounted ∧ v.readable)) :
    tryDevice m location (some name) v s = some s := by
  unfold tryDevice
  dsimp only
  split
  · rfl
  · rename_i hopened
    split
    · rfl
    · rename_i hstatus
      split
      · rfl
      · rename_i hmounted
        split
        · rfl
        · rename_i hreadable
          exact absurd ⟨not_not.mp hopened, hstatus, not_not.mp hmounted, not_not.mp hreadable⟩ h

theorem tryDevice_eq {device : Option Str} {v : Visit} {s s' : State}
    (h : tryDevice m location device v s = some s') : s' = pass m location (device, v) s := by
  cases device with
  | none =>
    rw [pass_of_not_found rfl]
    exact (Option.some.inj h).symm
  | some name =>
    by_cases hfound : v.opened ∧ v.status ≠ .noDisc ∧ v.mounted ∧ v.readable
    · obtain ⟨hopened, hstatus, hmounted, hreadable⟩ := hfound
      unfold tryDevice at h
      dsimp only at h
      rw [if_neg (not_not_intro hopened), if_neg hstatus, if_neg (not_not_intro hmounted),
        if_neg (not_not_intro hreadable)] at h
      obtain ⟨w, hquery, rfl⟩ := Option.map_eq_some_iff.mp h
      have hw : w = s.world.mount (devName name) := by
        split at hquery
        · exact queryCDMediaCheck_eq hquery
        · exact (Option.some.inj hquery).symm
      subst hw
      have hdev := found_eq name hopened hstatus hmounted hreadable
      exact useStage2_eq hdev
    · have hnone : found (some name, v) = none := if_neg hfound
      rw [pass_of_not_found hnone]
      rw [tryDevice_of_not_found hfound] at h
      exact (Option.some.inj h).symm

theorem getLast?_cons_or {α : Type} (a : α) (l : List α) (o : Option α) :
    (a :: l).getLast?.or o = l.getLast?.or (some a) := by
  rw [List.getLast?_cons, Option.or_some]
  cases l.getLast? <;> rfl

theorem scan_eq {visits : List (Option Str × Visit)} {s s' : State}
    (h : scan m location visits s = some s') :
    s'.world.location = (hits visits).reverse.flatMap (left m) ++ s.world.location ∧
    s'.world.runtime = (hits visits).reverse.map (image m) ++ s.world.runtime ∧
    s'.world.ramImage = lastWritten m visits s.world.ramImage ∧
    s'.retbuf = ((hits visits).getLast?.map fun dev => url dev location).or s.retbuf := by
  induction visits generalizing s with
  | nil =>
    cases h
    exact ⟨rfl, rfl, rfl, rfl⟩
  | cons visit visits ih =>
    obtain ⟨s₁, hpass, hscan⟩ := Option.bind_eq_some_iff.mp h
    obtain ⟨hloc, hrun, hram, hret⟩ := ih hscan
    rw [hloc, hrun, hram, hret, tryDevice_eq hpass]
    have hwritten : lastWritten m (visit :: visits) s.world.ramImage =
        lastWritten m visits ((written m visit).or s.world.ramImage) := by
      unfold lastWritten
      rw [List.filterMap_cons]
      cases written m visit with
      | none => rfl
      | some copy =>
        rw [getLast?_cons_or]
        rfl
    rw [hwritten]
    unfold hits pass
    rw [List.filterMap_cons]
    cases hit visit with
    | none => exact ⟨rfl, rfl, rfl, rfl⟩
    | some dev =>
      refine ⟨?_, ?_, rfl, ?_⟩
      · rw [List.reverse_cons, List.flatMap_append, List.flatMap_singleton, List.append_assoc]
      · rw [List.reverse_cons, List.map_append, List.append_assoc]
        rfl
      · rw [← List.getLast?_map, ← List.getLast?_map, List.map_cons, getLast?_cons_or]

/-- The first round with a hit has one hit only; if its image is copied, the last copy made is a
whole one from the same drive. -/
def OneHit (m : Mode) (devices : List (Option Str)) :
    List Round → Option (Option Str × Bool) → Prop
  | [], _ => True
  | round :: rest, ramImage =>
    let ramImage := lastWritten m (visits devices round) ramImage
    match hits (visits devices round) with
    | [] => m.interactive = true → round.rc ≠ 2 → OneHit m devices rest ramImage
    | [dev] => copiesToRam m = true → ramImage = some (some dev, true)
    | _ :: _ :: _ => False

theorem url_injective {dev dev' : Str} (h : url dev location = url dev' location) : dev = dev' := by
  unfold url at h
  rw [List.append_assoc, List.append_assoc, List.append_assoc, List.append_assoc] at h
  exact List.append_cancel_right (List.append_cancel_left h)

theorem correct_some {before after : World} {dev : Str} :
    Correct m location before (some (url dev location), after) ↔
      after.location = left m dev ++ before.location ∧
      ∃ image, after.runtime = image :: before.runtime ∧ image.CompleteFrom dev after := by
  constructor
  · intro h
    exact h dev rfl
  · intro h dev' hdev
    rw [← url_injective hdev]
    exact h

theorem correct_congr (m : Mode) (location : Str) (result : Option Str × World)
    {before before' : World}
    (hloc : before.location = before'.location) (hrun : before.runtime = before'.runtime) :
    Correct m location before result ↔ Correct m location before' result := by
  unfold Correct
  rw [hloc, hrun]

theorem correct_oneHit {before after : World} {dev : Str}
    (hloc : after.location = left m dev ++ before.location)
    (hrun : after.runtime = image m dev :: before.runtime) :
    Correct m location before (some (url dev location), after) ↔
      (copiesToRam m = true → after.ramImage = some (some dev, true)) := by
  rw [correct_some]
  have himage : (image m dev).CompleteFrom dev after ↔
      (copiesToRam m = true → after.ramImage = some (some dev, true)) := by
    unfold image
    cases hram : copiesToRam m with
    | true => exact ⟨fun h _ => h, fun h => h rfl⟩
    | false => exact iff_of_true rfl nofun
  constructor
  · rintro ⟨_, image', hrun', hcomplete⟩
    rw [hrun] at hrun'
    cases hrun'
    exact himage.mp hcomplete
  · intro h
    exact ⟨hloc, _, hrun, himage.mpr h⟩

theorem rounds_correct_iff {devices : List (Option Str)} {rs : List Round} {w : World}
    {result : Option Str × World} (h : rounds m location devices rs w = some result) :
    Correct m location w result ↔ OneHit m devices rs w.ramImage := by
  induction rs generalizing w with
  | nil => cases h
  | cons round rest ih =>
    obtain ⟨s, hscan, hrest⟩ := Option.bind_eq_some_iff.mp h
    obtain ⟨hloc, hrun, hram, hret⟩ := scan_eq hscan
    dsimp only at hloc hrun hram hret
    unfold OneHit
    dsimp only
    rw [← hram]
    cases hhits : hits (visits devices round) with
    | nil =>
      rw [hhits] at hloc hrun hret
      have hretbuf : s.retbuf = none := hret
      rw [if_neg (not_not_intro hretbuf)] at hrest
      have hsame := correct_congr m location result hloc hrun
      split at hrest
      · rename_i hinteractive
        cases hrest
        exact iff_of_true ⟨hloc, hrun⟩ fun hyes => absurd hyes hinteractive
      · split at hrest
        · rename_i hback
          cases hrest
          exact iff_of_true ⟨hloc, hrun⟩ fun _ hne => absurd hback hne
        · rename_i hinteractive hback
          rw [← hsame, ih hrest]
          exact ⟨fun h _ _ => h, fun h => h (not_not.mp hinteractive) hback⟩
    | cons dev more =>
      rw [hhits] at hloc hrun hret
      have hretbuf : s.retbuf ≠ none := by
        rw [hret, List.getLast?_cons]
        exact nofun
      rw [if_pos hretbuf] at hrest
      cases hrest
      cases more with
      | nil =>
        have hlast : s.retbuf = some (url dev location) := hret
        rw [hlast]
        rw [List.reverse_singleton, List.flatMap_singleton] at hloc
        exact correct_oneHit hloc hrun
      | cons dev' more =>
        refine iff_of_false (fun hcorrect => ?_) id
        have hlast : s.retbuf = some (url (more.getLast?.getD dev') location) := by
          rw [hret, List.getLast?_cons_cons, List.getLast?_cons]
          rfl
        rw [hlast] at hcorrect
        obtain ⟨_, image, himage, _⟩ := correct_some.mp hcorrect
        have hlength := congrArg List.length himage
        rw [hrun] at hlength
        simp only [List.length_append, List.length_map, List.length_reverse, List.length_cons]
          at hlength
        omega

theorem setupCdrom_correct_iff {devices : Option (List (Option Str))} {rs : List Round}
    {w : World} {result : Option Str × World}
    (h : setupCdrom m location devices rs w = some result) :
    Correct m location w result ↔ ∀ ds, devices = some ds → OneHit m ds rs w.ramImage := by
  cases devices with
  | none =>
    cases h
    exact iff_of_true ⟨rfl, rfl⟩ nofun
  | some ds =>
    rw [rounds_correct_iff h]
    exact ⟨fun hone _ hds => Option.some.inj hds ▸ hone, fun hall => hall ds rfl⟩

/-- Rescue mode, with memory enough for a copy. -/
def rescueMode : Mode := ⟨false, false, false, false, true, false, 256000⟩

/-- Everything succeeds, but for the copy that may be cut. -/
def discFound (copied : Copy) : Visit := ⟨true, .other, true, true, 1, [], copied, true, true⟩

def oneDrive : Option (List (Option Str)) := some [some (ascii "sr0")]

def nothingMounted : World := ⟨[], [], none⟩

theorem setupCdrom_correct_rescue :
    Correct rescueMode (ascii "/mnt/stage2") nothingMounted
      (some (ascii "cdrom:///dev/sr0:/mnt/stage2"),
        ⟨[], [.ram], some (some (ascii "/dev/sr0"), true)⟩) := by
  have hrun : setupCdrom rescueMode (ascii "/mnt/stage2") oneDrive [⟨fun _ => discFound .whole, 1⟩]
      nothingMounted = some (some (ascii "cdrom:///dev/sr0:/mnt/stage2"),
        ⟨[], [.ram], some (some (ascii "/dev/sr0"), true)⟩) := by decide +kernel
  refine (setupCdrom_correct_iff hrun).mpr fun ds hds => ?_
  cases hds
  exact fun _ => by decide +kernel

/-- A copy that is cut off gets mounted all the same. -/
theorem cutCopy_not_correct :
    ¬ ∀ (rs : List Round) (result : Option Str × World),
      setupCdrom rescueMode (ascii "/mnt/stage2") oneDrive rs nothingMounted = some result →
        Correct rescueMode (ascii "/mnt/stage2") nothingMounted result := by
  intro h
  have hcut := h [⟨fun _ => discFound .cut, 1⟩] (some (url (ascii "/dev/sr0") (ascii "/mnt/stage2")),
    ⟨[], [.ram], some (some (ascii "/dev/sr0"), false)⟩) (by decide +kernel)
  obtain ⟨_, image, himage, hcomplete⟩ := correct_some.mp hcut
  cases himage
  have hcopy : some (some (ascii "/dev/sr0"), false) = some (some (ascii "/dev/sr0"), true) :=
    hcomplete
  simp at hcopy

end Comodoo.SetupCdrom
