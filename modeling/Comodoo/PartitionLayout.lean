import Comodoo.LoggedSteps
import Mathlib.Data.Int.Notation
import Mathlib.Tactic.Linarith
import Mathlib.Tactic.Ring

set_option autoImplicit false

/-!
# The partitions of the target disk

`DiskSet.createPartitionsV2` of `stage-2/anaconda`, with `megabytes_to_sectors`. Of the calls of
`parted` those are kept that have to do with where the partitions lie.
-/
namespace Comodoo.PartitionLayout
open LoggedSteps

abbrev MEGABYTE : ℤ := 1024 * 1024

/-- The default of `sector_bytes`. -/
abbrev sectorBytes : ℤ := 512

def megabytesToSectors (mb sector_bytes : ℤ) : ℤ := mb * MEGABYTE / sector_bytes

structure Device where
  length : ℤ
  sectorSize : ℤ
  sectorSize_pos : 0 < sectorSize

structure Geometry where
  start : ℤ
  stop : ℤ
  deriving DecidableEq, Repr

/-- The sectors of the geometry are sectors of the device, and there are some. -/
def Geometry.Inside (g : Geometry) (device : Device) : Prop :=
  0 ≤ g.start ∧ g.start ≤ g.stop ∧ g.stop < device.length

/-- `Geometry` stores the sectors it is given, or raises an exception; it does not for sectors that
are on the device. -/
structure Parted where
  stores : Device → Geometry → Bool
  stores_inside : ∀ device g, g.Inside device → stores device g = true

inductive Call where
  | geometry (g : Geometry)
  | deleteAllPartitions
  | addPartition (g : Geometry)
  | commit
  deriving DecidableEq, Repr

structure Layout where
  boot : Geometry
  swap : Geometry
  root : Geometry
  deriving DecidableEq, Repr

def layoutV2 (device : Device) : Layout :=
  let bootsize := megabytesToSectors 100 sectorBytes
  let swapsize := megabytesToSectors 500 sectorBytes
  ⟨⟨1, bootsize⟩, ⟨bootsize + 1, bootsize + swapsize⟩,
    ⟨bootsize + swapsize + 1, device.length - 1⟩⟩

def createPartitionsV2 (p : Parted) (device : Device) : Logged Call Unit := do
  let l := layoutV2 device
  carryOut (.geometry l.boot) (p.stores device l.boot)
  carryOut (.geometry l.swap) (p.stores device l.swap)
  carryOut (.geometry l.root) (p.stores device l.root)
  carryOut .deleteAllPartitions true
  carryOut (.addPartition l.boot) true
  carryOut (.addPartition l.swap) true
  carryOut (.addPartition l.root) true
  carryOut .commit true

def calls (p : Parted) (device : Device) : List (Event Call) :=
  ((createPartitionsV2 p device).run.run []).2

def built (log : List (Event Call)) : List Geometry :=
  log.filterMap fun e => match e.step with
    | .geometry g => if e.ok then some g else none
    | _ => none

def Geometry.Has (g : Geometry) (sector : ℤ) : Prop := g.start ≤ sector ∧ sector ≤ g.stop

def Geometry.bytes (g : Geometry) (device : Device) : ℤ :=
  (g.stop - g.start + 1) * device.sectorSize

/-- None of the geometries is empty, they follow each other on the device, and have the sizes they
are meant to have. -/
structure Layout.Right (l : Layout) (device : Device) : Prop where
  boot_inside : l.boot.Inside device
  swap_inside : l.swap.Inside device
  root_inside : l.root.Inside device
  boot_swap : l.boot.stop < l.swap.start
  swap_root : l.swap.stop < l.root.start
  covers : ∀ sector, (1 ≤ sector ∧ sector ≤ device.length - 1) ↔
    (l.boot.Has sector ∨ l.swap.Has sector ∨ l.root.Has sector)
  boot_bytes : l.boot.bytes device = 100 * MEGABYTE
  swap_bytes : l.swap.bytes device = 500 * MEGABYTE

def HasLayout (device : Device) : Prop := ∃ l : Layout, l.Right device

/-- A layout is built where there is one, and otherwise nothing is deleted. -/
structure CreatesRight (p : Parted) (device : Device) : Prop where
  fits : HasLayout device → ∃ l : Layout, l.Right device ∧
    built (calls p device) = [l.boot, l.swap, l.root]
  refuses : ¬ HasLayout device → ∀ e ∈ calls p device, e.step ≠ .deleteAllPartitions

/-- `Geometry` raises for one of those that are asked for. -/
def Raises (p : Parted) (device : Device) : Prop :=
  p.stores device (layoutV2 device).boot = false ∨ p.stores device (layoutV2 device).swap = false ∨
    p.stores device (layoutV2 device).root = false

section Layouts
variable {p : Parted} {device : Device} {l : Layout}

theorem layoutV2_eq (device : Device) :
    layoutV2 device = ⟨⟨1, 204800⟩, ⟨204801, 1228800⟩, ⟨1228801, device.length - 1⟩⟩ := rfl

/-- The sectors are counted as if they had 512 bytes. -/
theorem layoutV2_right_iff (device : Device) :
    (layoutV2 device).Right device ↔ device.sectorSize = 512 ∧ 1228802 ≤ device.length := by
  rw [layoutV2_eq]
  constructor
  · intro h
    have hbytes := h.boot_bytes
    have hroot := h.root_inside.2.1
    simp only [Geometry.bytes, MEGABYTE] at hbytes hroot
    omega
  · rintro ⟨hsize, hlen⟩
    refine ⟨⟨?_, ?_, ?_⟩, ⟨?_, ?_, ?_⟩, ⟨?_, ?_, ?_⟩, ?_, ?_, fun sector => ?_, ?_, ?_⟩
    all_goals
      simp only [Geometry.bytes, Geometry.Has, hsize, MEGABYTE]
      omega

/-- There is a layout if whole sectors make up the sizes, with one left for the root partition. -/
theorem hasLayout_iff (device : Device) :
    HasLayout device ↔ device.sectorSize ∣ 100 * MEGABYTE ∧
      600 * MEGABYTE ≤ device.sectorSize * (device.length - 2) := by
  have hpos := device.sectorSize_pos
  constructor
  · rintro ⟨l, h⟩
    have hboot := h.boot_bytes
    have hswap := h.swap_bytes
    rw [Geometry.bytes] at hboot hswap
    refine ⟨⟨_, hboot.symm.trans (Int.mul_comm _ _)⟩, ?_⟩
    have hfirst : 1 ≤ l.boot.start :=
      ((h.covers l.boot.start).mpr (Or.inl ⟨le_refl _, h.boot_inside.2.1⟩)).1
    have hroot := h.root_inside.2
    have hroom : (l.boot.stop - l.boot.start + 1) + (l.swap.stop - l.swap.start + 1) ≤
        device.length - 2 := by
      have := h.boot_swap
      have := h.swap_root
      omega
    calc
      600 * MEGABYTE = device.sectorSize *
          ((l.boot.stop - l.boot.start + 1) + (l.swap.stop - l.swap.start + 1)) := by
        rw [mul_comm device.sectorSize, add_mul, hboot, hswap]
        ring
      _ ≤ device.sectorSize * (device.length - 2) := mul_le_mul_of_nonneg_left hroom hpos.le
  · rintro ⟨⟨b, hb⟩, hroom⟩
    have hb_pos : 0 < b := (mul_pos_iff_of_pos_left hpos).mp (hb ▸ by decide)
    have hsix : 6 * b ≤ device.length - 2 := by
      refine le_of_mul_le_mul_left ?_ hpos
      calc
        device.sectorSize * (6 * b) = 600 * MEGABYTE := by
          rw [mul_left_comm, ← hb]
          ring
        _ ≤ device.sectorSize * (device.length - 2) := hroom
    refine ⟨⟨⟨1, b⟩, ⟨b + 1, 6 * b⟩, ⟨6 * b + 1, device.length - 1⟩⟩, ?_⟩
    refine ⟨⟨?_, ?_, ?_⟩, ⟨?_, ?_, ?_⟩, ⟨?_, ?_, ?_⟩, ?_, ?_, fun sector => ?_, ?_, ?_⟩
    case refine_13 =>
      rw [Geometry.bytes, hb]
      ring
    case refine_14 =>
      calc
        (6 * b - (b + 1) + 1) * device.sectorSize = 5 * (device.sectorSize * b) := by ring
        _ = 500 * MEGABYTE := by rw [← hb]; ring
    all_goals
      simp only [Geometry.Has]
      omega

theorem calls_eq (p : Parted) (device : Device) :
    calls p device = executed ([(layoutV2 device).boot, (layoutV2 device).swap,
        (layoutV2 device).root].map (fun g => (Call.geometry g,
          if p.stores device g then Outcome.ok else .raised)) ++
      [(.deleteAllPartitions, .ok), (.addPartition (layoutV2 device).boot, .ok),
        (.addPartition (layoutV2 device).swap, .ok), (.addPartition (layoutV2 device).root, .ok),
        (.commit, .ok)]) := by
  have hfollows : Follows (createPartitionsV2 p device) () _ :=
    (Follows.carryOut _ _).bind ((Follows.carryOut _ _).bind ((Follows.carryOut _ _).bind
      ((Follows.carryOut _ _).bind ((Follows.carryOut _ _).bind ((Follows.carryOut _ _).bind
        ((Follows.carryOut _ _).bind (Follows.carryOut _ _)))))))
  rw [calls, hfollows []]
  rfl

/-- When a geometry is refused, the others behind it are not built, and nothing is deleted. -/
theorem calls_raises (h : Raises p device) :
    (built (calls p device)).length < 3 ∧
      ∀ e ∈ calls p device, e.step ≠ .deleteAllPartitions := by
  rw [calls_eq]
  unfold Raises at h
  simp only [List.map_cons, List.map_nil, List.cons_append, List.nil_append]
  generalize p.stores device (layoutV2 device).boot = boot,
    p.stores device (layoutV2 device).swap = swap,
    p.stores device (layoutV2 device).root = root at h ⊢
  cases boot <;> cases swap <;> cases root <;> simp_all [executed, built]

theorem calls_stored (h : ¬ Raises p device) :
    built (calls p device) =
        [(layoutV2 device).boot, (layoutV2 device).swap, (layoutV2 device).root] ∧
      ∃ e ∈ calls p device, e.step = .deleteAllPartitions := by
  simp only [Raises, not_or, Bool.not_eq_false] at h
  obtain ⟨hboot, hswap, hroot⟩ := h
  have hcalls := calls_eq p device
  simp only [List.map_cons, List.map_nil, List.cons_append, List.nil_append, hboot, hswap, hroot,
    if_true, executed] at hcalls
  rw [hcalls]
  exact ⟨rfl, ⟨.deleteAllPartitions, true⟩, by simp, rfl⟩

theorem not_raises_of_right (h : (layoutV2 device).Right device) : ¬ Raises p device := by
  simp only [Raises, not_or, Bool.not_eq_false]
  exact ⟨p.stores_inside _ _ h.boot_inside, p.stores_inside _ _ h.swap_inside,
    p.stores_inside _ _ h.root_inside⟩

theorem layoutV2_right_of_fits (hlayout : HasLayout device) (h : CreatesRight p device) :
    (layoutV2 device).Right device := by
  obtain ⟨l, hright, hbuilt⟩ := h.fits hlayout
  by_cases hraises : Raises p device
  · have hshort := (calls_raises hraises).1
    rw [hbuilt] at hshort
    exact absurd hshort (lt_irrefl 3)
  · rw [(calls_stored hraises).1] at hbuilt
    simp only [List.cons.injEq, and_true] at hbuilt
    obtain ⟨hboot, hswap, hroot⟩ := hbuilt
    have hl : layoutV2 device = l := by
      cases l
      simp_all only [layoutV2]
    rwa [hl]

end Layouts

theorem createPartitionsV2_right_iff (p : Parted) (device : Device) :
    CreatesRight p device ↔
      (device.sectorSize = 512 ∧ 1228802 ≤ device.length) ∨
        (¬ HasLayout device ∧ Raises p device) := by
  rw [← layoutV2_right_iff]
  constructor
  · intro h
    by_cases hlayout : HasLayout device
    · exact Or.inl (layoutV2_right_of_fits hlayout h)
    · refine Or.inr ⟨hlayout, ?_⟩
      by_contra hraises
      obtain ⟨_, e, he, hdelete⟩ := calls_stored hraises
      exact h.refuses hlayout e he hdelete
  · rintro (hright | ⟨hlayout, hraises⟩)
    · constructor
      · intro _
        exact ⟨layoutV2 device, hright, (calls_stored (not_raises_of_right hright)).1⟩
      · intro hno
        exact absurd ⟨_, hright⟩ hno
    · exact ⟨fun hfits => absurd hfits hlayout, fun _ => (calls_raises hraises).2⟩

/-- A library that refuses what is not on the device. -/
def careful : Parted where
  stores device g := decide (0 ≤ g.start ∧ g.start ≤ g.stop ∧ g.stop < device.length)
  stores_inside _ _ h := decide_eq_true h

/-- A disk of 4 GB with sectors of 4096 bytes. -/
def nativeDisk : Device := ⟨1048576, 4096, by decide⟩

theorem createPartitionsV2_nativeDisk : ¬ CreatesRight careful nativeDisk := by
  intro h
  have hlayout : HasLayout nativeDisk :=
    (hasLayout_iff nativeDisk).mpr ⟨⟨25600, by decide⟩, by decide⟩
  have hright := (layoutV2_right_iff nativeDisk).mp (layoutV2_right_of_fits hlayout h)
  exact absurd hright.1 (by decide)

end Comodoo.PartitionLayout
