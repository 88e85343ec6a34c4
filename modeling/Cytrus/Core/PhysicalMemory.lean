import Mathlib.Tactic

/-!
# Physical memory

The memories of the console, each at its own range of physical addresses.

## Implementation notes

The last range that was looked up is cached in the code. No two ranges meet, so that
the cache does not change what a look-up gives, and it is left out.

## Main results

* `getPhysicalPointer_isSome`: which bytes a pointer may be read at
-/

namespace Cytrus.Core.PhysicalMemory

/-- A memory with the physical address it begins at. -/
structure MemoryArea where
  start : Nat
  size : Nat

/-- `memory_areas`: VRAM, the memory of the DSP, FCRAM and the one of the New 3DS. -/
def memoryAreas : List MemoryArea :=
  [⟨0x18000000, 0x600000⟩, ⟨0x1FF00000, 0x80000⟩, ⟨0x20000000, 0x10000000⟩, ⟨0x1F000000, 0x400000⟩]

/-- `GetPhysMemRegionInfo`. The end is inclusive, for an address that is an open bound. -/
def getPhysMemRegionInfo (address : UInt32) : Option MemoryArea :=
  memoryAreas.find? fun area => area.start ≤ address.toNat ∧ address.toNat ≤ area.start + area.size

/-- `GetPhysicalPointer`: the bytes from an address to the end of its memory, where there is one. -/
def getPhysicalPointer (memory : Nat → UInt8) (address : UInt32) : Option (Nat → Option UInt8) :=
  (getPhysMemRegionInfo address).map fun area i =>
    if address.toNat - area.start + i < area.size then some (memory (address.toNat + i)) else none

/-- The bytes from an address to the end of its memory. -/
def bytesFrom (address : UInt32) : Option Nat :=
  (getPhysMemRegionInfo address).map fun area => area.size - (address.toNat - area.start)

theorem getPhysicalPointer_eq_none {memory : Nat → UInt8} {address : UInt32} :
    getPhysicalPointer memory address = none ↔ bytesFrom address = none := by
  rw [getPhysicalPointer, bytesFrom, Option.map_eq_none_iff, Option.map_eq_none_iff]

/-- A pointer is read up to the end of its memory. -/
theorem getPhysicalPointer_isSome {memory : Nat → UInt8} {address : UInt32} {data : Nat → Option UInt8}
    (h : getPhysicalPointer memory address = some data) :
    ∃ count, bytesFrom address = some count ∧ ∀ i, (data i).isSome ↔ i < count := by
  obtain ⟨area, harea, rfl⟩ := Option.map_eq_some_iff.mp h
  refine ⟨_, Option.map_eq_some_iff.mpr ⟨area, harea, rfl⟩, fun i => ?_⟩
  beta_reduce
  split_ifs with hi
  · exact iff_of_true rfl (Nat.lt_sub_of_add_lt (by rwa [Nat.add_comm]))
  · refine iff_of_false Bool.false_ne_true fun hlt => hi ?_
    rw [Nat.add_comm]
    exact Nat.add_lt_of_lt_sub hlt

end Cytrus.Core.PhysicalMemory
