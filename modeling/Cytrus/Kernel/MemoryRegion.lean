import Cytrus.Support.Exec
import Cytrus.Support.IntervalSet
import Cytrus.Common.MemoryRef

/-!
# The allocator of a memory region

A memory region hands out blocks of FCRAM. Offsets count from the start of
FCRAM. The heap is taken from the highest free blocks, possibly in several
pieces, the linear heap from one free block.
-/

namespace Cytrus.Kernel

open Support

/-- The allocator state of one memory region. -/
structure MemoryRegionInfo where
  base : Nat
  size : Nat
  used : Nat
  freeBlocks : IntervalSet
  isLocked : Bool
  deriving DecidableEq

namespace MemoryRegionInfo

/-- A call on a memory region. -/
abbrev Region (α : Type) := Exec Fault ResultCode MemoryRegionInfo α

def assertUnlocked : Region PUnit := do
  let region ← Exec.get
  Exec.assert .assertFailed (region.isLocked = false)

/-- Remove blocks from the free ones and count them as used. -/
def take (freeBlocks : IntervalSet) (size : Nat) : Region PUnit :=
  Exec.modify fun region => { region with freeBlocks, used := add32 region.used size }

def reset (base size : Nat) : Region PUnit := do
  assertUnlocked
  Exec.modify fun region => { region with
    base, size, used := 0, freeBlocks := IntervalSet.empty.add ⟨base, add32 base size⟩ }

/-- The loop of `HeapAllocate` over the free blocks from the highest on: what has been taken so
far, and how much is still to take. -/
def takeBlocks : List Block → IntervalSet → Nat → IntervalSet × Nat
  | [], result, rest => (result, rest)
  | block :: more, result, rest =>
      if rest ≤ block.length then (result.add ⟨block.upper - rest, block.upper⟩, 0)
      else takeBlocks more (result.add block) (rest - block.length)

/-- The blocks that `HeapAllocate` would return: none if there is not enough space. -/
def heapBlocks (region : MemoryRegionInfo) (size : Nat) : IntervalSet :=
  match takeBlocks region.freeBlocks.blocks.reverse IntervalSet.empty size with
  | (result, 0) => result
  | (_, _ + 1) => IntervalSet.empty

/-- Whether the free blocks add up to `size`. -/
def hasSpace (region : MemoryRegionInfo) (size : Nat) : Bool :=
  (takeBlocks region.freeBlocks.blocks.reverse IntervalSet.empty size).2 = 0

def heapAllocate (size : Nat) : Region IntervalSet := do
  assertUnlocked
  let region ← Exec.get
  let result := region.heapBlocks size
  Exec.when (region.hasSpace size = true) do
    take (region.freeBlocks.subSet result) size
  pure result

/-- Allocation at a given offset. -/
def linearAllocateAt (offset size : Nat) : Region Bool := do
  assertUnlocked
  let region ← Exec.get
  let interval : Block := ⟨offset, add32 offset size⟩
  if region.freeBlocks.contains interval then do
    take (region.freeBlocks.sub interval) size
    pure true
  else pure false

/-- Allocation in the lowest free block that is long enough. -/
def linearAllocate (size : Nat) : Region (Option Nat) := do
  assertUnlocked
  let region ← Exec.get
  match region.freeBlocks.blocks.find? fun block => size ≤ block.length with
  | some block => do
      take (region.freeBlocks.sub ⟨block.lower, add32 block.lower size⟩) size
      pure (some block.lower)
  | none => pure none

/-- Allocation at the end of the highest free block that is long enough. -/
def rLinearAllocate (size : Nat) : Region (Option Nat) := do
  assertUnlocked
  let region ← Exec.get
  match region.freeBlocks.blocks.reverse.find? fun block => size ≤ block.length with
  | some block => do
      take (region.freeBlocks.sub ⟨sub32 block.upper size, block.upper⟩) size
      pure (some (sub32 block.upper size))
  | none => pure none

/-- A locked region ignores the call. -/
def free (offset size : Nat) : Region PUnit := do
  let region ← Exec.get
  Exec.when (region.isLocked = false) do
    let interval : Block := ⟨offset, add32 offset size⟩
    Exec.assert .assertFailed (region.freeBlocks.intersects interval = false)
    Exec.modify fun region => { region with
      freeBlocks := region.freeBlocks.add interval
      used := sub32 region.used size }

/-! ## What the allocator does to the set of free bytes -/

variable {region : MemoryRegionInfo} {size offset : Nat} {E : ResultCode → MemoryRegionInfo → Prop}
  {F : Fault → Prop}

/-- The loop takes free bytes only, and takes as many as it counts down. -/
theorem takeBlocks_spec (l : List Block) :
    ∀ (result : IntervalSet) (rest : Nat), (l.Pairwise fun i j => Disjoint i.toFinset j.toFinset) →
      Disjoint result.toFinset (Block.union l) →
      (takeBlocks l result rest).1.toFinset ⊆ result.toFinset ∪ Block.union l ∧
        (takeBlocks l result rest).1.toFinset.card + (takeBlocks l result rest).2 =
          result.toFinset.card + rest := by
  induction l with
  | nil =>
      intro result rest _ _
      exact ⟨by simp [takeBlocks], rfl⟩
  | cons block more ih =>
      intro result rest hpair hdisj
      obtain ⟨hblock, hmore⟩ := List.pairwise_cons.mp hpair
      rw [Block.union_cons, Finset.disjoint_union_right] at hdisj
      unfold takeBlocks
      by_cases hfit : rest ≤ block.length
      · have hpart : (Block.mk (block.upper - rest) block.upper).toFinset ⊆ block.toFinset := by
          intro x hx
          rw [Block.mem_toFinset] at hx ⊢
          unfold Block.length at hfit
          simp only at hx
          omega
        rw [if_pos hfit, IntervalSet.toFinset_add, Block.union_cons]
        refine ⟨Finset.union_subset_union_right (hpart.trans Finset.subset_union_left), ?_⟩
        rw [Finset.card_union_of_disjoint (hdisj.1.mono_right hpart), Block.card_toFinset]
        unfold Block.length at hfit ⊢
        simp only
        omega
      · rw [if_neg hfit]
        have hnext : Disjoint (result.add block).toFinset (Block.union more) := by
          rw [IntervalSet.toFinset_add, Finset.disjoint_union_left]
          refine ⟨hdisj.2, Finset.disjoint_left.mpr fun x hx hx' => ?_⟩
          obtain ⟨j, hj, hxj⟩ := Block.mem_union.mp hx'
          exact Finset.disjoint_left.mp (hblock j hj) hx (Block.mem_toFinset.mpr hxj)
        obtain ⟨hsub, hcard⟩ := ih (result.add block) (rest - block.length) hmore hnext
        rw [IntervalSet.toFinset_add] at hsub hcard
        rw [Finset.card_union_of_disjoint hdisj.1, Block.card_toFinset] at hcard
        refine ⟨?_, by omega⟩
        rwa [Block.union_cons, ← Finset.union_assoc]

theorem heapBlocks_spec (region : MemoryRegionInfo) (size : Nat) :
    (region.heapBlocks size).toFinset ⊆ region.freeBlocks.toFinset ∧
      (region.hasSpace size = true → (region.heapBlocks size).toFinset.card = size) ∧
      (region.hasSpace size = false → region.heapBlocks size = IntervalSet.empty) := by
  have hpair := region.freeBlocks.spaced.pairwise
  obtain ⟨hsub, hcard⟩ := takeBlocks_spec region.freeBlocks.blocks.reverse IntervalSet.empty size
    (List.pairwise_reverse.mpr (hpair.imp fun h => h.symm)) (by simp)
  unfold heapBlocks hasSpace
  generalize takeBlocks region.freeBlocks.blocks.reverse IntervalSet.empty size = taken at *
  obtain ⟨result, rest⟩ := taken
  rw [Block.union_reverse, IntervalSet.toFinset_empty, Finset.empty_union] at hsub
  cases rest with
  | zero => exact ⟨hsub, by simpa using hcard, by simp⟩
  | succ rest => simp

/-- Blocks are found only when the free bytes suffice, and then they are as many as asked for. -/
theorem card_heapBlocks (h : (region.heapBlocks size).blocks ≠ []) :
    region.hasSpace size = true ∧ (region.heapBlocks size).toFinset.card = size := by
  obtain ⟨-, hcard, hempty⟩ := heapBlocks_spec region size
  cases hspace : region.hasSpace size with
  | true => exact ⟨rfl, hcard hspace⟩
  | false =>
      rw [hempty hspace] at h
      exact (h rfl).elim

/-- The state after `size` bytes were taken. -/
def taken (region : MemoryRegionInfo) (freeBlocks : IntervalSet) (size : Nat) :
    MemoryRegionInfo :=
  { region with freeBlocks, used := add32 region.used size }

/-- What holds of the region in every reachable state. -/
structure Valid (region : MemoryRegionInfo) (limit : Nat) : Prop where
  unlocked : region.isLocked = false
  used_lt : region.used < 2 ^ 32
  free_lt : ∀ x ∈ region.freeBlocks.toFinset, x < limit
  end_le : region.base + region.size ≤ limit

theorem Valid.taken {limit : Nat} {freeBlocks : IntervalSet} (h : region.Valid limit)
    (hsub : freeBlocks.toFinset ⊆ region.freeBlocks.toFinset) :
    (region.taken freeBlocks size).Valid limit where
  unlocked := h.unlocked
  used_lt := add32_lt _ _
  free_lt x hx := h.free_lt x (hsub hx)
  end_le := h.end_le

theorem heapAllocate_post {limit : Nat} (h : region.Valid limit) :
    (heapAllocate size).Post region
      (fun result region' => result = region.heapBlocks size ∧
        (result.blocks = [] → region' = region) ∧
        (result.blocks ≠ [] → region' = region.taken (region.freeBlocks.subSet result) size))
      E F := by
  unfold heapAllocate assertUnlocked take
  simp only [Exec.post_bind, Exec.post_get, Exec.post_assert, Exec.post_when, Exec.post_modify,
    Exec.post_pure]
  refine ⟨fun _ => ⟨fun hspace => ⟨trivial, fun hnil => ?_, fun _ => rfl⟩,
    fun hspace => ⟨trivial, fun _ => trivial,
      fun hne => (hspace (card_heapBlocks hne).1).elim⟩⟩,
    fun hlocked => (hlocked h.unlocked).elim⟩
  -- an empty result with enough space means that nothing was asked for
  have hzero : size = 0 := by
    rw [← (heapBlocks_spec region size).2.1 hspace, IntervalSet.toFinset, hnil]
    rfl
  have hused := h.used_lt
  subst hzero
  cases region
  simp only [IntervalSet.subSet, hnil, List.foldl_nil, add32, Nat.add_zero,
    Nat.mod_eq_of_lt hused]

/-- Where a block for the linear heap would be taken from. -/
def linearOffset (region : MemoryRegionInfo) (size : Nat) : Option Nat :=
  (region.freeBlocks.blocks.find? fun block => size ≤ block.length).map Block.lower

theorem linearAllocate_post {limit : Nat} (h : region.Valid limit) (hlimit : limit < 2 ^ 32) :
    (linearAllocate size).Post region
      (fun result region' => result = region.linearOffset size ∧
        (result = none → region' = region) ∧
        ∀ offset, result = some offset →
          (Block.mk offset (offset + size)).toFinset ⊆ region.freeBlocks.toFinset ∧
          offset + size ≤ limit ∧
          region' = region.taken (region.freeBlocks.sub ⟨offset, offset + size⟩) size)
      E F := by
  unfold linearAllocate assertUnlocked take linearOffset
  simp only [Exec.post_bind, Exec.post_get, Exec.post_assert]
  refine ⟨fun _ => ?_, fun hlocked => (hlocked h.unlocked).elim⟩
  cases hfind : region.freeBlocks.blocks.find? fun block => size ≤ block.length with
  | none => simp
  | some block =>
      have hmem := List.mem_of_find?_eq_some hfind
      have hlen : size ≤ block.length := by simpa using List.find?_some hfind
      have hbounds := region.freeBlocks.spaced.bounds hmem
      have hsub := IntervalSet.toFinset_of_mem hmem
      have hlast := h.free_lt (block.upper - 1) (hsub (Block.mem_toFinset.mpr (by omega)))
      unfold Block.length at hlen
      have hend : add32 block.lower size = block.lower + size := add32_of_lt (by omega)
      simp only [Exec.post_bind, Exec.post_modify, Exec.post_pure, Option.map_some,
        Option.some.injEq, reduceCtorEq, false_implies, true_and, forall_eq', hend]
      refine ⟨fun x hx => hsub ?_, by omega, rfl⟩
      rw [Block.mem_toFinset] at hx ⊢
      simp only at hx
      omega

theorem linearAllocateAt_post {limit : Nat} (h : region.Valid limit)
    (hwrap : offset + size < 2 ^ 32) :
    (linearAllocateAt offset size).Post region
      (fun result region' =>
        (result = true ↔
          (Block.mk offset (offset + size)).toFinset ⊆ region.freeBlocks.toFinset) ∧
        (result = false → region' = region) ∧
        (result = true →
          region' = region.taken (region.freeBlocks.sub ⟨offset, offset + size⟩) size))
      E F := by
  unfold linearAllocateAt assertUnlocked take
  simp only [Exec.post_bind, Exec.post_get, Exec.post_assert, Exec.post_ite, Exec.post_modify,
    Exec.post_pure]
  rw [add32_of_lt hwrap, IntervalSet.contains_iff]
  refine ⟨fun _ => ⟨fun hin => ⟨by simp [hin], by simp, fun _ => rfl⟩,
    fun hout => ⟨by simp [hout], by simp, by simp⟩⟩, fun hlocked => (hlocked h.unlocked).elim⟩

/-- The state after an interval was given back. -/
def freed (region : MemoryRegionInfo) (offset size : Nat) : MemoryRegionInfo :=
  { region with
    freeBlocks := region.freeBlocks.add ⟨offset, offset + size⟩
    used := sub32 region.used size }

@[simp] theorem freed_base (region : MemoryRegionInfo) (offset size : Nat) :
    (region.freed offset size).base = region.base := rfl

@[simp] theorem freed_size (region : MemoryRegionInfo) (offset size : Nat) :
    (region.freed offset size).size = region.size := rfl

@[simp] theorem toFinset_freed (region : MemoryRegionInfo) (offset size : Nat) :
    (region.freed offset size).freeBlocks.toFinset =
      region.freeBlocks.toFinset ∪ (Block.mk offset (offset + size)).toFinset :=
  IntervalSet.toFinset_add _ _

/-- Freeing aborts exactly when a byte of the interval is free already. -/
theorem free_post {limit : Nat} (h : region.Valid limit) (hwrap : offset + size < 2 ^ 32) :
    (free offset size).Post region
      (fun _ region' =>
        Disjoint region.freeBlocks.toFinset (Block.mk offset (offset + size)).toFinset ∧
        region' = region.freed offset size)
      E
      (fun _ =>
        ¬ Disjoint region.freeBlocks.toFinset (Block.mk offset (offset + size)).toFinset) := by
  unfold free
  simp only [Exec.post_bind, Exec.post_get, Exec.post_when, Exec.post_assert, Exec.post_modify]
  rw [add32_of_lt hwrap, IntervalSet.intersects_iff]
  exact ⟨fun _ => ⟨fun hdisj => ⟨hdisj, rfl⟩, fun hmeet => hmeet⟩,
    fun hlocked => (hlocked h.unlocked).elim⟩

theorem Valid.freed {limit : Nat} (h : region.Valid limit) (hle : offset + size ≤ limit) :
    (region.freed offset size).Valid limit where
  unlocked := h.unlocked
  used_lt := sub32_lt _ _
  free_lt x hx := by
    rw [toFinset_freed, Finset.mem_union, Block.mem_toFinset] at hx
    rcases hx with hx | hx
    · exact h.free_lt x hx
    · simp only at hx
      omega
  end_le := h.end_le

end MemoryRegionInfo

end Cytrus.Kernel
