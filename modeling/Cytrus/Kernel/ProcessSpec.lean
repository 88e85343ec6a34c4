import Cytrus.Kernel.ProcessMapping

/-!
# What the memory calls of a process do to its books

One lemma for each call that takes memory from the region or gives it back. A
success is described by the new address space and by what happened to the free
and the held bytes; an error has changed nothing; the condition under which
the call aborts is exact.
-/

namespace Cytrus.Kernel.Process

open Support Support.OrderedMap Support.Segment Memory VMManager
open Exec (post_bind post_pure post_require post_get post_modify post_assert)
open MemoryRegionInfo (free_post freed_base toFinset_freed heapBlocks_spec card_heapBlocks
  freed_size)

variable {host : Host} {p p' : Process} {target size : Nat} {perms : VMAPermission}
  {state : MemoryState} {α : Type}

/-- What holds of a process in every reachable state. -/
structure Intact (host : Host) (p : Process) : Prop where
  vm : VMManager.Sound host p.vmManager
  fcram_mem : p.fcram ∈ host.buffers
  fcram_size : p.fcram.size = fcramN3dsSize
  region : p.memoryRegion.Valid fcramN3dsSize

@[simp] theorem post_onVm {Q : α → Process → Prop} {E : ResultCode → Process → Prop}
    {F : Fault → Prop} (x : VM α) :
    (onVm x).Post p Q E F ↔ x.Post p.vmManager (fun a vmManager => Q a { p with vmManager })
      (fun e vmManager => E e { p with vmManager }) F := Exec.post_zoom _ _

@[simp] theorem post_onRegion {Q : α → Process → Prop} {E : ResultCode → Process → Prop}
    {F : Fault → Prop} (x : MemoryRegionInfo.Region α) :
    (onRegion x).Post p Q E F ↔
      x.Post p.memoryRegion (fun a memoryRegion => Q a { p with memoryRegion })
        (fun e memoryRegion => E e { p with memoryRegion }) F := Exec.post_zoom _ _

/-! ## Allocation -/

/-- A reference into FCRAM. -/
def fcramRef (fcram : BackingMem) (offset : Nat) : MemoryRef :=
  { backingMem := some fcram, offset }

/-- A block of FCRAM as a block of host memory. -/
def fcramBlock (fcram : BackingMem) (block : Block) : MemoryRef × Nat :=
  (fcramRef fcram block.lower, block.length)

theorem Intact.holds (h : Intact host p) {offset : Nat} (hle : offset + size ≤ fcramN3dsSize) :
    host.Holds (fcramRef p.fcram offset) size :=
  ⟨p.fcram, h.fcram_mem, rfl, by rw [h.fcram_size]; exact hle⟩

theorem blocksSize_fcramBlock (fcram : BackingMem) (blocks : List Block) :
    blocksSize (blocks.map (fcramBlock fcram)) = (blocks.map Block.length).sum := by
  rw [blocksSize, List.map_map]
  rfl

theorem post_mapHeapBlocks (blocks : List Block) :
    ∀ (p : Process) (target : Nat) {Q : PUnit → Process → Prop}
      {E : ResultCode → Process → Prop} {F : Fault → Prop},
      (∀ b ∈ blocks, b.lower ≤ b.upper ∧ b.upper ≤ fcramN3dsSize) →
      ((mapHeapBlocks state perms blocks target).Post p Q E F ↔
        (mapBlocks state perms (blocks.map (fcramBlock p.fcram)) target).Post p.vmManager
          (fun a vmManager => Q a { p with vmManager })
          (fun e vmManager => E e { p with vmManager }) F) := by
  induction blocks with
  | nil => exact fun _ _ _ _ _ _ => Iff.rfl
  | cons block rest ih =>
      intro p target Q E F hblocks
      obtain ⟨hle, hend⟩ := hblocks block (by simp)
      have hsize : sub32 block.upper block.lower = block.length :=
        sub32_of_le hle (lt_of_le_of_lt hend (by decide))
      simp only [mapHeapBlocks, List.map_cons, fcramBlock, mapBlocks, hsize, getFCRAMPointer,
        getFCRAMRef, post_bind, post_assert, post_get, post_pure, post_onVm,
        hle.trans hend, hend, not_true_eq_false, false_implies, and_true, true_implies]
      have hnext := fun vmManager => ih { p with vmManager } (add32 target block.length)
        (Q := Q) (E := E) (F := F) fun b hb => hblocks b (by simp [hb])
      simp only [hnext, fcramRef]

/-- The blocks `HeapAllocate` would take. -/
def heapRefs (p : Process) (size : Nat) : List (MemoryRef × Nat) :=
  (p.memoryRegion.heapBlocks size).blocks.map (fcramBlock p.fcram)

/-- The state after an allocation of blocks, given the new address space. -/
def heapAllocated (p : Process) (size : Nat) (vmManager : VMManager) : Process :=
  { p with
    vmManager
    memoryRegion := p.memoryRegion.taken
      (p.memoryRegion.freeBlocks.subSet (p.memoryRegion.heapBlocks size)) size
    holdingMemory := p.holdingMemory.addSet (p.memoryRegion.heapBlocks size)
    memoryUsed := add32 p.memoryUsed size
    commit := p.commit + toS32 size }

/-- When `HeapAllocate` aborts: the check of the target reads past the map, or a block misses an
assertion. -/
def HeapAllocateAborts (p : Process) (target size : Nat) (skipRangeCheck : Bool) : Prop :=
  (inHeap target size = true ∨ skipRangeCheck = true) ∧
    (maxAddress ≤ target ∨ HasRoom p.vmManager.areas target size ∧ p.heapRefs size ≠ [] ∧
      ¬ Fits target (p.heapRefs size))

theorem heapBlocks_bounds (h : Intact host p) {b : Block}
    (hb : b ∈ (p.memoryRegion.heapBlocks size).blocks) :
    b.lower < b.upper ∧ b.upper ≤ fcramN3dsSize := by
  have hlt := ((p.memoryRegion.heapBlocks size).spaced.bounds hb).2
  have hsub := (heapBlocks_spec p.memoryRegion size).1
  have hlast := h.region.free_lt (b.upper - 1)
    (hsub (IntervalSet.toFinset_of_mem hb (Block.mem_toFinset.mpr (by omega))))
  omega

theorem heapRefs_held (h : Intact host p) :
    ∀ b ∈ p.heapRefs size, host.Holds b.1 b.2 ∧ b.2 < 2 ^ 32 := by
  intro b hb
  obtain ⟨block, hblock, rfl⟩ := List.mem_map.mp hb
  obtain ⟨hlt, hle⟩ := heapBlocks_bounds h hblock
  have hsize : fcramN3dsSize < 2 ^ 32 := by decide
  simp only [fcramBlock, Block.length]
  exact ⟨h.holds (by omega), by omega⟩

theorem blocksSize_heapRefs (hne : p.heapRefs size ≠ []) :
    blocksSize (p.heapRefs size) = size := by
  have hblocks : (p.memoryRegion.heapBlocks size).blocks ≠ [] := fun hnil =>
    hne (by simp [heapRefs, hnil])
  rw [heapRefs, blocksSize_fcramBlock]
  exact (IntervalSet.size_eq_card _).trans (card_heapBlocks hblocks).2

theorem size_le_of_heapRefs (h : Intact host p) (hne : p.heapRefs size ≠ []) :
    size ≤ fcramN3dsSize := by
  have hblocks : (p.memoryRegion.heapBlocks size).blocks ≠ [] := fun hnil =>
    hne (by simp [heapRefs, hnil])
  rw [← (card_heapBlocks hblocks).2]
  have hsub : (p.memoryRegion.heapBlocks size).toFinset ⊆ Finset.range fcramN3dsSize := by
    intro x hx
    exact Finset.mem_range.mpr
      (h.region.free_lt x ((heapBlocks_spec _ _).1 hx))
  simpa using Finset.card_le_card hsub

theorem heapAllocate_post {skipRangeCheck : Bool} (h : Intact host p) (ht : target < 2 ^ 32) :
    (heapAllocate target size perms state skipRangeCheck).Post p
      (fun out p' => out = target ∧ ¬ HeapAllocateAborts p target size skipRangeCheck ∧
        p.heapRefs size ≠ [] ∧ ∃ spill vm',
          Laid host p.vmManager target (p.heapRefs size) state perms spill vm' ∧
          p' = p.heapAllocated size vm')
      (fun _ p' => p' = p ∧ ¬ HeapAllocateAborts p target size skipRangeCheck)
      (fun _ => HeapAllocateAborts p target size skipRangeCheck) := by
  have hmax : maxAddress < 2 ^ 31 := by decide
  have hfcram : fcramN3dsSize < 2 ^ 31 := by decide
  unfold heapAllocate
  rw [post_bind, post_require]
  refine ⟨fun hcheck => ?_, fun hout => ⟨rfl, fun hcon => hout hcon.1⟩⟩
  rw [post_bind, post_onVm]
  refine (requireFree_post h.vm).mono ?_ ?_ (fun _ hfar => ⟨hcheck, .inl hfar⟩)
  · rintro _ vm₁ ⟨rfl, hlt, hroom⟩
    rw [post_bind, post_onRegion]
    refine (MemoryRegionInfo.heapAllocate_post h.region).mono ?_ (fun _ _ he => he)
      (fun _ hf => hf)
    rintro result region' ⟨rfl, hnil, hne⟩
    rw [post_bind, post_require]
    refine ⟨fun hblocks => ?_, fun hblocks => ?_⟩
    · obtain rfl := hne hblocks
      have hrefs : p.heapRefs size ≠ [] := by simpa [heapRefs] using hblocks
      have hsize := size_le_of_heapRefs h hrefs
      have hroom := hroom (by omega)
      rw [post_bind, post_mapHeapBlocks _ _ _ fun b hb => by
        have hb := heapBlocks_bounds h hb
        omega]
      refine (mapBlocks_post (p.heapRefs size) p.vmManager target h.vm ht (heapRefs_held h)).mono
        ?_ (fun _ _ he => he.elim) ?_
      · rintro _ vm' ⟨spill, hlaid⟩
        simp only [reserve, post_bind, post_modify, post_pure]
        refine ⟨trivial, ?_, hrefs, spill, vm', hlaid, rfl⟩
        rintro ⟨-, hfar | ⟨-, -, hbad⟩⟩
        · omega
        · exact hbad (hlaid.fits hrefs)
      · rintro f ⟨-, hnot⟩
        rw [blocksSize_heapRefs hrefs] at hnot
        exact ⟨hcheck, .inr ⟨hroom, hrefs, fun hfits => hnot ⟨hfits, hroom.inFree⟩⟩⟩
    · have hnil' : (p.memoryRegion.heapBlocks size).blocks = [] := by simpa using hblocks
      rw [hnil hnil']
      refine ⟨rfl, ?_⟩
      rintro ⟨-, hfar | ⟨-, hrefs, -⟩⟩
      · omega
      · exact hrefs (by simp [heapRefs, hnil'])
  · rintro e vm' ⟨rfl, hlt, hnone⟩
    refine ⟨rfl, ?_⟩
    rintro ⟨-, hfar | ⟨hroom, -⟩⟩
    · omega
    · exact hnone hroom

/-! ## Allocation on the linear heap -/

theorem getLinearHeapAreaAddress_le (p : Process) :
    heapVaddrEnd ≤ p.getLinearHeapAreaAddress ∧
      p.getLinearHeapAreaAddress + fcramN3dsSize ≤ maxAddress := by
  unfold getLinearHeapAreaAddress
  by_cases hold : p.kernelVersion < 0x22C
  · rw [if_pos hold]
    decide
  · rw [if_neg hold]
    decide

theorem inLinearHeap_iff (h : Intact host p) (ht : target < 2 ^ 32) (hs : size < 2 ^ 32) :
    p.inLinearHeap target size = true ↔
      p.getLinearHeapAreaAddress + p.memoryRegion.base ≤ target ∧
        target + size ≤
          p.getLinearHeapAreaAddress + p.memoryRegion.base + p.memoryRegion.size := by
  have harea := (getLinearHeapAreaAddress_le p).2
  have hend := h.region.end_le
  have hmax : maxAddress < 2 ^ 31 := by decide
  unfold inLinearHeap getLinearHeapLimit getLinearHeapBase
  rw [add32_of_lt (a := p.getLinearHeapAreaAddress) (b := p.memoryRegion.base) (by omega),
    add32_of_lt (b := p.memoryRegion.size) (by omega)]
  unfold add32
  simp only [Bool.and_eq_true, decide_eq_true_eq]
  omega

/-- Where `LinearAllocate` would put a block: its address and its offset in FCRAM. -/
def linearSpot (p : Process) (target size : Nat) : Option (Nat × Nat) :=
  if target = 0 then
    (p.memoryRegion.linearOffset size).map fun offset =>
      (offset + p.getLinearHeapAreaAddress, offset)
  else
    let offset := target - p.getLinearHeapAreaAddress
    if p.inLinearHeap target size = true ∧
        p.memoryRegion.freeBlocks.contains ⟨offset, offset + size⟩ = true then
      some (target, offset)
    else none

/-- A place for a block: below the limit, and free in the region. -/
structure Spot (p : Process) (size : Nat) (place : Nat × Nat) : Prop where
  address_eq : place.1 = place.2 + p.getLinearHeapAreaAddress
  end_le : place.2 + size ≤ fcramN3dsSize
  free : (Block.mk place.2 (place.2 + size)).toFinset ⊆ p.memoryRegion.freeBlocks.toFinset

/-- The state after an allocation at a place, given the new address space. -/
def linearAllocated (p : Process) (offset size : Nat) (vmManager : VMManager) : Process :=
  { p with
    vmManager
    memoryRegion := p.memoryRegion.taken
      (p.memoryRegion.freeBlocks.sub ⟨offset, offset + size⟩) size
    holdingMemory := p.holdingMemory.add ⟨offset, offset + size⟩
    memoryUsed := add32 p.memoryUsed size
    commit := p.commit + toS32 size }

theorem linearPlace_post (h : Intact host p) (ht : target < 2 ^ 32) (hs : size < 2 ^ 32)
    {F : Fault → Prop} :
    (linearPlace target size).Post p
      (fun place p₁ => p.linearSpot target size = some place ∧ Spot p size place ∧
        p₁ = { p with
          memoryRegion := p.memoryRegion.taken
            (p.memoryRegion.freeBlocks.sub ⟨place.2, place.2 + size⟩) size })
      (fun _ p' => p' = p ∧ p.linearSpot target size = none) F := by
  have harea := (getLinearHeapAreaAddress_le p).2
  have hfcram : fcramN3dsSize < 2 ^ 31 := by decide
  have hmax : maxAddress < 2 ^ 31 := by decide
  unfold linearPlace linearSpot
  rw [post_bind, post_get, Exec.post_ite]
  refine ⟨fun hzero => ?_, fun hne => ?_⟩
  · rw [if_pos hzero, post_bind, post_onRegion]
    refine (MemoryRegionInfo.linearAllocate_post h.region (by omega)).mono ?_ (fun _ _ he => he)
      (fun _ hf => hf)
    rintro result region' ⟨rfl, hnone, hsome⟩
    cases hoff : p.memoryRegion.linearOffset size with
    | none =>
        rw [hnone hoff]
        exact ⟨rfl, rfl⟩
    | some offset =>
        obtain ⟨hfree, hle, rfl⟩ := hsome offset hoff
        simp only [post_pure, Option.map_some]
        rw [add32_of_lt (by omega)]
        exact ⟨rfl, ⟨rfl, hle, hfree⟩, trivial⟩
  · rw [if_neg hne, post_bind, post_require]
    refine ⟨fun hin => ?_, fun hout => ⟨rfl, if_neg fun hcon => hout hcon.1⟩⟩
    obtain ⟨hlo, hhi⟩ := (inLinearHeap_iff h ht hs).mp hin
    have hend := h.region.end_le
    rw [sub32_of_le (by omega) ht, post_bind, post_onRegion]
    refine (MemoryRegionInfo.linearAllocateAt_post h.region (by omega)).mono ?_
      (fun _ _ he => he) (fun _ hf => hf)
    rintro result region' ⟨hiff, hfalse, htrue⟩
    rw [post_bind, post_require]
    refine ⟨fun hresult => ?_, fun hresult => ?_⟩
    · have hfree := hiff.mp hresult
      obtain rfl := htrue hresult
      rw [post_pure, if_pos ⟨hin, IntervalSet.contains_iff.mpr hfree⟩]
      refine ⟨rfl, ⟨?_, ?_, hfree⟩, rfl⟩
      · simp only
        omega
      · simp only
        omega
    · have hbusy : result = false := by simpa using hresult
      rw [hfalse hbusy]
      refine ⟨rfl, if_neg fun hcon => hresult (hiff.mpr (IntervalSet.contains_iff.mp hcon.2))⟩

theorem Placed.exists_laid {vm vm' : VMManager} {memory : MemoryRef} {lo hi : Nat}
    (hp : Placed host vm target size memory.getPtr state perms lo hi vm')
    (hfit : Mappable target size memory) (hfree : InFree vm.areas target (target + size))
    (h : vm.WellFormed) :
    ∃ spill, Laid host vm target [(memory, size)] state perms spill vm' := by
  have hstart := InFree.start_free h hfit.pos hfree
  by_cases hperms : perms = .readWrite
  · subst hperms
    exact ⟨∅, hp.laid_readWrite (laid_nil hp.sound) hstart hfit⟩
  · exact ⟨_, hp.laid (laid_nil hp.sound) hstart hfit hperms⟩

/-- When `LinearAllocate` aborts: there is a place for the block, but it cannot be mapped
there. -/
def LinearAllocateAborts (p : Process) (target size : Nat) : Prop :=
  ∃ place, p.linearSpot target size = some place ∧
    ¬ (Mappable place.1 size (fcramRef p.fcram place.2) ∧
      InFree p.vmManager.areas place.1 (place.1 + size))

theorem linearAllocate_post (h : Intact host p) (ht : target < 2 ^ 32) (hs : size < 2 ^ 32) :
    (linearAllocate target size perms).Post p
      (fun out p' => ∃ place spill vm', p.linearSpot target size = some place ∧
        Spot p size place ∧ out = place.1 ∧ ¬ LinearAllocateAborts p target size ∧
        Laid host p.vmManager place.1 [(fcramRef p.fcram place.2, size)] .continuous perms
          spill vm' ∧
        p' = p.linearAllocated place.2 size vm')
      (fun _ p' => p' = p ∧ ¬ LinearAllocateAborts p target size)
      (fun _ => LinearAllocateAborts p target size) := by
  have harea := (getLinearHeapAreaAddress_le p).2
  have hmax : maxAddress < 2 ^ 31 := by decide
  unfold linearAllocate
  rw [post_bind]
  refine (linearPlace_post h ht hs).mono ?_ ?_ (fun _ hf => hf)
  · rintro ⟨address, offset⟩ p₁ ⟨hspot, hplace, rfl⟩
    have haddress := hplace.address_eq
    have hend := hplace.end_le
    simp only at haddress hend
    simp only [getFCRAMRef, post_bind, post_assert, post_get, post_pure,
      post_onVm]
    refine ⟨fun _ => ?_, fun hout => (hout (by omega)).elim⟩
    refine (mapBlock_post h.vm (by omega) hs (h.holds hend)).mono ?_ (fun _ _ he => he.elim) ?_
    · rintro _ vm' ⟨hfit, hfree, lo, hi, hplaced⟩
      obtain ⟨spill, hlaid⟩ := hplaced.exists_laid hfit hfree h.vm.wellFormed
      simp only [reserve, post_modify]
      refine ⟨(address, offset), spill, vm', hspot, hplace, rfl, ?_, hlaid, ?_⟩
      · rintro ⟨place, hplace', hbad⟩
        rw [hspot, Option.some.injEq] at hplace'
        subst hplace'
        exact hbad ⟨hfit, hfree⟩
      · rw [add32_of_lt (by omega)]
        rfl
    · intro f hbad
      exact ⟨(address, offset), hspot, hbad⟩
  · rintro e p' ⟨rfl, hnone⟩
    refine ⟨rfl, ?_⟩
    rintro ⟨place, hplace, -⟩
    rw [hnone] at hplace
    cases hplace

/-! ## Giving memory back -/

/-- The offset in FCRAM behind an address that has one. -/
def frameAt (p : Process) (a : Nat) : Nat :=
  ((p.vmManager.view a).map Cell.pointer).getD 0 - p.fcram.ptr

/-- The bytes of FCRAM behind a range. -/
def framesOf (p : Process) (target size : Nat) : Finset Nat :=
  (Finset.Ico target (target + size)).image p.frameAt

/-- A pointer into FCRAM. -/
def InFcram (fcram : BackingMem) (pointer : Nat) : Prop :=
  fcram.ptr ≤ pointer ∧ pointer < fcram.ptr + fcramN3dsSize

/-- The bytes behind a list of blocks can be given back one block after the other. -/
def Returnable (fcram : BackingMem) (free : Finset Nat) (blocks : List (MemoryRef × Nat)) :
    Prop :=
  (∀ i < blocksSize blocks, InFcram fcram (blocksPointer blocks i) ∧
      blocksPointer blocks i - fcram.ptr ∉ free) ∧
    ∀ i < blocksSize blocks, ∀ j < blocksSize blocks,
      blocksPointer blocks i = blocksPointer blocks j → i = j

/-- The offsets in FCRAM of a list of blocks. -/
def blocksFrames (fcram : BackingMem) (blocks : List (MemoryRef × Nat)) : Finset Nat :=
  (Finset.range (blocksSize blocks)).image fun i => blocksPointer blocks i - fcram.ptr

section Return

variable {fcram : BackingMem} {free : Finset Nat} {memory : MemoryRef}
  {rest blocks : List (MemoryRef × Nat)}

theorem blocksPointer_of_lt {i : Nat} (h : i < size) :
    blocksPointer ((memory, size) :: rest) i = memory.getPtr + i := if_pos h

theorem blocksPointer_add (i : Nat) :
    blocksPointer ((memory, size) :: rest) (size + i) = blocksPointer rest i := by
  rw [blocksPointer, if_neg (by omega), Nat.add_sub_cancel_left]

theorem blocksFrames_cons (hfcram : fcram.ptr ≤ memory.getPtr) :
    blocksFrames fcram ((memory, size) :: rest) =
      (Block.mk (memory.getPtr - fcram.ptr) (memory.getPtr - fcram.ptr + size)).toFinset ∪
        blocksFrames fcram rest := by
  ext x
  simp only [blocksFrames, blocksSize_cons, Finset.mem_image, Finset.mem_range, Finset.mem_union,
    Block.mem_toFinset]
  constructor
  · rintro ⟨i, hi, rfl⟩
    by_cases hlt : i < size
    · rw [blocksPointer_of_lt hlt]
      exact .inl (by omega)
    · obtain ⟨j, rfl⟩ : ∃ j, i = size + j := ⟨i - size, by omega⟩
      rw [blocksPointer_add]
      exact .inr ⟨j, by omega, rfl⟩
  · rintro (hx | ⟨j, hj, rfl⟩)
    · refine ⟨x - (memory.getPtr - fcram.ptr), by omega, ?_⟩
      rw [blocksPointer_of_lt (by omega)]
      omega
    · exact ⟨size + j, by omega, by rw [blocksPointer_add]⟩

theorem fcram_of_holds (hmem : fcram ∈ host.buffers) (hsize : fcram.size = fcramN3dsSize)
    (hheld : host.Holds memory size) (hlo : fcram.ptr ≤ memory.getPtr)
    (hhi : memory.getPtr ≤ fcram.ptr + fcramN3dsSize) :
    memory.getPtr + size ≤ fcram.ptr + fcramN3dsSize := by
  obtain ⟨b, hb, hbmem, hle⟩ := hheld
  simp only [MemoryRef.getPtr, hbmem] at hlo hhi ⊢
  have hsame : b = fcram := by
    by_contra hne
    rcases host.apart b hb fcram hmem hne with hlt | hlt <;> omega
  subst hsame
  omega

theorem returnable_cons (hmem : fcram ∈ host.buffers) (hsize : fcram.size = fcramN3dsSize)
    (hheld : host.Holds memory size) (hpos : 0 < size) :
    Returnable fcram free ((memory, size) :: rest) ↔
      (fcram.ptr ≤ memory.getPtr ∧ memory.getPtr ≤ fcram.ptr + fcramN3dsSize) ∧
      Disjoint free
        (Block.mk (memory.getPtr - fcram.ptr) (memory.getPtr - fcram.ptr + size)).toFinset ∧
      Returnable fcram (free ∪
        (Block.mk (memory.getPtr - fcram.ptr) (memory.getPtr - fcram.ptr + size)).toFinset)
        rest := by
  constructor
  · rintro ⟨hin, hinj⟩
    have hfirst := (hin 0 (by simp only [blocksSize_cons]; omega)).1
    rw [blocksPointer_of_lt hpos] at hfirst
    unfold InFcram at hfirst
    refine ⟨by omega, ?_, fun i hi => ⟨?_, ?_⟩, fun i hi j hj heq => ?_⟩
    · rw [Finset.disjoint_right]
      intro x hx
      simp only [Block.mem_toFinset] at hx
      have hfree := (hin (x - (memory.getPtr - fcram.ptr))
        (by simp only [blocksSize_cons]; omega)).2
      rw [blocksPointer_of_lt (by omega)] at hfree
      rwa [show memory.getPtr + (x - (memory.getPtr - fcram.ptr)) - fcram.ptr = x by omega]
        at hfree
    · have hnext := (hin (size + i) (by simp only [blocksSize_cons]; omega)).1
      rwa [blocksPointer_add] at hnext
    · obtain ⟨hfc, hnext⟩ := hin (size + i) (by simp only [blocksSize_cons]; omega)
      rw [blocksPointer_add] at hnext hfc
      rw [Finset.mem_union, not_or, Block.mem_toFinset]
      refine ⟨hnext, fun hx => ?_⟩
      simp only at hx
      unfold InFcram at hfc
      -- the byte would be one of the first block as well
      have heq := hinj (size + i) (by simp only [blocksSize_cons]; omega)
        (blocksPointer rest i - memory.getPtr) (by simp only [blocksSize_cons]; omega) (by
          rw [blocksPointer_add, blocksPointer_of_lt (by omega)]
          omega)
      omega
    · have hsum := hinj (size + i) (by simp only [blocksSize_cons]; omega) (size + j)
        (by simp only [blocksSize_cons]; omega) (by rw [blocksPointer_add, blocksPointer_add, heq])
      omega
  · rintro ⟨⟨hlo, hhi⟩, hdisj, hin, hinj⟩
    have hend := fcram_of_holds hmem hsize hheld hlo hhi
    have hsep : ∀ i < size, ∀ j < blocksSize rest,
        memory.getPtr + i ≠ blocksPointer rest j := by
      intro i hi j hj heq
      have hnot := (hin j hj).2
      rw [Finset.mem_union, not_or, Block.mem_toFinset] at hnot
      exact hnot.2 (by simp only; omega)
    refine ⟨fun i hi => ?_, fun i hi j hj heq => ?_⟩
    · simp only [blocksSize_cons] at hi
      by_cases hlt : i < size
      · rw [blocksPointer_of_lt hlt]
        refine ⟨⟨by omega, by omega⟩, Finset.disjoint_right.mp hdisj ?_⟩
        simp only [Block.mem_toFinset]
        omega
      · obtain ⟨k, rfl⟩ : ∃ k, i = size + k := ⟨i - size, by omega⟩
        rw [blocksPointer_add]
        obtain ⟨hfc, hnot⟩ := hin k (by omega)
        exact ⟨hfc, fun hx => hnot (Finset.mem_union_left _ hx)⟩
    · simp only [blocksSize_cons] at hi hj
      by_cases hi' : i < size <;> by_cases hj' : j < size
      · rw [blocksPointer_of_lt hi', blocksPointer_of_lt hj'] at heq
        omega
      · obtain ⟨k, rfl⟩ : ∃ k, j = size + k := ⟨j - size, by omega⟩
        rw [blocksPointer_of_lt hi', blocksPointer_add] at heq
        exact (hsep i hi' k (by omega) heq).elim
      · obtain ⟨k, rfl⟩ : ∃ k, i = size + k := ⟨i - size, by omega⟩
        rw [blocksPointer_of_lt hj', blocksPointer_add] at heq
        exact (hsep j hj' k (by omega) heq.symm).elim
      · obtain ⟨k, rfl⟩ : ∃ k, i = size + k := ⟨i - size, by omega⟩
        obtain ⟨m, rfl⟩ : ∃ m, j = size + m := ⟨j - size, by omega⟩
        rw [blocksPointer_add, blocksPointer_add] at heq
        rw [hinj k (by omega) m (by omega) heq]

end Return

/-- What giving back the bytes `frames` does to the books. -/
structure Returned (p : Process) (frames : Finset Nat) (p' : Process) : Prop where
  region_valid : p'.memoryRegion.Valid fcramN3dsSize
  region_base : p'.memoryRegion.base = p.memoryRegion.base
  region_size : p'.memoryRegion.size = p.memoryRegion.size
  free_eq : p'.memoryRegion.freeBlocks.toFinset = p.memoryRegion.freeBlocks.toFinset ∪ frames
  holding_eq : p'.holdingMemory.toFinset = p.holdingMemory.toFinset \ frames
  rest_eq : p' = { p with
    memoryRegion := p'.memoryRegion
    holdingMemory := p'.holdingMemory }

theorem returned_nil (h : p.memoryRegion.Valid fcramN3dsSize) : Returned p ∅ p where
  region_valid := h
  region_base := rfl
  region_size := rfl
  free_eq := by simp
  holding_eq := by simp
  rest_eq := rfl

theorem Returned.trans {p₁ p₂ : Process} {frames frames' : Finset Nat}
    (h : Returned p frames p₁) (h' : Returned p₁ frames' p₂) :
    Returned p (frames ∪ frames') p₂ where
  region_valid := h'.region_valid
  region_base := h'.region_base.trans h.region_base
  region_size := h'.region_size.trans h.region_size
  free_eq := by rw [h'.free_eq, h.free_eq, Finset.union_assoc]
  holding_eq := by rw [h'.holding_eq, h.holding_eq, sdiff_sdiff_left, Finset.sup_eq_union]
  rest_eq := by
    rw [h'.rest_eq, h.rest_eq]

section Loop

variable {memory : MemoryRef}

theorem freeBlock_post (hregion : p.memoryRegion.Valid fcramN3dsSize)
    (hmem : p.fcram ∈ host.buffers) (hsize : p.fcram.size = fcramN3dsSize)
    (hheld : host.Holds memory size) {E : ResultCode → Process → Prop} :
    (freeBlock (memory, size)).Post p
      (fun _ p' => (p.fcram.ptr ≤ memory.getPtr ∧
          memory.getPtr ≤ p.fcram.ptr + fcramN3dsSize) ∧
        Disjoint p.memoryRegion.freeBlocks.toFinset (Block.mk (memory.getPtr - p.fcram.ptr)
          (memory.getPtr - p.fcram.ptr + size)).toFinset ∧
        Returned p (Block.mk (memory.getPtr - p.fcram.ptr)
          (memory.getPtr - p.fcram.ptr + size)).toFinset p')
      E
      (fun _ => ¬ ((p.fcram.ptr ≤ memory.getPtr ∧
          memory.getPtr ≤ p.fcram.ptr + fcramN3dsSize) ∧
        Disjoint p.memoryRegion.freeBlocks.toFinset (Block.mk (memory.getPtr - p.fcram.ptr)
          (memory.getPtr - p.fcram.ptr + size)).toFinset)) := by
  have hfcram : fcramN3dsSize < 2 ^ 31 := by decide
  unfold freeBlock getFCRAMOffset
  simp only [post_bind, post_get, post_assert, post_pure, post_onRegion]
  refine ⟨fun hin => ?_, fun hout hcon => hout hcon.1⟩
  have hend := fcram_of_holds hmem hsize hheld hin.1 hin.2
  refine (free_post hregion (by omega)).mono ?_ (fun _ _ he => he)
    (fun _ hmeet hcon => hmeet hcon.2)
  rintro _ region' ⟨hdisj, rfl⟩
  rw [post_modify, add32_of_lt (by omega)]
  exact ⟨hin, hdisj, hregion.freed (by omega), freed_base _ _ _,
    freed_size _ _ _, toFinset_freed _ _ _,
    IntervalSet.toFinset_sub _ _, rfl⟩

theorem freeBlocks_post (blocks : List (MemoryRef × Nat)) {E : ResultCode → Process → Prop} :
    ∀ p : Process, p.memoryRegion.Valid fcramN3dsSize → p.fcram ∈ host.buffers →
      p.fcram.size = fcramN3dsSize → (∀ b ∈ blocks, host.Holds b.1 b.2 ∧ 0 < b.2) →
      (Exec.forEach blocks freeBlock).Post p
        (fun _ p' => Returnable p.fcram p.memoryRegion.freeBlocks.toFinset blocks ∧
          Returned p (blocksFrames p.fcram blocks) p')
        E
        (fun _ => ¬ Returnable p.fcram p.memoryRegion.freeBlocks.toFinset blocks) := by
  induction blocks with
  | nil =>
      intro p hregion _ _ _
      exact ⟨⟨fun i hi => by simp at hi, fun i hi => by simp at hi⟩, returned_nil hregion⟩
  | cons b rest ih =>
      intro p hregion hmem hsize hblocks
      obtain ⟨memory, size⟩ := b
      obtain ⟨hheld, hpos⟩ := hblocks (memory, size) (by simp)
      rw [Exec.forEach, post_bind, returnable_cons hmem hsize hheld hpos]
      refine (freeBlock_post hregion hmem hsize hheld).mono ?_ (fun _ _ he => he)
        (fun _ hnot hcon => hnot ⟨hcon.1, hcon.2.1⟩)
      rintro _ p₁ ⟨hin, hdisj, hret⟩
      have hfcram : p₁.fcram = p.fcram := by rw [hret.rest_eq]
      refine (ih p₁ hret.region_valid (hfcram ▸ hmem) (hfcram ▸ hsize)
        fun b hb => hblocks b (by simp [hb])).mono ?_ (fun _ _ he => he) ?_
      · rintro _ p₂ ⟨hrest, hret'⟩
        rw [hfcram, hret.free_eq] at hrest
        rw [hfcram] at hret'
        refine ⟨⟨hin, hdisj, hrest⟩, ?_⟩
        rw [blocksFrames_cons hin.1]
        exact hret.trans hret'
      · intro f hnot hcon
        rw [hfcram, hret.free_eq] at hnot
        exact hnot hcon.2.2

end Loop

/-- What `HeapFree` asks of the bytes behind its range: they lie in FCRAM, none of them is free,
and no two addresses share one. -/
structure Freeable (p : Process) (target size : Nat) : Prop where
  inFcram : ∀ a, target ≤ a → a < target + size → ∃ c, p.vmManager.view a = some c ∧
    InFcram p.fcram c.pointer ∧ p.frameAt a ∉ p.memoryRegion.freeBlocks.toFinset
  injOn : ∀ a, target ≤ a → a < target + size → ∀ b, target ≤ b → b < target + size →
    p.frameAt a = p.frameAt b → a = b

theorem Behind.frameAt {blocks : List (MemoryRef × Nat)}
    (hb : Behind host p.vmManager target size blocks) {i : Nat} (hi : i < size) :
    ∃ c, p.vmManager.view (target + i) = some c ∧ c.pointer = blocksPointer blocks i ∧
      p.frameAt (target + i) = blocksPointer blocks i - p.fcram.ptr := by
  obtain ⟨c, hc, -, hptr⟩ := hb.cell (target + i) (by omega) (by omega)
  rw [Nat.add_sub_cancel_left] at hptr
  exact ⟨c, hc, hptr, by rw [Process.frameAt, hc, Option.map_some, Option.getD_some, hptr]⟩

theorem Behind.framesOf {blocks : List (MemoryRef × Nat)}
    (hb : Behind host p.vmManager target size blocks) :
    p.framesOf target size = blocksFrames p.fcram blocks := by
  ext x
  simp only [Process.framesOf, blocksFrames, hb.size_eq, Finset.mem_image, Finset.mem_Ico,
    Finset.mem_range]
  constructor
  · rintro ⟨a, ⟨hlo, hhi⟩, rfl⟩
    obtain ⟨i, rfl⟩ : ∃ i, a = target + i := ⟨a - target, by omega⟩
    obtain ⟨c, -, -, hframe⟩ := hb.frameAt (i := i) (by omega)
    exact ⟨i, by omega, hframe.symm⟩
  · rintro ⟨i, hi, rfl⟩
    obtain ⟨c, -, -, hframe⟩ := hb.frameAt hi
    exact ⟨target + i, by omega, hframe⟩

theorem Behind.returnable_iff {blocks : List (MemoryRef × Nat)}
    (hb : Behind host p.vmManager target size blocks) :
    Returnable p.fcram p.memoryRegion.freeBlocks.toFinset blocks ↔ Freeable p target size := by
  unfold Returnable
  rw [hb.size_eq]
  constructor
  · rintro ⟨hin, hinj⟩
    refine ⟨fun a hlo hhi => ?_, fun a hlo hhi b hlo' hhi' heq => ?_⟩
    · obtain ⟨i, rfl⟩ : ∃ i, a = target + i := ⟨a - target, by omega⟩
      obtain ⟨c, hc, hptr, hframe⟩ := hb.frameAt (i := i) (by omega)
      obtain ⟨hfc, hnot⟩ := hin i (by omega)
      exact ⟨c, hc, hptr ▸ hfc, hframe ▸ hnot⟩
    · obtain ⟨i, rfl⟩ : ∃ i, a = target + i := ⟨a - target, by omega⟩
      obtain ⟨j, rfl⟩ : ∃ j, b = target + j := ⟨b - target, by omega⟩
      obtain ⟨-, -, -, hframe⟩ := hb.frameAt (i := i) (by omega)
      obtain ⟨-, -, -, hframe'⟩ := hb.frameAt (i := j) (by omega)
      have hfc := (hin i (by omega)).1
      have hfc' := (hin j (by omega)).1
      unfold InFcram at hfc hfc'
      have hij := hinj i (by omega) j (by omega) (by omega)
      omega
  · rintro ⟨hin, hinj⟩
    refine ⟨fun i hi => ?_, fun i hi j hj heq => ?_⟩
    · obtain ⟨c, hc, hptr, hframe⟩ := hb.frameAt hi
      obtain ⟨d, hd, hfc, hnot⟩ := hin (target + i) (by omega) (by omega)
      rw [hc, Option.some.injEq] at hd
      subst hd
      exact ⟨hptr ▸ hfc, hframe ▸ hnot⟩
    · obtain ⟨-, -, -, hframe⟩ := hb.frameAt hi
      obtain ⟨-, -, -, hframe'⟩ := hb.frameAt hj
      have hij := hinj (target + i) (by omega) (by omega) (target + j) (by omega) (by omega)
        (by rw [hframe, hframe', heq])
      omega

/-- The books after a range was given back: the range is free, the bytes behind it are free and
no longer held. -/
structure Freed (host : Host) (p : Process) (target size : Nat) (frames : Finset Nat)
    (p' : Process) : Prop where
  unmapped : UnmappedTarget host p.vmManager target size p'.vmManager
  fcram_eq : p'.fcram = p.fcram
  version_eq : p'.kernelVersion = p.kernelVersion
  tls_eq : p'.holdingTlsMemory = p.holdingTlsMemory
  region_valid : p'.memoryRegion.Valid fcramN3dsSize
  region_base : p'.memoryRegion.base = p.memoryRegion.base
  free_eq : p'.memoryRegion.freeBlocks.toFinset = p.memoryRegion.freeBlocks.toFinset ∪ frames
  holding_eq : p'.holdingMemory.toFinset = p.holdingMemory.toFinset \ frames
  used_eq : p'.memoryUsed = sub32 p.memoryUsed size

/-- When `HeapFree` aborts: the bytes behind a mapped range cannot be given back. -/
def HeapFreeAborts (p : Process) (target size : Nat) : Prop :=
  inHeap target size = true ∧ size ≠ 0 ∧
    p.vmManager.Everywhere Cell.IsMapped target (target + size) ∧ ¬ Freeable p target size

theorem heapFree_post (h : Intact host p) (ht : target < 2 ^ 32) (hs : size < 2 ^ 32)
    (htd : pageSize ∣ target) (hsd : pageSize ∣ size) :
    (heapFree target size).Post p
      (fun _ p' => ¬ HeapFreeAborts p target size ∧ inHeap target size = true ∧
        (size = 0 ∧ p' = p ∨
          size ≠ 0 ∧ p.vmManager.Everywhere Cell.IsMapped target (target + size) ∧
          Freeable p target size ∧ Freed host p target size (p.framesOf target size) p'))
      (fun _ p' => p' = p ∧ ¬ HeapFreeAborts p target size)
      (fun _ => HeapFreeAborts p target size) := by
  unfold heapFree
  rw [post_bind, post_require]
  refine ⟨fun hin => ?_, fun hout => ⟨rfl, fun hcon => hout hcon.1⟩⟩
  rw [Exec.post_when]
  refine ⟨fun hne => ?_, fun hzero => ?_⟩
  · have hp := proper_of_inHeap ht hs hin htd hsd (by omega)
    rw [post_bind, post_onVm]
    refine (getBackingBlocksForRange_post h.vm hp).mono ?_ ?_ (fun _ hf => hf.elim)
    · rintro blocks vm₁ ⟨rfl, hbehind⟩
      have hmapped := hbehind.everywhere
      rw [post_bind]
      refine (freeBlocks_post blocks p h.region h.fcram_mem h.fcram_size
        fun b hb => ⟨(hbehind.held b hb).1, (hbehind.held b hb).2.2⟩).mono ?_
        (fun _ _ he => he) ?_
      · rintro _ p₁ ⟨hreturn, hret⟩
        have hvm : p₁.vmManager = p.vmManager := by rw [hret.rest_eq]
        have hfreeable := hbehind.returnable_iff.mp hreturn
        have hno : ¬ HeapFreeAborts p target size := fun hcon => hcon.2.2.2 hfreeable
        rw [post_bind, Exec.post_unwrap, post_onVm, hvm]
        refine (h.vm.unmapRange_post ht hs).mono ?_ ?_ ?_
        · rintro _ vm' ⟨-, -, hunmapped⟩
          simp only [release, post_modify]
          refine ⟨hno, hin, .inr ⟨hne, hmapped, hfreeable, hunmapped, ?_, ?_, ?_,
            hret.region_valid, hret.region_base, ?_, ?_, ?_⟩⟩
          · simp only
            rw [hret.rest_eq]
          · simp only
            rw [hret.rest_eq]
          · simp only
            rw [hret.rest_eq]
          · rw [hbehind.framesOf]
            exact hret.free_eq
          · rw [hbehind.framesOf]
            exact hret.holding_eq
          · simp only
            rw [hret.rest_eq]
        · rintro e vm' ⟨-, -, hnot⟩
          exact (hnot hmapped).elim
        · intro f hnot
          exact (hnot hp).elim
      · intro f hnot
        exact ⟨hin, hne, hmapped, fun hcon => hnot (hbehind.returnable_iff.mpr hcon)⟩
    · rintro e vm' ⟨rfl, hnot⟩
      exact ⟨rfl, fun hcon => hnot hcon.2.2.1⟩
  · have hzero : size = 0 := by omega
    exact ⟨fun hcon => hcon.2.1 hzero, hin, .inl ⟨hzero, rfl⟩⟩

/-- When `LinearFree` aborts: some byte of FCRAM at the place of the range is free already. -/
def LinearFreeAborts (p : Process) (target size : Nat) : Prop :=
  p.inLinearHeap target size = true ∧ size ≠ 0 ∧
    p.vmManager.Everywhere Cell.IsMapped target (target + size) ∧
    ¬ Disjoint p.memoryRegion.freeBlocks.toFinset
      (Block.mk (target - p.getLinearHeapAreaAddress)
        (target - p.getLinearHeapAreaAddress + size)).toFinset

theorem linearFree_post (h : Intact host p) (ht : target < 2 ^ 32) (hs : size < 2 ^ 32)
    (htd : pageSize ∣ target) (hsd : pageSize ∣ size) :
    (linearFree target size).Post p
      (fun _ p' => ¬ LinearFreeAborts p target size ∧ p.inLinearHeap target size = true ∧
        (size = 0 ∧ p' = p ∨
          size ≠ 0 ∧ p.vmManager.Everywhere Cell.IsMapped target (target + size) ∧
          Freed host p target size (Block.mk (target - p.getLinearHeapAreaAddress)
            (target - p.getLinearHeapAreaAddress + size)).toFinset p'))
      (fun _ p' => p' = p ∧ ¬ LinearFreeAborts p target size)
      (fun _ => LinearFreeAborts p target size) := by
  have harea := (getLinearHeapAreaAddress_le p).2
  have hmax : maxAddress < 2 ^ 31 := by decide
  unfold linearFree
  rw [post_bind, post_get, post_bind, post_require]
  refine ⟨fun hin => ?_, fun hout => ⟨rfl, fun hcon => hout hcon.1⟩⟩
  obtain ⟨hlo, hhi⟩ := (inLinearHeap_iff h ht hs).mp hin
  have hend := h.region.end_le
  rw [Exec.post_when]
  refine ⟨fun hne => ?_, fun hzero => ?_⟩
  · have hp : Proper target size := ⟨htd, hsd, by omega, by omega⟩
    rw [post_bind, post_onVm]
    refine (h.vm.unmapRange_post ht hs).mono ?_ ?_ (fun _ hnot => (hnot hp).elim)
    · rintro _ vm₁ ⟨-, hmapped, hunmapped⟩
      rw [sub32_of_le (by omega) ht, post_bind, post_onRegion]
      refine (free_post h.region (by omega)).mono ?_ (fun _ _ he => he)
        (fun _ hmeet => ⟨hin, hne, hmapped, hmeet⟩)
      rintro _ region' ⟨hdisj, rfl⟩
      simp only [release, post_bind, post_modify]
      refine ⟨fun hcon => hcon.2.2.2 hdisj, hin, .inr ⟨hne, hmapped, hunmapped, rfl, rfl, rfl,
        h.region.freed (by omega), freed_base _ _ _,
        toFinset_freed _ _ _, ?_, rfl⟩⟩
      rw [add32_of_lt (by omega)]
      exact IntervalSet.toFinset_sub _ _
    · rintro e vm' ⟨rfl, -, hnot⟩
      exact ⟨rfl, fun hcon => hnot hcon.2.2.1⟩
  · have hzero : size = 0 := by omega
    exact ⟨fun hcon => hcon.2.1 hzero, hin, .inl ⟨hzero, rfl⟩⟩

end Cytrus.Kernel.Process
