import Cytrus.Kernel.MemoryRegion
import Cytrus.Kernel.VMManager

/-!
# The memory of a process

A process keeps three books of its memory: the areas of its address space,
the free blocks of the memory region it allocates from, and the FCRAM it
holds. The calls below are those of `Process`, of `SharedMemory::Map`, and the
system call `ControlMemory` that a guest reaches them through.

## Implementation notes

The bytes of memory are not part of the model, so filling fresh blocks with
zeros is only the assertion on their offsets. The resource limit is its
current `Commit` value.
-/

namespace Cytrus.Kernel

open Support Memory

def heapVaddr : Nat := 0x08000000
def heapVaddrEnd : Nat := 0x10000000
def sharedMemoryVaddrEnd : Nat := 0x14000000
def linearHeapVaddr : Nat := 0x14000000
def newLinearHeapVaddr : Nat := 0x30000000
def fcramN3dsSize : Nat := 0x10000000

/-- The conversion of a size to `s32`. -/
def toS32 (n : Nat) : Int := if n < 2 ^ 31 then n else n - 2 ^ 32

/-- What the memory calls of a process read and write. -/
structure Process where
  vmManager : VMManager
  memoryRegion : MemoryRegionInfo
  fcram : BackingMem
  holdingMemory : IntervalSet
  holdingTlsMemory : IntervalSet
  memoryUsed : Nat
  commit : Int
  kernelVersion : Nat

/-- A call on a process. -/
abbrev Proc (α : Type) := Exec Fault ResultCode Process α

namespace Process

/-- A call on the address space of the process. -/
def onVm {α : Type} (x : VM α) : Proc α :=
  Exec.zoom vmManager (fun p vmManager => { p with vmManager }) x

/-- A call on the memory region of the process. -/
def onRegion {α : Type} (x : MemoryRegionInfo.Region α) : Proc α :=
  Exec.zoom memoryRegion (fun p memoryRegion => { p with memoryRegion }) x

def getLinearHeapAreaAddress (p : Process) : Nat :=
  if p.kernelVersion < 0x22C then linearHeapVaddr else newLinearHeapVaddr

def getLinearHeapBase (p : Process) : Nat :=
  add32 p.getLinearHeapAreaAddress p.memoryRegion.base

def getLinearHeapLimit (p : Process) : Nat :=
  add32 p.getLinearHeapBase p.memoryRegion.size

/-- The assertion of `GetFCRAMPointer`. -/
def getFCRAMPointer (offset : Nat) : Proc PUnit :=
  Exec.assert .assertFailed (offset ≤ fcramN3dsSize)

def getFCRAMRef (offset : Nat) : Proc MemoryRef := do
  Exec.assert .assertFailed (offset ≤ fcramN3dsSize)
  let p ← Exec.get
  pure { backingMem := some p.fcram, offset }

def getFCRAMOffset (pointer : Nat) : Proc Nat := do
  let p ← Exec.get
  Exec.assert .assertFailed (p.fcram.ptr ≤ pointer ∧ pointer ≤ p.fcram.ptr + fcramN3dsSize)
  pure (pointer - p.fcram.ptr)

/-- Count `size` more bytes as used by the process. -/
def reserve (size : Nat) : Proc PUnit :=
  Exec.modify fun p => { p with
    memoryUsed := add32 p.memoryUsed size
    commit := p.commit + toS32 size }

/-- Count `size` fewer bytes as used by the process. -/
def release (size : Nat) : Proc PUnit :=
  Exec.modify fun p => { p with
    memoryUsed := sub32 p.memoryUsed size
    commit := p.commit - toS32 size }

/-- Map one block and give it its permissions: the body of the block loops. -/
def mapBlock (target : Nat) (memory : MemoryRef) (size : Nat) (state : MemoryState)
    (perms : VMAPermission) : VM PUnit := do
  let vma ← Exec.unwrap .assertFailed (VMManager.mapBackingMemory target memory size state)
  let _ ← VMManager.reprotect vma perms

/-- Map blocks one after the other from `intervalTarget` on. -/
def mapBlocks (state : MemoryState) (perms : VMAPermission) :
    List (MemoryRef × Nat) → Nat → VM PUnit
  | [], _ => pure ⟨⟩
  | (memory, size) :: rest, intervalTarget => do
      mapBlock intervalTarget memory size state perms
      mapBlocks state perms rest (add32 intervalTarget size)

/-- The block loop of `HeapAllocate`. -/
def mapHeapBlocks (state : MemoryState) (perms : VMAPermission) :
    List Block → Nat → Proc PUnit
  | [], _ => pure ⟨⟩
  | interval :: rest, intervalTarget => do
      let intervalSize := sub32 interval.upper interval.lower
      getFCRAMPointer interval.lower
      getFCRAMPointer interval.upper
      let memory ← getFCRAMRef interval.lower
      onVm (mapBlock intervalTarget memory intervalSize state perms)
      mapHeapBlocks state perms rest (add32 intervalTarget intervalSize)

/-- The check of the mapping calls that one free area covers the target range. -/
def requireFree (target size : Nat) : VM PUnit := do
  let vm ← Exec.get
  let vma ← VMManager.deref (vm.findVMA target)
  Exec.require .invalidAddressState
    (vma.type = .free ∧ add32 target size ≤ add32 vma.base vma.size)

/-- The range checks against the heap: both ends inside, and no wrap around. -/
def inHeap (target size : Nat) : Bool :=
  heapVaddr ≤ target && add32 target size ≤ heapVaddrEnd && target ≤ add32 target size

def heapAllocate (target size : Nat) (perms : VMAPermission) (memoryState : MemoryState)
    (skipRangeCheck : Bool) : Proc Nat := do
  Exec.require .invalidAddress (inHeap target size = true ∨ skipRangeCheck = true)
  onVm (requireFree target size)
  let allocatedFcram ← onRegion (MemoryRegionInfo.heapAllocate size)
  Exec.require .outOfHeapMemory (allocatedFcram.blocks ≠ [])
  mapHeapBlocks memoryState perms allocatedFcram.blocks target
  Exec.modify fun p => { p with holdingMemory := p.holdingMemory.addSet allocatedFcram }
  reserve size
  pure target

/-- Give one block of backing memory back to the region. -/
def freeBlock (block : MemoryRef × Nat) : Proc PUnit := do
  let backingOffset ← getFCRAMOffset block.1.getPtr
  onRegion (MemoryRegionInfo.free backingOffset block.2)
  Exec.modify fun p => { p with
    holdingMemory := p.holdingMemory.sub ⟨backingOffset, add32 backingOffset block.2⟩ }

def heapFree (target size : Nat) : Proc PUnit := do
  Exec.require .invalidAddress (inHeap target size = true)
  Exec.when (size ≠ 0) do
    let backingBlocks ← onVm (VMManager.getBackingBlocksForRange target size)
    Exec.forEach backingBlocks freeBlock
    Exec.unwrap .assertFailed (onVm (VMManager.unmapRange target size))
    release size

/-- The range checks against the linear heap of the process. -/
def inLinearHeap (p : Process) (target size : Nat) : Bool :=
  p.getLinearHeapBase ≤ target && add32 target size ≤ p.getLinearHeapLimit &&
    target ≤ add32 target size

/-- Where `LinearAllocate` puts a block: its address and its offset in FCRAM. -/
def linearPlace (target size : Nat) : Proc (Nat × Nat) := do
  let p ← Exec.get
  if target = 0 then do
    let offset ← onRegion (MemoryRegionInfo.linearAllocate size)
    match offset with
    | some offset => pure (add32 offset p.getLinearHeapAreaAddress, offset)
    | none => Exec.throw .outOfHeapMemory
  else do
    Exec.require .invalidAddress (p.inLinearHeap target size = true)
    let physicalOffset := sub32 target p.getLinearHeapAreaAddress
    let allocated ← onRegion (MemoryRegionInfo.linearAllocateAt physicalOffset size)
    Exec.require .invalidAddressState (allocated = true)
    pure (target, physicalOffset)

def linearAllocate (target size : Nat) (perms : VMAPermission) : Proc Nat := do
  let place ← linearPlace target size
  let backingMemory ← getFCRAMRef place.2
  onVm (mapBlock place.1 backingMemory size .continuous perms)
  Exec.modify fun p => { p with
    holdingMemory := p.holdingMemory.add ⟨place.2, add32 place.2 size⟩ }
  reserve size
  pure place.1

def linearFree (target size : Nat) : Proc PUnit := do
  let p ← Exec.get
  Exec.require .invalidAddress (p.inLinearHeap target size = true)
  Exec.when (size ≠ 0) do
    onVm (VMManager.unmapRange target size)
    let physicalOffset := sub32 target p.getLinearHeapAreaAddress
    onRegion (MemoryRegionInfo.free physicalOffset size)
    Exec.modify fun p => { p with
      holdingMemory := p.holdingMemory.sub ⟨physicalOffset, add32 physicalOffset size⟩ }
    release size

/-- Whether two ranges of one size overlap, in wrapping arithmetic. -/
def overlaps (target source size : Nat) : Bool :=
  sub32 source target < size || sub32 target source < size

/-- The state that a mapped source range is in, by privilege. -/
def aliasedState (privileged : Bool) : MemoryState := if privileged then .locked else .aliased

def map (target source size : Nat) (perms : VMAPermission) (privileged : Bool) : VM PUnit := do
  Exec.require .invalidAddress (privileged = true ∨ inHeap source size = true)
  if overlaps target source size then
    if privileged then
      if source = target then
        VMManager.changeMemoryState source size .privateMem .readWrite .aliasCode perms
      else Exec.throw .invalidAddress
    else Exec.throw .invalidAddressState
  else do
    requireFree target size
    VMManager.changeMemoryState source size .privateMem .readWrite (aliasedState privileged)
      (if privileged then .none else .readWrite)
    let backingBlocks ← VMManager.getBackingBlocksForRange source size
    mapBlocks (if privileged then .aliasCode else .aliasMem) perms backingBlocks target

def unmap (target source size : Nat) (perms : VMAPermission) (privileged : Bool) :
    VM PUnit := do
  Exec.require .invalidAddress (privileged = true ∨ inHeap source size = true)
  if overlaps target source size then
    if privileged then
      if source = target then
        VMManager.changeMemoryState source size .aliasCode .none .privateMem perms
      else Exec.throw .invalidAddress
    else Exec.throw .invalidAddressState
  else do
    VMManager.unmapRange target size
    VMManager.changeMemoryState source size (aliasedState privileged) .none .privateMem perms

end Process

/-- The permission bits of the kernel interface; `DontCare` is a bit of its own. -/
abbrev MemoryPermission := Nat

def MemoryPermission.dontCare : MemoryPermission := 2 ^ 28

/-- `permissions & ~allowed` is zero. -/
def MemoryPermission.within (permissions allowed : MemoryPermission) : Bool :=
  permissions &&& (allowed ^^^ 0xFFFFFFFF) = 0

/-- A block of memory that several processes may map. -/
structure SharedMemory where
  linearHeapPhysOffset : Nat
  backingBlocks : List (MemoryRef × Nat)
  size : Nat
  permissions : MemoryPermission
  otherPermissions : MemoryPermission
  baseAddress : Nat

namespace SharedMemory

def convertPermissions (permission : MemoryPermission) : VMAPermission :=
  .ofBits (permission &&& 7)

/-- Where the block is mapped when no address is given. -/
def targetAddress (memory : SharedMemory) (address : Nat) : Nat :=
  if memory.baseAddress = 0 ∧ address = 0 then
    add32 memory.linearHeapPhysOffset linearHeapVaddr
  else address

/-- Map the block into an address space; `isOwner` says whether it is the creator's. -/
def map (memory : SharedMemory) (isOwner : Bool) (address : Nat)
    (permissions otherPermissions : MemoryPermission) : VM PUnit := do
  Exec.require .invalidCombination
    (¬ (memory.baseAddress = 0 ∧ otherPermissions ≠ .dontCare))
  Exec.require .invalidCombination (permissions.within
    (if isOwner then memory.permissions else memory.otherPermissions) = true)
  Exec.require .invalidCombination
    (¬ (memory.baseAddress ≠ 0 ∧ otherPermissions = .dontCare))
  Exec.require .wrongPermission
    (otherPermissions = .dontCare ∨ memory.permissions.within otherPermissions = true)
  Exec.require .invalidAddress (address = 0 ∨
    (heapVaddr ≤ address ∧ add32 address memory.size < sharedMemoryVaddrEnd))
  Process.requireFree (memory.targetAddress address) memory.size
  Process.mapBlocks .shared (convertPermissions permissions) memory.backingBlocks
    (memory.targetAddress address)

end SharedMemory

/-- The operations of `ControlMemory` that the kernel knows. -/
inductive MemoryOperation where
  | free
  | commit
  | map
  | unmap
  | protect
  deriving DecidableEq, Repr

namespace MemoryOperation

def operationMask : Nat := 0xFF
def regionMask : Nat := 0xF00
def linear : Nat := 0x10000

/-- The `switch` on the masked operation. -/
def ofBits (operation : Nat) : Option MemoryOperation :=
  match operation &&& operationMask with
  | 1 => some free
  | 3 => some commit
  | 4 => some map
  | 5 => some unmap
  | 6 => some protect
  | _ => none

end MemoryOperation

namespace Process

/-- The `switch` of `ControlMemory`, after its argument checks. -/
def controlMemoryCase (operation : Option MemoryOperation) (linear : Bool)
    (addr0 addr1 size : Nat) (perms : VMAPermission) : Proc (Option Nat) := do
  let p ← Exec.get
  match operation with
  | some .free =>
      if heapVaddr ≤ addr0 ∧ addr0 < heapVaddrEnd then do
        heapFree addr0 size
        pure (some addr0)
      else if p.getLinearHeapBase ≤ addr0 ∧ addr0 < p.getLinearHeapLimit then do
        linearFree addr0 size
        pure (some addr0)
      else Exec.throw .invalidAddress
  | some .commit =>
      if linear then do
        let outAddr ← linearAllocate addr0 size perms
        pure (some outAddr)
      else do
        let outAddr ← heapAllocate addr0 size perms .privateMem false
        pure (some outAddr)
  | some .map => do
      onVm (map addr0 addr1 size perms false)
      pure none
  | some .unmap => do
      onVm (unmap addr0 addr1 size perms false)
      pure none
  | some .protect => do
      onVm (VMManager.reprotectRange addr0 size perms)
      pure none
  | none => Exec.throw .invalidCombination

/-- `ControlMemory`; it returns the output address where it sets one. -/
def controlMemory (addr0 addr1 size operation permissions : Nat) : Proc (Option Nat) := do
  Exec.require .misalignedAddress (addr0 &&& pageMask = 0)
  Exec.require .misalignedAddress (addr1 &&& pageMask = 0)
  Exec.require .misalignedSize (size &&& pageMask = 0)
  let region := operation &&& MemoryOperation.regionMask
  let operation := operation - region
  Exec.require .invalidCombination
    (permissions &&& VMAPermission.readWrite.bits = permissions)
  controlMemoryCase (MemoryOperation.ofBits operation)
    (operation &&& MemoryOperation.linear ≠ 0) addr0 addr1 size (.ofBits permissions)

end Process

end Cytrus.Kernel
