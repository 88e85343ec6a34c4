import Cytrus.Support.OrderedMap
import Cytrus.Kernel.PageTable

/-!
# The virtual memory manager of a process

The address space below `maxAddress` is a map from base addresses to virtual
memory areas. Calls split areas at the edges of their range, change the areas
inside it, and merge neighbours that have become alike.

## Implementation notes

An iterator of `vma_map` is the key of the entry it points to, `none` being
`end()`. Dereferencing `end()` aborts, as does an assertion. Loops over
iterators are bounded by the number of areas plus one.
-/

namespace Cytrus.Kernel

open Support Support.OrderedMap Memory

inductive VMAType where
  | free
  | backingMemory
  deriving DecidableEq, Repr

/-- The three permission bits and their named combinations. -/
inductive VMAPermission where
  | none
  | read
  | write
  | readWrite
  | execute
  | readExecute
  | writeExecute
  | readWriteExecute
  deriving DecidableEq, Repr

namespace VMAPermission

/-- The underlying bits of a permission. -/
def bits : VMAPermission → Nat
  | none => 0
  | read => 1
  | write => 2
  | readWrite => 3
  | execute => 4
  | readExecute => 5
  | writeExecute => 6
  | readWriteExecute => 7

/-- The cast from an integer that has at most the three permission bits. -/
def ofBits : Nat → VMAPermission
  | 1 => read
  | 2 => write
  | 3 => readWrite
  | 4 => execute
  | 5 => readExecute
  | 6 => writeExecute
  | 7 => readWriteExecute
  | _ => none

/-- `(permissions & perms) == perms`. -/
def includes (permissions perms : VMAPermission) : Bool :=
  permissions.bits &&& perms.bits == perms.bits

end VMAPermission

/-- The states that `svcQueryMemory` reports; `private` and `alias` are reserved words here. -/
inductive MemoryState where
  | free
  | reserved
  | io
  | static
  | code
  | privateMem
  | shared
  | continuous
  | aliased
  | aliasMem
  | aliasCode
  | locked
  deriving DecidableEq, Repr

/-- A contiguous region of virtual addresses with the same attributes throughout. -/
structure VirtualMemoryArea where
  base : Nat := 0
  size : Nat := 0
  type : VMAType := .free
  permissions : VMAPermission := .none
  meminfoState : MemoryState := .free
  backingMemory : MemoryRef := .null
  deriving DecidableEq, Repr

/-- The value `CanBeMergedWith` returns once its assertion holds. -/
def VirtualMemoryArea.canBeMergedWith (vma next : VirtualMemoryArea) : Bool :=
  vma.permissions = next.permissions && vma.meminfoState = next.meminfoState &&
    vma.type = next.type &&
    !(vma.type = .backingMemory &&
      vma.backingMemory.getPtr + vma.size ≠ next.backingMemory.getPtr)

/-- The four assignments to an area's attributes that the calls below make. -/
def VirtualMemoryArea.mapped (memory : MemoryRef) (state : MemoryState)
    (vma : VirtualMemoryArea) : VirtualMemoryArea :=
  { vma with
    type := .backingMemory
    permissions := .readWrite
    meminfoState := state
    backingMemory := memory }

@[inherit_doc VirtualMemoryArea.mapped]
def VirtualMemoryArea.unmapped (vma : VirtualMemoryArea) : VirtualMemoryArea :=
  { vma with
    type := .free
    permissions := .none
    meminfoState := .free
    backingMemory := .null }

@[inherit_doc VirtualMemoryArea.mapped]
def VirtualMemoryArea.reprotected (newPerms : VMAPermission) (vma : VirtualMemoryArea) :
    VirtualMemoryArea :=
  { vma with permissions := newPerms }

@[inherit_doc VirtualMemoryArea.mapped]
def VirtualMemoryArea.restated (newState : MemoryState) (newPerms : VMAPermission)
    (vma : VirtualMemoryArea) : VirtualMemoryArea :=
  { vma with
    permissions := newPerms
    meminfoState := newState }

/-- The limit of the managed address space. -/
def maxAddress : Nat := 0x40000000

/-- An address space: its areas, its page table, and the rasterizer marks the table reads. -/
structure VMManager where
  vmaMap : Entries Nat VirtualMemoryArea
  pageTable : PageTable
  cacheMarker : Nat → Bool
  isLocked : Bool

/-- A call on an address space. -/
abbrev VM (α : Type) := Exec Fault ResultCode VMManager α

abbrev VMAIter := Option Nat

namespace VMManager

/-- Dereference an iterator. -/
def deref (it : VMAIter) : VM VirtualMemoryArea :=
  Exec.read .invalidIterator fun vm => it.bind (at? vm.vmaMap)

/-- Write through an iterator that was dereferenced before. -/
def store (it : VMAIter) (vma : VirtualMemoryArea) : VM PUnit :=
  Exec.modify fun vm =>
    match it with
    | some key => { vm with vmaMap := write vm.vmaMap key vma }
    | none => vm

/-- `std::next`, which needs an entry to step from. -/
def next (it : VMAIter) : VM VMAIter :=
  Exec.read .invalidIterator fun vm => it.map (upperBound vm.vmaMap)

def assertUnlocked : VM PUnit := do
  let vm ← Exec.get
  Exec.assert .assertFailed (vm.isLocked = false)

/-- The alignment assertion on a size or an address. -/
def assertAligned (n : Nat) : VM PUnit :=
  Exec.assert .assertFailed (n &&& pageMask = 0)

/-- `CanBeMergedWith` with its assertion that the two areas touch. -/
def canBeMergedWith (vma next : VirtualMemoryArea) : VM Bool := do
  Exec.assert .assertFailed (add32 vma.base vma.size = next.base)
  pure (vma.canBeMergedWith next)

def findVMA (vm : VMManager) (target : Nat) : VMAIter :=
  if maxAddress ≤ target then none
  else prev vm.vmaMap (upperBound vm.vmaMap target)

/-- `UnmapRegion` or `MapMemoryRegion`, by the type of the area. -/
def updatePageTableForVMA (vma : VirtualMemoryArea) : VM PUnit := do
  assertAligned vma.size
  assertAligned vma.base
  let pageTable ← Exec.read .assertFailed fun vm =>
    match vma.type with
    | .free =>
        mapPages vm.cacheMarker .unmapped vm.pageTable (vma.base / pageSize)
          (vma.size / pageSize) .null
    | .backingMemory =>
        mapPages vm.cacheMarker .memory vm.pageTable (vma.base / pageSize)
          (vma.size / pageSize) vma.backingMemory
  Exec.modify fun vm => { vm with pageTable }

def reset : VM PUnit := do
  assertUnlocked
  let initialVma : VirtualMemoryArea := { size := maxAddress }
  Exec.modify fun vm => { vm with
    vmaMap := emplace [] initialVma.base initialVma
    pageTable := PageTable.clear }
  updatePageTableForVMA initialVma

/-- The host memory of the right side of a split. -/
def splitBackingMemory (vma : VirtualMemoryArea) (offsetInVma : Nat) : VM MemoryRef :=
  match vma.type with
  | .free => pure vma.backingMemory
  | .backingMemory => vma.backingMemory.advance offsetInVma

/-- Returns the right side of the split, the old iterator being the left side. -/
def splitVMA (vmaHandle : VMAIter) (offsetInVma : Nat) : VM VMAIter := do
  let oldVma ← deref vmaHandle
  Exec.assert .assertFailed (offsetInVma < oldVma.size)
  Exec.assert .assertFailed (0 < offsetInVma)
  let left := { oldVma with size := offsetInVma }
  let backingMemory ← splitBackingMemory oldVma offsetInVma
  let right := { oldVma with
    base := add32 oldVma.base offsetInVma
    size := sub32 oldVma.size offsetInVma
    backingMemory }
  store vmaHandle left
  let mergeable ← canBeMergedWith left right
  Exec.assert .assertFailed (mergeable = true)
  Exec.modify fun vm => { vm with vmaMap := emplace vm.vmaMap right.base right }
  pure (some right.base)

/-- The first half of `MergeAdjacent`: the area absorbs the one after it. -/
def mergeNext (iter : VMAIter) : VM PUnit := do
  let nextVma ← next iter
  Exec.when (nextVma ≠ none) do
    let vma ← deref iter
    let after ← deref nextVma
    let mergeable ← canBeMergedWith vma after
    Exec.when (mergeable = true) do
      store iter { vma with size := add32 vma.size after.size }
      Exec.modify fun vm => { vm with vmaMap := nextVma.elim vm.vmaMap (erase vm.vmaMap) }

/-- The second half of `MergeAdjacent`: the area before absorbs this one. -/
def mergePrev (iter : VMAIter) : VM VMAIter := do
  let vm ← Exec.get
  if iter ≠ vm.vmaMap.head?.map Prod.fst then do
    let prevVma := prev vm.vmaMap iter
    let before ← deref prevVma
    let vma ← deref iter
    let mergeable ← canBeMergedWith before vma
    if mergeable = true then do
      store prevVma { before with size := add32 before.size vma.size }
      Exec.modify fun vm => { vm with vmaMap := iter.elim vm.vmaMap (erase vm.vmaMap) }
      pure prevVma
    else pure iter
  else pure iter

/-- Returns the merged area, or the original one if no merging was possible. -/
def mergeAdjacent (iter : VMAIter) : VM VMAIter := do
  mergeNext iter
  mergePrev iter

/-- Whether every area from `it` up to the iterator `last` satisfies `p`. -/
def allOf (p : VirtualMemoryArea → Bool) (last : VMAIter) : Nat → VMAIter → VM Bool
  | 0, _ => Exec.abort .outOfFuel
  | fuel + 1, it =>
      if it = last then pure true
      else do
        let vma ← deref it
        if p vma then do
          let after ← next it
          allOf p last fuel after
        else pure false

/-- Splits a free area so that one area covers exactly the requested range. -/
def carveVMA (base size : Nat) : VM VMAIter := do
  assertAligned size
  assertAligned base
  let vm ← Exec.get
  let vmaHandle := vm.findVMA base
  Exec.require .invalidAddress (vmaHandle ≠ none)
  let vma ← deref vmaHandle
  Exec.require .invalidAddressState (vma.type = .free)
  let startInVma := sub32 base vma.base
  let endInVma := add32 startInVma size
  Exec.require .invalidAddressState (endInVma ≤ vma.size)
  Exec.when (endInVma ≠ vma.size) do
    let _ ← splitVMA vmaHandle endInVma
  if startInVma ≠ 0 then
    splitVMA vmaHandle startInVma
  else pure vmaHandle

/-- Split the area at an address unless it starts there. -/
def splitUnlessBase (vmaHandle : VMAIter) (address : Nat) : VM VMAIter := do
  let vma ← deref vmaHandle
  if address ≠ vma.base then splitVMA vmaHandle (sub32 address vma.base)
  else pure vmaHandle

/-- Splits the areas at both edges of a range that has no free area. -/
def carveVMARange (target size : Nat) : VM VMAIter := do
  assertAligned size
  assertAligned target
  let targetEnd := add32 target size
  Exec.assert .assertFailed (target ≤ targetEnd)
  Exec.assert .assertFailed (targetEnd ≤ maxAddress)
  Exec.assert .assertFailed (0 < size)
  let vm ← Exec.get
  let beginVma := vm.findVMA target
  let mapped ← allOf (fun vma => vma.type ≠ .free) (lowerBound vm.vmaMap targetEnd)
    (vm.vmaMap.length + 1) beginVma
  Exec.require .invalidAddressState (mapped = true)
  let beginVma ← splitUnlessBase beginVma target
  let vm ← Exec.get
  let endVma := vm.findVMA targetEnd
  Exec.when (endVma ≠ none) do
    let _ ← splitUnlessBase endVma targetEnd
  pure beginVma

/-- The loop of the range calls: visit areas until one starts at or after the end of the
range. Each visit returns the area it merged into, and the loop goes on after that one. -/
def forEachInRange (visit : VMAIter → VM VMAIter) (targetEnd : Nat) : Nat → VMAIter → VM PUnit
  | 0, _ => Exec.abort .outOfFuel
  | fuel + 1, it =>
      if it = none then pure ⟨⟩
      else do
        let vma ← deref it
        if vma.base < targetEnd then do
          let merged ← visit it
          let after ← next merged
          forEachInRange visit targetEnd fuel after
        else pure ⟨⟩

/-- Runs the loop over the areas there are now. -/
def forEachUntil (visit : VMAIter → VM VMAIter) (targetEnd : Nat) (it : VMAIter) : VM PUnit := do
  let vm ← Exec.get
  forEachInRange visit targetEnd (vm.vmaMap.length + 1) it

/-- Rewrite an area's attributes, update its pages, and merge it with its neighbours. -/
def rewrite (f : VirtualMemoryArea → VirtualMemoryArea) (it : VMAIter) : VM VMAIter := do
  let vma ← deref it
  store it (f vma)
  updatePageTableForVMA (f vma)
  mergeAdjacent it

def mapBackingMemory (target : Nat) (memory : MemoryRef) (size : Nat) (state : MemoryState) :
    VM VMAIter := do
  assertUnlocked
  Exec.assert .assertFailed (memory.getPtr ≠ 0)
  let vmaHandle ← carveVMA target size
  let finalVma ← deref vmaHandle
  Exec.assert .assertFailed (finalVma.size = size)
  rewrite (.mapped memory state) vmaHandle

/-- The first free area whose end leaves room for the block above `base`. -/
def mapBackingMemoryToBase (base regionSize : Nat) (memory : MemoryRef) (size : Nat)
    (state : MemoryState) : VM Nat := do
  assertUnlocked
  let vm ← Exec.get
  let vmaHandle : VMAIter := (vm.vmaMap.find? fun entry =>
    entry.2.type = .free && base < add32 entry.2.base entry.2.size &&
      add32 base size ≤ add32 entry.2.base entry.2.size).map Prod.fst
  -- The source reads through the iterator before it compares it with `end()`.
  let vma ← deref vmaHandle
  let target := max base vma.base
  Exec.require .outOfMemory (add32 target size ≤ add32 base regionSize)
  let _ ← mapBackingMemory target memory size state
  pure target

def changeMemoryState (target size : Nat) (expectedState : MemoryState)
    (expectedPerms : VMAPermission) (newState : MemoryState) (newPerms : VMAPermission) :
    VM PUnit := do
  let vm ← Exec.get
  if vm.isLocked then pure ⟨⟩
  else do
    let targetEnd := add32 target size
    let beginVma := vm.findVMA target
    Exec.require .invalidAddress (beginVma ≠ none)
    let expected ← allOf
      (fun vma => vma.meminfoState = expectedState && vma.permissions.includes expectedPerms)
      (lowerBound vm.vmaMap targetEnd) (vm.vmaMap.length + 1) beginVma
    Exec.require .invalidAddressState (expected = true)
    let vma ← carveVMARange target size
    forEachUntil (rewrite (.restated newState newPerms)) targetEnd vma

def unmap (vmaHandle : VMAIter) : VM VMAIter := do
  assertUnlocked
  rewrite .unmapped vmaHandle

def unmapRange (target size : Nat) : VM PUnit := do
  assertUnlocked
  let vma ← carveVMARange target size
  let targetEnd := add32 target size
  forEachUntil unmap targetEnd vma
  let vm ← Exec.get
  let vma ← deref (vm.findVMA target)
  Exec.assert .assertFailed (size ≤ vma.size)

def reprotect (vmaHandle : VMAIter) (newPerms : VMAPermission) : VM VMAIter := do
  assertUnlocked
  rewrite (.reprotected newPerms) vmaHandle

def reprotectRange (target size : Nat) (newPerms : VMAPermission) : VM PUnit := do
  assertUnlocked
  let vma ← carveVMARange target size
  let targetEnd := add32 target size
  forEachUntil (fun it => reprotect it newPerms) targetEnd vma

/-- The blocks of host memory behind a range, in address order. -/
def backingBlocks (rangeEnd : Nat) : Nat → Nat → VM (List (MemoryRef × Nat))
  | 0, _ => Exec.abort .outOfFuel
  | fuel + 1, intervalTarget =>
      if intervalTarget = rangeEnd then pure []
      else do
        let vm ← Exec.get
        let vma ← deref (vm.findVMA intervalTarget)
        Exec.require .invalidAddressState (vma.type = .backingMemory)
        let intervalEnd := min rangeEnd (add32 vma.base vma.size)
        let intervalSize := sub32 intervalEnd intervalTarget
        let backingMemory ← vma.backingMemory.advance (sub32 intervalTarget vma.base)
        let rest ← backingBlocks rangeEnd fuel (add32 intervalTarget intervalSize)
        pure ((backingMemory, intervalSize) :: rest)

def getBackingBlocksForRange (address size : Nat) : VM (List (MemoryRef × Nat)) := do
  let vm ← Exec.get
  backingBlocks (add32 address size) (vm.vmaMap.length + 1) address

end VMManager

end Cytrus.Kernel
