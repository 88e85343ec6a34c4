import Cytrus.Kernel.PageTable

/-!
# The memory of the guest

Host memory is one array of bytes, indexed by host pointers. The block
operations go through the page table of a process, byte by byte: a byte of an
unmapped page reads as zero and is not written, and a page that the rasterizer
has cached is found by its address.

## Implementation notes

Flushing the rasterizer's caches is not part of the model. `none` is a run past
the end of the page table, or a cached page outside the cached regions.
-/

namespace Cytrus.Memory

/-- Host memory, and where its fixed parts are. -/
structure MemorySystem where
  bytes : Nat → UInt8
  fcram : BackingMem
  vram : BackingMem
  pluginFbAddress : Nat

namespace MemorySystem

def linearHeapVaddr : Nat := 0x14000000
def linearHeapVaddrEnd : Nat := 0x1C000000
def newLinearHeapVaddr : Nat := 0x30000000
def newLinearHeapVaddrEnd : Nat := 0x40000000
def vramVaddr : Nat := 0x1F000000
def vramVaddrEnd : Nat := 0x1F600000
def plugin3gxFbVaddr : Nat := 0x06000000
def plugin3gxFbVaddrEnd : Nat := 0x060A9000
def fcramPaddr : Nat := 0x20000000

/-- The host byte behind an address of a cached page. -/
def getPointerForRasterizerCache (m : MemorySystem) (addr : Nat) : Option Nat :=
  if linearHeapVaddr ≤ addr ∧ addr < linearHeapVaddrEnd then
    some (m.fcram.ptr + (addr - linearHeapVaddr))
  else if newLinearHeapVaddr ≤ addr ∧ addr < newLinearHeapVaddrEnd then
    some (m.fcram.ptr + (addr - newLinearHeapVaddr))
  else if vramVaddr ≤ addr ∧ addr < vramVaddrEnd then some (m.vram.ptr + (addr - vramVaddr))
  else if plugin3gxFbVaddr ≤ addr ∧ addr < plugin3gxFbVaddrEnd ∧ m.pluginFbAddress ≠ 0 then
    some (m.fcram.ptr + (addr - plugin3gxFbVaddr + m.pluginFbAddress - fcramPaddr))
  else none

/-- Where the byte at an address lies: `some none` for an unmapped page. -/
def locate (m : MemorySystem) (table : PageTable) (addr : Nat) : Option (Option Nat) :=
  if addr / pageSize < pageTableNumEntries then
    match (table (addr / pageSize)).attributes with
    | .unmapped => some none
    | .memory => some (some ((table (addr / pageSize)).pointer.getPtr + addr % pageSize))
    | .rasterizerCachedMemory => (m.getPointerForRasterizerCache addr).map some
  else none

def readByte (m : MemorySystem) (table : PageTable) (addr : Nat) : Option UInt8 :=
  (m.locate table addr).map fun place => (place.map m.bytes).getD 0

def writeByte (m : MemorySystem) (table : PageTable) (addr : Nat) (value : UInt8) :
    Option MemorySystem :=
  (m.locate table addr).map fun place =>
    match place with
    | some pointer => { m with bytes := Function.update m.bytes pointer value }
    | none => m

def readBlock (m : MemorySystem) (table : PageTable) (addr : Nat) : Nat → Option (List UInt8)
  | 0 => some []
  | size + 1 => do
      let value ← m.readByte table addr
      let rest ← m.readBlock table (addr + 1) size
      pure (value :: rest)

def writeBlock (m : MemorySystem) (table : PageTable) (addr : Nat) :
    List UInt8 → Option MemorySystem
  | [] => some m
  | value :: rest => do
      let m ← m.writeByte table addr value
      m.writeBlock table (addr + 1) rest

def copyBlock (m : MemorySystem) (destTable srcTable : PageTable) (destAddr srcAddr : Nat) :
    Nat → Option MemorySystem
  | 0 => some m
  | size + 1 => do
      let value ← m.readByte srcTable srcAddr
      let m ← m.writeByte destTable destAddr value
      m.copyBlock destTable srcTable (destAddr + 1) (srcAddr + 1) size

/-- Host memory that was just allocated and cleared. -/
def zeroed (m : MemorySystem) (pointer size : Nat) : MemorySystem :=
  { m with bytes := fun q => if pointer ≤ q ∧ q < pointer + size then 0 else m.bytes q }

def store (m : MemorySystem) (pointer : Nat) (data : List UInt8) : MemorySystem :=
  { m with bytes := fun q =>
    if pointer ≤ q then (data[q - pointer]?).getD (m.bytes q) else m.bytes q }

end MemorySystem

/-- The little-endian words of a block of bytes. -/
def wordsOf : List UInt8 → List Nat
  | b₀ :: b₁ :: b₂ :: b₃ :: rest =>
      (b₀.toNat + b₁.toNat * 2 ^ 8 + b₂.toNat * 2 ^ 16 + b₃.toNat * 2 ^ 24) :: wordsOf rest
  | _ => []

/-- The bytes of a word, the lowest first. -/
def bytesOf (word : Nat) : List UInt8 :=
  [.ofNat word, .ofNat (word / 2 ^ 8), .ofNat (word / 2 ^ 16), .ofNat (word / 2 ^ 24)]

end Cytrus.Memory
