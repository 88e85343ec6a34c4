import Cytrus.Core.BlockAccess
import Mathlib.Data.Nat.Digits.Defs

/-!
# Single accesses to guest memory

`Read` and `Write` take one host pointer for all their bytes, from the page of
the first one. They know two mirrors above `2^31` that the block accesses do not
know: FCRAM, and the registers of the GPU.

## Implementation notes

`none` is an abort. Values are natural numbers; `width` is the size of the type
in bytes. The GPU actions that a register write starts are a parameter.
-/

namespace Cytrus.Memory

open Support

/-! ## Little-endian values -/

/-- The value that bytes spell, the lowest first. -/
def ofBytes (bytes : List UInt8) : Nat := Nat.ofDigits 256 (bytes.map UInt8.toNat)

/-- The lowest bytes of a value. -/
def toBytes (width value : Nat) : List UInt8 :=
  (List.range width).map fun i => UInt8.ofNat (value / 256 ^ i)

/-! ## The registers of the GPU -/

def vaddrLcd : Nat := 0x1ED02000
def vaddrGpu : Nat := 0x1EF00000
def regsLcdNumIds : Nat := 0x400
def numRegs : Nat := 0x732

inductive Register where
  | lcd (index : Nat)
  | gpu (index : Nat)
  deriving DecidableEq, Repr

/-- The `switch` of `ReadReg` and `WriteReg`, with its assertions. -/
def decodeRegister (addr : Nat) : Option Register :=
  if addr / pageSize = vaddrLcd / pageSize then
    if addr % 4 = 0 ∧ (addr - vaddrLcd) / 4 < regsLcdNumIds then
      some (.lcd ((addr - vaddrLcd) / 4))
    else none
  else if addr / pageSize = vaddrGpu / pageSize ∨
      addr / pageSize = (vaddrGpu + 0x1000) / pageSize then
    if addr % 4 = 0 ∧ (addr - vaddrGpu) / 4 < numRegs then some (.gpu ((addr - vaddrGpu) / 4))
    else none
  else none

structure GPU where
  regsLcd : Nat → Nat
  regArray : Nat → Nat

/-- Memory and the registers. -/
structure System where
  memory : MemorySystem
  gpu : GPU

def System.readReg (s : System) (addr : Nat) : Option Nat :=
  match decodeRegister addr with
  | some (.lcd index) => some (s.gpu.regsLcd index)
  | some (.gpu index) => some (s.gpu.regArray index)
  | none => none

/-- `WriteReg`; `action` is what the write of a GPU register starts. -/
def System.writeReg (action : Nat → System → System) (s : System) (addr data : Nat) :
    Option System :=
  match decodeRegister addr with
  | some (.lcd index) =>
      some { s with gpu.regsLcd := Function.update s.gpu.regsLcd index data }
  | some (.gpu index) =>
      some (action index { s with gpu.regArray := Function.update s.gpu.regArray index data })
  | none => none

/-! ## Where an access goes -/

def ioAreaPaddr : Nat := 0x10100000

inductive Target where
  | host (pointer : Nat)
  | register (addr : Nat)
  | unmapped
  deriving DecidableEq, Repr

/-- The lookup that `Read` and `Write` share. -/
def target (m : MemorySystem) (table : PageTable) (vaddr : Nat) : Option Target :=
  if (table (vaddr / pageSize)).pointer.getPtr ≠ 0 then
    some (.host ((table (vaddr / pageSize)).pointer.getPtr + vaddr % pageSize))
  else if 2 ^ 31 ≤ vaddr ∧ (vaddr - 2 ^ 31) / 2 ^ 28 = MemorySystem.fcramPaddr / 2 ^ 28 then
    some (.host (m.fcram.ptr + (vaddr - 2 ^ 31 - MemorySystem.fcramPaddr)))
  else if 2 ^ 31 ≤ vaddr ∧ (vaddr - 2 ^ 31) / 2 ^ 28 = 1 ∧ ioAreaPaddr ≤ vaddr - 2 ^ 31 then
    some (.register (vaddr - 2 ^ 31 - ioAreaPaddr + 0x1EC00000))
  else
    match (table (vaddr / pageSize)).attributes with
    | .unmapped => some .unmapped
    | .memory => none
    | .rasterizerCachedMemory => (m.getPointerForRasterizerCache vaddr).map .host

namespace System

def load (s : System) (width : Nat) : Target → Option Nat
  | .host pointer => some (ofBytes (s.memory.load pointer width))
  | .register addr => (s.readReg addr).map (· % 256 ^ width)
  | .unmapped => some 0

/-- `Read` of a type of `width` bytes. -/
def read (s : System) (table : PageTable) (width vaddr : Nat) : Option Nat :=
  (target s.memory table vaddr).bind (s.load width)

def store (action : Nat → System → System) (s : System) (width data : Nat) :
    Target → Option System
  | .host pointer => some { s with memory := s.memory.store pointer (toBytes width data) }
  | .register addr => if width = 4 then s.writeReg action addr (data % 2 ^ 32) else none
  | .unmapped => some s

/-- `Write` of a type of `width` bytes. -/
def write (action : Nat → System → System) (s : System) (table : PageTable)
    (width vaddr data : Nat) : Option System :=
  (target s.memory table vaddr).bind (s.store action width data)

def read8 (s : System) (table : PageTable) (vaddr : Nat) : Option Nat := s.read table 1 vaddr

def read16 (s : System) (table : PageTable) (vaddr : Nat) : Option Nat := s.read table 2 vaddr

def read32 (s : System) (table : PageTable) (vaddr : Nat) : Option Nat := s.read table 4 vaddr

def read64 (s : System) (table : PageTable) (vaddr : Nat) : Option Nat := s.read table 8 vaddr

def write8 (action : Nat → System → System) (s : System) (table : PageTable) (vaddr data : Nat) :
    Option System := s.write action table 1 vaddr data

def write16 (action : Nat → System → System) (s : System) (table : PageTable) (vaddr data : Nat) :
    Option System := s.write action table 2 vaddr data

def write32 (action : Nat → System → System) (s : System) (table : PageTable) (vaddr data : Nat) :
    Option System := s.write action table 4 vaddr data

def write64 (action : Nat → System → System) (s : System) (table : PageTable) (vaddr data : Nat) :
    Option System := s.write action table 8 vaddr data

/-- The bytes that successive calls of `Read8` return. -/
def readEach (s : System) (table : PageTable) (vaddr : Nat) : Nat → Option (List Nat)
  | 0 => some []
  | count + 1 => do
      let value ← s.read8 table vaddr
      let rest ← s.readEach table (add32 vaddr 1) count
      pure (value :: rest)

/-- Successive calls of `Write8`. -/
def writeEach (action : Nat → System → System) (s : System) (table : PageTable) (vaddr : Nat) :
    List UInt8 → Option System
  | [] => some s
  | value :: rest => do
      let s ← s.write8 action table vaddr value.toNat
      s.writeEach action table (add32 vaddr 1) rest

end System

/-! ## Tables that the mapping operations build -/

/-- The first page above the address space of a process. -/
def maxPage : Nat := 0x40000

/-- `RasterizerMarkRegionCached` at one page; `none` is its `UNREACHABLE`. -/
def markPage (table : PageTable) (page : Nat) (cached : Bool) (ref : MemoryRef) :
    Option PageTable :=
  match (table page).attributes, cached with
  | .unmapped, _ => some table
  | .memory, true => some (Function.update table page ⟨.rasterizerCachedMemory, .null⟩)
  | .rasterizerCachedMemory, false => some (Function.update table page ⟨.memory, ref⟩)
  | _, _ => none

/-- Page tables, and the memory they refer to, in any order of mapping, unmapping, marking pages
as cached or uncached, and setting the framebuffer of a plugin. Host memory is never at zero. -/
inductive Mapped : MemorySystem → PageTable → Prop
  | clear {m} (h : m.pluginFbAddress = 0) : Mapped m PageTable.clear
  | map {m table table'} (isCached : Nat → Bool) (base count : Nat) (memory : MemoryRef) :
      Mapped m table → base + count ≤ maxPage → memory.getPtr ≠ 0 →
      mapPages isCached .memory table base count memory = some table' → Mapped m table'
  | unmap {m table table'} (isCached : Nat → Bool) (base count : Nat) :
      Mapped m table → base + count ≤ maxPage →
      mapPages isCached .unmapped table base count .null = some table' → Mapped m table'
  | mark {m table table'} (page : Nat) (cached : Bool) (ref : MemoryRef) :
      Mapped m table →
      m.getPointerForRasterizerCache (page * pageSize) = some ref.getPtr → ref.getPtr ≠ 0 →
      markPage table page cached ref = some table' → Mapped m table'
  | plugin {m table} (address : Nat) :
      Mapped m table → address = 0 ∨ MemorySystem.fcramPaddr ≤ address →
      Mapped { m with pluginFbAddress := address } table

end Cytrus.Memory
