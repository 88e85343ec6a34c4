import Mathlib
import Cytrus.Support.Exec
import Cytrus.Ldr.ModuleLists

/-!
# Relocatable modules

A module is a header and tables of entries: its segments, the symbols that it
exports and imports, and the relocations, the words of its segments that hold
the address of a symbol. The relocations of an imported symbol are a batch,
which is applied again for every address that the symbol gets.

## Implementation notes

The memory of a process is in parts that do not overlap: the link words of the
headers, the rest of the headers, the tables, the flags of the batches, the
strings, and the words that relocations write. The number words of a header
are the lengths of its tables. A read of an entry that no table has is a fault,
and so is a loop that does not end.
-/

namespace Cytrus.Ldr

open Support

/-- The sections of a module, in the order of the header. -/
inductive Section
  | Code
  | Data
  | ModuleName
  | SegmentTable
  | ExportNamedSymbolTable
  | ExportIndexedSymbolTable
  | ExportStrings
  | ExportTreeTable
  | ImportModuleTable
  | ExternalRelocationTable
  | ImportNamedSymbolTable
  | ImportIndexedSymbolTable
  | ImportAnonymousSymbolTable
  | ImportStrings
  | StaticAnonymousSymbolTable
  | InternalRelocationTable
  | StaticRelocationTable
  deriving DecidableEq

namespace Section

/-- The order of the loops over the offset words. -/
def all : List Section :=
  [Code, Data, ModuleName, SegmentTable, ExportNamedSymbolTable, ExportIndexedSymbolTable,
    ExportStrings, ExportTreeTable, ImportModuleTable, ExternalRelocationTable,
    ImportNamedSymbolTable, ImportIndexedSymbolTable, ImportAnonymousSymbolTable, ImportStrings,
    StaticAnonymousSymbolTable, InternalRelocationTable, StaticRelocationTable]

def entrySize : Section → UInt32
  | Code | Data | ModuleName | ExportStrings | ImportStrings => 1
  | SegmentTable | ExternalRelocationTable | InternalRelocationTable | StaticRelocationTable => 12
  | ExportNamedSymbolTable | ExportTreeTable | ImportNamedSymbolTable | ImportIndexedSymbolTable
  | ImportAnonymousSymbolTable | StaticAnonymousSymbolTable => 8
  | ExportIndexedSymbolTable => 4
  | ImportModuleTable => 20

/-- `OFFSET_ORDER` of `RebaseHeader`, without the file size behind it. -/
def offsetOrder : List Section :=
  [Code, ModuleName, SegmentTable, ExportNamedSymbolTable, ExportTreeTable,
    ExportIndexedSymbolTable, ExportStrings, ImportModuleTable, ExternalRelocationTable,
    ImportNamedSymbolTable, ImportIndexedSymbolTable, ImportAnonymousSymbolTable, ImportStrings,
    StaticAnonymousSymbolTable, InternalRelocationTable, StaticRelocationTable, Data]

end Section

/-- `SegmentType`. Every other number is none of the types. -/
inductive SegmentType
  | Code | ROData | Data | BSS | Other (n : UInt32)
  deriving DecidableEq

abbrev SegmentTag := UInt32

def SegmentTag.segmentIndex (tag : SegmentTag) : UInt32 := tag &&& 0xF

def SegmentTag.offsetIntoSegment (tag : SegmentTag) : UInt32 := tag >>> 4

structure SegmentEntry where
  offset : UInt32
  size : UInt32
  type : SegmentType
  deriving DecidableEq

structure ExportNamedSymbolEntry where
  nameOffset : UInt32
  symbolPosition : SegmentTag
  deriving DecidableEq

structure ExportTreeEntry where
  testBit : UInt16
  left : UInt16
  right : UInt16
  exportTableIndex : UInt16
  deriving DecidableEq

structure ImportModuleEntry where
  nameOffset : UInt32
  importIndexedSymbolTableOffset : UInt32
  importIndexedSymbolNum : UInt32
  importAnonymousSymbolTableOffset : UInt32
  importAnonymousSymbolNum : UInt32
  deriving DecidableEq

structure ImportNamedSymbolEntry where
  nameOffset : UInt32
  relocationBatchOffset : UInt32
  deriving DecidableEq

structure ImportIndexedSymbolEntry where
  index : UInt32
  relocationBatchOffset : UInt32
  deriving DecidableEq

/-- `ImportAnonymousSymbolEntry` and `StaticAnonymousSymbolEntry`. -/
structure AnonymousSymbolEntry where
  symbolPosition : SegmentTag
  relocationBatchOffset : UInt32
  deriving DecidableEq

/-- `RelocationEntry`, without `is_batch_resolved`. -/
structure RelocationEntry where
  targetPosition : SegmentTag
  type : UInt8
  isBatchEnd : Bool
  addend : UInt32
  deriving DecidableEq

structure InternalRelocationEntry where
  targetPosition : SegmentTag
  type : UInt8
  symbolSegment : UInt8
  addend : UInt32
  deriving DecidableEq

/-- The tables of a module. -/
structure Tables where
  segments : List SegmentEntry := []
  exportNamed : List ExportNamedSymbolEntry := []
  exportIndexed : List SegmentTag := []
  exportTree : List ExportTreeEntry := []
  importModule : List ImportModuleEntry := []
  externalRelocation : List RelocationEntry := []
  importNamed : List ImportNamedSymbolEntry := []
  importIndexed : List ImportIndexedSymbolEntry := []
  importAnonymous : List AnonymousSymbolEntry := []
  staticAnonymous : List AnonymousSymbolEntry := []
  internalRelocation : List InternalRelocationEntry := []
  staticRelocation : List RelocationEntry := []
  deriving DecidableEq

/-- The words of a header that the loader reads, without the links and the
numbers. `size` is of the sections that are bytes. -/
structure Header where
  magic : UInt32
  nameOffset : UInt32
  fileSize : UInt32
  bssSize : UInt32
  fixedSize : UInt32
  onUnresolvedSegmentTag : SegmentTag
  offset : Section → UInt32
  size : Section → UInt32

def magicCRO0 : UInt32 := 0x304F5243

def magicFIXD : UInt32 := 0x44584946

def croHeaderSize : UInt32 := 0x138

/-- What the loader reads and writes. -/
structure LoaderState where
  links : Memory
  header : VAddr → Header
  tables : VAddr → Tables
  /-- `is_batch_resolved` of the external relocations. -/
  resolved : VAddr → Nat → Bool
  /-- `is_batch_resolved` of the static relocations. -/
  staticResolved : VAddr → Nat → Bool
  words : Memory

/-- The errors that a call returns. -/
inductive ErrorCode
  | format (description : UInt32)
  | bufferTooSmall
  deriving DecidableEq

/-- The ways in which a call does not return. -/
inductive LoaderFault
  | assertion
  | outsideTable
  | endless
  deriving DecidableEq

abbrev Loading := Exec LoaderFault ErrorCode LoaderState

def croFormatError (description : UInt32) : ErrorCode := .format description

namespace LoaderState

variable (s : LoaderState)

def setTables (self : VAddr) (t : Tables) : LoaderState :=
  { s with tables := Function.update s.tables self t }

def setHeader (self : VAddr) (h : Header) : LoaderState :=
  { s with header := Function.update s.header self h }

def setResolved (self : VAddr) (index : Nat) (b : Bool) : LoaderState :=
  { s with
    resolved := Function.update s.resolved self (Function.update (s.resolved self) index b) }

def setStaticResolved (self : VAddr) (index : Nat) (b : Bool) : LoaderState :=
  { s with
    staticResolved := Function.update s.staticResolved self
      (Function.update (s.staticResolved self) index b) }

def setWord (target : VAddr) (value : UInt32) : LoaderState :=
  { s with words := Function.update s.words target value }

def setLinks (links : Memory) : LoaderState := { s with links := links }

end LoaderState

def Tables.segmentTagToAddress (t : Tables) (tag : SegmentTag) : VAddr :=
  match t.segments[tag.segmentIndex.toNat]? with
  | none => 0
  | some entry =>
      if entry.size ≤ tag.offsetIntoSegment then 0 else entry.offset + tag.offsetIntoSegment

/-- The number word of a section. -/
def numOf (h : Header) (t : Tables) : Section → UInt32
  | .SegmentTable => UInt32.ofNat t.segments.length
  | .ExportNamedSymbolTable => UInt32.ofNat t.exportNamed.length
  | .ExportIndexedSymbolTable => UInt32.ofNat t.exportIndexed.length
  | .ExportTreeTable => UInt32.ofNat t.exportTree.length
  | .ImportModuleTable => UInt32.ofNat t.importModule.length
  | .ExternalRelocationTable => UInt32.ofNat t.externalRelocation.length
  | .ImportNamedSymbolTable => UInt32.ofNat t.importNamed.length
  | .ImportIndexedSymbolTable => UInt32.ofNat t.importIndexed.length
  | .ImportAnonymousSymbolTable => UInt32.ofNat t.importAnonymous.length
  | .StaticAnonymousSymbolTable => UInt32.ofNat t.staticAnonymous.length
  | .InternalRelocationTable => UInt32.ofNat t.internalRelocation.length
  | .StaticRelocationTable => UInt32.ofNat t.staticRelocation.length
  | c => h.size c

/-- The place behind a section. -/
def sectionEnd (h : Header) (t : Tables) (c : Section) : UInt32 :=
  h.offset c + numOf h t c * c.entrySize

/-- The entry of a table that is at an address. -/
def entryIndex (base size addr : UInt32) (length : Nat) : Option Nat :=
  let distance := (addr - base).toNat
  if distance % size.toNat = 0 ∧ distance / size.toNat < length then some (distance / size.toNat)
  else none

/-- The batch of external relocations at an address. -/
def batchAt (h : Header) (t : Tables) (addr : VAddr) : Option Nat :=
  entryIndex (h.offset .ExternalRelocationTable) 12 addr t.externalRelocation.length

/-! ### Relocations -/

/-- What a relocation of a type writes: an error for a number that is no
type, and nothing for the types that are not implemented. -/
def relocatedValue (type : UInt8) (addend symbolAddress targetFutureAddress : UInt32) :
    Except ErrorCode (Option UInt32) :=
  if type = 0 then .ok none
  else if type = 2 ∨ type = 38 then .ok (some (symbolAddress + addend))
  else if type = 3 then .ok (some (symbolAddress + addend - targetFutureAddress))
  else if type = 10 ∨ type = 28 ∨ type = 29 ∨ type = 42 then .ok none
  else .error (croFormatError 0x22)

def applyRelocation (targetAddress : VAddr) (type : UInt8)
    (addend symbolAddress targetFutureAddress : UInt32) : Loading Unit :=
  match relocatedValue type addend symbolAddress targetFutureAddress with
  | .error e => Exec.throw e
  | .ok none => pure ()
  | .ok (some value) => Exec.modify fun s => s.setWord targetAddress value

def clearRelocation (targetAddress : VAddr) (type : UInt8) : Loading Unit :=
  match relocatedValue type 0 0 0 with
  | .error e => Exec.throw e
  | .ok none => pure ()
  | .ok (some _) => Exec.modify fun s => s.setWord targetAddress 0

/-- The loop of `ApplyRelocationBatch` over the entries from the first one on. -/
def relocateEntries (self : VAddr) (symbolAddress : UInt32) : List RelocationEntry → Loading Unit
  | [] => Exec.abort .outsideTable
  | r :: rest => do
      let s ← Exec.get
      let target := (s.tables self).segmentTagToAddress r.targetPosition
      Exec.require (croFormatError 0x12) (target ≠ 0)
      applyRelocation target r.type r.addend symbolAddress target
      if r.isBatchEnd then pure () else relocateEntries self symbolAddress rest

/-- `ApplyRelocationBatch` on the external relocations of a module. -/
def applyRelocationBatch (self : VAddr) (batch : VAddr) (symbolAddress : UInt32) (reset : Bool) :
    Loading Unit := do
  Exec.require (croFormatError 0x10) (symbolAddress ≠ 0 ∨ reset)
  let s ← Exec.get
  let index ← Exec.read .outsideTable fun s => batchAt (s.header self) (s.tables self) batch
  relocateEntries self symbolAddress ((s.tables self).externalRelocation.drop index)
  Exec.modify fun s => s.setResolved self index (!reset)

/-- `ApplyRelocationBatch` of the static module on the static relocations of
another one. -/
def applyStaticBatch (crs self : VAddr) (batch : VAddr) (symbolAddress : UInt32) :
    Loading Unit := do
  Exec.require (croFormatError 0x10) (symbolAddress ≠ 0)
  let s ← Exec.get
  let index ← Exec.read .outsideTable fun s =>
    entryIndex ((s.header self).offset .StaticRelocationTable) 12 batch
      (s.tables self).staticRelocation.length
  relocateEntries crs symbolAddress ((s.tables self).staticRelocation.drop index)
  Exec.modify fun s => s.setStaticResolved self index true

/-! ### Names -/

/-- A name, as the bytes in front of its end. -/
abbrev Name := List UInt8

/-- The strings of memory: what is at an address up to the first zero byte. -/
abbrev Strings := VAddr → Name

def readCString (text : Strings) (vaddr : VAddr) (maxLength : UInt32) : Name :=
  (text vaddr).take maxLength.toNat

def moduleName (text : Strings) (h : Header) : Name :=
  readCString text (h.offset .ModuleName) (h.size .ModuleName)

/-- The child that a tree entry has for a name. -/
def ExportTreeEntry.child (entry : ExportTreeEntry) (name : Name) : UInt16 :=
  let testByte := (entry.testBit >>> 3).toNat
  let testBitInByte := entry.testBit &&& 7
  match name[testByte]? with
  | none => entry.left
  | some byte => if (byte >>> testBitInByte.toUInt8) &&& 1 = 1 then entry.right else entry.left

/-- The loop of `FindExportNamedSymbol` through the tree. -/
def searchTree (tree : List ExportTreeEntry) (name : Name) :
    Nat → UInt16 → Except LoaderFault UInt16
  | 0, _ => .error .endless
  | n + 1, next =>
      match tree[(next &&& 0x7FFF).toNat]? with
      | none => .error .outsideTable
      | some entry =>
          if next >>> 15 = 1 then .ok entry.exportTableIndex
          else searchTree tree name n (entry.child name)

/-- `FindExportNamedSymbol`. A child that comes back keeps coming back. -/
def findExportNamedSymbol (text : Strings) (h : Header) (t : Tables) (name : Name) :
    Except LoaderFault VAddr :=
  match t.exportTree with
  | [] => .ok 0
  | root :: _ => do
      let foundId ← searchTree t.exportTree name 0x10001 root.left
      match t.exportNamed[foundId.toNat]? with
      | none => .ok 0
      | some entry =>
          if readCString text entry.nameOffset (h.size .ExportStrings) ≠ name then .ok 0
          else .ok (t.segmentTagToAddress entry.symbolPosition)

/-! ### The registered modules -/

/-- More rounds than there are addresses. -/
def roundBound : Nat := 0x100000001

def forEachAutoLinkCRO (f : VAddr → Loading Bool) : Nat → VAddr → Loading Unit
  | 0, _ => Exec.abort .endless
  | n + 1, current =>
      if current = 0 then pure ()
      else do
        let next ← f current
        if next then do
          let s ← Exec.get
          forEachAutoLinkCRO f n (CROHelper.nextModule s.links current)
        else pure ()

end Cytrus.Ldr
