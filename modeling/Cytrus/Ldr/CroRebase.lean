import Mathlib
import Cytrus.Ldr.CroTables

/-!
# Rebasing a module

The offsets of a file become addresses when its module is loaded, and offsets
again when it is unloaded. An offset of zero says that there is nothing, in the
file as well as in memory. The segments for data and for zeros are not in the
file, and are where the caller wants them.
-/

namespace Cytrus.Ldr

open Support

/-- What `Rebase` is called with. -/
structure LoadParams where
  crs : VAddr
  croSize : UInt32
  dataSegmentAddress : VAddr
  dataSegmentSize : UInt32
  bssSegmentAddress : VAddr
  bssSegmentSize : UInt32
  isCrs : Bool

/-- An offset where zero is no offset. -/
def rebased (self : VAddr) (offset : UInt32) : UInt32 :=
  if offset = 0 then 0 else offset + self

def unrebased (self : VAddr) (offset : UInt32) : UInt32 :=
  if offset = 0 then 0 else offset - self

/-- The checks of the tables let an address be in a part of the file, with its
end or without. -/
def rebasedInto (self : VAddr) (error : ErrorCode) (lo hi : VAddr) (withEnd : Bool)
    (offset : UInt32) : Except ErrorCode UInt32 :=
  if offset = 0 then .ok 0
  else if offset + self < lo ∨ hi < offset + self ∨ (!withEnd ∧ hi = offset + self) then .error error
  else .ok (offset + self)

/-- A loop that writes every entry of a table back, up to the first one with an
error. -/
def rewriteList {α : Type} (f : α → Except ErrorCode α) : List α → List α × Option ErrorCode
  | [] => ([], none)
  | a :: l =>
      match f a with
      | .error e => (a :: l, some e)
      | .ok b => (b :: (rewriteList f l).1, (rewriteList f l).2)

/-- The loop over one of the tables. -/
def rewriteTable {α : Type} (self : VAddr) (look : Tables → List α)
    (put : Tables → List α → Tables) (f : α → Except ErrorCode α) : Loading Unit := do
  let s ← Exec.get
  let r := rewriteList f (look (s.tables self))
  Exec.modify fun s => s.setTables self (put (s.tables self) r.1)
  match r.2 with
  | none => pure ()
  | some e => Exec.throw e

/-! ### The header -/

/-- No offset is in front of the one before it, and none behind the file. -/
def Header.ordered (h : Header) : Bool :=
  let offsets := Section.offsetOrder.map h.offset ++ [h.fileSize]
  (offsets.zip offsets.tail).all fun p => p.1 ≤ p.2

def rebasedHeader (self : VAddr) (h : Header) : Header :=
  { h with nameOffset := rebased self h.nameOffset, offset := fun c => rebased self (h.offset c) }

def rebaseHeader (self : VAddr) (croSize : UInt32) : Loading Unit := do
  let s ← Exec.get
  let h := s.header self
  let error := croFormatError 0x11
  Exec.require error (h.magic = magicCRO0)
  Exec.require error (CROHelper.nextModule s.links self = 0 ∧
    CROHelper.previousModule s.links self = 0)
  Exec.require error (h.fileSize ≤ 0x10000000 ∧ h.bssSize ≤ 0x10000000)
  Exec.require error (h.fixedSize = 0)
  Exec.require error (croHeaderSize ≤ h.offset .Code)
  Exec.require error h.ordered
  Exec.modify fun s => s.setHeader self (rebasedHeader self h)
  Exec.require error (∀ c ∈ Section.all,
    sectionEnd (rebasedHeader self h) (s.tables self) c ≤ self + croSize)

def verifyStringTableLength (text : Strings) (self : VAddr) (c : Section) : Loading Unit := do
  let s ← Exec.get
  let h := s.header self
  Exec.require (croFormatError 0x0B) (h.size c ≠ 0 → text (h.offset c + h.size c - 1) = [])

/-! ### The tables -/

/-- An entry of `RebaseSegmentTable`. -/
def rebaseSegment (self : VAddr) (p : LoadParams) (g : SegmentEntry) :
    Except ErrorCode SegmentEntry :=
  match g.type with
  | .Data =>
      if g.size = 0 then .ok g
      else if p.dataSegmentSize < g.size then .error .bufferTooSmall
      else .ok { g with offset := p.dataSegmentAddress }
  | .BSS =>
      if g.size = 0 then .ok g
      else if p.bssSegmentSize < g.size then .error .bufferTooSmall
      else .ok { g with offset := p.bssSegmentAddress }
  | _ =>
      if g.offset = 0 then .ok g
      else if self + p.croSize < g.offset + self then .error (croFormatError 0x19)
      else .ok { g with offset := g.offset + self }

/-- The offset of the data in the file. -/
def previousDataSegment (l : List SegmentEntry) : UInt32 :=
  (((l.filter fun g => g.type = .Data ∧ g.size ≠ 0).getLast?).map SegmentEntry.offset).getD 0

def rebaseSegmentTable (self : VAddr) (p : LoadParams) : Loading UInt32 := do
  let s ← Exec.get
  rewriteTable self Tables.segments (fun t l => { t with segments := l }) (rebaseSegment self p)
  pure (previousDataSegment (s.tables self).segments + self)

/-- An entry of `RebaseExportNamedSymbolTable`. -/
def rebaseExportNamed (self : VAddr) (h : Header) (t : Tables) (e : ExportNamedSymbolEntry) :
    Except ErrorCode ExportNamedSymbolEntry := do
  let nameOffset ← rebasedInto self (croFormatError 0x11) (h.offset .ExportStrings)
    (sectionEnd h t .ExportStrings) false e.nameOffset
  return { e with nameOffset := nameOffset }

def rebaseExportNamedSymbolTable (self : VAddr) : Loading Unit := do
  let s ← Exec.get
  rewriteTable self Tables.exportNamed (fun t l => { t with exportNamed := l })
    (rebaseExportNamed self (s.header self) (s.tables self))

def verifyExportTreeTable (self : VAddr) : Loading Unit := do
  let s ← Exec.get
  let tree := (s.tables self).exportTree
  Exec.require (croFormatError 0x11) (∀ entry ∈ tree,
    (entry.left &&& 0x7FFF).toNat < tree.length ∧ (entry.right &&& 0x7FFF).toNat < tree.length)

/-- An entry of `RebaseImportModuleTable`. -/
def rebaseImportModule (self : VAddr) (h : Header) (t : Tables) (e : ImportModuleEntry) :
    Except ErrorCode ImportModuleEntry := do
  let error := croFormatError 0x18
  let nameOffset ← rebasedInto self error (h.offset .ImportStrings)
    (sectionEnd h t .ImportStrings) false e.nameOffset
  let indexed ← rebasedInto self error (h.offset .ImportIndexedSymbolTable)
    (sectionEnd h t .ImportIndexedSymbolTable) true e.importIndexedSymbolTableOffset
  let anonymous ← rebasedInto self error (h.offset .ImportAnonymousSymbolTable)
    (sectionEnd h t .ImportAnonymousSymbolTable) true e.importAnonymousSymbolTableOffset
  return { e with
    nameOffset := nameOffset
    importIndexedSymbolTableOffset := indexed
    importAnonymousSymbolTableOffset := anonymous }

def rebaseImportModuleTable (self : VAddr) : Loading Unit := do
  let s ← Exec.get
  rewriteTable self Tables.importModule (fun t l => { t with importModule := l })
    (rebaseImportModule self (s.header self) (s.tables self))

/-- The batch offset of an import. -/
def rebaseBatchOffset (self : VAddr) (error : ErrorCode) (h : Header) (t : Tables)
    (offset : UInt32) : Except ErrorCode UInt32 :=
  rebasedInto self error (h.offset .ExternalRelocationTable)
    (sectionEnd h t .ExternalRelocationTable) true offset

/-- An entry of `RebaseImportNamedSymbolTable`. -/
def rebaseImportNamed (self : VAddr) (h : Header) (t : Tables) (e : ImportNamedSymbolEntry) :
    Except ErrorCode ImportNamedSymbolEntry := do
  let error := croFormatError 0x1B
  let nameOffset ← rebasedInto self error (h.offset .ImportStrings)
    (sectionEnd h t .ImportStrings) false e.nameOffset
  let batch ← rebaseBatchOffset self error h t e.relocationBatchOffset
  return { nameOffset := nameOffset, relocationBatchOffset := batch }

def rebaseImportNamedSymbolTable (self : VAddr) : Loading Unit := do
  let s ← Exec.get
  rewriteTable self Tables.importNamed (fun t l => { t with importNamed := l })
    (rebaseImportNamed self (s.header self) (s.tables self))

/-- An entry of `RebaseImportIndexedSymbolTable`. -/
def rebaseImportIndexed (self : VAddr) (h : Header) (t : Tables) (e : ImportIndexedSymbolEntry) :
    Except ErrorCode ImportIndexedSymbolEntry := do
  let batch ← rebaseBatchOffset self (croFormatError 0x14) h t e.relocationBatchOffset
  return { e with relocationBatchOffset := batch }

def rebaseImportIndexedSymbolTable (self : VAddr) : Loading Unit := do
  let s ← Exec.get
  rewriteTable self Tables.importIndexed (fun t l => { t with importIndexed := l })
    (rebaseImportIndexed self (s.header self) (s.tables self))

/-- An entry of `RebaseImportAnonymousSymbolTable`. -/
def rebaseImportAnonymous (self : VAddr) (h : Header) (t : Tables) (e : AnonymousSymbolEntry) :
    Except ErrorCode AnonymousSymbolEntry := do
  let batch ← rebaseBatchOffset self (croFormatError 0x17) h t e.relocationBatchOffset
  return { e with relocationBatchOffset := batch }

def rebaseImportAnonymousSymbolTable (self : VAddr) : Loading Unit := do
  let s ← Exec.get
  rewriteTable self Tables.importAnonymous (fun t l => { t with importAnonymous := l })
    (rebaseImportAnonymous self (s.header self) (s.tables self))

/-! ### Relocations of the module itself -/

/-- `GetOnUnresolvedAddress`. -/
def LoaderState.onUnresolvedAddress (s : LoaderState) (self : VAddr) : VAddr :=
  (s.tables self).segmentTagToAddress (s.header self).onUnresolvedSegmentTag

/-- The loops over all external relocations. They take back that the first entry
of a batch is resolved. -/
def forExternalRelocations (self : VAddr) (act : VAddr → RelocationEntry → Loading Unit) :
    Bool → Nat → List RelocationEntry → Loading Unit
  | _, _, [] => pure ()
  | batchBegin, i, r :: rest => do
      let s ← Exec.get
      let target := (s.tables self).segmentTagToAddress r.targetPosition
      Exec.require (croFormatError 0x12) (target ≠ 0)
      act target r
      Exec.when (batchBegin = true) (Exec.modify fun s => s.setResolved self i false)
      forExternalRelocations self act r.isBatchEnd (i + 1) rest

def resetExternalRelocations (self : VAddr) : Loading Unit := do
  let s ← Exec.get
  let unresolvedSymbol := s.onUnresolvedAddress self
  let last ← Exec.read .outsideTable fun s => (s.tables self).externalRelocation.getLast?
  Exec.require (croFormatError 0x12) last.isBatchEnd
  forExternalRelocations self
    (fun target r => applyRelocation target r.type r.addend unresolvedSymbol target)
    true 0 (s.tables self).externalRelocation

def clearExternalRelocations (self : VAddr) : Loading Unit := do
  let s ← Exec.get
  forExternalRelocations self (fun target r => clearRelocation target r.type) true 0
    (s.tables self).externalRelocation

def applyStaticAnonymousSymbolToCRS (self crs : VAddr) : Loading Unit := do
  let s ← Exec.get
  let h := s.header self
  let t := s.tables self
  Exec.forEach t.staticAnonymous fun entry => do
    let batchAddress := entry.relocationBatchOffset + self
    Exec.require (croFormatError 0x16) (h.offset .StaticRelocationTable ≤ batchAddress ∧
      batchAddress ≤ sectionEnd h t .StaticRelocationTable)
    let s ← Exec.get
    applyStaticBatch crs self batchAddress
      ((s.tables self).segmentTagToAddress entry.symbolPosition)

/-- An entry of `ApplyInternalRelocations`. A relocation in the data is done in
the file, which is copied from there later. -/
def applyInternalRelocation (self : VAddr) (oldDataSegmentAddress : UInt32)
    (r : InternalRelocationEntry) : Loading Unit := do
  let s ← Exec.get
  let t := s.tables self
  let targetAddressB := t.segmentTagToAddress r.targetPosition
  Exec.require (croFormatError 0x15) (targetAddressB ≠ 0)
  let targetSegment ← Exec.read .outsideTable fun _ =>
    t.segments[r.targetPosition.segmentIndex.toNat]?
  let targetAddress :=
    if targetSegment.type = .Data then oldDataSegmentAddress + r.targetPosition.offsetIntoSegment
    else targetAddressB
  match t.segments[r.symbolSegment.toNat]? with
  | none => Exec.throw (croFormatError 0x15)
  | some symbolSegment =>
      applyRelocation targetAddress r.type r.addend symbolSegment.offset targetAddressB

def applyInternalRelocations (self : VAddr) (oldDataSegmentAddress : UInt32) : Loading Unit := do
  let s ← Exec.get
  Exec.forEach (s.tables self).internalRelocation
    (applyInternalRelocation self oldDataSegmentAddress)

def clearInternalRelocations (self : VAddr) : Loading Unit := do
  let s ← Exec.get
  Exec.forEach (s.tables self).internalRelocation fun r => do
    let s ← Exec.get
    let targetAddress := (s.tables self).segmentTagToAddress r.targetPosition
    Exec.require (croFormatError 0x15) (targetAddress ≠ 0)
    clearRelocation targetAddress r.type

/-- The bytes of a name in the source. -/
def nameOf (s : String) : Name := s.toList.map fun c => UInt8.ofNat c.toNat

/-- A symbol of the first module that exports the name goes to a batch. -/
def importSymbol (text : Strings) (self crs : VAddr) (name : Name) (batch : VAddr) :
    Loading Unit :=
  forEachAutoLinkCRO (fun source => do
    let symbolAddress ← Exec.lookup fun s =>
      findExportNamedSymbol text (s.header source) (s.tables source) name
    if symbolAddress ≠ 0 then do
      applyRelocationBatch self batch symbolAddress false
      pure false
    else pure true) roundBound crs

/-- The name that an entry of the import table has. -/
def importName (text : Strings) (h : Header) (nameOffset : UInt32) : Name :=
  readCString text nameOffset (h.size .ImportStrings)

def applyExitRelocations (text : Strings) (self crs : VAddr) : Loading Unit := do
  let s ← Exec.get
  Exec.forEach (s.tables self).importNamed fun entry =>
    Exec.when (importName text (s.header self) entry.nameOffset = nameOf "__aeabi_atexit")
      (importSymbol text self crs (nameOf "nnroAeabiAtexit_") entry.relocationBatchOffset)

/-- The segments of the static module are where they are in its file. -/
def rebaseSegments (self : VAddr) (p : LoadParams) : Loading UInt32 :=
  if p.isCrs then pure 0 else rebaseSegmentTable self p

def rebase (text : Strings) (self : VAddr) (p : LoadParams) : Loading Unit := do
  rebaseHeader self p.croSize
  verifyStringTableLength text self .ModuleName
  let prevDataSegmentAddress ← rebaseSegments self p
  rebaseExportNamedSymbolTable self
  verifyExportTreeTable self
  verifyStringTableLength text self .ExportStrings
  rebaseImportModuleTable self
  resetExternalRelocations self
  rebaseImportNamedSymbolTable self
  rebaseImportIndexedSymbolTable self
  rebaseImportAnonymousSymbolTable self
  verifyStringTableLength text self .ImportStrings
  Exec.when (¬ p.isCrs) (applyStaticAnonymousSymbolToCRS self p.crs)
  applyInternalRelocations self prevDataSegmentAddress
  Exec.when (¬ p.isCrs) (applyExitRelocations text self p.crs)

/-! ### Unrebasing -/

/-- A loop that cannot fail. -/
def modifyTables (self : VAddr) (f : Tables → Tables) : Loading Unit :=
  Exec.modify fun s => s.setTables self (f (s.tables self))

def unrebaseImportAnonymousSymbolTable (self : VAddr) : Loading Unit :=
  modifyTables self fun t => { t with
    importAnonymous := t.importAnonymous.map fun e =>
      { e with relocationBatchOffset := unrebased self e.relocationBatchOffset } }

def unrebaseImportIndexedSymbolTable (self : VAddr) : Loading Unit :=
  modifyTables self fun t => { t with
    importIndexed := t.importIndexed.map fun e =>
      { e with relocationBatchOffset := unrebased self e.relocationBatchOffset } }

def unrebaseImportNamedSymbolTable (self : VAddr) : Loading Unit :=
  modifyTables self fun t => { t with
    importNamed := t.importNamed.map fun e =>
      { nameOffset := unrebased self e.nameOffset
        relocationBatchOffset := unrebased self e.relocationBatchOffset } }

def unrebaseImportModuleTable (self : VAddr) : Loading Unit :=
  modifyTables self fun t => { t with
    importModule := t.importModule.map fun e => { e with
      nameOffset := unrebased self e.nameOffset
      importIndexedSymbolTableOffset := unrebased self e.importIndexedSymbolTableOffset
      importAnonymousSymbolTableOffset := unrebased self e.importAnonymousSymbolTableOffset } }

def unrebaseExportNamedSymbolTable (self : VAddr) : Loading Unit :=
  modifyTables self fun t => { t with
    exportNamed := t.exportNamed.map fun e => { e with nameOffset := unrebased self e.nameOffset } }

/-- An entry of `UnrebaseSegmentTable`. -/
def unrebaseSegment (self : VAddr) (g : SegmentEntry) : SegmentEntry :=
  if g.type = .BSS then { g with offset := 0 } else { g with offset := unrebased self g.offset }

def unrebaseSegmentTable (self : VAddr) : Loading Unit :=
  modifyTables self fun t => { t with segments := t.segments.map (unrebaseSegment self) }

def unrebaseHeader (self : VAddr) : Loading Unit :=
  Exec.modify fun s => s.setHeader self { s.header self with
    nameOffset := unrebased self (s.header self).nameOffset
    offset := fun c => unrebased self ((s.header self).offset c) }

def unrebase (self : VAddr) (isCrs : Bool) : Loading Unit := do
  unrebaseImportAnonymousSymbolTable self
  unrebaseImportIndexedSymbolTable self
  unrebaseImportNamedSymbolTable self
  unrebaseImportModuleTable self
  unrebaseExportNamedSymbolTable self
  Exec.when (¬ isCrs) (unrebaseSegmentTable self)
  Exec.modify fun s => s.setLinks (CROHelper.unlinkSelf s.links self)
  Exec.modify fun s => s.setHeader self { s.header self with fixedSize := 0 }
  unrebaseHeader self

/-! ### Fixing -/

/-- `Common::AlignUp` to pages. -/
def alignUpToPage (a : UInt32) : UInt32 :=
  let remainder := a % 0x1000
  if remainder = 0 then a else a - remainder + 0x1000

/-- `GetFixEnd` at level 0: every section but the data is in front of it. -/
def fixEnd (h : Header) (t : Tables) : UInt32 :=
  (Section.all.filter fun c => c ≠ .Code ∧ c ≠ .Data).foldl (fun a c => max a (sectionEnd h t c))
    (max croHeaderSize (sectionEnd h t .Code))

/-- `Fix` at level 0, where no section is cropped. -/
def fix (self : VAddr) : Loading UInt32 := do
  let s ← Exec.get
  let fixedSize := alignUpToPage (fixEnd (s.header self) (s.tables self)) - self
  Exec.modify fun s => s.setHeader self { s.header self with fixedSize := fixedSize }
  pure fixedSize

end Cytrus.Ldr
