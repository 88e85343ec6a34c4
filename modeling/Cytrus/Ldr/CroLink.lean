import Mathlib
import Cytrus.Ldr.CroRebase

/-!
# Linking a module

A module imports from the modules that are registered for it, and then they do so
from it. It is registered when it is linked, so that it never imports from
itself. When it is unloaded, every symbol that it imports or exports goes
back to the address for symbols that are not there.
-/

namespace Cytrus.Ldr

open Support

/-- `is_batch_resolved` at the address of a batch. -/
def LoaderState.isBatchResolved (s : LoaderState) (self batch : VAddr) : Option Bool :=
  (batchAt (s.header self) (s.tables self) batch).map (s.resolved self)

/-! ### Named symbols -/

def applyImportNamedSymbol (text : Strings) (self crs : VAddr) : Loading Unit := do
  let s ← Exec.get
  Exec.forEach (s.tables self).importNamed fun entry => do
    let resolved ← Exec.read .outsideTable fun s =>
      s.isBatchResolved self entry.relocationBatchOffset
    Exec.when (resolved = false)
      (importSymbol text self crs (importName text (s.header self) entry.nameOffset)
        entry.relocationBatchOffset)

/-- The loop over the named imports of a target that a module exports. -/
def forExportedNames (text : Strings) (self target : VAddr) (resolved : Bool)
    (act : VAddr → VAddr → Loading Unit) : Loading Unit := do
  let s ← Exec.get
  Exec.forEach (s.tables target).importNamed fun entry => do
    let isBatchResolved ← Exec.read .outsideTable fun s =>
      s.isBatchResolved target entry.relocationBatchOffset
    Exec.when (isBatchResolved = resolved) do
      let symbolAddress ← Exec.lookup fun s =>
        findExportNamedSymbol text (s.header self) (s.tables self)
          (importName text (s.header target) entry.nameOffset)
      Exec.when (symbolAddress ≠ 0) (act entry.relocationBatchOffset symbolAddress)

def applyExportNamedSymbol (text : Strings) (self target : VAddr) : Loading Unit :=
  forExportedNames text self target false fun batch symbolAddress =>
    applyRelocationBatch target batch symbolAddress false

def resetExportNamedSymbol (text : Strings) (self target : VAddr) : Loading Unit := do
  let s ← Exec.get
  let unresolvedSymbol := s.onUnresolvedAddress target
  forExportedNames text self target true fun batch _ =>
    applyRelocationBatch target batch unresolvedSymbol true

/-! ### The symbols of a module -/

/-- What an entry of an import module table asks its module for. -/
inductive ModuleSymbol
  | indexed (index : UInt32)
  | anonymous (position : SegmentTag)
  deriving DecidableEq

/-- The address that a symbol has in a module. -/
def ModuleSymbol.address (t : Tables) : ModuleSymbol → Option VAddr
  | indexed index => (t.exportIndexed[index.toNat]?).map t.segmentTagToAddress
  | anonymous position => some (t.segmentTagToAddress position)

def ImportModuleEntry.getImportIndexedSymbolEntry (e : ImportModuleEntry) (h : Header)
    (t : Tables) (j : Nat) : Option ImportIndexedSymbolEntry :=
  (entryIndex (h.offset .ImportIndexedSymbolTable) 8
    (e.importIndexedSymbolTableOffset + UInt32.ofNat j * 8) t.importIndexed.length).bind
      fun i => t.importIndexed[i]?

def ImportModuleEntry.getImportAnonymousSymbolEntry (e : ImportModuleEntry) (h : Header)
    (t : Tables) (j : Nat) : Option AnonymousSymbolEntry :=
  (entryIndex (h.offset .ImportAnonymousSymbolTable) 8
    (e.importAnonymousSymbolTableOffset + UInt32.ofNat j * 8) t.importAnonymous.length).bind
      fun i => t.importAnonymous[i]?

/-- The symbols of an entry with their batches, in the order of the two loops over
them. -/
def ImportModuleEntry.symbols (e : ImportModuleEntry) (h : Header) (t : Tables) :
    List (Option (ModuleSymbol × VAddr)) :=
  (List.range e.importIndexedSymbolNum.toNat).map (fun j =>
    (e.getImportIndexedSymbolEntry h t j).map fun im =>
      (.indexed im.index, im.relocationBatchOffset)) ++
  (List.range e.importAnonymousSymbolNum.toNat).map fun j =>
    (e.getImportAnonymousSymbolEntry h t j).map fun im =>
      (.anonymous im.symbolPosition, im.relocationBatchOffset)

/-- The two loops over the symbols of an entry. -/
def forModuleSymbols (target : VAddr) (entry : ImportModuleEntry)
    (act : ModuleSymbol × VAddr → Loading Unit) : Loading Unit := do
  let s ← Exec.get
  Exec.forEach (entry.symbols (s.header target) (s.tables target)) fun found => do
    let im ← Exec.read .outsideTable fun _ => found
    act im

/-- A target gets the symbols of an entry from a source. -/
def applyModuleSymbols (source target : VAddr) (entry : ImportModuleEntry) : Loading Unit :=
  forModuleSymbols target entry fun im => do
    let symbolAddress ← Exec.read .outsideTable fun s => im.1.address (s.tables source)
    applyRelocationBatch target im.2 symbolAddress false

def applyModuleImport (text : Strings) (self crs : VAddr) : Loading Unit := do
  let s ← Exec.get
  Exec.forEach (s.tables self).importModule fun entry =>
    forEachAutoLinkCRO (fun source => do
      let u ← Exec.get
      if importName text (s.header self) entry.nameOffset = moduleName text (u.header source)
      then do
        applyModuleSymbols source self entry
        pure false
      else pure true) roundBound crs

/-- The loop over the entries of a target that import from a module. -/
def forModuleImports (text : Strings) (self target : VAddr)
    (act : ImportModuleEntry → Loading Unit) : Loading Unit := do
  let s ← Exec.get
  Exec.forEach (s.tables target).importModule fun entry =>
    Exec.when (importName text (s.header target) entry.nameOffset =
      moduleName text (s.header self)) (act entry)

def applyModuleExport (text : Strings) (self target : VAddr) : Loading Unit :=
  forModuleImports text self target (applyModuleSymbols self target)

def resetModuleExport (text : Strings) (self target : VAddr) : Loading Unit := do
  let s ← Exec.get
  let unresolvedSymbol := s.onUnresolvedAddress target
  forModuleImports text self target fun entry =>
    forModuleSymbols target entry fun im =>
      applyRelocationBatch target im.2 unresolvedSymbol true

/-! ### Linking -/

/-- Where the data of a module is, according to its table. The loader assumes that
the index of a segment is its type. -/
def LoaderState.setDataSegment (s : LoaderState) (self offset : VAddr) : LoaderState :=
  s.setTables self { s.tables self with
    segments := (s.tables self).segments.modify 2 fun g => { g with offset := offset } }

/-- `SCOPE_EXIT`: what happens behind a call that returns, also with an error. -/
def scopeExit (exit : LoaderState → LoaderState) (x : Loading Unit) : Loading Unit := fun s =>
  match x s with
  | .value a t => .value a (exit t)
  | .error e t => .error e (exit t)
  | .fault f => .fault f

/-- The imports of `Link`. With the bug fix, the data is where it is in the file
as long as they are done. -/
def applyImports (text : Strings) (self crs : VAddr) (linkOnLoadBugFix : Bool) :
    Loading Unit := do
  let imports : Loading Unit := do
    applyImportNamedSymbol text self crs
    applyModuleImport text self crs
  let s ← Exec.get
  if linkOnLoadBugFix ∧ 2 ≤ (s.tables self).segments.length then do
    let entry ← Exec.read .outsideTable fun s => (s.tables self).segments[2]?
    Exec.assert .assertion (entry.type = .Data)
    Exec.modify fun s => s.setDataSegment self ((s.header self).offset .Data)
    scopeExit (fun s => s.setDataSegment self entry.offset) imports
  else imports

def link (text : Strings) (self crs : VAddr) (linkOnLoadBugFix : Bool) : Loading Unit := do
  applyImports text self crs linkOnLoadBugFix
  forEachAutoLinkCRO (fun target => do
    applyExportNamedSymbol text self target
    applyModuleExport text self target
    pure true) roundBound crs

/-- The loops that take the imports of a table back. -/
def resetImports (self : VAddr) (batches : Tables → List VAddr) : Loading Unit := do
  let s ← Exec.get
  let unresolvedSymbol := s.onUnresolvedAddress self
  Exec.forEach (batches (s.tables self)) fun batch =>
    applyRelocationBatch self batch unresolvedSymbol true

def resetImportNamedSymbol (self : VAddr) : Loading Unit :=
  resetImports self fun t => t.importNamed.map ImportNamedSymbolEntry.relocationBatchOffset

def resetImportIndexedSymbol (self : VAddr) : Loading Unit :=
  resetImports self fun t => t.importIndexed.map ImportIndexedSymbolEntry.relocationBatchOffset

def resetImportAnonymousSymbol (self : VAddr) : Loading Unit :=
  resetImports self fun t => t.importAnonymous.map AnonymousSymbolEntry.relocationBatchOffset

def unlink (text : Strings) (self crs : VAddr) : Loading Unit := do
  resetImportNamedSymbol self
  resetImportIndexedSymbol self
  resetImportAnonymousSymbol self
  forEachAutoLinkCRO (fun target => do
    resetExportNamedSymbol text self target
    resetModuleExport text self target
    pure true) roundBound crs

def clearRelocations (self : VAddr) : Loading Unit := do
  clearExternalRelocations self
  clearInternalRelocations self

/-! ### The calls of the service -/

def register (self crs : VAddr) (autoLink : Bool) : Loading Unit := do
  let links ← Exec.read .assertion fun s => CROHelper.register s.links self crs autoLink
  Exec.modify fun s => s.setLinks links

def unregister (self crs : VAddr) : Loading Unit := do
  let links ← Exec.read .assertion fun s => CROHelper.unregister s.links self crs
  Exec.modify fun s => s.setLinks links

/-- What `LoadCRO` does to a module up to its registration. -/
def insertModule (text : Strings) (self : VAddr) (p : LoadParams)
    (linkOnLoadBugFix autoLink : Bool) : Loading Unit := do
  rebase text self p
  link text self p.crs linkOnLoadBugFix
  register self p.crs autoLink

/-- What `LoadCRO` does to a module at fix level 0. -/
def loadCRO (text : Strings) (self : VAddr) (p : LoadParams)
    (linkOnLoadBugFix autoLink : Bool) : Loading UInt32 := do
  insertModule text self p linkOnLoadBugFix autoLink
  fix self

/-- What `UnloadCRO` does to a module. -/
def unloadCRO (text : Strings) (self crs : VAddr) : Loading Unit := do
  unregister self crs
  unlink text self crs
  let s ← Exec.get
  Exec.when ((s.header self).magic ≠ magicFIXD) (clearRelocations self)
  unrebase self false

end Cytrus.Ldr
