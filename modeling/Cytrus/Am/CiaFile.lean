import Cytrus.Am.TitleFolder
import Cytrus.Support.Exec

/-!
# Installing a CIA file

A CIA file is written to in chunks. What comes before the contents is buffered
until the title metadata is there; the rest goes to the content files at once. A
title that is imported from the CDN gets its ticket, its title metadata and its
contents by calls of their own.

## Implementation notes

A file system call succeeds. A content file is what was handed to it since it was
opened. The decryption of contents is a parameter, and so is which encrypted NCCH
headers it fails for. Copying from or to where there is no buffer is a fault; a
difference of sizes that wraps around asks for such a copy. There are fewer than
`2 ^ 16` contents.
-/

namespace Cytrus.Am

open Support FileSys

inductive CIAInstallState where
  | installStarted
  | headerLoaded
  | certLoaded
  | ticketLoaded
  | tmdLoaded
  | contentWritten
  deriving DecidableEq, Repr

def CIAInstallState.number : CIAInstallState → Nat
  | installStarted => 0
  | headerLoaded => 1
  | certLoaded => 2
  | ticketLoaded => 3
  | tmdLoaded => 4
  | contentWritten => 5

/-- The error codes of an installation. -/
inductive InstallError where
  | invalidCIAHeader
  | notAuthorized
  | fileNotFound
  | invalidImportState
  deriving DecidableEq, Repr

inductive InstallResult where
  | tik (code : Option InstallError)
  | tmd (installFullPath : Option ContentPath) (code : Option InstallError)
  | app (index : Nat) (code : Option InstallError)
  deriving DecidableEq, Repr

/-- What an installation depends on. -/
structure CIAHost where
  decryptionAuthorized : Bool
  hasTitleKey : Bool
  /-- The data of a content behind some that was decrypted before. -/
  processData : Nat → List UInt8 → List UInt8 → List UInt8
  /-- The keys for an encrypted header are missing, or its version is unknown. -/
  cannotDecrypt : List UInt8 → Bool

structure CIAFile where
  fromCdn : Bool := false
  isDone : Bool := false
  isClosed : Bool := false
  isCancel : Bool := false
  isAdditionalContent : Bool := false
  isUpdate : Bool := false
  installState : CIAInstallState := .installStarted
  written : Nat := 0
  container : CIAContainer := {}
  data : List UInt8 := []
  contentWritten : List Nat := []
  currentContentIndex : Option Nat := none
  currentContentInstallResult : Option InstallResult := none
  installResults : List InstallResult := []
  /-- No path is an empty one. -/
  contentFilePaths : List (Option ContentPath) := []
  contentFiles : Nat → List UInt8 := fun _ => []
  titles : Titles := fun _ => []

namespace CIAFile

/-- The content file of the index holds the bytes. If it was deleted since it was opened, no path
leads to it any more. -/
def storeContent (f : CIAFile) (opens : Bool) (index : Nat) (bytes : List UInt8) : CIAFile :=
  { f with
    contentFiles := Function.update f.contentFiles index bytes
    titles :=
      match f.contentFilePaths.getD index none with
      | some path =>
          if opens || (f.titles.find path).isSome then f.titles.write path (.app bytes)
          else f.titles
      | none => f.titles }

section StoreContent

variable (f : CIAFile) (opens : Bool) (index : Nat) (bytes : List UInt8)

@[simp] theorem container_storeContent :
    (f.storeContent opens index bytes).container = f.container :=
  rfl

@[simp] theorem contentFiles_storeContent :
    (f.storeContent opens index bytes).contentFiles index = bytes :=
  Function.update_self ..

end StoreContent

end CIAFile

/-- A call on a CIA file. -/
abbrev CIACall (α : Type) := Exec ContainerFault InstallError CIAFile α

/-- An assignment to members of the file. -/
def assignFile (f : CIAFile → CIAFile) : CIACall PUnit := Exec.modify f

@[simp] theorem post_assignFile {f : CIAFile} {g : CIAFile → CIAFile}
    {Q : PUnit → CIAFile → Prop} {E : InstallError → CIAFile → Prop}
    {F : ContainerFault → Prop} :
    (assignFile g).Post f Q E F ↔ Q ⟨⟩ (g f) := Iff.rfl

/-- `memcpy` of `size` bytes from `source` of the caller's buffer to `dest` of `data`. -/
def copyToData (dest : Nat) (buffer : List UInt8) (source size : Nat) : CIACall PUnit := do
  let f ← Exec.get
  Exec.assert .outOfBounds (dest + size ≤ f.data.length ∧ source + size ≤ buffer.length)
  assignFile fun f => { f with data := overwrite f.data dest ((buffer.drop source).take size) }

/-- The difference of two sizes. -/
def distance (a b : Nat) : CIACall Nat := do
  Exec.assert .outOfBounds (b ≤ a)
  pure (a - b)

/-- `NCCHCryptoFile::IsError` after it was handed some bytes. -/
def ncchIsError (host : CIAHost) (bytes : List UInt8) : Bool :=
  decide (0x200 ≤ bytes.length) && decide ((bytes.drop 0x100).take 4 = [78, 67, 67, 72]) &&
    !(bytes.getD 0x18F 0).toNat.testBit 2 &&
    (!host.decryptionAuthorized || host.cannotDecrypt (bytes.take 0x200))

section Calls

variable (host : CIAHost)

def writeTicket : CIACall PUnit := do
  let status ← Exec.lookup fun f => Ticket.load f.data f.container.getTicketOffset
  if status = .success then do
    assignFile fun f => { f with
      installState := .ticketLoaded
      installResults := f.installResults ++ [.tik none] }
  else do
    assignFile fun f => { f with
      installResults := f.installResults ++ [.tik (some .invalidCIAHeader)] }
    Exec.throw .invalidCIAHeader

/-- The content files of the metadata. -/
def CIAFile.contentPaths (f : CIAFile) : List (Option ContentPath) :=
  (List.range f.container.ciaTmd.getContentCount).map fun i =>
    f.titles.getTitleContentPath f.container.ciaTmd.titleId i f.isUpdate

/-- `PrepareToImportContent`, as its result. -/
def prepareToImportContent : CIACall (Option InstallError) := do
  assignFile fun f =>
    let count := f.container.ciaTmd.getContentCount
    { f with
      contentWritten := f.contentWritten.take count ++
        List.replicate (count - f.contentWritten.length) 0
      currentContentIndex := none
      contentFilePaths := f.contentPaths }
  let f ← Exec.get
  let encrypted := f.container.ciaTmd.hasEncryptedContent
    (if f.fromCdn then none else f.container.getHeader)
  if encrypted ∧ host.decryptionAuthorized = false then pure (some .notAuthorized)
  else if encrypted ∧ host.hasTitleKey = false then pure (some .fileNotFound)
  else do
    assignFile fun f => { f with installState := .tmdLoaded }
    pure none

/-- There is metadata of the title, which the new one does not replace yet. -/
def CIAFile.hasTitle (f : CIAFile) : Bool :=
  (f.titles.find (f.titles.getTitleMetadataPath f.container.ciaTmd.titleId false)).isSome

/-- Where the metadata of the import is saved. -/
def CIAFile.tmdPath (f : CIAFile) : ContentPath :=
  f.titles.getTitleMetadataPath f.container.ciaTmd.titleId f.isUpdate

/-- `WriteTitleMetadata`, as the path and the code of its result. -/
def importTitleMetadata (tmdData : List UInt8) (offset : Nat) :
    CIACall (Option ContentPath × Option InstallError) := do
  let loaded ← Exec.lookup fun f => f.container.ciaTmd.load tmdData offset
  assignFile fun f => { f with container := { f.container with ciaTmd := loaded.2 } }
  if loaded.1 = .success then do
    assignFile fun f => { f with isUpdate := f.isUpdate || f.hasTitle }
    let f ← Exec.get
    assignFile fun f => { f with titles := f.titles.write f.tmdPath (.tmd f.container.ciaTmd) }
    let code ← prepareToImportContent host
    pure (some f.tmdPath, code)
  else pure (none, some .invalidCIAHeader)

/-- `WriteTitleMetadata` with its result kept, and returned if it is an error. -/
def writeTitleMetadata : CIACall PUnit := do
  let f ← Exec.get
  let result ← importTitleMetadata host f.data f.container.getTitleMetadataOffset
  assignFile fun f => { f with installResults := f.installResults ++ [.tmd result.1 result.2] }
  match result.2 with
  | none => pure ⟨⟩
  | some e => Exec.throw e

/-- The error of a content is kept and returned, and `Write` drops the current result. -/
def failContent (index : Nat) (e : InstallError) : CIACall PUnit := do
  assignFile fun f => { f with
    currentContentInstallResult := if f.fromCdn then some (.app index (some e)) else none
    installResults := f.installResults ++ [.app index (some e)] }
  Exec.throw e

/-- Open the file of a content, if it is another one. -/
def openContent (index : Nat) : CIACall PUnit :=
  assignFile fun f =>
    if f.currentContentIndex = some index then f
    else
      { f with
        installResults := f.installResults ++ f.currentContentInstallResult.toList
        currentContentIndex := some index
        currentContentInstallResult := some (.app index none) }.storeContent true index []

/-- Hand some bytes to the current content. -/
def writeContent (index : Nat) (bytes : List UInt8) : CIACall PUnit := do
  assignFile fun f => f.storeContent false index (f.contentFiles index ++ bytes)
  let f ← Exec.get
  if ncchIsError host (f.contentFiles index) then failContent index .invalidImportState
  else assignFile fun f => { f with
    contentWritten := f.contentWritten.modify index (· + bytes.length) }

/-- Hand some bytes of the caller to the current content, decrypted if they have to be. -/
def receiveContent (index : Nat) (before bytes : List UInt8) : CIACall PUnit := do
  let f ← Exec.get
  if f.container.ciaTmd.encryptedByIndex index then
    if host.decryptionAuthorized then
      writeContent host index (host.processData index before bytes)
    else failContent index .notAuthorized
  else writeContent host index bytes

/-- `WriteContentData` for one content. -/
def writeContentAt (offset : Nat) (buffer : List UInt8) (i : Nat) : CIACall PUnit := do
  let f ← Exec.get
  let done := f.contentWritten.getD i 0
  let size := f.container.getContentSize i
  let rangeMin := f.container.getContentOffset i + done
  let rangeMax := f.container.getContentOffset i + size
  Exec.when (done < size ∧ rangeMin ≤ offset + buffer.length ∧ offset ≤ rangeMax) do
    let available := min (offset + buffer.length) rangeMax - rangeMin
    openContent i
    let start ← distance rangeMin offset
    receiveContent host i (f.contentFiles i) ((buffer.drop start).take available)

def writeContentData (offset : Nat) (buffer : List UInt8) : CIACall PUnit := do
  let f ← Exec.get
  Exec.forEach (List.range f.contentWritten.length) (writeContentAt host offset buffer)

/-- The header is buffered until all of it is there. -/
def writeHeader (offset : Nat) (buffer : List UInt8) : CIACall PUnit := do
  let copySize := min buffer.length ciaHeaderSize
  let maxSize := min (offset + buffer.length) ciaHeaderSize
  assignFile fun f => { f with data := resized f.data maxSize 0 }
  copyToData offset buffer 0 copySize
  let f ← Exec.get
  Exec.when (ciaHeaderSize ≤ f.written)
    (assignFile fun f => { f with
      container := f.container.loadHeader f.data
      installState := .headerLoaded })

/-- What comes before the contents is buffered, up to the contents and no further. -/
def writeSections (offset : Nat) (buffer : List UInt8) : CIACall PUnit := do
  let f ← Exec.get
  let contentOffset := f.container.getContentOffset 0
  Exec.when (offset < contentOffset) do
    let loaded := f.data.length
    let copyOffset := max offset loaded
    let bufOffset ← distance loaded offset
    let copySize ← distance (min buffer.length (contentOffset - offset)) bufOffset
    let maxSize := min (offset + buffer.length) contentOffset
    assignFile fun f => { f with data := resized f.data maxSize 0 }
    copyToData copyOffset buffer bufOffset copySize

/-- The rest of `Write`, once there is a header. -/
def writeBehindHeader (offset : Nat) (buffer : List UInt8) : CIACall PUnit := do
  writeSections offset buffer
  let f ← Exec.get
  Exec.when (f.container.getContentOffset 0 ≤ f.written ∧ f.installState ≠ .tmdLoaded) do
    writeTicket
    writeTitleMetadata host
  let f ← Exec.get
  Exec.when (f.installState = .tmdLoaded) (writeContentData host offset buffer)

/-- `Write`, which returns the length of the buffer. -/
def write (offset : Nat) (buffer : List UInt8) : CIACall Nat := do
  assignFile fun f => { f with written := f.written + buffer.length }
  let f ← Exec.get
  Exec.when (f.installState = .installStarted) (writeHeader offset buffer)
  let f ← Exec.get
  Exec.when (f.installState ≠ .installStarted) (writeBehindHeader host offset buffer)
  pure buffer.length

/-- Consecutive calls of `Write`. -/
def writeChunks (offset : Nat) : List (List UInt8) → CIACall PUnit
  | [] => pure ⟨⟩
  | buffer :: rest => do
      let length ← write host offset buffer
      writeChunks (offset + length) rest

end Calls

/-- `Close` considers the installation complete, if it was not cancelled. -/
def CIAFile.isComplete (f : CIAFile) : Bool :=
  decide (CIAInstallState.tmdLoaded.number ≤ f.installState.number) &&
    decide (f.contentWritten.length = f.container.ciaTmd.getContentCount) &&
    (List.range f.contentWritten.length).all fun i =>
      decide (f.container.getContentSize i ≤ f.contentWritten.getD i 0)

end Cytrus.Am
