import Cytrus.Common.MemoryRef
import Cytrus.FileSys.PathParser
import Cytrus.Support.OrderedMap
import Cytrus.Support.PackedTable

/-!
# The layered file system

A tree of directories and files, some of the files relocated, is written as the
metadata of a new RomFS image: `RebuildMetadata`. `ReadFile` reads from the
metadata and, behind it, from the files.

## Implementation notes

A pointer to a directory or a file is its address. Names are converted by a
parameter `toU16`. Offsets into the tables have 32 bits; sizes and offsets of
data are natural numbers, as no image has `2 ^ 64` bytes. Loading the tree is not modelled.
-/

namespace Cytrus.FileSys

open Support

inductive RelocationType where
  | none
  | replaced
  | patched
  | removed
  deriving DecidableEq, Repr

structure FileRelocationInfo where
  type : RelocationType := .none
  originalOffset : Nat := 0
  replaceFilePath : Chars := []
  patchedFile : List UInt8 := []
  size : UInt64 := 0
  deriving DecidableEq, Repr

/-- `LayeredFS::File`. -/
structure File where
  address : Nat
  name : Chars
  relocation : FileRelocationInfo := {}
  deriving DecidableEq, Repr

structure Directory where
  address : Nat
  name : Chars
  files : List File
  directories : List Directory

/-- A directory and what its `parent` points to. -/
structure DirectoryRef where
  directory : Directory
  parent : Directory

/-- A file and what its `parent` points to. -/
structure FileRef where
  file : File
  parent : Directory

/-- The ways in which a call can fail. -/
inductive RomFSFault where
  /-- `at` of a map without the key. -/
  | outOfRange
  /-- A failed `ASSERT`. -/
  | assertFailed
  /-- A copy past the end of a buffer. -/
  | outOfBounds
  /-- An iterator moved or used outside of its map. -/
  | invalidIterator
  /-- Code marked `UNREACHABLE`. -/
  | unreachable
  deriving DecidableEq, Repr

/-- `0xFFFFFFFF`. -/
def invalidOffset : Nat := 2 ^ 32 - 1

structure DirectoryMetadata where
  parentDirectoryOffset : Nat := invalidOffset
  nextSiblingOffset : Nat := invalidOffset
  firstChildDirectoryOffset : Nat := invalidOffset
  firstFileOffset : Nat := invalidOffset
  hashBucketNext : Nat := invalidOffset
  nameLength : Nat := invalidOffset
  deriving DecidableEq, Repr

structure FileMetadata where
  parentDirectoryOffset : Nat := invalidOffset
  nextSiblingOffset : Nat := invalidOffset
  fileDataOffset : Nat := 2 ^ 64 - 1
  fileDataLength : Nat := 2 ^ 64 - 1
  hashBucketNext : Nat := invalidOffset
  nameLength : Nat := invalidOffset
  deriving DecidableEq, Repr

def DirectoryMetadata.bytes (m : DirectoryMetadata) : List UInt8 :=
  toBytes 4 m.parentDirectoryOffset ++ (toBytes 4 m.nextSiblingOffset ++
    (toBytes 4 m.firstChildDirectoryOffset ++ (toBytes 4 m.firstFileOffset ++
      (toBytes 4 m.hashBucketNext ++ toBytes 4 m.nameLength))))

def FileMetadata.bytes (m : FileMetadata) : List UInt8 :=
  toBytes 4 m.parentDirectoryOffset ++ (toBytes 4 m.nextSiblingOffset ++
    (toBytes 8 m.fileDataOffset ++ (toBytes 8 m.fileDataLength ++
      (toBytes 4 m.hashBucketNext ++ toBytes 4 m.nameLength))))

/-- `sizeof(DirectoryMetadata)`. -/
def directoryMetadataSize : Nat := 0x18

/-- `sizeof(FileMetadata)`. -/
def fileMetadataSize : Nat := 0x20

@[simp] theorem DirectoryMetadata.length_bytes (m : DirectoryMetadata) :
    m.bytes.length = directoryMetadataSize := by
  simp [bytes, directoryMetadataSize]

@[simp] theorem FileMetadata.length_bytes (m : FileMetadata) : m.bytes.length = fileMetadataSize := by
  simp [bytes, fileMetadataSize]

def alignUp (value size : Nat) : Nat :=
  if value % size = 0 then value else value - value % size + size

theorem le_alignUp {value size : Nat} (h : 0 < size) : value ≤ alignUp value size := by
  have := Nat.mod_lt value h
  rw [alignUp]
  split_ifs <;> omega

section Names

variable (toU16 : Chars → List UInt16)

def getNameSize (name : Chars) : Nat := alignUp ((toU16 name).length * 2) 4

/-- `CalcHash`, of a name that is converted already. -/
def calcHash (u16name : List UInt16) (parentOffset : Nat) : Nat :=
  (u16name.foldl (fun (hash : UInt32) c => ((hash >>> 5) ||| (hash <<< 27)) ^^^ c.toUInt32)
    (UInt32.ofNat parentOffset ^^^ 123456789)).toNat

/-- The buffer of `WriteName`: the characters, padded with zeros. -/
def nameBytes (u16name : List UInt16) : List UInt8 :=
  u16name.flatMap (fun c => toBytes 2 c.toNat) ++
    List.replicate (alignUp (u16name.length * 2) 4 - u16name.length * 2) 0

end Names

/-- A pointer map to offsets. -/
abbrev OffsetMap := Nat → Option Nat

/-- `emplace`: a key that is there keeps its value. -/
def OffsetMap.emplace (m : OffsetMap) (address offset : Nat) : OffsetMap := fun a =>
  (m a).or (if address = a then some offset else none)

def OffsetMap.at_ (m : OffsetMap) (address : Nat) : Except RomFSFault Nat :=
  match m address with
  | some offset => .ok offset
  | none => .error .outOfRange

/-- `LayeredFS`, without what only loading uses. -/
structure LayeredFS where
  root : Directory
  dataOffsetMap : OrderedMap.Entries Nat File := []
  metadata : List UInt8 := []
  directoryHashTable : List Nat := []
  fileHashTable : List Nat := []
  directoryMetadataOffsetMap : OffsetMap := fun _ => none
  directoryList : List DirectoryRef := []
  currentDirectoryOffset : Nat := 0
  directoryMetadataTable : List UInt8 := []
  fileMetadataOffsetMap : OffsetMap := fun _ => none
  fileList : List FileRef := []
  currentFileOffset : Nat := 0
  fileMetadataTable : List UInt8 := []
  currentDataOffset : Nat := 0

/-- `memcpy` into a buffer. -/
def memcpy (buffer : List UInt8) (offset : Nat) (data : List UInt8) :
    Except RomFSFault (List UInt8) :=
  if offset + data.length ≤ buffer.length then .ok (overwrite buffer offset data)
  else .error .outOfBounds

namespace LayeredFS

section Prepare

variable (toU16 : Chars → List UInt16)

/-- What a directory takes in its table. -/
def directorySize (r : DirectoryRef) : Nat :=
  directoryMetadataSize + getNameSize toU16 r.directory.name

/-- What a file takes in its table. -/
def fileSize (r : FileRef) : Nat := fileMetadataSize + getNameSize toU16 r.file.name

def prepareBuildDirectory (fs : LayeredFS) (current : DirectoryRef) : LayeredFS :=
  { fs with
    directoryMetadataOffsetMap := fs.directoryMetadataOffsetMap.emplace
      current.directory.address (fs.currentDirectoryOffset % 2 ^ 32)
    directoryList := fs.directoryList ++ [current]
    currentDirectoryOffset := fs.currentDirectoryOffset + directorySize toU16 current }

def prepareBuildFile (fs : LayeredFS) (current : FileRef) : LayeredFS :=
  if current.file.relocation.type = .removed then fs
  else
    { fs with
      fileMetadataOffsetMap := fs.fileMetadataOffsetMap.emplace
        current.file.address (fs.currentFileOffset % 2 ^ 32)
      fileList := fs.fileList ++ [current]
      currentFileOffset := fs.currentFileOffset + fileSize toU16 current }

/-- The files of a directory. -/
def fileRefs (current : Directory) : List FileRef := current.files.map fun file => ⟨file, current⟩

/-- The children of a directory. -/
def directoryRefs (current : Directory) : List DirectoryRef :=
  current.directories.map fun child => ⟨child, current⟩

mutual

def prepareBuild : LayeredFS → Directory → LayeredFS
  | fs, ⟨address, name, files, directories⟩ =>
      let current : Directory := ⟨address, name, files, directories⟩
      let fs := (fileRefs current).foldl (prepareBuildFile toU16) fs
      let fs := (directoryRefs current).foldl (prepareBuildDirectory toU16) fs
      prepareBuildAll fs directories

/-- The last loop of `PrepareBuild`. -/
def prepareBuildAll : LayeredFS → List Directory → LayeredFS
  | fs, [] => fs
  | fs, child :: rest => prepareBuildAll (prepareBuild fs child) rest

end

end Prepare

/-- The loop of `BuildDirectories` and `BuildFiles` that looks for the next sibling: the first
entry that is not skipped behind the one at `address`. -/
def siblingAfter {α : Type*} (skip : α → Bool) (addressOf : α → Nat) (address : Nat) :
    Bool → List α → Option α
  | _, [] => none
  | flag, sibling :: rest =>
      if skip sibling then siblingAfter skip addressOf address flag rest
      else if flag then some sibling
      else siblingAfter skip addressOf address (addressOf sibling = address) rest

/-- The directory behind another one in their parent. The root has no siblings. -/
def nextDirectory (r : DirectoryRef) : Option Directory :=
  if r.parent.address ≠ r.directory.address then
    siblingAfter (fun _ => false) Directory.address r.directory.address false r.parent.directories
  else none

/-- The file behind another one in their directory, removed ones apart. -/
def nextFile (r : FileRef) : Option File :=
  siblingAfter (fun sibling : File => sibling.relocation.type = .removed) File.address
    r.file.address false r.parent.files

/-- The offset in a map of an optional entry. -/
def link (m : OffsetMap) : Option Nat → Except RomFSFault Nat
  | some address => m.at_ address
  | none => .ok invalidOffset

/-- An entry that is about to be written to a table. -/
structure TableEntry where
  offset : Nat
  hash : Nat
  metadataSize : Nat
  /-- The metadata, once the next entry of the bucket is known. -/
  metadata : Nat → List UInt8
  u16name : List UInt16
  length_metadata : ∀ next, (metadata next).length = metadataSize

section Build

variable (toU16 : Chars → List UInt16)

/-- The links of a directory, and its offset. -/
def directoryEntry (fs : LayeredFS) (r : DirectoryRef) : Except RomFSFault TableEntry := do
  let parent ← fs.directoryMetadataOffsetMap.at_ r.parent.address
  let nextSibling ← link fs.directoryMetadataOffsetMap ((nextDirectory r).map Directory.address)
  let firstChild ← link fs.directoryMetadataOffsetMap
    (r.directory.directories.head?.map Directory.address)
  let firstFile ← link fs.fileMetadataOffsetMap (r.directory.files.head?.map File.address)
  let offset ← fs.directoryMetadataOffsetMap.at_ r.directory.address
  let u16name := toU16 r.directory.name
  return {
    offset
    hash := calcHash u16name parent
    metadataSize := directoryMetadataSize
    metadata := fun next => DirectoryMetadata.bytes {
      parentDirectoryOffset := parent
      nextSiblingOffset := nextSibling
      firstChildDirectoryOffset := firstChild
      firstFileOffset := firstFile
      hashBucketNext := next
      nameLength := u16name.length * 2 % 2 ^ 32 }
    u16name
    length_metadata := fun _ => by simp }

/-- The links of a file whose data starts at `dataOffset`, and its offset. -/
def fileEntry (fs : LayeredFS) (dataOffset : Nat) (r : FileRef) : Except RomFSFault TableEntry := do
  let parent ← fs.directoryMetadataOffsetMap.at_ r.parent.address
  let nextSibling ← link fs.fileMetadataOffsetMap ((nextFile r).map File.address)
  let offset ← fs.fileMetadataOffsetMap.at_ r.file.address
  let u16name := toU16 r.file.name
  return {
    offset
    hash := calcHash u16name parent
    metadataSize := fileMetadataSize
    metadata := fun next => FileMetadata.bytes {
      parentDirectoryOffset := parent
      nextSiblingOffset := nextSibling
      fileDataOffset := dataOffset % 2 ^ 64
      fileDataLength := r.file.relocation.size.toNat
      hashBucketNext := next
      nameLength := u16name.length * 2 % 2 ^ 32 }
    u16name
    length_metadata := fun _ => by simp }

/-- A hash table and a metadata table, `written` of its bytes being written. -/
structure TableBuild where
  hashTable : List Nat
  table : List UInt8
  written : Nat := 0

/-- Put an entry in front of its bucket, and write it. -/
def TableBuild.insert (s : TableBuild) (e : TableEntry) : Except RomFSFault TableBuild := do
  let bucket := e.hash % s.hashTable.length
  match s.hashTable[bucket]? with
  | none => .error .outOfBounds
  | some next =>
      let table ← memcpy s.table s.written (e.metadata next)
      let table ← memcpy table (s.written + e.metadataSize) (nameBytes e.u16name)
      return {
        hashTable := s.hashTable.set bucket e.offset
        table
        written := s.written + e.metadataSize + (nameBytes e.u16name).length }

def buildDirectories (fs : LayeredFS) : Except RomFSFault LayeredFS := do
  let start : TableBuild := {
    hashTable := fs.directoryHashTable
    table := resized fs.directoryMetadataTable fs.currentDirectoryOffset 0xFF }
  let s ← fs.directoryList.foldlM (fun s r => do s.insert (← fs.directoryEntry toU16 r)) start
  if s.written ≠ s.table.length then .error .assertFailed
  else return { fs with directoryHashTable := s.hashTable, directoryMetadataTable := s.table }

/-- The part of `BuildFiles` that assigns the data offset of a file. -/
def assignData (fs : LayeredFS) (file : File) : LayeredFS :=
  { fs with
    currentDataOffset := fs.currentDataOffset + alignUp file.relocation.size.toNat 16
    dataOffsetMap :=
      if file.relocation.size = 0 then fs.dataOffsetMap
      else OrderedMap.emplace fs.dataOffsetMap fs.currentDataOffset file }

/-- The body of the loop in `BuildFiles`. -/
def buildFile (s : LayeredFS × TableBuild) (r : FileRef) : Except RomFSFault (LayeredFS × TableBuild) := do
  let entry ← s.1.fileEntry toU16 s.1.currentDataOffset r
  return (s.1.assignData r.file, ← s.2.insert entry)

def buildFiles (fs : LayeredFS) : Except RomFSFault LayeredFS := do
  let start : TableBuild := {
    hashTable := fs.fileHashTable
    table := resized fs.fileMetadataTable fs.currentFileOffset 0xFF }
  let (fs, s) ← fs.fileList.foldlM (buildFile toU16) (fs, start)
  if s.written ≠ s.table.length then .error .assertFailed
  else return { fs with fileHashTable := s.hashTable, fileMetadataTable := s.table }

end Build

/-- The product of the primes that `GetHashTableSize` avoids. -/
def primeProduct : Nat := 2 * 3 * 5 * 7 * 11 * 13 * 17

/-- The loop of `GetHashTableSize`. -/
def nextUnmarked (count : Nat) : Nat :=
  if count % 2 = 0 ∨ count % 3 = 0 ∨ count % 5 = 0 ∨ count % 7 = 0 ∨ count % 11 = 0 ∨
      count % 13 = 0 ∨ count % 17 = 0 then nextUnmarked (count + 1)
  else count
-- the loop stops at the latest where the count leaves the remainder one
termination_by (primeProduct + 1 - count % primeProduct) % primeProduct
decreasing_by
  unfold primeProduct
  omega

def getHashTableSize (entryCount : Nat) : Nat :=
  if entryCount < 3 then 3
  else if entryCount < 19 then entryCount ||| 1
  else nextUnmarked entryCount

structure Descriptor where
  offset : Nat
  length : Nat
  deriving DecidableEq, Repr

structure RomFSHeader where
  headerLength : Nat
  directoryHashTable : Descriptor
  directoryMetadataTable : Descriptor
  fileHashTable : Descriptor
  fileMetadataTable : Descriptor
  fileDataOffset : Nat
  deriving DecidableEq, Repr

/-- `sizeof(RomFSHeader)`. -/
def headerSize : Nat := 0x28

def Descriptor.bytes (d : Descriptor) : List UInt8 := toBytes 4 d.offset ++ toBytes 4 d.length

def RomFSHeader.bytes (h : RomFSHeader) : List UInt8 :=
  toBytes 4 h.headerLength ++ (h.directoryHashTable.bytes ++ (h.directoryMetadataTable.bytes ++
    (h.fileHashTable.bytes ++ (h.fileMetadataTable.bytes ++ toBytes 4 h.fileDataOffset))))

/-- A table that starts where another one stops. -/
def Descriptor.behind (d : Descriptor) (length : Nat) : Descriptor :=
  ⟨add32 d.offset d.length, length % 2 ^ 32⟩

/-- The header that `RebuildMetadata` creates. -/
def header (fs : LayeredFS) : RomFSHeader :=
  let directoryHashTable : Descriptor := ⟨headerSize, fs.directoryHashTable.length * 4 % 2 ^ 32⟩
  let directoryMetadataTable := directoryHashTable.behind fs.directoryMetadataTable.length
  let fileHashTable := directoryMetadataTable.behind (fs.fileHashTable.length * 4)
  let fileMetadataTable := fileHashTable.behind fs.fileMetadataTable.length
  { headerLength := headerSize
    directoryHashTable
    directoryMetadataTable
    fileHashTable
    fileMetadataTable
    fileDataOffset := alignUp (add32 fileMetadataTable.offset fileMetadataTable.length) 16 % 2 ^ 32 }

def hashTableBytes (table : List Nat) : List UInt8 := table.flatMap (toBytes 4)

/-- The part of `RebuildMetadata` that writes the metadata. -/
def writeMetadata (fs : LayeredFS) : Except RomFSFault LayeredFS := do
  let header := fs.header
  let metadata := resized fs.metadata header.fileDataOffset 0
  let metadata ← memcpy metadata 0 header.bytes
  let metadata ← memcpy metadata header.directoryHashTable.offset
    ((hashTableBytes fs.directoryHashTable).take header.directoryHashTable.length)
  let metadata ← memcpy metadata header.directoryMetadataTable.offset
    (fs.directoryMetadataTable.take header.directoryMetadataTable.length)
  let metadata ← memcpy metadata header.fileHashTable.offset
    ((hashTableBytes fs.fileHashTable).take header.fileHashTable.length)
  let metadata ← memcpy metadata header.fileMetadataTable.offset
    (fs.fileMetadataTable.take header.fileMetadataTable.length)
  return { fs with metadata }

/-- The first part of `RebuildMetadata`: every entry is listed, and the hash tables are empty. -/
def prepared (toU16 : Chars → List UInt16) (fs : LayeredFS) : LayeredFS :=
  let fs := fs.prepareBuildDirectory toU16 ⟨fs.root, fs.root⟩
  let fs := prepareBuild toU16 fs fs.root
  { fs with
    directoryHashTable := resized fs.directoryHashTable
      (getHashTableSize fs.directoryList.length) invalidOffset
    fileHashTable := resized fs.fileHashTable (getHashTableSize fs.fileList.length) invalidOffset }

def rebuildMetadata (toU16 : Chars → List UInt16) (fs : LayeredFS) : Except RomFSFault LayeredFS := do
  let fs ← buildDirectories toU16 (fs.prepared toU16)
  let fs ← buildFiles toU16 fs
  fs.writeMetadata

/-! ## Reading -/

def getSize (fs : LayeredFS) : Nat := fs.metadata.length + fs.currentDataOffset

/-- What the files are read from. -/
structure Host where
  /-- The image behind the other `RomFSReader`. -/
  romfs : List UInt8
  /-- The contents of a file of the host that can be opened. -/
  file : Chars → Option (List UInt8)

/-- The bytes that reading `toRead` bytes of a file delivers. -/
def readRelocated (host : Host) (relocation : FileRelocationInfo) (relativeOffset toRead : Nat) :
    Except RomFSFault (List UInt8) :=
  match relocation.type with
  | .none => .ok ((host.romfs.drop (relocation.originalOffset + relativeOffset)).take toRead)
  | .replaced =>
      match host.file relocation.replaceFilePath with
      | some contents => .ok ((contents.drop relativeOffset).take toRead)
      | none => .ok []
  | .patched =>
      if toRead ≠ 0 ∧ relocation.patchedFile.length < relativeOffset + toRead then .error .outOfBounds
      else .ok ((relocation.patchedFile.drop relativeOffset).take toRead)
  | .removed => .error .unreachable

/-- The loop of `ReadFile`, over the entries from `current` on. -/
def readFiles (host : Host) (length : Nat) :
    OrderedMap.Entries Nat File → Nat → Nat → List UInt8 → Except RomFSFault (Nat × List UInt8)
  | [], _, readSize, buffer =>
      if readSize < length then .error .invalidIterator else .ok (readSize, buffer)
  | (key, file) :: rest, offset, readSize, buffer =>
      if readSize < length then do
        let relativeOffset := offset - key
        let size := file.relocation.size.toNat
        let toRead :=
          if relativeOffset < size then min (size - relativeOffset) (length - readSize) else 0
        let alignment := min (alignUp size 16 - relativeOffset) (length - readSize) - toRead
        let data ← readRelocated host file.relocation relativeOffset toRead
        let buffer ← memcpy buffer readSize data
        let buffer ← memcpy buffer (readSize + toRead) (List.replicate alignment 0)
        readFiles host length rest (offset + (toRead + alignment))
          (readSize + (toRead + alignment)) buffer
      else .ok (readSize, buffer)

def readFile (fs : LayeredFS) (host : Host) (offset length : Nat) (buffer : List UInt8) :
    Except RomFSFault (Nat × List UInt8) :=
  if offset + length ≤ fs.getSize then do
    let readSize := if offset < fs.metadata.length then min (fs.metadata.length - offset) length else 0
    let buffer ← memcpy buffer 0 ((fs.metadata.drop offset).take readSize)
    let offset := if offset < fs.metadata.length then 0 else offset - fs.metadata.length
    match OrderedMap.prev fs.dataOffsetMap (OrderedMap.upperBound fs.dataOffsetMap offset) with
    | none => .error .invalidIterator
    | some current =>
        readFiles host length (fs.dataOffsetMap.dropWhile fun e => e.1 < current) offset readSize buffer
  else .error .assertFailed

end LayeredFS

end Cytrus.FileSys
