import Cytrus.FileSys.LayeredFS

/-!
# The tables of a rebuilt image

What `RebuildMetadata` leaves in the metadata: a header, and for directories and
for files a hash table and a table of packed records.

## Main results

* `prepared_eq`: the entries are listed in the order of their offsets
* `insertAll_eq`: inserting entries packs their records and chains them by bucket
* `rebuildMetadata_eq`: a rebuild succeeds if no directory's first file is removed
* `readTables_metadataParts`: the header leads to the tables

## Implementation notes

The induction over a tree goes over lists of siblings, `Directory.siblings`.
-/

namespace Cytrus.FileSys

open Support

@[elab_as_elim]
theorem Directory.siblings {P : List Directory → Prop} (nil : P [])
    (cons : ∀ d rest, P d.directories → P rest → P (d :: rest)) : ∀ l, P l
  | [] => nil
  | ⟨_, _, _, directories⟩ :: rest =>
      cons _ _ (Directory.siblings nil cons directories) (Directory.siblings nil cons rest)

def DirectoryRef.address (r : DirectoryRef) : Nat := r.directory.address

def FileRef.address (r : FileRef) : Nat := r.file.address

/-- A file that is not removed. -/
def File.Kept (file : File) : Prop := file.relocation.type ≠ .removed

instance (file : File) : Decidable file.Kept := inferInstanceAs (Decidable (_ ≠ _))

namespace LayeredFS

variable (toU16 : Chars → List UInt16)

@[simp] theorem ok_bind {α β : Type} (a : α) (next : α → Except RomFSFault β) :
    (Except.ok a >>= next) = next a := rfl

@[simp] theorem error_bind {α β : Type} (f : RomFSFault) (next : α → Except RomFSFault β) :
    (Except.error f >>= next) = .error f := rfl

/-! ## Listing the entries -/

mutual

/-- The directories below a directory, in the order of `PrepareBuild`. -/
def refsBelow : Directory → List DirectoryRef
  | ⟨address, name, files, directories⟩ =>
      directoryRefs ⟨address, name, files, directories⟩ ++ refsBelowAll directories

/-- The directories below some siblings. -/
def refsBelowAll : List Directory → List DirectoryRef
  | [] => []
  | d :: rest => refsBelow d ++ refsBelowAll rest

end

mutual

/-- The files below a directory, in the order of `PrepareBuild`. -/
def filesBelow : Directory → List FileRef
  | ⟨address, name, files, directories⟩ =>
      fileRefs ⟨address, name, files, directories⟩ ++ filesBelowAll directories

/-- The files below some siblings. -/
def filesBelowAll : List Directory → List FileRef
  | [] => []
  | d :: rest => filesBelow d ++ filesBelowAll rest

end

theorem refsBelow_eq (d : Directory) :
    refsBelow d = directoryRefs d ++ refsBelowAll d.directories := by
  cases d
  rw [refsBelow]

theorem filesBelow_eq (d : Directory) :
    filesBelow d = fileRefs d ++ filesBelowAll d.directories := by
  cases d
  rw [filesBelow]

/-- All directories of a tree. -/
def allDirectories (root : Directory) : List DirectoryRef := ⟨root, root⟩ :: refsBelow root

/-- The files that are not removed. -/
def keptFiles (root : Directory) : List FileRef :=
  (filesBelow root).filter fun r => r.file.Kept

variable {toU16} {fs : LayeredFS}

theorem prepareBuildDirectories_eq (l : List DirectoryRef) :
    l.foldl (prepareBuildDirectory toU16) fs =
      { fs with
        directoryMetadataOffsetMap := fun a => (fs.directoryMetadataOffsetMap a).or
          ((packedStart (directorySize toU16) DirectoryRef.address l a).map fun o =>
            (fs.currentDirectoryOffset + o) % 2 ^ 32)
        directoryList := fs.directoryList ++ l
        currentDirectoryOffset := fs.currentDirectoryOffset + totalSize (directorySize toU16) l } := by
  induction l generalizing fs with
  | nil => simp [packedStart]
  | cons r l ih =>
      rw [List.foldl_cons, ih]
      simp only [prepareBuildDirectory, LayeredFS.mk.injEq, true_and, and_true,
        List.append_assoc, List.singleton_append, totalSize_cons, Nat.add_assoc]
      funext a
      simp only [OffsetMap.emplace, packedStart, DirectoryRef.address]
      split_ifs with h
      · simp [h]
      · simp [h, Function.comp_def]

theorem prepareBuildFiles_eq (l : List FileRef) :
    l.foldl (prepareBuildFile toU16) fs =
      { fs with
        fileMetadataOffsetMap := fun a => (fs.fileMetadataOffsetMap a).or
          ((packedStart (fileSize toU16) FileRef.address (l.filter fun r => r.file.Kept) a).map
            fun o => (fs.currentFileOffset + o) % 2 ^ 32)
        fileList := fs.fileList ++ l.filter fun r => r.file.Kept
        currentFileOffset := fs.currentFileOffset +
          totalSize (fileSize toU16) (l.filter fun r => r.file.Kept) } := by
  induction l generalizing fs with
  | nil => simp [packedStart]
  | cons r l ih =>
      rw [List.foldl_cons, ih, prepareBuildFile, List.filter_cons]
      split_ifs with hremoved hkept hkept
      · simp [File.Kept, hremoved] at hkept
      · rfl
      · simp only [LayeredFS.mk.injEq, true_and, and_true,
          List.append_assoc, List.singleton_append, totalSize_cons, Nat.add_assoc]
        funext a
        simp only [OffsetMap.emplace, packedStart, FileRef.address]
        split_ifs with h
        · simp [h]
        · simp [h, Function.comp_def]
      · simp [File.Kept, hremoved] at hkept

theorem prepareBuild_comm (directories : List DirectoryRef) (files : List FileRef) :
    files.foldl (prepareBuildFile toU16) (directories.foldl (prepareBuildDirectory toU16) fs) =
      directories.foldl (prepareBuildDirectory toU16) (files.foldl (prepareBuildFile toU16) fs) := by
  rw [prepareBuildDirectories_eq, prepareBuildFiles_eq, prepareBuildFiles_eq,
    prepareBuildDirectories_eq]

theorem prepareBuild_eq (d : Directory) : prepareBuild toU16 fs d =
    prepareBuildAll toU16 ((directoryRefs d).foldl (prepareBuildDirectory toU16)
      ((fileRefs d).foldl (prepareBuildFile toU16) fs)) d.directories := by
  cases d
  rw [prepareBuild]

theorem prepareBuildAll_eq (l : List Directory) : prepareBuildAll toU16 fs l =
    (refsBelowAll l).foldl (prepareBuildDirectory toU16)
      ((filesBelowAll l).foldl (prepareBuildFile toU16) fs) := by
  induction l using Directory.siblings generalizing fs with
  | nil => rw [prepareBuildAll, refsBelowAll, filesBelowAll, List.foldl_nil, List.foldl_nil]
  | cons d rest hchildren hrest =>
      rw [prepareBuildAll, prepareBuild_eq, hchildren, hrest, refsBelowAll, filesBelowAll,
        refsBelow_eq, filesBelow_eq]
      simp only [List.foldl_append, prepareBuild_comm]

variable (toU16)

/-- The offsets of the directories of a tree, as far as they have 32 bits. -/
def directoryOffsets (root : Directory) : OffsetMap := fun a =>
  (packedStart (directorySize toU16) DirectoryRef.address (allDirectories root) a).map (· % 2 ^ 32)

/-- The offsets of the files of a tree, as far as they have 32 bits. -/
def fileOffsets (root : Directory) : OffsetMap := fun a =>
  (packedStart (fileSize toU16) FileRef.address (keptFiles root) a).map (· % 2 ^ 32)

/-- The number of directory buckets. -/
def directoryBuckets (root : Directory) : Nat := getHashTableSize (allDirectories root).length

/-- The number of file buckets. -/
def fileBuckets (root : Directory) : Nat := getHashTableSize (keptFiles root).length

/-- What `RebuildMetadata` starts to build with. -/
def listed (root : Directory) : LayeredFS where
  root := root
  directoryHashTable := List.replicate (directoryBuckets root) invalidOffset
  fileHashTable := List.replicate (fileBuckets root) invalidOffset
  directoryMetadataOffsetMap := directoryOffsets toU16 root
  directoryList := allDirectories root
  currentDirectoryOffset := totalSize (directorySize toU16) (allDirectories root)
  fileMetadataOffsetMap := fileOffsets toU16 root
  fileList := keptFiles root
  currentFileOffset := totalSize (fileSize toU16) (keptFiles root)

theorem prepared_eq (root : Directory) : prepared toU16 { root := root } = listed toU16 root := by
  have hlist : prepareBuild toU16 (prepareBuildDirectory toU16 { root := root } ⟨root, root⟩) root =
      (filesBelow root).foldl (prepareBuildFile toU16)
        ((allDirectories root).foldl (prepareBuildDirectory toU16) { root := root }) := by
    rw [allDirectories, refsBelow_eq, filesBelow_eq, prepareBuild_eq, prepareBuildAll_eq]
    simp only [List.foldl_cons, List.foldl_append, ← prepareBuild_comm]
  unfold prepared
  change (let fs := prepareBuild toU16 (prepareBuildDirectory toU16 { root := root } ⟨root, root⟩) root
    { fs with
      directoryHashTable := resized fs.directoryHashTable
        (getHashTableSize fs.directoryList.length) invalidOffset
      fileHashTable := resized fs.fileHashTable (getHashTableSize fs.fileList.length) invalidOffset }) = _
  rw [hlist, prepareBuildFiles_eq, prepareBuildDirectories_eq]
  simp only [resized, List.take_nil, List.nil_append, List.length_nil, Nat.sub_zero,
    Nat.zero_add, Option.none_or]
  rfl

/-! ## The entries -/

/-- What a link holds; nothing is the invalid offset. -/
def linkTo (m : OffsetMap) (address : Option Nat) : Nat := (address.bind m).getD invalidOffset

variable (fs)

def directoryMetadata (r : DirectoryRef) (next : Nat) : DirectoryMetadata where
  parentDirectoryOffset := linkTo fs.directoryMetadataOffsetMap (some r.parent.address)
  nextSiblingOffset :=
    linkTo fs.directoryMetadataOffsetMap ((nextDirectory r).map Directory.address)
  firstChildDirectoryOffset :=
    linkTo fs.directoryMetadataOffsetMap (r.directory.directories.head?.map Directory.address)
  firstFileOffset := linkTo fs.fileMetadataOffsetMap (r.directory.files.head?.map File.address)
  hashBucketNext := next
  nameLength := (toU16 r.directory.name).length * 2 % 2 ^ 32

/-- The metadata of a file whose data starts at `dataOffset`. -/
def fileMetadata (dataOffset : Nat) (r : FileRef) (next : Nat) : FileMetadata where
  parentDirectoryOffset := linkTo fs.directoryMetadataOffsetMap (some r.parent.address)
  nextSiblingOffset := linkTo fs.fileMetadataOffsetMap ((nextFile r).map File.address)
  fileDataOffset := dataOffset % 2 ^ 64
  fileDataLength := r.file.relocation.size.toNat
  hashBucketNext := next
  nameLength := (toU16 r.file.name).length * 2 % 2 ^ 32

/-- The entry of a directory whose links are all there. -/
def directoryTableEntry (r : DirectoryRef) : TableEntry where
  offset := linkTo fs.directoryMetadataOffsetMap (some r.address)
  hash := calcHash (toU16 r.directory.name)
    (linkTo fs.directoryMetadataOffsetMap (some r.parent.address))
  metadataSize := directoryMetadataSize
  metadata := fun next => (directoryMetadata toU16 fs r next).bytes
  u16name := toU16 r.directory.name
  length_metadata := fun _ => by simp

/-- The entry of a file whose links are all there. -/
def fileTableEntry (dataOffset : Nat) (r : FileRef) : TableEntry where
  offset := linkTo fs.fileMetadataOffsetMap (some r.address)
  hash := calcHash (toU16 r.file.name)
    (linkTo fs.directoryMetadataOffsetMap (some r.parent.address))
  metadataSize := fileMetadataSize
  metadata := fun next => (fileMetadata toU16 fs dataOffset r next).bytes
  u16name := toU16 r.file.name
  length_metadata := fun _ => by simp

variable {toU16 fs} {m : OffsetMap}

/-- An address that a map knows. -/
def Known (m : OffsetMap) (address : Option Nat) : Prop := ∀ a ∈ address, (m a).isSome

theorem link_eq {address : Option Nat} (h : Known m address) :
    link m address = .ok (linkTo m address) := by
  cases address with
  | none => rfl
  | some a =>
      obtain ⟨o, ho⟩ := Option.isSome_iff_exists.mp (h a rfl)
      simp [link, linkTo, OffsetMap.at_, ho]

theorem at_eq {a : Nat} (h : Known m (some a)) : m.at_ a = .ok (linkTo m (some a)) := link_eq h

/-- The maps know what a directory is linked to. -/
structure DirectoryLinked (fs : LayeredFS) (r : DirectoryRef) : Prop where
  self : Known fs.directoryMetadataOffsetMap (some r.address)
  parent : Known fs.directoryMetadataOffsetMap (some r.parent.address)
  sibling : Known fs.directoryMetadataOffsetMap ((nextDirectory r).map Directory.address)
  child : Known fs.directoryMetadataOffsetMap
    (r.directory.directories.head?.map Directory.address)
  file : Known fs.fileMetadataOffsetMap (r.directory.files.head?.map File.address)

/-- The maps know what a file is linked to. -/
structure FileLinked (fs : LayeredFS) (r : FileRef) : Prop where
  self : Known fs.fileMetadataOffsetMap (some r.address)
  parent : Known fs.directoryMetadataOffsetMap (some r.parent.address)
  sibling : Known fs.fileMetadataOffsetMap ((nextFile r).map File.address)

theorem directoryEntry_eq {r : DirectoryRef} (h : DirectoryLinked fs r) :
    fs.directoryEntry toU16 r = .ok (directoryTableEntry toU16 fs r) := by
  have hself : fs.directoryMetadataOffsetMap.at_ r.directory.address = _ := at_eq h.self
  rw [directoryEntry, at_eq h.parent, link_eq h.sibling, link_eq h.child, link_eq h.file, hself]
  rfl

theorem fileEntry_eq {r : FileRef} (h : FileLinked fs r) (dataOffset : Nat) :
    fs.fileEntry toU16 dataOffset r = .ok (fileTableEntry toU16 fs dataOffset r) := by
  have hself : fs.fileMetadataOffsetMap.at_ r.file.address = _ := at_eq h.self
  rw [fileEntry, at_eq h.parent, hself, link_eq h.sibling]
  rfl

/-! ## Inserting entries -/

theorem memcpy_fill (front : List UInt8) (x : UInt8) {data : List UInt8} {k : Nat}
    (h : data.length ≤ k) :
    memcpy (front ++ List.replicate k x) front.length data =
      .ok (front ++ data ++ List.replicate (k - data.length) x) := by
  have hroom : front.length + data.length ≤ (front ++ List.replicate k x).length := by
    simpa using h
  rw [memcpy, if_pos hroom, overwrite, List.take_left, ← List.drop_drop, List.drop_left,
    List.drop_replicate]

theorem memcpy_behind {front data : List UInt8} {size offset : Nat} (x : UInt8)
    (hoffset : offset = front.length) (hroom : front.length + data.length ≤ size) :
    memcpy (front ++ List.replicate (size - front.length) x) offset data =
      .ok (front ++ data ++ List.replicate (size - (front ++ data).length) x) := by
  rw [hoffset, memcpy_fill front x (by omega), Nat.sub_sub, List.length_append]

namespace TableEntry

/-- What an entry takes in its table. -/
def size (e : TableEntry) : Nat := e.metadataSize + (nameBytes e.u16name).length

/-- The bucket of an entry. -/
def bucket (buckets : Nat) (e : TableEntry) : Nat := e.hash % buckets

/-- What a bucket holds behind `done`. -/
abbrev head (buckets : Nat) (done : List TableEntry) (b : Nat) : Nat :=
  chainHead offset (bucket buckets) invalidOffset done b

/-- The hash table behind `done`. -/
abbrev heads (buckets : Nat) (done : List TableEntry) : List Nat :=
  chainHeads offset (bucket buckets) invalidOffset buckets done

/-- The record of an entry behind `done`. -/
def record (buckets : Nat) (done : List TableEntry) (e : TableEntry) : List UInt8 :=
  e.metadata (head buckets done (e.bucket buckets)) ++ nameBytes e.u16name

theorem length_record (buckets : Nat) (done : List TableEntry) (e : TableEntry) :
    (e.record buckets done).length = e.size := by
  rw [record, List.length_append, e.length_metadata, size]

end TableEntry

variable {n k : Nat} {e : TableEntry} {done l : List TableEntry}

/-- A table behind `done`, with room for `k` bytes. -/
def tableBehind (n k : Nat) (done : List TableEntry) : TableBuild where
  hashTable := TableEntry.heads n done
  table := records (TableEntry.record n) [] done ++ List.replicate k 0xFF
  written := totalSize TableEntry.size done

theorem insert_eq (hn : 0 < n) (hroom : e.size ≤ k) :
    (tableBehind n k done).insert e = .ok (tableBehind n (k - e.size) (done ++ [e])) := by
  have hbucket : (TableEntry.heads n done)[e.bucket n]? =
      some (TableEntry.head n done (e.bucket n)) := chainHeads_getElem? (Nat.mod_lt _ hn)
  have hwritten : totalSize TableEntry.size done = (records (TableEntry.record n) [] done).length :=
    (length_records (TableEntry.length_record n)).symm
  have hmetadata := e.length_metadata (TableEntry.head n done (e.bucket n))
  have hname : (nameBytes e.u16name).length ≤ k - e.metadataSize := by
    rw [TableEntry.size] at hroom
    omega
  have hfirst := memcpy_fill (records (TableEntry.record n) [] done) 0xFF
    (hmetadata.trans_le ((Nat.le_add_right _ _).trans hroom))
  have hsecond := memcpy_fill (records (TableEntry.record n) [] done ++
    e.metadata (TableEntry.head n done (e.bucket n))) 0xFF hname
  rw [List.length_append, hmetadata, ← hwritten] at hsecond
  rw [← hwritten, hmetadata] at hfirst
  have hpacked : records (TableEntry.record n) [] (done ++ [e]) =
      records (TableEntry.record n) [] done ++
        e.metadata (TableEntry.head n done (e.bucket n)) ++ nameBytes e.u16name := by
    simp [records_append, records, TableEntry.record]
  rw [Nat.sub_sub, ← hpacked] at hsecond
  have hset : (TableEntry.heads n done).set (e.bucket n) e.offset =
      TableEntry.heads n (done ++ [e]) := chainHeads_snoc.symm
  have hlength : (TableEntry.heads n done).length = n := length_chainHeads
  have htotal : totalSize TableEntry.size (done ++ [e]) =
      totalSize TableEntry.size done + e.metadataSize + (nameBytes e.u16name).length := by
    simp [TableEntry.size, Nat.add_assoc]
  have hstep : (tableBehind n k done).insert e = (do
      let table ← memcpy (records (TableEntry.record n) [] done ++ List.replicate k 0xFF)
        (totalSize TableEntry.size done) (e.metadata (TableEntry.head n done (e.bucket n)))
      let table ← memcpy table (totalSize TableEntry.size done + e.metadataSize)
        (nameBytes e.u16name)
      return {
        hashTable := (TableEntry.heads n done).set (e.bucket n) e.offset
        table
        written := totalSize TableEntry.size done + e.metadataSize +
          (nameBytes e.u16name).length }) := by
    simp only [TableBuild.insert, tableBehind, hlength]
    rw [← TableEntry.bucket, hbucket]
  rw [hstep, hfirst, ok_bind, hsecond, ok_bind, hset, ← htotal]
  rfl

/-- Inserting entries packs their records and chains them by bucket. -/
theorem insertAll_eq (hn : 0 < n) (hroom : totalSize TableEntry.size l ≤ k) :
    l.foldlM TableBuild.insert (tableBehind n k done) =
      .ok (tableBehind n (k - totalSize TableEntry.size l) (done ++ l)) := by
  induction l generalizing k done with
  | nil => simp; rfl
  | cons e l ih =>
      rw [totalSize_cons] at hroom ⊢
      rw [List.foldlM_cons, insert_eq hn (by omega), ok_bind, ih (by omega), Nat.sub_sub,
        List.append_assoc, List.singleton_append]

/-! ## Building the tables -/

theorem length_nameBytes (u16name : List UInt16) :
    (nameBytes u16name).length = alignUp (u16name.length * 2) 4 := by
  have hle := @le_alignUp (u16name.length * 2) 4 (by decide)
  simp only [nameBytes, List.length_append, List.length_flatMap, length_toBytes,
    List.map_const', List.sum_replicate, smul_eq_mul, List.length_replicate]
  omega

theorem le_nextUnmarked (count : Nat) : count ≤ nextUnmarked count := by
  induction count using nextUnmarked.induct with
  | case1 count hmarked ih =>
      rw [nextUnmarked, if_pos hmarked]
      omega
  | case2 count hmarked => rw [nextUnmarked, if_neg hmarked]

theorem getHashTableSize_pos (entryCount : Nat) : 0 < getHashTableSize entryCount := by
  unfold getHashTableSize
  split_ifs with hfew hmany
  · decide
  · exact Nat.lt_of_lt_of_le (by omega) Nat.left_le_or
  · exact Nat.lt_of_lt_of_le (by omega) (le_nextUnmarked entryCount)

variable (toU16) in
theorem foldlM_directoryEntry {l : List DirectoryRef} (h : ∀ r ∈ l, DirectoryLinked fs r)
    (s : TableBuild) :
    l.foldlM (fun s r => do s.insert (← fs.directoryEntry toU16 r)) s =
      (l.map (directoryTableEntry toU16 fs)).foldlM TableBuild.insert s := by
  induction l generalizing s with
  | nil => rfl
  | cons r l ih =>
      simp only [List.foldlM_cons, List.map_cons, directoryEntry_eq (h r List.mem_cons_self),
        ok_bind, ih fun x hx => h x (List.mem_cons_of_mem r hx)]

variable (toU16 fs) in
/-- The entries of files whose data starts at `dataOffset`. -/
def fileEntries : Nat → List FileRef → List TableEntry
  | _, [] => []
  | dataOffset, r :: rest =>
      fileTableEntry toU16 fs dataOffset r ::
        fileEntries (dataOffset + alignUp r.file.relocation.size.toNat 16) rest

/-- The entries depend on the offset maps only. -/
theorem fileEntries_congr (fs fs' : LayeredFS)
    (hdirectories : fs'.directoryMetadataOffsetMap = fs.directoryMetadataOffsetMap)
    (hfiles : fs'.fileMetadataOffsetMap = fs.fileMetadataOffsetMap) (dataOffset : Nat)
    (l : List FileRef) : fileEntries toU16 fs' dataOffset l = fileEntries toU16 fs dataOffset l := by
  induction l generalizing dataOffset with
  | nil => rfl
  | cons r l ih =>
      simp only [fileEntries, fileTableEntry, fileMetadata, hdirectories, hfiles, ih]

variable (toU16) in
theorem foldlM_buildFile {l : List FileRef} (h : ∀ r ∈ l, FileLinked fs r) (s : TableBuild) :
    l.foldlM (buildFile toU16) (fs, s) =
      (fileEntries toU16 fs fs.currentDataOffset l).foldlM TableBuild.insert s >>= fun s =>
        .ok (l.foldl (fun fs r => fs.assignData r.file) fs, s) := by
  induction l generalizing fs s with
  | nil => rfl
  | cons r l ih =>
      have hself := h r List.mem_cons_self
      have hrest : ∀ x ∈ l, FileLinked (fs.assignData r.file) x := fun x hx =>
        have hx := h x (List.mem_cons_of_mem r hx)
        ⟨hx.self, hx.parent, hx.sibling⟩
      rw [List.foldlM_cons, buildFile, fileEntry_eq hself, ok_bind, fileEntries, List.foldlM_cons]
      cases s.insert (fileTableEntry toU16 fs fs.currentDataOffset r) with
      | error f => rfl
      | ok t =>
          have hentries := @fileEntries_congr toU16 fs (fs.assignData r.file) rfl rfl
          exact (ih hrest t).trans (by rw [hentries]; rfl)

theorem totalSize_directoryEntries (l : List DirectoryRef) :
    totalSize TableEntry.size (l.map (directoryTableEntry toU16 fs)) =
      totalSize (directorySize toU16) l := by
  induction l with
  | nil => rfl
  | cons r l ih =>
      simp only [List.map_cons, totalSize_cons, ih, TableEntry.size, directoryTableEntry,
        length_nameBytes, directorySize, getNameSize]

theorem totalSize_fileEntries (dataOffset : Nat) (l : List FileRef) :
    totalSize TableEntry.size (fileEntries toU16 fs dataOffset l) =
      totalSize (fileSize toU16) l := by
  induction l generalizing dataOffset with
  | nil => rfl
  | cons r l ih =>
      simp only [fileEntries, totalSize_cons, ih, TableEntry.size, fileTableEntry,
        length_nameBytes, fileSize, getNameSize]

theorem insertAll_start (hn : 0 < n) :
    l.foldlM TableBuild.insert {
        hashTable := List.replicate n invalidOffset
        table := resized [] (totalSize TableEntry.size l) 0xFF } =
      .ok (tableBehind n 0 l) := by
  have hstart : ({
      hashTable := List.replicate n invalidOffset
      table := resized [] (totalSize TableEntry.size l) 0xFF } : TableBuild) =
        tableBehind n (totalSize TableEntry.size l) [] := by
    simp [tableBehind, TableEntry.heads, chainHeads_nil, records, resized]
  rw [hstart, insertAll_eq hn le_rfl, Nat.sub_self, List.nil_append]

theorem tableBehind_full : (tableBehind n 0 l).table = records (TableEntry.record n) [] l := by
  simp [tableBehind]

theorem written_full : (tableBehind n 0 l).written = (tableBehind n 0 l).table.length := by
  rw [tableBehind_full, length_records (TableEntry.length_record n), tableBehind]

variable (toU16) in
/-- The entries of all directories. -/
def directoryEntries (root : Directory) : List TableEntry :=
  (allDirectories root).map (directoryTableEntry toU16 (listed toU16 root))

variable (toU16) in
/-- The entries of all files. -/
def allFileEntries (root : Directory) : List TableEntry :=
  fileEntries toU16 (listed toU16 root) 0 (keptFiles root)

theorem directoryBuckets_pos (root : Directory) : 0 < directoryBuckets root :=
  getHashTableSize_pos _

theorem fileBuckets_pos (root : Directory) : 0 < fileBuckets root := getHashTableSize_pos _

variable {root : Directory}

variable (toU16 root) in
/-- What `BuildDirectories` leaves. -/
def withDirectories : LayeredFS :=
  { listed toU16 root with
    directoryHashTable := TableEntry.heads (directoryBuckets root) (directoryEntries toU16 root)
    directoryMetadataTable :=
      records (TableEntry.record (directoryBuckets root)) [] (directoryEntries toU16 root) }

theorem buildDirectories_eq (h : ∀ r ∈ allDirectories root, DirectoryLinked (listed toU16 root) r) :
    buildDirectories toU16 (listed toU16 root) = .ok (withDirectories toU16 root) := by
  have hsize : totalSize (directorySize toU16) (allDirectories root) =
      totalSize TableEntry.size (directoryEntries toU16 root) := (totalSize_directoryEntries _).symm
  have hfold := (foldlM_directoryEntry toU16 h _).trans (insertAll_start (directoryBuckets_pos root))
  rw [← directoryEntries, ← hsize] at hfold
  have hbuild : buildDirectories toU16 (listed toU16 root) =
      (Except.ok (tableBehind (directoryBuckets root) 0 (directoryEntries toU16 root)) >>= fun s =>
        if s.written ≠ s.table.length then .error .assertFailed
        else return { listed toU16 root with
          directoryHashTable := s.hashTable, directoryMetadataTable := s.table }) := by
    rw [← hfold]
    rfl
  rw [hbuild, ok_bind, if_neg (not_not.mpr written_full), tableBehind_full]
  rfl

variable (toU16 root) in
/-- What `BuildFiles` leaves. -/
def withFiles : LayeredFS :=
  { (keptFiles root).foldl (fun fs r => fs.assignData r.file) (withDirectories toU16 root) with
    fileHashTable := TableEntry.heads (fileBuckets root) (allFileEntries toU16 root)
    fileMetadataTable :=
      records (TableEntry.record (fileBuckets root)) [] (allFileEntries toU16 root) }

theorem buildFiles_eq (h : ∀ r ∈ keptFiles root, FileLinked (listed toU16 root) r) :
    buildFiles toU16 (withDirectories toU16 root) = .ok (withFiles toU16 root) := by
  have hlinked : ∀ r ∈ keptFiles root, FileLinked (withDirectories toU16 root) r := fun r hr =>
    ⟨(h r hr).self, (h r hr).parent, (h r hr).sibling⟩
  have hentries : fileEntries toU16 (withDirectories toU16 root) 0 (keptFiles root) =
      allFileEntries toU16 root :=
    fileEntries_congr (listed toU16 root) (withDirectories toU16 root) rfl rfl 0 _
  have hsize : totalSize (fileSize toU16) (keptFiles root) =
      totalSize TableEntry.size (allFileEntries toU16 root) := (totalSize_fileEntries 0 _).symm
  have hfold := foldlM_buildFile toU16 hlinked {
    hashTable := List.replicate (fileBuckets root) invalidOffset
    table := resized [] (totalSize (fileSize toU16) (keptFiles root)) 0xFF }
  have hcurrent : (withDirectories toU16 root).currentDataOffset = 0 := rfl
  rw [hcurrent, hentries, hsize, insertAll_start (fileBuckets_pos root), ok_bind] at hfold
  have hbuild : buildFiles toU16 (withDirectories toU16 root) =
      (Except.ok ((keptFiles root).foldl (fun fs r => fs.assignData r.file)
          (withDirectories toU16 root),
        tableBehind (fileBuckets root) 0 (allFileEntries toU16 root)) >>= fun s =>
        if s.2.written ≠ s.2.table.length then .error .assertFailed
        else return { s.1 with fileHashTable := s.2.hashTable, fileMetadataTable := s.2.table }) := by
    rw [← hfold, ← hsize]
    rfl
  rw [hbuild, ok_bind, if_neg (not_not.mpr written_full), tableBehind_full]
  rfl

/-- A rebuild writes the metadata of the complete tables, if nothing is missing. -/
theorem rebuildMetadata_eq
    (hdirectories : ∀ r ∈ allDirectories root, DirectoryLinked (listed toU16 root) r)
    (hfiles : ∀ r ∈ keptFiles root, FileLinked (listed toU16 root) r) :
    rebuildMetadata toU16 { root := root } = (withFiles toU16 root).writeMetadata := by
  rw [rebuildMetadata, prepared_eq, buildDirectories_eq hdirectories, ok_bind,
    buildFiles_eq hfiles, ok_bind]

/-! ## Writing and reading the metadata -/

/-- The length of the metadata up to the padding. -/
def headerEnd (fs : LayeredFS) : Nat :=
  headerSize + fs.header.directoryHashTable.length + fs.header.directoryMetadataTable.length +
    fs.header.fileHashTable.length + fs.header.fileMetadataTable.length

/-- The directory hash table, as far as the header declares it. -/
def directoryHashPart (fs : LayeredFS) : List UInt8 :=
  (hashTableBytes fs.directoryHashTable).take fs.header.directoryHashTable.length

/-- The directory metadata table, as far as the header declares it. -/
def directoryPart (fs : LayeredFS) : List UInt8 :=
  fs.directoryMetadataTable.take fs.header.directoryMetadataTable.length

/-- The file hash table, as far as the header declares it. -/
def fileHashPart (fs : LayeredFS) : List UInt8 :=
  (hashTableBytes fs.fileHashTable).take fs.header.fileHashTable.length

/-- The file metadata table, as far as the header declares it. -/
def filePart (fs : LayeredFS) : List UInt8 :=
  fs.fileMetadataTable.take fs.header.fileMetadataTable.length

@[simp] theorem length_hashTableBytes (table : List Nat) :
    (hashTableBytes table).length = table.length * 4 := by
  simp [hashTableBytes, List.length_flatMap]

@[simp] theorem length_headerBytes (h : RomFSHeader) : h.bytes.length = headerSize := by
  simp [RomFSHeader.bytes, Descriptor.bytes, headerSize]

section Parts

variable (fs : LayeredFS)

@[simp] theorem length_directoryHashPart :
    fs.directoryHashPart.length = fs.header.directoryHashTable.length := by
  rw [directoryHashPart, List.length_take, length_hashTableBytes]
  exact min_eq_left (Nat.mod_le _ _)

@[simp] theorem length_directoryPart :
    fs.directoryPart.length = fs.header.directoryMetadataTable.length := by
  rw [directoryPart, List.length_take]
  exact min_eq_left (Nat.mod_le _ _)

@[simp] theorem length_fileHashPart :
    fs.fileHashPart.length = fs.header.fileHashTable.length := by
  rw [fileHashPart, List.length_take, length_hashTableBytes]
  exact min_eq_left (Nat.mod_le _ _)

@[simp] theorem length_filePart : fs.filePart.length = fs.header.fileMetadataTable.length := by
  rw [filePart, List.length_take]
  exact min_eq_left (Nat.mod_le _ _)

/-- The metadata up to the padding. -/
def metadataParts : List UInt8 :=
  fs.header.bytes ++ fs.directoryHashPart ++ fs.directoryPart ++ fs.fileHashPart ++ fs.filePart

variable {fs}

theorem header_offsets (h : alignUp fs.headerEnd 16 < 2 ^ 32) :
    fs.header.directoryHashTable.offset = headerSize ∧
      fs.header.directoryMetadataTable.offset =
        headerSize + fs.header.directoryHashTable.length ∧
      fs.header.fileHashTable.offset = headerSize + fs.header.directoryHashTable.length +
        fs.header.directoryMetadataTable.length ∧
      fs.header.fileMetadataTable.offset = headerSize + fs.header.directoryHashTable.length +
        fs.header.directoryMetadataTable.length + fs.header.fileHashTable.length ∧
      fs.header.fileDataOffset = alignUp fs.headerEnd 16 := by
  have hend := (@le_alignUp fs.headerEnd 16 (by decide)).trans_lt h
  have hsum := hend
  simp only [headerEnd] at hsum
  have hfirst : add32 headerSize fs.header.directoryHashTable.length =
      headerSize + fs.header.directoryHashTable.length := add32_of_lt (by omega)
  have hsecond : add32 (headerSize + fs.header.directoryHashTable.length)
      fs.header.directoryMetadataTable.length = headerSize + fs.header.directoryHashTable.length +
        fs.header.directoryMetadataTable.length := add32_of_lt (by omega)
  have hthird : add32 (headerSize + fs.header.directoryHashTable.length +
      fs.header.directoryMetadataTable.length) fs.header.fileHashTable.length =
        headerSize + fs.header.directoryHashTable.length +
          fs.header.directoryMetadataTable.length + fs.header.fileHashTable.length :=
    add32_of_lt (by omega)
  have hlast : add32 (headerSize + fs.header.directoryHashTable.length +
      fs.header.directoryMetadataTable.length + fs.header.fileHashTable.length)
        fs.header.fileMetadataTable.length = fs.headerEnd := add32_of_lt (by omega)
  have hoffset₁ : fs.header.directoryMetadataTable.offset = _ := hfirst
  have hoffset₂ : fs.header.fileHashTable.offset = _ := (congrArg₂ add32 hoffset₁ rfl).trans hsecond
  have hoffset₃ : fs.header.fileMetadataTable.offset = _ :=
    (congrArg₂ add32 hoffset₂ rfl).trans hthird
  have hoffset₄ : add32 fs.header.fileMetadataTable.offset fs.header.fileMetadataTable.length =
      fs.headerEnd := by rw [hoffset₃, hlast]
  refine ⟨rfl, hoffset₁, hoffset₂, hoffset₃, ?_⟩
  calc
    fs.header.fileDataOffset
      = alignUp (add32 fs.header.fileMetadataTable.offset fs.header.fileMetadataTable.length) 16 %
          2 ^ 32 := rfl
    _ = alignUp fs.headerEnd 16 := by rw [hoffset₄, Nat.mod_eq_of_lt h]

theorem writeMetadata_eq (hempty : fs.metadata = []) (h : alignUp fs.headerEnd 16 < 2 ^ 32) :
    fs.writeMetadata = .ok { fs with
      metadata := fs.metadataParts ++
        List.replicate (alignUp fs.headerEnd 16 - fs.metadataParts.length) 0 } := by
  obtain ⟨ho₁, ho₂, ho₃, ho₄, hdata⟩ := header_offsets h
  have hroom := @le_alignUp fs.headerEnd 16 (by decide)
  generalize alignUp fs.headerEnd 16 = size at *
  simp only [headerEnd] at hroom
  have h₀ := @memcpy_behind [] fs.header.bytes size 0 0 rfl
    (by simp; omega)
  have h₁ := @memcpy_behind ([] ++ fs.header.bytes) fs.directoryHashPart size
    fs.header.directoryHashTable.offset 0 (by simp [ho₁]) (by simp; omega)
  have h₂ := @memcpy_behind ([] ++ fs.header.bytes ++ fs.directoryHashPart) fs.directoryPart
    size fs.header.directoryMetadataTable.offset 0 (by simp [ho₂])
    (by simp; omega)
  have h₃ := @memcpy_behind ([] ++ fs.header.bytes ++ fs.directoryHashPart ++ fs.directoryPart)
    fs.fileHashPart size fs.header.fileHashTable.offset 0
    (by simp [ho₃]; omega) (by simp; omega)
  have h₄ := @memcpy_behind
    ([] ++ fs.header.bytes ++ fs.directoryHashPart ++ fs.directoryPart ++ fs.fileHashPart)
    fs.filePart size fs.header.fileMetadataTable.offset 0
    (by simp [ho₄]; omega) (by simp; omega)
  have hwrite : fs.writeMetadata = (do
      let metadata ← memcpy (resized fs.metadata fs.header.fileDataOffset 0) 0 fs.header.bytes
      let metadata ← memcpy metadata fs.header.directoryHashTable.offset fs.directoryHashPart
      let metadata ← memcpy metadata fs.header.directoryMetadataTable.offset fs.directoryPart
      let metadata ← memcpy metadata fs.header.fileHashTable.offset fs.fileHashPart
      let metadata ← memcpy metadata fs.header.fileMetadataTable.offset fs.filePart
      return { fs with metadata }) := rfl
  rw [hwrite, hempty, hdata, resized, List.take_nil, h₀, ok_bind, h₁, ok_bind, h₂, ok_bind, h₃,
    ok_bind, h₄, ok_bind]
  rfl

end Parts

end LayeredFS

/-! ## Reading the tables -/

/-- The tables of an image, as a guest finds them through the header. -/
structure RomFSTables where
  directoryHashTable : List UInt8
  directoryMetadataTable : List UInt8
  fileHashTable : List UInt8
  fileMetadataTable : List UInt8

/-- The table that the descriptor at `i` describes. -/
def readDescriptor (image : List UInt8) (i : Nat) : Option (List UInt8) := do
  slice image (← numberAt 4 image i) (← numberAt 4 image (i + 4))

def readTables (image : List UInt8) : Option RomFSTables := do
  return {
    directoryHashTable := ← readDescriptor image 0x4
    directoryMetadataTable := ← readDescriptor image 0xC
    fileHashTable := ← readDescriptor image 0x14
    fileMetadataTable := ← readDescriptor image 0x1C }

/-- The characters of a name. -/
def decodeName : List UInt8 → List UInt16
  | a :: b :: rest => UInt16.ofNat (ofBytes [a, b]) :: decodeName rest
  | _ => []

namespace RomFSTables

/-- The directory at an offset, and its name. -/
def directory (t : RomFSTables) (o : Nat) : Option (DirectoryMetadata × List UInt16) := do
  let metadata : DirectoryMetadata := {
    parentDirectoryOffset := ← numberAt 4 t.directoryMetadataTable o
    nextSiblingOffset := ← numberAt 4 t.directoryMetadataTable (o + 0x4)
    firstChildDirectoryOffset := ← numberAt 4 t.directoryMetadataTable (o + 0x8)
    firstFileOffset := ← numberAt 4 t.directoryMetadataTable (o + 0xC)
    hashBucketNext := ← numberAt 4 t.directoryMetadataTable (o + 0x10)
    nameLength := ← numberAt 4 t.directoryMetadataTable (o + 0x14) }
  let name ← slice t.directoryMetadataTable (o + directoryMetadataSize) metadata.nameLength
  return (metadata, decodeName name)

/-- The file at an offset, and its name. -/
def file (t : RomFSTables) (o : Nat) : Option (FileMetadata × List UInt16) := do
  let metadata : FileMetadata := {
    parentDirectoryOffset := ← numberAt 4 t.fileMetadataTable o
    nextSiblingOffset := ← numberAt 4 t.fileMetadataTable (o + 0x4)
    fileDataOffset := ← numberAt 8 t.fileMetadataTable (o + 0x8)
    fileDataLength := ← numberAt 8 t.fileMetadataTable (o + 0x10)
    hashBucketNext := ← numberAt 4 t.fileMetadataTable (o + 0x18)
    nameLength := ← numberAt 4 t.fileMetadataTable (o + 0x1C) }
  let name ← slice t.fileMetadataTable (o + fileMetadataSize) metadata.nameLength
  return (metadata, decodeName name)

/-- The head of a directory bucket. -/
def directoryBucket (t : RomFSTables) (b : Nat) : Option Nat := numberAt 4 t.directoryHashTable (b * 4)

/-- The head of a file bucket. -/
def fileBucket (t : RomFSTables) (b : Nat) : Option Nat := numberAt 4 t.fileHashTable (b * 4)

end RomFSTables

/-- All fields fit into what they are written to. -/
structure DirectoryMetadata.Fits (m : DirectoryMetadata) : Prop where
  parent : m.parentDirectoryOffset < 256 ^ 4
  sibling : m.nextSiblingOffset < 256 ^ 4
  child : m.firstChildDirectoryOffset < 256 ^ 4
  file : m.firstFileOffset < 256 ^ 4
  next : m.hashBucketNext < 256 ^ 4
  name : m.nameLength < 256 ^ 4

/-- All fields fit into what they are written to. -/
structure FileMetadata.Fits (m : FileMetadata) : Prop where
  parent : m.parentDirectoryOffset < 256 ^ 4
  sibling : m.nextSiblingOffset < 256 ^ 4
  data : m.fileDataOffset < 256 ^ 8
  length : m.fileDataLength < 256 ^ 8
  next : m.hashBucketNext < 256 ^ 4
  name : m.nameLength < 256 ^ 4

theorem decodeName_flatMap (u16name : List UInt16) :
    decodeName (u16name.flatMap fun c => toBytes 2 c.toNat) = u16name := by
  induction u16name with
  | nil => rfl
  | cons c rest ih =>
      have hchar : UInt16.ofNat (ofBytes (toBytes 2 c.toNat)) = c := by
        have hc : c.toNat < 256 ^ 2 := c.toNat_lt
        rw [ofBytes_toBytes, Nat.mod_eq_of_lt hc, UInt16.ofNat_toNat]
      simp only [toBytes] at hchar ih ⊢
      simp only [List.flatMap_cons, List.cons_append, List.nil_append, decodeName, hchar, ih]

theorem slice_nameBytes (front rest : List UInt8) (u16name : List UInt16) :
    slice (front ++ (nameBytes u16name ++ rest)) front.length (u16name.length * 2) =
      some (u16name.flatMap fun c => toBytes 2 c.toNat) := by
  have hlength : u16name.length * 2 = (u16name.flatMap fun c => toBytes 2 c.toNat).length := by
    simp [List.length_flatMap]
  have hslice := slice_append_length front (u16name.flatMap fun c => toBytes 2 c.toNat)
    (List.replicate (alignUp (u16name.length * 2) 4 - u16name.length * 2) 0 ++ rest)
  rw [← hlength] at hslice
  simpa [nameBytes, List.append_assoc] using hslice

variable {t : RomFSTables} {front rest : List UInt8} {u16name : List UInt16}

theorem directory_of_record {m : DirectoryMetadata} (hm : m.Fits)
    (hname : m.nameLength = u16name.length * 2)
    (ht : t.directoryMetadataTable = front ++ (m.bytes ++ nameBytes u16name ++ rest)) :
    t.directory front.length = some (m, u16name) := by
  have hslice := slice_nameBytes (front ++ m.bytes) rest u16name
  rw [List.length_append, DirectoryMetadata.length_bytes, ← hname, List.append_assoc,
    ← List.append_assoc m.bytes, ← ht] at hslice
  have hbytes : t.directoryMetadataTable = front ++ (toBytes 4 m.parentDirectoryOffset ++
      (toBytes 4 m.nextSiblingOffset ++ (toBytes 4 m.firstChildDirectoryOffset ++
        (toBytes 4 m.firstFileOffset ++ (toBytes 4 m.hashBucketNext ++
          (toBytes 4 m.nameLength ++ (nameBytes u16name ++ rest))))))) := by
    rw [ht]
    simp [DirectoryMetadata.bytes]
  rw [hbytes] at hslice
  simp [RomFSTables.directory, hbytes, hslice, numberAt_append, numberAt_append_start,
    numberAt_skip, numberAt_toBytes hm.parent, numberAt_toBytes hm.sibling,
    numberAt_toBytes hm.child, numberAt_toBytes hm.file, numberAt_toBytes hm.next,
    numberAt_toBytes hm.name, decodeName_flatMap]

theorem file_of_record {m : FileMetadata} (hm : m.Fits)
    (hname : m.nameLength = u16name.length * 2)
    (ht : t.fileMetadataTable = front ++ (m.bytes ++ nameBytes u16name ++ rest)) :
    t.file front.length = some (m, u16name) := by
  have hslice := slice_nameBytes (front ++ m.bytes) rest u16name
  rw [List.length_append, FileMetadata.length_bytes, ← hname, List.append_assoc,
    ← List.append_assoc m.bytes, ← ht] at hslice
  have hbytes : t.fileMetadataTable = front ++ (toBytes 4 m.parentDirectoryOffset ++
      (toBytes 4 m.nextSiblingOffset ++ (toBytes 8 m.fileDataOffset ++
        (toBytes 8 m.fileDataLength ++ (toBytes 4 m.hashBucketNext ++
          (toBytes 4 m.nameLength ++ (nameBytes u16name ++ rest))))))) := by
    rw [ht]
    simp [FileMetadata.bytes]
  rw [hbytes] at hslice
  simp [RomFSTables.file, hbytes, hslice, numberAt_append, numberAt_append_start, numberAt_skip,
    numberAt_toBytes hm.parent, numberAt_toBytes hm.sibling, numberAt_toBytes hm.data,
    numberAt_toBytes hm.length, numberAt_toBytes hm.next, numberAt_toBytes hm.name,
    decodeName_flatMap]

namespace LayeredFS

variable {fs : LayeredFS}

theorem numberAt_hashTableBytes {table : List Nat} {b n : Nat} (hn : n < 256 ^ 4)
    (h : table[b]? = some n) : numberAt 4 (hashTableBytes table) (b * 4) = some n := by
  induction table generalizing b with
  | nil => simp at h
  | cons x table ih =>
      rw [hashTableBytes, List.flatMap_cons]
      cases b with
      | zero =>
          obtain rfl : x = n := by simpa using h
          rw [Nat.zero_mul]
          exact numberAt_toBytes hn
      | succ b =>
          rw [numberAt_skip (by omega), Nat.succ_mul, Nat.add_sub_cancel]
          exact ih (by simpa using h)

theorem readDescriptor_eq {image pre post front data rest : List UInt8} {d : Descriptor} {i : Nat}
    (himage : image = pre ++ (d.bytes ++ post)) (hi : i = pre.length)
    (htable : image = front ++ data ++ rest) (hoffset : d.offset = front.length)
    (hlength : d.length = data.length) (hsmall : front.length + data.length < 2 ^ 32) :
    readDescriptor image i = some data := by
  have hbytes : image = pre ++ (toBytes 4 d.offset ++ (toBytes 4 d.length ++ post)) := by
    rw [himage, Descriptor.bytes, List.append_assoc]
  have hslice : slice image d.offset d.length = some data := by
    rw [htable, hoffset, hlength, slice_append_length]
  have ho : d.offset < 256 ^ 4 := by
    rw [hoffset]
    exact (Nat.le_add_right _ _).trans_lt hsmall
  have hl : d.length < 256 ^ 4 := by
    rw [hlength]
    exact (Nat.le_add_left _ _).trans_lt hsmall
  have hfirst : numberAt 4 image i = some d.offset := by
    rw [hbytes, hi, numberAt_append_start, numberAt_toBytes ho]
  have hsecond : numberAt 4 image (i + 4) = some d.length := by
    rw [hbytes, hi, numberAt_append, numberAt_skip le_rfl, Nat.sub_self, numberAt_toBytes hl]
  simp [readDescriptor, hfirst, hsecond, hslice]

/-- The header leads to the tables. -/
theorem readTables_metadataParts (h : alignUp fs.headerEnd 16 < 2 ^ 32) (rest : List UInt8) :
    readTables (fs.metadataParts ++ rest) =
      some ⟨fs.directoryHashPart, fs.directoryPart, fs.fileHashPart, fs.filePart⟩ := by
  obtain ⟨ho₁, ho₂, ho₃, ho₄, -⟩ := header_offsets h
  have hend := (@le_alignUp fs.headerEnd 16 (by decide)).trans_lt h
  simp only [headerEnd] at hend
  have hfirst : readDescriptor (fs.metadataParts ++ rest) 0x4 = some fs.directoryHashPart :=
    @readDescriptor_eq _ (toBytes 4 fs.header.headerLength) _ fs.header.bytes _ _
      fs.header.directoryHashTable _ (by simp [metadataParts, RomFSHeader.bytes]; rfl) rfl
      (by simp [metadataParts]; rfl) (by simp [ho₁]) (by simp) (by simp; omega)
  have hsecond : readDescriptor (fs.metadataParts ++ rest) 0xC = some fs.directoryPart :=
    @readDescriptor_eq _ (toBytes 4 fs.header.headerLength ++ fs.header.directoryHashTable.bytes)
      _ (fs.header.bytes ++ fs.directoryHashPart) _ _ fs.header.directoryMetadataTable _
      (by simp [metadataParts, RomFSHeader.bytes]; rfl) (by simp [Descriptor.bytes])
      (by simp [metadataParts]; rfl) (by simp [ho₂]) (by simp) (by simp; omega)
  have hthird : readDescriptor (fs.metadataParts ++ rest) 0x14 = some fs.fileHashPart :=
    @readDescriptor_eq _ (toBytes 4 fs.header.headerLength ++ fs.header.directoryHashTable.bytes ++
        fs.header.directoryMetadataTable.bytes)
      _ (fs.header.bytes ++ fs.directoryHashPart ++ fs.directoryPart) _ _ fs.header.fileHashTable _
      (by simp [metadataParts, RomFSHeader.bytes]; rfl) (by simp [Descriptor.bytes])
      (by simp [metadataParts]; rfl) (by simp [ho₃]; omega) (by simp) (by simp; omega)
  have hfourth : readDescriptor (fs.metadataParts ++ rest) 0x1C = some fs.filePart :=
    @readDescriptor_eq _ (toBytes 4 fs.header.headerLength ++ fs.header.directoryHashTable.bytes ++
        fs.header.directoryMetadataTable.bytes ++ fs.header.fileHashTable.bytes)
      _ (fs.header.bytes ++ fs.directoryHashPart ++ fs.directoryPart ++ fs.fileHashPart) _ _
      fs.header.fileMetadataTable _ (by simp [metadataParts, RomFSHeader.bytes]; rfl)
      (by simp [Descriptor.bytes]) (by simp [metadataParts]; rfl) (by simp [ho₄]; omega) (by simp)
      (by simp; omega)
  simp [readTables, hfirst, hsecond, hthird, hfourth]

end LayeredFS

end Cytrus.FileSys
