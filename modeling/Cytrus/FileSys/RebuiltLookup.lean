import Cytrus.FileSys.RebuiltWalk

/-!
# Looking names up in a rebuilt image

A name is looked up in the bucket that its hash and the offset of its parent
select. The buckets are chained through the metadata tables.

## Main results

* `lookup_finds`: in metadata that has 32-bit offsets, each bucket leads to the
  entries whose hash selects it
* `lookup_misses`: longer metadata has chains that lead elsewhere
-/

namespace Cytrus.FileSys

open Support LayeredFS

/-- A hash table with the chains behind it. -/
structure HashView where
  buckets : Nat
  bucket : Nat → Option Nat
  next : Nat → Option Nat
  hash : Nat → Option Nat

/-- The directories of an image, by hash. -/
def RomFSTables.directories (t : RomFSTables) : HashView where
  buckets := t.directoryHashTable.length / 4
  bucket := t.directoryBucket
  next o := (t.directory o).map fun e => e.1.hashBucketNext
  hash o := (t.directory o).map fun e => calcHash e.2 e.1.parentDirectoryOffset

/-- The files of an image, by hash. -/
def RomFSTables.files (t : RomFSTables) : HashView where
  buckets := t.fileHashTable.length / 4
  bucket := t.fileBucket
  next o := (t.file o).map fun e => e.1.hashBucketNext
  hash o := (t.file o).map fun e => calcHash e.2 e.1.parentDirectoryOffset

namespace HashView

variable (v : HashView)

/-- Following the chain of the bucket of a hash leads to an offset. -/
def Finds (hash offset : Nat) : Prop :=
  ∃ head l, v.bucket (hash % v.buckets) = some head ∧ Chain invalidOffset v.next head l ∧ offset ∈ l

/-- Every bucket leads through entries that it is selected for, none of them twice. -/
def Sound : Prop :=
  ∀ b < v.buckets, ∃ head l, v.bucket b = some head ∧ Chain invalidOffset v.next head l ∧
    l.Nodup ∧ ∀ o ∈ l, ∃ hash, v.hash o = some hash ∧ hash % v.buckets = b

variable {v} {entries : List TableEntry}

/-- The chains of a table that holds some entries. -/
structure Holds (v : HashView) (entries : List TableEntry) : Prop where
  linked : Linked TableEntry.offset (TableEntry.bucket v.buckets) invalidOffset v.next entries
  bucket : ∀ b < v.buckets, v.bucket b = some (TableEntry.head v.buckets entries b)
  hash : ∀ e ∈ entries, v.hash e.offset = some e.hash
  nodup : (entries.map TableEntry.offset).Nodup
  buckets_pos : 0 < v.buckets

theorem Holds.chain (h : v.Holds entries) (b : Nat) :
    Chain invalidOffset v.next (TableEntry.head v.buckets entries b)
      ((entries.filter fun e => e.bucket v.buckets = b).map TableEntry.offset).reverse :=
  h.linked.chain b entries [] (List.append_nil _).symm

theorem Holds.finds (h : v.Holds entries) {e : TableEntry} (he : e ∈ entries) :
    v.Finds e.hash e.offset := by
  refine ⟨_, _, h.bucket _ (Nat.mod_lt _ h.buckets_pos), h.chain _, ?_⟩
  rw [List.mem_reverse]
  exact List.mem_map_of_mem (List.mem_filter.mpr ⟨he, decide_eq_true rfl⟩)

theorem Holds.sound (h : v.Holds entries) : v.Sound := by
  intro b hb
  refine ⟨_, _, h.bucket b hb, h.chain b, ?_, fun o ho => ?_⟩
  · exact List.nodup_reverse.mpr (h.nodup.sublist (List.filter_sublist.map _))
  · rw [List.mem_reverse] at ho
    obtain ⟨e, he, rfl⟩ := List.mem_map.mp ho
    obtain ⟨hmem, hbucket⟩ := List.mem_filter.mp he
    exact ⟨e.hash, h.hash e hmem, of_decide_eq_true hbucket⟩

end HashView

namespace LayeredFS

/-- After a rebuild, all entries are found by their hash, and all chains are sound. -/
def LookupFinds (toU16 : Chars → List UInt16) (root : Directory) : Prop :=
  ∀ fs, rebuildMetadata toU16 { root := root } = .ok fs →
    ∃ t, readTables fs.metadata = some t ∧ t.directories.Sound ∧ t.files.Sound ∧
      (∀ r ∈ fs.directoryList, ∀ o p, fs.directoryMetadataOffsetMap r.address = some o →
        fs.directoryMetadataOffsetMap r.parent.address = some p →
          t.directories.Finds (calcHash (toU16 r.directory.name) p) o) ∧
      ∀ r ∈ fs.fileList, ∀ o p, fs.fileMetadataOffsetMap r.address = some o →
        fs.directoryMetadataOffsetMap r.parent.address = some p →
          t.files.Finds (calcHash (toU16 r.file.name) p) o

variable {toU16 : Chars → List UInt16} {tree : RomFSTree}

theorem buckets_directories :
    (rebuiltTables toU16 tree.root).directories.buckets = directoryBuckets tree.root := by
  have hlength : (rebuiltTables toU16 tree.root).directoryHashTable.length =
      directoryBuckets tree.root * 4 :=
    (length_hashTableBytes _).trans (congrArg (· * 4) length_chainHeads)
  rw [RomFSTables.directories, hlength, Nat.mul_div_cancel _ (by decide)]

theorem buckets_files :
    (rebuiltTables toU16 tree.root).files.buckets = fileBuckets tree.root := by
  have hlength : (rebuiltTables toU16 tree.root).fileHashTable.length =
      fileBuckets tree.root * 4 :=
    (length_hashTableBytes _).trans (congrArg (· * 4) length_chainHeads)
  rw [RomFSTables.files, hlength, Nat.mul_div_cancel _ (by decide)]

theorem directoryOffset_lt (d : Directory) : directoryOffset toU16 tree.root d < 256 ^ 4 :=
  linkTo_lt (fun _ _ => directoryOffsets_lt) _

theorem holds_directories (hfits : MetadataFits toU16 tree.root) :
    (rebuiltTables toU16 tree.root).directories.Holds (directoryEntries toU16 tree.root) where
  linked := by
    intro pre e post hentries
    rw [directoryEntries] at hentries
    obtain ⟨before, behind, hlist, rfl, htail⟩ := List.map_eq_append_iff.mp hentries
    obtain ⟨r, rest, rfl, rfl, -⟩ := List.map_eq_cons_iff.mp htail
    have hentry := directory_entry hfits hlist
    rw [buckets_directories]
    change ((rebuiltTables toU16 tree.root).directory
      (directoryOffset toU16 tree.root r.directory)).map _ = _
    rw [hentry]
    rfl
  bucket := by
    intro b hb
    rw [buckets_directories] at hb ⊢
    refine numberAt_hashTableBytes (head_lt fun e he => ?_) (chainHeads_getElem? hb)
    obtain ⟨r, -, rfl⟩ := List.mem_map.mp he
    exact directoryOffset_lt r.directory
  hash := by
    intro e he
    obtain ⟨r, hr, rfl⟩ := List.mem_map.mp he
    obtain ⟨pre, post, hlist⟩ := List.append_of_mem hr
    change ((rebuiltTables toU16 tree.root).directory
      (directoryOffset toU16 tree.root r.directory)).map _ = _
    rw [directory_entry hfits hlist]
    rfl
  nodup := by
    have hsorted : ((allDirectories tree.root).map fun r =>
        directoryOffset toU16 tree.root r.directory).Pairwise (· < ·) :=
      starts_sorted (fun _ => Nat.lt_of_lt_of_le (by decide) (Nat.le_add_right _ _))
        fun _ _ _ hsplit => directoryOffset_eq hfits hsplit
    rw [directoryEntries, List.map_map]
    exact hsorted.imp fun h => h.ne
  buckets_pos := by
    rw [buckets_directories]
    exact directoryBuckets_pos _

theorem fileEntries_eq_append {fs : LayeredFS} {l : List FileRef} {pre post : List TableEntry}
    {e : TableEntry} {start : Nat} (h : fileEntries toU16 fs start l = pre ++ e :: post) :
    ∃ before r behind, l = before ++ r :: behind ∧ pre = fileEntries toU16 fs start before ∧
      e = fileTableEntry toU16 fs (start + dataOffset before) r := by
  induction l generalizing pre start with
  | nil => simp [fileEntries] at h
  | cons x l ih =>
      rw [fileEntries] at h
      cases pre with
      | nil =>
          obtain ⟨rfl, -⟩ := List.cons.inj h
          exact ⟨[], x, l, rfl, rfl, rfl⟩
      | cons y pre =>
          obtain ⟨rfl, hrest⟩ := List.cons.inj h
          obtain ⟨before, r, behind, rfl, rfl, rfl⟩ := ih hrest
          exact ⟨x :: before, r, behind, rfl, rfl, by simp [dataOffset, Nat.add_assoc]⟩

theorem holds_files (hfits : MetadataFits toU16 tree.root) :
    (rebuiltTables toU16 tree.root).files.Holds (allFileEntries toU16 tree.root) where
  linked := by
    intro pre e post hentries
    obtain ⟨before, r, behind, hlist, rfl, rfl⟩ := fileEntries_eq_append hentries
    have hentry := file_entry hfits hlist
    rw [buckets_files]
    change ((rebuiltTables toU16 tree.root).file (fileOffset toU16 tree.root r.file)).map _ = _
    rw [hentry, Nat.zero_add]
    rfl
  bucket := by
    intro b hb
    rw [buckets_files] at hb ⊢
    refine numberAt_hashTableBytes (head_lt fun e he => ?_) (chainHeads_getElem? hb)
    obtain ⟨r, -, o, rfl⟩ := mem_fileEntries he
    exact linkTo_lt (fun _ _ => fileOffsets_lt) _
  hash := by
    intro e he
    obtain ⟨r, hr, o, rfl⟩ := mem_fileEntries he
    obtain ⟨pre, post, hlist⟩ := List.append_of_mem hr
    change ((rebuiltTables toU16 tree.root).file (fileOffset toU16 tree.root r.file)).map _ = _
    rw [file_entry hfits hlist]
    rfl
  nodup := by
    have hsorted : ((keptFiles tree.root).map fun r =>
        fileOffset toU16 tree.root r.file).Pairwise (· < ·) :=
      starts_sorted (fun _ => Nat.lt_of_lt_of_le (by decide) (Nat.le_add_right _ _))
        fun _ _ _ hsplit => fileOffset_eq hfits hsplit
    have hoffsets : ∀ (l : List FileRef) (start : Nat),
        (fileEntries toU16 (listed toU16 tree.root) start l).map TableEntry.offset =
          l.map fun r => fileOffset toU16 tree.root r.file := by
      intro l
      induction l with
      | nil => exact fun _ => rfl
      | cons r l ih =>
          intro start
          rw [fileEntries, List.map_cons, ih]
          rfl
    rw [allFileEntries, hoffsets]
    exact hsorted.imp fun h => h.ne
  buckets_pos := by
    rw [buckets_files]
    exact fileBuckets_pos _

/-- After a rebuild of a tree whose metadata has 32-bit offsets, every name is found. -/
theorem lookup_finds (toU16 : Chars → List UInt16) (tree : RomFSTree)
    (hfits : MetadataFits toU16 tree.root) : LookupFinds toU16 tree.root := by
  intro fs hfs
  obtain ⟨hok, htables⟩ := rebuilt_tables (firstFilesKept_of_rebuild tree hfs) hfits
  obtain rfl := Except.ok.inj (hfs.symm.trans hok)
  obtain ⟨offset, map, hmaps⟩ := @withFiles_eq toU16 tree.root
  have hdirectories := holds_directories hfits
  have hfiles := holds_files hfits
  have hlinked : ∀ {m : OffsetMap} {a o : Nat}, m a = some o → linkTo m (some a) = o := by
    intro m a o ho
    simp [linkTo, ho]
  refine ⟨_, htables, hdirectories.sound, hfiles.sound, ?_, ?_⟩
  · intro r hr o p ho hp
    simp only [rebuilt, hmaps] at hr ho hp
    have ho : (listed toU16 tree.root).directoryMetadataOffsetMap r.address = some o := ho
    have hp : (listed toU16 tree.root).directoryMetadataOffsetMap r.parent.address = some p := hp
    have hfind := hdirectories.finds (List.mem_map_of_mem hr)
    simp only [directoryTableEntry] at hfind
    rwa [hlinked ho, hlinked hp] at hfind
  · intro r hr o p ho hp
    simp only [rebuilt, hmaps] at hr ho hp
    have ho : (listed toU16 tree.root).fileMetadataOffsetMap r.address = some o := ho
    have hp : (listed toU16 tree.root).directoryMetadataOffsetMap r.parent.address = some p := hp
    obtain ⟨pre, post, hlist⟩ := List.append_of_mem (show r ∈ keptFiles tree.root from hr)
    have hmem : fileTableEntry toU16 (listed toU16 tree.root) (0 + dataOffset pre) r ∈
        allFileEntries toU16 tree.root := by
      rw [allFileEntries, hlist, fileEntries_split]
      exact List.mem_append_right _ List.mem_cons_self
    have hfind := hfiles.finds hmem
    simp only [fileTableEntry] at hfind
    rwa [hlinked ho, hlinked hp] at hfind

/-- Two files and a directory of the same name. -/
def sameNames : RomFSTree where
  root := ⟨0, [], [⟨0, ['a'.toUInt8], {}⟩, ⟨1, ['b'.toUInt8], {}⟩],
    [⟨1, ['a'.toUInt8], [⟨2, ['a'.toUInt8], {}⟩], []⟩]⟩
  directories_nodup := by decide
  files_nodup := by decide

theorem lookup_finds_sameNames : LookupFinds asciiToU16 sameNames.root :=
  lookup_finds asciiToU16 sameNames (by decide)

/-! ### Longer metadata -/

/-- A name of `n` characters. -/
def longName (n : Nat) : Chars := List.replicate n 0

/-- Two directories with long names, and a third one behind them. -/
def longRoot (n : Nat) : Directory :=
  ⟨0, [], [], [⟨1, longName n, [], []⟩, ⟨2, longName n, [], []⟩, ⟨3, ['a'.toUInt8], [], []⟩]⟩

section Long

variable {n : Nat}

/-- A directory below `longRoot n`. -/
def longRef (n address : Nat) (name : Chars) : DirectoryRef := ⟨⟨address, name, [], []⟩, longRoot n⟩

theorem allDirectories_longRoot : allDirectories (longRoot n) =
    [⟨longRoot n, longRoot n⟩, longRef n 1 (longName n), longRef n 2 (longName n),
      longRef n 3 ['a'.toUInt8]] := rfl

theorem getNameSize_longName (hn : n * 4 = 2 ^ 32) :
    getNameSize asciiToU16 (longName n) = n * 2 := by
  rw [getNameSize, asciiToU16, List.length_map, longName, List.length_replicate, alignUp,
    if_pos (by omega)]

theorem directorySize_longName (hn : n * 4 = 2 ^ 32) (address : Nat) :
    directorySize asciiToU16 (longRef n address (longName n)) = n * 2 + 24 := by
  rw [directorySize, longRef, getNameSize_longName hn, directoryMetadataSize, Nat.add_comm]

theorem directoryOffsets_longRoot (hn : n * 4 = 2 ^ 32) :
    directoryOffsets asciiToU16 (longRoot n) 3 = some 72 := by
  have hroot : directorySize asciiToU16 ⟨longRoot n, longRoot n⟩ = 24 := rfl
  have hnew : DirectoryRef.address (longRef n 3 ['a'.toUInt8]) ∉
      [⟨longRoot n, longRoot n⟩, longRef n 1 (longName n), longRef n 2 (longName n)].map
        DirectoryRef.address := show 3 ∉ [0, 1, 2] by decide
  have hstart := packedStart_split (directorySize asciiToU16) [] hnew
  simp only [totalSize_cons, totalSize_nil, hroot, directorySize_longName hn] at hstart
  have hwraps : (24 + (n * 2 + 24 + (n * 2 + 24 + 0))) % 2 ^ 32 = 72 := by omega
  calc
    directoryOffsets asciiToU16 (longRoot n) 3
      = (packedStart (directorySize asciiToU16) DirectoryRef.address
          ([⟨longRoot n, longRoot n⟩, longRef n 1 (longName n), longRef n 2 (longName n)] ++
            [longRef n 3 ['a'.toUInt8]]) (longRef n 3 ['a'.toUInt8]).address).map (· % 2 ^ 32) := rfl
    _ = some 72 := by rw [hstart, Option.map_some, hwraps]

theorem head_longRoot (hn : n * 4 = 2 ^ 32) :
    TableEntry.head 5 (directoryEntries asciiToU16 (longRoot n)) 2 = 72 := by
  have hentries : directoryEntries asciiToU16 (longRoot n) =
      [⟨longRoot n, longRoot n⟩, longRef n 1 (longName n), longRef n 2 (longName n)].map
        (directoryTableEntry asciiToU16 (listed asciiToU16 (longRoot n))) ++
          [directoryTableEntry asciiToU16 (listed asciiToU16 (longRoot n))
            (longRef n 3 ['a'.toUInt8])] := rfl
  have hoffset : (directoryTableEntry asciiToU16 (listed asciiToU16 (longRoot n))
      (longRef n 3 ['a'.toUInt8])).offset = 72 :=
    congrArg (Option.getD · invalidOffset) (directoryOffsets_longRoot hn)
  have hroot : directoryOffsets asciiToU16 (longRoot n) 0 = some 0 := rfl
  have hbucket : TableEntry.bucket 5 (directoryTableEntry asciiToU16
      (listed asciiToU16 (longRoot n)) (longRef n 3 ['a'.toUInt8])) = 2 := by
    have hparent : linkTo (listed asciiToU16 (longRoot n)).directoryMetadataOffsetMap (some 0) = 0 :=
      congrArg (Option.getD · invalidOffset) hroot
    change calcHash [97] (linkTo (listed asciiToU16 (longRoot n)).directoryMetadataOffsetMap
      (some 0)) % 5 = 2
    rw [hparent]
    decide
  rw [hentries, TableEntry.head, chainHead_snoc, if_pos hbucket, hoffset]

theorem flatMap_zeros (n : Nat) : (List.replicate n (0 : UInt16)).flatMap
    (fun c => toBytes 2 c.toNat) = List.replicate (n * 2) 0 := by
  induction n with
  | zero => rfl
  | succ n ih =>
      rw [List.replicate_succ, List.flatMap_cons, ih, Nat.succ_mul, Nat.add_comm,
        List.replicate_add]
      rfl

theorem buckets_longRoot : directoryBuckets (longRoot n) = 5 ∧ fileBuckets (longRoot n) = 3 := by
  have hkept : keptFiles (longRoot n) = [] := rfl
  rw [directoryBuckets, fileBuckets, allDirectories_longRoot, hkept]
  exact ⟨show getHashTableSize 4 = 5 by decide, show getHashTableSize 0 = 3 by decide⟩

theorem header_longRoot (hn : n * 4 = 2 ^ 32) :
    (withFiles asciiToU16 (longRoot n)).header.directoryHashTable.length = 20 ∧
      (withFiles asciiToU16 (longRoot n)).header.directoryMetadataTable.length = 100 ∧
      (withFiles asciiToU16 (longRoot n)).headerEnd = 172 := by
  have htotal : totalSize (directorySize asciiToU16) (allDirectories (longRoot n)) =
      n * 4 + 100 := by
    have hroot : directorySize asciiToU16 ⟨longRoot n, longRoot n⟩ = 24 := rfl
    have hlast : directorySize asciiToU16 (longRef n 3 ['a'.toUInt8]) = 28 := rfl
    rw [allDirectories_longRoot]
    simp only [totalSize_cons, totalSize_nil, hroot, hlast, directorySize_longName hn]
    omega
  have hwraps : (n * 4 + 100) % 2 ^ 32 = 100 := by omega
  obtain ⟨h₁, h₂, h₃, h₄⟩ := @header_lengths asciiToU16 (longRoot n)
  have hkept : keptFiles (longRoot n) = [] := rfl
  rw [htotal, hwraps] at h₂
  rw [buckets_longRoot.1] at h₁
  rw [buckets_longRoot.2] at h₃
  rw [hkept] at h₄
  refine ⟨h₁, h₂, ?_⟩
  rw [headerEnd, h₁, h₂, h₃, h₄]
  rfl

theorem directoryPart_longRoot (hn : n * 4 = 2 ^ 32) : ∃ front : List UInt8, front.length = 48 ∧
    (withFiles asciiToU16 (longRoot n)).directoryPart = front ++ List.replicate 52 0 := by
  obtain ⟨offset, map, h⟩ := @withFiles_eq asciiToU16 (longRoot n)
  obtain ⟨-, hlength, -⟩ := header_longRoot hn
  have hzeros : nameBytes (asciiToU16 (longName n)) = List.replicate 52 0 ++
      (List.replicate (n * 2 - 52) 0 ++ List.replicate (alignUp (n * 2) 4 - n * 2) 0) := by
    have hu16 : asciiToU16 (longName n) = List.replicate n 0 := by simp [asciiToU16, longName]
    have hsplit : List.replicate (n * 2) (0 : UInt8) =
        List.replicate 52 0 ++ List.replicate (n * 2 - 52) 0 := by
      rw [← List.replicate_add]
      congr 1
      omega
    rw [nameBytes, hu16, flatMap_zeros, List.length_replicate, hsplit, List.append_assoc]
  have hentries : directoryEntries asciiToU16 (longRoot n) =
      [directoryTableEntry asciiToU16 (listed asciiToU16 (longRoot n)) ⟨longRoot n, longRoot n⟩] ++
        directoryTableEntry asciiToU16 (listed asciiToU16 (longRoot n))
          (longRef n 1 (longName n)) ::
        [longRef n 2 (longName n), longRef n 3 ['a'.toUInt8]].map
          (directoryTableEntry asciiToU16 (listed asciiToU16 (longRoot n))) := rfl
  have htable : (withFiles asciiToU16 (longRoot n)).directoryMetadataTable = records
      (TableEntry.record (directoryBuckets (longRoot n))) []
        (directoryEntries asciiToU16 (longRoot n)) := by rw [h]; rfl
  rw [directoryPart, hlength, htable, hentries, records_split, TableEntry.record,
    show (directoryTableEntry asciiToU16 (listed asciiToU16 (longRoot n))
      (longRef n 1 (longName n))).u16name = asciiToU16 (longName n) from rfl, hzeros]
  generalize hfront : records (TableEntry.record (directoryBuckets (longRoot n))) []
    [directoryTableEntry asciiToU16 (listed asciiToU16 (longRoot n)) ⟨longRoot n, longRoot n⟩] =
      front
  generalize hmetadata : (directoryTableEntry asciiToU16 (listed asciiToU16 (longRoot n))
    (longRef n 1 (longName n))).metadata _ = metadata
  have hlengths : (front ++ metadata).length = 48 := by
    rw [List.length_append, ← hfront, ← hmetadata, TableEntry.length_metadata,
      length_records (TableEntry.length_record _)]
    rfl
  refine ⟨front ++ metadata, hlengths, ?_⟩
  simp only [List.append_assoc]
  rw [← List.append_assoc, List.take_append, hlengths, List.take_of_length_le (by omega),
    List.take_append_of_le_length (by simp), List.take_of_length_le (by simp)]
  simp

theorem directory_zeros {t : RomFSTables} {front : List UInt8} (hfront : front.length = 48)
    (ht : t.directoryMetadataTable = front ++ List.replicate 52 0) :
    t.directory 72 = some (⟨0, 0, 0, 0, 0, 0⟩, []) := by
  have hfield : ∀ k, numberAt 4 (List.replicate 52 0) (24 + k) = some 0 →
      numberAt 4 t.directoryMetadataTable (72 + k) = some 0 := by
    intro k hk
    have happend := numberAt_append front (List.replicate 52 0) 4 (24 + k)
    rwa [hfront, ← Nat.add_assoc, ← ht, hk] at happend
  have hname : slice t.directoryMetadataTable (72 + directoryMetadataSize) 0 = some [] := by
    rw [slice_eq_some, ht, List.length_append, hfront]
    exact ⟨by simp [directoryMetadataSize], rfl⟩
  have h₀ : numberAt 4 t.directoryMetadataTable 72 = some 0 := hfield 0 (by decide)
  have h₁ := hfield 0x4 (by decide)
  have h₂ := hfield 0x8 (by decide)
  have h₃ := hfield 0xC (by decide)
  have h₄ := hfield 0x10 (by decide)
  have h₅ := hfield 0x14 (by decide)
  clear hfield ht
  simp only [RomFSTables.directory, h₀, h₁, h₂, h₃, h₄, h₅, hname, Option.bind_eq_bind,
    Option.bind_some]
  rfl

theorem not_lookupFinds_longRoot (hn : n * 4 = 2 ^ 32) :
    ¬LookupFinds asciiToU16 (longRoot n) := by
  intro hfinds
  have hfirst : FirstFilesKept (longRoot n) := by
    intro r hr f hf
    rw [allDirectories_longRoot] at hr
    simp only [List.mem_cons, List.not_mem_nil, or_false] at hr
    rcases hr with rfl | rfl | rfl | rfl <;> cases hf
  obtain ⟨hhash, -, hend⟩ := header_longRoot hn
  have hfits : alignUp (withFiles asciiToU16 (longRoot n)).headerEnd 16 < 2 ^ 32 := by
    rw [hend]
    decide
  obtain ⟨hok, htables⟩ := rebuildMetadata_ok hfirst hfits
  obtain ⟨t, ht, hsound, -⟩ := hfinds _ hok
  obtain rfl := Option.some.inj (htables.symm.trans ht)
  obtain ⟨front, hfront, hpart⟩ := directoryPart_longRoot hn
  generalize htable : RomFSTables.mk (withFiles asciiToU16 (longRoot n)).directoryHashPart
    (withFiles asciiToU16 (longRoot n)).directoryPart
    (withFiles asciiToU16 (longRoot n)).fileHashPart
    (withFiles asciiToU16 (longRoot n)).filePart = t at hsound
  have hbuckets : t.directories.buckets = 5 := by
    rw [← htable, RomFSTables.directories, length_directoryHashPart, hhash]
  have hbucket : t.directories.bucket 2 = some 72 := by
    obtain ⟨offset, map, h⟩ := @withFiles_eq asciiToU16 (longRoot n)
    have hheads : (TableEntry.heads 5 (directoryEntries asciiToU16 (longRoot n)))[2]? = some 72 := by
      rw [chainHeads_getElem? (by decide)]
      exact congrArg some (head_longRoot hn)
    have hhashPart : (withFiles asciiToU16 (longRoot n)).directoryHashPart =
        hashTableBytes (TableEntry.heads 5 (directoryEntries asciiToU16 (longRoot n))) := by
      have hheads : (withFiles asciiToU16 (longRoot n)).directoryHashTable = TableEntry.heads
          (directoryBuckets (longRoot n)) (directoryEntries asciiToU16 (longRoot n)) := by
        rw [h]
        rfl
      rw [directoryHashPart, hhash, hheads, buckets_longRoot.1]
      exact List.take_of_length_le
        ((length_hashTableBytes _).trans (congrArg (· * 4) length_chainHeads)).le
    have hread : t.directoryHashTable =
        hashTableBytes (TableEntry.heads 5 (directoryEntries asciiToU16 (longRoot n))) := by
      rw [← htable, ← hhashPart]
    change t.directoryBucket 2 = _
    rw [RomFSTables.directoryBucket, hread]
    exact numberAt_hashTableBytes (by decide) hheads
  -- the head leads into the zeros of the first long name
  have hentry : t.directory 72 = some (⟨0, 0, 0, 0, 0, 0⟩, []) :=
    directory_zeros hfront (by rw [← htable, hpart])
  obtain ⟨head, l, hhead, hchain, -, hentries⟩ := hsound 2 (by rw [hbuckets]; decide)
  obtain rfl : head = 72 := Option.some.inj (hhead.symm.trans hbucket)
  have hmem : 72 ∈ l := by
    cases hchain
    exact List.mem_cons_self
  obtain ⟨hash, hhash, hselects⟩ := hentries 72 hmem
  have hzero : t.directories.hash 72 = some (calcHash [] 0) := congrArg (Option.map _) hentry
  obtain rfl := Option.some.inj (hhash.symm.trans hzero)
  rw [hbuckets] at hselects
  exact absurd hselects (by decide)

end Long

/-- The tree of `longRoot n`. -/
def longTree (n : Nat) : RomFSTree where
  root := longRoot n
  directories_nodup := show [0, 1, 2, 3].Nodup by decide
  files_nodup := List.nodup_nil

/-- The third directory below a root with two names of `2 ^ 30` characters has the offset `72`, which
lies in the first name. -/
theorem lookup_misses : ¬LookupFinds asciiToU16 (longTree (2 ^ 30)).root :=
  not_lookupFinds_longRoot (by norm_num)

end LayeredFS

end Cytrus.FileSys
