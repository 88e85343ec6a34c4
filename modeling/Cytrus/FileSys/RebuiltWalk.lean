import Cytrus.FileSys.RebuiltTables

/-!
# Walking a rebuilt image

A rebuild whose metadata has 32-bit offsets writes a tree that is found again by
following the links of the tables, unless the first file of a directory is
removed. Then there is no rebuild at all: the link to the first file is looked
up among the files that are kept.

## Main results

* `rebuildMetadata_ok`: the outcome of a rebuild
* `rebuildMetadata_faithful`: when walking the tables yields the tree

## Implementation notes

`Walks` follows the links of one level and goes into each directory on its way.
It is a relation, as links can lead in circles.
-/

namespace Cytrus.FileSys

open Support

/-- A tree whose directories, and whose files, are different objects. -/
structure RomFSTree where
  root : Directory
  directories_nodup : ((LayeredFS.allDirectories root).map DirectoryRef.address).Nodup
  files_nodup : ((LayeredFS.filesBelow root).map FileRef.address).Nodup

/-! ## What a walk finds -/

/-- A file as a walk finds it. -/
structure FileListing where
  name : List UInt16
  size : Nat

/-- A directory as a walk finds it. -/
structure Listing where
  name : List UInt16
  files : List FileListing
  directories : List Listing

section Listings

variable (toU16 : Chars → List UInt16)

/-- The files that are not removed. -/
def fileListings (files : List File) : List FileListing :=
  (files.filter fun file => file.Kept).map fun file =>
    ⟨toU16 file.name, file.relocation.size.toNat⟩

mutual

/-- A directory without its removed files. -/
def Directory.listing : Directory → Listing
  | ⟨_, name, files, directories⟩ =>
      ⟨toU16 name, fileListings toU16 files, Directory.listings directories⟩

def Directory.listings : List Directory → List Listing
  | [] => []
  | d :: rest => Directory.listing d :: Directory.listings rest

end

theorem Directory.listing_eq (d : Directory) : d.listing toU16 =
    ⟨toU16 d.name, fileListings toU16 d.files, Directory.listings toU16 d.directories⟩ := by
  cases d
  rw [Directory.listing]

end Listings

/-- The files that the links lead to from an offset; their parent is the directory at `parent`. -/
inductive WalksFiles (t : RomFSTables) (parent : Nat) : Nat → List FileListing → Prop
  | nil : WalksFiles t parent invalidOffset []
  | cons {o : Nat} {m : FileMetadata} {name : List UInt16} {rest : List FileListing}
      (valid : o ≠ invalidOffset) (entry : t.file o = some (m, name))
      (up : m.parentDirectoryOffset = parent)
      (siblings : WalksFiles t parent m.nextSiblingOffset rest) :
      WalksFiles t parent o (⟨name, m.fileDataLength⟩ :: rest)

/-- The directories that the links lead to from an offset; their parent is the directory at
`parent`. -/
inductive Walks (t : RomFSTables) : Nat → Nat → List Listing → Prop
  | nil {parent : Nat} : Walks t parent invalidOffset []
  | cons {parent o : Nat} {m : DirectoryMetadata} {name : List UInt16}
      {files : List FileListing} {directories rest : List Listing}
      (valid : o ≠ invalidOffset) (entry : t.directory o = some (m, name))
      (up : m.parentDirectoryOffset = parent)
      (inside : WalksFiles t o m.firstFileOffset files)
      (children : Walks t o m.firstChildDirectoryOffset directories)
      (siblings : Walks t parent m.nextSiblingOffset rest) :
      Walks t parent o (⟨name, files, directories⟩ :: rest)

theorem WalksFiles.unique {t : RomFSTables} {parent o : Nat} {l l' : List FileListing}
    (h : WalksFiles t parent o l) (h' : WalksFiles t parent o l') : l = l' := by
  induction h generalizing l' with
  | nil =>
      cases h' with
      | nil => rfl
      | cons valid => exact absurd rfl valid
  | cons valid entry _ _ ih =>
      cases h' with
      | nil => exact absurd rfl valid
      | cons _ entry' _ siblings' =>
          obtain ⟨rfl, rfl⟩ := Prod.mk.inj (Option.some.inj (entry.symm.trans entry'))
          rw [ih siblings']

theorem Walks.unique {t : RomFSTables} {parent o : Nat} {l l' : List Listing}
    (h : Walks t parent o l) (h' : Walks t parent o l') : l = l' := by
  induction h generalizing l' with
  | nil =>
      cases h' with
      | nil => rfl
      | cons valid => exact absurd rfl valid
  | cons valid entry _ inside _ _ ihchildren ihsiblings =>
      cases h' with
      | nil => exact absurd rfl valid
      | cons _ entry' _ inside' children' siblings' =>
          obtain ⟨rfl, rfl⟩ := Prod.mk.inj (Option.some.inj (entry.symm.trans entry'))
          rw [inside.unique inside', ihchildren children', ihsiblings siblings']

namespace LayeredFS

/-! ## The tree and its lists -/

theorem refsBelow_sublist {l : List Directory} {d : Directory} (h : d ∈ l) :
    (refsBelow d).Sublist (refsBelowAll l) := by
  induction l with
  | nil => simp at h
  | cons x l ih =>
      rw [refsBelowAll]
      rcases List.mem_cons.mp h with rfl | h
      · exact List.sublist_append_left _ _
      · exact (ih h).trans (List.sublist_append_right _ _)

theorem filesBelow_sublist {l : List Directory} {d : Directory} (h : d ∈ l) :
    (filesBelow d).Sublist (filesBelowAll l) := by
  induction l with
  | nil => simp at h
  | cons x l ih =>
      rw [filesBelowAll]
      rcases List.mem_cons.mp h with rfl | h
      · exact List.sublist_append_left _ _
      · exact (ih h).trans (List.sublist_append_right _ _)

theorem below_sublist {l : List Directory} {r : DirectoryRef} (h : r ∈ refsBelowAll l) :
    (refsBelow r.directory).Sublist (refsBelowAll l) ∧
      (filesBelow r.directory).Sublist (filesBelowAll l) := by
  induction l using Directory.siblings with
  | nil => simp [refsBelowAll] at h
  | cons d rest hchildren hrest =>
      have hdirs : (refsBelowAll d.directories).Sublist (refsBelowAll (d :: rest)) := by
        rw [refsBelowAll, refsBelow_eq]
        exact (List.sublist_append_right _ _).trans (List.sublist_append_left _ _)
      have hfiles : (filesBelowAll d.directories).Sublist (filesBelowAll (d :: rest)) := by
        rw [filesBelowAll, filesBelow_eq]
        exact (List.sublist_append_right _ _).trans (List.sublist_append_left _ _)
      rw [refsBelowAll, refsBelow_eq, List.mem_append, List.mem_append] at h
      rcases h with (hchild | hbelow) | hsibling
      · obtain ⟨c, hc, rfl⟩ := List.mem_map.mp hchild
        exact ⟨(refsBelow_sublist hc).trans hdirs, (filesBelow_sublist hc).trans hfiles⟩
      · exact ⟨(hchildren hbelow).1.trans hdirs, (hchildren hbelow).2.trans hfiles⟩
      · rw [refsBelowAll, filesBelowAll]
        exact ⟨(hrest hsibling).1.trans (List.sublist_append_right _ _),
          (hrest hsibling).2.trans (List.sublist_append_right _ _)⟩

theorem parent_of_mem {l : List Directory} {r : DirectoryRef} (h : r ∈ refsBelowAll l) :
    r.directory ∈ r.parent.directories ∧
      (r.parent ∈ l ∨ ∃ p ∈ refsBelowAll l, p.directory = r.parent) := by
  induction l using Directory.siblings with
  | nil => simp [refsBelowAll] at h
  | cons d rest hchildren hrest =>
      rw [refsBelowAll, refsBelow_eq, List.mem_append, List.mem_append] at h
      rcases h with (hchild | hbelow) | hsibling
      · obtain ⟨c, hc, rfl⟩ := List.mem_map.mp hchild
        exact ⟨hc, .inl List.mem_cons_self⟩
      · obtain ⟨hmem, hparent⟩ := hchildren hbelow
        refine ⟨hmem, .inr ?_⟩
        rw [refsBelowAll, refsBelow_eq]
        rcases hparent with hparent | ⟨p, hp, heq⟩
        · have hp : ⟨r.parent, d⟩ ∈ directoryRefs d := List.mem_map.mpr ⟨_, hparent, rfl⟩
          exact ⟨⟨r.parent, d⟩, by simp [hp], rfl⟩
        · exact ⟨p, by simp [hp], heq⟩
      · obtain ⟨hmem, hparent⟩ := hrest hsibling
        refine ⟨hmem, ?_⟩
        rcases hparent with hparent | ⟨p, hp, heq⟩
        · exact .inl (List.mem_cons_of_mem d hparent)
        · exact .inr ⟨p, by simp [refsBelowAll, hp], heq⟩

theorem fileParent_of_mem {l : List Directory} {r : FileRef} (h : r ∈ filesBelowAll l) :
    r.file ∈ r.parent.files ∧
      (r.parent ∈ l ∨ ∃ p ∈ refsBelowAll l, p.directory = r.parent) := by
  induction l using Directory.siblings with
  | nil => simp [filesBelowAll] at h
  | cons d rest hchildren hrest =>
      rw [filesBelowAll, filesBelow_eq, List.mem_append, List.mem_append] at h
      rcases h with (hchild | hbelow) | hsibling
      · obtain ⟨f, hf, rfl⟩ := List.mem_map.mp hchild
        exact ⟨hf, .inl List.mem_cons_self⟩
      · obtain ⟨hmem, hparent⟩ := hchildren hbelow
        refine ⟨hmem, .inr ?_⟩
        rw [refsBelowAll, refsBelow_eq]
        rcases hparent with hparent | ⟨p, hp, heq⟩
        · have hp : ⟨r.parent, d⟩ ∈ directoryRefs d := List.mem_map.mpr ⟨_, hparent, rfl⟩
          exact ⟨⟨r.parent, d⟩, by simp [hp], rfl⟩
        · exact ⟨p, by simp [hp], heq⟩
      · obtain ⟨hmem, hparent⟩ := hrest hsibling
        refine ⟨hmem, ?_⟩
        rcases hparent with hparent | ⟨p, hp, heq⟩
        · exact .inl (List.mem_cons_of_mem d hparent)
        · exact .inr ⟨p, by simp [refsBelowAll, hp], heq⟩

section Membership

variable {root : Directory} {r : DirectoryRef}

theorem refsBelowAll_root : refsBelowAll [root] = refsBelow root := by
  simp [refsBelowAll]

theorem filesBelowAll_root : filesBelowAll [root] = filesBelow root := by
  simp [filesBelowAll]

variable (root) in
theorem root_mem : (⟨root, root⟩ : DirectoryRef) ∈ allDirectories root := List.mem_cons_self

theorem below_root (h : r ∈ allDirectories root) :
    (refsBelow r.directory).Sublist (allDirectories root) ∧
      (filesBelow r.directory).Sublist (filesBelow root) := by
  rcases List.mem_cons.mp h with rfl | h
  · exact ⟨List.sublist_cons_self _ _, List.Sublist.refl _⟩
  · rw [← refsBelowAll_root] at h
    have hbelow := below_sublist h
    rw [refsBelowAll_root, filesBelowAll_root] at hbelow
    exact ⟨hbelow.1.trans (List.sublist_cons_self _ _), hbelow.2⟩

theorem directoryRefs_sublist (h : r ∈ allDirectories root) :
    (directoryRefs r.directory).Sublist (allDirectories root) := by
  have hbelow := (below_root h).1
  rw [refsBelow_eq] at hbelow
  exact (List.sublist_append_left _ _).trans hbelow

theorem fileRefs_sublist (h : r ∈ allDirectories root) :
    (fileRefs r.directory).Sublist (filesBelow root) := by
  have hbelow := (below_root h).2
  rw [filesBelow_eq] at hbelow
  exact (List.sublist_append_left _ _).trans hbelow

theorem child_mem (h : r ∈ allDirectories root) {c : Directory}
    (hc : c ∈ r.directory.directories) : (⟨c, r.directory⟩ : DirectoryRef) ∈ allDirectories root :=
  (directoryRefs_sublist h).subset (List.mem_map_of_mem hc)

theorem file_mem (h : r ∈ allDirectories root) {f : File} (hf : f ∈ r.directory.files) :
    (⟨f, r.directory⟩ : FileRef) ∈ filesBelow root :=
  (fileRefs_sublist h).subset (List.mem_map_of_mem hf)

theorem parent_listed (h : r ∈ allDirectories root) :
    ∃ p ∈ allDirectories root, p.directory = r.parent := by
  rcases List.mem_cons.mp h with rfl | h
  · exact ⟨_, root_mem root, rfl⟩
  · rw [← refsBelowAll_root] at h
    rcases (parent_of_mem h).2 with hparent | ⟨p, hp, heq⟩
    · exact ⟨_, root_mem root, (List.mem_singleton.mp hparent).symm⟩
    · rw [refsBelowAll_root] at hp
      exact ⟨p, List.mem_cons_of_mem _ hp, heq⟩

theorem fileParent_listed {r : FileRef} (h : r ∈ filesBelow root) :
    r.file ∈ r.parent.files ∧ ∃ p ∈ allDirectories root, p.directory = r.parent := by
  rw [← filesBelowAll_root] at h
  obtain ⟨hmem, hparent | ⟨p, hp, heq⟩⟩ := fileParent_of_mem h
  · exact ⟨hmem, _, root_mem root, (List.mem_singleton.mp hparent).symm⟩
  · rw [refsBelowAll_root] at hp
    exact ⟨hmem, p, List.mem_cons_of_mem _ hp, heq⟩

theorem mem_keptFiles {r : FileRef} : r ∈ keptFiles root ↔ r ∈ filesBelow root ∧ r.file.Kept := by
  simp [keptFiles]

theorem not_mem_self (d : Directory) : d ∉ d.directories := by
  intro h
  have hlt := List.sizeOf_lt_of_mem h
  have hself : sizeOf d = 1 + sizeOf d.address + sizeOf d.name + sizeOf d.files +
      sizeOf d.directories := by
    cases d
    simp
  omega

end Membership

/-! ## Siblings -/

section Siblings

variable {α : Type*} {skip : α → Bool} {addressOf : α → Nat} {address : Nat} {flag : Bool}
  {l pre rest : List α} {x y : α}

theorem siblingAfter_mem (h : siblingAfter skip addressOf address flag l = some x) :
    x ∈ l ∧ skip x = false := by
  induction l generalizing flag with
  | nil => simp [siblingAfter] at h
  | cons y l ih =>
      rw [siblingAfter] at h
      split_ifs at h with hskip hflag
      · exact ⟨List.mem_cons_of_mem y (ih h).1, (ih h).2⟩
      · obtain rfl := Option.some.inj h
        exact ⟨List.mem_cons_self, by simpa using hskip⟩
      · exact ⟨List.mem_cons_of_mem y (ih h).1, (ih h).2⟩

theorem siblingAfter_found :
    siblingAfter skip addressOf address true l = (l.filter fun x => !skip x).head? := by
  induction l with
  | nil => rfl
  | cons y l ih =>
      rw [siblingAfter, List.filter_cons]
      split_ifs with hskip <;> simp_all

theorem siblingAfter_split (hpre : addressOf y ∉ pre.map addressOf) (hy : skip y = false) :
    siblingAfter skip addressOf (addressOf y) false (pre ++ y :: rest) =
      (rest.filter fun x => !skip x).head? := by
  induction pre with
  | nil => simp [siblingAfter, hy, siblingAfter_found]
  | cons x pre ih =>
      simp only [List.map_cons, List.mem_cons, not_or] at hpre
      rw [List.cons_append, siblingAfter, ih hpre.2, decide_eq_false (Ne.symm hpre.1), ih hpre.2]
      simp

end Siblings

/-! ## When nothing is missing -/

section Missing

variable {toU16 : Chars → List UInt16} {root : Directory} {r r' : DirectoryRef}

/-- No directory starts with a removed file. -/
def FirstFilesKept (root : Directory) : Prop :=
  ∀ r ∈ allDirectories root, ∀ f ∈ r.directory.files.head?, f.Kept

instance : Decidable (FirstFilesKept root) :=
  inferInstanceAs (Decidable (∀ r ∈ allDirectories root, ∀ f ∈ r.directory.files.head?, f.Kept))

theorem known_directory (h : r ∈ allDirectories root) :
    Known (directoryOffsets toU16 root) (some r.directory.address) := by
  intro a ha
  obtain rfl := Option.some.inj ha
  obtain ⟨o, ho⟩ := packedStart_isSome (directorySize toU16)
    (show r.address ∈ _ from List.mem_map_of_mem h)
  exact Option.isSome_iff_exists.mpr ⟨o % 2 ^ 32, by
    rw [directoryOffsets, show r.directory.address = r.address from rfl, ho, Option.map_some]⟩

theorem known_file {r : FileRef} (h : r ∈ keptFiles root) :
    Known (fileOffsets toU16 root) (some r.file.address) := by
  intro a ha
  obtain rfl := Option.some.inj ha
  obtain ⟨o, ho⟩ := packedStart_isSome (fileSize toU16)
    (show r.address ∈ _ from List.mem_map_of_mem h)
  exact Option.isSome_iff_exists.mpr ⟨o % 2 ^ 32, by
    rw [fileOffsets, show r.file.address = r.address from rfl, ho, Option.map_some]⟩

theorem directoryLinked (hfirst : FirstFilesKept root) (h : r ∈ allDirectories root) :
    DirectoryLinked (listed toU16 root) r where
  self := known_directory h
  parent := by
    obtain ⟨p, hp, heq⟩ := parent_listed h
    exact heq ▸ known_directory hp
  sibling := by
    obtain ⟨p, hp, heq⟩ := parent_listed h
    intro a ha
    obtain ⟨x, hx, rfl⟩ := Option.map_eq_some_iff.mp ha
    unfold nextDirectory at hx
    split_ifs at hx
    have hmem := (siblingAfter_mem hx).1
    rw [← heq] at hmem
    exact known_directory (child_mem hp hmem) _ rfl
  child := by
    intro a ha
    obtain ⟨x, hx, rfl⟩ := Option.map_eq_some_iff.mp ha
    exact known_directory (child_mem h (List.mem_of_mem_head? hx)) _ rfl
  file := by
    intro a ha
    obtain ⟨x, hx, rfl⟩ := Option.map_eq_some_iff.mp ha
    exact known_file (mem_keptFiles.mpr ⟨file_mem h (List.mem_of_mem_head? hx), hfirst r h x hx⟩)
      _ rfl

theorem fileLinked {r : FileRef} (h : r ∈ keptFiles root) : FileLinked (listed toU16 root) r where
  self := known_file h
  parent := by
    obtain ⟨-, p, hp, heq⟩ := fileParent_listed (mem_keptFiles.mp h).1
    exact heq ▸ known_directory hp
  sibling := by
    obtain ⟨-, p, hp, heq⟩ := fileParent_listed (mem_keptFiles.mp h).1
    intro a ha
    obtain ⟨x, hx, rfl⟩ := Option.map_eq_some_iff.mp ha
    obtain ⟨hmem, hkept⟩ := siblingAfter_mem hx
    rw [← heq] at hmem
    exact known_file (mem_keptFiles.mpr ⟨file_mem hp hmem, by simpa [File.Kept] using hkept⟩) _ rfl

theorem foldlM_fails {α : Type} {entry : α → Except RomFSFault TableEntry} {l : List α} {x : α}
    (hx : x ∈ l) (hfails : ∀ e, entry x ≠ .ok e) (s t : TableBuild) :
    l.foldlM (fun s r => do s.insert (← entry r)) s ≠ .ok t := by
  induction l generalizing s with
  | nil => simp at hx
  | cons y l ih =>
      rw [List.foldlM_cons]
      cases hentry : entry y with
      | error f => simp
      | ok e =>
          rw [ok_bind]
          cases s.insert e with
          | error f => simp
          | ok u =>
              rw [ok_bind]
              rcases List.mem_cons.mp hx with rfl | hx
              · exact absurd hentry (hfails e)
              · exact ih hx u

theorem firstFilesKept_of_rebuild (tree : RomFSTree) {fs : LayeredFS}
    (h : rebuildMetadata toU16 { root := tree.root } = .ok fs) : FirstFilesKept tree.root := by
  by_contra hfirst
  simp only [FirstFilesKept, not_forall] at hfirst
  obtain ⟨r, hr, f, hf, hremoved⟩ := hfirst
  have hunknown : fileOffsets toU16 tree.root f.address = none := by
    rw [fileOffsets, packedStart_eq_none, Option.map_none]
    intro hknown
    obtain ⟨x, hx, haddress⟩ := List.mem_map.mp hknown
    obtain ⟨hx, hkept⟩ := mem_keptFiles.mp hx
    have heq := List.inj_on_of_nodup_map tree.files_nodup hx
      (file_mem hr (List.mem_of_mem_head? hf)) haddress
    exact hremoved (by simpa [heq] using hkept)
  have hfails : ∀ e, (listed toU16 tree.root).directoryEntry toU16 r ≠ .ok e := by
    have hfile : link (listed toU16 tree.root).fileMetadataOffsetMap
        (r.directory.files.head?.map File.address) = .error .outOfRange := by
      have hmap : (listed toU16 tree.root).fileMetadataOffsetMap f.address = none := hunknown
      rw [Option.mem_def.mp hf, Option.map_some, link, OffsetMap.at_, hmap]
    intro e
    rw [directoryEntry, hfile]
    cases (listed toU16 tree.root).directoryMetadataOffsetMap.at_ r.parent.address <;> try simp
    cases link (listed toU16 tree.root).directoryMetadataOffsetMap
      ((nextDirectory r).map Directory.address) <;> try simp
    cases link (listed toU16 tree.root).directoryMetadataOffsetMap
      (r.directory.directories.head?.map Directory.address) <;> simp
  have hbuild : ∀ fs, buildDirectories toU16 (listed toU16 tree.root) ≠ .ok fs := by
    intro fs hfs
    unfold buildDirectories at hfs
    cases hloop : (listed toU16 tree.root).directoryList.foldlM
        (fun (s : TableBuild) r => do s.insert (← (listed toU16 tree.root).directoryEntry toU16 r)) {
          hashTable := (listed toU16 tree.root).directoryHashTable
          table := resized (listed toU16 tree.root).directoryMetadataTable
            (listed toU16 tree.root).currentDirectoryOffset 0xFF } with
    | error f => simp [hloop] at hfs
    | ok t => exact foldlM_fails hr hfails _ t hloop
  rw [rebuildMetadata, prepared_eq] at h
  cases hfs : buildDirectories toU16 (listed toU16 tree.root) with
  | error f => simp [hfs] at h
  | ok fs => exact hbuild fs hfs

end Missing

/-! ## The outcome of a rebuild -/

section Outcome

variable (toU16 : Chars → List UInt16) (root : Directory)

/-- The length of the metadata of a tree, up to the padding. -/
def metadataEnd : Nat :=
  headerSize + directoryBuckets root * 4 + totalSize (directorySize toU16) (allDirectories root) +
    fileBuckets root * 4 + totalSize (fileSize toU16) (keptFiles root)

/-- The metadata of a tree can be addressed with 32 bits. -/
def MetadataFits : Prop := alignUp (metadataEnd toU16 root) 16 < 2 ^ 32

instance : Decidable (MetadataFits toU16 root) := inferInstanceAs (Decidable (_ < _))

/-- The tables of a rebuilt tree. -/
def rebuiltTables : RomFSTables where
  directoryHashTable :=
    hashTableBytes (TableEntry.heads (directoryBuckets root) (directoryEntries toU16 root))
  directoryMetadataTable :=
    records (TableEntry.record (directoryBuckets root)) [] (directoryEntries toU16 root)
  fileHashTable :=
    hashTableBytes (TableEntry.heads (fileBuckets root) (allFileEntries toU16 root))
  fileMetadataTable :=
    records (TableEntry.record (fileBuckets root)) [] (allFileEntries toU16 root)

/-- The result of a rebuild. -/
def rebuilt : LayeredFS :=
  { withFiles toU16 root with
    metadata := (withFiles toU16 root).metadataParts ++ List.replicate
      (alignUp (withFiles toU16 root).headerEnd 16 - (withFiles toU16 root).metadataParts.length) 0 }

variable {toU16 root}

theorem assignAll (fs : LayeredFS) (l : List FileRef) : ∃ offset map,
    l.foldl (fun fs r => fs.assignData r.file) fs =
      { fs with currentDataOffset := offset, dataOffsetMap := map } := by
  induction l generalizing fs with
  | nil => exact ⟨fs.currentDataOffset, fs.dataOffsetMap, rfl⟩
  | cons r l ih =>
      obtain ⟨offset, map, h⟩ := ih (fs.assignData r.file)
      exact ⟨offset, map, by rw [List.foldl_cons, h]; rfl⟩

theorem withFiles_eq : ∃ offset map, withFiles toU16 root =
    { withDirectories toU16 root with
      currentDataOffset := offset
      dataOffsetMap := map
      fileHashTable := TableEntry.heads (fileBuckets root) (allFileEntries toU16 root)
      fileMetadataTable :=
        records (TableEntry.record (fileBuckets root)) [] (allFileEntries toU16 root) } := by
  obtain ⟨offset, map, h⟩ := assignAll (withDirectories toU16 root) (keptFiles root)
  exact ⟨offset, map, by rw [withFiles, h]⟩

theorem length_directoryTable : (records (TableEntry.record (directoryBuckets root)) []
    (directoryEntries toU16 root)).length =
      totalSize (directorySize toU16) (allDirectories root) := by
  rw [length_records (TableEntry.length_record _), directoryEntries, totalSize_directoryEntries]

theorem length_fileTable : (records (TableEntry.record (fileBuckets root)) []
    (allFileEntries toU16 root)).length = totalSize (fileSize toU16) (keptFiles root) := by
  rw [length_records (TableEntry.length_record _), allFileEntries, totalSize_fileEntries]

theorem header_lengths :
    (withFiles toU16 root).header.directoryHashTable.length = directoryBuckets root * 4 % 2 ^ 32 ∧
      (withFiles toU16 root).header.directoryMetadataTable.length =
        totalSize (directorySize toU16) (allDirectories root) % 2 ^ 32 ∧
      (withFiles toU16 root).header.fileHashTable.length = fileBuckets root * 4 % 2 ^ 32 ∧
      (withFiles toU16 root).header.fileMetadataTable.length =
        totalSize (fileSize toU16) (keptFiles root) % 2 ^ 32 := by
  obtain ⟨offset, map, h⟩ := @withFiles_eq toU16 root
  refine ⟨?_, ?_, ?_, ?_⟩
  · change (withFiles toU16 root).directoryHashTable.length * 4 % 2 ^ 32 = _
    rw [h]
    exact congrArg (fun n => n * 4 % 2 ^ 32) length_chainHeads
  · change (withFiles toU16 root).directoryMetadataTable.length % 2 ^ 32 = _
    rw [h]
    exact congrArg (· % 2 ^ 32) length_directoryTable
  · exact congrArg (fun n => n * 4 % 2 ^ 32) length_chainHeads
  · exact congrArg (· % 2 ^ 32) length_fileTable

/-- A rebuild completes as far as the header says that it fits. -/
theorem rebuildMetadata_ok (hfirst : FirstFilesKept root)
    (hend : alignUp (withFiles toU16 root).headerEnd 16 < 2 ^ 32) :
    rebuildMetadata toU16 { root := root } = .ok (rebuilt toU16 root) ∧
      readTables (rebuilt toU16 root).metadata =
        some ⟨(withFiles toU16 root).directoryHashPart, (withFiles toU16 root).directoryPart,
          (withFiles toU16 root).fileHashPart, (withFiles toU16 root).filePart⟩ := by
  have hempty : (withFiles toU16 root).metadata = [] := by
    obtain ⟨offset, map, h⟩ := @withFiles_eq toU16 root
    rw [h]
    rfl
  refine ⟨?_, readTables_metadataParts hend _⟩
  rw [rebuildMetadata_eq (fun r hr => directoryLinked hfirst hr) fun r hr => fileLinked hr,
    writeMetadata_eq hempty hend]
  rfl

theorem headerEnd_eq (hfits : MetadataFits toU16 root) :
    (withFiles toU16 root).headerEnd = metadataEnd toU16 root := by
  have hend := (@le_alignUp (metadataEnd toU16 root) 16 (by decide)).trans_lt hfits
  obtain ⟨h₁, h₂, h₃, h₄⟩ := @header_lengths toU16 root
  simp only [metadataEnd] at hend
  rw [headerEnd, h₁, h₂, h₃, h₄, Nat.mod_eq_of_lt (by omega), Nat.mod_eq_of_lt (by omega),
    Nat.mod_eq_of_lt (by omega), Nat.mod_eq_of_lt (by omega), metadataEnd]

theorem rebuilt_tables (hfirst : FirstFilesKept root) (hfits : MetadataFits toU16 root) :
    rebuildMetadata toU16 { root := root } = .ok (rebuilt toU16 root) ∧
      readTables (rebuilt toU16 root).metadata = some (rebuiltTables toU16 root) := by
  have hend := (@le_alignUp (metadataEnd toU16 root) 16 (by decide)).trans_lt hfits
  simp only [metadataEnd] at hend
  obtain ⟨h₁, h₂, h₃, h₄⟩ := @header_lengths toU16 root
  rw [Nat.mod_eq_of_lt (by omega)] at h₁ h₂ h₃ h₄
  obtain ⟨offset, map, h⟩ := @withFiles_eq toU16 root
  have hheads : (hashTableBytes (withFiles toU16 root).directoryHashTable).length =
      directoryBuckets root * 4 := by
    rw [length_hashTableBytes, h]
    exact congrArg (· * 4) length_chainHeads
  have hrecords : (withFiles toU16 root).directoryMetadataTable.length =
      totalSize (directorySize toU16) (allDirectories root) := by
    rw [h]
    exact length_directoryTable
  have hfileHeads : (hashTableBytes (withFiles toU16 root).fileHashTable).length =
      fileBuckets root * 4 :=
    (length_hashTableBytes _).trans (congrArg (· * 4) length_chainHeads)
  have hfileRecords : (withFiles toU16 root).fileMetadataTable.length =
      totalSize (fileSize toU16) (keptFiles root) := length_fileTable
  have hok := rebuildMetadata_ok hfirst (by rw [headerEnd_eq hfits]; exact hfits)
  refine ⟨hok.1, hok.2.trans ?_⟩
  rw [directoryHashPart, directoryPart, fileHashPart, filePart, h₁, h₂, h₃, h₄,
    List.take_of_length_le hheads.le, List.take_of_length_le hrecords.le,
    List.take_of_length_le hfileHeads.le, List.take_of_length_le hfileRecords.le, h]
  rfl

end Outcome

/-! ## The entries of a rebuilt image -/

section Entries

variable {toU16 : Chars → List UInt16} {root : Directory}

theorem linkTo_lt {m : OffsetMap} (hm : ∀ a o, m a = some o → o < 256 ^ 4) (address : Option Nat) :
    linkTo m address < 256 ^ 4 := by
  unfold linkTo
  cases hlookup : address.bind m with
  | none => decide
  | some o =>
      obtain ⟨a, -, ha⟩ := Option.bind_eq_some_iff.mp hlookup
      exact hm a o ha

theorem directoryOffsets_lt {a o : Nat} (h : directoryOffsets toU16 root a = some o) :
    o < 256 ^ 4 := by
  obtain ⟨n, -, rfl⟩ := Option.map_eq_some_iff.mp h
  exact Nat.mod_lt n (by decide)

theorem fileOffsets_lt {a o : Nat} (h : fileOffsets toU16 root a = some o) : o < 256 ^ 4 := by
  obtain ⟨n, -, rfl⟩ := Option.map_eq_some_iff.mp h
  exact Nat.mod_lt n (by decide)

theorem head_lt {n b : Nat} {done : List TableEntry} (h : ∀ e ∈ done, e.offset < 256 ^ 4) :
    TableEntry.head n done b < 256 ^ 4 := by
  rcases chainHead_cases TableEntry.offset (TableEntry.bucket n) invalidOffset done b with hlast | ⟨e, he, -, heq⟩
  · rw [TableEntry.head, hlast]
    decide
  · rw [TableEntry.head, heq]
    exact h e he

theorem mod32_lt (n : Nat) : n % 2 ^ 32 < 256 ^ 4 := Nat.mod_lt n (by decide)

theorem directoryMetadata_fits (r : DirectoryRef) {next : Nat} (hnext : next < 256 ^ 4) :
    (directoryMetadata toU16 (listed toU16 root) r next).Fits where
  parent := linkTo_lt (fun _ _ => directoryOffsets_lt) _
  sibling := linkTo_lt (fun _ _ => directoryOffsets_lt) _
  child := linkTo_lt (fun _ _ => directoryOffsets_lt) _
  file := linkTo_lt (fun _ _ => fileOffsets_lt) _
  next := hnext
  name := mod32_lt _

theorem fileMetadata_fits (dataOffset : Nat) (r : FileRef) {next : Nat} (hnext : next < 256 ^ 4) :
    (fileMetadata toU16 (listed toU16 root) dataOffset r next).Fits where
  parent := linkTo_lt (fun _ _ => directoryOffsets_lt) _
  sibling := linkTo_lt (fun _ _ => fileOffsets_lt) _
  data := Nat.mod_lt dataOffset (by decide)
  length := r.file.relocation.size.toNat_lt
  next := hnext
  name := mod32_lt _

variable (toU16 root) in
def directoryOffset (d : Directory) : Nat := linkTo (directoryOffsets toU16 root) (some d.address)

variable (toU16 root) in
def fileOffset (f : File) : Nat := linkTo (fileOffsets toU16 root) (some f.address)

variable (toU16 root) in
/-- What the bucket of a directory held before it. -/
def directoryNext (pre : List DirectoryRef) (r : DirectoryRef) : Nat :=
  TableEntry.head (directoryBuckets root) (pre.map (directoryTableEntry toU16 (listed toU16 root)))
    ((directoryTableEntry toU16 (listed toU16 root) r).bucket (directoryBuckets root))

theorem totals_lt (hfits : MetadataFits toU16 root) :
    totalSize (directorySize toU16) (allDirectories root) + headerSize < 2 ^ 32 ∧
      totalSize (fileSize toU16) (keptFiles root) + headerSize < 2 ^ 32 := by
  have hend := (@le_alignUp (metadataEnd toU16 root) 16 (by decide)).trans_lt hfits
  simp only [metadataEnd] at hend
  omega

theorem name_lt {name : Chars} (h : getNameSize toU16 name < 2 ^ 32) :
    (toU16 name).length * 2 % 2 ^ 32 = (toU16 name).length * 2 := by
  have hle := @le_alignUp ((toU16 name).length * 2) 4 (by decide)
  unfold getNameSize at h
  exact Nat.mod_eq_of_lt (hle.trans_lt h)

theorem directoryOffset_eq {tree : RomFSTree} (hfits : MetadataFits toU16 tree.root)
    {pre post : List DirectoryRef} {r : DirectoryRef}
    (hsplit : allDirectories tree.root = pre ++ r :: post) :
    directoryOffset toU16 tree.root r.directory = totalSize (directorySize toU16) pre := by
  have hnodup := tree.directories_nodup
  rw [hsplit, List.map_append, List.map_cons, List.nodup_append] at hnodup
  have hnew : r.address ∉ pre.map DirectoryRef.address := fun h =>
    hnodup.2.2 _ h _ List.mem_cons_self rfl
  have hlt := (totals_lt hfits).1
  rw [hsplit, totalSize_append] at hlt
  have hstart := packedStart_split (directorySize toU16) post hnew
  rw [← hsplit] at hstart
  simp only [directoryOffset, linkTo, Option.bind_some, directoryOffsets]
  rw [show r.directory.address = r.address from rfl, hstart, Option.map_some, Option.getD_some,
    Nat.mod_eq_of_lt (by omega)]

theorem directory_entry {tree : RomFSTree} (hfits : MetadataFits toU16 tree.root)
    {pre post : List DirectoryRef} {r : DirectoryRef}
    (hsplit : allDirectories tree.root = pre ++ r :: post) :
    (rebuiltTables toU16 tree.root).directory (directoryOffset toU16 tree.root r.directory) =
      some (directoryMetadata toU16 (listed toU16 tree.root) r
        (directoryNext toU16 tree.root pre r), toU16 r.directory.name) := by
  obtain ⟨rest, hrecords⟩ : ∃ rest, (rebuiltTables toU16 tree.root).directoryMetadataTable =
      records (TableEntry.record (directoryBuckets tree.root)) []
        (pre.map (directoryTableEntry toU16 (listed toU16 tree.root))) ++
          ((directoryMetadata toU16 (listed toU16 tree.root) r
            (directoryNext toU16 tree.root pre r)).bytes ++
              nameBytes (toU16 r.directory.name) ++ rest) := by
    rw [rebuiltTables, directoryEntries, hsplit, List.map_append, List.map_cons, records_split]
    exact ⟨_, rfl⟩
  have hfront : (records (TableEntry.record (directoryBuckets tree.root)) []
      (pre.map (directoryTableEntry toU16 (listed toU16 tree.root)))).length =
        directoryOffset toU16 tree.root r.directory := by
    rw [directoryOffset_eq hfits hsplit, length_records (TableEntry.length_record _),
      totalSize_directoryEntries]
  have hnext : directoryNext toU16 tree.root pre r < 256 ^ 4 := by
    refine head_lt fun e he => ?_
    obtain ⟨x, -, rfl⟩ := List.mem_map.mp he
    exact linkTo_lt (fun _ _ => directoryOffsets_lt) _
  have hsize : getNameSize toU16 r.directory.name < 2 ^ 32 := by
    have hlt := (totals_lt hfits).1
    rw [hsplit, totalSize_append, totalSize_cons, directorySize] at hlt
    omega
  rw [← hfront]
  exact directory_of_record (directoryMetadata_fits r hnext) (name_lt hsize) hrecords

/-- Where the data of a file starts behind other ones. -/
def dataOffset (pre : List FileRef) : Nat :=
  totalSize (fun r : FileRef => alignUp r.file.relocation.size.toNat 16) pre

theorem fileEntries_split {fs : LayeredFS} {pre post : List FileRef} {r : FileRef} (start : Nat) :
    fileEntries toU16 fs start (pre ++ r :: post) =
      fileEntries toU16 fs start pre ++ fileTableEntry toU16 fs (start + dataOffset pre) r ::
        fileEntries toU16 fs (start + dataOffset (pre ++ [r])) post := by
  induction pre generalizing start with
  | nil => simp [fileEntries, dataOffset]
  | cons x pre ih => simp [fileEntries, ih, dataOffset, Nat.add_assoc]

variable (toU16 root) in
/-- What the bucket of a file held before it. -/
def fileNext (pre : List FileRef) (r : FileRef) : Nat :=
  TableEntry.head (fileBuckets root) (fileEntries toU16 (listed toU16 root) 0 pre)
    ((fileTableEntry toU16 (listed toU16 root) (dataOffset pre) r).bucket (fileBuckets root))

theorem mem_fileEntries {fs : LayeredFS} {l : List FileRef} {start : Nat} {e : TableEntry}
    (h : e ∈ fileEntries toU16 fs start l) : ∃ r ∈ l, ∃ o, e = fileTableEntry toU16 fs o r := by
  induction l generalizing start with
  | nil => simp [fileEntries] at h
  | cons r l ih =>
      rcases List.mem_cons.mp h with rfl | h
      · exact ⟨r, List.mem_cons_self, start, rfl⟩
      · obtain ⟨x, hx, o, rfl⟩ := ih h
        exact ⟨x, List.mem_cons_of_mem r hx, o, rfl⟩

theorem keptFiles_nodup (tree : RomFSTree) :
    ((keptFiles tree.root).map FileRef.address).Nodup :=
  tree.files_nodup.sublist (List.Sublist.map _ List.filter_sublist)

theorem fileOffset_eq {tree : RomFSTree} (hfits : MetadataFits toU16 tree.root)
    {pre post : List FileRef} {r : FileRef} (hsplit : keptFiles tree.root = pre ++ r :: post) :
    fileOffset toU16 tree.root r.file = totalSize (fileSize toU16) pre := by
  have hnodup := keptFiles_nodup tree
  rw [hsplit, List.map_append, List.map_cons, List.nodup_append] at hnodup
  have hnew : r.address ∉ pre.map FileRef.address := fun h =>
    hnodup.2.2 _ h _ List.mem_cons_self rfl
  have hlt := (totals_lt hfits).2
  rw [hsplit, totalSize_append] at hlt
  have hstart := packedStart_split (fileSize toU16) post hnew
  rw [← hsplit] at hstart
  simp only [fileOffset, linkTo, Option.bind_some, fileOffsets]
  rw [show r.file.address = r.address from rfl, hstart, Option.map_some, Option.getD_some,
    Nat.mod_eq_of_lt (by omega)]

theorem file_entry {tree : RomFSTree} (hfits : MetadataFits toU16 tree.root)
    {pre post : List FileRef} {r : FileRef} (hsplit : keptFiles tree.root = pre ++ r :: post) :
    (rebuiltTables toU16 tree.root).file (fileOffset toU16 tree.root r.file) =
      some (fileMetadata toU16 (listed toU16 tree.root) (dataOffset pre) r
        (fileNext toU16 tree.root pre r), toU16 r.file.name) := by
  obtain ⟨rest, hrecords⟩ : ∃ rest, (rebuiltTables toU16 tree.root).fileMetadataTable =
      records (TableEntry.record (fileBuckets tree.root)) []
        (fileEntries toU16 (listed toU16 tree.root) 0 pre) ++
          ((fileMetadata toU16 (listed toU16 tree.root) (dataOffset pre) r
            (fileNext toU16 tree.root pre r)).bytes ++ nameBytes (toU16 r.file.name) ++ rest) := by
    rw [rebuiltTables, allFileEntries, hsplit, fileEntries_split, records_split, Nat.zero_add]
    exact ⟨_, rfl⟩
  have hfront : (records (TableEntry.record (fileBuckets tree.root)) []
      (fileEntries toU16 (listed toU16 tree.root) 0 pre)).length =
        fileOffset toU16 tree.root r.file := by
    rw [fileOffset_eq hfits hsplit, length_records (TableEntry.length_record _),
      totalSize_fileEntries]
  have hnext : fileNext toU16 tree.root pre r < 256 ^ 4 := by
    refine head_lt fun e he => ?_
    obtain ⟨x, -, o, rfl⟩ := mem_fileEntries he
    exact linkTo_lt (fun _ _ => fileOffsets_lt) _
  have hsize : getNameSize toU16 r.file.name < 2 ^ 32 := by
    have hlt := (totals_lt hfits).2
    rw [hsplit, totalSize_append, totalSize_cons, fileSize] at hlt
    omega
  rw [← hfront]
  exact file_of_record (fileMetadata_fits _ r hnext) (name_lt hsize) hrecords

end Entries

/-! ## The walk -/

section Walk

variable {toU16 : Chars → List UInt16} {tree : RomFSTree}

theorem directory_eq_of_address {r r' : DirectoryRef} (h : r ∈ allDirectories tree.root)
    (h' : r' ∈ allDirectories tree.root) (heq : r.directory.address = r'.directory.address) :
    r = r' :=
  List.inj_on_of_nodup_map tree.directories_nodup h h' heq

theorem nextDirectory_eq {p : DirectoryRef} (hp : p ∈ allDirectories tree.root)
    {pre rest : List Directory} {d : Directory} (hsplit : p.directory.directories = pre ++ d :: rest) :
    nextDirectory ⟨d, p.directory⟩ = rest.head? := by
  have hd : d ∈ p.directory.directories := by simp [hsplit]
  have hchild := child_mem hp hd
  have hne : p.directory.address ≠ d.address := by
    intro heq
    have hself := directory_eq_of_address hp hchild heq
    have hpd : p.directory = d := by rw [hself]
    exact not_mem_self d (hpd ▸ hd)
  have hnodup := tree.directories_nodup.sublist ((directoryRefs_sublist hp).map _)
  rw [directoryRefs, hsplit, List.map_map, List.map_append, List.map_cons,
    List.nodup_append] at hnodup
  have hnew : d.address ∉ pre.map Directory.address := fun h => by
    obtain ⟨x, hx, heq⟩ := List.mem_map.mp h
    exact hnodup.2.2 _ (List.mem_map_of_mem hx) _ List.mem_cons_self heq
  rw [nextDirectory, if_pos hne, hsplit, siblingAfter_split hnew rfl]
  simp

theorem nextFile_eq {p : DirectoryRef} (hp : p ∈ allDirectories tree.root)
    {pre rest : List File} {f : File} (hsplit : p.directory.files = pre ++ f :: rest)
    (hkept : f.Kept) :
    nextFile ⟨f, p.directory⟩ = (rest.filter fun file => file.Kept).head? := by
  have hnodup := tree.files_nodup.sublist ((fileRefs_sublist hp).map _)
  rw [fileRefs, hsplit, List.map_map, List.map_append, List.map_cons, List.nodup_append] at hnodup
  have hnew : f.address ∉ pre.map File.address := fun h => by
    obtain ⟨x, hx, heq⟩ := List.mem_map.mp h
    exact hnodup.2.2 _ (List.mem_map_of_mem hx) _ List.mem_cons_self heq
  have hskip : decide (f.relocation.type = .removed) = false := decide_eq_false hkept
  have hkeep : (fun file : File => !decide (file.relocation.type = .removed)) =
      fun file => decide file.Kept := by
    ext file
    by_cases hremoved : file.relocation.type = .removed <;> simp [File.Kept, hremoved]
  rw [nextFile, hsplit, siblingAfter_split hnew hskip, hkeep]

theorem directoryOffset_ne (hfits : MetadataFits toU16 tree.root) {r : DirectoryRef}
    (h : r ∈ allDirectories tree.root) :
    directoryOffset toU16 tree.root r.directory ≠ invalidOffset := by
  obtain ⟨pre, post, hsplit⟩ := List.append_of_mem h
  have hlt := (totals_lt hfits).1
  rw [hsplit, totalSize_append] at hlt
  rw [directoryOffset_eq hfits hsplit, invalidOffset, headerSize] at *
  omega

theorem fileOffset_ne (hfits : MetadataFits toU16 tree.root) {r : FileRef}
    (h : r ∈ keptFiles tree.root) : fileOffset toU16 tree.root r.file ≠ invalidOffset := by
  obtain ⟨pre, post, hsplit⟩ := List.append_of_mem h
  have hlt := (totals_lt hfits).2
  rw [hsplit, totalSize_append] at hlt
  rw [fileOffset_eq hfits hsplit, invalidOffset, headerSize] at *
  omega

theorem walksFiles_files (hfits : MetadataFits toU16 tree.root) {p : DirectoryRef}
    (hp : p ∈ allDirectories tree.root) (rest : List File) :
    ∀ pre, p.directory.files = pre ++ rest →
      WalksFiles (rebuiltTables toU16 tree.root) (directoryOffset toU16 tree.root p.directory)
        (linkTo (fileOffsets toU16 tree.root)
          ((rest.filter fun file => file.Kept).head?.map File.address))
        (fileListings toU16 rest) := by
  induction rest with
  | nil => exact fun _ _ => WalksFiles.nil
  | cons f rest ih =>
      intro pre hsplit
      have hrest := ih (pre ++ [f]) (by simpa using hsplit)
      by_cases hkept : f.Kept
      · have hmem : (⟨f, p.directory⟩ : FileRef) ∈ keptFiles tree.root :=
          mem_keptFiles.mpr ⟨file_mem hp (by simp [hsplit]), hkept⟩
        obtain ⟨before, behind, hlist⟩ := List.append_of_mem hmem
        rw [← nextFile_eq hp hsplit hkept] at hrest
        have hwalk : WalksFiles (rebuiltTables toU16 tree.root)
            (directoryOffset toU16 tree.root p.directory) (fileOffset toU16 tree.root f)
            (⟨toU16 f.name, f.relocation.size.toNat⟩ :: fileListings toU16 rest) :=
          .cons (fileOffset_ne hfits hmem) (file_entry hfits hlist) rfl hrest
        rw [fileListings, List.filter_cons_of_pos (by simpa using hkept)]
        exact hwalk
      · rw [fileListings, List.filter_cons_of_neg (by simpa using hkept)]
        exact hrest

theorem head_kept (hfirst : FirstFilesKept tree.root) {r : DirectoryRef}
    (h : r ∈ allDirectories tree.root) :
    (r.directory.files.filter fun file => file.Kept).head? = r.directory.files.head? := by
  have hkept := hfirst r h
  cases hfiles : r.directory.files with
  | nil => rfl
  | cons f files =>
      rw [hfiles] at hkept
      rw [List.filter_cons_of_pos (by simpa using hkept f rfl)]
      rfl

theorem walks_directories (hfits : MetadataFits toU16 tree.root)
    (hfirst : FirstFilesKept tree.root) (rest : List Directory) :
    ∀ p ∈ allDirectories tree.root, ∀ pre, p.directory.directories = pre ++ rest →
      Walks (rebuiltTables toU16 tree.root) (directoryOffset toU16 tree.root p.directory)
        (linkTo (directoryOffsets toU16 tree.root) (rest.head?.map Directory.address))
        (Directory.listings toU16 rest) := by
  induction rest using Directory.siblings with
  | nil =>
      intro p _ pre _
      rw [Directory.listings]
      exact Walks.nil
  | cons d rest hchildren hrest =>
      intro p hp pre hsplit
      have hmem : (⟨d, p.directory⟩ : DirectoryRef) ∈ allDirectories tree.root :=
        child_mem hp (by simp [hsplit])
      obtain ⟨before, behind, hlist⟩ := List.append_of_mem hmem
      have hinside := walksFiles_files hfits hmem d.files [] rfl
      have hbelow := hchildren _ hmem [] rfl
      have hnext := hrest p hp (pre ++ [d]) (by simpa using hsplit)
      rw [← nextDirectory_eq hp hsplit] at hnext
      rw [head_kept hfirst hmem] at hinside
      rw [Directory.listings, Directory.listing_eq]
      exact .cons (directoryOffset_ne hfits hmem) (directory_entry hfits hlist) rfl hinside hbelow
        hnext

theorem walks_root (hfits : MetadataFits toU16 tree.root) (hfirst : FirstFilesKept tree.root) :
    Walks (rebuiltTables toU16 tree.root) 0 0 [tree.root.listing toU16] := by
  have hlist : allDirectories tree.root = [] ++ ⟨tree.root, tree.root⟩ :: refsBelow tree.root := rfl
  have hroot : directoryOffset toU16 tree.root tree.root = 0 := directoryOffset_eq hfits hlist
  have hinside := walksFiles_files hfits (root_mem tree.root) tree.root.files [] rfl
  have hbelow := walks_directories hfits hfirst tree.root.directories _ (root_mem tree.root) [] rfl
  have hnext : nextDirectory ⟨tree.root, tree.root⟩ = none := if_neg (not_not.mpr rfl)
  have hend : Walks (rebuiltTables toU16 tree.root) (directoryOffset toU16 tree.root tree.root)
      (linkTo (directoryOffsets toU16 tree.root)
        ((nextDirectory ⟨tree.root, tree.root⟩).map Directory.address)) [] := by
    rw [hnext]
    exact .nil
  have hkept := head_kept hfirst (root_mem tree.root)
  rw [hkept] at hinside
  have hwalk := Walks.cons (directoryOffset_ne hfits (root_mem tree.root)) (directory_entry hfits hlist) rfl
    hinside hbelow hend
  rw [← Directory.listing_eq] at hwalk
  have hup : (directoryMetadata toU16 (listed toU16 tree.root) ⟨tree.root, tree.root⟩
      (directoryNext toU16 tree.root [] ⟨tree.root, tree.root⟩)).parentDirectoryOffset = 0 := hroot
  rwa [hup, hroot] at hwalk

/-- A rebuild completes, and walking its tables yields the tree. -/
def RebuildsFaithfully (toU16 : Chars → List UInt16) (root : Directory) : Prop :=
  ∃ fs tables, rebuildMetadata toU16 { root := root } = .ok fs ∧
    readTables fs.metadata = some tables ∧ ∀ l, Walks tables 0 0 l ↔ l = [root.listing toU16]

/-- A rebuild is faithful where no directory starts with a removed file and the metadata has 32-bit
offsets, and fails where a directory starts with a removed file. -/
theorem rebuildMetadata_faithful (toU16 : Chars → List UInt16) (tree : RomFSTree) :
    (FirstFilesKept tree.root ∧ MetadataFits toU16 tree.root →
        RebuildsFaithfully toU16 tree.root) ∧
      (RebuildsFaithfully toU16 tree.root → FirstFilesKept tree.root) := by
  constructor
  · rintro ⟨hfirst, hfits⟩
    obtain ⟨hok, htables⟩ := rebuilt_tables hfirst hfits
    have hwalk := walks_root hfits hfirst
    refine ⟨_, _, hok, htables, fun l => ⟨fun h => h.unique hwalk, fun h => h ▸ hwalk⟩⟩
  · rintro ⟨fs, -, hok, -⟩
    exact firstFilesKept_of_rebuild tree hok

/-- The conversion of names in ASCII. -/
def asciiToU16 (name : Chars) : List UInt16 := name.map UInt8.toUInt16

/-- A root that holds one file, which is removed. -/
def removedOnly : RomFSTree where
  root := ⟨0, [], [⟨0, ['a'.toUInt8], { type := .removed }⟩], []⟩
  directories_nodup := by decide
  files_nodup := by decide

/-- A tree whose only file is removed is not rebuilt. -/
theorem rebuildMetadata_removedOnly :
    rebuildMetadata asciiToU16 { root := removedOnly.root } = .error .outOfRange ∧
      ¬RebuildsFaithfully asciiToU16 removedOnly.root := by
  have hfault : rebuildMetadata asciiToU16 { root := removedOnly.root } = .error .outOfRange := rfl
  refine ⟨hfault, ?_⟩
  rintro ⟨fs, -, hok, -⟩
  simp [hfault] at hok

end Walk

end LayeredFS

end Cytrus.FileSys
