import Mathlib.Tactic
import Cytrus.FileSys.CiaContainer

/-!
# Content folders of titles

A title's contents and its metadata are files of one folder. The metadata with
the smallest number is the installed one, and the one with the largest number is
being installed.

## Implementation notes

The folder holds files with the names that an installation gives them, and no
others. A metadata file is the metadata that is read from it. Numbers of metadata
files are natural numbers: the largest one is never counted up.
-/

namespace Cytrus.Am

open FileSys

/-- The name of a file in the folder: `%08x.tmd`, or `%08x.app`, which may be in `00000000/`. -/
inductive FileName where
  | tmd (id : Nat)
  | app (inSubfolder : Bool) (id : Nat)
  deriving DecidableEq, Repr

inductive FileData where
  | tmd (tmd : TitleMetadata)
  | app (bytes : List UInt8)
  deriving DecidableEq

/-- The files of a folder. -/
abbrev Folder := List (FileName × FileData)

namespace Folder

def find (folder : Folder) (name : FileName) : Option FileData :=
  (List.find? (fun e => e.1 = name) folder).map Prod.snd

def delete (folder : Folder) (name : FileName) : Folder := folder.filter fun e => e.1 ≠ name

def write (folder : Folder) (name : FileName) (data : FileData) : Folder :=
  (name, data) :: folder.delete name

/-- The numbers of the metadata files. -/
def tmdIds (folder : Folder) : List Nat :=
  folder.filterMap fun e =>
    match e.1 with
    | .tmd id => some id
    | .app .. => none

def maxTmdId : Nat := 0xFFFFFFFF

def baseId (folder : Folder) : Nat :=
  let id := folder.tmdIds.foldl min maxTmdId
  if id = maxTmdId then 0 else id

def updateId (folder : Folder) : Nat :=
  let id := folder.tmdIds.foldl max 0
  if folder.baseId = id then id + 1 else id

variable {folder : Folder} {name other : FileName} {data : FileData} {id b : Nat}

theorem find_delete :
    (folder.delete name).find other = if other = name then none else folder.find other := by
  unfold find delete
  rw [List.find?_filter]
  split
  next heq =>
    subst heq
    have hnone : List.find? (fun e => decide (decide (e.1 ≠ other) = true ∧
        decide (e.1 = other) = true)) folder = none := by simp
    rw [hnone, Option.map_none]
  next hne =>
    congr 2
    funext e
    by_cases he : e.1 = other
    · simp [he, hne]
    · simp [he]

theorem find_write : (folder.write name data).find other =
    if other = name then some data else folder.find other := by
  by_cases h : other = name
  · simp [write, find, h]
  · have hfind := @find_delete folder name other
    rw [if_neg h] at hfind ⊢
    rw [← hfind]
    simp [write, find, Ne.symm h]

theorem mem_tmdIds : id ∈ folder.tmdIds ↔ folder.find (.tmd id) ≠ none := by
  simp only [tmdIds, find, List.mem_filterMap, ne_eq, Option.map_eq_none_iff, List.find?_eq_none,
    not_forall, decide_eq_true_eq, not_not]
  constructor
  · rintro ⟨e, he, hid⟩
    refine ⟨e, he, ?_⟩
    cases hname : e.1 <;> simp_all
  · rintro ⟨e, he, hname⟩
    exact ⟨e, he, by rw [hname]⟩

/-- The smallest number of a metadata file. -/
structure IsBase (folder : Folder) (b : Nat) : Prop where
  mem : b ∈ folder.tmdIds
  le : ∀ id ∈ folder.tmdIds, b ≤ id
  lt : b < maxTmdId

theorem foldl_min_spec (l : List Nat) (n : Nat) :
    l.foldl min n ∈ n :: l ∧ ∀ id ∈ n :: l, l.foldl min n ≤ id :=
  List.min?_eq_some_iff.mp List.min?_cons'

theorem foldl_max_spec (l : List Nat) (n : Nat) :
    l.foldl max n ∈ n :: l ∧ ∀ id ∈ n :: l, id ≤ l.foldl max n :=
  List.max?_eq_some_iff.mp List.max?_cons'

theorem IsBase.baseId_eq (h : folder.IsBase b) : folder.baseId = b := by
  obtain ⟨hmem, hle⟩ := foldl_min_spec folder.tmdIds maxTmdId
  have hb := hle b (List.mem_cons_of_mem _ h.mem)
  have hlt := h.lt
  rw [baseId, if_neg (by omega)]
  rcases List.mem_cons.mp hmem with heq | hmem
  · omega
  · exact le_antisymm hb (h.le _ hmem)

theorem IsBase.updateId_spec (h : folder.IsBase b) :
    b < folder.updateId ∧ ∀ id ∈ folder.tmdIds, id ≤ folder.updateId := by
  obtain ⟨-, hle⟩ := foldl_max_spec folder.tmdIds 0
  have hb := hle b (List.mem_cons_of_mem _ h.mem)
  by_cases heq : b = folder.tmdIds.foldl max 0
  · have hid : folder.updateId = b + 1 := by
      simp only [updateId, h.baseId_eq]
      rw [if_pos heq, ← heq]
    rw [hid]
    refine ⟨Nat.lt_succ_self b, fun id hid => ?_⟩
    have hid := hle id (List.mem_cons_of_mem _ hid)
    omega
  · have hid : folder.updateId = folder.tmdIds.foldl max 0 := by
      simp only [updateId, h.baseId_eq]
      rw [if_neg heq]
    rw [hid]
    exact ⟨lt_of_le_of_ne hb heq, fun id hid => hle id (List.mem_cons_of_mem _ hid)⟩

theorem updateId_eq {u : Nat} (h : folder.IsBase b) (hu : u ∈ folder.tmdIds)
    (hle : ∀ id ∈ folder.tmdIds, id ≤ u) (hne : b ≠ u) : folder.updateId = u := by
  obtain ⟨hmem, hmax⟩ := foldl_max_spec folder.tmdIds 0
  have hfold : folder.tmdIds.foldl max 0 = u := by
    apply le_antisymm
    · rcases List.mem_cons.mp hmem with heq | hmem
      · omega
      · exact hle _ hmem
    · exact hmax u (List.mem_cons_of_mem _ hu)
  simp only [updateId, h.baseId_eq, hfold]
  exact if_neg hne

theorem mem_tmdIds_write :
    id ∈ (folder.write name data).tmdIds ↔ name = .tmd id ∨ id ∈ folder.tmdIds := by
  rw [mem_tmdIds, mem_tmdIds, find_write]
  by_cases h : FileName.tmd id = name
  · simp [h]
  · simp [h, Ne.symm h]

theorem tmdIds_delete_app {s : Bool} : (folder.delete (.app s id)).tmdIds = folder.tmdIds := by
  rw [tmdIds, delete, List.filterMap_filter]
  apply List.filterMap_congr
  intro e _
  cases hname : e.1 <;> simp

theorem tmdIds_write_app {s : Bool} : (folder.write (.app s id) data).tmdIds = folder.tmdIds :=
  tmdIds_delete_app

theorem IsBase.of_tmdIds {other : Folder} (h : folder.IsBase b)
    (hids : other.tmdIds = folder.tmdIds) : other.IsBase b where
  mem := hids ▸ h.mem
  le := hids ▸ h.le
  lt := h.lt

theorem updateId_of_tmdIds {other : Folder} (hids : other.tmdIds = folder.tmdIds) :
    other.updateId = folder.updateId := by
  unfold updateId baseId
  rw [hids]

theorem IsBase.write_update (h : folder.IsBase b) :
    (folder.write (.tmd folder.updateId) data).IsBase b ∧
      (folder.write (.tmd folder.updateId) data).updateId = folder.updateId := by
  obtain ⟨hlt, hle⟩ := h.updateId_spec
  have hbase : (folder.write (.tmd folder.updateId) data).IsBase b := by
    refine ⟨mem_tmdIds_write.mpr (.inr h.mem), fun id hid => ?_, h.lt⟩
    rcases mem_tmdIds_write.mp hid with hname | hid
    · cases hname
      exact hlt.le
    · exact h.le id hid
  refine ⟨hbase, updateId_eq hbase (mem_tmdIds_write.mpr (.inl rfl)) (fun id hid => ?_) hlt.ne⟩
  rcases mem_tmdIds_write.mp hid with hname | hid
  · cases hname
    exact le_rfl
  · exact hle id hid

end Folder

/-- The content folders by the identifiers of the titles. -/
abbrev Titles := Nat → Folder

/-- A file in the folder of a title. -/
abbrev ContentPath := Nat × FileName

/-- The contents of the metadata are in a subfolder. -/
def inSubfolder (tmd : TitleMetadata) : Bool :=
  decide (1 < tmd.getContentCount) && tmd.chunks[1]?.any ContentChunk.isOptional

namespace Titles

def find (titles : Titles) (path : ContentPath) : Option FileData := (titles path.1).find path.2

def delete (titles : Titles) (path : ContentPath) : Titles :=
  Function.update titles path.1 ((titles path.1).delete path.2)

def write (titles : Titles) (path : ContentPath) (data : FileData) : Titles :=
  Function.update titles path.1 ((titles path.1).write path.2 data)

/-- `TitleMetadata::Load` from a file. -/
def load (titles : Titles) (path : ContentPath) : Option TitleMetadata :=
  match titles.find path with
  | some (.tmd tmd) => some tmd
  | _ => none

def getTitleMetadataPath (titles : Titles) (tid : Nat) (update : Bool) : ContentPath :=
  (tid, .tmd (if update then (titles tid).updateId else (titles tid).baseId))

/-- `GetTitleContentPath`; there is no path for a content that the metadata does not list. -/
def getTitleContentPath (titles : Titles) (tid index : Nat) (update : Bool) :
    Option ContentPath :=
  match titles.load (titles.getTitleMetadataPath tid update) with
  | some tmd => tmd.chunks[index]?.map fun chunk => (tid, .app (inSubfolder tmd) chunk.id)
  | none => some (tid, .app false 0)

variable {titles : Titles} {path other : ContentPath} {data : FileData} {tid i b : Nat}
  {tmd : TitleMetadata} {update : Bool}

theorem find_write : (titles.write path data).find other =
    if other = path then some data else titles.find other := by
  obtain ⟨tid, name⟩ := path
  obtain ⟨otherTid, otherName⟩ := other
  by_cases h : otherTid = tid
  · subst h
    simp [write, find, Folder.find_write]
  · simp [write, find, h]

theorem find_delete : (titles.delete path).find other =
    if other = path then none else titles.find other := by
  obtain ⟨tid, name⟩ := path
  obtain ⟨otherTid, otherName⟩ := other
  by_cases h : otherTid = tid
  · subst h
    simp [delete, find, Folder.find_delete]
  · simp [delete, find, h]

theorem load_of_find {others : Titles} (h : others.find other = titles.find other) :
    others.load other = titles.load other := by
  rw [load, load, h]

theorem load_write_self : (titles.write path (.tmd tmd)).load path = some tmd := by
  rw [load, find_write, if_pos rfl]

theorem load_write_of_ne (h : other ≠ path) : (titles.write path data).load other = titles.load other :=
  load_of_find (find_write.trans (if_neg h))

theorem load_delete_of_ne (h : other ≠ path) : (titles.delete path).load other = titles.load other :=
  load_of_find (find_delete.trans (if_neg h))

theorem isSome_find_of_load (h : titles.load path = some tmd) : (titles.find path).isSome = true := by
  unfold load at h
  cases hfind : titles.find path with
  | none => simp [hfind] at h
  | some data => rfl

theorem getTitleMetadataPath_base (h : (titles tid).IsBase b) :
    titles.getTitleMetadataPath tid false = (tid, .tmd b) := by
  simp [getTitleMetadataPath, h.baseId_eq]

theorem fst_getTitleContentPath (h : titles.getTitleContentPath tid i update = some path) :
    path.1 = tid := by
  unfold getTitleContentPath at h
  cases hload : titles.load (titles.getTitleMetadataPath tid update) with
  | none =>
      rw [hload] at h
      exact congrArg Prod.fst (Option.some.inj h).symm
  | some tmd =>
      rw [hload] at h
      obtain ⟨chunk, -, rfl⟩ := Option.map_eq_some_iff.mp h
      rfl

theorem getTitleContentPath_eq (hload : titles.load (titles.getTitleMetadataPath tid update) = some tmd)
    (h : titles.getTitleContentPath tid i update = some path) :
    ∃ chunk ∈ tmd.chunks, path = (tid, .app (inSubfolder tmd) chunk.id) := by
  rw [getTitleContentPath, hload] at h
  obtain ⟨chunk, hchunk, rfl⟩ := Option.map_eq_some_iff.mp h
  exact ⟨chunk, List.mem_of_getElem? hchunk, rfl⟩

end Titles

end Cytrus.Am
