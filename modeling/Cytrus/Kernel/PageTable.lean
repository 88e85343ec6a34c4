import Cytrus.Common.MemoryRef

/-!
# Page tables

The page table of a process holds, for each page number, an attribute and the
host memory behind the page. Pages that the rasterizer has cached keep their
attribute and lose their pointer.
-/

namespace Cytrus.Memory

open Support

def pageSize : Nat := 0x1000
def pageMask : Nat := pageSize - 1
def pageTableNumEntries : Nat := 2 ^ 20

inductive PageType where
  | unmapped
  | memory
  | rasterizerCachedMemory
  deriving DecidableEq, Repr

/-- One slot of the `attributes` and `pointers` arrays. -/
structure PageEntry where
  attributes : PageType
  pointer : MemoryRef
  deriving DecidableEq, Repr

abbrev PageTable := Nat → PageEntry

def PageTable.clear : PageTable := fun _ => ⟨.unmapped, .null⟩

/-- What `MapPages` stores for one page, given the rasterizer's cache marks. -/
def pageEntry (isCached : Nat → Bool) (page : Nat) (memory : MemoryRef) (type : PageType) :
    PageEntry :=
  if type = .memory ∧ isCached (page * pageSize) = true then
    ⟨.rasterizerCachedMemory, .null⟩
  else ⟨type, memory⟩

/-- `MemorySystem::MapPages` from page `base` on; `none` is its range assertion. The reference
steps through its buffer and stays at the last page of a buffer that is too short. -/
def mapPages (isCached : Nat → Bool) (type : PageType) :
    PageTable → Nat → Nat → MemoryRef → Option PageTable
  | table, _, 0, _ => some table
  | table, base, count + 1, memory =>
      if base < pageTableNumEntries then
        mapPages isCached type
          (Function.update table base (pageEntry isCached base memory type)) (base + 1) count
          (if memory.getPtr ≠ 0 ∧ pageSize < memory.getSize then memory.plus pageSize else memory)
      else none

theorem exists_mapPages (isCached : Nat → Bool) (type : PageType) (table : PageTable)
    (base count : Nat) (memory : MemoryRef) (h : base + count ≤ pageTableNumEntries) :
    ∃ table', mapPages isCached type table base count memory = some table' := by
  induction count generalizing table base memory with
  | zero => exact ⟨table, rfl⟩
  | succ count ih =>
      rw [mapPages, if_pos (by omega)]
      exact ih _ _ _ (by omega)

theorem mapPages_clear (isCached : Nat → Bool) (base count : Nat)
    (h : base + count ≤ pageTableNumEntries) :
    mapPages isCached .unmapped PageTable.clear base count .null = some PageTable.clear := by
  induction count generalizing base with
  | zero => rfl
  | succ count ih =>
      have hslot : Function.update PageTable.clear base (pageEntry isCached base .null .unmapped) =
          PageTable.clear := by
        rw [Function.update_eq_self_iff]
        rfl
      rw [mapPages, if_pos (by omega), hslot, if_neg (by simp)]
      exact ih (base + 1) (by omega)

end Cytrus.Memory
