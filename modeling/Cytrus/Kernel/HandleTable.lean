import Cytrus.Common.MemoryRef

/-!
# Handle tables

A handle names a slot and the generation the slot had when the handle was
created. The generations of empty slots double as the links of a list of free
slots. A run is kept together with the log of all handles that were created,
so that the table can be compared with what its users know.

## Implementation notes

`GetSlot` returns a `u16`, so it drops the topmost bit of its 17-bit field: two
values that differ in that bit select the same slot. The two arrays are
functions of which only the first `maxCount` values are looked at.
-/

namespace Cytrus.Kernel

open Support

/-- The limit of handles per process. -/
def maxCount : Nat := 4096

def currentThreadHandle : Nat := 0xFFFF8000
def currentProcessHandle : Nat := 0xFFFF8001

/-- The objects that the handles of a process refer to. -/
structure HandleTable (α : Type) where
  objects : Nat → Option α
  generations : Nat → Nat
  nextGeneration : Nat
  nextFreeSlot : Nat

/-- What the pseudo-handles stand for. -/
structure Current (α : Type) where
  thread : Option α
  process : Option α

namespace HandleTable

variable {α : Type}

/-- A call on a handle table. -/
abbrev Handles (α β : Type) := Exec Fault ResultCode (HandleTable α) β

/-- The conversion to `u16` is part of the function. -/
def getSlot (handle : Nat) : Nat := (handle >>> 15) % 2 ^ 16

def getGeneration (handle : Nat) : Nat := handle &&& 0x7FFF

/-- The handle of a slot in a generation. -/
def makeHandle (slot generation : Nat) : Nat := generation ||| (slot <<< 15)

/-- The counter after a handle was created: it fits in 15 bits, and 0 is not used. -/
def succGeneration (generation : Nat) : Nat :=
  if 2 ^ 15 ≤ generation + 1 then 1 else generation + 1

/-- Close all handles. -/
def clear (table : HandleTable α) : HandleTable α :=
  { table with
    objects := fun _ => none
    generations := fun i => i + 1
    nextFreeSlot := 0 }

/-- A new table. -/
def new : HandleTable α :=
  clear { objects := fun _ => none, generations := fun _ => 0, nextGeneration := 1, nextFreeSlot := 0 }

/-- The table after an object was put into the first free slot. -/
def occupied (table : HandleTable α) (obj : α) : HandleTable α where
  objects := Function.update table.objects table.nextFreeSlot (some obj)
  generations := Function.update table.generations table.nextFreeSlot table.nextGeneration
  nextGeneration := succGeneration table.nextGeneration
  nextFreeSlot := table.generations table.nextFreeSlot

/-- The table after a slot was emptied. -/
def emptied (table : HandleTable α) (slot : Nat) : HandleTable α :=
  { table with
    objects := Function.update table.objects slot none
    generations := Function.update table.generations slot table.nextFreeSlot
    nextFreeSlot := slot }

def create (obj : α) : Handles α Nat := do
  let table ← Exec.get
  Exec.require .outOfHandles (table.nextFreeSlot < maxCount)
  Exec.modify fun table => table.occupied obj
  pure (makeHandle table.nextFreeSlot table.nextGeneration)

def isValid (table : HandleTable α) (handle : Nat) : Bool :=
  getSlot handle < maxCount && (table.objects (getSlot handle)).isSome &&
    table.generations (getSlot handle) = getGeneration handle

def getGeneric (table : HandleTable α) (current : Current α) (handle : Nat) : Option α :=
  if handle = currentThreadHandle then current.thread
  else if handle = currentProcessHandle then current.process
  else if table.isValid handle then table.objects (getSlot handle)
  else none

def duplicate (current : Current α) (handle : Nat) : Handles α Nat := do
  let table ← Exec.get
  match table.getGeneric current handle with
  | some object => create object
  | none => Exec.throw .invalidHandle

def close (handle : Nat) : Handles α PUnit := do
  let table ← Exec.get
  Exec.require .invalidHandle (table.isValid handle = true)
  Exec.modify fun table => table.emptied (getSlot handle)

theorem create_of_lt {table : HandleTable α} (h : table.nextFreeSlot < maxCount) (obj : α) :
    create obj table =
      .value (makeHandle table.nextFreeSlot table.nextGeneration) (table.occupied obj) :=
  Exec.Post.eq_value (by simp [create, h])

theorem create_of_le {table : HandleTable α} (h : maxCount ≤ table.nextFreeSlot) (obj : α) :
    create obj table = .error .outOfHandles table :=
  Exec.Post.eq_error (by simp [create, h])

theorem close_of_valid {table : HandleTable α} {handle : Nat} (h : table.isValid handle = true) :
    close handle table = .value ⟨⟩ (table.emptied (getSlot handle)) :=
  Exec.Post.eq_value (by simp [close, h])

theorem close_of_invalid {table : HandleTable α} {handle : Nat}
    (h : table.isValid handle = false) : close handle table = .error .invalidHandle table :=
  Exec.Post.eq_error (by simp [close, h])

/-! ## Handles as numbers -/

theorem getSlot_eq (handle : Nat) : getSlot handle = handle / 2 ^ 15 % 2 ^ 16 := by
  rw [getSlot, Nat.shiftRight_eq_div_pow]

theorem getGeneration_eq (handle : Nat) : getGeneration handle = handle % 2 ^ 15 :=
  Nat.and_two_pow_sub_one_eq_mod handle 15

variable {slot generation handle : Nat}

theorem makeHandle_eq (hg : generation < 2 ^ 15) :
    makeHandle slot generation = slot * 2 ^ 15 + generation := by
  rw [makeHandle, Nat.or_comm, ← Nat.shiftLeft_add_eq_or_of_lt hg, Nat.shiftLeft_eq]

/-- A value selects a slot and a generation exactly when it is their handle, up to the topmost
bit. -/
theorem selects_iff (hs : slot < maxCount) (hg : generation < 2 ^ 15) :
    getSlot handle = slot ∧ getGeneration handle = generation ↔
      handle % 2 ^ 31 = makeHandle slot generation := by
  rw [getSlot_eq, getGeneration_eq, makeHandle_eq hg]
  unfold maxCount at hs
  omega

theorem makeHandle_lt (hs : slot < maxCount) (hg : generation < 2 ^ 15) :
    makeHandle slot generation < 2 ^ 27 := by
  rw [makeHandle_eq hg]
  unfold maxCount at hs
  omega

end HandleTable

end Cytrus.Kernel
