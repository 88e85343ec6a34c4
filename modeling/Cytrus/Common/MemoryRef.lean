import Cytrus.Support.Exec

/-!
# Machine words, aborts, and host memory references

Addresses and sizes are natural numbers below `2^32`; the operations that can
wrap around in the source are written with `add32` and `sub32`.

A `MemoryRef` is an offset into one host buffer. Two references from different
buffers may hold the same pointer; the remaining size is that of the buffer.
-/

namespace Cytrus

open Support

def add32 (a b : Nat) : Nat := (a + b) % 2 ^ 32

def sub32 (a b : Nat) : Nat := (2 ^ 32 + a - b) % 2 ^ 32

theorem add32_of_lt {a b : Nat} (h : a + b < 2 ^ 32) : add32 a b = a + b :=
  Nat.mod_eq_of_lt h

theorem sub32_of_le {a b : Nat} (h : b ≤ a) (ha : a < 2 ^ 32) : sub32 a b = a - b := by
  unfold sub32
  omega

theorem add32_lt (a b : Nat) : add32 a b < 2 ^ 32 := Nat.mod_lt _ (by decide)

theorem sub32_lt (a b : Nat) : sub32 a b < 2 ^ 32 := Nat.mod_lt _ (by decide)

/-- The reasons for which a modelled call aborts. -/
inductive Fault where
  /-- A failed `ASSERT` of the kernel code. -/
  | assertFailed
  /-- The bounds assertion of `MemoryRef::operator+` and `operator+=`. -/
  | memoryRefOffset
  /-- A dereference of a past-the-end iterator. -/
  | invalidIterator
  /-- An index past the end of an array. -/
  | outOfBounds
  /-- Code marked `UNREACHABLE`. -/
  | unreachable
  /-- A loop bound of the model was too small. -/
  | outOfFuel
  deriving DecidableEq, Repr

/-- The result codes that the modelled calls return. -/
inductive ResultCode where
  | misalignedAddress
  | misalignedSize
  | invalidAddress
  | invalidAddressState
  | invalidCombination
  | wrongPermission
  | outOfMemory
  | outOfHeapMemory
  | outOfHandles
  | invalidHandle
  | commandTooLarge
  | outOfRange
  | notAuthorized
  | wrongLockingThread
  | invalidResultValue
  | sessionClosed
  | timeout
  | noPendingSessions
  | invalidEnumValue
  deriving DecidableEq, Repr

/-- A host buffer: where it lies and how long it is. -/
structure BackingMem where
  ptr : Nat
  size : Nat
  deriving DecidableEq, Repr

/-- A managed reference to host memory. -/
structure MemoryRef where
  backingMem : Option BackingMem := none
  offset : Nat := 0
  deriving DecidableEq, Repr

namespace MemoryRef

def null : MemoryRef := {}

/-- The host pointer, zero for the null reference. -/
def getPtr (r : MemoryRef) : Nat :=
  match r.backingMem with
  | some mem => mem.ptr + r.offset
  | none => 0

/-- How many bytes of the buffer lie at or after the reference. -/
def getSize (r : MemoryRef) : Nat :=
  match r.backingMem with
  | some mem => mem.size - r.offset
  | none => 0

/-- The reference some bytes further into its buffer. -/
def plus (r : MemoryRef) (offsetBy : Nat) : MemoryRef :=
  { r with offset := r.offset + offsetBy }

/-- `operator+` and `operator+=` with their assertion. -/
def advance {ε σ : Type} (r : MemoryRef) (offsetBy : Nat) : Exec Fault ε σ MemoryRef := do
  Exec.assert .memoryRefOffset (offsetBy < r.getSize)
  pure (r.plus offsetBy)

@[simp] theorem getPtr_null : null.getPtr = 0 := rfl

@[simp] theorem plus_offset (r : MemoryRef) (n : Nat) :
    (r.plus n).offset = r.offset + n := rfl

theorem getPtr_plus {r : MemoryRef} {n : Nat} (h : n < r.getSize) :
    (r.plus n).getPtr = r.getPtr + n := by
  unfold getSize at h
  unfold getPtr plus
  cases hb : r.backingMem with
  | none => simp [hb] at h
  | some mem => simp; omega

end MemoryRef

end Cytrus
