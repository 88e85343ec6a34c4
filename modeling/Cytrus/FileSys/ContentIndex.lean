import Mathlib
import Cytrus.FileSys.Ticket

/-!
# The rights of a ticket

The blob of a ticket starts with a header that says where further headers are,
and these say where the fields with the rights are. Only the first header is
checked; all offsets and counts are used as they are.

## Main results

* `hasRights_isSome_iff`: the blobs that are only read inside of them
* `restores_and_inside_iff`: the tickets that are loaded again as they were and
  whose blobs are only read inside of them

## Implementation notes

A read of the blob that ends behind it has no result. The product of a
big-endian field and a number has the type of the field, so the distance of two
headers is cut to 16 bits.
-/

namespace Cytrus.FileSys

open Support

/-- `sizeof(MainHeader)`. -/
def mainHeaderSize : Nat := 0x14

/-- `sizeof(IndexHeader)`. -/
def indexHeaderSize : Nat := 0x14

/-- `sizeof(RightsField)`. -/
def rightsFieldSize : Nat := 0x84

/-- `RightsField`, as far as it is looked at. -/
structure RightsField where
  startIndex : Nat
  rights : List UInt8
  deriving DecidableEq

/-- `ContentIndex`, with the rights once they are there. -/
structure ContentIndex where
  contentIndex : List UInt8
  rights : Option (List RightsField) := none
  deriving DecidableEq

namespace ContentIndex

/-- A field of a header in the blob. -/
def readField (blob : List UInt8) (i width : Nat) : Option Nat :=
  if i + width ≤ blob.length then some (bigEndianAt blob i width) else none

def readRightsField (blob : List UInt8) (i : Nat) : Option RightsField :=
  (slice blob i rightsFieldSize).map fun field => ⟨bigEndianAt field 2 2, field.drop 4⟩

/-- Where the field is that a header has counted. -/
def fieldOffset (dataOffset j : Nat) : Nat := dataOffset + rightsFieldSize * j % 2 ^ 32

/-- Where the index header is. -/
def headerOffset (headersOffset i : Nat) : Nat := headersOffset + indexHeaderSize * i % 2 ^ 16

/-- The fields of the index header at `header`. -/
def readIndexHeader (blob : List UInt8) (header : Nat) : Option (List RightsField) := do
  let type ← readField blob (header + 16) 2
  if type ≠ 3 then return []
  let entrySize ← readField blob (header + 8) 4
  if entrySize ≠ rightsFieldSize then return []
  let entryCount ← readField blob (header + 4) 4
  (List.range entryCount).mapM fun j => do
    let dataOffset ← readField blob header 4
    readRightsField blob (fieldOffset dataOffset j)

/-- The first header is as it has to be. -/
def MainHeaderValid (blob : List UInt8) : Prop :=
  mainHeaderSize ≤ blob.length ∧ bigEndianAt blob 0 2 = 1 ∧ bigEndianAt blob 2 2 = mainHeaderSize ∧
    bigEndianAt blob 4 4 = blob.length ∧ bigEndianAt blob 14 2 = indexHeaderSize

instance (blob : List UInt8) : Decidable (MainHeaderValid blob) :=
  inferInstanceAs (Decidable (_ ∧ _ ∧ _ ∧ _ ∧ _))

/-- `Initialize`: nothing if a read ends behind the blob, no rights if it returns early. -/
def initializeRights (blob : List UInt8) : Option (Option (List RightsField)) :=
  if MainHeaderValid blob then do
    let fields ← (List.range (bigEndianAt blob 12 2)).mapM fun i =>
      readIndexHeader blob (headerOffset (bigEndianAt blob 8 4) i)
    return some fields.flatten
  else some none

/-- The loop of `HasRights` over the fields. -/
def hasRight (index : Nat) : List RightsField → Bool
  | [] => false
  | field :: rest =>
      if index < field.startIndex then false
      else
        let bitPos := index - field.startIndex
        if 1024 ≤ bitPos then hasRight index rest
        else if (field.rights.getD (bitPos / 8) 0).toNat.testBit (bitPos % 8) then true
        else hasRight index rest

def answer (rights : List RightsField) (index : Nat) : Bool :=
  if rights = [] then index < 256 else hasRight index rights

def hasRights (c : ContentIndex) (index : Nat) : Option (Bool × ContentIndex) :=
  match c.rights with
  | some rights => some (answer rights index, c)
  | none => do
      match ← initializeRights c.contentIndex with
      | none => return (false, c)
      | some rights => return (answer rights index, { c with rights := some rights })

/-! ## Reads inside of the blob -/

variable {blob : List UInt8} {header : Nat}

theorem readField_of_le {i width : Nat} (h : i + width ≤ blob.length) :
    readField blob i width = some (bigEndianAt blob i width) :=
  if_pos h

theorem readRightsField_isSome_iff {i : Nat} :
    (readRightsField blob i).isSome = true ↔ i + rightsFieldSize ≤ blob.length := by
  unfold readRightsField slice
  split_ifs with h
  · simp [h]
  · simp [h]

theorem mapM_isSome_iff {α β : Type} {f : α → Option β} {l : List α} :
    (l.mapM f).isSome = true ↔ ∀ a ∈ l, (f a).isSome = true := by
  induction l with
  | nil => simp
  | cons a l ih =>
      rw [List.mapM_cons, List.forall_mem_cons, ← ih]
      cases f a with
      | none => simp
      | some b =>
          cases l.mapM f with
          | none => simp
          | some bs => simp

/-- The fields that an index header has counted end inside of the blob. -/
def FieldsInside (blob : List UInt8) (header : Nat) : Prop :=
  bigEndianAt blob (header + 4) 4 = 0 ∨
    bigEndianAt blob header 4 + rightsFieldSize * bigEndianAt blob (header + 4) 4 ≤ blob.length

/-- The type of an index header ends inside of the blob, and so do the fields that it has
counted, if they are fields of rights. -/
def HeaderInside (blob : List UInt8) (header : Nat) : Prop :=
  header + 18 ≤ blob.length ∧
    (bigEndianAt blob (header + 16) 2 = 3 → bigEndianAt blob (header + 8) 4 = rightsFieldSize →
      FieldsInside blob header)

/-- All index headers of a blob that is looked into are inside. -/
def Inside (blob : List UInt8) : Prop :=
  MainHeaderValid blob → ∀ i < bigEndianAt blob 12 2,
    HeaderInside blob (headerOffset (bigEndianAt blob 8 4) i)

/-- A blob of less than `2 ^ 32` bytes ends before the offsets of its fields wrap around. -/
theorem fields_inside_iff {dataOffset count : Nat} (hblob : blob.length < 2 ^ 32) :
    (∀ j < count, fieldOffset dataOffset j + rightsFieldSize ≤ blob.length) ↔
      count = 0 ∨ dataOffset + rightsFieldSize * count ≤ blob.length := by
  unfold fieldOffset rightsFieldSize
  constructor
  · intro h
    by_cases hcount : count = 0
    · exact .inl hcount
    right
    by_cases hsmall : count ≤ 2 ^ 32 / 0x84
    · have hlast := h (count - 1) (by omega)
      rw [Nat.mod_eq_of_lt (by omega)] at hlast
      omega
    · -- the field before the offsets wrap around ends behind the blob already
      have hlast := h (2 ^ 32 / 0x84) (by omega)
      rw [Nat.mod_eq_of_lt (by omega)] at hlast
      omega
  · rintro (rfl | h) j hj
    · exact absurd hj (Nat.not_lt_zero j)
    · rw [Nat.mod_eq_of_lt (by omega)]
      omega

theorem readIndexHeader_isSome_iff (hblob : blob.length < 2 ^ 32) :
    (readIndexHeader blob header).isSome = true ↔ HeaderInside blob header := by
  unfold HeaderInside readIndexHeader
  by_cases htype : header + 18 ≤ blob.length
  · rw [readField_of_le (by omega), readField_of_le (by omega), readField_of_le (by omega)]
    simp only [Option.bind_eq_bind, Option.bind_some]
    by_cases hthree : bigEndianAt blob (header + 16) 2 = 3
    · by_cases hentry : bigEndianAt blob (header + 8) 4 = rightsFieldSize
      · have hfields : (∀ j < bigEndianAt blob (header + 4) 4,
            fieldOffset (bigEndianAt blob header 4) j + rightsFieldSize ≤ blob.length) ↔
              FieldsInside blob header := fields_inside_iff hblob
        rw [readField_of_le (by omega)]
        simp only [hthree, hentry, ne_eq, not_true_eq_false, if_false, Option.bind_some, htype,
          mapM_isSome_iff, List.mem_range, readRightsField_isSome_iff, hfields,
          true_and, forall_const]
      · simp [hthree, hentry, htype]
    · simp [hthree, htype]
  · have hnone : readField blob (header + 16) 2 = none := if_neg (by omega)
    simp [hnone, htype]

theorem initializeRights_isSome_iff (hblob : blob.length < 2 ^ 32) :
    (initializeRights blob).isSome = true ↔ Inside blob := by
  unfold initializeRights Inside
  split_ifs with hvalid
  · have hloop : ((List.range (bigEndianAt blob 12 2)).mapM fun i =>
        readIndexHeader blob (headerOffset (bigEndianAt blob 8 4) i)).isSome = true ↔
          ∀ i < bigEndianAt blob 12 2, HeaderInside blob (headerOffset (bigEndianAt blob 8 4) i) := by
      rw [mapM_isSome_iff]
      simp only [List.mem_range, readIndexHeader_isSome_iff hblob]
    simp only [hvalid, forall_const]
    rw [← hloop]
    cases (List.range (bigEndianAt blob 12 2)).mapM fun i =>
        readIndexHeader blob (headerOffset (bigEndianAt blob 8 4) i) with
    | none => simp
    | some fields => simp
  · simp [hvalid]

/-- The blobs that are only read inside of them, whichever content is asked for. -/
theorem hasRights_isSome_iff (hblob : blob.length < 2 ^ 32) (index : Nat) :
    (hasRights { contentIndex := blob } index).isSome = true ↔ Inside blob := by
  rw [← initializeRights_isSome_iff hblob]
  unfold hasRights
  cases initializeRights blob with
  | none => simp
  | some rights =>
      cases rights with
      | none => simp
      | some rights => simp

end ContentIndex

/-! ## Tickets -/

namespace Ticket

/-- A ticket that is accepted is loaded again as it was, and only bytes inside of its blob are
read for any content, if and only if it can be restored and its headers lead into the blob. -/
theorem restores_and_inside_iff (data : List UInt8) (offset : Nat) (t : Ticket)
    (h : read data offset = .ok (some t)) :
    (t.Restores ∧ ∀ index < 2 ^ 16,
      (ContentIndex.hasRights { contentIndex := t.contentIndex } index).isSome = true) ↔
        t.Restorable ∧ ContentIndex.Inside t.contentIndex := by
  have hloaded := loaded_of_read h
  rw [restores_iff hloaded]
  apply and_congr_right
  intro _
  constructor
  · exact fun hinside => (ContentIndex.hasRights_isSome_iff hloaded.contentIndex_lt 0).mp
      (hinside 0 (by decide))
  · exact fun hinside index _ =>
      (ContentIndex.hasRights_isSome_iff hloaded.contentIndex_lt index).mpr hinside

/-- A ticket with a signature that ends at a multiple of 64 bytes. -/
def shortSignature : Ticket where
  signatureType := 0x10005
  ticketSignature := List.replicate 0x3C 0
  ticketBody := List.replicate 0x164 1
  contentIndex := [0, 0, 0, 0, 0, 0, 0, 8]
  serializedSize := 0x1AC

def shortSignatureBytes : List UInt8 :=
  [0, 1, 0, 5] ++ List.replicate 0x3C 0 ++ List.replicate 0x164 1 ++ [0, 0, 0, 0, 0, 0, 0, 8]

theorem read_shortSignature : read shortSignatureBytes 0 = .ok (some shortSignature) := by
  decide +kernel

theorem restores_and_inside_shortSignature :
    (shortSignature.Restores ∧ ∀ index < 2 ^ 16, (ContentIndex.hasRights
      { contentIndex := shortSignature.contentIndex } index).isSome = true) ↔
        shortSignature.Restorable ∧ ContentIndex.Inside shortSignature.contentIndex :=
  restores_and_inside_iff shortSignatureBytes 0 shortSignature read_shortSignature

/-- The ticket is accepted, and not loaded again as it was. -/
theorem shortSignature_not_restores :
    read shortSignatureBytes 0 = .ok (some shortSignature) ∧ ¬ shortSignature.Restores := by
  refine ⟨read_shortSignature, fun h => ?_⟩
  rw [restores_iff (loaded_of_read read_shortSignature), Restorable, if_pos (by decide)] at h
  exact absurd h.2 (by decide)

end Ticket

end Cytrus.FileSys
