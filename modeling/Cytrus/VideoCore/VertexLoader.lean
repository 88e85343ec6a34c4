import Mathlib
import Cytrus.VideoCore.PicaRegisters
import Cytrus.VideoCore.TextureCodec

/-!
# Vertices on their way through the shader unit

The vertex loader finds each attribute of a vertex in memory, from descriptions
that are in the registers, or takes its default. An attribute that is neither
found nor has a default is left as it is.

The attributes go to the input registers of the shader unit, and the output
registers of the mask go to the attributes that are submitted.

## Main results

* `loadVertex_eq`: loading depends only on what it leaves as it is
* `loadInput_input_eq`: an input register that an attribute goes to
* `submitted_writeOutput`: the attributes that are submitted

## Implementation notes

A buffer of attributes is a function of the place, of which sixteen are used. The
floats are arbitrary: all that is done with them is to make them of small integers
and of thirty-two bits.
-/

namespace Cytrus.VideoCore.Pica

/-- `f24::FromFloat32`, of an integer and of the bits of a float. -/
structure Floats (F : Type) where
  ofInt : Int → F
  ofBits : UInt32 → F

/-- `GetPhysicalPointer`, as the bytes from an address on. -/
abbrev PhysicalMemory := UInt32 → Nat → UInt8

abbrev AttributeBuffer (F : Type) := Nat → Vec4 F

def halfAt (bytes : Nat → UInt8) (i : Nat) : UInt16 :=
  (bytes (2 * i)).toUInt16 ||| ((bytes (2 * i + 1)).toUInt16 <<< 8)

def wordAt (bytes : Nat → UInt8) (i : Nat) : UInt32 :=
  (halfAt bytes (2 * i)).toUInt32 ||| ((halfAt bytes (2 * i + 1)).toUInt32 <<< 16)

/-! ## Registers -/

section Registers

variable (regs : Fin 0x300 → UInt32)

def physicalBaseAddress : UInt32 := bits 1 28 (regAt regs 0x200) * 16
def attributeMask : UInt32 := bits 16 12 (regAt regs 0x202)
def maxAttributeIndex : UInt32 := bits 28 4 (regAt regs 0x202)

def getFormat (n : UInt32) : UInt32 :=
  if n < 8 then bits (4 * n) 2 (regAt regs 0x201) else bits (4 * (n - 8)) 2 (regAt regs 0x202)

def getNumElements (n : UInt32) : UInt32 :=
  (if n < 8 then bits (4 * n + 2) 2 (regAt regs 0x201) else bits (4 * (n - 8) + 2) 2 (regAt regs 0x202)) + 1

def getElementSizeInBytes (n : UInt32) : UInt32 :=
  if getFormat regs n = 3 then 4 else if getFormat regs n = 2 then 2 else 1

def getStride (n : UInt32) : UInt32 := getNumElements regs n * getElementSizeInBytes regs n

def isDefaultAttribute (id : Nat) : Bool := 12 ≤ id || (attributeMask regs).toNat.testBit id

def getNumTotalAttributes : Nat := (maxAttributeIndex regs + 1).toNat

section AttributeLoader

variable (loader : Nat)

def dataOffset : UInt32 := bits 0 28 (regAt regs (0x203 + 3 * loader))

def getComponent (n : UInt32) : UInt32 :=
  if n < 8 then bits (4 * n) 4 (regAt regs (0x204 + 3 * loader))
  else bits (4 * (n - 8)) 4 (regAt regs (0x205 + 3 * loader))

def byteCount : UInt32 := bits 16 8 (regAt regs (0x205 + 3 * loader))

def componentCount : UInt32 := bits 28 4 (regAt regs (0x205 + 3 * loader))

end AttributeLoader

def maxInputAttributeIndex : UInt32 := bits 0 4 (regAt regs 0x2b9)
def inputAttributeToRegisterMapLow : UInt32 := regAt regs 0x2bb
def inputAttributeToRegisterMapHigh : UInt32 := regAt regs 0x2bc
def outputMask : UInt32 := bits 0 16 (regAt regs 0x2bd)

def getRegisterForAttribute (attributeIndex : Nat) : Nat :=
  let map := ((inputAttributeToRegisterMapHigh regs).toUInt64 <<< 32) |||
    (inputAttributeToRegisterMapLow regs).toUInt64
  ((map >>> (attributeIndex * 4).toUInt64) &&& 0xF).toNat

/-- `BitSet`, of the mask. -/
def outputRegisters : List Nat :=
  (List.range 32).filter fun reg => (outputMask regs).toNat.testBit reg

end Registers

/-! ## The vertex loader -/

structure VertexLoader where
  numTotalAttributes : Nat
  vertexAttributeSources : Nat → UInt32
  vertexAttributeStrides : Nat → UInt32
  vertexAttributeFormats : Nat → UInt32
  vertexAttributeElements : Nat → UInt32
  vertexAttributeIsDefault : Nat → Bool

namespace VertexLoader

section New

variable (regs : Fin 0x300 → UInt32)

/-- One component of an attribute loader, with the offset in its data. -/
def addComponent (loader : Nat) (acc : VertexLoader × UInt32) (component : Nat) :
    VertexLoader × UInt32 :=
  if 12 ≤ component then acc
  else
    let attributeIndex := getComponent regs loader component.toUInt32
    if attributeIndex < 12 then
      let i := attributeIndex.toNat
      let offset := alignUp acc.2 (getElementSizeInBytes regs attributeIndex)
      let sources := Function.update acc.1.vertexAttributeSources i (dataOffset regs loader + offset)
      let strides := Function.update acc.1.vertexAttributeStrides i (byteCount regs loader)
      let formats := Function.update acc.1.vertexAttributeFormats i (getFormat regs attributeIndex)
      let elements :=
        Function.update acc.1.vertexAttributeElements i (getNumElements regs attributeIndex)
      ({ acc.1 with
          vertexAttributeSources := sources
          vertexAttributeStrides := strides
          vertexAttributeFormats := formats
          vertexAttributeElements := elements },
        offset + getStride regs attributeIndex)
    -- The other attributes are paddings of four to sixteen bytes.
    else (acc.1, alignUp acc.2 4 + (attributeIndex - 11) * 4)

/-- The constructor. The formats are not set before an attribute has elements. -/
def new : VertexLoader :=
  (List.range 12).foldl
    (fun l loader =>
      ((List.range (componentCount regs loader).toNat).foldl (addComponent regs loader) (l, 0)).1)
    { numTotalAttributes := getNumTotalAttributes regs
      vertexAttributeSources := fun _ => 0xdeadbeef
      vertexAttributeStrides := fun _ => 0
      vertexAttributeFormats := fun _ => 0
      vertexAttributeElements := fun _ => 0
      vertexAttributeIsDefault := isDefaultAttribute regs }

end New

variable {F : Type} (floats : Floats F) (memory : PhysicalMemory) (l : VertexLoader)

/-- One component, at its place in the data. -/
def component (format : UInt32) (data : Nat → UInt8) (comp : Nat) : F :=
  if format = 0 then floats.ofInt (data comp).toInt8.toInt
  else if format = 1 then floats.ofInt (data comp).toNat
  else if format = 2 then floats.ofInt (halfAt data comp).toInt16.toInt
  else floats.ofBits (wordAt data comp)

/-- What an attribute is loaded with, if it is. -/
def attributeValue (baseAddress vertex : UInt32) (inputDefaultAttributes : AttributeBuffer F)
    (i : Nat) : Option (Vec4 F) :=
  if l.vertexAttributeIsDefault i then some (inputDefaultAttributes i)
  else if l.vertexAttributeElements i = 0 then none
  else
    let sourceAddr :=
      baseAddress + l.vertexAttributeSources i + l.vertexAttributeStrides i * vertex
    let comp (k : Nat) : F :=
      if k < (l.vertexAttributeElements i).toNat then
        component floats (l.vertexAttributeFormats i) (memory sourceAddr) k
      else floats.ofInt (if k = 3 then 1 else 0)
    some ⟨comp 0, comp 1, comp 2, comp 3⟩

def loadVertex (baseAddress vertex : UInt32) (input inputDefaultAttributes : AttributeBuffer F) :
    AttributeBuffer F :=
  (List.range l.numTotalAttributes).foldl
    (fun input i =>
      (l.attributeValue floats memory baseAddress vertex inputDefaultAttributes i).elim input
        (Function.update input i))
    input

end VertexLoader

/-! ## The shader unit -/

structure ShaderUnit (F : Type) where
  addressRegisters : Fin 3 → Int32
  conditionalCode : Fin 2 → Bool
  input : Nat → Vec4 F
  temporary : Nat → Vec4 F
  output : Nat → Vec4 F

namespace ShaderUnit

/-- All registers are zero. -/
def initial {F : Type} (floats : Floats F) : ShaderUnit F where
  addressRegisters := fun _ => 0
  conditionalCode := fun _ => false
  input := fun _ => ⟨floats.ofBits 0, floats.ofBits 0, floats.ofBits 0, floats.ofBits 0⟩
  temporary := fun _ => ⟨floats.ofBits 0, floats.ofBits 0, floats.ofBits 0, floats.ofBits 0⟩
  output := fun _ => ⟨floats.ofBits 0, floats.ofBits 0, floats.ofBits 0, floats.ofBits 0⟩

variable {F : Type} (regs : Fin 0x300 → UInt32) (unit : ShaderUnit F)

def loadInput (buffer : AttributeBuffer F) : ShaderUnit F :=
  { unit with
    input := (List.range ((maxInputAttributeIndex regs).toNat + 1)).foldl
      (fun input attr => Function.update input (getRegisterForAttribute regs attr) (buffer attr))
      unit.input }

def writeOutput (buffer : AttributeBuffer F) : AttributeBuffer F :=
  (outputRegisters regs).zipIdx.foldl
    (fun buffer reg => Function.update buffer reg.2 (unit.output reg.1)) buffer

end ShaderUnit

/-- The attributes of a buffer that the mask selects. -/
def selected {F : Type} (regs : Fin 0x300 → UInt32) (buffer : AttributeBuffer F) : List (Vec4 F) :=
  (List.range (outputRegisters regs).length).map buffer

/-! ## What is loaded, and what is submitted -/

section Updates

variable {ι κ β : Type*} [DecidableEq κ]

theorem foldl_update_eq_of_mem (key : ι → κ) (value : ι → β) {k : κ} {items : List ι}
    (h : ∃ i ∈ items, key i = k) (f g : κ → β) :
    items.foldl (fun f i => Function.update f (key i) (value i)) f k =
      items.foldl (fun f i => Function.update f (key i) (value i)) g k := by
  induction items using List.reverseRecOn with
  | nil =>
      obtain ⟨i, hi, -⟩ := h
      exact absurd hi List.not_mem_nil
  | append_singleton items last ih =>
      rw [List.foldl_append, List.foldl_append, List.foldl_cons, List.foldl_cons, List.foldl_nil,
        List.foldl_nil]
      by_cases hlast : k = key last
      · rw [hlast, Function.update_self, Function.update_self]
      · rw [Function.update_of_ne hlast, Function.update_of_ne hlast]
        apply ih
        obtain ⟨i, hi, hkey⟩ := h
        rcases List.mem_append.mp hi with hi | hi
        · exact ⟨i, hi, hkey⟩
        · rw [List.mem_singleton.mp hi] at hkey
          exact absurd hkey.symm hlast

theorem foldl_update_zipIdx_of_lt (value : ι → β) (items : List ι) {k n : Nat} (h : n < k)
    (f : Nat → β) :
    (items.zipIdx k).foldl (fun f i => Function.update f i.2 (value i.1)) f n = f n := by
  induction items generalizing k f with
  | nil => rfl
  | cons item rest ih =>
      rw [List.zipIdx_cons, List.foldl_cons, ih (Nat.lt_succ_of_lt h)]
      exact Function.update_of_ne h.ne _ _

theorem map_foldl_update_zipIdx (value : ι → β) (items : List ι) (k : Nat) (f : Nat → β) :
    (List.range' k items.length).map
      ((items.zipIdx k).foldl (fun f i => Function.update f i.2 (value i.1)) f) =
        items.map value := by
  induction items generalizing k f with
  | nil => rfl
  | cons item rest ih =>
      rw [List.length_cons, List.range'_succ, List.map_cons, List.map_cons, List.zipIdx_cons,
        List.foldl_cons, ih, foldl_update_zipIdx_of_lt value rest (Nat.lt_succ_self k)]
      rw [Function.update_self]

end Updates

variable {F : Type} {regs : Fin 0x300 → UInt32}

theorem selected_writeOutput (unit : ShaderUnit F) (buffer : AttributeBuffer F) :
    selected regs (unit.writeOutput regs buffer) = (outputRegisters regs).map unit.output := by
  rw [selected, List.range_eq_range']
  exact map_foldl_update_zipIdx unit.output (outputRegisters regs) 0 buffer

/-- An input register that an attribute goes to does not depend on what was there. -/
theorem loadInput_input_eq (unit unit' : ShaderUnit F) (buffer : AttributeBuffer F) {attr : Nat}
    (hattr : attr ≤ (maxInputAttributeIndex regs).toNat) :
    (unit.loadInput regs buffer).input (getRegisterForAttribute regs attr) =
      (unit'.loadInput regs buffer).input (getRegisterForAttribute regs attr) :=
  foldl_update_eq_of_mem (getRegisterForAttribute regs) buffer
    ⟨attr, List.mem_range.mpr (Nat.lt_succ_of_le hattr), rfl⟩ unit.input unit'.input

namespace VertexLoader

variable {floats : Floats F} {memory : PhysicalMemory} {l : VertexLoader}
  {baseAddress vertex : UInt32} {defaults : AttributeBuffer F}

/-- The attributes that are loaded, for all vertices. -/
def Loads (l : VertexLoader) (i : Nat) : Prop :=
  i < l.numTotalAttributes ∧ (l.vertexAttributeIsDefault i ∨ l.vertexAttributeElements i ≠ 0)

theorem attributeValue_isSome_iff (i : Nat) :
    (l.attributeValue floats memory baseAddress vertex defaults i).isSome ↔
      l.vertexAttributeIsDefault i ∨ l.vertexAttributeElements i ≠ 0 := by
  unfold attributeValue
  split_ifs with hdefault hnone
  · exact iff_of_true rfl (Or.inl hdefault)
  · exact iff_of_false Bool.noConfusion (not_or_intro hdefault (not_not_intro hnone))
  · exact iff_of_true rfl (Or.inr hnone)

theorem elim_update_apply (buffer : AttributeBuffer F) (value : Option (Vec4 F)) (n i : Nat) :
    value.elim buffer (Function.update buffer n) i =
      if i = n then value.getD (buffer i) else buffer i := by
  cases value with
  | none => exact (ite_self (buffer i)).symm
  | some value =>
      show Function.update buffer n value i = _
      by_cases h : i = n
      · rw [if_pos h, h, Function.update_self]
        rfl
      · rw [if_neg h, Function.update_of_ne h]

theorem loadVertex_apply (input : AttributeBuffer F) (i : Nat) :
    l.loadVertex floats memory baseAddress vertex input defaults i =
      if i < l.numTotalAttributes then
        (l.attributeValue floats memory baseAddress vertex defaults i).getD (input i)
      else input i := by
  unfold loadVertex
  induction l.numTotalAttributes with
  | zero => rfl
  | succ n ih =>
      rw [List.range_succ, List.foldl_append, List.foldl_cons, List.foldl_nil, elim_update_apply, ih]
      rcases Nat.lt_trichotomy i n with hlt | rfl | hlt
      · rw [if_neg hlt.ne, if_pos hlt, if_pos (Nat.lt_succ_of_lt hlt)]
      · rw [if_pos rfl, if_neg (Nat.lt_irrefl i), if_pos (Nat.lt_succ_self i)]
      · rw [if_neg hlt.ne', if_neg hlt.not_gt, if_neg (by omega)]

/-- Two buffers have the same where nothing is loaded. -/
def Retained (l : VertexLoader) (input input' : AttributeBuffer F) : Prop :=
  ∀ i, ¬ l.Loads i → input i = input' i

theorem loadVertex_eq {input input' : AttributeBuffer F} (h : l.Retained input input') :
    l.loadVertex floats memory baseAddress vertex input defaults =
      l.loadVertex floats memory baseAddress vertex input' defaults := by
  funext i
  rw [loadVertex_apply, loadVertex_apply]
  split_ifs with hi
  · cases hvalue : l.attributeValue floats memory baseAddress vertex defaults i with
    | some value => rfl
    | none =>
        apply h i
        rintro ⟨-, hloads⟩
        rw [← attributeValue_isSome_iff, hvalue] at hloads
        cases hloads
  · exact h i fun hloads => hi hloads.1

theorem retained_loadVertex (input : AttributeBuffer F) :
    l.Retained (l.loadVertex floats memory baseAddress vertex input defaults) input := by
  intro i hi
  rw [loadVertex_apply]
  split_ifs with hlt
  · have hnone : l.attributeValue floats memory baseAddress vertex defaults i = none := by
      rw [← Option.not_isSome_iff_eq_none, attributeValue_isSome_iff]
      exact fun hloads => hi ⟨hlt, hloads⟩
    rw [hnone]
    rfl
  · rfl

end VertexLoader

end Cytrus.VideoCore.Pica
