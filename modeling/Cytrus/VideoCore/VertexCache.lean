import Mathlib
import Cytrus.Support.Traces
import Cytrus.VideoCore.GeometryInput
import Cytrus.VideoCore.VertexLoader

/-!
# The vertex cache

A draw goes through the vertices. The outputs of the vertex shader are kept in a
cache of 64 entries for the indices they belong to, unless the geometry pipeline
takes the index itself, and a vertex whose index is found is not shaded again.

## Main results

* `CacheHolds.store`: what the entries of the cache are, also when it is full
* `loadVertices_eq_loadVerticesUncached`: a draw submits what it submits without
  the cache

## Implementation notes

The buffers that are not initialized start with anything, as does the cache apart
from its flags. The buffer of the input is one place for all vertices, and so an
attribute that nothing loads stays what it is. The memory does not change during a
draw.
-/

namespace Cytrus.VideoCore.Pica

open Support

/-- What is submitted to the geometry pipeline. -/
inductive Event (F : Type)
  | index (val : UInt32)
  | vertex (attributes : List (Vec4 F))

/-! ## The cache -/

structure VertexCache (F : Type) where
  valid : Nat → Bool
  ids : Nat → UInt16
  entries : Nat → AttributeBuffer F
  pos : Nat

namespace VertexCache

variable {F : Type} (cache : VertexCache F)

def find (vertex : UInt32) : Option (AttributeBuffer F) :=
  ((List.range 64).find? fun i => cache.valid i && vertex == (cache.ids i).toUInt32).map
    cache.entries

def store (vertex : UInt32) (output : AttributeBuffer F) : VertexCache F where
  valid := Function.update cache.valid cache.pos true
  ids := Function.update cache.ids cache.pos vertex.toUInt16
  entries := Function.update cache.entries cache.pos output
  pos := (cache.pos + 1) % 64

end VertexCache

/-! ## The loop -/

/-- The variables of the loop. -/
structure Draw (F : Type) where
  backend : Option Backend
  input : AttributeBuffer F
  unit : ShaderUnit F
  vsOutput : AttributeBuffer F
  cache : VertexCache F

section Loop

variable {F : Type} (regs : Fin 0x300 → UInt32) (floats : Floats F) (memory : PhysicalMemory)
  (defaults : AttributeBuffer F) (run : ShaderUnit F → ShaderUnit F) (isIndexed : Bool)

def indexArrayOffset : UInt32 := bits 0 28 (regAt regs 0x227)
def indexArrayFormat : UInt32 := bits 31 1 (regAt regs 0x227)
def numVertices : UInt32 := regAt regs 0x228
def vertexOffset : UInt32 := regAt regs 0x22a
def vsOutputTotal : UInt32 := bits 0 3 (regAt regs 0x4f)

/-- The assertions of `ValidateSemantics`. -/
def validSemantics : Bool :=
  (List.range 7).all fun attrib => vsOutputTotal regs ≤ attrib.toUInt32 ||
    (List.range 4).all fun comp =>
      let semantic := (regAt regs (0x50 + attrib) >>> (8 * comp.toUInt32)) &&& 0x1F
      semantic < 24 || semantic == 31

/-- The vertex of a round. -/
def vertexAt (index : Nat) : UInt32 :=
  if isIndexed then
    let indices := memory (physicalBaseAddress regs + indexArrayOffset regs)
    if indexArrayFormat regs ≠ 0 then (halfAt indices index).toUInt32
    else (indices index).toUInt32
  else index.toUInt32 + vertexOffset regs

/-- `NeedIndexInput`, with no backend without a geometry shader. -/
def needIndexInput (backend : Option Backend) : Bool := backend.any Backend.needIndexInput

/-- `SubmitVertex`; without a backend the vertex goes to its handler. -/
def submitVertex (backend : Option Backend) : Option (Option Backend) :=
  match backend with
  | none => some none
  | some b => (b.submit regs .vertex).map fun p => some p.2

namespace Draw

variable (d : Draw F)

/-- The index goes to the geometry pipeline. -/
def submitIndex (vertex : UInt32) : Option (Event F × Draw F) :=
  (d.backend.bind fun b => b.submit regs (.index vertex.toUInt16)).map fun p =>
    (.index vertex, { d with backend := some p.2 })

/-- The outputs go to the geometry pipeline. -/
def submit : Option (Event F × Draw F) :=
  (submitVertex regs d.backend).map fun backend =>
    (.vertex (selected regs d.vsOutput), { d with backend })

/-- The vertex is loaded and shaded. -/
def shade (vertex : UInt32) : Draw F :=
  let input := (VertexLoader.new regs).loadVertex floats memory (physicalBaseAddress regs) vertex
    d.input defaults
  let unit := run (d.unit.loadInput regs input)
  { d with
    input := input
    unit := unit
    vsOutput := unit.writeOutput regs d.vsOutput }

/-- The vertex is taken from the cache, or shaded and put there. -/
def fetch (vertex : UInt32) : Draw F :=
  match d.cache.find vertex with
  | some output => { d with vsOutput := output }
  | none =>
      let shaded := d.shade regs floats memory defaults run vertex
      { shaded with cache := d.cache.store vertex shaded.vsOutput }

/-- A round of the loop. -/
def round (index : Nat) : Option (Event F × Draw F) :=
  let vertex := vertexAt regs memory isIndexed index
  if isIndexed && needIndexInput d.backend then d.submitIndex regs vertex
  else if isIndexed then (d.fetch regs floats memory defaults run vertex).submit regs
  else (d.shade regs floats memory defaults run vertex).submit regs

/-- A round without the cache. -/
def roundUncached (index : Nat) : Option (Event F × Draw F) :=
  let vertex := vertexAt regs memory isIndexed index
  if isIndexed && needIndexInput d.backend then d.submitIndex regs vertex
  else (d.shade regs floats memory defaults run vertex).submit regs

end Draw

/-- The loop of a draw, after the geometry pipeline is configured. The flags of the cache are
cleared, and so are the registers of the shader unit. -/
def draw (round : Nat → Draw F → Option (Event F × Draw F)) (backend : Option Backend)
    (storage : Draw F) : Option (List (Event F)) :=
  if validSemantics regs then
    (reconfigure regs backend).bind fun backend =>
      if needIndexInput backend && !isIndexed then none
      else trace round (List.range (numVertices regs).toNat)
        { storage with
          backend := backend
          unit := ShaderUnit.initial floats
          cache := { storage.cache with valid := fun _ => false, pos := 0 } }
  else none

def loadVertices (backend : Option Backend) (storage : Draw F) : Option (List (Event F)) :=
  draw regs floats isIndexed (fun index d => d.round regs floats memory defaults run isIndexed index)
    backend storage

/-- The vertices shaded one by one. -/
def loadVerticesUncached (backend : Option Backend) (storage : Draw F) : Option (List (Event F)) :=
  draw regs floats isIndexed
    (fun index d => d.roundUncached regs floats memory defaults run isIndexed index) backend storage

end Loop

/-! ## What the cache holds -/

variable {F : Type} {regs : Fin 0x300 → UInt32} {floats : Floats F} {memory : PhysicalMemory}
  {defaults : AttributeBuffer F} {run : ShaderUnit F → ShaderUnit F} {isIndexed : Bool}
  {storage : AttributeBuffer F} {vertex : UInt32}

/-- The outputs of a shader depend only on its input attributes. Its program and its uniforms are
those of the draw. -/
def DependsOnInputs (regs : Fin 0x300 → UInt32) (run : ShaderUnit F → ShaderUnit F) : Prop :=
  ∀ unit unit' : ShaderUnit F,
    (∀ attr ≤ (maxInputAttributeIndex regs).toNat,
      unit.input (getRegisterForAttribute regs attr) =
        unit'.input (getRegisterForAttribute regs attr)) →
    (outputRegisters regs).map (run unit).output = (outputRegisters regs).map (run unit').output

section Shaded

variable (regs floats memory defaults run storage)

/-- The outputs for a vertex, from what was in the buffer of the input at first. -/
def shaded (vertex : UInt32) : List (Vec4 F) :=
  let input := (VertexLoader.new regs).loadVertex floats memory (physicalBaseAddress regs) vertex
    storage defaults
  (outputRegisters regs).map (run ((ShaderUnit.initial floats).loadInput regs input)).output

/-- The entries that are valid have the outputs for their index. -/
def CacheHolds (cache : VertexCache F) : Prop :=
  ∀ i, cache.valid i = true →
    selected regs (cache.entries i) =
      shaded regs floats memory defaults run storage (cache.ids i).toUInt32

end Shaded

theorem selected_shade (hrun : DependsOnInputs regs run) {d : Draw F}
    (hinput : (VertexLoader.new regs).Retained d.input storage) :
    selected regs (d.shade regs floats memory defaults run vertex).vsOutput =
      shaded regs floats memory defaults run storage vertex := by
  unfold Draw.shade shaded
  rw [selected_writeOutput, VertexLoader.loadVertex_eq hinput]
  exact hrun _ _ fun attr hattr => loadInput_input_eq _ _ _ hattr

theorem retained_shade {d : Draw F} (hinput : (VertexLoader.new regs).Retained d.input storage) :
    (VertexLoader.new regs).Retained (d.shade regs floats memory defaults run vertex).input
      storage := by
  intro i hi
  rw [← hinput i hi]
  exact VertexLoader.retained_loadVertex d.input i hi

theorem CacheHolds.find {cache : VertexCache F} {output : AttributeBuffer F}
    (h : CacheHolds regs floats memory defaults run storage cache)
    (hfind : cache.find vertex = some output) :
    selected regs output = shaded regs floats memory defaults run storage vertex := by
  obtain ⟨i, hi, rfl⟩ := Option.map_eq_some_iff.mp hfind
  have hhit := List.find?_some hi
  rw [Bool.and_eq_true, beq_iff_eq] at hhit
  rw [hhit.2]
  exact h i hhit.1

/-- Entries are replaced one by one, each with its index. -/
theorem CacheHolds.store {cache : VertexCache F} {output : AttributeBuffer F}
    (h : CacheHolds regs floats memory defaults run storage cache) (hvertex : vertex.toNat < 65536)
    (houtput : selected regs output = shaded regs floats memory defaults run storage vertex) :
    CacheHolds regs floats memory defaults run storage (cache.store vertex output) := by
  have hid : vertex.toUInt16.toUInt32 = vertex := by
    apply UInt32.toNat_inj.mp
    rw [UInt16.toNat_toUInt32, UInt32.toNat_toUInt16]
    exact Nat.mod_eq_of_lt hvertex
  intro i hvalid
  unfold VertexCache.store at hvalid ⊢
  dsimp only at hvalid ⊢
  by_cases hi : i = cache.pos
  · rw [hi, Function.update_self, Function.update_self, hid]
    exact houtput
  · rw [Function.update_of_ne hi] at hvalid
    rw [Function.update_of_ne hi, Function.update_of_ne hi]
    exact h i hvalid

theorem vertexAt_lt (index : Nat) : (vertexAt regs memory true index).toNat < 65536 := by
  unfold vertexAt
  rw [if_pos rfl]
  dsimp only
  split_ifs
  · rw [UInt16.toNat_toUInt32]
    exact UInt16.toNat_lt _
  · rw [UInt8.toNat_toUInt32]
    exact (UInt8.toNat_lt _).trans (by decide)

/-! ## Draws with and without the cache -/

/-- The loops with and without the cache, between rounds. -/
structure Matches (regs : Fin 0x300 → UInt32) (floats : Floats F) (memory : PhysicalMemory)
    (defaults : AttributeBuffer F) (run : ShaderUnit F → ShaderUnit F) (storage : AttributeBuffer F)
    (d d' : Draw F) : Prop where
  backend : d.backend = d'.backend
  input : (VertexLoader.new regs).Retained d.input storage
  input' : (VertexLoader.new regs).Retained d'.input storage
  cache : CacheHolds regs floats memory defaults run storage d.cache

namespace Matches

variable {d d' : Draw F}

theorem submitIndex (h : Matches regs floats memory defaults run storage d d') :
    SameStep (Matches regs floats memory defaults run storage) (d.submitIndex regs vertex)
      (d'.submitIndex regs vertex) := by
  unfold Draw.submitIndex
  rw [h.backend]
  cases d'.backend.bind fun b => b.submit regs (.index vertex.toUInt16) with
  | none => exact Option.Rel.none
  | some p => exact Option.Rel.some ⟨rfl, rfl, h.input, h.input', h.cache⟩

theorem submit (h : Matches regs floats memory defaults run storage d d')
    (houtput : selected regs d.vsOutput = selected regs d'.vsOutput) :
    SameStep (Matches regs floats memory defaults run storage) (d.submit regs)
      (d'.submit regs) := by
  unfold Draw.submit
  rw [h.backend]
  cases submitVertex regs d'.backend with
  | none => exact Option.Rel.none
  | some backend =>
      exact Option.Rel.some ⟨congrArg Event.vertex houtput, rfl, h.input, h.input', h.cache⟩

theorem shade (h : Matches regs floats memory defaults run storage d d') :
    Matches regs floats memory defaults run storage
      (d.shade regs floats memory defaults run vertex)
      (d'.shade regs floats memory defaults run vertex) where
  backend := h.backend
  input := retained_shade h.input
  input' := retained_shade h.input'
  cache := h.cache

theorem fetch (hrun : DependsOnInputs regs run) (hvertex : vertex.toNat < 65536)
    (h : Matches regs floats memory defaults run storage d d') :
    Matches regs floats memory defaults run storage
        (d.fetch regs floats memory defaults run vertex)
        (d'.shade regs floats memory defaults run vertex) ∧
      selected regs (d.fetch regs floats memory defaults run vertex).vsOutput =
        shaded regs floats memory defaults run storage vertex := by
  unfold Draw.fetch
  cases hfind : d.cache.find vertex with
  | some output =>
      exact ⟨⟨h.backend, h.input, retained_shade h.input', h.cache⟩, h.cache.find hfind⟩
  | none =>
      have houtput : selected regs (d.shade regs floats memory defaults run vertex).vsOutput =
          shaded regs floats memory defaults run storage vertex := selected_shade hrun h.input
      have hboth : Matches regs floats memory defaults run storage
          (d.shade regs floats memory defaults run vertex)
          (d'.shade regs floats memory defaults run vertex) := h.shade
      exact ⟨⟨hboth.backend, hboth.input, hboth.input', h.cache.store hvertex houtput⟩, houtput⟩

theorem round (hrun : DependsOnInputs regs run)
    (h : Matches regs floats memory defaults run storage d d') (index : Nat) :
    SameStep (Matches regs floats memory defaults run storage)
      (d.round regs floats memory defaults run isIndexed index)
      (d'.roundUncached regs floats memory defaults run isIndexed index) := by
  unfold Draw.round Draw.roundUncached
  dsimp only
  rw [← h.backend]
  split_ifs with hindex hcached
  · exact h.submitIndex
  · subst hcached
    obtain ⟨hnext, houtput⟩ := h.fetch hrun (vertexAt_lt index)
    exact hnext.submit (houtput.trans (selected_shade hrun h.input').symm)
  · exact h.shade.submit ((selected_shade hrun h.input).trans (selected_shade hrun h.input').symm)

end Matches

/-- A draw submits what it submits when every vertex is shaded. -/
theorem loadVertices_eq_loadVerticesUncached (hrun : DependsOnInputs regs run)
    (backend : Option Backend) (storage : Draw F) :
    loadVertices regs floats memory defaults run isIndexed backend storage =
      loadVerticesUncached regs floats memory defaults run isIndexed backend storage := by
  unfold loadVertices loadVerticesUncached draw
  split_ifs with hvalid
  · cases reconfigure regs backend with
    | none => rfl
    | some backend =>
        rw [Option.bind_some, Option.bind_some]
        split_ifs with hneeds
        · rfl
        · apply trace_eq_of_simulation
            (R := Matches regs floats memory defaults run storage.input)
          · exact fun index d d' h => h.round hrun index
          · exact ⟨rfl, fun _ _ => rfl, fun _ _ => rfl, fun i hi => Bool.noConfusion hi⟩
  · rfl

/-- The registers of an indexed draw of two vertices, with one output. -/
def indexedRegs (i : Fin 0x300) : UInt32 :=
  if i.val = 0x228 then 2 else if i.val = 0x2bd then 1 else 0

def copyingShader (unit : ShaderUnit Int) : ShaderUnit Int := { unit with output := unit.input }

def integerFloats : Floats Int := ⟨id, fun bits => bits.toNat⟩

def blankDraw : Draw Int where
  backend := none
  input := fun _ => ⟨0, 0, 0, 0⟩
  unit := ShaderUnit.initial integerFloats
  vsOutput := fun _ => ⟨0, 0, 0, 0⟩
  cache := ⟨fun _ => false, fun _ => 0, fun _ _ => ⟨0, 0, 0, 0⟩, 0⟩

theorem loadVertices_copyingShader :
    loadVertices indexedRegs integerFloats (fun _ _ => 0) (fun _ => ⟨1, 2, 3, 4⟩) copyingShader true
        none blankDraw =
      loadVerticesUncached indexedRegs integerFloats (fun _ _ => 0) (fun _ => ⟨1, 2, 3, 4⟩)
        copyingShader true none blankDraw := by
  apply loadVertices_eq_loadVerticesUncached
  intro unit unit' h
  have hregisters : outputRegisters indexedRegs = [0] := by decide
  have hattribute : getRegisterForAttribute indexedRegs 0 = 0 := by decide
  have hinput := h 0 (Nat.zero_le _)
  rw [hattribute] at hinput
  rw [hregisters]
  exact congrArg (fun v => [v]) hinput

end Cytrus.VideoCore.Pica
