import Mathlib

/-!
# Register writes of the Pica core

A write of a register stores the masked value and then runs the handler of the
register: the tables of lighting, fog and procedural textures, the uniforms,
the program and the swizzle patterns of the two shader stages, and the words
of the default attributes are all filled in this way, one word at a time, at
places that other registers name.

## Main results

* `runWrites_isSome_iff`: the sequences of writes that stay inside of every
  table

## Implementation notes

An access of a table that is out of range has no result. A float24 value is
the bits of the float that it is decoded to.
-/

namespace Cytrus.VideoCore.Pica

/-- An array of fixed length. -/
def Table (α : Type) (n : Nat) : Type := Fin n → α

namespace Table

variable {α : Type} {n : Nat}

def fill (n : Nat) (a : α) : Table α n := fun _ => a

def get? (t : Table α n) (i : Nat) : Option α := if h : i < n then some (t ⟨i, h⟩) else none

def set? (t : Table α n) (i : Nat) (a : α) : Option (Table α n) :=
  if h : i < n then some (Function.update t ⟨i, h⟩ a) else none

theorem get?_of_lt (t : Table α n) {i : Nat} (h : i < n) : t.get? i = some (t ⟨i, h⟩) :=
  dif_pos h

theorem set?_of_lt (t : Table α n) {i : Nat} (a : α) (h : i < n) :
    t.set? i a = some (Function.update t ⟨i, h⟩ a) :=
  dif_pos h

theorem set?_of_le (t : Table α n) {i : Nat} (a : α) (h : n ≤ i) : t.set? i a = none :=
  dif_neg (Nat.not_lt.2 h)

end Table

/-- The mask of the low `len` bits. -/
def lowMask (len : UInt32) : UInt32 := (1 <<< len) - 1

def bits (pos len : UInt32) (r : UInt32) : UInt32 := (r >>> pos) &&& lowMask len

def assign (pos len : UInt32) (r value : UInt32) : UInt32 :=
  (r &&& ~~~(lowMask len <<< pos)) ||| ((value &&& lowMask len) <<< pos)

theorem bits_le (pos len r : UInt32) : (bits pos len r).toNat ≤ (lowMask len).toNat := by
  rw [bits, UInt32.toNat_and]
  exact Nat.and_le_right

/-- The register of an id. -/
def regAt (regs : Fin 0x300 → UInt32) (id : Nat) : UInt32 :=
  if h : id < 0x300 then regs ⟨id, h⟩ else 0

/-- `f24::FromRaw`, as the bits of the float. -/
def f24FromRaw (hex : UInt32) : UInt32 :=
  let exponent := (hex >>> 16) &&& 0x7F
  let mantissa := hex &&& 0xFFFF
  let sign := (hex >>> 23) <<< 31
  if hex &&& 0x7FFFFF = 0 then sign
  else sign ||| (mantissa <<< 7) |||
    ((if exponent = 0x7F then 255 else exponent + 64) <<< 23)

structure Vec4 (α : Type) where
  x : α
  y : α
  z : α
  w : α
  deriving DecidableEq

structure PackedAttribute where
  buffer : Table UInt32 4 := Table.fill 4 0
  index : UInt32 := 0

namespace PackedAttribute

variable (q : PackedAttribute)

/-- `Push`, with whether the queue is full after it. -/
def push (word : UInt32) (isFloat32 : Bool) : Option (Bool × PackedAttribute) :=
  (q.buffer.set? q.index.toNat word).map fun buffer =>
    ((q.index + 1 ≥ 4 && isFloat32) || (q.index + 1 ≥ 3 && !isFloat32),
      ⟨buffer, q.index + 1⟩)

def reset : PackedAttribute := { q with index := 0 }

def asFloat24 : Vec4 UInt32 :=
  { x := f24FromRaw (q.buffer 2 &&& 0xFFFFFF)
    y := f24FromRaw (((q.buffer 1 &&& 0xFFFF) <<< 8) ||| ((q.buffer 2 >>> 24) &&& 0xFF))
    z := f24FromRaw (((q.buffer 0 &&& 0xFF) <<< 16) ||| ((q.buffer 1 >>> 16) &&& 0xFFFF))
    w := f24FromRaw (q.buffer 0 >>> 8) }

def asFloat32 : Vec4 UInt32 := ⟨q.buffer 3, q.buffer 2, q.buffer 1, q.buffer 0⟩

/-- `Get`, with the queue that it resets. -/
def get (isFloat32 : Bool) : Vec4 UInt32 × PackedAttribute :=
  (if isFloat32 then q.asFloat32 else q.asFloat24, q.reset)

end PackedAttribute

/-- What of `ShaderSetup` the register writes touch. -/
structure ShaderSetup where
  uniformsF : Table (Vec4 UInt32) 96 := Table.fill 96 ⟨0, 0, 0, 0⟩
  uniformsB : Table Bool 16 := Table.fill 16 false
  uniformsI : Table (Vec4 UInt8) 4 := Table.fill 4 ⟨0, 0, 0, 0⟩
  uniformQueue : PackedAttribute := {}
  uniformsDirty : Bool := true
  hasFixup : Bool := false
  programCode : Table UInt32 4096 := Table.fill 4096 0
  swizzleData : Table UInt32 4096 := Table.fill 4096 0
  programCodeHashDirty : Bool := true
  swizzleDataHashDirty : Bool := true
  programCodePendingFixup : Bool := true
  biggestProgramSize : Nat := 0
  biggestSwizzleSize : Nat := 0

namespace ShaderSetup

variable (s : ShaderSetup)

/-- `WriteUniformBoolReg`: the loop writes every entry of the table. -/
def writeUniformBoolReg (value : UInt32) : ShaderSetup :=
  let new : Table Bool 16 := fun i => bits (UInt32.ofNat i) 1 value = 1
  { s with
    uniformsB := new
    uniformsDirty := s.uniformsDirty || (List.finRange 16).any fun i => s.uniformsB i != new i }

def writeUniformIntReg (index : Nat) (values : Vec4 UInt8) : Option ShaderSetup := do
  let prev ← s.uniformsI.get? index
  let table ← s.uniformsI.set? index values
  some { s with uniformsI := table, uniformsDirty := s.uniformsDirty || prev ≠ values }

/-- `WriteUniformFloatReg` of the setup register `config`. It returns the
register, and the index that was written. -/
def writeUniformFloatReg (config value : UInt32) :
    Option (ShaderSetup × UInt32 × Option UInt32) := do
  let isFloat32 := bits 31 1 config = 1
  let (full, queue) ← s.uniformQueue.push value isFloat32
  if !full then
    return ({ s with uniformQueue := queue }, config, none)
  let (uniform, queue) := queue.get isFloat32
  let index := bits 0 7 config
  if 96 ≤ index then
    return ({ s with uniformQueue := queue }, config, none)
  let prev ← s.uniformsF.get? index.toNat
  let table ← s.uniformsF.set? index.toNat uniform
  return ({ s with
      uniformsF := table
      uniformQueue := queue
      uniformsDirty := s.uniformsDirty || prev ≠ uniform },
    assign 0 7 config (index + 1), some index)

/-- The float uniform that the vertex stage got goes to another setup too. -/
def copyUniform (index : Nat) (gs : ShaderSetup) : Option ShaderSetup := do
  let uniform ← s.uniformsF.get? index
  let table ← gs.uniformsF.set? index uniform
  some { gs with uniformsF := table }

def makeProgramCodeDirty : ShaderSetup :=
  { s with programCodeHashDirty := true, programCodePendingFixup := true, hasFixup := false }

/-- `UpdateProgramCode` of one word. -/
def updateProgramCode (offset : Nat) (value : UInt32) : Option ShaderSetup := do
  let old ← s.programCode.get? offset
  if old = value then
    return s
  let table ← s.programCode.set? offset value
  let s := { s with programCode := table }
  let s := if s.programCodeHashDirty then s else s.makeProgramCodeDirty
  return { s with biggestProgramSize := max s.biggestProgramSize (offset + 1) }

/-- `UpdateSwizzleData` of one word. -/
def updateSwizzleData (offset : Nat) (value : UInt32) : Option ShaderSetup := do
  let old ← s.swizzleData.get? offset
  if old = value then
    return s
  let table ← s.swizzleData.set? offset value
  return { s with
    swizzleData := table
    swizzleDataHashDirty := true
    biggestSwizzleSize := max s.biggestSwizzleSize (offset + 1) }

end ShaderSetup

structure ImmediateModeState where
  inputVertex : Table (Vec4 UInt32) 16 := Table.fill 16 ⟨0, 0, 0, 0⟩
  currentAttribute : UInt32 := 0
  resetGeometryPipeline : Bool := true
  queue : PackedAttribute := {}

def ImmediateModeState.reset (m : ImmediateModeState) : ImmediateModeState :=
  { m with currentAttribute := 0, resetGeometryPipeline := true, queue := m.queue.reset }

structure Lighting where
  luts : Table (Table UInt32 256) 24 := Table.fill 24 (Table.fill 256 0)
  lutDirty : UInt32 := 0xFFFFFF

structure Fog where
  lut : Table UInt32 128 := Table.fill 128 0
  lutDirty : Bool := true

structure ProcTex where
  noiseTable : Table UInt32 128 := Table.fill 128 0
  colorMapTable : Table UInt32 128 := Table.fill 128 0
  alphaMapTable : Table UInt32 128 := Table.fill 128 0
  colorTable : Table UInt32 256 := Table.fill 256 0
  colorDiffTable : Table UInt32 256 := Table.fill 256 0
  tableDirty : UInt8 := 0xFF

/-- The two register blocks and setups of shaders. -/
inductive Stage
  | gs | vs
  deriving DecidableEq

def numRegs : Nat := 0x300

/-- The values of `InitializeRegs`, over zeros. -/
def initialRegs (i : Fin 0x300) : UInt32 :=
  if i = 0x34 then 1
  else if i = 0x30 then 0xFFFFFFF0
  else if i = 0x289 then 0xA0000001
  else 0

/-- `PicaCore`, as far as register writes go. -/
structure PicaCore where
  regs : Fin 0x300 → UInt32 := initialRegs
  dirtyRegs : Table UInt64 12 := Table.fill 12 0xFFFFFFFFFFFFFFFF
  vsSetup : ShaderSetup := {}
  gsSetup : ShaderSetup := {}
  proctex : ProcTex := {}
  lighting : Lighting := {}
  fog : Fog := {}
  inputDefaultAttributes : Table (Vec4 UInt32) 16 := Table.fill 16 ⟨0, 0, 0, 0⟩
  immediate : ImmediateModeState := {}

/-- What a handler does outside of the core. -/
inductive Effect
  | signalInterrupt
  | stopRequested
  | reconfigure (topology : UInt32)
  | resetAssembler
  | resetCmdList (addr size : UInt32)
  | drawArrays (isIndexed : Bool)
  | drawImmediate (inputVertex : Table (Vec4 UInt32) 16) (resetGeometryPipeline : Bool)

/-- The registers that have a handler. -/
inductive Handler
  | irqRequest
  | triangleTopology
  | restartPrimitive
  | defaultAttributeIndex
  | defaultAttributeValue
  | commandBufferTrigger (index : Fin 2)
  | triggerDraw (isIndexed : Bool)
  | boolUniforms (s : Stage)
  | intUniforms (s : Stage) (index : Fin 4)
  | uniformValue (s : Stage)
  | programWord (s : Stage)
  | swizzleWord (s : Stage)
  | outputMask
  | lightingLutData
  | fogLutData
  | proctexLutData
  | none
  deriving DecidableEq

/-- The handlers of a register block of shaders, by offset. -/
def Stage.handler (s : Stage) (i : Nat) : Handler :=
  if i = 0 then .boolUniforms s
  else if h : 1 ≤ i ∧ i ≤ 4 then .intUniforms s ⟨i - 1, by omega⟩
  else if i = 0xd then if s = .vs then .outputMask else .none
  else if 0x11 ≤ i ∧ i ≤ 0x18 then .uniformValue s
  else if 0x1c ≤ i ∧ i ≤ 0x23 then .programWord s
  else if 0x26 ≤ i ∧ i ≤ 0x2d then .swizzleWord s
  else .none

/-- The cases of the switch over the register. -/
def handlerOf (id : Nat) : Handler :=
  if id = 0x10 then .irqRequest
  else if 0xb0 ≤ id ∧ id ≤ 0xb7 then .proctexLutData
  else if 0xe8 ≤ id ∧ id ≤ 0xef then .fogLutData
  else if 0x1c8 ≤ id ∧ id ≤ 0x1cf then .lightingLutData
  else if id = 0x22e then .triggerDraw false
  else if id = 0x22f then .triggerDraw true
  else if id = 0x232 then .defaultAttributeIndex
  else if 0x233 ≤ id ∧ id ≤ 0x235 then .defaultAttributeValue
  else if id = 0x23c then .commandBufferTrigger 0
  else if id = 0x23d then .commandBufferTrigger 1
  else if id = 0x25e then .triangleTopology
  else if id = 0x25f then .restartPrimitive
  else if 0x280 ≤ id ∧ id < 0x2b0 then Stage.handler .gs (id - 0x280)
  else if 0x2b0 ≤ id ∧ id < 0x2e0 then Stage.handler .vs (id - 0x2b0)
  else .none

def anyByteMatch (a b : UInt32) : Bool :=
  bits 0 8 a = bits 0 8 b || bits 8 8 a = bits 8 8 b ||
    bits 16 8 a = bits 16 8 b || bits 24 8 a = bits 24 8 b

def expandBitsToBytes : Fin 16 → UInt32 :=
  ![0x00000000, 0x000000ff, 0x0000ff00, 0x0000ffff, 0x00ff0000, 0x00ff00ff,
    0x00ffff00, 0x00ffffff, 0xff000000, 0xff0000ff, 0xff00ff00, 0xff00ffff,
    0xffff0000, 0xffff00ff, 0xffffff00, 0xffffffff]

/-- The register at an offset of the block of a stage. -/
def Stage.reg : Stage → Fin 0x30 → Fin 0x300
  | .gs, k => ⟨0x280 + k, by omega⟩
  | .vs, k => ⟨0x2b0 + k, by omega⟩

/-- The bound on the program offset. -/
def Stage.programLimit : Stage → UInt32
  | .gs => 4096
  | .vs => 512

namespace PicaCore

variable (c : PicaCore)

/-- A store into the register array. -/
def setReg (i : Fin 0x300) (value : UInt32) : PicaCore :=
  { c with regs := Function.update c.regs i value }

def setDirty (id : Nat) : Option PicaCore := do
  let qword ← c.dirtyRegs.get? (id >>> 6)
  let qwords ← c.dirtyRegs.set? (id >>> 6) (qword ||| (1 <<< UInt64.ofNat (id &&& 0x3f)))
  some { c with dirtyRegs := qwords }

def setup : Stage → ShaderSetup
  | .gs => c.gsSetup
  | .vs => c.vsSetup

def setSetup (s : Stage) (setup : ShaderSetup) : PicaCore :=
  match s with
  | .gs => { c with gsSetup := setup }
  | .vs => { c with vsSetup := setup }

/-- The fourth shader unit shares the configuration of the others. -/
def sharesUnit : Bool := bits 0 1 (c.regs 0x244) = 0 && bits 0 2 (c.regs 0x229) = 0

/-- What was done for the vertex stage is done for the geometry stage too. -/
def mirror (s : Stage) (f : ShaderSetup → Option ShaderSetup) : Option PicaCore :=
  if s = .vs ∧ c.sharesUnit then (f c.gsSetup).map (c.setSetup .gs) else some c

/-- The branches of `gs.bool_uniforms` and `vs.bool_uniforms`. -/
def writeBoolUniforms (s : Stage) : Option PicaCore :=
  let value := bits 0 16 (c.regs (s.reg 0))
  (c.setSetup s ((c.setup s).writeUniformBoolReg value)).mirror s fun gs =>
    some (gs.writeUniformBoolReg value)

def getIntUniform (s : Stage) (index : Fin 4) : Vec4 UInt8 :=
  let r := c.regs (s.reg ⟨index + 1, by omega⟩)
  ⟨(bits 0 8 r).toUInt8, (bits 8 8 r).toUInt8, (bits 16 8 r).toUInt8, (bits 24 8 r).toUInt8⟩

/-- The branches of `gs.int_uniforms` and `vs.int_uniforms`. -/
def writeIntUniforms (s : Stage) (index : Fin 4) : Option PicaCore := do
  let values := c.getIntUniform s index
  let setup ← (c.setup s).writeUniformIntReg index values
  (c.setSetup s setup).mirror s fun gs => gs.writeUniformIntReg index values

/-- The branches of `uniform_setup.set_value`. -/
def writeUniformValue (s : Stage) (value : UInt32) : Option PicaCore := do
  let (setup, config, written) ←
    (c.setup s).writeUniformFloatReg (c.regs (s.reg 0x10)) value
  let c := (c.setSetup s setup).setReg (s.reg 0x10) config
  match written with
  | none => some c
  | some index => c.mirror s (setup.copyUniform index.toNat)

/-- The branches of `program.set_word`. -/
def writeProgramWord (s : Stage) (value : UInt32) : Option PicaCore :=
  let offset := c.regs (s.reg 0x1b)
  if s.programLimit ≤ offset then some c
  else do
    let setup ← (c.setup s).updateProgramCode offset.toNat value
    let c ← (c.setSetup s setup).mirror s fun gs => gs.updateProgramCode offset.toNat value
    some (c.setReg (s.reg 0x1b) (offset + 1))

/-- The branches of `swizzle_patterns.set_word`. -/
def writeSwizzleWord (s : Stage) (value : UInt32) : Option PicaCore :=
  let offset := c.regs (s.reg 0x25)
  if 4096 ≤ offset then some c
  else do
    let setup ← (c.setup s).updateSwizzleData offset.toNat value
    let c ← (c.setSetup s setup).mirror s fun gs => gs.updateSwizzleData offset.toNat value
    some (c.setReg (s.reg 0x25) (offset + 1))

/-- The branch of `vs.output_mask`. -/
def writeOutputMask (value : UInt32) : PicaCore :=
  if c.sharesUnit then c.setReg (Stage.gs.reg 0xd) (assign 0 16 (c.regs (Stage.gs.reg 0xd)) value)
  else c

/-- The type that `lighting.lut_config` names. -/
def lutType : UInt32 := bits 8 5 (c.regs 0x1c5)

/-- The branch of `lighting.lut_data`. -/
def writeLightingLut (value : UInt32) : Option PicaCore := do
  let config := c.regs 0x1c5
  let index := bits 0 8 config
  let lut ← c.lighting.luts.get? c.lutType.toNat
  let prev ← lut.get? index.toNat
  let lut ← lut.set? index.toNat value
  let luts ← c.lighting.luts.set? c.lutType.toNat lut
  let dirty : UInt32 := if prev ≠ value then 1 else 0
  some ({ c with
    lighting := ⟨luts, c.lighting.lutDirty ||| (dirty <<< c.lutType)⟩ }.setReg 0x1c5
      (assign 0 8 config (index + 1)))

/-- The branch of `texturing.fog_lut_data`. -/
def writeFogLut (value : UInt32) : Option PicaCore := do
  let offset := bits 0 16 (c.regs 0xe6)
  let prev ← c.fog.lut.get? (offset.toNat % 128)
  let lut ← c.fog.lut.set? (offset.toNat % 128) value
  some ({ c with fog := ⟨lut, c.fog.lutDirty || prev ≠ value⟩ }.setReg 0xe6
    (assign 0 16 (c.regs 0xe6) (offset + 1)))

/-- `sync_lut`, with whether the entry changed. -/
def syncLut {n : Nat} (table : Table UInt32 n) (index value : UInt32) :
    Option (Table UInt32 n × Bool) := do
  let prev ← table.get? (index.toNat % n)
  let table ← table.set? (index.toNat % n) value
  some (table, prev ≠ value)

/-- The switch over the procedural texture tables. -/
def syncTable (p : ProcTex) (table index value : UInt32) : Option ProcTex := do
  let dirty (changed : Bool) : UInt8 :=
    p.tableDirty ||| ((if changed then 1 else 0) <<< table.toUInt8)
  if table = 0 then
    let (t, changed) ← syncLut p.noiseTable index value
    return { p with noiseTable := t, tableDirty := dirty changed }
  else if table = 2 then
    let (t, changed) ← syncLut p.colorMapTable index value
    return { p with colorMapTable := t, tableDirty := dirty changed }
  else if table = 3 then
    let (t, changed) ← syncLut p.alphaMapTable index value
    return { p with alphaMapTable := t, tableDirty := dirty changed }
  else if table = 4 then
    let (t, changed) ← syncLut p.colorTable index value
    return { p with colorTable := t, tableDirty := dirty changed }
  else if table = 5 then
    let (t, changed) ← syncLut p.colorDiffTable index value
    return { p with colorDiffTable := t, tableDirty := dirty changed }
  else return p

/-- The branch of `texturing.proctex_lut_data`. -/
def writeProctexLut (value : UInt32) : Option PicaCore := do
  let config := c.regs 0xaf
  let index := bits 0 8 config
  let proctex ← syncTable c.proctex (bits 8 4 config) index value
  some ({ c with proctex := proctex }.setReg 0xaf (assign 0 8 config (index + 1)))

/-- The index of the current default attribute. -/
def attributeIndex : UInt32 := c.regs 0x232

/-- What `DrawImmediate` leaves in the core. -/
def drawImmediate : PicaCore × List Effect :=
  ({ c with immediate :=
      { c.immediate with currentAttribute := 0, resetGeometryPipeline := false } },
    [.drawImmediate c.immediate.inputVertex c.immediate.resetGeometryPipeline])

def setQueue (queue : PackedAttribute) : PicaCore :=
  { c with immediate := { c.immediate with queue := queue } }

/-- `SubmitImmediate`, once the attribute was taken from the queue. -/
def placeAttribute (vector : Vec4 UInt32) : Option (PicaCore × List Effect) := do
  if c.attributeIndex < 0xF then
    let table ← c.inputDefaultAttributes.set? c.attributeIndex.toNat vector
    return ({ c with inputDefaultAttributes := table }.setReg 0x232 (c.attributeIndex + 1), [])
  let vertex ← c.immediate.inputVertex.set? c.immediate.currentAttribute.toNat vector
  let c : PicaCore := { c with immediate := { c.immediate with inputVertex := vertex } }
  if c.immediate.currentAttribute < bits 0 4 (c.regs 0x242) then
    return ({ c with immediate :=
      { c.immediate with currentAttribute := c.immediate.currentAttribute + 1 } }, [])
  return c.drawImmediate

def submitImmediate (value : UInt32) : Option (PicaCore × List Effect) := do
  let (full, queue) ← c.immediate.queue.push value false
  if !full then
    return (c.setQueue queue, [])
  if 0xF < c.attributeIndex then
    return (c.setQueue queue, [])
  let (vector, queue) := queue.get false
  (c.setQueue queue).placeAttribute vector

/-- A handler without effects outside of the core. -/
def quiet (r : Option PicaCore) : Option (PicaCore × List Effect) := r.map fun c => (c, [])

/-- The switch of `WriteInternalReg`. -/
def handle (value : UInt32) : Handler → Option (PicaCore × List Effect)
  | .irqRequest =>
      some (c, if anyByteMatch (c.regs 0x10) (c.regs 0x20) then
        .signalInterrupt :: if c.regs 0x34 ≠ 0 then [.stopRequested] else []
      else [])
  | .triangleTopology => some (c, [.reconfigure (bits 8 2 (c.regs 0x25e))])
  | .restartPrimitive => some (c, [.resetAssembler])
  | .defaultAttributeIndex => some ({ c with immediate := c.immediate.reset }, [])
  | .defaultAttributeValue => c.submitImmediate value
  | .commandBufferTrigger k =>
      some (c, [.resetCmdList (8 * bits 0 28 (c.regs ⟨0x23a + k, by omega⟩))
        (8 * bits 0 20 (c.regs ⟨0x238 + k, by omega⟩))])
  | .triggerDraw isIndexed => some (c, [.drawArrays isIndexed])
  | .boolUniforms s => quiet (c.writeBoolUniforms s)
  | .intUniforms s index => quiet (c.writeIntUniforms s index)
  | .uniformValue s => quiet (c.writeUniformValue s value)
  | .programWord s => quiet (c.writeProgramWord s value)
  | .swizzleWord s => quiet (c.writeSwizzleWord s value)
  | .outputMask => some (c.writeOutputMask value, [])
  | .lightingLutData => quiet (c.writeLightingLut value)
  | .fogLutData => quiet (c.writeFogLut value)
  | .proctexLutData => quiet (c.writeProctexLut value)
  | .none => some (c, [])

end PicaCore

/-- The arguments of `WriteInternalReg`. -/
structure RegWrite where
  id : UInt32
  value : UInt32
  mask : Fin 16

def writeInternalReg (c : PicaCore) (w : RegWrite) : Option (PicaCore × List Effect) :=
  if h : w.id.toNat < numRegs then do
    let id : Fin 0x300 := ⟨w.id.toNat, h⟩
    let writeMask := expandBitsToBytes w.mask
    let (c, effects) ←
      (c.setReg id ((c.regs id &&& ~~~writeMask) ||| (w.value &&& writeMask))).handle w.value
        (handlerOf w.id.toNat)
    let c ← c.setDirty w.id.toNat
    some (c, effects)
  else some (c, [])

/-- A sequence of register writes. -/
def runWrites (c : PicaCore) : List RegWrite → Option PicaCore
  | [] => some c
  | w :: ws => do
      let (c, _) ← writeInternalReg c w
      runWrites c ws

/-! ### What the setups do with their tables -/

theorem toNat_succ_of_le {a : UInt32} (h : a.toNat ≤ 15) : (a + 1).toNat = a.toNat + 1 := by
  rw [UInt32.toNat_add, UInt32.toNat_one, Nat.mod_eq_of_lt (by omega)]

namespace PackedAttribute

theorem push_eq (q : PackedAttribute) (word : UInt32) (isFloat32 : Bool)
    (h : q.index.toNat ≤ 3) :
    ∃ buffer, q.push word isFloat32 = some
      ((q.index + 1 ≥ 4 && isFloat32) || (q.index + 1 ≥ 3 && !isFloat32),
        ⟨buffer, q.index + 1⟩) := by
  have hlt : q.index.toNat < 4 := by omega
  exact ⟨_, by rw [push, Table.set?_of_lt _ _ hlt]; rfl⟩

theorem push_none (q : PackedAttribute) (word : UInt32) (isFloat32 : Bool)
    (h : 4 ≤ q.index.toNat) : q.push word isFloat32 = none := by
  rw [push, Table.set?_of_le _ _ h, Option.map_none]

end PackedAttribute

namespace ShaderSetup

variable (s : ShaderSetup)

theorem writeUniformIntReg_spec (index : Fin 4) (values : Vec4 UInt8) :
    ∃ s', s.writeUniformIntReg index values = some s' ∧
      s'.uniformQueue = s.uniformQueue := by
  rw [writeUniformIntReg, Table.get?_of_lt _ index.isLt, Table.set?_of_lt _ _ index.isLt]
  exact ⟨_, rfl, rfl⟩

theorem copyUniform_spec {index : Nat} (h : index < 96) (gs : ShaderSetup) :
    ∃ gs', s.copyUniform index gs = some gs' ∧ gs'.uniformQueue = gs.uniformQueue := by
  rw [copyUniform, Table.get?_of_lt _ h, Option.bind_eq_bind, Option.bind_some,
    Table.set?_of_lt _ _ h]
  exact ⟨_, rfl, rfl⟩

theorem updateProgramCode_spec {offset : Nat} (h : offset < 4096) (value : UInt32) :
    ∃ s', s.updateProgramCode offset value = some s' ∧ s'.uniformQueue = s.uniformQueue := by
  simp only [updateProgramCode, Table.get?_of_lt _ h, Table.set?_of_lt _ _ h, Option.bind_some,
    Option.bind_eq_bind, Option.pure_def]
  split_ifs
  · exact ⟨_, rfl, rfl⟩
  · exact ⟨_, rfl, rfl⟩
  · exact ⟨_, rfl, rfl⟩

theorem updateSwizzleData_spec {offset : Nat} (h : offset < 4096) (value : UInt32) :
    ∃ s', s.updateSwizzleData offset value = some s' ∧ s'.uniformQueue = s.uniformQueue := by
  simp only [updateSwizzleData, Table.get?_of_lt _ h, Table.set?_of_lt _ _ h, Option.bind_some,
    Option.bind_eq_bind, Option.pure_def]
  split_ifs
  · exact ⟨_, rfl, rfl⟩
  · exact ⟨_, rfl, rfl⟩

theorem writeUniformFloatReg_spec (config value : UInt32)
    (h : s.uniformQueue.index.toNat ≤ 3) :
    ∃ s' config' written, s.writeUniformFloatReg config value = some (s', config', written) ∧
      s'.uniformQueue.index.toNat ≤ 3 ∧ ∀ i, written = some i → i.toNat < 96 := by
  obtain ⟨buffer, hpush⟩ := s.uniformQueue.push_eq value (bits 31 1 config = 1) h
  have hnext : (s.uniformQueue.index + 1).toNat = s.uniformQueue.index.toNat + 1 :=
    toNat_succ_of_le (h.trans (by decide))
  simp only [writeUniformFloatReg, hpush, Option.bind_some, Option.bind_eq_bind, Option.pure_def]
  split_ifs with hfull hindex
  · refine ⟨_, _, _, rfl, ?_, by simp⟩
    have : ¬ (4 ≤ s.uniformQueue.index + 1) := by
      intro h4
      have : 3 ≤ s.uniformQueue.index + 1 := UInt32.le_trans (by decide) h4
      cases hf : decide (bits 31 1 config = 1) <;> simp_all
    rw [UInt32.le_iff_toNat_le] at this
    change (s.uniformQueue.index + 1).toNat ≤ 3
    have : (4 : UInt32).toNat = 4 := rfl
    omega
  · exact ⟨_, _, _, rfl, Nat.zero_le _, by simp⟩
  · have hlt : (bits 0 7 config).toNat < 96 := by
      rw [UInt32.le_iff_toNat_le] at hindex
      have : (96 : UInt32).toNat = 96 := rfl
      omega
    rw [Table.get?_of_lt _ hlt, Table.set?_of_lt _ _ hlt]
    refine ⟨_, _, _, rfl, Nat.zero_le _, ?_⟩
    rintro i ⟨⟩
    exact hlt

end ShaderSetup

/-! ### The handlers that leave immediate mode alone -/

namespace PicaCore

variable {c d e : PicaCore}

theorem attributeIndex_setReg {i : Fin 0x300} (hi : 0x232 ≠ i) (value : UInt32) :
    (c.setReg i value).attributeIndex = c.attributeIndex :=
  Function.update_of_ne hi _ _

theorem lutType_setReg {i : Fin 0x300} (hi : 0x1c5 ≠ i) (value : UInt32) :
    (c.setReg i value).lutType = c.lutType :=
  congrArg (bits 8 5) (Function.update_of_ne hi _ _)

/-- Neither queue of uniforms has a fourth word. -/
def QueuesBounded (c : PicaCore) : Prop := ∀ s, (c.setup s).uniformQueue.index.toNat ≤ 3

/-- The immediate mode stays as it is, and the queues of uniforms stay bounded. -/
structure Aside (c d : PicaCore) : Prop where
  immediate : d.immediate = c.immediate
  attributeIndex : d.attributeIndex = c.attributeIndex
  bounded : d.QueuesBounded

/-- A handler that stays inside of every table and leaves immediate mode alone. -/
def Safe (c : PicaCore) (r : Option PicaCore) : Prop := ∃ d, r = some d ∧ Aside c d

namespace Aside

theorem refl (h : c.QueuesBounded) : Aside c c := ⟨rfl, rfl, h⟩

theorem setReg (h : Aside c d) {i : Fin 0x300} (hi : 0x232 ≠ i) (value : UInt32) :
    Aside c (d.setReg i value) :=
  ⟨h.immediate, (attributeIndex_setReg hi value).trans h.attributeIndex, fun s => by
    cases s
    · exact h.bounded .gs
    · exact h.bounded .vs⟩

theorem setSetup (h : Aside c d) (s : Stage) {setup : ShaderSetup}
    (hsetup : setup.uniformQueue.index.toNat ≤ 3) : Aside c (d.setSetup s setup) := by
  cases s
  · refine ⟨h.immediate, h.attributeIndex, fun t => ?_⟩
    cases t
    · exact hsetup
    · exact h.bounded .vs
  · refine ⟨h.immediate, h.attributeIndex, fun t => ?_⟩
    cases t
    · exact h.bounded .gs
    · exact hsetup

theorem mirror (h : Aside c d) (s : Stage) {f : ShaderSetup → Option ShaderSetup}
    (hf : ∀ gs, ∃ gs', f gs = some gs' ∧ gs'.uniformQueue = gs.uniformQueue) :
    Safe c (d.mirror s f) := by
  rw [PicaCore.mirror]
  split_ifs
  · obtain ⟨gs, hgs, hqueue⟩ := hf d.gsSetup
    refine ⟨_, by rw [hgs, Option.map_some], h.setSetup .gs ?_⟩
    rw [hqueue]
    exact h.bounded .gs
  · exact ⟨d, rfl, h⟩

end Aside

theorem writeBoolUniforms_safe (h : c.QueuesBounded) (s : Stage) :
    Safe c (c.writeBoolUniforms s) := by
  rw [writeBoolUniforms]
  refine Aside.mirror (Aside.setSetup (.refl h) s ?_) s fun _ => ⟨_, rfl, rfl⟩
  exact h s

theorem writeIntUniforms_safe (h : c.QueuesBounded) (s : Stage) (index : Fin 4) :
    Safe c (c.writeIntUniforms s index) := by
  obtain ⟨setup, hsetup, hqueue⟩ :=
    (c.setup s).writeUniformIntReg_spec index (c.getIntUniform s index)
  rw [writeIntUniforms, hsetup]
  exact ((Aside.refl h).setSetup s (by rw [hqueue]; exact h s)).mirror s
    fun gs => gs.writeUniformIntReg_spec index _

theorem reg_ne (s : Stage) (k : Fin 0x30) : (0x232 : Fin 0x300) ≠ s.reg k := by
  intro h
  have := congrArg Fin.val h
  cases s <;> simp [Stage.reg] at this <;> omega

theorem writeUniformValue_safe (h : c.QueuesBounded) (s : Stage) (value : UInt32) :
    Safe c (c.writeUniformValue s value) := by
  obtain ⟨setup, config, written, hwrite, hqueue, hlt⟩ :=
    (c.setup s).writeUniformFloatReg_spec (c.regs (s.reg 0x10)) value (h s)
  have haside := ((Aside.refl h).setSetup s hqueue).setReg (reg_ne s 0x10) config
  rw [writeUniformValue, hwrite]
  cases written with
  | none => exact ⟨_, rfl, haside⟩
  | some index =>
      exact haside.mirror s fun gs => setup.copyUniform_spec (hlt index rfl) gs

theorem writeProgramWord_safe (h : c.QueuesBounded) (s : Stage) (value : UInt32) :
    Safe c (c.writeProgramWord s value) := by
  rw [writeProgramWord]
  split_ifs with hlimit
  · exact ⟨c, rfl, .refl h⟩
  · have hlt : (c.regs (s.reg 0x1b)).toNat < 4096 := by
      rw [UInt32.le_iff_toNat_le] at hlimit
      have : s.programLimit.toNat ≤ 4096 := by cases s <;> decide
      omega
    obtain ⟨setup, hsetup, hqueue⟩ := (c.setup s).updateProgramCode_spec hlt value
    obtain ⟨d, hd, haside⟩ :=
      ((Aside.refl h).setSetup s (by rw [hqueue]; exact h s)).mirror s
        fun gs => gs.updateProgramCode_spec hlt value
    rw [hsetup, Option.bind_eq_bind, Option.bind_some, hd]
    exact ⟨_, rfl, haside.setReg (reg_ne s 0x1b) _⟩

theorem writeSwizzleWord_safe (h : c.QueuesBounded) (s : Stage) (value : UInt32) :
    Safe c (c.writeSwizzleWord s value) := by
  rw [writeSwizzleWord]
  split_ifs with hlimit
  · exact ⟨c, rfl, .refl h⟩
  · have hlt : (c.regs (s.reg 0x25)).toNat < 4096 := by
      rw [UInt32.le_iff_toNat_le] at hlimit
      exact Nat.not_le.1 hlimit
    obtain ⟨setup, hsetup, hqueue⟩ := (c.setup s).updateSwizzleData_spec hlt value
    obtain ⟨d, hd, haside⟩ :=
      ((Aside.refl h).setSetup s (by rw [hqueue]; exact h s)).mirror s
        fun gs => gs.updateSwizzleData_spec hlt value
    rw [hsetup, Option.bind_eq_bind, Option.bind_some, hd]
    exact ⟨_, rfl, haside.setReg (reg_ne s 0x25) _⟩

theorem writeOutputMask_aside (h : c.QueuesBounded) (value : UInt32) :
    Aside c (c.writeOutputMask value) := by
  rw [writeOutputMask]
  split_ifs
  · exact (Aside.refl h).setReg (reg_ne .gs 0xd) _
  · exact .refl h

theorem Aside.of_fields (h : c.QueuesBounded) (himmediate : d.immediate = c.immediate)
    (hregs : d.regs = c.regs) (hsetup : d.setup = c.setup) : Aside c d :=
  ⟨himmediate, congrFun hregs _, fun s => by rw [hsetup]; exact h s⟩

theorem setup_eq (hgs : d.gsSetup = c.gsSetup) (hvs : d.vsSetup = c.vsSetup) :
    d.setup = c.setup := by
  funext s
  cases s
  · exact hgs
  · exact hvs

theorem writeFogLut_safe (h : c.QueuesBounded) (value : UInt32) :
    Safe c (c.writeFogLut value) := by
  have hlt : (bits 0 16 (c.regs 0xe6)).toNat % 128 < 128 := Nat.mod_lt _ (by decide)
  rw [writeFogLut, Table.get?_of_lt _ hlt, Table.set?_of_lt _ _ hlt]
  refine ⟨_, rfl, Aside.setReg ?_ (by decide) _⟩
  exact .of_fields h rfl rfl (setup_eq rfl rfl)

theorem syncLut_isSome {n : Nat} (hn : 0 < n) (table : Table UInt32 n) (index value : UInt32) :
    ∃ r, syncLut table index value = some r := by
  have hlt := Nat.mod_lt index.toNat hn
  exact ⟨_, by rw [syncLut, Table.get?_of_lt _ hlt, Table.set?_of_lt _ _ hlt]; rfl⟩

theorem syncTable_isSome (p : ProcTex) (table index value : UInt32) :
    ∃ q, syncTable p table index value = some q := by
  have h128 (t : Table UInt32 128) := syncLut_isSome (by decide) t index value
  have h256 (t : Table UInt32 256) := syncLut_isSome (by decide) t index value
  rw [syncTable]
  dsimp only
  split_ifs
  · obtain ⟨r, hr⟩ := h128 p.noiseTable
    exact ⟨_, by rw [hr]; rfl⟩
  · obtain ⟨r, hr⟩ := h128 p.colorMapTable
    exact ⟨_, by rw [hr]; rfl⟩
  · obtain ⟨r, hr⟩ := h128 p.alphaMapTable
    exact ⟨_, by rw [hr]; rfl⟩
  · obtain ⟨r, hr⟩ := h256 p.colorTable
    exact ⟨_, by rw [hr]; rfl⟩
  · obtain ⟨r, hr⟩ := h256 p.colorDiffTable
    exact ⟨_, by rw [hr]; rfl⟩
  · exact ⟨p, rfl⟩

theorem writeProctexLut_safe (h : c.QueuesBounded) (value : UInt32) :
    Safe c (c.writeProctexLut value) := by
  obtain ⟨q, hq⟩ := syncTable_isSome c.proctex (bits 8 4 (c.regs 0xaf))
    (bits 0 8 (c.regs 0xaf)) value
  rw [writeProctexLut, hq]
  refine ⟨_, rfl, Aside.setReg ?_ (by decide) _⟩
  exact .of_fields h rfl rfl (setup_eq rfl rfl)

theorem writeLightingLut_safe (h : c.QueuesBounded) (value : UInt32)
    (htype : c.lutType.toNat < 24) : Safe c (c.writeLightingLut value) := by
  have hlt : (bits 0 8 (c.regs 0x1c5)).toNat < 256 :=
    Nat.lt_of_le_of_lt (bits_le 0 8 _) (by decide)
  simp only [writeLightingLut, Table.get?_of_lt _ htype, Table.set?_of_lt _ _ htype,
    Table.get?_of_lt _ hlt, Table.set?_of_lt _ _ hlt, Option.bind_some, Option.bind_eq_bind]
  refine ⟨_, rfl, Aside.setReg ?_ (by decide) _⟩
  exact .of_fields h rfl rfl (setup_eq rfl rfl)

theorem writeLightingLut_none (value : UInt32) (htype : 24 ≤ c.lutType.toNat) :
    c.writeLightingLut value = none := by
  rw [writeLightingLut, Table.get?, dif_neg (Nat.not_lt.2 htype)]
  rfl

end PicaCore

/-! ### Immediate mode -/

/-- How many words of a default attribute were written since its index was. -/
def countWord (n : Nat) (w : RegWrite) : Nat :=
  match handlerOf w.id.toNat with
  | .defaultAttributeIndex => 0
  | .defaultAttributeValue => n + 1
  | _ => n

/-- The words written after the last write of the index. -/
def wordsSinceIndex (ws : List RegWrite) : Nat := ws.foldl countWord 0

theorem wordsSinceIndex_append (ws : List RegWrite) (w : RegWrite) :
    wordsSinceIndex (ws ++ [w]) = countWord (wordsSinceIndex ws) w :=
  List.foldl_append

/-- The condition for a write after the writes `ws`: the queue of an index
that nothing takes attributes for has room, and the type has a table. -/
structure StaysInside (ws : List RegWrite) (c : PicaCore) (w : RegWrite) : Prop where
  word : handlerOf w.id.toNat = .defaultAttributeValue → 0xF < c.attributeIndex →
    wordsSinceIndex ws < 4
  lut : handlerOf w.id.toNat = .lightingLutData → c.lutType < 24

/-- What the writes `ws` leave behind. -/
structure Settled (n : Nat) (c : PicaCore) : Prop where
  bounded : c.QueuesBounded
  current : c.immediate.currentAttribute.toNat ≤ 15
  /-- Attributes are taken from the queue when they are complete. -/
  taken : c.attributeIndex ≤ 0xF → c.immediate.queue.index.toNat ≤ 2
  /-- Nothing is taken for the other indices. -/
  kept : 0xF < c.attributeIndex → c.immediate.queue.index.toNat = n ∧ n ≤ 4

theorem settled_initial : Settled 0 {} where
  bounded s := by cases s <;> exact Nat.zero_le _
  current := Nat.zero_le _
  taken _ := Nat.zero_le _
  kept h := absurd h (by decide)

namespace Settled

variable {n : Nat} {c d : PicaCore}

theorem of_aside (h : Settled n c) (haside : c.Aside d) : Settled n d where
  bounded := haside.bounded
  current := by rw [haside.immediate]; exact h.current
  taken := by rw [haside.immediate, haside.attributeIndex]; exact h.taken
  kept := by rw [haside.immediate, haside.attributeIndex]; exact h.kept

theorem setQueue (h : Settled n c) {queue : PackedAttribute} {m : Nat}
    (htaken : c.attributeIndex ≤ 0xF → queue.index.toNat ≤ 2)
    (hkept : 0xF < c.attributeIndex → queue.index.toNat = m ∧ m ≤ 4) :
    Settled m (c.setQueue queue) where
  bounded s := by cases s; exacts [h.bounded .gs, h.bounded .vs]
  current := h.current
  taken := htaken
  kept := hkept

theorem placeAttribute_spec (h : Settled n c) (vector : Vec4 UInt32)
    (hnear : c.attributeIndex ≤ 0xF) (m : Nat) :
    ∃ d effects, c.placeAttribute vector = some (d, effects) ∧ Settled m d := by
  rw [PicaCore.placeAttribute]
  split_ifs with hless
  · have hlt : c.attributeIndex.toNat < 15 := UInt32.lt_iff_toNat_lt.1 hless
    have hle : (c.attributeIndex + 1).toNat ≤ 15 := by
      rw [toNat_succ_of_le hlt.le]
      exact hlt
    rw [Table.set?_of_lt _ _ (hlt.trans (by decide))]
    refine ⟨_, _, rfl, ?_, h.current, fun _ => h.taken hnear, fun hfar => ?_⟩
    · intro s
      cases s
      · exact h.bounded .gs
      · exact h.bounded .vs
    · exact absurd (UInt32.lt_iff_toNat_lt.1 hfar) (Nat.not_lt.2 hle)
  · rw [Table.set?_of_lt _ _ (Nat.lt_succ_of_le h.current)]
    simp only [Option.bind_eq_bind, Option.pure_def]
    have hfar (P : Prop) (hlt : 0xF < c.attributeIndex) : P := absurd hlt (UInt32.not_lt.2 hnear)
    split_ifs with hmore
    · refine ⟨_, _, rfl, fun s => by cases s; exacts [h.bounded .gs, h.bounded .vs], ?_,
        fun _ => h.taken hnear, hfar _⟩
      -- the number of attributes has four bits
      have hlt := UInt32.lt_iff_toNat_lt.1 hmore
      have := bits_le 0 4 (c.regs 0x242)
      have h15 : (lowMask 4).toNat = 15 := by decide
      change (c.immediate.currentAttribute + 1).toNat ≤ 15
      rw [toNat_succ_of_le h.current]
      exact (Nat.succ_le_of_lt hlt).trans (this.trans h15.le)
    · exact ⟨_, _, rfl, fun s => by cases s; exacts [h.bounded .gs, h.bounded .vs],
        Nat.zero_le _, fun _ => h.taken hnear, hfar _⟩

theorem submitImmediate_spec (h : Settled n c) (value : UInt32)
    (hroom : 0xF < c.attributeIndex → n < 4) :
    ∃ d effects, c.submitImmediate value = some (d, effects) ∧ Settled (n + 1) d := by
  have hindex : c.immediate.queue.index.toNat ≤ 3 := by
    rcases UInt32.lt_or_le 0xF c.attributeIndex with hlt | hle
    · have := h.kept hlt
      have := hroom hlt
      omega
    · exact (h.taken hle).trans (by decide)
  have hnext := toNat_succ_of_le (hindex.trans (by decide))
  obtain ⟨buffer, hpush⟩ := c.immediate.queue.push_eq value false hindex
  have hkept : 0xF < c.attributeIndex →
      (c.immediate.queue.index + 1).toNat = n + 1 ∧ n + 1 ≤ 4 := fun hlt => by
    rw [hnext, (h.kept hlt).1]
    exact ⟨rfl, hroom hlt⟩
  rw [PicaCore.submitImmediate, hpush]
  simp only [Option.bind_some, Option.bind_eq_bind, Option.pure_def]
  split_ifs with hfull hfar
  · -- the attribute is not complete yet
    refine ⟨_, _, rfl, h.setQueue (fun _ => ?_) hkept⟩
    have : ¬ (3 ≤ c.immediate.queue.index + 1) := by simpa using hfull
    exact Nat.le_of_lt_succ (UInt32.lt_iff_toNat_lt.1 (UInt32.not_le.1 this))
  · -- no attribute has this index, and the queue keeps its words
    exact ⟨_, _, rfl, h.setQueue (fun hle => absurd hfar (UInt32.not_lt.2 hle)) hkept⟩
  · have hle := UInt32.not_lt.1 hfar
    have hempty : Settled n (c.setQueue ⟨buffer, 0⟩) :=
      h.setQueue (fun _ => Nat.zero_le _) fun hlt => absurd hlt hfar
    exact hempty.placeAttribute_spec _ hle _

theorem submitImmediate_none (h : Settled n c) (value : UInt32)
    (hfar : 0xF < c.attributeIndex) (hn : 4 ≤ n) : c.submitImmediate value = none := by
  have hindex : 4 ≤ c.immediate.queue.index.toNat := by rwa [(h.kept hfar).1]
  rw [PicaCore.submitImmediate, PackedAttribute.push_none _ _ _ hindex]
  rfl

theorem setReg (h : Settled n c) {i : Fin 0x300} (hi : 0x232 ≠ i) (value : UInt32) :
    Settled n (c.setReg i value) :=
  h.of_aside ((PicaCore.Aside.refl h.bounded).setReg hi value)

theorem setIndex (h : Settled n c) (value : UInt32) :
    Settled 0 { c.setReg 0x232 value with immediate := c.immediate.reset } where
  bounded s := by cases s; exacts [h.bounded .gs, h.bounded .vs]
  current := Nat.zero_le _
  taken _ := Nat.zero_le _
  kept _ := ⟨rfl, Nat.zero_le _⟩

end Settled

theorem setDirty_spec {n : Nat} {c : PicaCore} (h : Settled n c) {id : Nat} (hid : id < numRegs) :
    ∃ d, c.setDirty id = some d ∧ Settled n d := by
  have hlt : id >>> 6 < 12 := by
    rw [Nat.shiftRight_eq_div_pow]
    have : numRegs = 0x300 := rfl
    omega
  rw [PicaCore.setDirty, Table.get?_of_lt _ hlt, Option.bind_eq_bind, Option.bind_some,
    Table.set?_of_lt _ _ hlt]
  exact ⟨_, rfl, h.of_aside (.of_fields h.bounded rfl rfl (PicaCore.setup_eq rfl rfl))⟩

theorem handle_aside {c : PicaCore} (h : c.QueuesBounded) (value : UInt32) {r : Handler}
    (hindex : r ≠ .defaultAttributeIndex) (hvalue : r ≠ .defaultAttributeValue)
    (hlut : r = .lightingLutData → c.lutType < 24) :
    ∃ d effects, c.handle value r = some (d, effects) ∧ c.Aside d := by
  have hquiet {r : Option PicaCore} (hr : c.Safe r) :
      ∃ d effects, PicaCore.quiet r = some (d, effects) ∧ c.Aside d := by
    obtain ⟨d, rfl, hd⟩ := hr
    exact ⟨d, [], rfl, hd⟩
  cases r with
  | irqRequest => exact ⟨c, _, rfl, .refl h⟩
  | triangleTopology => exact ⟨c, _, rfl, .refl h⟩
  | restartPrimitive => exact ⟨c, _, rfl, .refl h⟩
  | defaultAttributeIndex => exact absurd rfl hindex
  | defaultAttributeValue => exact absurd rfl hvalue
  | commandBufferTrigger k => exact ⟨c, _, rfl, .refl h⟩
  | triggerDraw isIndexed => exact ⟨c, _, rfl, .refl h⟩
  | boolUniforms s => exact hquiet (PicaCore.writeBoolUniforms_safe h s)
  | intUniforms s index => exact hquiet (PicaCore.writeIntUniforms_safe h s index)
  | uniformValue s => exact hquiet (PicaCore.writeUniformValue_safe h s value)
  | programWord s => exact hquiet (PicaCore.writeProgramWord_safe h s value)
  | swizzleWord s => exact hquiet (PicaCore.writeSwizzleWord_safe h s value)
  | outputMask => exact ⟨_, _, rfl, PicaCore.writeOutputMask_aside h value⟩
  | lightingLutData =>
      exact hquiet (PicaCore.writeLightingLut_safe h value (UInt32.lt_iff_toNat_lt.1 (hlut rfl)))
  | fogLutData => exact hquiet (PicaCore.writeFogLut_safe h value)
  | proctexLutData => exact hquiet (PicaCore.writeProctexLut_safe h value)
  | none => exact ⟨c, _, rfl, .refl h⟩

theorem Stage.handler_ne (s : Stage) (i : Nat) :
    s.handler i ≠ .defaultAttributeIndex ∧ s.handler i ≠ .defaultAttributeValue ∧
      s.handler i ≠ .lightingLutData := by
  rw [Stage.handler]
  split_ifs <;> exact ⟨by rintro ⟨⟩, by rintro ⟨⟩, by rintro ⟨⟩⟩


theorem ite_handler_ne {p : Prop} [Decidable p] {a b r : Handler} (ha : p → a ≠ r) (hb : b ≠ r) :
    (if p then a else b) ≠ r := by
  by_cases hp : p
  · rw [if_pos hp]
    exact ha hp
  · rwa [if_neg hp]

theorem handlerOf_index {id : Nat} : handlerOf id = .defaultAttributeIndex ↔ id = 0x232 := by
  constructor
  · contrapose!
    intro hne
    unfold handlerOf
    repeat
      apply ite_handler_ne
      · intro _
        first | exact (Stage.handler_ne _ _).1 | contradiction | rintro ⟨⟩
    rintro ⟨⟩
  · rintro rfl
    rfl

theorem handlerOf_lut {id : Nat} (h : handlerOf id = .lightingLutData) : id ≠ 0x1c5 := by
  rintro rfl
  exact absurd h (by decide)

theorem handlerOf_of_le {id : Nat} (h : numRegs ≤ id) : handlerOf id = .none := by
  have : 0x300 ≤ id := h
  unfold handlerOf
  repeat rw [if_neg (by omega)]

theorem countWord_other {n : Nat} {w : RegWrite}
    (hindex : handlerOf w.id.toNat ≠ .defaultAttributeIndex)
    (hvalue : handlerOf w.id.toNat ≠ .defaultAttributeValue) : countWord n w = n := by
  unfold countWord
  split
  · contradiction
  · contradiction
  · rfl

section Step

variable {ws : List RegWrite} {c : PicaCore} {w : RegWrite}

theorem writeInternalReg_spec (h : Settled (wordsSinceIndex ws) c) (hin : StaysInside ws c w) :
    ∃ d effects, writeInternalReg c w = some (d, effects) ∧
      Settled (wordsSinceIndex (ws ++ [w])) d := by
  rw [wordsSinceIndex_append]
  by_cases hid : w.id.toNat < numRegs
  swap
  · have hr := handlerOf_of_le (Nat.not_lt.1 hid)
    rw [writeInternalReg, dif_neg hid, countWord_other (by simp [hr]) (by simp [hr])]
    exact ⟨c, [], rfl, h⟩
  set value := (c.regs ⟨w.id.toNat, hid⟩ &&& ~~~expandBitsToBytes w.mask) |||
    (w.value &&& expandBitsToBytes w.mask) with hvalue
  -- the handler runs in the core that holds the masked value already
  obtain ⟨d, effects, hd, hsettled⟩ : ∃ d effects,
      (c.setReg ⟨w.id.toNat, hid⟩ value).handle w.value (handlerOf w.id.toNat) =
        some (d, effects) ∧ Settled (countWord (wordsSinceIndex ws) w) d := by
    by_cases hindex : handlerOf w.id.toNat = .defaultAttributeIndex
    · have heq : (⟨w.id.toNat, hid⟩ : Fin 0x300) = 0x232 := Fin.ext (handlerOf_index.1 hindex)
      rw [hindex, heq]
      refine ⟨_, _, rfl, ?_⟩
      rw [countWord, hindex]
      exact h.setIndex value
    have hne : (0x232 : Fin 0x300) ≠ ⟨w.id.toNat, hid⟩ := fun heq =>
      hindex (handlerOf_index.2 (congrArg Fin.val heq).symm)
    have hset := h.setReg hne value
    have hattribute := PicaCore.attributeIndex_setReg (c := c) hne value
    by_cases hword : handlerOf w.id.toNat = .defaultAttributeValue
    · rw [hword, countWord, hword]
      exact hset.submitImmediate_spec w.value (by rw [hattribute]; exact hin.word hword)
    · rw [countWord_other hindex hword]
      obtain ⟨d, effects, hd, haside⟩ := handle_aside hset.bounded w.value hindex hword fun hlut => by
        have hconfig : (0x1c5 : Fin 0x300) ≠ ⟨w.id.toNat, hid⟩ := fun heq =>
          handlerOf_lut hlut (congrArg Fin.val heq).symm
        rw [PicaCore.lutType_setReg hconfig]
        exact hin.lut hlut
      exact ⟨d, effects, hd, hset.of_aside haside⟩
  obtain ⟨e, he, hfinal⟩ := setDirty_spec hsettled hid
  refine ⟨e, effects, ?_, hfinal⟩
  rw [writeInternalReg, dif_pos hid]
  dsimp only
  rw [← hvalue, hd, Option.bind_eq_bind, Option.bind_some]
  dsimp only
  rw [he]
  rfl

theorem writeInternalReg_none (h : Settled (wordsSinceIndex ws) c) (hin : ¬ StaysInside ws c w) :
    writeInternalReg c w = none := by
  by_cases hid : w.id.toNat < numRegs
  swap
  · have hr := handlerOf_of_le (Nat.not_lt.1 hid)
    exact absurd ⟨by simp [hr], by simp [hr]⟩ hin
  have hne (hr : handlerOf w.id.toNat ≠ .defaultAttributeIndex) :
      (0x232 : Fin 0x300) ≠ ⟨w.id.toNat, hid⟩ := fun heq =>
    hr (handlerOf_index.2 (congrArg Fin.val heq).symm)
  rw [writeInternalReg, dif_pos hid]
  dsimp only
  by_cases hword : handlerOf w.id.toNat = .defaultAttributeValue ∧
      0xF < c.attributeIndex ∧ 4 ≤ wordsSinceIndex ws
  · -- nothing has taken the words of this index, and the queue is full of them
    obtain ⟨hr, hfar, hn⟩ := hword
    have hne := hne (by rw [hr]; rintro ⟨⟩)
    rw [hr, PicaCore.handle, (h.setReg hne _).submitImmediate_none _ _ hn]
    · rfl
    · rwa [PicaCore.attributeIndex_setReg hne]
  · have hlut : handlerOf w.id.toNat = .lightingLutData ∧ 24 ≤ c.lutType := by
      by_contra hlut
      refine hin ⟨fun hr hfar => ?_, fun hr => ?_⟩
      · exact Nat.not_le.1 fun hn => hword ⟨hr, hfar, hn⟩
      · exact UInt32.not_le.1 fun hn => hlut ⟨hr, hn⟩
    obtain ⟨hr, htype⟩ := hlut
    have hconfig : (0x1c5 : Fin 0x300) ≠ ⟨w.id.toNat, hid⟩ := fun heq =>
      handlerOf_lut hr (congrArg Fin.val heq).symm
    rw [hr, PicaCore.handle, PicaCore.writeLightingLut_none]
    · rfl
    · rw [PicaCore.lutType_setReg hconfig]
      exact UInt32.le_iff_toNat_le.1 htype

end Step

/-! ### Whole sequences -/

/-- The writes of a sequence all meet the condition, in the states that they
are made in. -/
def AllInside (ws : List RegWrite) : Prop :=
  ∀ h w t, ws = h ++ w :: t → ∀ c, runWrites {} h = some c → StaysInside h c w

theorem runWrites_append (c : PicaCore) (h t : List RegWrite) :
    runWrites c (h ++ t) = (runWrites c h).bind fun d => runWrites d t := by
  induction h generalizing c with
  | nil => rfl
  | cons w h ih =>
      rw [List.cons_append, runWrites, runWrites, Option.bind_eq_bind, Option.bind_assoc]
      exact congrArg _ (funext fun r => ih r.1)

theorem runWrites_snoc (c : PicaCore) (h : List RegWrite) (w : RegWrite) :
    runWrites c (h ++ [w]) = (runWrites c h).bind fun d => (writeInternalReg d w).map Prod.fst := by
  rw [runWrites_append]
  refine congrArg _ (funext fun d => ?_)
  cases hd : writeInternalReg d w <;> simp [runWrites, hd]

theorem settled_of_runWrites {ws : List RegWrite} {c : PicaCore} (h : runWrites {} ws = some c) :
    Settled (wordsSinceIndex ws) c := by
  induction ws using List.reverseRecOn generalizing c with
  | nil =>
      obtain rfl := Option.some.inj h
      exact settled_initial
  | append_singleton ws w ih =>
      rw [runWrites_snoc, Option.bind_eq_some_iff] at h
      obtain ⟨d, hd, h⟩ := h
      by_cases hin : StaysInside ws d w
      · obtain ⟨e, effects, he, hsettled⟩ := writeInternalReg_spec (ih hd) hin
        rw [he, Option.map_some, Option.some.injEq] at h
        exact h ▸ hsettled
      · rw [writeInternalReg_none (ih hd) hin, Option.map_none] at h
        exact (Option.some_ne_none _ h.symm).elim

/-- The sequences of writes that stay inside of every table. -/
theorem runWrites_isSome_iff (ws : List RegWrite) :
    (runWrites {} ws).isSome ↔ AllInside ws := by
  constructor
  · rintro hsome h w t rfl c hc
    by_contra hin
    have hnone := writeInternalReg_none (settled_of_runWrites hc) hin
    rw [runWrites_append, hc, Option.bind_some, runWrites, hnone] at hsome
    exact Bool.false_ne_true hsome
  · intro hall
    induction ws using List.reverseRecOn with
    | nil => rfl
    | append_singleton ws w ih =>
        obtain ⟨c, hc⟩ := Option.isSome_iff_exists.1 <| ih fun h v t hws c hc =>
          hall h v (t ++ [w]) (by rw [hws, List.append_assoc, List.cons_append]) c hc
        obtain ⟨d, effects, hd, -⟩ :=
          writeInternalReg_spec (settled_of_runWrites hc) (hall ws w [] rfl c hc)
        rw [runWrites_snoc, hc, Option.bind_some, hd]
        rfl

/-- Five words for an index past the last attribute, and one word for a type
of lookup table that there is none of. -/
theorem runWrites_outside :
    runWrites {} (⟨0x232, 0x10, 0xF⟩ :: List.replicate 5 ⟨0x233, 0, 0xF⟩) = none ∧
      runWrites {} [⟨0x1c5, 0x1800, 0xF⟩, ⟨0x1c8, 0, 0xF⟩] = none := by
  constructor
  · exact Option.isNone_iff_eq_none.1 (by decide)
  · exact Option.isNone_iff_eq_none.1 (by decide)

end Cytrus.VideoCore.Pica
