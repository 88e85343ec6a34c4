import Cytrus.Kernel.Ipc

/-!
# Command buffers of HLE services

An HLE service has no handle table. Handles and buffers of a request are put
into lists of the request context, and the words of the command become indices
into these lists. The way back turns the indices into handles and addresses of
the client.

## Implementation notes

The client's buffer is a copy of 96 words: the command and the area of the
static buffers. Reading and writing its command words is recorded together with
the accesses to `cmd_buf`, but only `cmd_buf` ends after 64 words.
-/

namespace Cytrus.Kernel.Ipc

open Support Memory

variable {α : Type}

/-- The arguments of the way in. -/
structure Incoming (α : Type) where
  srcCmdBuf : Nat → Nat
  srcProcess : Nat
  current : Current α

def onContext (f : HLERequestContext α → HLERequestContext α) : Trans α PUnit :=
  Exec.modify fun s => { s with context := f s.context }

/-- Put an object into the list of the request; its index is the translated handle. -/
def addOutgoingHandle (object : Option α) : Trans α Nat := do
  let s ← Exec.get
  onContext fun c => { c with requestHandles := c.requestHandles ++ [object] }
  pure s.context.requestHandles.length

def populateHandle (r : Incoming α) (descriptor : Nat) : Trans α PUnit := do
  let s ← Exec.get
  mark s.i
  let handle := r.srcCmdBuf s.i
  let object := if handle ≠ 0 then
      (s.processes r.srcProcess).handleTable.getGeneric r.current handle
    else none
  Exec.when (handle ≠ 0) do
    assert (object.isSome = true)
    Exec.when (descriptor = moveHandleDesc) do
      ignore (onTable r.srcProcess (HandleTable.close handle))
  let index ← addOutgoingHandle object
  pushWord index

def populateHandles (r : Incoming α) (descriptor : Nat) : Nat → Trans α PUnit
  | 0 => pure ⟨⟩
  | n + 1 => do
      populateHandle r descriptor
      populateHandles r descriptor n

def populateHandleDescriptor (r : Incoming α) (commandSize descriptor : Nat) :
    Trans α PUnit := do
  let s ← Exec.get
  assert (s.i + handleNumberFromDesc descriptor ≤ commandSize)
  populateHandles r descriptor (handleNumberFromDesc descriptor)

def populateCallingPid (r : Incoming α) : Trans α PUnit := do
  let s ← Exec.get
  pushWord (s.processes r.srcProcess).processId

def populateStaticBuffer (r : Incoming α) (descriptor : Nat) : Trans α PUnit := do
  let s ← Exec.get
  mark s.i
  let sourceAddress := r.srcCmdBuf s.i
  let data ← readBlock r.srcProcess sourceAddress (staticBufferSize descriptor)
  onContext fun c => { c with
    staticBuffers := Function.update c.staticBuffers (staticBufferId descriptor) data }
  pushWord sourceAddress

def populateMappedBuffer (r : Incoming α) (descriptor : Nat) : Trans α PUnit := do
  let s ← Exec.get
  mark s.i
  let nextId := s.context.requestMappedBuffers.length
  onContext fun c => { c with
    requestMappedBuffers := c.requestMappedBuffers ++
      [⟨nextId, r.srcCmdBuf s.i, mappedBufferSize descriptor, mappedBufferPerms descriptor⟩] }
  pushWord nextId

def populateDescriptor (r : Incoming α) (commandSize descriptor : Nat) : Trans α PUnit :=
  match getDescriptorType descriptor with
  | .copyHandle => populateHandleDescriptor r commandSize descriptor
  | .moveHandle => populateHandleDescriptor r commandSize descriptor
  | .callingPid => populateCallingPid r
  | .staticBuffer => populateStaticBuffer r descriptor
  | .mappedBuffer => populateMappedBuffer r descriptor
  | .pxiBuffer => pure ⟨⟩
  | .unknown => pure ⟨⟩

/-- `descriptor = cmd_buf[i] = src_cmdbuf[i]; i += 1`. -/
def copyDescriptor (r : Incoming α) : Trans α Nat := do
  let s ← Exec.get
  pushWord (r.srcCmdBuf s.i)
  pure (r.srcCmdBuf s.i)

def populateLoop (r : Incoming α) (commandSize : Nat) : Trans α PUnit :=
  descriptorLoop commandSize (copyDescriptor r) (populateDescriptor r commandSize)
    (commandBufferLength + 1)

def populateFromIncomingCommandBuffer (r : Incoming α) : Trans α PUnit := do
  let header := r.srcCmdBuf 0
  assert (commandSize header ≤ commandBufferLength)
  Exec.modify fun s => { s with
    cmdBuf := fun k => if k < untranslatedSize header then r.srcCmdBuf k else s.cmdBuf k
    touched := List.range (untranslatedSize header) ++ s.touched
    i := untranslatedSize header }
  populateLoop r (commandSize header)

/-! ## The way back -/

/-- `dst_cmdbuf[i++] = value`. -/
def replyWord (value : Nat) : Trans α PUnit := do
  let s ← Exec.get
  mark s.i
  onContext fun c => { c with dstCmdBuf := Function.update c.dstCmdBuf s.i value }
  Exec.modify fun s => { s with i := s.i + 1 }

def getIncomingHandle (id : Nat) : Trans α (Option α) := do
  let s ← Exec.get
  match s.context.requestHandles[id]? with
  | some object => pure object
  | none => abort .assertFailed

def writeHandle (dstProcess : Nat) : Trans α PUnit := do
  let s ← Exec.get
  let id ← readWord s.i
  let object ← getIncomingHandle id
  match object with
  | none => replyWord 0
  | some object => do
      let handle ← unwrap (onTable dstProcess (HandleTable.create object))
      replyWord handle

def writeHandles (dstProcess : Nat) : Nat → Trans α PUnit
  | 0 => pure ⟨⟩
  | n + 1 => do
      writeHandle dstProcess
      writeHandles dstProcess n

def writeHandleDescriptor (dstProcess commandSize descriptor : Nat) : Trans α PUnit := do
  let s ← Exec.get
  assert (s.i + handleNumberFromDesc descriptor ≤ commandSize)
  writeHandles dstProcess (handleNumberFromDesc descriptor)

def writeStaticBuffer (dstProcess descriptor : Nat) : Trans α PUnit := do
  let s ← Exec.get
  let data := s.context.staticBuffers (staticBufferId descriptor)
  let offset := commandBufferLength + 2 * staticBufferId descriptor
  let targetDescriptor := s.context.dstCmdBuf offset
  let targetAddress := s.context.dstCmdBuf (offset + 1)
  assert (data.length ≤ staticBufferSize targetDescriptor)
  writeBlock dstProcess targetAddress data
  replyWord targetAddress

def writeMappedBuffer : Trans α PUnit := do
  let s ← Exec.get
  let id ← readWord s.i
  match s.context.requestMappedBuffers[id]? with
  | some buffer => replyWord buffer.address
  | none => abort .outOfBounds

/-- A `CallingPid` descriptor is not supported on the way back. -/
def writeDescriptor (dstProcess commandSize descriptor : Nat) : Trans α PUnit :=
  match getDescriptorType descriptor with
  | .copyHandle => writeHandleDescriptor dstProcess commandSize descriptor
  | .moveHandle => writeHandleDescriptor dstProcess commandSize descriptor
  | .staticBuffer => writeStaticBuffer dstProcess descriptor
  | .mappedBuffer => writeMappedBuffer
  | .callingPid => pure ⟨⟩
  | .pxiBuffer => pure ⟨⟩
  | .unknown => pure ⟨⟩

/-- `descriptor = dst_cmdbuf[i] = cmd_buf[i]; i += 1`. -/
def replyDescriptor : Trans α Nat := do
  let s ← Exec.get
  let descriptor ← readWord s.i
  replyWord descriptor
  pure descriptor

def writeLoop (dstProcess commandSize : Nat) : Trans α PUnit :=
  descriptorLoop commandSize replyDescriptor (writeDescriptor dstProcess commandSize)
    (commandBufferLength + 1)

def writeToOutgoingCommandBuffer (dstProcess : Nat) : Trans α PUnit := do
  let header ← readWord 0
  assert (commandSize header ≤ commandBufferLength)
  Exec.modify fun s => { s with
    touched := List.range (untranslatedSize header) ++ s.touched
    i := untranslatedSize header }
  let s ← Exec.get
  onContext fun c => { c with
    dstCmdBuf := fun k => if k < untranslatedSize header then s.cmdBuf k else c.dstCmdBuf k }
  writeLoop dstProcess (commandSize header)

end Cytrus.Kernel.Ipc
