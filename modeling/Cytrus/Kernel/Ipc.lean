import Cytrus.Kernel.GuestMemory
import Cytrus.Kernel.HandleTable
import Cytrus.Kernel.VMManager

/-!
# Translation of command buffers

A command is a header, its normal parameters, and translated parameters: each
of these starts with a descriptor that says what the words after it are.
`TranslateCommandBuffer` reads a command from one process, replaces handles,
process ids and buffers by what they are for the other process, and writes the
command there.

## Implementation notes

A translation carries the list of the places of `cmd_buf` it has read or
written, also when it aborts. The words of `cmd_buf` that are not part of the
command are not initialised: they are whatever the initial state has there.
Processes are numbered; source and destination may be the same one.
-/

namespace Cytrus.Kernel

open Support Memory

namespace Ipc

def commandBufferLength : Nat := 64

def ipcMappingVaddr : Nat := 0x04000000
def ipcMappingSize : Nat := 0x04000000

inductive DescriptorType where
  | copyHandle
  | moveHandle
  | callingPid
  | staticBuffer
  | pxiBuffer
  | mappedBuffer
  /-- A handle descriptor with both type bits. -/
  | unknown
  deriving DecidableEq, Repr

/-- The descriptor of one handle that is moved. -/
def moveHandleDesc : Nat := 0x10

def isHandleDescriptor (descriptor : Nat) : Bool := descriptor &&& 0xF = 0

def handleNumberFromDesc (descriptor : Nat) : Nat := (descriptor >>> 26) + 1

/-- The order of the checks matters. -/
def getDescriptorType (descriptor : Nat) : DescriptorType :=
  if isHandleDescriptor descriptor then
    match descriptor &&& 0x30 with
    | 0 => .copyHandle
    | 0x10 => .moveHandle
    | 0x20 => .callingPid
    | _ => .unknown
  else if descriptor &&& 0x8 ≠ 0 then .mappedBuffer
  else if descriptor &&& 0x4 ≠ 0 then .pxiBuffer
  else .staticBuffer

/-- The size of the untranslated part of a command, from its header. -/
def untranslatedSize (header : Nat) : Nat := 1 + (header >>> 6 &&& 0x3F)

def commandSize (header : Nat) : Nat := untranslatedSize header + (header &&& 0x3F)

/-- The fields of a `StaticBufferDescInfo`. -/
def staticBufferId (descriptor : Nat) : Nat := descriptor >>> 10 &&& 0xF
def staticBufferSize (descriptor : Nat) : Nat := descriptor >>> 14

/-- The fields of a `MappedBufferDescInfo`. -/
def mappedBufferPerms (descriptor : Nat) : Nat := descriptor >>> 1 &&& 3
def mappedBufferSize (descriptor : Nat) : Nat := descriptor >>> 4

/-- `MappedBufferPermissions::R`. -/
def readOnly : Nat := 1

structure MappedBufferContext where
  permissions : Nat
  size : Nat
  sourceAddress : Nat
  targetAddress : Nat
  buffer : BackingMem
  deriving DecidableEq

/-- What a translation uses of a process. -/
structure Endpoint (α : Type) where
  handleTable : HandleTable α
  vmManager : VMManager
  processId : Nat
  object : α

/-- A mapped buffer as an HLE service sees it. -/
structure MappedBuffer where
  id : Nat
  address : Nat
  size : Nat
  perms : Nat
  deriving DecidableEq

/-- What an HLE service has collected from a request, and the words of its reply. -/
structure HLERequestContext (α : Type) where
  requestHandles : List (Option α)
  staticBuffers : Nat → List UInt8
  requestMappedBuffers : List MappedBuffer
  dstCmdBuf : Nat → Nat

/-- The state of a translation; `context` is used by HLE services only. -/
structure Translation (α : Type) where
  processes : Nat → Endpoint α
  memory : MemorySystem
  /-- The pointers that the host allocator returns, and how many it has returned. -/
  allocator : Nat → Nat
  allocations : Nat
  mappedBufferContext : List MappedBufferContext
  cmdBuf : Nat → Nat
  i : Nat
  touched : List Nat
  context : HLERequestContext α

/-- The reasons for which a translation aborts. -/
inductive TransFault where
  | kernel (f : Fault)
  /-- The loop over the descriptors did not end. -/
  | endlessLoop
  deriving DecidableEq

/-- A step of a translation; an abort tells which words were touched. -/
abbrev Trans (α β : Type) := Exec (TransFault × List Nat) ResultCode (Translation α) β

section Steps

variable {α β σ : Type}

/-- Abort, and keep the trace. -/
def abort (f : Fault) : Trans α β := fun s => .fault (.kernel f, s.touched)

def assert (c : Prop) [Decidable c] : Trans α PUnit :=
  if c then pure ⟨⟩ else abort .assertFailed

/-- Run a call on a part of the state. -/
def within (look : Translation α → σ) (put : Translation α → σ → Translation α)
    (x : Exec Fault ResultCode σ β) : Trans α β := fun s =>
  match x (look s) with
  | .value b t => .value b (put s t)
  | .error e t => .error e (put s t)
  | .fault f => .fault (.kernel f, s.touched)

def onEndpoint (pid : Nat) (f : Endpoint α → Endpoint α) (s : Translation α) : Translation α :=
  { s with processes := Function.update s.processes pid (f (s.processes pid)) }

def onTable (pid : Nat) (x : HandleTable.Handles α β) : Trans α β :=
  within (fun s => (s.processes pid).handleTable)
    (fun s handleTable => onEndpoint pid (fun p => { p with handleTable }) s) x

def onVm (pid : Nat) (x : VM β) : Trans α β :=
  within (fun s => (s.processes pid).vmManager)
    (fun s vmManager => onEndpoint pid (fun p => { p with vmManager }) s) x

/-- Assert that a call returns no error code. -/
def unwrap (x : Trans α β) : Trans α β := fun s =>
  match x s with
  | .error _ t => .fault (.kernel .assertFailed, t.touched)
  | o => o

/-- Ignore an error code. -/
def ignore (x : Trans α PUnit) : Trans α PUnit := fun s =>
  match x s with
  | .error _ t => .value ⟨⟩ t
  | o => o

/-- Record that a word of a command was read or written. -/
def mark (k : Nat) : Trans α PUnit := Exec.modify fun s => { s with touched := k :: s.touched }

/-- Access `cmd_buf`, which has 64 words. -/
def touch (k : Nat) : Trans α PUnit := do
  mark k
  if k < commandBufferLength then pure ⟨⟩ else abort .outOfBounds

def readWord (k : Nat) : Trans α Nat := do
  touch k
  let s ← Exec.get
  pure (s.cmdBuf k)

def writeWord (k value : Nat) : Trans α PUnit := do
  touch k
  Exec.modify fun s => { s with cmdBuf := Function.update s.cmdBuf k value }

/-- `cmd_buf[i++] = value`. -/
def pushWord (value : Nat) : Trans α PUnit := do
  let s ← Exec.get
  writeWord s.i value
  Exec.modify fun s => { s with i := s.i + 1 }

def pageTable (s : Translation α) (pid : Nat) : PageTable := (s.processes pid).vmManager.pageTable

def readBlock (pid addr size : Nat) : Trans α (List UInt8) := do
  let s ← Exec.get
  match s.memory.readBlock (pageTable s pid) addr size with
  | some data => pure data
  | none => abort .outOfBounds

def writeBlock (pid addr : Nat) (data : List UInt8) : Trans α PUnit := do
  let s ← Exec.get
  match s.memory.writeBlock (pageTable s pid) addr data with
  | some memory => Exec.modify fun s => { s with memory }
  | none => abort .outOfBounds

def copyBlock (destPid srcPid destAddr srcAddr size : Nat) : Trans α PUnit := do
  let s ← Exec.get
  match s.memory.copyBlock (pageTable s destPid) (pageTable s srcPid) destAddr srcAddr size with
  | some memory => Exec.modify fun s => { s with memory }
  | none => abort .outOfBounds

/-- A new host buffer, filled with zeros. -/
def makeBuffer (size : Nat) : Trans α BackingMem := do
  let s ← Exec.get
  let ptr := s.allocator s.allocations
  Exec.modify fun s => { s with
    allocations := s.allocations + 1
    memory := s.memory.zeroed ptr size }
  pure ⟨ptr, size⟩

/-- The loop over the descriptors of a command: `fetch` reads a descriptor and steps over it.
Every round takes at least one word. -/
def descriptorLoop (commandSize : Nat) (fetch : Trans α Nat) (body : Nat → Trans α PUnit) :
    Nat → Trans α PUnit
  | 0 => fun s => .fault (.endlessLoop, s.touched)
  | fuel + 1 => do
      let s ← Exec.get
      if s.i < commandSize then do
        let descriptor ← fetch
        body descriptor
        descriptorLoop commandSize fetch body fuel
      else pure ⟨⟩

end Steps

/-! ## Rules for the steps -/

section Rules

variable {α β σ : Type} {s : Translation α} {Q : β → Translation α → Prop}
  {E : ResultCode → Translation α → Prop} {F : TransFault × List Nat → Prop}

@[simp] theorem post_abort (f : Fault) :
    (abort f : Trans α β).Post s Q E F ↔ F (.kernel f, s.touched) := Iff.rfl

@[simp] theorem post_assert {Q : PUnit → Translation α → Prop} (c : Prop) [Decidable c] :
    (assert c).Post s Q E F ↔ (c → Q ⟨⟩ s) ∧ (¬ c → F (.kernel .assertFailed, s.touched)) := by
  by_cases hc : c <;> simp [assert, hc]

@[simp] theorem post_within {look : Translation α → σ} {put : Translation α → σ → Translation α}
    {x : Exec Fault ResultCode σ β} :
    (within look put x).Post s Q E F ↔ x.Post (look s) (fun b t => Q b (put s t))
      (fun e t => E e (put s t)) (fun f => F (.kernel f, s.touched)) := by
  unfold Exec.Post within
  cases x (look s) <;> rfl

@[simp] theorem post_unwrap {x : Trans α β} :
    (unwrap x).Post s Q E F ↔
      x.Post s Q (fun _ t => F (.kernel .assertFailed, t.touched)) F := by
  unfold Exec.Post unwrap
  cases x s <;> rfl

@[simp] theorem post_ignore {x : Trans α PUnit} {Q : PUnit → Translation α → Prop} :
    (ignore x).Post s Q E F ↔ x.Post s Q (fun _ t => Q ⟨⟩ t) F := by
  unfold Exec.Post ignore
  cases x s <;> rfl

end Rules

/-! ## The descriptors -/

/-- The arguments of a translation. -/
structure Request (α : Type) where
  src : Nat
  dst : Nat
  srcThread : α
  srcAddress : Nat
  dstAddress : Nat
  reply : Bool

section Descriptors

variable {α : Type}

/-- The object that a handle of the source stands for. Pseudo-handles are those of the thread
that sent the command. -/
def objectOf (r : Request α) (source : Endpoint α) (handle : Nat) : Option α :=
  if handle = currentThreadHandle then some r.srcThread
  else if handle = currentProcessHandle then some source.object
  else if handle ≠ 0 then source.handleTable.getGeneric ⟨none, none⟩ handle
  else none

/-- A handle that has a place in the handle table. -/
def IsPlain (handle : Nat) : Prop :=
  handle ≠ currentThreadHandle ∧ handle ≠ currentProcessHandle ∧ handle ≠ 0

instance (handle : Nat) : Decidable (IsPlain handle) := inferInstanceAs (Decidable (_ ∧ _ ∧ _))

/-- The body of the loop over the handles of a descriptor. -/
def translateHandle (r : Request α) (descriptor : Nat) : Trans α PUnit := do
  let s ← Exec.get
  let handle ← readWord s.i
  let object := objectOf r (s.processes r.src) handle
  Exec.when (IsPlain handle ∧ descriptor = moveHandleDesc) do
    ignore (onTable r.src (HandleTable.close handle))
  match object with
  | none => pushWord 0
  | some object => do
      let created ← unwrap (onTable r.dst (HandleTable.create object))
      pushWord created

/-- The loop over the handles of a descriptor. -/
def translateHandles (r : Request α) (descriptor : Nat) : Nat → Trans α PUnit
  | 0 => pure ⟨⟩
  | n + 1 => do
      translateHandle r descriptor
      translateHandles r descriptor n

def translateHandleDescriptor (r : Request α) (commandSize descriptor : Nat) :
    Trans α PUnit := do
  let s ← Exec.get
  Exec.require .commandTooLarge (s.i + handleNumberFromDesc descriptor ≤ commandSize)
  translateHandles r descriptor (handleNumberFromDesc descriptor)

def translateCallingPid (r : Request α) : Trans α PUnit := do
  let s ← Exec.get
  pushWord (s.processes r.src).processId

/-- The static buffers of the destination lie right after its command buffer. -/
def translateStaticBuffer (r : Request α) (descriptor : Nat) : Trans α PUnit := do
  let s ← Exec.get
  let sourceAddress ← readWord s.i
  let data ← readBlock r.src sourceAddress (staticBufferSize descriptor)
  let offset := commandBufferLength * 4 + 8 * staticBufferId descriptor
  let target ← readBlock r.dst (r.dstAddress + offset) 8
  match wordsOf target with
  | [targetDescriptor, targetAddress] => do
      assert (data.length ≤ staticBufferSize targetDescriptor)
      writeBlock r.dst targetAddress data
      pushWord targetAddress
  | _ => abort .outOfBounds

/-- How many pages a buffer touches. -/
def numPages (sourceAddress size : Nat) : Nat :=
  (sourceAddress % pageSize + size + (pageSize - 1)) / pageSize

/-- A buffer of a reply: its bytes go back, and it is unmapped with its guard pages. -/
def returnBuffer (r : Request α) (descriptor sourceAddress : Nat) : Trans α PUnit := do
  let s ← Exec.get
  let size := mappedBufferSize descriptor
  let permissions := mappedBufferPerms descriptor
  let pageStart := sourceAddress - sourceAddress % pageSize
  let pages := numPages sourceAddress size
  match s.mappedBufferContext.find? fun context =>
      context.permissions = permissions && context.size = size &&
        context.targetAddress = sourceAddress with
  | none => abort .assertFailed
  | some found => do
      Exec.when (permissions ≠ readOnly) do
        copyBlock r.dst r.src found.sourceAddress found.targetAddress size
      let prev ← onVm r.src (do
        let vm ← Exec.get
        VMManager.deref (vm.findVMA (sub32 pageStart pageSize)))
      let next ← onVm r.src (do
        let vm ← Exec.get
        VMManager.deref (vm.findVMA (add32 pageStart (pages * pageSize))))
      assert (prev.meminfoState = .reserved ∧ next.meminfoState = .reserved)
      unwrap (onVm r.src
        (VMManager.unmapRange (sub32 pageStart pageSize) ((pages + 2) * pageSize)))
      Exec.modify fun s => { s with
        mappedBufferContext := s.mappedBufferContext.erase found
        i := s.i + 1 }

/-- A buffer of a request: its bytes are copied into fresh memory, which is mapped between two
guard pages. -/
def sendBuffer (r : Request α) (descriptor sourceAddress : Nat) : Trans α PUnit := do
  let size := mappedBufferSize descriptor
  let pageOffset := sourceAddress % pageSize
  let pages := numPages sourceAddress size
  let buffer ← makeBuffer ((pages + 2) * pageSize)
  let data ← readBlock r.src sourceAddress size
  Exec.modify fun s => { s with
    memory := s.memory.store (buffer.ptr + pageSize + pageOffset) data }
  let target ← unwrap (onVm r.dst (VMManager.mapBackingMemoryToBase ipcMappingVaddr
    ipcMappingSize { backingMem := some buffer, offset := 0 } buffer.size .shared))
  unwrap (onVm r.dst (VMManager.changeMemoryState target pageSize .shared .readWrite .reserved
    .none))
  unwrap (onVm r.dst (VMManager.changeMemoryState (add32 target (buffer.size - pageSize)) pageSize
    .shared .readWrite .reserved .none))
  let targetAddress := add32 (add32 target pageSize) pageOffset
  pushWord targetAddress
  Exec.modify fun s => { s with
    mappedBufferContext := s.mappedBufferContext ++
      [⟨mappedBufferPerms descriptor, size, sourceAddress, targetAddress, buffer⟩] }

def translateMappedBuffer (r : Request α) (descriptor : Nat) : Trans α PUnit := do
  let s ← Exec.get
  let sourceAddress ← readWord s.i
  if mappedBufferSize descriptor = 0 then pushWord 0
  else do
    assert (1 ≤ numPages sourceAddress (mappedBufferSize descriptor))
    if r.reply then returnBuffer r descriptor sourceAddress
    else sendBuffer r descriptor sourceAddress

/-- The `switch` on the type of a descriptor; an unsupported one is only logged. -/
def translateDescriptor (r : Request α) (commandSize descriptor : Nat) : Trans α PUnit :=
  match getDescriptorType descriptor with
  | .copyHandle => translateHandleDescriptor r commandSize descriptor
  | .moveHandle => translateHandleDescriptor r commandSize descriptor
  | .callingPid => translateCallingPid r
  | .staticBuffer => translateStaticBuffer r descriptor
  | .mappedBuffer => translateMappedBuffer r descriptor
  | .pxiBuffer => pure ⟨⟩
  | .unknown => pure ⟨⟩

/-- `descriptor = cmd_buf[i]; i += 1`. -/
def fetchDescriptor : Trans α Nat := do
  let s ← Exec.get
  let descriptor ← readWord s.i
  Exec.modify fun s => { s with i := s.i + 1 }
  pure descriptor

def translateLoop (r : Request α) (commandSize : Nat) : Trans α PUnit :=
  descriptorLoop commandSize fetchDescriptor (translateDescriptor r commandSize)
    (commandBufferLength + 1)

/-- Read the words of a command into `cmd_buf`. -/
def loadWords (words : List Nat) (cmdBuf : Nat → Nat) (k : Nat) : Nat := (words[k]?).getD (cmdBuf k)

def translateCommandBuffer (r : Request α) : Trans α PUnit := do
  let headerBytes ← readBlock r.src r.srcAddress 4
  let header := (wordsOf headerBytes).headD 0
  assert (commandSize header ≤ commandBufferLength)
  let data ← readBlock r.src r.srcAddress (commandSize header * 4)
  Exec.modify fun s => { s with
    cmdBuf := loadWords (wordsOf data) s.cmdBuf
    touched := List.range (commandSize header) ++ s.touched
    i := untranslatedSize header }
  translateLoop r (commandSize header)
  let s ← Exec.get
  Exec.modify fun s => { s with touched := List.range (commandSize header) ++ s.touched }
  writeBlock r.dst r.dstAddress ((List.range (commandSize header)).flatMap fun k =>
    bytesOf (s.cmdBuf k))

end Descriptors

end Ipc

end Cytrus.Kernel
