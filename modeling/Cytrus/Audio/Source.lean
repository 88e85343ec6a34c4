import Mathlib.Tactic
import Cytrus.Audio.Codec
import Cytrus.Core.PhysicalMemory
import Cytrus.Support.BinaryHeap
import Cytrus.Support.Exec

/-!
# Sources of audio

A source takes buffers of the guest from a queue, decodes one at a time and resamples
it into the frames of the mixer. What the guest changes in the configuration of a
source is picked up once for each frame.

## Implementation notes

Reading outside the memory of a pointer, erasing more samples than there are and a
failed assertion are faults. The rate is a floating point number; what the code does
with it is a parameter. Gains and filters, which no buffer depends on, are left out.
-/

namespace Cytrus.Audio.Source

open Codec (Pointer StereoBuffer16 ADPCMState)
open Core.PhysicalMemory (getPhysicalPointer bytesFrom)
open Support

/-- `Format`, with the value that none of the formats has. -/
inductive Format where
  | pcm8
  | pcm16
  | adpcm
  | undefined
  deriving DecidableEq

/-- `MonoOrStereo`, with the values that are neither. -/
inductive MonoOrStereo where
  | mono
  | stereo
  | undefined
  deriving DecidableEq

/-- `InterpolationMode`, with the values that are none of the modes. -/
inductive InterpolationMode where
  | polyphase
  | linear
  | none
  | undefined
  deriving DecidableEq

structure Buffer where
  physicalAddress : UInt32
  length : UInt32
  adpcmPs : UInt8
  adpcmYn : UInt16 × UInt16
  adpcmDirty : Bool
  isLooping : Bool
  bufferId : UInt16
  monoOrStereo : MonoOrStereo
  format : Format
  fromQueue : Bool
  playPosition : UInt32
  hasPlayed : Bool

/-- `BufferOrder`: the buffer with the lowest id comes first. -/
def bufferOrder (b : Buffer) : Nat := b.bufferId.toNat

/-- What the code does with a rate: whether it is accepted, the step and the samples it consumes. -/
structure RateArithmetic (ρ : Type) where
  one : ρ
  nonPositive : ρ → Bool
  positive : ρ → Bool
  stepSize : ρ → UInt64
  consumed : Nat → ρ → UInt32

structure SourceState (ρ : Type) where
  enabled : Bool := false
  syncCount : UInt16 := 0
  inputQueue : Array Buffer := #[]
  monoOrStereo : MonoOrStereo := .mono
  format : Format := .adpcm
  currentSampleNumber : UInt32 := 0
  currentBufferPhysicalAddress : UInt32 := 0
  currentBuffer : StereoBuffer16 := []
  bufferUpdate : Bool := false
  lastBufferId : UInt16 := 0
  currentBufferId : UInt16 := 0
  adpcmCoeffs : Nat → Int16 := fun _ => 0
  adpcmState : ADPCMState := {}
  rateMultiplier : ρ
  interpolationMode : InterpolationMode := .polyphase
  interpState : Interpolate.State := {}

/-- A buffer of the queue in a configuration. -/
structure QueuedBuffer where
  physicalAddress : UInt32 := 0
  length : UInt32 := 0
  adpcmPs : UInt16 := 0
  adpcmYn : UInt16 × UInt16 := (0, 0)
  adpcmDirty : UInt8 := 0
  isLooping : UInt8 := 0
  bufferId : UInt16 := 0

structure Configuration (ρ : Type) where
  dirtyRaw : UInt32 := 0
  rateMultiplier : ρ
  interpolationMode : InterpolationMode := .polyphase
  buffersDirty : UInt16 := 0
  buffers : Nat → QueuedBuffer := fun _ => {}
  enable : UInt8 := 0
  syncCount : UInt16 := 0
  playPosition : UInt32 := 0
  physicalAddress : UInt32 := 0
  length : UInt32 := 0
  monoOrStereo : MonoOrStereo := .mono
  format : Format := .adpcm
  adpcmPs : UInt16 := 0
  adpcmYn : UInt16 × UInt16 := (0, 0)
  adpcmDirty : Bool := false
  isLooping : Bool := false
  bufferId : UInt16 := 0

namespace Configuration

variable {ρ : Type} (c : Configuration ρ)

/-- A bit of `dirty_raw`. -/
def flag (bit : Nat) : Bool := c.dirtyRaw.toNat.testBit bit

def formatDirty : Bool := c.flag 0

def monoOrStereoDirty : Bool := c.flag 1

def adpcmCoefficientsDirty : Bool := c.flag 2

def partialEmbeddedBufferDirty : Bool := c.flag 3

def partialResetFlag : Bool := c.flag 4

def enableDirty : Bool := c.flag 16

def interpolationDirty : Bool := c.flag 17

def rateMultiplierDirty : Bool := c.flag 18

def bufferQueueDirty : Bool := c.flag 19

def playPositionDirty : Bool := c.flag 21

def syncCountDirty : Bool := c.flag 28

def resetFlag : Bool := c.flag 29

def embeddedBufferDirty : Bool := c.flag 30

end Configuration

/-- How a source can go wrong. -/
inductive Fault where
  | outOfBounds
  | eraseBeyondEnd
  | assertion
  deriving DecidableEq

/-- The result of reading, which is a fault outside the memory of the pointer. -/
def read {α : Type} (r : Option α) : Except Fault α := r.elim (.error .outOfBounds) .ok

/-- `erase` of the first samples. -/
def eraseFirst (buffer : StereoBuffer16) (count : UInt32) : Except Fault StereoBuffer16 :=
  if count.toNat ≤ buffer.length then .ok (buffer.drop count.toNat) else .error .eraseBeyondEnd

/-- The physical address that the DMA of the DSP uses. -/
def masked (address : UInt32) : UInt32 := address &&& 0xFFFFFFFC

def numChannels (m : MonoOrStereo) : Nat := if m = .stereo then 2 else 1

section Model

variable {ρ : Type} (rates : RateArithmetic ρ) (memory : Nat → UInt8)

def reset : SourceState ρ := { rateMultiplier := rates.one }

/-- `ParseConfig` down to the play position: the fields that are copied. -/
def applyFields (c : Configuration ρ) (coeffs : Nat → Int16) (s : SourceState ρ) : SourceState ρ :=
  let s := if c.resetFlag then reset rates else s
  let s := if c.partialResetFlag then { s with inputQueue := #[] } else s
  let s := if c.enableDirty then { s with enabled := c.enable != 0 } else s
  let s := if c.syncCountDirty then { s with syncCount := c.syncCount } else s
  let s :=
    if c.rateMultiplierDirty then
      { s with rateMultiplier :=
          if rates.nonPositive c.rateMultiplier then rates.one else c.rateMultiplier }
    else s
  let s := if c.adpcmCoefficientsDirty then { s with adpcmCoeffs := coeffs } else s
  let s := if c.interpolationDirty then { s with interpolationMode := c.interpolationMode } else s
  let s := if c.formatDirty || c.embeddedBufferDirty then { s with format := c.format } else s
  if c.monoOrStereoDirty || c.embeddedBufferDirty then { s with monoOrStereo := c.monoOrStereo } else s

/-- The partial update of the embedded buffer, which is done for `PCM16` only. The erasure is
guarded. -/
def updatePartial (c : Configuration ρ) (s : SourceState ρ) : Except Fault (SourceState ρ) :=
  if c.partialEmbeddedBufferDirty then
    match getPhysicalPointer memory (masked s.currentBufferPhysicalAddress) with
    | none => .ok s
    | some data =>
        if s.format = .pcm16 then do
          let buffer ← read (Codec.decodePCM16 (numChannels s.monoOrStereo) data c.length.toNat)
          if buffer.length < s.currentSampleNumber.toNat then
            return { s with currentBuffer := buffer, currentSampleNumber := 0 }
          else
            let rest ← eraseFirst buffer s.currentSampleNumber
            return { s with currentBuffer := rest }
        else .ok s
  else .ok s

/-- The embedded buffer as it is enqueued. -/
def embeddedBuffer (c : Configuration ρ) (s : SourceState ρ) : Buffer where
  physicalAddress := c.physicalAddress
  length := c.length
  adpcmPs := c.adpcmPs.toUInt8
  adpcmYn := c.adpcmYn
  adpcmDirty := c.adpcmDirty
  isLooping := c.isLooping
  bufferId := c.bufferId
  monoOrStereo := s.monoOrStereo
  format := s.format
  fromQueue := false
  playPosition := if c.playPositionDirty then c.playPosition else 0
  hasPlayed := false

/-- A buffer of the queue as it is enqueued. -/
def queuedBuffer (b : QueuedBuffer) (s : SourceState ρ) : Buffer where
  physicalAddress := b.physicalAddress
  length := b.length
  adpcmPs := b.adpcmPs.toUInt8
  adpcmYn := b.adpcmYn
  adpcmDirty := b.adpcmDirty != 0
  isLooping := b.isLooping != 0
  bufferId := b.bufferId
  monoOrStereo := s.monoOrStereo
  format := s.format
  fromQueue := true
  playPosition := 0
  hasPlayed := false

/-- `emplace`, which is skipped for a length that is negative as a signed number. -/
def enqueue (b : Buffer) (s : SourceState ρ) : SourceState ρ :=
  if b.length.toInt32 < 0 then s
  else { s with inputQueue := BinaryHeap.push bufferOrder s.inputQueue b }

/-- The embedded buffer. -/
def enqueueEmbedded (c : Configuration ρ) (s : SourceState ρ) : SourceState ρ :=
  if c.embeddedBufferDirty then enqueue (embeddedBuffer c s) s else s

/-- A buffer of the queue, if it is dirty. -/
def enqueueQueued (c : Configuration ρ) (s : SourceState ρ) (i : Nat) : SourceState ρ :=
  if c.buffersDirty.toNat.testBit i then enqueue (queuedBuffer (c.buffers i) s) s else s

/-- The buffers of the queue. -/
def enqueueAll (c : Configuration ρ) (s : SourceState ρ) : SourceState ρ :=
  if c.bufferQueueDirty then (List.range 4).foldl (enqueueQueued c) s else s

def parseConfig (c : Configuration ρ) (coeffs : Nat → Int16) (s : SourceState ρ) :
    Except Fault (SourceState ρ) :=
  if c.dirtyRaw = 0 then .ok s
  else do
    let s ← updatePartial memory c (applyFields rates c coeffs s)
    return enqueueAll c (enqueueEmbedded c s)

/-- The samples of a buffer. An undefined format leaves the current ones, of which there are none. -/
def decode (data : Pointer) (buf : Buffer) (s : SourceState ρ) : Except Fault (SourceState ρ) :=
  match buf.format with
  | .pcm8 => do
      let buffer ← read (Codec.decodePCM8 (numChannels buf.monoOrStereo) data buf.length.toNat)
      return { s with currentBuffer := buffer }
  | .pcm16 => do
      let buffer ← read (Codec.decodePCM16 (numChannels buf.monoOrStereo) data buf.length.toNat)
      return { s with currentBuffer := buffer }
  | .adpcm => do
      let r ← read (Codec.decodeADPCM data buf.length.toNat s.adpcmCoeffs s.adpcmState)
      return { s with currentBuffer := r.1, adpcmState := r.2 }
  | .undefined => .ok s

/-- The sample that a buffer begins with. Loops start at the beginning. -/
def Buffer.firstSample (buf : Buffer) : UInt32 := if buf.hasPlayed then 0 else buf.playPosition

/-- The rest of `DequeueBuffer` for a decoded buffer. -/
def startBuffer (buf : Buffer) (s : SourceState ρ) : Except Fault (Bool × SourceState ρ) := do
  let s :=
    { s with
      currentSampleNumber := buf.firstSample
      currentBufferPhysicalAddress := buf.physicalAddress
      currentBufferId := buf.bufferId
      lastBufferId := 0
      bufferUpdate := buf.fromQueue && !buf.hasPlayed
      inputQueue :=
        if buf.isLooping then
          BinaryHeap.push bufferOrder s.inputQueue { buf with hasPlayed := true }
        else s.inputQueue }
  let rest ← eraseFirst s.currentBuffer s.currentSampleNumber
  return (true, { s with currentBuffer := rest })

def dequeueBuffer (s : SourceState ρ) : Except Fault (Bool × SourceState ρ) :=
  if s.currentBuffer.isEmpty then
    match s.inputQueue[0]? with
    | none => .ok (false, s)
    | some buf =>
        let s := { s with inputQueue := BinaryHeap.pop bufferOrder s.inputQueue }
        let s :=
          if buf.adpcmDirty then
            { s with adpcmState := ⟨buf.adpcmYn.1.toInt16, buf.adpcmYn.2.toInt16⟩ }
          else s
        match getPhysicalPointer memory (masked buf.physicalAddress) with
        | none => .ok (true, { s with currentBuffer := [] })
        | some data => decode data buf s >>= startBuffer buf
  else .error .assertion

/-- The blend of a mode, if it is one. -/
def InterpolationMode.blend : InterpolationMode → Option Interpolate.Blend
  | .none => some Interpolate.none
  | .linear => some Interpolate.linear
  | .polyphase => some Interpolate.linear
  | .undefined => Option.none

/-- The `switch` over the modes. A mode that is undefined does nothing. -/
def interpolate (room : Nat) (s : SourceState ρ) : Except Fault (SourceState ρ × List Interpolate.Sample) :=
  match s.interpolationMode.blend with
  | none => .ok (s, [])
  | some fn =>
      if rates.positive s.rateMultiplier then
        let r := Interpolate.stepOverSamples fn (rates.stepSize s.rateMultiplier) room
          ⟨s.interpState, s.currentBuffer⟩
        .ok ({ s with interpState := r.1.interpState, currentBuffer := r.1.currentBuffer }, r.2)
      else .error .assertion

def samplesPerFrame : Nat := 160

/-- The loop of `GenerateFrame`, with the samples it has written. There is no result as long as
it has not ended. -/
def frameLoop : Nat → SourceState ρ → List Interpolate.Sample →
    Option (Except Fault (SourceState ρ × List Interpolate.Sample))
  | 0, _, _ => none
  | fuel + 1, s, frame =>
      if samplesPerFrame ≤ frame.length then some (.ok (s, frame))
      else
        match if s.currentBuffer.isEmpty then dequeueBuffer memory s else .ok (true, s) with
        | .error f => some (.error f)
        | .ok (false, s) => some (.ok (s, frame))
        | .ok (true, s) =>
            match interpolate rates (samplesPerFrame - frame.length) s with
            | .error f => some (.error f)
            | .ok (s, samples) => frameLoop fuel s (frame ++ samples)

def generateFrame (fuel : Nat) (s : SourceState ρ) : Option (Except Fault (SourceState ρ)) :=
  if s.currentBuffer.isEmpty then
    some do
      let r ← dequeueBuffer memory s
      if r.1 then return r.2
      else
        return { r.2 with
          enabled := false
          bufferUpdate := true
          lastBufferId := r.2.currentBufferId
          currentBufferId := 0 }
  else
    (frameLoop rates memory fuel s []).map fun r => r.map fun r =>
      { r.1 with currentSampleNumber :=
          r.1.currentSampleNumber + rates.consumed r.2.length r.1.rateMultiplier }

/-- `Tick`. The status clears `buffer_update`. -/
def tick (fuel : Nat) (c : Configuration ρ) (coeffs : Nat → Int16) (s : SourceState ρ) :
    Option (Except Fault (SourceState ρ)) :=
  match parseConfig rates memory c coeffs s with
  | .error f => some (.error f)
  | .ok s =>
      (if s.enabled then generateFrame rates memory fuel s else some (.ok s)).map fun r =>
        r.map fun s => { s with bufferUpdate := false }

end Model

end Cytrus.Audio.Source
