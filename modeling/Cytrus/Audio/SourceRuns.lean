import Mathlib.Tactic
import Cytrus.Audio.Source

/-!
# Runs of audio sources

What the guest may enqueue so that a source neither leaves its memory nor hangs: the
bytes of each buffer lie in one memory, it begins within its samples, and a looping
buffer has samples. The queue keeps this from one tick to the next.

## Main results

* `tick_memory_safe`: sound configurations never lead to a fault of the memory
* `frameLoop_ends`: nor does the loop over the buffers hang
* `frameLoop_hangs`: a looping buffer without samples is dequeued again and again
-/

namespace Cytrus.Audio.Source

open Core.PhysicalMemory (getPhysicalPointer bytesFrom getPhysicalPointer_eq_none getPhysicalPointer_isSome)
open Support

/-- The bytes that are read of a buffer. -/
def Buffer.byteCount (b : Buffer) : Nat :=
  match b.format with
  | .pcm8 => b.length.toNat * numChannels b.monoOrStereo
  | .pcm16 => b.length.toNat * 2 * numChannels b.monoOrStereo
  | .adpcm => Codec.adpcmBytes b.length.toNat
  | .undefined => 0

/-- The samples that a buffer has. -/
def Buffer.sampleCount (b : Buffer) : Nat :=
  match b.format with
  | .pcm8 => b.length.toNat
  | .pcm16 => b.length.toNat
  | .adpcm => Codec.retSize b.length.toNat
  | .undefined => 0

/-- The bytes from the address of a buffer on, if it has a memory. -/
def Buffer.available (b : Buffer) : Option Nat := bytesFrom (masked b.physicalAddress)

/-- A buffer that is in a memory lies in it as a whole, and begins within its samples. -/
def Buffer.Sound (b : Buffer) : Prop :=
  ∀ count ∈ b.available, b.byteCount ≤ count ∧ b.firstSample.toNat ≤ b.sampleCount

/-- A looping buffer that is in a memory has a sample. -/
def Buffer.Audible (b : Buffer) : Prop := b.isLooping → b.available.isSome → 0 < b.sampleCount

/-- A buffer that is played again. -/
def Buffer.played (b : Buffer) : Buffer := { b with hasPlayed := true }

theorem Buffer.Sound.played {b : Buffer} (h : b.Sound) : b.played.Sound :=
  fun count hcount => ⟨(h count hcount).1, Nat.zero_le _⟩

theorem Buffer.Audible.played {b : Buffer} (h : b.Audible) : b.played.Audible := h

/-- What a run demands of the buffers and of the mode. -/
structure Demand where
  buffer : Buffer → Prop
  mode : InterpolationMode → Prop
  sound : ∀ {b}, buffer b → b.Sound
  played : ∀ {b}, buffer b → buffer b.played
  polyphase : mode .polyphase

/-- That no buffer leaves its memory. -/
def soundness : Demand where
  buffer := Buffer.Sound
  mode := fun _ => True
  sound := fun h => h
  played := Buffer.Sound.played
  polyphase := trivial

/-- That a frame comes to its end as well. -/
def liveness : Demand where
  buffer := fun b => b.Sound ∧ b.Audible
  mode := fun m => m ≠ .undefined
  sound := And.left
  played := fun h => ⟨h.1.played, h.2.played⟩
  polyphase := InterpolationMode.noConfusion

section Runs

variable {ρ : Type} (rates : RateArithmetic ρ) (d : Demand)

/-- What holds of a source in every run that meets a demand. -/
structure Meets (s : SourceState ρ) : Prop where
  queue : ∀ b ∈ s.inputQueue, d.buffer b
  mode : d.mode s.interpolationMode

/-- A configuration meets a demand in a state, given by the fields that are copied first. -/
structure ConfigMeets (c : Configuration ρ) (coeffs : Nat → Int16) (s : SourceState ρ) : Prop where
  embedded : c.embeddedBufferDirty → 0 ≤ c.length.toInt32 →
    d.buffer (embeddedBuffer c (applyFields rates c coeffs s))
  queued : c.bufferQueueDirty → ∀ i < 4, c.buffersDirty.toNat.testBit i →
    0 ≤ (c.buffers i).length.toInt32 →
    d.buffer (queuedBuffer (c.buffers i) (applyFields rates c coeffs s))
  extended : c.partialEmbeddedBufferDirty → (applyFields rates c coeffs s).format = .pcm16 →
    ∀ count ∈ bytesFrom (masked (applyFields rates c coeffs s).currentBufferPhysicalAddress),
      c.length.toNat * 2 * numChannels (applyFields rates c coeffs s).monoOrStereo ≤ count
  mode : c.interpolationDirty → d.mode c.interpolationMode

/-- A configuration is parsed, or a tick is made with it. -/
def Called (memory : Nat → UInt8) (c : Configuration ρ) (coeffs : Nat → Int16) (s t : SourceState ρ) :
    Prop :=
  parseConfig rates memory c coeffs s = .ok t ∨
    ∃ fuel, tick rates memory fuel c coeffs s = some (.ok t)

/-- A step with any configuration. The guest may write anything to its memory in between. -/
def AnyStep (s t : SourceState ρ) : Prop := ∃ memory c coeffs, Called rates memory c coeffs s t

/-- A step with a configuration that meets the demand. -/
def Step (s t : SourceState ρ) : Prop :=
  ∃ memory c coeffs, ConfigMeets rates d c coeffs s ∧ Called rates memory c coeffs s t

/-- A run of a source from its reset. -/
def Runs (s : SourceState ρ) : Prop := Reachable (· = reset rates) (Step rates d) s

end Runs

/-! ### Dequeuing -/

section Dequeue

variable {ρ : Type} {memory : Nat → UInt8} {s : SourceState ρ} {buf : Buffer}

theorem numChannels_cases (m : MonoOrStereo) : numChannels m = 1 ∨ numChannels m = 2 := by
  rw [numChannels]
  split
  · exact Or.inr rfl
  · exact Or.inl rfl

/-- What is left alone by everything that touches the current buffer only. -/
structure SameRest (s t : SourceState ρ) : Prop where
  mode : t.interpolationMode = s.interpolationMode
  rate : t.rateMultiplier = s.rateMultiplier
  interp : t.interpState = s.interpState

theorem decode_of_readable {data : Codec.Pointer} (hempty : s.currentBuffer = [])
    (hdata : Codec.Readable data buf.byteCount) :
    ∃ t, decode data buf s = .ok t ∧ t.currentBuffer.length = buf.sampleCount ∧
      t.inputQueue = s.inputQueue ∧ SameRest s t := by
  rw [Buffer.byteCount] at hdata
  rw [decode, Buffer.sampleCount]
  cases hformat : buf.format with
  | pcm8 =>
      simp only [hformat] at hdata ⊢
      obtain ⟨r, hr, hlength⟩ := Codec.decodePCM8_of_readable (numChannels_cases _) hdata
      rw [hr]
      exact ⟨_, rfl, hlength, rfl, rfl, rfl, rfl⟩
  | pcm16 =>
      simp only [hformat] at hdata ⊢
      obtain ⟨r, hr, hlength⟩ := Codec.decodePCM16_of_readable (numChannels_cases _) hdata
      rw [hr]
      exact ⟨_, rfl, hlength, rfl, rfl, rfl, rfl⟩
  | adpcm =>
      simp only [hformat] at hdata ⊢
      obtain ⟨r, hr, hlength⟩ := Codec.decodeADPCM_of_readable s.adpcmCoeffs s.adpcmState hdata
      rw [hr]
      exact ⟨_, rfl, hlength, rfl, rfl, rfl, rfl⟩
  | undefined => exact ⟨s, rfl, congrArg _ hempty, rfl, rfl, rfl, rfl⟩

/-- The queue after a buffer was taken from it. -/
def queueAfter (buf : Buffer) (queue : Array Buffer) : Array Buffer :=
  if buf.isLooping then BinaryHeap.push bufferOrder queue buf.played else queue

/-- What dequeuing leaves. -/
structure Dequeued (buf : Buffer) (s t : SourceState ρ) : Prop where
  rest : SameRest s t
  outcome : buf.available = none ∧ t.currentBuffer = [] ∧
      t.inputQueue = BinaryHeap.pop bufferOrder s.inputQueue ∨
    buf.available.isSome ∧ t.currentBuffer.length = buf.sampleCount - buf.firstSample.toNat ∧
      t.inputQueue = queueAfter buf (BinaryHeap.pop bufferOrder s.inputQueue)

theorem dequeueBuffer_of_sound (hempty : s.currentBuffer = []) (htop : s.inputQueue[0]? = some buf)
    (hsound : buf.Sound) : ∃ t, dequeueBuffer memory s = .ok (true, t) ∧ Dequeued buf s t := by
  rw [dequeueBuffer, if_pos (List.isEmpty_iff.mpr hempty), htop]
  simp only
  have hkept {popped : SourceState ρ} (hpopped : popped =
      { s with inputQueue := BinaryHeap.pop bufferOrder s.inputQueue }) :
      let t := if buf.adpcmDirty then
          { popped with adpcmState := ⟨buf.adpcmYn.1.toInt16, buf.adpcmYn.2.toInt16⟩ } else popped
      t.currentBuffer = [] ∧ t.inputQueue = BinaryHeap.pop bufferOrder s.inputQueue ∧ SameRest s t := by
    subst hpopped
    simp only
    split <;> exact ⟨hempty, rfl, rfl, rfl, rfl⟩
  obtain ⟨hcurrent, hqueue, hrest⟩ := hkept rfl
  simp only at hcurrent hqueue hrest
  split
  · rename_i hnone
    exact ⟨_, rfl, ⟨hrest.mode, hrest.rate, hrest.interp⟩,
      Or.inl ⟨getPhysicalPointer_eq_none.mp hnone, rfl, hqueue⟩⟩
  · rename_i data hdata
    obtain ⟨count, hcount, hreads⟩ := getPhysicalPointer_isSome hdata
    obtain ⟨hbytes, hfirst⟩ := hsound count hcount
    obtain ⟨t, ht, hlength, htqueue, htrest⟩ := decode_of_readable hcurrent fun i hi =>
      (hreads i).mpr (Nat.lt_of_lt_of_le hi hbytes)
    rw [ht]
    change ∃ t', startBuffer buf t = _ ∧ _
    have herase : eraseFirst t.currentBuffer buf.firstSample =
        .ok (t.currentBuffer.drop buf.firstSample.toNat) := by
      rw [eraseFirst, if_pos (hlength.symm ▸ hfirst)]
    simp only [startBuffer, herase]
    refine ⟨_, rfl, ⟨htrest.mode.trans hrest.mode, htrest.rate.trans hrest.rate,
      htrest.interp.trans hrest.interp⟩, Or.inr ⟨?_, ?_, ?_⟩⟩
    · exact Option.isSome_iff_exists.mpr ⟨count, hcount⟩
    · rw [List.length_drop, hlength]
    · rw [htqueue, hqueue]
      rfl

theorem dequeueBuffer_nil (hempty : s.currentBuffer = []) (htop : s.inputQueue[0]? = none) :
    dequeueBuffer memory s = .ok (false, s) := by
  rw [dequeueBuffer, if_pos (List.isEmpty_iff.mpr hempty), htop]

theorem mem_push {a : Array Buffer} {x b : Buffer} (h : b ∈ BinaryHeap.push bufferOrder a x) :
    b ∈ a ∨ b = x := by
  have hmem := (BinaryHeap.push_perm a x).mem_iff.mp (Array.mem_toList_iff.mpr h)
  rcases List.mem_append.mp hmem with hmem | hmem
  · exact Or.inl (Array.mem_toList_iff.mp hmem)
  · exact Or.inr (List.mem_singleton.mp hmem)

theorem mem_of_mem_pop {a : Array Buffer} {x b : Buffer} (htop : a[0]? = some x)
    (h : b ∈ BinaryHeap.pop bufferOrder a) : b ∈ a := by
  have hperm : a.toList.Perm (x :: (BinaryHeap.pop bufferOrder a).toList) := BinaryHeap.pop_perm htop
  have hmem := hperm.mem_iff.mpr (List.mem_cons_of_mem x (Array.mem_toList_iff.mpr h))
  exact Array.mem_toList_iff.mp hmem

theorem top_mem {a : Array Buffer} {x : Buffer} (htop : a[0]? = some x) : x ∈ a :=
  Array.mem_of_getElem? htop

theorem Dequeued.meets {d : Demand} {t : SourceState ρ} (h : Dequeued buf s t)
    (htop : s.inputQueue[0]? = some buf) (hs : Meets d s) : Meets d t where
  mode := h.rest.mode ▸ hs.mode
  queue := by
    have hpop : ∀ b ∈ BinaryHeap.pop bufferOrder s.inputQueue, d.buffer b :=
      fun b hb => hs.queue b (mem_of_mem_pop htop hb)
    rcases h.outcome with ⟨-, -, hqueue⟩ | ⟨-, -, hqueue⟩
    · rwa [hqueue]
    · rw [hqueue, queueAfter]
      split
      · intro b hb
        rcases mem_push hb with hb | rfl
        · exact hpop b hb
        · exact d.played (hs.queue buf (top_mem htop))
      · exact hpop

theorem dequeueBuffer_meets (memory : Nat → UInt8) {d : Demand} (hempty : s.currentBuffer = []) (hs : Meets d s) :
    dequeueBuffer memory s = .ok (false, s) ∧ s.inputQueue[0]? = none ∨
      ∃ buf t, dequeueBuffer memory s = .ok (true, t) ∧ s.inputQueue[0]? = some buf ∧
        Dequeued buf s t ∧ Meets d t := by
  cases htop : s.inputQueue[0]? with
  | none => exact Or.inl ⟨dequeueBuffer_nil hempty htop, rfl⟩
  | some buf =>
      obtain ⟨t, ht, hdequeued⟩ := dequeueBuffer_of_sound hempty htop
        (d.sound (hs.queue buf (top_mem htop)))
      exact Or.inr ⟨buf, t, ht, rfl, hdequeued, hdequeued.meets htop hs⟩

end Dequeue

/-! ### The loop of a frame -/

section Interpolation

open Interpolate (stepOverSamples stepLoop Blend)

variable {ρ : Type} {rates : RateArithmetic ρ} {s : SourceState ρ}

theorem stepOverSamples_quiet {fn : Blend} {step : UInt64} {room : Nat} {src : Interpolate.Source}
    (hroom : 0 < room) (hquiet : (stepOverSamples fn step room src).2 = []) :
    (stepOverSamples fn step room src).1.interpState.fposition.toNat / 2 ^ 24 +
      src.currentBuffer.length = src.interpState.fposition.toNat / 2 ^ 24 := by
  obtain ⟨room, rfl⟩ := Nat.exists_eq_succ_of_ne_zero hroom.ne'
  rw [stepOverSamples] at hquiet ⊢
  split_ifs at hquiet ⊢ with hempty
  · rw [List.isEmpty_iff.mp hempty, List.length_nil, Nat.add_zero]
  · simp only [stepLoop] at hquiet ⊢
    split_ifs at hquiet ⊢ with hend
    simp only [List.length_cons] at hend ⊢
    have hlt := src.interpState.fposition.toNat_lt
    rw [Interpolate.toNat_index] at hend
    have hscale : Interpolate.scaleFactor.toNat = 2 ^ 24 := rfl
    have hmul : (UInt64.ofNat (src.currentBuffer.length + 1 + 1 - 2) *
        Interpolate.scaleFactor).toNat = src.currentBuffer.length * 2 ^ 24 := by
      rw [UInt64.toNat_mul, hscale, UInt64.toNat_ofNat', Nat.mod_eq_of_lt, Nat.mod_eq_of_lt]
      all_goals omega
    rw [UInt64.toNat_sub_of_le _ _ (UInt64.le_iff_toNat_le.mpr (by rw [hmul]; omega)), hmul]
    omega

theorem interpolate_ok (hmode : s.interpolationMode ≠ .undefined)
    (hrate : rates.positive s.rateMultiplier) {room : Nat} (hroom : 0 < room) :
    ∃ t samples, interpolate rates room s = .ok (t, samples) ∧ t.inputQueue = s.inputQueue ∧
      t.interpolationMode = s.interpolationMode ∧ t.rateMultiplier = s.rateMultiplier ∧
      (samples.length < room → t.currentBuffer = []) ∧
      (samples = [] → t.interpState.fposition.toNat / 2 ^ 24 + s.currentBuffer.length =
        s.interpState.fposition.toNat / 2 ^ 24) := by
  have hblend : ∃ fn, s.interpolationMode.blend = some fn := by
    cases hs : s.interpolationMode with
    | undefined => exact absurd hs hmode
    | polyphase => exact ⟨_, rfl⟩
    | linear => exact ⟨_, rfl⟩
    | none => exact ⟨_, rfl⟩
  obtain ⟨fn, hfn⟩ := hblend
  simp only [interpolate, hfn, if_pos hrate]
  refine ⟨_, _, rfl, rfl, rfl, rfl, fun hlt => ?_, fun hquiet => ?_⟩
  · exact (Interpolate.stepOverSamples_room _ _ _ _).2 hlt
  · exact stepOverSamples_quiet hroom hquiet

theorem interpolate_meets (rates : RateArithmetic ρ) (room : Nat) {d : Demand} (hs : Meets d s) :
    interpolate rates room s = .error .assertion ∨
      ∃ t samples, interpolate rates room s = .ok (t, samples) ∧ Meets d t := by
  rw [interpolate]
  split
  · exact Or.inr ⟨s, [], rfl, hs⟩
  · split
    · exact Or.inr ⟨_, _, rfl, hs.queue, hs.mode⟩
    · exact Or.inl rfl

end Interpolation

section Loop

variable {ρ : Type} {rates : RateArithmetic ρ} {memory : Nat → UInt8}

/-- What a result of a tick may be: a state that meets the demand, or a failed assertion. -/
def Settled (d : Demand) {α : Type} (state : α → SourceState ρ) : Except Fault α → Prop
  | .ok r => Meets d (state r)
  | .error f => f = .assertion

/-- By induction on the iterations. -/
theorem frameLoop_settled {d : Demand} (fuel : Nat) : ∀ (s : SourceState ρ)
    (frame : List Interpolate.Sample) (r : Except Fault (SourceState ρ × List Interpolate.Sample)),
      Meets d s → frameLoop rates memory fuel s frame = some r → Settled d Prod.fst r := by
  induction fuel with
  | zero =>
      intro s frame r _ h
      cases h
  | succ fuel ih =>
      intro s frame r hs h
      rw [frameLoop] at h
      split_ifs at h with hfull hempty
      · obtain rfl := Option.some.inj h
        exact hs
      · -- The next buffer comes from the queue.
        rcases dequeueBuffer_meets memory (List.isEmpty_iff.mp hempty) hs with
          ⟨hnil, -⟩ | ⟨buf, t, ht, -, -, hmeets⟩
        · rw [hnil] at h
          obtain rfl := Option.some.inj h
          exact hs
        · rw [ht] at h
          simp only at h
          rcases interpolate_meets rates (samplesPerFrame - frame.length) hmeets with
            hassert | ⟨u, samples, hu, hmeets'⟩
          · rw [hassert] at h
            obtain rfl := Option.some.inj h
            exact rfl
          · rw [hu] at h
            exact ih u _ r hmeets' h
      · simp only at h
        rcases interpolate_meets rates (samplesPerFrame - frame.length) hs with
          hassert | ⟨u, samples, hu, hmeets'⟩
        · rw [hassert] at h
          obtain rfl := Option.some.inj h
          exact rfl
        · rw [hu] at h
          exact ih u _ r hmeets' h

/-- How often a buffer can be dequeued without a sample. -/
def Buffer.weight (b : Buffer) : Nat := if b.hasPlayed then 1 else 2

/-- What an iteration without output makes smaller. -/
def pending (s : SourceState ρ) : Nat :=
  (s.inputQueue.toList.map Buffer.weight).sum + s.interpState.fposition.toNat / 2 ^ 24

theorem weight_pos (b : Buffer) : 0 < b.weight := by
  rw [Buffer.weight]
  split <;> decide

theorem sum_weight_pop {a : Array Buffer} {x : Buffer} (htop : a[0]? = some x) :
    (a.toList.map Buffer.weight).sum =
      x.weight + ((BinaryHeap.pop bufferOrder a).toList.map Buffer.weight).sum := by
  have hperm : a.toList.Perm (x :: (BinaryHeap.pop bufferOrder a).toList) := BinaryHeap.pop_perm htop
  rw [(hperm.map Buffer.weight).sum_eq, List.map_cons, List.sum_cons]

theorem sum_weight_push (a : Array Buffer) (x : Buffer) :
    ((BinaryHeap.push bufferOrder a x).toList.map Buffer.weight).sum =
      (a.toList.map Buffer.weight).sum + x.weight := by
  rw [((BinaryHeap.push_perm a x).map Buffer.weight).sum_eq, List.map_append, List.sum_append,
    List.map_singleton, List.sum_singleton]

theorem Dequeued.weight {buf : Buffer} {s t : SourceState ρ} (h : Dequeued buf s t)
    (htop : s.inputQueue[0]? = some buf) (haudible : buf.Audible) :
    (t.inputQueue.toList.map Buffer.weight).sum < (s.inputQueue.toList.map Buffer.weight).sum ∨
      (t.inputQueue.toList.map Buffer.weight).sum = (s.inputQueue.toList.map Buffer.weight).sum ∧
        0 < t.currentBuffer.length := by
  have hpop := sum_weight_pop htop
  have hpos := weight_pos buf
  rcases h.outcome with ⟨-, -, hqueue⟩ | ⟨havailable, hlength, hqueue⟩
  · left
    rw [hqueue]
    omega
  · rw [hqueue, queueAfter]
    split
    · rename_i hlooping
      have hpush := sum_weight_push (BinaryHeap.pop bufferOrder s.inputQueue) buf.played
      have hplayed : buf.played.weight = 1 := rfl
      cases hhas : buf.hasPlayed with
      | true =>
          have hweight : buf.weight = 1 := by rw [Buffer.weight, if_pos hhas]
          have hfirst : buf.firstSample = 0 := by rw [Buffer.firstSample, if_pos hhas]
          have hsamples := haudible hlooping havailable
          right
          rw [hlength, hfirst]
          exact ⟨by omega, hsamples⟩
      | false =>
          have hweight : buf.weight = 2 := by
            rw [Buffer.weight, hhas]
            rfl
          left
          omega
    · left
      omega

end Loop

section Termination

variable {ρ : Type} {rates : RateArithmetic ρ} {memory : Nat → UInt8} {s : SourceState ρ}

/-- The loop ends in a state that meets the demand. -/
def Ends (rates : RateArithmetic ρ) (memory : Nat → UInt8) (s : SourceState ρ)
    (frame : List Interpolate.Sample) : Prop :=
  ∃ fuel t out, frameLoop rates memory fuel s frame = some (.ok (t, out))

theorem interpolate_progress (hs : Meets liveness s) (hrate : rates.positive s.rateMultiplier)
    {room : Nat} (hroom : 0 < room) :
    ∃ t samples, interpolate rates room s = .ok (t, samples) ∧ Meets liveness t ∧
      rates.positive t.rateMultiplier ∧
      (samples = [] → pending t + s.currentBuffer.length = pending s) := by
  obtain ⟨t, samples, ht, hqueue, hmode, hrate', -, hquiet⟩ := interpolate_ok hs.mode hrate hroom
  refine ⟨t, samples, ht, ⟨hqueue ▸ hs.queue, hmode ▸ hs.mode⟩, hrate' ▸ hrate, fun hnil => ?_⟩
  rw [pending, pending, hqueue, Nat.add_assoc, hquiet hnil]

/-- By induction on the room that is left, and on what is pending while nothing is written. -/
theorem ends_of_meets (room : Nat) : ∀ (count : Nat) (s : SourceState ρ)
    (frame : List Interpolate.Sample), samplesPerFrame - frame.length = room → pending s = count →
      Meets liveness s → rates.positive s.rateMultiplier → Ends rates memory s frame := by
  induction room using Nat.strong_induction_on with
  | _ room ihroom =>
    intro count
    induction count using Nat.strong_induction_on with
    | _ count ihcount =>
      intro s frame hroom hcount hs hrate
      by_cases hfull : samplesPerFrame ≤ frame.length
      · exact ⟨1, s, frame, by rw [frameLoop, if_pos hfull]⟩
      · have hpos : 0 < samplesPerFrame - frame.length := Nat.sub_pos_of_lt (Nat.lt_of_not_le hfull)
        -- An iteration once the data is there, in terms of what the loop began with.
        have hnext (u : SourceState ρ) (hu : Meets liveness u) (hurate : rates.positive u.rateMultiplier)
            (hless : pending u < count ∨ pending u = count ∧ 0 < u.currentBuffer.length)
            (hdata : (if s.currentBuffer.isEmpty then dequeueBuffer memory s else .ok (true, s)) =
              .ok (true, u)) : Ends rates memory s frame := by
          obtain ⟨t, samples, ht, hmeets, htrate, hquiet⟩ := interpolate_progress hu hurate hpos
          have hrest : Ends rates memory t (frame ++ samples) := by
            cases samples with
            | nil =>
                have hpending := hquiet rfl
                exact ihcount (pending t) (by omega) t _ (by rwa [List.append_nil]) rfl hmeets htrate
            | cons sample samples =>
                refine ihroom _ ?_ _ t _ rfl rfl hmeets htrate
                rw [List.length_append, List.length_cons]
                omega
          obtain ⟨fuel, v, out, hv⟩ := hrest
          refine ⟨fuel + 1, v, out, ?_⟩
          rw [frameLoop, if_neg hfull, hdata]
          simp only [ht]
          exact hv
        by_cases hempty : s.currentBuffer = []
        · rcases dequeueBuffer_meets memory hempty hs with
            ⟨hnil, -⟩ | ⟨buf, t, ht, htop, hdequeued, hmeets⟩
          · refine ⟨1, s, frame, ?_⟩
            rw [frameLoop, if_neg hfull, if_pos (List.isEmpty_iff.mpr hempty), hnil]
          · have hweight := hdequeued.weight htop (hs.queue buf (top_mem htop)).2
            refine hnext t hmeets (hdequeued.rest.rate ▸ hrate) ?_ (by
              rw [if_pos (List.isEmpty_iff.mpr hempty), ht])
            rw [← hcount, pending, pending, hdequeued.rest.interp]
            omega
        · refine hnext s hs hrate (Or.inr ⟨hcount, List.length_pos_iff.mpr hempty⟩) ?_
          rw [if_neg (mt List.isEmpty_iff.mp hempty)]

end Termination

/-! ### Configurations -/

section Parsing

variable {ρ : Type} {rates : RateArithmetic ρ} {memory : Nat → UInt8} {d : Demand}
  {c : Configuration ρ} {coeffs : Nat → Int16} {s : SourceState ρ}

theorem applyFields_queue : (applyFields rates c coeffs s).inputQueue =
    if c.partialResetFlag then #[] else if c.resetFlag then #[] else s.inputQueue := by
  simp only [applyFields, apply_ite SourceState.inputQueue, ite_self, reset]

theorem applyFields_mode : (applyFields rates c coeffs s).interpolationMode =
    if c.interpolationDirty then c.interpolationMode
    else if c.resetFlag then .polyphase else s.interpolationMode := by
  simp only [applyFields, apply_ite SourceState.interpolationMode, ite_self, reset]

theorem applyFields_meets (hs : Meets d s) (hmode : c.interpolationDirty → d.mode c.interpolationMode) :
    Meets d (applyFields rates c coeffs s) where
  queue := by
    rw [applyFields_queue]
    split_ifs
    · exact fun b hb => absurd hb (Array.not_mem_empty b)
    · exact fun b hb => absurd hb (Array.not_mem_empty b)
    · exact hs.queue
  mode := by
    rw [applyFields_mode]
    split_ifs with hdirty
    · exact hmode hdirty
    · exact d.polyphase
    · exact hs.mode

/-- What the fields of a buffer are taken from. -/
structure SameFormat (s t : SourceState ρ) : Prop where
  channels : t.monoOrStereo = s.monoOrStereo
  format : t.format = s.format

theorem embeddedBuffer_congr {t : SourceState ρ} (h : SameFormat s t) :
    embeddedBuffer c t = embeddedBuffer c s := by
  rw [embeddedBuffer, h.channels, h.format, embeddedBuffer]

theorem queuedBuffer_congr {t : SourceState ρ} (h : SameFormat s t) (b : QueuedBuffer) :
    queuedBuffer b t = queuedBuffer b s := by
  rw [queuedBuffer, h.channels, h.format, queuedBuffer]

/-- A partial update whose bytes can be read has no fault, since its erasure is guarded. -/
theorem updatePartial_meets (memory : Nat → UInt8) (hs : Meets d s)
    (hbytes : c.partialEmbeddedBufferDirty → s.format = .pcm16 →
      ∀ count ∈ bytesFrom (masked s.currentBufferPhysicalAddress),
        c.length.toNat * 2 * numChannels s.monoOrStereo ≤ count) :
    ∃ t, updatePartial memory c s = .ok t ∧ Meets d t ∧ SameFormat s t := by
  rw [updatePartial]
  split
  · rename_i hdirty
    split
    · exact ⟨s, rfl, hs, rfl, rfl⟩
    · rename_i data hdata
      obtain ⟨count, hcount, hreads⟩ := getPhysicalPointer_isSome hdata
      split
      · rename_i hformat
        have hle := hbytes hdirty hformat count hcount
        obtain ⟨buffer, hbuffer, -⟩ := Codec.decodePCM16_of_readable (numChannels_cases s.monoOrStereo)
          fun i hi => (hreads i).mpr (Nat.lt_of_lt_of_le hi hle)
        rw [hbuffer]
        change ∃ t, (if buffer.length < s.currentSampleNumber.toNat then _ else _) = _ ∧ _
        split_ifs with hshort
        · exact ⟨_, rfl, ⟨hs.queue, hs.mode⟩, rfl, rfl⟩
        · rw [eraseFirst, if_pos (Nat.le_of_not_lt hshort)]
          exact ⟨_, rfl, ⟨hs.queue, hs.mode⟩, rfl, rfl⟩
      · exact ⟨s, rfl, hs, rfl, rfl⟩
  · exact ⟨s, rfl, hs, rfl, rfl⟩

/-- A buffer that meets the demand is enqueued, unless its length is negative. -/
theorem enqueue_meets {b : Buffer} (hs : Meets d s) (hb : 0 ≤ b.length.toInt32 → d.buffer b) :
    Meets d (enqueue b s) := by
  rw [enqueue]
  split_ifs with hnegative
  · exact hs
  · refine ⟨fun b' hb' => ?_, hs.mode⟩
    rcases mem_push hb' with hb' | rfl
    · exact hs.queue b' hb'
    · exact hb (Int32.not_lt.mp hnegative)

theorem enqueue_sameFormat (b : Buffer) (s : SourceState ρ) : SameFormat s (enqueue b s) := by
  rw [enqueue]
  split_ifs <;> exact ⟨rfl, rfl⟩

theorem SameFormat.trans {t u : SourceState ρ} (h : SameFormat s t) (h' : SameFormat t u) :
    SameFormat s u := ⟨h'.channels.trans h.channels, h'.format.trans h.format⟩

theorem enqueueEmbedded_meets (hs : Meets d s)
    (hb : c.embeddedBufferDirty → 0 ≤ c.length.toInt32 → d.buffer (embeddedBuffer c s)) :
    Meets d (enqueueEmbedded c s) ∧ SameFormat s (enqueueEmbedded c s) := by
  rw [enqueueEmbedded]
  split_ifs with hdirty
  · exact ⟨enqueue_meets hs (hb hdirty), enqueue_sameFormat _ s⟩
  · exact ⟨hs, rfl, rfl⟩

/-- By induction on the buffers of the queue. -/
theorem foldl_enqueueQueued_meets (l : List Nat) : ∀ s : SourceState ρ, Meets d s →
    (∀ i ∈ l, c.buffersDirty.toNat.testBit i → 0 ≤ (c.buffers i).length.toInt32 →
      d.buffer (queuedBuffer (c.buffers i) s)) → Meets d (l.foldl (enqueueQueued c) s) := by
  induction l with
  | nil => exact fun s hs _ => hs
  | cons i l ih =>
      intro s hs hb
      rw [List.foldl_cons]
      have hformat : SameFormat s (enqueueQueued c s i) := by
        rw [enqueueQueued]
        split_ifs
        · exact enqueue_sameFormat _ s
        · exact ⟨rfl, rfl⟩
      refine ih _ ?_ fun j hj hdirty hlength => ?_
      · rw [enqueueQueued]
        split_ifs with hdirty
        · exact enqueue_meets hs (hb i List.mem_cons_self hdirty)
        · exact hs
      · rw [queuedBuffer_congr hformat]
        exact hb j (List.mem_cons_of_mem i hj) hdirty hlength

theorem parseConfig_meets (memory : Nat → UInt8) (hs : Meets d s) (hc : ConfigMeets rates d c coeffs s) :
    ∃ t, parseConfig rates memory c coeffs s = .ok t ∧ Meets d t := by
  rw [parseConfig]
  split_ifs
  · exact ⟨s, rfl, hs⟩
  · obtain ⟨t, ht, htmeets, hformat⟩ := updatePartial_meets memory
      (applyFields_meets hs hc.mode) hc.extended
    obtain ⟨hemeets, heformat⟩ := enqueueEmbedded_meets htmeets fun hdirty hlength => by
      rw [embeddedBuffer_congr hformat]
      exact hc.embedded hdirty hlength
    rw [ht]
    refine ⟨_, rfl, ?_⟩
    rw [enqueueAll]
    split_ifs with hdirty
    · refine foldl_enqueueQueued_meets _ _ hemeets fun i hi hbit hlength => ?_
      rw [queuedBuffer_congr (hformat.trans heformat)]
      exact hc.queued hdirty i (List.mem_range.mp hi) hbit hlength
    · exact hemeets

theorem generateFrame_settled {fuel : Nat} {r : Except Fault (SourceState ρ)} (hs : Meets d s)
    (h : generateFrame rates memory fuel s = some r) : Settled d id r := by
  rw [generateFrame] at h
  split_ifs at h with hempty
  · obtain rfl := Option.some.inj h
    rcases dequeueBuffer_meets memory (List.isEmpty_iff.mp hempty) hs with
      ⟨hnil, -⟩ | ⟨buf, t, ht, -, -, hmeets⟩
    · rw [hnil]
      exact ⟨hs.queue, hs.mode⟩
    · rw [ht]
      exact hmeets
  · obtain ⟨result, hresult, rfl⟩ := Option.map_eq_some_iff.mp h
    have hsettled := frameLoop_settled fuel s [] result hs hresult
    cases result with
    | error f => exact hsettled
    | ok r => exact ⟨hsettled.queue, hsettled.mode⟩

theorem tick_settled {fuel : Nat} {r : Except Fault (SourceState ρ)} (hs : Meets d s)
    (hc : ConfigMeets rates d c coeffs s) (h : tick rates memory fuel c coeffs s = some r) :
    Settled d id r := by
  obtain ⟨t, ht, hmeets⟩ := parseConfig_meets memory hs hc
  rw [tick, ht] at h
  simp only at h
  obtain ⟨result, hresult, rfl⟩ := Option.map_eq_some_iff.mp h
  have hsettled : Settled d id result := by
    split_ifs at hresult
    · exact generateFrame_settled hmeets hresult
    · obtain rfl := Option.some.inj hresult
      exact hmeets
  cases result with
  | error f => exact hsettled
  | ok u => exact ⟨hsettled.queue, hsettled.mode⟩

theorem runs_meets (h : Runs rates d s) : Meets d s := by
  refine Reachable.invariant ?_ ?_ h
  · rintro s rfl
    exact ⟨fun b hb => absurd hb (Array.not_mem_empty b), d.polyphase⟩
  · rintro s t hs ⟨memory, c, coeffs, hc, hparse | ⟨fuel, htick⟩⟩
    · obtain ⟨u, hu, hmeets⟩ := parseConfig_meets memory hs hc
      rw [hu] at hparse
      obtain rfl := Except.ok.inj hparse
      exact hmeets
    · exact tick_settled hs hc htick

end Parsing

/-! ### Safety and termination -/

section Results

variable {ρ : Type} {rates : RateArithmetic ρ} {memory : Nat → UInt8} {s : SourceState ρ}

/-- As long as each buffer lies in its memory and begins within its samples, neither an erasure
nor a decoder leaves what it works on. -/
theorem tick_memory_safe (rates : RateArithmetic ρ) (memory : Nat → UInt8) (fuel : Nat)
    (c : Configuration ρ) (coeffs : Nat → Int16) (s : SourceState ρ) (hs : Runs rates soundness s)
    (hc : ConfigMeets rates soundness c coeffs s) :
    tick rates memory fuel c coeffs s ≠ some (.error .outOfBounds) ∧
      tick rates memory fuel c coeffs s ≠ some (.error .eraseBeyondEnd) := by
  have hsettled {r : Except Fault (SourceState ρ)} (h : tick rates memory fuel c coeffs s = some r) :=
    tick_settled (runs_meets hs) hc h
  exact ⟨fun h => Fault.noConfusion (hsettled h), fun h => Fault.noConfusion (hsettled h)⟩

def integerRates : RateArithmetic Nat where
  one := 1
  nonPositive := fun r => r == 0
  positive := fun r => 0 < r
  stepSize := fun r => UInt64.ofNat r * Interpolate.scaleFactor
  consumed := fun n r => UInt32.ofNat (n * r)

/-- An embedded buffer of a source that is enabled. -/
def embeddedConfig (address length position : UInt32) : Configuration Nat where
  dirtyRaw := 0x40210000
  rateMultiplier := 1
  enable := 1
  playPosition := position
  physicalAddress := address
  length := length
  format := .pcm16
  bufferId := 1

theorem embeddedConfig_meets (d : Demand) (hd : d = soundness ∨ d = liveness) :
    ConfigMeets integerRates d (embeddedConfig 0x20000000 1 1) (fun _ => 0) (reset integerRates) where
  embedded := fun _ _ => by
    have hsound : Buffer.Sound (embeddedBuffer (embeddedConfig 0x20000000 1 1)
        (applyFields integerRates (embeddedConfig 0x20000000 1 1) (fun _ => 0) (reset integerRates))) := by
      rw [Buffer.Sound]
      decide
    rcases hd with rfl | rfl
    · exact hsound
    · exact ⟨hsound, fun hlooping => absurd hlooping (by decide)⟩
  queued := fun hdirty => absurd hdirty (by decide)
  extended := fun hdirty => absurd hdirty (by decide)
  mode := fun hdirty => absurd hdirty (by decide)

theorem tick_memory_safe_embedded :
    tick integerRates (fun _ => 0) 0 (embeddedConfig 0x20000000 1 1) (fun _ => 0) (reset integerRates) ≠
        some (.error .outOfBounds) ∧
      tick integerRates (fun _ => 0) 0 (embeddedConfig 0x20000000 1 1) (fun _ => 0)
        (reset integerRates) ≠ some (.error .eraseBeyondEnd) :=
  tick_memory_safe integerRates _ 0 _ _ _ (.start rfl) (embeddedConfig_meets soundness (Or.inl rfl))

/-- A position behind the only sample, and an address that is the end of the FCRAM. -/
theorem tick_memory_unsafe :
    tick integerRates (fun _ => 0) 0 (embeddedConfig 0x20000000 1 2) (fun _ => 0) (reset integerRates) =
        some (.error .eraseBeyondEnd) ∧
      tick integerRates (fun _ => 0) 0 (embeddedConfig 0x30000000 1 0) (fun _ => 0)
        (reset integerRates) = some (.error .outOfBounds) :=
  ⟨rfl, rfl⟩

/-- As long as each looping buffer has a sample as well and the mode is defined, the loop over
the buffers ends. -/
theorem frameLoop_ends (rates : RateArithmetic ρ) (memory : Nat → UInt8) (s : SourceState ρ)
    (hs : Runs rates liveness s) (hrate : rates.positive s.rateMultiplier) :
    ∃ fuel t out, frameLoop rates memory fuel s [] = some (.ok (t, out)) :=
  ends_of_meets _ _ s [] rfl rfl (runs_meets hs) hrate

/-- The source after it was given a buffer of one sample. -/
def embeddedState : SourceState Nat :=
  enqueueAll (embeddedConfig 0x20000000 1 1) (enqueueEmbedded (embeddedConfig 0x20000000 1 1)
    (applyFields integerRates (embeddedConfig 0x20000000 1 1) (fun _ => 0) (reset integerRates)))

theorem frameLoop_ends_embedded : ∃ fuel t out,
    frameLoop integerRates (fun _ => 0) fuel embeddedState [] = some (.ok (t, out)) :=
  frameLoop_ends integerRates _ embeddedState
    (.step (.start rfl) ⟨fun _ => 0, _, _, embeddedConfig_meets liveness (Or.inr rfl), Or.inl rfl⟩) rfl

/-- A looping buffer without samples. -/
def silent : Demand where
  buffer := fun b => b.Sound ∧ b.isLooping ∧ b.available.isSome ∧ b.sampleCount = 0
  mode := fun _ => True
  sound := And.left
  played := fun h => ⟨h.1.played, h.2⟩
  polyphase := trivial

theorem interpolate_nil (hempty : s.currentBuffer = []) (hrate : rates.positive s.rateMultiplier)
    (room : Nat) : interpolate rates room s = .ok (s, []) := by
  rw [interpolate]
  split
  · rfl
  · rw [if_pos hrate, Interpolate.stepOverSamples, hempty]
    simp only [List.isEmpty_nil, if_true]
    rw [← hempty]

/-- With nothing but such buffers in the queue, the loop dequeues them for ever. -/
theorem frameLoop_silent (fuel : Nat) : ∀ (s : SourceState ρ) (frame : List Interpolate.Sample),
    Meets silent s → s.currentBuffer = [] → s.inputQueue ≠ #[] → rates.positive s.rateMultiplier →
      frame.length < samplesPerFrame → frameLoop rates memory fuel s frame = none := by
  induction fuel with
  | zero => exact fun _ _ _ _ _ _ _ => rfl
  | succ fuel ih =>
      intro s frame hs hempty hqueue hrate hroom
      rw [frameLoop, if_neg (Nat.not_le.mpr hroom), if_pos (List.isEmpty_iff.mpr hempty)]
      rcases dequeueBuffer_meets memory hempty hs with ⟨-, htop⟩ | ⟨buf, t, ht, htop, hdequeued, hmeets⟩
      · exact absurd (Array.eq_empty_of_size_eq_zero (Nat.eq_zero_of_not_pos fun hpos =>
          absurd htop (by rw [Array.getElem?_eq_getElem hpos]; exact Option.some_ne_none _))) hqueue
      · obtain ⟨-, hlooping, havailable, hsamples⟩ := hs.queue buf (top_mem htop)
        rcases hdequeued.outcome with ⟨hnone, -⟩ | ⟨-, hlength, htqueue⟩
        · rw [hnone] at havailable
          exact absurd havailable Bool.false_ne_true
        · rw [hsamples, Nat.zero_sub] at hlength
          have hcurrent := List.length_eq_zero_iff.mp hlength
          have htrate : rates.positive t.rateMultiplier := hdequeued.rest.rate ▸ hrate
          have hleft : t.inputQueue ≠ #[] := by
            intro hnil
            have hmem : buf.played ∈ (BinaryHeap.pop bufferOrder s.inputQueue).toList ++ [buf.played] :=
              List.mem_append_right _ List.mem_cons_self
            have hperm : (queueAfter buf (BinaryHeap.pop bufferOrder s.inputQueue)).toList.Perm
                ((BinaryHeap.pop bufferOrder s.inputQueue).toList ++ [buf.played]) := by
              rw [queueAfter, if_pos hlooping]
              exact BinaryHeap.push_perm _ _
            rw [← hperm.mem_iff, ← htqueue, hnil] at hmem
            exact List.not_mem_nil hmem
          rw [ht]
          simp only [interpolate_nil hcurrent htrate, List.append_nil]
          exact ih t frame hmeets hcurrent hleft htrate hroom

/-- A buffer of one sample, and one of no samples that is to be looped after it. -/
def loopingConfig : Configuration Nat where
  dirtyRaw := 0x40090000
  rateMultiplier := 1
  enable := 1
  buffersDirty := 1
  buffers := fun _ => { physicalAddress := 0x20000000, isLooping := 1, bufferId := 2 }
  physicalAddress := 0x20000000
  length := 1
  format := .pcm16
  bufferId := 1

/-- The empty looping buffer as it is enqueued. -/
def loopingBuffer : Buffer :=
  queuedBuffer (loopingConfig.buffers 0)
    (applyFields integerRates loopingConfig (fun _ => 0) (reset integerRates))

theorem loopingBuffer_silent : silent.buffer loopingBuffer := by
  refine ⟨?_, rfl, rfl, rfl⟩
  rw [Buffer.Sound]
  decide

/-- The loop plays the sample and then dequeues the empty buffer again and again. -/
theorem frameLoop_hangs : ∃ s : SourceState Nat,
    Reachable (· = reset integerRates) (AnyStep integerRates) s ∧
      integerRates.positive s.rateMultiplier ∧
      ∀ fuel, frameLoop integerRates (fun _ => 0) fuel s [] = none := by
  have htick : ∃ s, tick integerRates (fun _ => 0) 0 loopingConfig (fun _ => 0) (reset integerRates) =
      some (.ok s) ∧ integerRates.positive s.rateMultiplier ∧
        ∃ t, (∀ fuel, frameLoop integerRates (fun _ => 0) (fuel + 1) s [] =
          frameLoop integerRates (fun _ => 0) fuel t [(0, 0)]) ∧ t.currentBuffer = [] ∧
          t.inputQueue = #[loopingBuffer] ∧ integerRates.positive t.rateMultiplier :=
    ⟨_, rfl, rfl, _, fun _ => rfl, rfl, rfl, rfl⟩
  obtain ⟨s, htick, hrate, t, hstep, hempty, hqueue, htrate⟩ := htick
  have hmeets : Meets silent t := by
    refine ⟨fun b hb => ?_, trivial⟩
    rw [hqueue] at hb
    rw [Array.mem_singleton.mp hb]
    exact loopingBuffer_silent
  refine ⟨s, .step (.start rfl) ⟨_, _, _, Or.inr ⟨0, htick⟩⟩, hrate, fun fuel => ?_⟩
  cases fuel with
  | zero => rfl
  | succ fuel =>
      rw [hstep]
      have hleft : t.inputQueue ≠ #[] := fun hnil =>
        absurd (congrArg Array.size (hqueue.symm.trans hnil)) (by decide)
      exact frameLoop_silent fuel t _ hmeets hempty hleft htrate (by decide)

end Results

end Cytrus.Audio.Source
