import Mathlib.Data.List.GetD
import Mathlib.Tactic

/-!
# Resampling of audio

A source resamples its buffers into the frames that the mixer asks for. Each call
steps over what is there of the input, and keeps two samples and a position with
24 fractional bits for the next one.

## Implementation notes

`step_size` is an argument, since how a rate is converted to an integer does not
matter here. An input is a list; the samples of an output are those that a call
appends to its frame, and `room` is what the frame has left.

## Main results

* `run_eq_reference`: the output does not depend on how input and output are cut,
  and linear interpolation stays between its samples
* `generateFrame_eq_run`: a frame of a source is such a sequence of calls
-/

namespace Cytrus.Audio.Interpolate

/-- A stereo sample. -/
abbrev Sample := Int16 × Int16

def scaleFactor : UInt64 := 0x1000000

def scaleMask : UInt64 := scaleFactor - 1

structure State where
  xn1 : Sample := (0, 0)
  xn2 : Sample := (0, 0)
  fposition : UInt64 := 0

/-- The function that a call passes three adjacent samples to. -/
abbrev Blend := UInt64 → Sample → Sample → Sample → Sample

/-- The blend of `None`. -/
def none : Blend := fun _ x0 _ _ => x0

/-- The saturated subtraction of `Linear`. -/
def delta (x0 x1 : Int16) : Int := max (-32768) (min 32767 (x1.toInt - x0.toInt))

/-- A channel of `Linear`. The product and the quotient are unsigned. -/
def linearChannel (fraction : UInt64) (x0 x1 : Int16) : Int16 :=
  (UInt64.ofInt x0.toInt + fraction * UInt64.ofInt (delta x0 x1) / scaleFactor).toUInt16.toInt16

/-- The blend of `Linear`. -/
def linear : Blend := fun fraction x0 x1 _ =>
  (linearChannel fraction x0.1 x1.1, linearChannel fraction x0.2 x1.2)

/-- A sample of an input. -/
def sampleAt (input : List Sample) (i : Nat) : Sample := input.getD i (0, 0)

/-- The loop of `StepOverSamples`: `inputi`, `fposition` and the new samples. -/
def stepLoop (fn : Blend) (stepSize : UInt64) (input : List Sample) :
    Nat → Nat → UInt64 → Nat × UInt64 × List Sample
  | 0, inputi, fposition => (inputi, fposition, [])
  | room + 1, _, fposition =>
      let inputi := (fposition / scaleFactor).toNat
      if input.length ≤ inputi + 2 then (input.length - 2, fposition, [])
      else
        let fraction := fposition &&& scaleMask
        let sample := fn fraction (sampleAt input inputi) (sampleAt input (inputi + 1))
          (sampleAt input (inputi + 2))
        let rest := stepLoop fn stepSize input room inputi (fposition + stepSize)
        (rest.1, rest.2.1, sample :: rest.2.2)

/-- An interpolation state with the input that is left of the current buffer. -/
structure Source where
  interpState : State := {}
  currentBuffer : List Sample := []

def stepOverSamples (fn : Blend) (stepSize : UInt64) (room : Nat) (s : Source) :
    Source × List Sample :=
  if s.currentBuffer.isEmpty then (s, [])
  else
    let input := s.interpState.xn2 :: s.interpState.xn1 :: s.currentBuffer
    let r := stepLoop fn stepSize input room 0 s.interpState.fposition
    ({ interpState :=
        { xn2 := sampleAt input r.1
          xn1 := sampleAt input (r.1 + 1)
          fposition := r.2.1 - UInt64.ofNat r.1 * scaleFactor }
       currentBuffer := input.drop (r.1 + 2) }, r.2.2)

/-- What happens to a source: a buffer is taken from its queue, or a frame that has
some room left is filled. -/
inductive Call where
  | dequeue (buffer : List Sample)
  | fill (room : Nat)

/-- A call. `DequeueBuffer` asserts that there is no data left in the current buffer. -/
def call (fn : Blend) (stepSize : UInt64) (s : Source) : Call → Option (Source × List Sample)
  | .dequeue buffer =>
      if s.currentBuffer.isEmpty then some ({ s with currentBuffer := buffer }, []) else Option.none
  | .fill room => some (stepOverSamples fn stepSize room s)

/-- Calls in a row, with their outputs concatenated. -/
def run (fn : Blend) (stepSize : UInt64) (s : Source) :
    List Call → Option (Source × List Sample)
  | [] => some (s, [])
  | c :: calls => do
      let first ← call fn stepSize s c
      let rest ← run fn stepSize first.1 calls
      return (rest.1, first.2 ++ rest.2)

/-- The buffers that calls take. -/
def buffersOf : List Call → List (List Sample)
  | [] => []
  | .dequeue buffer :: calls => buffer :: buffersOf calls
  | .fill _ :: calls => buffersOf calls

/-- The queue of a source, from which a frame takes the next buffer. -/
abbrev InputQueue := List (List Sample)

def dequeueBuffer (s : Source) : InputQueue → Option (Source × InputQueue)
  | [] => Option.none
  | buffer :: queue => some ({ s with currentBuffer := buffer }, queue)

/-- The buffer that an iteration of `GenerateFrame` goes on with. -/
def nextInput (s : Source) (queue : InputQueue) : Option (Source × InputQueue) :=
  if s.currentBuffer.isEmpty then dequeueBuffer s queue else some (s, queue)

/-- The loop of `GenerateFrame`. -/
def frameLoop (fn : Blend) (stepSize : UInt64) :
    Nat → Nat → Source → InputQueue → Source × InputQueue × List Sample
  | 0, _, s, queue => (s, queue, [])
  | fuel + 1, room, s, queue =>
      if room = 0 then (s, queue, [])
      else
        match nextInput s queue with
        | Option.none => (s, queue, [])
        | some (s, queue) =>
            let r := stepOverSamples fn stepSize room s
            let rest := frameLoop fn stepSize fuel (room - r.2.length) r.1 queue
            (rest.1, rest.2.1, r.2 ++ rest.2.2)

/-- `GenerateFrame`. Without data it prepares a buffer for the next frame. -/
def generateFrame (fn : Blend) (stepSize : UInt64) (size : Nat) (s : Source) (queue : InputQueue) :
    Source × InputQueue × List Sample :=
  if s.currentBuffer.isEmpty then
    match dequeueBuffer s queue with
    | some (s, queue) => (s, queue, [])
    | Option.none => (s, queue, [])
  else frameLoop fn stepSize (queue.length + 1) size s queue

/-! ### The reference -/

/-- The position of an output in the stream, with its fractional bits. -/
def positionOf (p0 step k : Nat) : Nat := p0 + k * step

/-- Whether the stream has the three samples of a position. -/
def Covered (stream : List Sample) (p : Nat) : Prop := p / 2 ^ 24 + 2 < stream.length

/-- An output as a function of the whole stream. -/
def referenceAt (fn : Blend) (stream : List Sample) (p : Nat) : Sample :=
  fn (UInt64.ofNat (p % 2 ^ 24)) (sampleAt stream (p / 2 ^ 24)) (sampleAt stream (p / 2 ^ 24 + 1))
    (sampleAt stream (p / 2 ^ 24 + 2))

/-- The first outputs of a stream. -/
def reference (fn : Blend) (stream : List Sample) (p0 step n : Nat) : List Sample :=
  (List.range n).map fun k => referenceAt fn stream (positionOf p0 step k)

section Reference

variable {fn : Blend} {stream more : List Sample} {p p0 step k n : Nat}

theorem positionOf_succ : positionOf p0 step (k + 1) = positionOf (p0 + step) step k := by
  simp only [positionOf]
  ring

theorem positionOf_add : positionOf p0 step (n + k) = positionOf (positionOf p0 step n) step k := by
  simp only [positionOf]
  ring

theorem reference_succ : reference fn stream p0 step (n + 1) =
    referenceAt fn stream p0 :: reference fn stream (p0 + step) step n := by
  rw [reference, List.range_succ_eq_map, List.map_cons, List.map_map, positionOf, zero_mul, add_zero]
  congr 1
  exact List.map_congr_left fun k _ => congrArg _ positionOf_succ

theorem reference_add : reference fn stream p0 step (n + k) =
    reference fn stream p0 step n ++ reference fn stream (positionOf p0 step n) step k := by
  rw [reference, List.range_add, List.map_append, List.map_map]
  congr 1
  exact List.map_congr_left fun j _ => congrArg _ positionOf_add

theorem sampleAt_append {i : Nat} (hi : i < stream.length) :
    sampleAt (stream ++ more) i = sampleAt stream i := List.getD_append _ _ _ _ hi

theorem sampleAt_drop (d i : Nat) : sampleAt (stream.drop d) i = sampleAt stream (d + i) := by
  rw [sampleAt, sampleAt, List.getD_eq_getElem?_getD, List.getD_eq_getElem?_getD, List.getElem?_drop]

theorem Covered.append (h : Covered stream p) : Covered (stream ++ more) p := by
  rw [Covered, List.length_append]
  exact Nat.lt_of_lt_of_le h (Nat.le_add_right ..)

theorem Covered.referenceAt_append (h : Covered stream p) :
    referenceAt fn (stream ++ more) p = referenceAt fn stream p := by
  have h2 : p / 2 ^ 24 + 2 < stream.length := h
  have h1 : p / 2 ^ 24 + 1 < stream.length := Nat.lt_of_succ_lt h2
  rw [referenceAt, sampleAt_append (Nat.lt_of_succ_lt h1), sampleAt_append h1, sampleAt_append h2,
    referenceAt]

theorem reference_append (h : ∀ k < n, Covered stream (positionOf p0 step k)) :
    reference fn (stream ++ more) p0 step n = reference fn stream p0 step n :=
  List.map_congr_left fun k hk => (h k (List.mem_range.mp hk)).referenceAt_append

theorem referenceAt_drop (d : Nat) :
    referenceAt fn (stream.drop d) p = referenceAt fn stream (p + d * 2 ^ 24) := by
  have hindex : (p + d * 2 ^ 24) / 2 ^ 24 = d + p / 2 ^ 24 := by
    rw [Nat.add_mul_div_right _ _ (by decide), Nat.add_comm]
  rw [referenceAt, referenceAt, Nat.add_mul_mod_self_right, hindex, sampleAt_drop, sampleAt_drop,
    sampleAt_drop, Nat.add_assoc, Nat.add_assoc]

theorem covered_drop (d : Nat) : Covered (stream.drop d) p ↔ Covered stream (p + d * 2 ^ 24) := by
  rw [Covered, Covered, Nat.add_mul_div_right _ _ (by decide), List.length_drop]
  omega

theorem positionOf_shift (d : Nat) :
    positionOf (p + d * 2 ^ 24) step k = positionOf p step k + d * 2 ^ 24 := by
  simp only [positionOf]
  ring

theorem reference_drop (d : Nat) :
    reference fn (stream.drop d) p step n = reference fn stream (p + d * 2 ^ 24) step n :=
  List.map_congr_left fun k _ => by rw [referenceAt_drop, positionOf_shift]

end Reference

/-! ### A call -/

theorem toNat_index (fposition : UInt64) :
    (fposition / scaleFactor).toNat = fposition.toNat / 2 ^ 24 := by
  rw [UInt64.toNat_div]
  rfl

theorem fraction_eq (fposition : UInt64) :
    fposition &&& scaleMask = UInt64.ofNat (fposition.toNat % 2 ^ 24) := by
  have hmask : scaleMask.toNat = 2 ^ 24 - 1 := rfl
  apply UInt64.toNat_inj.mp
  rw [UInt64.toNat_and, hmask, Nat.and_two_pow_sub_one_eq_mod, UInt64.toNat_ofNat_of_lt']
  exact (Nat.mod_lt _ (by decide)).trans (by decide)

/-- What the loop of a call gives, where `p` is the position it begins at. -/
structure LoopResult (fn : Blend) (step : UInt64) (input : List Sample) (p : Nat)
    (r : Nat × UInt64 × List Sample) : Prop where
  outs : r.2.2 = reference fn input p step.toNat r.2.2.length
  covered : ∀ k < r.2.2.length, Covered input (positionOf p step.toNat k)
  fposition : r.2.1.toNat = positionOf p step.toNat r.2.2.length
  kept : r.1 + 2 ≤ input.length
  index : r.1 * 2 ^ 24 ≤ r.2.1.toNat
  drained : r.1 + 2 = input.length → ¬ Covered input r.2.1.toNat

section Loop

variable {fn : Blend} {step : UInt64} {input : List Sample}

/-- The loop stops before its frame is full only at the end of the input. -/
theorem stepLoop_room (hlength : 2 ≤ input.length) (room inputi : Nat) (fposition : UInt64) :
    (stepLoop fn step input room inputi fposition).2.2.length ≤ room ∧
      ((stepLoop fn step input room inputi fposition).2.2.length < room →
        (stepLoop fn step input room inputi fposition).1 + 2 = input.length) := by
  induction room generalizing inputi fposition with
  | zero => exact ⟨Nat.le_refl 0, fun hlt => absurd hlt (Nat.lt_irrefl 0)⟩
  | succ room ih =>
      rw [stepLoop]
      simp only
      split
      · exact ⟨Nat.zero_le _, fun _ => Nat.sub_add_cancel hlength⟩
      · have hrest := ih (fposition / scaleFactor).toNat (fposition + step)
        exact ⟨Nat.succ_le_succ hrest.1, fun hlt => hrest.2 (Nat.lt_of_succ_lt_succ hlt)⟩

/-- By induction on the room. The index that the loop leaves is the one of its last
output, so that it has three samples there. -/
theorem stepLoop_spec (hsmall : input.length * 2 ^ 24 + step.toNat ≤ 2 ^ 64 + 2 * 2 ^ 24) (room : Nat) :
    ∀ (inputi : Nat) (fposition : UInt64), inputi + 2 < input.length →
      inputi * 2 ^ 24 ≤ fposition.toNat →
      LoopResult fn step input fposition.toNat (stepLoop fn step input room inputi fposition) := by
  induction room with
  | zero =>
      intro inputi fposition hkept hindex
      exact
        { outs := rfl
          covered := fun k hk => absurd hk (Nat.not_lt_zero k)
          fposition := by simp [stepLoop, positionOf]
          kept := hkept.le
          index := hindex
          drained := fun hdrained => absurd hdrained hkept.ne }
  | succ room ih =>
      intro inputi fposition hkept hindex
      rw [stepLoop]
      simp only [toNat_index]
      split
      · rename_i hend
        exact
          { outs := rfl
            covered := fun k hk => absurd hk (Nat.not_lt_zero k)
            fposition := by simp [positionOf]
            kept := by
              change input.length - 2 + 2 ≤ input.length
              omega
            index := by
              change (input.length - 2) * 2 ^ 24 ≤ fposition.toNat
              calc (input.length - 2) * 2 ^ 24 ≤ fposition.toNat / 2 ^ 24 * 2 ^ 24 :=
                    Nat.mul_le_mul_right _ (by omega)
                _ ≤ fposition.toNat := Nat.div_mul_le_self ..
            drained := fun _ => Nat.not_lt.mpr hend }
      · rename_i hcovered
        have hcovered : Covered input fposition.toNat := Nat.not_le.mp hcovered
        have hindex' : fposition.toNat / 2 ^ 24 * 2 ^ 24 ≤ fposition.toNat := Nat.div_mul_le_self ..
        have hnext : (fposition + step).toNat = fposition.toNat + step.toNat := by
          rw [UInt64.toNat_add, Nat.mod_eq_of_lt]
          have := (Nat.div_lt_iff_lt_mul (by decide)).mp (Nat.lt_sub_of_add_lt hcovered)
          omega
        have hrest := ih (fposition.toNat / 2 ^ 24) (fposition + step) hcovered
          (hindex'.trans (hnext ▸ Nat.le_add_right ..))
        rw [hnext] at hrest
        exact
          { outs := by
              change _ :: _ = reference fn input fposition.toNat step.toNat (_ + 1)
              rw [reference_succ, ← hrest.outs, referenceAt, fraction_eq]
            covered := fun k hk => by
              cases k with
              | zero => simpa [positionOf] using hcovered
              | succ k =>
                  rw [positionOf_succ]
                  exact hrest.covered k (Nat.lt_of_succ_lt_succ hk)
            fposition := by
              change _ = positionOf _ _ (_ + 1)
              rw [positionOf_succ]
              exact hrest.fposition
            kept := hrest.kept
            index := hrest.index
            drained := hrest.drained }

end Loop

theorem kept_eq_drop {input : List Sample} {i : Nat} (hi : i + 2 ≤ input.length) :
    sampleAt input i :: sampleAt input (i + 1) :: input.drop (i + 2) = input.drop i := by
  have h0 : i < input.length := by omega
  have h1 : i + 1 < input.length := by omega
  rw [List.drop_eq_getElem_cons h0, List.drop_eq_getElem_cons h1, sampleAt, sampleAt,
    List.getD_eq_getElem _ _ h0, List.getD_eq_getElem _ _ h1]

theorem toNat_fposition_sub {i : Nat} {fposition : UInt64} (hi : i * 2 ^ 24 ≤ fposition.toNat) :
    (fposition - UInt64.ofNat i * scaleFactor).toNat = fposition.toNat - i * 2 ^ 24 := by
  have hlt : i * 2 ^ 24 < 2 ^ 64 := hi.trans_lt fposition.toNat_lt
  have hmul : (UInt64.ofNat i * scaleFactor).toNat = i * 2 ^ 24 := by
    have hscale : scaleFactor.toNat = 2 ^ 24 := rfl
    rw [UInt64.toNat_mul, hscale, UInt64.toNat_ofNat_of_lt' (by
      change i < 2 ^ 64
      omega), Nat.mod_eq_of_lt hlt]
  rw [UInt64.toNat_sub_of_le _ _ (by rwa [UInt64.le_iff_toNat_le, hmul]), hmul]

/-! ### Calls in a row -/

/-- A source within a stream of which it has consumed a prefix, and its output so far. -/
structure Tracks (fn : Blend) (step : UInt64) (p0 : Nat) (stream : List Sample) (s : Source)
    (out : List Sample) : Prop where
  current : ∃ d ≤ stream.length,
    s.interpState.xn2 :: s.interpState.xn1 :: s.currentBuffer = stream.drop d ∧
      s.interpState.fposition.toNat + d * 2 ^ 24 = positionOf p0 step.toNat out.length
  outs : out = reference fn stream p0 step.toNat out.length
  covered : ∀ k < out.length, Covered stream (positionOf p0 step.toNat k)
  drained : s.currentBuffer = [] → ¬ Covered stream (positionOf p0 step.toNat out.length)
  small : s.currentBuffer ≠ [] → s.currentBuffer.length * 2 ^ 24 + step.toNat ≤ 2 ^ 64

section Runs

variable {fn : Blend} {step : UInt64} {p0 : Nat} {stream out : List Sample} {s : Source}

theorem Tracks.dequeue (h : Tracks fn step p0 stream s out) (hempty : s.currentBuffer = [])
    {buffer : List Sample} (hne : buffer ≠ [])
    (hsmall : buffer.length * 2 ^ 24 + step.toNat ≤ 2 ^ 64) :
    Tracks fn step p0 (stream ++ buffer) { s with currentBuffer := buffer } out := by
  obtain ⟨d, hd, hcurrent, hposition⟩ := h.current
  rw [hempty] at hcurrent
  exact
    { current := by
        refine ⟨d, ?_, ?_, hposition⟩
        · rw [List.length_append]
          exact hd.trans (Nat.le_add_right ..)
        · rw [List.drop_append_of_le_length hd, ← hcurrent]
          rfl
      outs := by rw [reference_append h.covered, ← h.outs]
      covered := fun k hk => (h.covered k hk).append
      drained := fun hnil => absurd hnil hne
      small := fun _ => hsmall }

theorem Tracks.fill (h : Tracks fn step p0 stream s out) (room : Nat) :
    Tracks fn step p0 stream (stepOverSamples fn step room s).1
      (out ++ (stepOverSamples fn step room s).2) := by
  rw [stepOverSamples]
  split
  · rw [List.append_nil]
    exact h
  · rename_i hdata
    have hne : s.currentBuffer ≠ [] := fun hnil => hdata (List.isEmpty_iff.mpr hnil)
    obtain ⟨d, hd, hcurrent, hposition⟩ := h.current
    have hlength : (s.interpState.xn2 :: s.interpState.xn1 :: s.currentBuffer).length =
        s.currentBuffer.length + 2 := rfl
    have hpos : 0 < s.currentBuffer.length := List.length_pos_iff.mpr hne
    have hsmall := h.small hne
    have hloop := @stepLoop_spec fn step (s.interpState.xn2 :: s.interpState.xn1 :: s.currentBuffer)
      (by
        rw [hlength, Nat.add_mul, Nat.add_right_comm]
        exact Nat.add_le_add_right hsmall _) room 0 s.interpState.fposition
      (by
        rw [hlength]
        exact Nat.add_lt_add_right hpos 2)
      (by rw [Nat.zero_mul]; exact Nat.zero_le _)
    simp only
    generalize stepLoop fn step (s.interpState.xn2 :: s.interpState.xn1 :: s.currentBuffer) room 0
      s.interpState.fposition = r at hloop
    rw [hcurrent] at hloop ⊢
    have hnext (k : Nat) : positionOf p0 step.toNat (out.length + k) =
        positionOf s.interpState.fposition.toNat step.toNat k + d * 2 ^ 24 := by
      rw [positionOf_add, ← hposition, positionOf_shift]
    have hlength' := congrArg List.length hcurrent
    rw [hlength, List.length_drop] at hlength'
    have hkept := hloop.kept
    rw [List.length_drop] at hkept
    exact
      { current := by
          refine ⟨d + r.1, by omega, ?_, ?_⟩
          · exact (kept_eq_drop hloop.kept).trans List.drop_drop
          · change (r.2.1 - UInt64.ofNat r.1 * scaleFactor).toNat + _ = _
            have hindex := hloop.index
            rw [toNat_fposition_sub hindex, List.length_append, hnext, ← hloop.fposition, Nat.add_mul]
            omega
        outs := by
          rw [List.length_append, reference_add, ← h.outs, ← hposition, ← reference_drop, ← hloop.outs]
        covered := fun k hk => by
          rw [List.length_append] at hk
          rcases Nat.lt_or_ge k out.length with hlt | hge
          · exact h.covered k hlt
          · obtain ⟨j, rfl⟩ := Nat.exists_eq_add_of_le hge
            rw [hnext, ← covered_drop]
            exact hloop.covered j (Nat.lt_of_add_lt_add_left hk)
        drained := fun hnil => by
          have hend : (stream.drop d).length ≤ r.1 + 2 := List.drop_eq_nil_iff.mp hnil
          rw [List.length_append, hnext, ← covered_drop, ← hloop.fposition]
          exact hloop.drained (Nat.le_antisymm hloop.kept hend)
        small := fun _ => by
          refine le_trans (Nat.add_le_add_right (Nat.mul_le_mul_right _ ?_) _) hsmall
          rw [List.length_drop, List.length_drop]
          omega }

theorem Tracks.run (h : Tracks fn step p0 stream s out) {calls : List Call} {r : Source}
    {more : List Sample} (hrun : run fn step s calls = some (r, more))
    (hbuffers : ∀ buffer ∈ buffersOf calls,
      buffer ≠ [] ∧ buffer.length * 2 ^ 24 + step.toNat ≤ 2 ^ 64) :
    Tracks fn step p0 (stream ++ (buffersOf calls).flatten) r (out ++ more) := by
  induction calls generalizing stream s out more with
  | nil =>
      obtain ⟨rfl, rfl⟩ := Prod.mk.inj (Option.some.inj hrun)
      rw [buffersOf, List.flatten_nil, List.append_nil, List.append_nil]
      exact h
  | cons c calls ih =>
      rw [Interpolate.run] at hrun
      obtain ⟨first, hfirst, hrest⟩ := Option.bind_eq_some_iff.mp hrun
      obtain ⟨rest, hcalls, hpure⟩ := Option.bind_eq_some_iff.mp hrest
      obtain ⟨rfl, rfl⟩ := Prod.mk.inj (Option.some.inj hpure)
      rw [← List.append_assoc]
      cases c with
      | dequeue buffer =>
          rw [call] at hfirst
          split at hfirst
          · rename_i hempty
            obtain rfl := Option.some.inj hfirst
            obtain ⟨hne, hsmall⟩ := hbuffers buffer List.mem_cons_self
            rw [buffersOf, List.flatten_cons, ← List.append_assoc, List.append_nil]
            exact ih (h.dequeue (List.isEmpty_iff.mp hempty) hne hsmall) hcalls
              fun b hb => hbuffers b (List.mem_cons_of_mem _ hb)
          · cases hfirst
      | fill room =>
          obtain rfl := Option.some.inj hfirst
          exact ih (h.fill room) hcalls hbuffers

end Runs

/-! ### A frame -/

/-- A call leaves room in its frame only if it consumes the whole input. -/
theorem stepOverSamples_room (fn : Blend) (step : UInt64) (room : Nat) (s : Source) :
    (stepOverSamples fn step room s).2.length ≤ room ∧
      ((stepOverSamples fn step room s).2.length < room →
        (stepOverSamples fn step room s).1.currentBuffer = []) := by
  rw [stepOverSamples]
  split
  · rename_i hempty
    exact ⟨Nat.zero_le _, fun _ => List.isEmpty_iff.mp hempty⟩
  · have hloop := @stepLoop_room fn step (s.interpState.xn2 :: s.interpState.xn1 :: s.currentBuffer)
      (Nat.le_add_left ..) room 0 s.interpState.fposition
    exact ⟨hloop.1, fun hlt => List.drop_eq_nil_iff.mpr (hloop.2 hlt).ge⟩

section Frames

variable {fn : Blend} {step : UInt64}

/-- A frame as calls: what it gives, and where it stops. -/
structure IsFrame (fn : Blend) (step : UInt64) (room : Nat) (s : Source) (queue : InputQueue)
    (r : Source × InputQueue × List Sample) : Prop where
  calls : ∃ calls, run fn step s calls = some (r.1, r.2.2) ∧ buffersOf calls ++ r.2.1 = queue
  stops : r.2.2.length = room ∨ r.1.currentBuffer = [] ∧ r.2.1 = []

theorem run_fill {room : Nat} {s r : Source} {calls : List Call} {out : List Sample}
    (h : run fn step (stepOverSamples fn step room s).1 calls = some (r, out)) :
    run fn step s (.fill room :: calls) = some (r, (stepOverSamples fn step room s).2 ++ out) := by
  rw [run, call, Option.bind_eq_bind, Option.bind_some, h]
  rfl

theorem run_dequeue {s r : Source} {buffer : List Sample} {calls : List Call} {out : List Sample}
    (hempty : s.currentBuffer.isEmpty)
    (h : run fn step { s with currentBuffer := buffer } calls = some (r, out)) :
    run fn step s (.dequeue buffer :: calls) = some (r, out) := by
  rw [run, call, if_pos hempty, Option.bind_eq_bind, Option.bind_some, h]
  rfl

theorem frameLoop_full (fuel : Nat) (s : Source) (queue : InputQueue) :
    frameLoop fn step fuel 0 s queue = (s, queue, []) := by
  cases fuel with
  | zero => rfl
  | succ fuel => rw [frameLoop, if_pos rfl]

/-- By induction on the iterations. Each but the first one takes a buffer from the queue. -/
theorem frameLoop_isFrame (fuel room : Nat) (s : Source) (queue : InputQueue)
    (hfuel : queue.length + (if s.currentBuffer.isEmpty then 0 else 1) ≤ fuel) :
    IsFrame fn step room s queue (frameLoop fn step fuel room s queue) := by
  induction fuel generalizing room s queue with
  | zero =>
      have hempty : s.currentBuffer.isEmpty = true := by
        by_contra hdata
        rw [if_neg hdata] at hfuel
        exact absurd hfuel (Nat.not_succ_le_zero _)
      have hqueue : queue = [] := List.length_eq_zero_iff.mp (by omega)
      exact ⟨⟨[], rfl, rfl⟩, Or.inr ⟨List.isEmpty_iff.mp hempty, hqueue⟩⟩
  | succ fuel ih =>
      rcases Nat.eq_zero_or_pos room with rfl | hroom
      · rw [frameLoop_full]
        exact ⟨⟨[], rfl, rfl⟩, Or.inl rfl⟩
      · -- An iteration after the data it works on is there.
        have hstep (s : Source) (queue : InputQueue) (hqueue : queue.length ≤ fuel) :
            IsFrame fn step room s queue
              ((frameLoop fn step fuel (room - (stepOverSamples fn step room s).2.length)
                (stepOverSamples fn step room s).1 queue).1,
              (frameLoop fn step fuel (room - (stepOverSamples fn step room s).2.length)
                (stepOverSamples fn step room s).1 queue).2.1,
              (stepOverSamples fn step room s).2 ++
                (frameLoop fn step fuel (room - (stepOverSamples fn step room s).2.length)
                  (stepOverSamples fn step room s).1 queue).2.2) := by
          obtain ⟨hle, hdrained⟩ := stepOverSamples_room fn step room s
          rcases hle.eq_or_lt with hfull | hlt
          · rw [hfull, Nat.sub_self, frameLoop_full]
            exact ⟨⟨[.fill room], run_fill rfl, rfl⟩, Or.inl (by rw [List.append_nil, hfull])⟩
          · have hrest := ih (room - (stepOverSamples fn step room s).2.length)
              (stepOverSamples fn step room s).1 queue (by
                rw [hdrained hlt]
                exact hqueue)
            obtain ⟨calls, hrun, hbuffers⟩ := hrest.calls
            refine ⟨⟨.fill room :: calls, run_fill hrun, hbuffers⟩, hrest.stops.imp_left fun hlength => ?_⟩
            rw [List.length_append, hlength]
            exact Nat.add_sub_cancel' hle
        rw [frameLoop, if_neg hroom.ne', nextInput]
        split_ifs with hempty
        · rw [if_pos hempty] at hfuel
          cases queue with
          | nil => exact ⟨⟨[], rfl, rfl⟩, Or.inr ⟨List.isEmpty_iff.mp hempty, rfl⟩⟩
          | cons buffer queue =>
              have hframe := hstep { s with currentBuffer := buffer } queue (Nat.le_of_succ_le_succ hfuel)
              obtain ⟨calls, hrun, hbuffers⟩ := hframe.calls
              exact ⟨⟨.dequeue buffer :: calls, run_dequeue hempty hrun, congrArg _ hbuffers⟩, hframe.stops⟩
        · rw [if_neg hempty] at hfuel
          exact hstep s queue (Nat.le_of_succ_le_succ hfuel)

end Frames

/-! ### The linear blend -/

theorem cast_toNat_ofInt (z : Int) : ((UInt64.ofInt z).toNat : Int) = z % 2 ^ 64 := by
  have hnonneg : 0 ≤ z % 2 ^ 64 := Int.emod_nonneg z (by decide)
  rw [UInt64.ofInt, UInt64.toNat_ofNat', Int.natCast_mod, Int.toNat_of_nonneg hnonneg]
  exact Int.emod_emod_of_dvd z (dvd_refl _)

theorem delta_bounds (x0 x1 : Int16) :
    min 0 (x1.toInt - x0.toInt) ≤ delta x0 x1 ∧ delta x0 x1 ≤ max 0 (x1.toInt - x0.toInt) ∧
      -32768 ≤ delta x0 x1 ∧ delta x0 x1 ≤ 32767 := by
  simp only [delta]
  omega

theorem fraction_mul_bounds {f d : Int} (hf : 0 ≤ f) (hlt : f < 2 ^ 24) :
    min 0 d ≤ f * d / 2 ^ 24 ∧ f * d / 2 ^ 24 ≤ max 0 d := by
  have hscale : (0 : Int) < 2 ^ 24 := by decide
  rcases le_total 0 d with hd | hd
  · rw [min_eq_left hd, max_eq_right hd]
    have hle : f * d ≤ d * 2 ^ 24 := by
      rw [mul_comm d]
      exact mul_le_mul_of_nonneg_right hlt.le hd
    exact ⟨Int.ediv_nonneg (mul_nonneg hf hd) hscale.le, Int.ediv_le_of_le_mul hscale hle⟩
  · rw [min_eq_right hd, max_eq_left hd]
    have hle : d * 2 ^ 24 ≤ f * d := by
      rw [mul_comm d]
      exact mul_le_mul_of_nonpos_right hlt.le hd
    refine ⟨Int.le_ediv_of_mul_le hscale hle, ?_⟩
    have hneg : f * d ≤ 0 * 2 ^ 24 := by
      rw [zero_mul]
      exact mul_nonpos_of_nonneg_of_nonpos hf hd
    exact Int.ediv_le_of_le_mul hscale hneg

theorem toInt_truncated (u : UInt64) : u.toUInt16.toInt16.toInt = (u.toNat : Int).bmod (2 ^ 16) := by
  conv_lhs => rw [← UInt64.ofNat_toNat (x := u)]
  rw [UInt64.toUInt16_ofNat', UInt16.toInt16_ofNat', Int16.toInt_ofNat']
  rfl

/-- The unsigned product and quotient give the signed floor up to a multiple of `2 ^ 16`. -/
theorem toInt_linearChannel {fraction : UInt64} (hfraction : fraction < scaleFactor) (x0 x1 : Int16) :
    (linearChannel fraction x0 x1).toInt =
      x0.toInt + (fraction.toNat : Int) * delta x0 x1 / 2 ^ 24 := by
  have hlt : (fraction.toNat : Int) < 2 ^ 24 := Int.ofNat_lt.mpr hfraction
  have hfloor := fraction_mul_bounds (d := delta x0 x1) (Int.natCast_nonneg fraction.toNat) hlt
  have hdelta := delta_bounds x0 x1
  have hscale : scaleFactor.toNat = 2 ^ 24 := rfl
  have hquotient : ((fraction * UInt64.ofInt (delta x0 x1) / scaleFactor).toNat : Int) =
      (fraction.toNat : Int) * delta x0 x1 % 2 ^ 64 / 2 ^ 24 := by
    rw [UInt64.toNat_div, UInt64.toNat_mul, hscale, Int.natCast_div, Int.natCast_mod, Int.natCast_mul,
      cast_toNat_ofInt]
    change (fraction.toNat : Int) * (delta x0 x1 % 2 ^ 64) % 2 ^ 64 / 2 ^ 24 = _
    rw [Int.mul_emod, Int.emod_emod_of_dvd (delta x0 x1) (dvd_refl _), ← Int.mul_emod]
  have hx0 := x0.le_toInt
  have hx0' := x0.toInt_lt
  have hx1 := x1.le_toInt
  have hx1' := x1.toInt_lt
  generalize (fraction.toNat : Int) * delta x0 x1 = z at hfloor hquotient ⊢
  rw [linearChannel, toInt_truncated, UInt64.toNat_add, Int.natCast_mod, Int.natCast_add, hquotient,
    cast_toNat_ofInt, Int.bmod_def]
  omega

theorem linearChannel_between {fraction : UInt64} (hfraction : fraction < scaleFactor) (x0 x1 : Int16) :
    min x0.toInt x1.toInt ≤ (linearChannel fraction x0 x1).toInt ∧
      (linearChannel fraction x0 x1).toInt ≤ max x0.toInt x1.toInt := by
  have hlt : (fraction.toNat : Int) < 2 ^ 24 := Int.ofNat_lt.mpr hfraction
  have hfloor := fraction_mul_bounds (Int.natCast_nonneg fraction.toNat) hlt (d := delta x0 x1)
  have hdelta := delta_bounds x0 x1
  rw [toInt_linearChannel hfraction]
  omega

/-! ### Chunk independence -/

/-- However a stream is cut into buffers and an output into frames, the outputs are
those of the reference, and there are as many as the stream has the samples for once
it is consumed. A buffer must leave the position within 64 bits. -/
theorem run_eq_reference (fn : Blend) (step : UInt64) (state : State) (calls : List Call) (r : Source)
    (out : List Sample) (hrun : run fn step { interpState := state } calls = some (r, out))
    (hbuffers : ∀ buffer ∈ buffersOf calls,
      buffer ≠ [] ∧ buffer.length * 2 ^ 24 + step.toNat ≤ 2 ^ 64) :
    let stream := state.xn2 :: state.xn1 :: (buffersOf calls).flatten
    let position := positionOf state.fposition.toNat step.toNat
    out = reference fn stream state.fposition.toNat step.toNat out.length ∧
      (∀ k < out.length, Covered stream (position k)) ∧
      (r.currentBuffer = [] → ¬ Covered stream (position out.length)) ∧
      ∀ fraction < scaleFactor, ∀ x0 x1,
        (linearChannel fraction x0 x1).toInt =
            x0.toInt + (fraction.toNat : Int) * delta x0 x1 / 2 ^ 24 ∧
          min x0.toInt x1.toInt ≤ (linearChannel fraction x0 x1).toInt ∧
          (linearChannel fraction x0 x1).toInt ≤ max x0.toInt x1.toInt := by
  have hstart : Tracks fn step state.fposition.toNat [state.xn2, state.xn1]
      { interpState := state } [] :=
    { current := ⟨0, Nat.zero_le _, rfl, by simp [positionOf]⟩
      outs := rfl
      covered := fun k hk => absurd hk (Nat.not_lt_zero k)
      drained := fun _ => by simp [Covered]
      small := fun hne => absurd rfl hne }
  have htracks := hstart.run hrun hbuffers
  refine ⟨htracks.outs, htracks.covered, htracks.drained, fun fraction hfraction x0 x1 => ?_⟩
  exact ⟨toInt_linearChannel hfraction x0 x1, linearChannel_between hfraction x0 x1⟩

theorem run_eq_reference_two : ∃ r,
    run linear 0xC00000 {} [.dequeue [(8, 0), (16, 0)], .fill 2, .fill 5] =
        some (r, [(0, 0), (0, 0), (4, 0)]) ∧
      [(0, 0), (0, 0), (4, 0)] =
        reference linear [(0, 0), (0, 0), (8, 0), (16, 0)] 0 0xC00000 3 := by
  have hrun : run linear 0xC00000 {} [.dequeue [(8, 0), (16, 0)], .fill 2, .fill 5] =
    some (_, [(0, 0), (0, 0), (4, 0)]) := rfl
  exact ⟨_, hrun, (run_eq_reference linear 0xC00000 {} _ _ _ hrun (by decide)).1⟩

theorem stepLoop_zeros {n room i : Nat} {step fposition : UInt64}
    (hcovered : (fposition / scaleFactor).toNat + 2 < n) :
    (stepLoop none step (List.replicate n (0, 0)) (room + 1) i fposition).2.2 =
      (0, 0) :: (stepLoop none step (List.replicate n (0, 0)) room (fposition / scaleFactor).toNat
        (fposition + step)).2.2 := by
  have hzero : sampleAt (List.replicate n (0, 0)) (fposition / scaleFactor).toNat = (0, 0) := by
    rw [sampleAt, List.getD_eq_getElem _ _ (by rw [List.length_replicate]; omega), List.getElem_replicate]
  rw [stepLoop, if_neg (by rw [List.length_replicate]; exact Nat.not_le.mpr hcovered)]
  change none _ _ _ _ :: _ = _
  rw [none, hzero]

theorem run_zeros {n : Nat} (hn : 131072 < n) :
    ∃ r, run none 0xFFFFFF0000000000 { interpState := { fposition := 0x20000000000 } }
        [.dequeue (List.replicate n (0, 0)), .fill 2] = some (r, [(0, 0), (0, 0)]) := by
  have hloop : (stepLoop none 0xFFFFFF0000000000 (List.replicate (n + 2) (0, 0)) 2 0
      0x20000000000).2.2 = [(0, 0), (0, 0)] := by
    rw [stepLoop_zeros, stepLoop_zeros, stepLoop]
    · exact Nat.add_lt_add_right (Nat.lt_trans (by decide) hn) 2
    · exact Nat.add_lt_add_right hn 2
  have hout : (stepOverSamples none 0xFFFFFF0000000000 2
      ⟨{ fposition := 0x20000000000 }, List.replicate n (0, 0)⟩).2 = [(0, 0), (0, 0)] := by
    obtain ⟨n, rfl⟩ := Nat.exists_eq_succ_of_ne_zero (Nat.ne_zero_of_lt hn)
    rw [stepOverSamples, if_neg (by rw [List.replicate_succ, List.isEmpty_cons]; decide)]
    exact hloop
  refine ⟨(stepOverSamples none 0xFFFFFF0000000000 2
      ⟨{ fposition := 0x20000000000 }, List.replicate n (0, 0)⟩).1, ?_⟩
  rw [← hout]
  exact run_dequeue rfl ((run_fill rfl).trans (by rw [List.append_nil]))

/-- A step that does not fit into 64 bits beyond the position of an output goes back to the
begin of a buffer, while the reference is at its end. -/
theorem run_wraps :
    (∃ r, run none 0xFFFFFF0000000000 { interpState := { fposition := 0x20000000000 } }
        [.dequeue (List.replicate 131073 (0, 0)), .fill 2] = some (r, [(0, 0), (0, 0)])) ∧
      ¬ Covered ((0, 0) :: (0, 0) ::
          (buffersOf [.dequeue (List.replicate 131073 (0, 0)), .fill 2]).flatten)
        (positionOf (0x20000000000 : UInt64).toNat (0xFFFFFF0000000000 : UInt64).toNat 1) := by
  refine ⟨run_zeros (by decide), ?_⟩
  have hlength (n : Nat) : ((0, 0) :: (0, 0) ::
      (buffersOf [.dequeue (List.replicate n (0, 0)), .fill 2]).flatten).length = n + 2 := by
    rw [buffersOf, buffersOf, buffersOf, List.flatten_cons, List.flatten_nil, List.append_nil,
      List.length_cons, List.length_cons, List.length_replicate]
  rw [Covered, hlength]
  decide

end Cytrus.Audio.Interpolate
