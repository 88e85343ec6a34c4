import Mathlib.Tactic
import Cytrus.Audio.Interpolate

/-!
# Decoding of audio

Samples of a buffer are bytes, words or nibbles. A nibble is the input of a filter of
second order whose coefficients and scale are those of its frame.

## Implementation notes

A pointer is a partial function: it gives the bytes up to the end of the memory that
it points into. A decoder that reads elsewhere has no result.

## Main results

* `decodeADPCM_exact_iff`: what the filter computes is exact as long as its sums fit into
  32 bits, and a stream may be cut at a frame
* `decodePCM8_isSome`, `decodePCM16_isSome`, `decodeADPCM_isSome`: what a decoder reads
-/

namespace Cytrus.Audio.Codec

open Interpolate (Sample)

/-- A pointer, as the bytes from it on. -/
abbrev Pointer := Nat → Option UInt8

abbrev StereoBuffer16 := List Sample

structure ADPCMState where
  yn1 : Int16 := 0
  yn2 : Int16 := 0
  deriving DecidableEq

def frameLen : Nat := 8

def samplesPerFrame : Nat := 14

def signedNibbles : List Int := [0, 1, 2, 3, 4, 5, 6, 7, -8, -7, -6, -5, -4, -3, -2, -1]

/-- What the header of a frame says about its samples. -/
structure FrameParameters where
  scale : Int
  coef1 : Int
  coef2 : Int

/-- The header of a frame. -/
def frameParameters (adpcmCoeff : Nat → Int16) (frameHeader : UInt8) : FrameParameters where
  scale := 2 ^ (frameHeader.toNat % 16)
  coef1 := (adpcmCoeff (frameHeader.toNat / 16 % 8 * 2 + 0)).toInt
  coef2 := (adpcmCoeff (frameHeader.toNat / 16 % 8 * 2 + 1)).toInt

/-- The last two outputs, as integers. -/
structure History where
  yn1 : Int
  yn2 : Int

/-- The sum that a sample is computed from. -/
def FrameParameters.sum (p : FrameParameters) (nibble : Int) (h : History) : Int :=
  nibble * p.scale * 2 ^ 11 + 0x400 + p.coef1 * h.yn1 + p.coef2 * h.yn2

/-- A value of 32 bits. Sums and products of such values are those of the integers
up to a multiple of `2 ^ 32`. -/
def toS32 (x : Int) : Int := x.bmod (2 ^ 32)

/-- `std::clamp` to the range of the output. -/
def clampS16 (val : Int) : Int := max (-32768) (min 32767 val)

def decodeSample (p : FrameParameters) (nibble : Int) (h : History) : Int × History :=
  let val := clampS16 (toS32 (p.sum nibble h) / 2 ^ 11)
  (val, ⟨val, h.yn1⟩)

/-- Both channels of a sample. -/
def fill (sample : Int) : Sample := (Int16.ofInt sample, Int16.ofInt sample)

/-- The samples of a frame, two from each byte. -/
def decodeFrame (data : Pointer) (sampleCount : Nat) (p : FrameParameters) :
    Nat → Nat → Nat → History → Option (List Int × History)
  | 0, _, _, h => some ([], h)
  | pairs + 1, outputi, datai, h =>
      if outputi < sampleCount then do
        let byte ← data datai
        let sample1 := decodeSample p (signedNibbles.getD (byte.toNat / 16) 0) h
        let sample2 := decodeSample p (signedNibbles.getD (byte.toNat % 16) 0) sample1.2
        let rest ← decodeFrame data sampleCount p pairs (outputi + 2) (datai + 1) sample2.2
        return (sample1.1 :: sample2.1 :: rest.1, rest.2)
      else some ([], h)

/-- The frames from `framei` on. -/
def decodeFrames (data : Pointer) (sampleCount : Nat) (adpcmCoeff : Nat → Int16) :
    Nat → Nat → History → Option (List Int × History)
  | 0, _, h => some ([], h)
  | frames + 1, framei, h => do
      let frameHeader ← data (framei * frameLen)
      let frame ← decodeFrame data sampleCount (frameParameters adpcmCoeff frameHeader)
        (samplesPerFrame / 2) (framei * samplesPerFrame) (framei * frameLen + 1) h
      let rest ← decodeFrames data sampleCount adpcmCoeff frames (framei + 1) frame.2
      return (frame.1 ++ rest.1, rest.2)

def decodeADPCM (data : Pointer) (sampleCount : Nat) (adpcmCoeff : Nat → Int16)
    (state : ADPCMState) : Option (StereoBuffer16 × ADPCMState) := do
  let numFrames := (sampleCount + (samplesPerFrame - 1)) / samplesPerFrame
  let r ← decodeFrames data sampleCount adpcmCoeff numFrames 0 ⟨state.yn1.toInt, state.yn2.toInt⟩
  return (r.1.map fill, ⟨Int16.ofInt r.2.yn1, Int16.ofInt r.2.yn2⟩)

/-- A sample of 8 bits. -/
def widen (sample : UInt8) : Int16 := (sample.toUInt16 <<< 8).toInt16

def decodePCM8 (numChannels : Nat) (data : Pointer) (sampleCount : Nat) : Option StereoBuffer16 :=
  (List.range sampleCount).mapM fun i => do
    if numChannels = 1 then
      let sample ← data i
      return (widen sample, widen sample)
    else
      let left ← data (i * 2 + 0)
      let right ← data (i * 2 + 1)
      return (widen left, widen right)

/-- The word at a place. -/
def readS16 (data : Pointer) (i : Nat) : Option Int16 := do
  let low ← data i
  let high ← data (i + 1)
  return (low.toUInt16 ||| high.toUInt16 <<< 8).toInt16

def decodePCM16 (numChannels : Nat) (data : Pointer) (sampleCount : Nat) : Option StereoBuffer16 :=
  (List.range sampleCount).mapM fun i => do
    if numChannels = 1 then
      let sample ← readS16 data (i * 2)
      return (sample, sample)
    else
      let left ← readS16 data (i * 2 * 2)
      let right ← readS16 data (i * 2 * 2 + 2)
      return (left, right)

/-! ### The filter -/

/-- What a sample is decoded from besides the outputs before it. -/
structure Input where
  parameters : FrameParameters
  nibble : Int

/-- The input of a sample of a stream. -/
def inputAt (bytes : Nat → UInt8) (adpcmCoeff : Nat → Int16) (k : Nat) : Input where
  parameters := frameParameters adpcmCoeff (bytes (k / samplesPerFrame * frameLen))
  nibble :=
    let byte := bytes (k / samplesPerFrame * frameLen + 1 + k % samplesPerFrame / 2)
    signedNibbles.getD (if k % 2 = 0 then byte.toNat / 16 else byte.toNat % 16) 0

/-- The sum of a sample after these outputs. -/
def Input.sum (x : Input) (h : History) : Int := x.parameters.sum x.nibble h

/-- The sample in unbounded integers. -/
def exactSample (x : Input) (h : History) : Int := clampS16 (x.sum h / 2 ^ 11)

/-- The sample as the code computes it. -/
def wrappedSample (x : Input) (h : History) : Int := clampS16 (toS32 (x.sum h) / 2 ^ 11)

/-- The outputs before a sample of a filter. -/
def historyAt (sample : Input → History → Int) (inputs : Nat → Input) (h : History) : Nat → History
  | 0 => h
  | k + 1 =>
      let before := historyAt sample inputs h k
      ⟨sample (inputs k) before, before.yn1⟩

/-- A value that has 32 bits. -/
def FitsS32 (x : Int) : Prop := -2 ^ 31 ≤ x ∧ x < 2 ^ 31

instance (x : Int) : Decidable (FitsS32 x) := inferInstanceAs (Decidable (_ ∧ _))

/-- A value in the range of the output. -/
def IsS16 (x : Int) : Prop := -2 ^ 15 ≤ x ∧ x < 2 ^ 15

/-- Both outputs are in range. -/
def History.Bounded (h : History) : Prop := IsS16 h.yn1 ∧ IsS16 h.yn2

/-- The bounds of what the guest says about a sample. -/
structure Input.Bounded (x : Input) : Prop where
  nibble : -2 ^ 3 ≤ x.nibble ∧ x.nibble < 2 ^ 3
  scale : 0 ≤ x.parameters.scale ∧ x.parameters.scale ≤ 2 ^ 15
  coef1 : IsS16 x.parameters.coef1
  coef2 : IsS16 x.parameters.coef2

section Filter

variable {x : Input} {h : History} {inputs : Nat → Input}

theorem clampS16_isS16 (v : Int) : IsS16 (clampS16 v) := by
  simp only [IsS16, clampS16]
  omega

theorem toInt_isS16 (v : Int16) : IsS16 v.toInt := ⟨v.le_toInt, v.toInt_lt⟩

theorem toInt_ofInt_of_isS16 {v : Int} (hv : IsS16 v) : (Int16.ofInt v).toInt = v :=
  Int16.toInt_ofInt_of_le hv.1 hv.2

theorem fill_inj {v w : Int} (hv : IsS16 v) (hw : IsS16 w) : fill v = fill w ↔ v = w := by
  refine ⟨fun heq => ?_, congrArg fill⟩
  have hfst := congrArg (fun s : Sample => s.1.toInt) heq
  rwa [fill, fill, toInt_ofInt_of_isS16 hv, toInt_ofInt_of_isS16 hw] at hfst

theorem signedNibbles_bounds (i : Nat) :
    -2 ^ 3 ≤ signedNibbles.getD i 0 ∧ signedNibbles.getD i 0 < 2 ^ 3 := by
  by_cases hi : i < signedNibbles.length
  · rw [List.getD_eq_getElem _ _ hi]
    have hall : ∀ v ∈ signedNibbles, -2 ^ 3 ≤ v ∧ v < 2 ^ 3 := by decide
    exact hall _ (List.getElem_mem hi)
  · rw [List.getD_eq_default _ _ (Nat.le_of_not_lt hi)]
    decide

theorem inputAt_bounded (bytes : Nat → UInt8) (adpcmCoeff : Nat → Int16) (k : Nat) :
    (inputAt bytes adpcmCoeff k).Bounded where
  nibble := signedNibbles_bounds _
  scale := by
    refine ⟨pow_nonneg (by decide) _, pow_le_pow_right₀ (by decide) ?_⟩
    exact Nat.le_of_lt_succ (Nat.mod_lt _ (by decide))
  coef1 := toInt_isS16 _
  coef2 := toInt_isS16 _

theorem mul_bounds {c y : Int} (hc : IsS16 c) (hy : IsS16 y) : -2 ^ 30 ≤ c * y ∧ c * y ≤ 2 ^ 30 := by
  have hc' : |c| ≤ 2 ^ 15 := abs_le.mpr ⟨hc.1, hc.2.le⟩
  have hy' : |y| ≤ 2 ^ 15 := abs_le.mpr ⟨hy.1, hy.2.le⟩
  have hmul : |c * y| ≤ 2 ^ 15 * 2 ^ 15 := by
    rw [abs_mul]
    exact mul_le_mul hc' hy' (abs_nonneg y) (by decide)
  exact abs_le.mp hmul

/-- Although a sum may need more than 32 bits, it never needs 33. -/
theorem sum_bounds (hx : x.Bounded) (hh : h.Bounded) : -2 ^ 32 < x.sum h ∧ x.sum h < 2 ^ 32 := by
  have h1 := mul_bounds hx.coef1 hh.1
  have h2 := mul_bounds hx.coef2 hh.2
  have hlow : -2 ^ 3 * 2 ^ 15 ≤ x.nibble * x.parameters.scale := by
    calc (-2 ^ 3 * 2 ^ 15 : Int) ≤ -2 ^ 3 * x.parameters.scale :=
          mul_le_mul_of_nonpos_left hx.scale.2 (by decide)
      _ ≤ x.nibble * x.parameters.scale := mul_le_mul_of_nonneg_right hx.nibble.1 hx.scale.1
  have hhigh : x.nibble * x.parameters.scale ≤ 2 ^ 3 * 2 ^ 15 := by
    calc x.nibble * x.parameters.scale ≤ 2 ^ 3 * x.parameters.scale :=
          mul_le_mul_of_nonneg_right hx.nibble.2.le hx.scale.1
      _ ≤ 2 ^ 3 * 2 ^ 15 := mul_le_mul_of_nonneg_left hx.scale.2 (by decide)
  simp only [Input.sum, FrameParameters.sum]
  omega

theorem wrappedSample_eq_iff (hx : x.Bounded) (hh : h.Bounded) :
    wrappedSample x h = exactSample x h ↔ FitsS32 (x.sum h) := by
  have hbounds := sum_bounds hx hh
  simp only [wrappedSample, exactSample, clampS16, FitsS32, toS32, Int.bmod_def]
  generalize x.sum h = s at hbounds ⊢
  omega

theorem historyAt_bounded {sample : Input → History → Int} (hsample : ∀ x h, IsS16 (sample x h))
    (hh : h.Bounded) (k : Nat) : (historyAt sample inputs h k).Bounded := by
  induction k with
  | zero => exact hh
  | succ k ih => exact ⟨hsample _ _, ih.1⟩

theorem wrappedHistory_bounded (inputs : Nat → Input) (hh : h.Bounded) (k : Nat) :
    (historyAt wrappedSample inputs h k).Bounded :=
  historyAt_bounded (fun _ _ => clampS16_isS16 _) hh k

theorem historyAt_add (sample : Input → History → Int) (a k : Nat) :
    historyAt sample inputs h (a + k) =
      historyAt sample (fun i => inputs (a + i)) (historyAt sample inputs h a) k := by
  induction k with
  | zero => rfl
  | succ k ih => rw [← Nat.add_assoc, historyAt, ih, historyAt]

theorem historyAt_eq_exact {n : Nat} (hexact : ∀ k < n,
      wrappedSample (inputs k) (historyAt wrappedSample inputs h k) =
        exactSample (inputs k) (historyAt wrappedSample inputs h k)) {k : Nat} (hk : k ≤ n) :
    historyAt wrappedSample inputs h k = historyAt exactSample inputs h k := by
  induction k with
  | zero => rfl
  | succ k ih =>
      have hbefore := ih (Nat.le_of_succ_le hk)
      rw [historyAt, historyAt, hexact k hk, hbefore]

theorem historyAt_eq_of_fits {n : Nat} (hin : ∀ k, (inputs k).Bounded) (hh : h.Bounded)
    (hfits : ∀ k < n, FitsS32 ((inputs k).sum (historyAt exactSample inputs h k)))
    {k : Nat} (hk : k ≤ n) : historyAt wrappedSample inputs h k = historyAt exactSample inputs h k := by
  induction k with
  | zero => rfl
  | succ k ih =>
      have hbefore := ih (Nat.le_of_succ_le hk)
      have hbounded := wrappedHistory_bounded inputs hh k
      have hsample := (wrappedSample_eq_iff (hin k) hbounded).mpr (by
        rw [hbefore]
        exact hfits k hk)
      rw [historyAt, historyAt, hsample, hbefore]

/-- Every sample is the exact one iff every sum of the exact filter fits. -/
theorem samples_exact_iff {n : Nat} (hin : ∀ k, (inputs k).Bounded) (hh : h.Bounded) :
    (∀ k < n, wrappedSample (inputs k) (historyAt wrappedSample inputs h k) =
        exactSample (inputs k) (historyAt wrappedSample inputs h k)) ↔
      ∀ k < n, FitsS32 ((inputs k).sum (historyAt exactSample inputs h k)) := by
  constructor
  · intro hexact k hk
    have hbounded := wrappedHistory_bounded inputs hh k
    rw [← historyAt_eq_exact hexact hk.le]
    exact (wrappedSample_eq_iff (hin k) hbounded).mp (hexact k hk)
  · intro hfits k hk
    have hbounded := wrappedHistory_bounded inputs hh k
    apply (wrappedSample_eq_iff (hin k) hbounded).mpr
    rw [historyAt_eq_of_fits hin hh hfits hk.le]
    exact hfits k hk

end Filter

/-! ### The decoded stream -/

/-- `ret_size`: as many samples as asked for, and one more if they are odd. -/
def retSize (sampleCount : Nat) : Nat :=
  if sampleCount % 2 = 0 then sampleCount else sampleCount + 1

/-- The frames of a stream, the last one rounded up. -/
def numFrames (sampleCount : Nat) : Nat :=
  (sampleCount + (samplesPerFrame - 1)) / samplesPerFrame

/-- Samples in a row of the filter. -/
def samplesFrom (inputs : Nat → Input) (h : History) (start count : Nat) : List Int :=
  (List.range' start count).map fun k => (historyAt wrappedSample inputs h (k + 1)).yn1

section Stream

variable {bytes : Nat → UInt8} {adpcmCoeff : Nat → Int16} {h : History} {inputs : Nat → Input}
  {n : Nat}

theorem retSize_even (n : Nat) : retSize n % 2 = 0 ∧ n ≤ retSize n ∧ retSize n ≤ n + 1 := by
  rw [retSize]
  split <;> omega

theorem length_samplesFrom (start count : Nat) : (samplesFrom inputs h start count).length = count := by
  rw [samplesFrom, List.length_map, List.length_range']

theorem samplesFrom_succ (start count : Nat) : samplesFrom inputs h start (count + 1) =
    wrappedSample (inputs start) (historyAt wrappedSample inputs h start) ::
      samplesFrom inputs h (start + 1) count := by
  rw [samplesFrom, List.range'_succ, List.map_cons, historyAt, samplesFrom]

theorem samplesFrom_add (start a b : Nat) : samplesFrom inputs h start (a + b) =
    samplesFrom inputs h start a ++ samplesFrom inputs h (start + a) b := by
  rw [samplesFrom, ← List.range'_append_1, List.map_append, samplesFrom, samplesFrom]

theorem decodeSample_eq (k : Nat) :
    decodeSample (inputs k).parameters (inputs k).nibble (historyAt wrappedSample inputs h k) =
      (wrappedSample (inputs k) (historyAt wrappedSample inputs h k),
        historyAt wrappedSample inputs h (k + 1)) := rfl

/-- By induction on the pairs. The inputs of the frame are those of its bytes. -/
theorem decodeFrame_eq {p : FrameParameters} (pairs : Nat) :
    ∀ outputi datai : Nat, outputi % 2 = 0 →
      (∀ j < pairs, inputs (outputi + 2 * j) =
          ⟨p, signedNibbles.getD ((bytes (datai + j)).toNat / 16) 0⟩ ∧
        inputs (outputi + 2 * j + 1) = ⟨p, signedNibbles.getD ((bytes (datai + j)).toNat % 16) 0⟩) →
      decodeFrame (fun i => some (bytes i)) n p pairs outputi datai
          (historyAt wrappedSample inputs h outputi) =
        some (samplesFrom inputs h outputi (min (2 * pairs) (retSize n - outputi)),
          historyAt wrappedSample inputs h (outputi + min (2 * pairs) (retSize n - outputi))) := by
  induction pairs with
  | zero =>
      intro outputi datai _ _
      rw [Nat.mul_zero, Nat.zero_min]
      rfl
  | succ pairs ih =>
      intro outputi datai heven hin
      rw [decodeFrame]
      split_ifs with hlt
      · obtain ⟨h1, h2⟩ := hin 0 (Nat.succ_pos pairs)
        simp only [Nat.mul_zero, Nat.add_zero] at h1 h2
        have hs1 := @decodeSample_eq h inputs outputi
        have hs2 := @decodeSample_eq h inputs (outputi + 1)
        rw [h1] at hs1
        rw [h2] at hs2
        have hrest := ih (outputi + 2) (datai + 1) (by omega) fun j hj => by
          have hnext := hin (j + 1) (Nat.succ_lt_succ hj)
          have hplace : outputi + 2 * (j + 1) = outputi + 2 + 2 * j := by omega
          have hbyte : datai + (j + 1) = datai + 1 + j := by omega
          rwa [hplace, hbyte] at hnext
        have hcount : min (2 * (pairs + 1)) (retSize n - outputi) =
            min (2 * pairs) (retSize n - (outputi + 2)) + 1 + 1 := by
          have hret := retSize_even n
          omega
        rw [hcount, samplesFrom_succ, samplesFrom_succ, h1, h2]
        simp only [Option.bind_eq_bind, Option.bind_some, Option.pure_def, hs1, hs2]
        rw [hrest, Option.bind_some]
        have hend (m : Nat) : outputi + 2 + m = outputi + (m + 1 + 1) := by omega
        rw [hend]
      · have hcount : min (2 * (pairs + 1)) (retSize n - outputi) = 0 := by
          have hret := retSize_even n
          omega
        rw [hcount]
        rfl

theorem inputAt_frame (bytes : Nat → UInt8) (adpcmCoeff : Nat → Int16) (framei j : Nat) (hj : j < samplesPerFrame / 2) :
    inputAt bytes adpcmCoeff (framei * samplesPerFrame + 2 * j) =
        ⟨frameParameters adpcmCoeff (bytes (framei * frameLen)),
          signedNibbles.getD ((bytes (framei * frameLen + 1 + j)).toNat / 16) 0⟩ ∧
      inputAt bytes adpcmCoeff (framei * samplesPerFrame + 2 * j + 1) =
        ⟨frameParameters adpcmCoeff (bytes (framei * frameLen)),
          signedNibbles.getD ((bytes (framei * frameLen + 1 + j)).toNat % 16) 0⟩ := by
  have hj : j < 7 := hj
  have hdiv : (framei * samplesPerFrame + 2 * j) / samplesPerFrame = framei := by
    rw [samplesPerFrame]
    omega
  have hdiv' : (framei * samplesPerFrame + 2 * j + 1) / samplesPerFrame = framei := by
    rw [samplesPerFrame]
    omega
  have hmod : (framei * samplesPerFrame + 2 * j) % samplesPerFrame / 2 = j := by
    rw [samplesPerFrame]
    omega
  have hmod' : (framei * samplesPerFrame + 2 * j + 1) % samplesPerFrame / 2 = j := by
    rw [samplesPerFrame]
    omega
  have heven : (framei * samplesPerFrame + 2 * j) % 2 = 0 := by
    rw [samplesPerFrame]
    omega
  have hodd : ¬ (framei * samplesPerFrame + 2 * j + 1) % 2 = 0 := by
    rw [samplesPerFrame]
    omega
  constructor
  · simp only [inputAt, hdiv, hmod, if_pos heven]
  · simp only [inputAt, hdiv', hmod', if_neg hodd]

/-- By induction on the frames that are left. Only the last one may end early. -/
theorem decodeFrames_eq (bytes : Nat → UInt8) (adpcmCoeff : Nat → Int16) (h : History) (frames : Nat) :
    ∀ framei : Nat, framei + frames = numFrames n →
    decodeFrames (fun i => some (bytes i)) n adpcmCoeff frames framei
        (historyAt wrappedSample (inputAt bytes adpcmCoeff) h (min (framei * samplesPerFrame) (retSize n))) =
      some (samplesFrom (inputAt bytes adpcmCoeff) h (min (framei * samplesPerFrame) (retSize n))
          (retSize n - framei * samplesPerFrame),
        historyAt wrappedSample (inputAt bytes adpcmCoeff) h (retSize n)) := by
  induction frames with
  | zero =>
      intro framei hframe
      have hend : retSize n ≤ framei * samplesPerFrame := by
        have hret := retSize_even n
        simp only [numFrames, samplesPerFrame] at hframe ⊢
        omega
      rw [min_eq_right hend, Nat.sub_eq_zero_of_le hend]
      rfl
  | succ frames ih =>
      intro framei hframe
      have hlt : framei * samplesPerFrame < n := by
        simp only [numFrames, samplesPerFrame] at hframe ⊢
        omega
      have hle := (retSize_even n).2.1
      have hnext : min ((framei + 1) * samplesPerFrame) (retSize n) = framei * samplesPerFrame +
          min (2 * (samplesPerFrame / 2)) (retSize n - framei * samplesPerFrame) := by
        simp only [samplesPerFrame] at hlt ⊢
        omega
      have hcount : retSize n - framei * samplesPerFrame =
          min (2 * (samplesPerFrame / 2)) (retSize n - framei * samplesPerFrame) +
            (retSize n - (framei + 1) * samplesPerFrame) := by
        rw [samplesPerFrame]
        omega
      have heven : framei * samplesPerFrame % 2 = 0 := by
        rw [samplesPerFrame]
        omega
      have hframe' := decodeFrame_eq (n := n) (h := h) (samplesPerFrame / 2) (framei * samplesPerFrame)
        (framei * frameLen + 1) heven (inputAt_frame bytes adpcmCoeff framei)
      have hrest := ih (framei + 1) (by rw [← hframe, Nat.add_right_comm, Nat.add_assoc])
      rw [hnext] at hrest
      rw [min_eq_left (hlt.le.trans hle), hcount, samplesFrom_add, decodeFrames]
      simp only [Option.bind_eq_bind, Option.bind_some, Option.pure_def]
      rw [hframe', Option.bind_some, hrest, Option.bind_some]

end Stream

/-- The history that a decoder is given. -/
def ADPCMState.history (state : ADPCMState) : History := ⟨state.yn1.toInt, state.yn2.toInt⟩

/-- The state that a decoder leaves. -/
def History.state (h : History) : ADPCMState := ⟨Int16.ofInt h.yn1, Int16.ofInt h.yn2⟩

/-- The outputs before a sample of a decoded stream. -/
def preceding (state : ADPCMState) (out : StereoBuffer16) (k : Nat) : History :=
  let outputs := state.yn2.toInt :: state.yn1.toInt :: out.map fun sample => sample.1.toInt
  ⟨outputs.getD (k + 1) 0, outputs.getD k 0⟩

/-- Every sample is the clamped floor of the sum over the outputs before it. -/
def IsExact (inputs : Nat → Input) (state : ADPCMState) (out : StereoBuffer16) : Prop :=
  ∀ k < out.length, out.getD k (0, 0) = fill (exactSample (inputs k) (preceding state out k))

/-- What is decoded in one piece is what is decoded up to a frame and then from there. -/
def Splits (bytes : Nat → UInt8) (adpcmCoeff : Nat → Int16) (state : ADPCMState) (a b : Nat) : Prop :=
  ∃ out₁ out₂ middle last,
    decodeADPCM (fun i => some (bytes i)) a adpcmCoeff state = some (out₁, middle) ∧
    decodeADPCM (fun i => some (bytes (a / samplesPerFrame * frameLen + i))) b adpcmCoeff middle =
      some (out₂, last) ∧
    decodeADPCM (fun i => some (bytes i)) (a + b) adpcmCoeff state = some (out₁ ++ out₂, last)

section Decode

variable {bytes : Nat → UInt8} {adpcmCoeff : Nat → Int16} {state : ADPCMState}
  {inputs : Nat → Input} {h : History} {n : Nat}

theorem history_bounded (state : ADPCMState) : state.history.Bounded :=
  ⟨toInt_isS16 _, toInt_isS16 _⟩

theorem history_state (hh : h.Bounded) : h.state.history = h := by
  rw [History.state, ADPCMState.history, toInt_ofInt_of_isS16 hh.1, toInt_ofInt_of_isS16 hh.2]

theorem decodeADPCM_eq (bytes : Nat → UInt8) (adpcmCoeff : Nat → Int16) (state : ADPCMState)
    (n : Nat) : decodeADPCM (fun i => some (bytes i)) n adpcmCoeff state =
      some ((samplesFrom (inputAt bytes adpcmCoeff) state.history 0 (retSize n)).map fill,
        (historyAt wrappedSample (inputAt bytes adpcmCoeff) state.history (retSize n)).state) := by
  have hframes := decodeFrames_eq bytes adpcmCoeff state.history (numFrames n) 0 (Nat.zero_add _)
  rw [Nat.zero_mul, Nat.zero_min, Nat.sub_zero] at hframes
  change (decodeFrames _ n adpcmCoeff (numFrames n) 0
    (historyAt wrappedSample (inputAt bytes adpcmCoeff) state.history 0)).bind _ = _
  rw [hframes]
  rfl

theorem getD_samples (inputs : Nat → Input) (h : History) {k : Nat} (hk : k < n) :
    ((samplesFrom inputs h 0 n).map fill).getD k (0, 0) =
      fill (wrappedSample (inputs k) (historyAt wrappedSample inputs h k)) := by
  have hlen : k < ((samplesFrom inputs h 0 n).map fill).length := by
    rwa [List.length_map, length_samplesFrom]
  rw [List.getD_eq_getElem _ _ hlen, List.getElem_map]
  simp only [samplesFrom, List.getElem_map, List.getElem_range', Nat.zero_add, Nat.one_mul]
  rw [historyAt]

theorem getD_outputs (inputs : Nat → Input) (h : History) {k : Nat} (hk : k < n) :
    (((samplesFrom inputs h 0 n).map fill).map fun sample => sample.1.toInt).getD k 0 =
      (historyAt wrappedSample inputs h (k + 1)).yn1 := by
  have hread := getD_samples inputs h hk
  have hlen : k < ((samplesFrom inputs h 0 n).map fill).length := by
    rwa [List.length_map, length_samplesFrom]
  rw [List.getD_eq_getElem _ _ hlen] at hread
  rw [List.getD_eq_getElem _ _ (by rwa [List.length_map]), List.getElem_map, hread, historyAt]
  exact toInt_ofInt_of_isS16 (clampS16_isS16 _)

theorem preceding_eq {k : Nat} (hk : k ≤ n) :
    preceding state ((samplesFrom inputs state.history 0 n).map fill) k =
      historyAt wrappedSample inputs state.history k := by
  cases k with
  | zero => rfl
  | succ k =>
      have hlast := getD_outputs inputs state.history (Nat.lt_of_succ_le hk)
      rw [preceding]
      cases k with
      | zero =>
          simp only [List.getD_cons_succ, hlast]
          rfl
      | succ k =>
          have hsecond := getD_outputs inputs state.history (Nat.lt_of_succ_lt (Nat.lt_of_succ_le hk))
          simp only [List.getD_cons_succ, hlast, hsecond]
          rfl

/-- The decoded stream is exact iff the sums of the exact filter fit. -/
theorem isExact_iff (hin : ∀ k, (inputs k).Bounded) :
    IsExact inputs state ((samplesFrom inputs state.history 0 n).map fill) ↔
      ∀ k < n, FitsS32 ((inputs k).sum (historyAt exactSample inputs state.history k)) := by
  rw [← samples_exact_iff hin (history_bounded state), IsExact, List.length_map, length_samplesFrom]
  refine forall₂_congr fun k hk => ?_
  rw [getD_samples inputs state.history hk, preceding_eq hk.le]
  exact fill_inj (clampS16_isS16 _) (clampS16_isS16 _)

theorem inputAt_add {a : Nat} (ha : samplesPerFrame ∣ a) (k : Nat) :
    inputAt bytes adpcmCoeff (a + k) =
      inputAt (fun i => bytes (a / samplesPerFrame * frameLen + i)) adpcmCoeff k := by
  obtain ⟨frames, rfl⟩ := ha
  have hpos : 0 < samplesPerFrame := by decide
  have hdiv : (samplesPerFrame * frames + k) / samplesPerFrame = frames + k / samplesPerFrame := by
    rw [Nat.add_comm, Nat.add_mul_div_left _ _ hpos, Nat.add_comm]
  have heven : (samplesPerFrame * frames + k) % 2 = k % 2 := by
    rw [samplesPerFrame]
    omega
  simp only [inputAt, hdiv, Nat.mul_add_mod, heven, Nat.mul_div_cancel_left _ hpos, Nat.add_mul,
    Nat.add_assoc]

theorem splits (bytes : Nat → UInt8) (adpcmCoeff : Nat → Int16) (state : ADPCMState) {a : Nat}
    (b : Nat) (ha : samplesPerFrame ∣ a) : Splits bytes adpcmCoeff state a b := by
  have hret : retSize a = a := by
    obtain ⟨frames, rfl⟩ := ha
    rw [retSize, if_pos (by rw [samplesPerFrame]; omega)]
  have hret' : retSize (a + b) = a + retSize b := by
    obtain ⟨frames, rfl⟩ := ha
    have heven : (samplesPerFrame * frames + b) % 2 = b % 2 := by
      rw [samplesPerFrame]
      omega
    rw [retSize, retSize, heven]
    split_ifs <;> rfl
  have hmiddle := wrappedHistory_bounded (inputAt bytes adpcmCoeff) (history_bounded state) a
  have hinputs : (fun k => inputAt bytes adpcmCoeff (a + k)) =
      inputAt (fun i => bytes (a / samplesPerFrame * frameLen + i)) adpcmCoeff :=
    funext fun k => inputAt_add ha k
  refine ⟨_, _, _, _, decodeADPCM_eq bytes adpcmCoeff state a, decodeADPCM_eq _ _ _ b, ?_⟩
  rw [decodeADPCM_eq, hret, hret', history_state hmiddle, samplesFrom_add, List.map_append,
    historyAt_add, hinputs]
  congr 3
  rw [Nat.zero_add, samplesFrom, samplesFrom]
  simp only [List.range'_eq_map_range, List.map_map, Nat.zero_add, Function.comp_def, Nat.add_assoc,
    historyAt_add _ a, hinputs]

/-- The filter is the one of the unbounded integers, and may be cut at a frame, exactly when
its sums in unbounded integers fit into 32 bits. -/
theorem decodeADPCM_exact_iff (bytes : Nat → UInt8) (adpcmCoeff : Nat → Int16) (state : ADPCMState)
    (sampleCount : Nat) :
    ∃ out last, decodeADPCM (fun i => some (bytes i)) sampleCount adpcmCoeff state = some (out, last) ∧
      out.length = retSize sampleCount ∧
      (IsExact (inputAt bytes adpcmCoeff) state out ∧
          (∀ a b, sampleCount = a + b → samplesPerFrame ∣ a → Splits bytes adpcmCoeff state a b) ↔
        ∀ k < retSize sampleCount, FitsS32 ((inputAt bytes adpcmCoeff k).sum
          (historyAt exactSample (inputAt bytes adpcmCoeff) state.history k))) := by
  refine ⟨_, _, decodeADPCM_eq bytes adpcmCoeff state sampleCount, ?_, ?_⟩
  · rw [List.length_map, length_samplesFrom]
  · rw [isExact_iff (inputAt_bounded bytes adpcmCoeff)]
    exact and_iff_left fun a b _ ha => splits bytes adpcmCoeff state b ha

/-- Both coefficients and both outputs before it at the end of their range. -/
theorem decodeADPCM_overflows :
    ∃ out last, decodeADPCM (fun _ => some 0) 2 (fun _ => -32768) ⟨-32768, -32768⟩ = some (out, last) ∧
      ¬ IsExact (inputAt (fun _ => 0) fun _ => -32768) ⟨-32768, -32768⟩ out := by
  refine ⟨_, _, decodeADPCM_eq (fun _ => 0) _ _ 2, fun hexact => ?_⟩
  have hfirst := (isExact_iff (inputAt_bounded _ _)).mp hexact 0 (by decide)
  revert hfirst
  decide

end Decode

/-! ### What the decoders read -/

/-- The bytes of `DecodeADPCM`: those of the frames before the last one, and its header and pairs. -/
def adpcmBytes (sampleCount : Nat) : Nat :=
  if sampleCount = 0 then 0
  else (sampleCount - 1) / samplesPerFrame * frameLen + 1 + ((sampleCount - 1) % samplesPerFrame / 2 + 1)

/-- The pointer has its first bytes. -/
def Readable (data : Pointer) (count : Nat) : Prop := ∀ i < count, (data i).isSome

section Reads

variable {data : Pointer} {n : Nat}

theorem exists_mapM {α β : Type} {f : α → Option β} {l : List α} (h : ∀ a ∈ l, ∃ b, f a = some b) :
    ∃ r, l.mapM f = some r ∧ r.length = l.length := by
  induction l with
  | nil => exact ⟨[], rfl, rfl⟩
  | cons a l ih =>
      obtain ⟨b, hb⟩ := h a List.mem_cons_self
      obtain ⟨r, hr, hlength⟩ := ih fun a ha => h a (List.mem_cons_of_mem _ ha)
      refine ⟨b :: r, ?_, congrArg Nat.succ hlength⟩
      rw [List.mapM_cons, hb, hr]
      rfl

theorem Readable.byte {count i : Nat} (h : Readable data count) (hi : i < count) :
    ∃ byte, data i = some byte := Option.isSome_iff_exists.mp (h i hi)

theorem Readable.word {count i : Nat} (h : Readable data count) (hi : i + 1 < count) :
    ∃ word, readS16 data i = some word := by
  obtain ⟨low, hlow⟩ := h.byte (Nat.lt_of_succ_lt hi)
  obtain ⟨high, hhigh⟩ := h.byte hi
  exact ⟨_, by simp only [readS16, hlow, hhigh, Option.bind_eq_bind, Option.bind_some]; rfl⟩

theorem decodePCM8_of_readable {channels : Nat} (hchannels : channels = 1 ∨ channels = 2)
    (h : Readable data (n * channels)) :
    ∃ r, decodePCM8 channels data n = some r ∧ r.length = n := by
  have hall : ∀ i ∈ List.range n, ∃ sample, (do
      if channels = 1 then
        let sample ← data i
        return (widen sample, widen sample)
      else
        let left ← data (i * 2 + 0)
        let right ← data (i * 2 + 1)
        return (widen left, widen right)) = some sample := by
    intro i hi
    have hi := List.mem_range.mp hi
    rcases hchannels with rfl | rfl
    · obtain ⟨byte, hbyte⟩ := h.byte (i := i) (by omega)
      exact ⟨_, by simp only [if_true, hbyte, Option.bind_eq_bind, Option.bind_some]; rfl⟩
    · obtain ⟨left, hleft⟩ := h.byte (i := i * 2 + 0) (by omega)
      obtain ⟨right, hright⟩ := h.byte (i := i * 2 + 1) (by omega)
      refine ⟨(widen left, widen right), ?_⟩
      rw [if_neg (by decide), hleft, Option.bind_eq_bind, Option.bind_some, hright]
      rfl
  obtain ⟨r, hr, hlength⟩ := exists_mapM hall
  exact ⟨r, hr, hlength.trans List.length_range⟩

theorem decodePCM16_of_readable {channels : Nat} (hchannels : channels = 1 ∨ channels = 2)
    (h : Readable data (n * 2 * channels)) :
    ∃ r, decodePCM16 channels data n = some r ∧ r.length = n := by
  have hall : ∀ i ∈ List.range n, ∃ sample, (do
      if channels = 1 then
        let sample ← readS16 data (i * 2)
        return (sample, sample)
      else
        let left ← readS16 data (i * 2 * 2)
        let right ← readS16 data (i * 2 * 2 + 2)
        return (left, right)) = some sample := by
    intro i hi
    have hi := List.mem_range.mp hi
    rcases hchannels with rfl | rfl
    · obtain ⟨word, hword⟩ := h.word (i := i * 2) (by omega)
      exact ⟨_, by simp only [if_true, hword, Option.bind_eq_bind, Option.bind_some]; rfl⟩
    · obtain ⟨left, hleft⟩ := h.word (i := i * 2 * 2) (by omega)
      obtain ⟨right, hright⟩ := h.word (i := i * 2 * 2 + 2) (by omega)
      refine ⟨(left, right), ?_⟩
      rw [if_neg (by decide), hleft, Option.bind_eq_bind, Option.bind_some, hright]
      rfl
  obtain ⟨r, hr, hlength⟩ := exists_mapM hall
  exact ⟨r, hr, hlength.trans List.length_range⟩

theorem decodeFrame_congr {data' : Pointer} {p : FrameParameters} (pairs : Nat) :
    ∀ (outputi datai : Nat) (h : History),
      (∀ j < pairs, outputi + 2 * j < n → data (datai + j) = data' (datai + j)) →
      decodeFrame data n p pairs outputi datai h = decodeFrame data' n p pairs outputi datai h := by
  induction pairs with
  | zero => exact fun _ _ _ _ => rfl
  | succ pairs ih =>
      intro outputi datai h hdata
      rw [decodeFrame, decodeFrame]
      split_ifs with hlt
      · have hbyte : data datai = data' datai := hdata 0 (Nat.succ_pos pairs) hlt
        rw [hbyte]
        have hrest (h : History) := ih (outputi + 2) (datai + 1) h fun j hj hlt => by
          have hplace : datai + (j + 1) = datai + 1 + j := by omega
          rw [← hplace]
          exact hdata (j + 1) (Nat.succ_lt_succ hj) (by omega)
        simp only [hrest]
      · rfl

theorem decodeFrames_congr {data' : Pointer} (adpcmCoeff : Nat → Int16)
    (hdata : ∀ i < adpcmBytes n, data i = data' i) (frames : Nat) :
    ∀ (framei : Nat) (h : History), framei + frames = numFrames n →
      decodeFrames data n adpcmCoeff frames framei h = decodeFrames data' n adpcmCoeff frames framei h := by
  induction frames with
  | zero => exact fun _ _ _ => rfl
  | succ frames ih =>
      intro framei h hframe
      have hlt : framei * samplesPerFrame < n := by
        simp only [numFrames, samplesPerFrame] at hframe ⊢
        omega
      have hbytes (j : Nat) (hj : framei * samplesPerFrame + 2 * j < n) (hpairs : j < samplesPerFrame / 2) :
          framei * frameLen + 1 + j < adpcmBytes n := by
        rw [adpcmBytes, if_neg (Nat.ne_zero_of_lt hj)]
        simp only [samplesPerFrame, frameLen] at hj hpairs ⊢
        omega
      have hheader : data (framei * frameLen) = data' (framei * frameLen) :=
        hdata _ (Nat.lt_of_succ_lt (hbytes 0 hlt (by decide)))
      rw [decodeFrames, decodeFrames, hheader]
      refine congrArg _ (funext fun frameHeader => ?_)
      rw [decodeFrame_congr (samplesPerFrame / 2) _ _ h fun j hpairs hj => hdata _ (hbytes j hj hpairs)]
      refine congrArg _ (funext fun frame => ?_)
      rw [ih (framei + 1) frame.2 (by rw [← hframe, Nat.add_right_comm, Nat.add_assoc])]

theorem decodeADPCM_of_readable (adpcmCoeff : Nat → Int16) (state : ADPCMState)
    (h : Readable data (adpcmBytes n)) :
    ∃ r, decodeADPCM data n adpcmCoeff state = some r ∧ r.1.length = retSize n := by
  have hdata : ∀ i < adpcmBytes n, data i = some ((data i).getD 0) := by
    intro i hi
    obtain ⟨byte, hbyte⟩ := h.byte hi
    rw [hbyte, Option.getD_some]
  have heq := decodeADPCM_eq (fun i => (data i).getD 0) adpcmCoeff state n
  change (decodeFrames _ n adpcmCoeff (numFrames n) 0 state.history).bind _ = _ at heq
  have hframes := decodeFrames_congr adpcmCoeff hdata (numFrames n) 0 state.history (Nat.zero_add _)
  rw [← hframes] at heq
  refine ⟨_, heq, ?_⟩
  rw [List.length_map, length_samplesFrom]

end Reads

end Cytrus.Audio.Codec
