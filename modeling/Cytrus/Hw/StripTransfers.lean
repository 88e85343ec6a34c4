import Mathlib.Tactic
import Cytrus.Hw.StripTiles
import Cytrus.Support.Slices
import Cytrus.VideoCore.PixelCodec

/-!
# Colour conversion with its transfers

The planes of a strip are received in units of the guest's choice, converted to tiles,
rotated and sent in units again.

## Implementation notes

A result is missing as long as a loop has not ended. A failed assertion stops the
conversion; what would be undefined is a stop of its own. The data buffer is a list
of bytes, and each transfer works on its share of it; the memory of the guest that a
pointer leads into is not bounded here.

## Main results

* `performConversion_safe_iff`: which units the conversion comes to its end with
-/

namespace Cytrus.Hw.Y2R

open Support
open VideoCore (Vec4 bytesOfU32)

/-- What ends a conversion early: a failed assertion or undefined behaviour. -/
inductive Stop where
  | assertion
  | divisionByZero
  | overflow
  | overread
  deriving DecidableEq

/-- A computation whose loops may not have ended yet. -/
abbrev Run (α : Type) := ExceptT Stop Option α

structure ConversionBuffer where
  address : UInt32
  imageSize : UInt32
  transferUnit : UInt16
  gap : UInt16

/-- `InputFormat`, with the values that are none of the formats. -/
inductive InputFormat where
  | yuv422Indiv8
  | yuv420Indiv8
  | yuv422Indiv16
  | yuv420Indiv16
  | yuyv422Interleaved
  | undefined
  deriving DecidableEq

/-- `OutputFormat`, with the values that are none of the formats. -/
inductive OutputFormat where
  | rgba8
  | rgb8
  | rgb5a1
  | rgb565
  | undefined
  deriving DecidableEq

structure ConversionConfiguration where
  inputFormat : InputFormat
  outputFormat : OutputFormat
  rotation : Rotation
  blockAlignment : BlockAlignment
  inputLineWidth : UInt16
  inputLines : UInt16
  coefficients : Nat → Int16
  alpha : UInt16
  srcY : ConversionBuffer
  srcU : ConversionBuffer
  srcV : ConversionBuffer
  srcYUYV : ConversionBuffer
  dst : ConversionBuffer

/-- A buffer after a unit was transferred. -/
def ConversionBuffer.advance (buf : ConversionBuffer) : ConversionBuffer :=
  { buf with
    address := buf.address + (buf.transferUnit.toUInt32 + buf.gap.toUInt32)
    imageSize := buf.imageSize - buf.transferUnit.toUInt32 }

/-! ### Receiving -/

/-- A unit of `ReceiveData`. -/
def receiveUnit (n : Nat) (memory : Nat → UInt8) (outputUnit output input : Nat) (share : List UInt8) :
    Except Stop (List UInt8) :=
  (List.range outputUnit).foldlM (fun share i =>
    if output + i < share.length then .ok (share.set (output + i) (memory (input + i * n)))
    else .error .overflow) share

/-- The loop of `ReceiveData`. -/
def receiveLoop (n : Nat) (memory : Nat → UInt8) (outputUnit : Nat) :
    Nat → Nat → Nat → Nat → List UInt8 → ConversionBuffer → Run (List UInt8 × ConversionBuffer)
  | 0, _, _, _, _, _ => none
  | fuel + 1, amount, output, input, share, buf =>
      if 0 < amount then
        match receiveUnit n memory outputUnit output input share with
        | .error e => some (.error e)
        | .ok share =>
            receiveLoop n memory outputUnit fuel (amount - outputUnit) (output + outputUnit)
              (input + (buf.transferUnit.toNat + buf.gap.toNat)) share buf.advance
      else some (.ok (share, buf))

/-- `ReceiveData`. The remainder in its assertion is by the unit. -/
def receiveData (fuel n : Nat) (memory : Nat → UInt8) (share : List UInt8) (buf : ConversionBuffer)
    (amountOfData : Nat) : Run (List UInt8 × ConversionBuffer) :=
  let outputUnit := buf.transferUnit.toNat / n
  if outputUnit = 0 then some (.error .divisionByZero)
  else if amountOfData % outputUnit ≠ 0 then some (.error .assertion)
  else receiveLoop n memory outputUnit fuel amountOfData 0 buf.address.toNat share buf

/-! ### Sending -/

/-- The bytes of a pixel in an output format. -/
def OutputFormat.encode (f : OutputFormat) (alpha : UInt8) (color : UInt32) : List UInt8 :=
  let colVec : Vec4 := ⟨(color >>> 24).toUInt8, (color >>> 16).toUInt8, (color >>> 8).toUInt8, alpha⟩
  match f with
  | .rgba8 => VideoCore.Color.encodeRGBA8 colVec
  | .rgb8 => VideoCore.Color.encodeRGB8 colVec
  | .rgb5a1 => VideoCore.Color.encodeRGB5A1 colVec
  | .rgb565 => VideoCore.Color.encodeRGB565 colVec
  | .undefined => []

/-- How far the output moves for a pixel. -/
def OutputFormat.bytesPerPixel : OutputFormat → Nat
  | .rgba8 => 4
  | .rgb8 => 3
  | .rgb5a1 => 2
  | .rgb565 => 2
  | .undefined => 0

/-- The pixels that are written until the end of a unit is reached. -/
def OutputFormat.pixelsPerUnit (f : OutputFormat) (transferUnit : Nat) : Nat :=
  (transferUnit + (f.bytesPerPixel - 1)) / f.bytesPerPixel

/-- Bytes that are written to memory. -/
def store (memory : Nat → UInt8) (address : Nat) (bytes : List UInt8) : Nat → UInt8 := fun i =>
  if address ≤ i ∧ i < address + bytes.length then bytes.getD (i - address) 0 else memory i

/-- What the loops of `SendData` change: the memory, the output pointer and the next pixel. -/
structure Sending where
  memory : Nat → UInt8
  output : Nat
  next : Nat

/-- A pixel of `SendData`. -/
def sendPixel (f : OutputFormat) (alpha : UInt8) (input : List UInt32) (s : Sending) :
    Except Stop Sending :=
  match input[s.next]? with
  | some color =>
      .ok ⟨store s.memory s.output (f.encode alpha color), s.output + f.bytesPerPixel, s.next + 1⟩
  | none => .error .overread

/-- A unit of `SendData`. -/
def sendUnit (f : OutputFormat) (alpha : UInt8) (input : List UInt32) (transferUnit : Nat)
    (s : Sending) : Except Stop Sending :=
  (List.range (f.pixelsPerUnit transferUnit)).foldlM (fun s _ => sendPixel f alpha input s) s

/-- The loop of `SendData`. -/
def sendLoop (f : OutputFormat) (alpha : UInt8) (input : List UInt32) :
    Nat → Int → Sending → ConversionBuffer → Run (Sending × ConversionBuffer)
  | 0, _, _, _ => none
  | fuel + 1, amount, s, buf =>
      if 0 < amount then
        match sendUnit f alpha input buf.transferUnit.toNat s with
        | .error e => some (.error e)
        | .ok t =>
            sendLoop f alpha input fuel (amount - (t.next - s.next : Nat))
              { t with output := t.output + buf.gap.toNat } buf.advance
      else some (.ok (s, buf))

def sendData (fuel : Nat) (f : OutputFormat) (alpha : UInt8) (memory : Nat → UInt8)
    (input : List UInt32) (buf : ConversionBuffer) (amountOfData : Nat) :
    Run ((Nat → UInt8) × ConversionBuffer) := do
  let r ← sendLoop f alpha input fuel amountOfData ⟨memory, buf.address.toNat, 0⟩ buf
  return (r.1.memory, r.2)

/-! ### The conversion of a strip -/

/-- The luma and chroma of a pixel, by the format of the input. -/
def InputFormat.components (f : InputFormat) (data : List UInt8) (width x y : Nat) : Int × Int × Int :=
  let inputY := fun i => ((data.getD i 0).toNat : Int)
  let inputU := fun i => ((data.getD (8 * width + i) 0).toNat : Int)
  let inputV := fun i => ((data.getD (8 * width + 8 * width / 2 + i) 0).toNat : Int)
  match f with
  | .yuv422Indiv8 | .yuv422Indiv16 =>
      (inputY (y * width + x), inputU ((y * width + x) / 2), inputV ((y * width + x) / 2))
  | .yuv420Indiv8 | .yuv420Indiv16 =>
      (inputY (y * width + x), inputU ((y / 2 * width + x) / 2), inputV ((y / 2 * width + x) / 2))
  | .yuyv422Interleaved =>
      (inputY ((y * width + x) * 2), inputY ((y * width + x / 2 * 2) * 2 + 1),
        inputY ((y * width + x / 2 * 2) * 2 + 3))
  | .undefined => (0, 0, 0)

/-- `std::clamp` to a byte. -/
def clampByte (v : Int) : UInt32 := UInt32.ofNat (max 0 (min 0xFF v)).toNat

/-- The color of a pixel of `ConvertYUVToRGB`. -/
def toRGB (coefficients : Nat → Int16) (yuv : Int × Int × Int) : UInt32 :=
  let c := fun i => (coefficients i).toInt
  let cY := c 0 * yuv.1
  let r := (cY + c 1 * yuv.2.2) / 2 ^ 3 + c 5 + 0x18
  let g := (cY - c 2 * yuv.2.2 - c 3 * yuv.2.1) / 2 ^ 3 + c 6 + 0x18
  let b := (cY + c 4 * yuv.2.1) / 2 ^ 3 + c 7 + 0x18
  clampByte (r / 2 ^ 5) <<< 24 ||| clampByte (g / 2 ^ 5) <<< 16 ||| clampByte (b / 2 ^ 5) <<< 8

/-- `ConvertYUVToRGB`. The lines of the tiles from `height` on stay as they are. -/
def convertYUVToRGB (f : InputFormat) (data : List UInt8) (tiles : List ImageTile) (width height : Nat)
    (coefficients : Nat → Int16) : List ImageTile :=
  tiles.mapIdx fun tile output =>
    output.mapIdx fun i old =>
      if i / 8 < height then toRGB coefficients (f.components data width (tile * 8 + i % 8) (i / 8))
      else old

/-- The bytes of the data buffer as words. -/
def wordsOf (data : List UInt8) : List UInt32 :=
  (List.range (data.length / 4)).map fun i =>
    (data.getD (4 * i) 0).toUInt32 ||| (data.getD (4 * i + 1) 0).toUInt32 <<< 8 |||
      (data.getD (4 * i + 2) 0).toUInt32 <<< 16 ||| (data.getD (4 * i + 3) 0).toUInt32 <<< 24

/-- What a conversion changes. -/
structure Conversion where
  cvt : ConversionConfiguration
  data : List UInt8
  tiles : List ImageTile
  tmpTile : ImageTile
  memory : Nat → UInt8

/-- A plane is received into its share of the data buffer. -/
def receivePlane (fuel n : Nat) (s : Conversion) (buf : ConversionBuffer) (place amount : Nat) :
    Run (List UInt8 × ConversionBuffer) :=
  match slice s.data place amount with
  | none => some (.error .overflow)
  | some share => do
      let r ← receiveData fuel n s.memory share buf amount
      return (overwrite s.data place r.1, r.2)

/-- The three planes of a strip, with the size of the chroma planes. -/
def receivePlanes (fuel n chroma : Nat) (s : Conversion) (rowDataSize : Nat) : Run Conversion := do
  let width := s.cvt.inputLineWidth.toNat
  let r ← receivePlane fuel n s s.cvt.srcY 0 rowDataSize
  let s := { s with data := r.1, cvt := { s.cvt with srcY := r.2 } }
  let r ← receivePlane fuel n s s.cvt.srcU (8 * width) chroma
  let s := { s with data := r.1, cvt := { s.cvt with srcU := r.2 } }
  let r ← receivePlane fuel n s s.cvt.srcV (8 * width + 8 * width / 2) chroma
  return { s with data := r.1, cvt := { s.cvt with srcV := r.2 } }

/-- The input of a strip. -/
def receiveStrip (fuel : Nat) (s : Conversion) (rowDataSize : Nat) : Run Conversion :=
  match s.cvt.inputFormat with
  | .yuv422Indiv8 => receivePlanes fuel 1 (rowDataSize / 2) s rowDataSize
  | .yuv420Indiv8 => receivePlanes fuel 1 (rowDataSize / 4) s rowDataSize
  | .yuv422Indiv16 => receivePlanes fuel 2 (rowDataSize / 2) s rowDataSize
  | .yuv420Indiv16 => receivePlanes fuel 2 (rowDataSize / 4) s rowDataSize
  | .yuyv422Interleaved => do
      let r ← receivePlane fuel 1 s s.cvt.srcYUYV 0 (rowDataSize * 2)
      return { s with data := r.1, cvt := { s.cvt with srcYUYV := r.2 } }
  | .undefined => some (.error .assertion)

/-- The output of a strip. -/
def sendStrip (fuel : Nat) (s : Conversion) (rowDataSize : Nat) : Run Conversion :=
  if s.cvt.outputFormat = .undefined then some (.error .assertion)
  else do
    let r ← sendData fuel s.cvt.outputFormat s.cvt.alpha.toUInt8 s.memory
      ((wordsOf s.data).take rowDataSize) s.cvt.dst rowDataSize
    return { s with memory := r.1, cvt := { s.cvt with dst := r.2 } }

/-- A strip of `PerformConversion`. -/
def convertStrip (fuel : Nat) (s : Conversion) (rowHeight : Nat) : Run Conversion := do
  let width := s.cvt.inputLineWidth.toNat
  let s ← receiveStrip fuel s (rowHeight * width)
  let tiles := convertYUVToRGB s.cvt.inputFormat s.data s.tiles width rowHeight s.cvt.coefficients
  match convertTiles s.cvt.rotation s.cvt.blockAlignment width rowHeight tiles s.tmpTile
      (wordsOf s.data) with
  | none => some (.error .overflow)
  | some words =>
      sendStrip fuel { s with tiles := tiles, data := words.flatMap bytesOfU32 } (rowHeight * width)

/-- The heights of the strips of an image. -/
def stripHeights (inputLines : Nat) : List Nat :=
  (List.range ((inputLines + 7) / 8)).map fun i => min (inputLines - 8 * i) 8

/-- `PerformConversion`. What the new buffers hold at first does not matter. -/
def performConversion (fuel : Nat) (cvt : ConversionConfiguration) (memory : Nat → UInt8) :
    Run Conversion :=
  let width := cvt.inputLineWidth.toNat
  if width % 8 ≠ 0 ∨ (cvt.blockAlignment = .block8x8 ∧ cvt.inputLines.toNat % 8 ≠ 0) ∨
      1024 / 8 < width / 8 then some (.error .assertion)
  else
    (stripHeights cvt.inputLines.toNat).foldlM (convertStrip fuel)
      { cvt := cvt
        data := List.replicate (width * 8 * 4) 0
        tiles := List.replicate (width / 8) (List.replicate tileSize 0)
        tmpTile := List.replicate tileSize 0
        memory := memory }

/-! ### Verdicts -/

/-- What comes of a transfer: it succeeds, its assertion fails, or it is undefined or never ends. -/
inductive Verdict where
  | passes
  | stops
  | fails
  deriving DecidableEq

/-- What comes of two computations in a row. -/
def Verdict.andThen : Verdict → Verdict → Verdict
  | .passes, w => w
  | v, _ => v

/-- A transfer with the unit of its buffer and the amount it is asked for. -/
inductive Transfer where
  | receive (n transferUnit amount : Nat)
  | send (f : OutputFormat) (transferUnit amount : Nat)
  | unreachable

/-- What comes of a transfer, by its numbers. -/
def Transfer.verdict : Transfer → Verdict
  | .receive n transferUnit amount =>
      if transferUnit / n = 0 then .fails
      else if amount % (transferUnit / n) ≠ 0 then .stops
      else .passes
  | .send f transferUnit amount =>
      if amount = 0 ∨ (transferUnit ≠ 0 ∧ f.pixelsPerUnit transferUnit ∣ amount) then .passes
      else .fails
  | .unreachable => .stops

/-- What comes of transfers in a row. -/
def verdictOf (l : List Transfer) : Verdict :=
  l.foldr (fun transfer rest => transfer.verdict.andThen rest) .passes

/-- The transfers of a strip. -/
def transfersOf (cvt : ConversionConfiguration) (rowHeight : Nat) : List Transfer :=
  let rowDataSize := rowHeight * cvt.inputLineWidth.toNat
  let planes := fun n chroma =>
    [Transfer.receive n cvt.srcY.transferUnit.toNat rowDataSize,
      .receive n cvt.srcU.transferUnit.toNat chroma, .receive n cvt.srcV.transferUnit.toNat chroma]
  let received := match cvt.inputFormat with
    | .yuv422Indiv8 => planes 1 (rowDataSize / 2)
    | .yuv420Indiv8 => planes 1 (rowDataSize / 4)
    | .yuv422Indiv16 => planes 2 (rowDataSize / 2)
    | .yuv420Indiv16 => planes 2 (rowDataSize / 4)
    | .yuyv422Interleaved => [.receive 1 cvt.srcYUYV.transferUnit.toNat (rowDataSize * 2)]
    | .undefined => [.unreachable]
  let sent :=
    if cvt.outputFormat = .undefined then Transfer.unreachable
    else .send cvt.outputFormat cvt.dst.transferUnit.toNat rowDataSize
  received ++ [sent]

/-- The transfers of a conversion. -/
def allTransfers (cvt : ConversionConfiguration) : List Transfer :=
  (stripHeights cvt.inputLines.toNat).flatMap (transfersOf cvt)

/-- A result that agrees with a verdict, and meets a condition if there is a value. -/
def Agrees {α : Type} (v : Verdict) (P : α → Prop) : Except Stop α → Prop
  | .ok a => v = .passes ∧ P a
  | .error .assertion => v = .stops
  | .error .divisionByZero | .error .overflow | .error .overread => v = .fails

/-- Every result agrees with the verdict, and there is one unless the verdict is that it fails. -/
structure Decides {α : Type} (bound : Nat) (v : Verdict) (P : α → Prop) (x : Nat → Run α) : Prop where
  agrees : ∀ fuel r, x fuel = some r → Agrees v P r
  ends : v ≠ .fails → ∀ fuel, bound < fuel → x fuel ≠ none

section Verdicts

variable {α β : Type} {bound : Nat} {v w : Verdict} {P : α → Prop} {Q : β → Prop} {x : Nat → Run α}
  {y : α → Nat → Run β}

theorem decides_ok {a : α} (h : P a) : Decides bound .passes P fun _ => some (.ok a) where
  agrees := by
    rintro fuel r hr
    obtain rfl := Option.some.inj hr
    exact ⟨rfl, h⟩
  ends := fun _ _ _ => Option.some_ne_none _

theorem decides_assertion : Decides bound .stops P fun _ => some (.error .assertion) where
  agrees := by
    rintro fuel r hr
    obtain rfl := Option.some.inj hr
    rfl
  ends := fun _ _ _ => Option.some_ne_none _

theorem Decides.bind (hx : Decides bound v P x) (hy : ∀ a, P a → Decides bound w Q (y a)) :
    Decides bound (v.andThen w) Q fun fuel => x fuel >>= fun a => y a fuel where
  agrees := by
    intro fuel r hr
    cases hxr : x fuel with
    | none =>
        rw [hxr] at hr
        cases hr
    | some result =>
        have hagrees := hx.agrees fuel result hxr
        rw [hxr] at hr
        cases result with
        | ok a =>
            obtain ⟨rfl, ha⟩ := hagrees
            exact (hy a ha).agrees fuel r hr
        | error e =>
            obtain rfl := Option.some.inj hr
            cases e <;> obtain rfl := hagrees <;> rfl
  ends := by
    intro hv fuel hfuel
    have hne : v ≠ .fails := by
      rintro rfl
      exact hv rfl
    obtain ⟨result, hxr⟩ := Option.ne_none_iff_exists'.mp (hx.ends hne fuel hfuel)
    have hagrees := hx.agrees fuel result hxr
    rw [hxr]
    cases result with
    | ok a =>
        obtain ⟨rfl, ha⟩ := hagrees
        exact (hy a ha).ends hv fuel hfuel
    | error e => exact Option.some_ne_none _

theorem Decides.map (hx : Decides bound v P x) {f : α → β} (hf : ∀ a, P a → Q (f a)) :
    Decides bound v Q fun fuel => x fuel >>= fun a => pure (f a) := by
  have hbind := hx.bind (y := fun a _ => pure (f a)) fun a ha => decides_ok (hf a ha)
  cases v <;> exact hbind

theorem verdictOf_append (l m : List Transfer) :
    verdictOf (l ++ m) = (verdictOf l).andThen (verdictOf m) := by
  induction l with
  | nil => rfl
  | cons transfer l ih =>
      change transfer.verdict.andThen (verdictOf (l ++ m)) = _
      rw [ih]
      change _ = (transfer.verdict.andThen (verdictOf l)).andThen (verdictOf m)
      cases transfer.verdict <;> rfl

theorem verdictOf_singleton (t : Transfer) : verdictOf [t] = t.verdict := by
  change t.verdict.andThen .passes = _
  cases t.verdict <;> rfl

end Verdicts

/-! ### A transfer -/

section Transfers

theorem exists_foldlM_ok {σ ι : Type} {f : σ → ι → Except Stop σ} {I : σ → Prop} {l : List ι}
    (h : ∀ s, ∀ i ∈ l, I s → ∃ t, f s i = .ok t ∧ I t) {s : σ} (hs : I s) :
    ∃ t, l.foldlM f s = .ok t ∧ I t := by
  induction l generalizing s with
  | nil => exact ⟨s, rfl, hs⟩
  | cons i l ih =>
      obtain ⟨t, ht, hI⟩ := h s i List.mem_cons_self hs
      obtain ⟨u, hu, hI'⟩ := ih (fun s j hj => h s j (List.mem_cons_of_mem _ hj)) hI
      refine ⟨u, ?_, hI'⟩
      rw [List.foldlM_cons, ht]
      exact hu

variable {n outputUnit : Nat} {memory : Nat → UInt8}

variable (n memory) in
theorem receiveUnit_ok {share : List UInt8} {output : Nat} (input : Nat)
    (h : output + outputUnit ≤ share.length) :
    ∃ out, receiveUnit n memory outputUnit output input share = .ok out ∧ out.length = share.length := by
  refine exists_foldlM_ok (fun s i hi hs => ?_) rfl
  have hlt : output + i < s.length := by
    have := List.mem_range.mp hi
    omega
  exact ⟨_, if_pos hlt, List.length_set.trans hs⟩

variable (n memory) in
/-- By induction on the iterations. A share is filled unit by unit. -/
theorem receiveLoop_spec (hpos : 0 < outputUnit) (fuel : Nat) :
    ∀ (amount output input : Nat) (share : List UInt8) (buf : ConversionBuffer), outputUnit ∣ amount →
      output + amount ≤ share.length →
      (∃ r, receiveLoop n memory outputUnit fuel amount output input share buf = some (.ok r) ∧
          r.1.length = share.length ∧ r.2.transferUnit = buf.transferUnit) ∨
        receiveLoop n memory outputUnit fuel amount output input share buf = none ∧ fuel ≤ amount := by
  induction fuel with
  | zero => exact fun amount _ _ _ _ _ _ => Or.inr ⟨rfl, Nat.zero_le amount⟩
  | succ fuel ih =>
      intro amount output input share buf hdvd hshare
      rw [receiveLoop]
      split_ifs with hamount
      · have hle := Nat.le_of_dvd hamount hdvd
        obtain ⟨out, hout, hlength⟩ := receiveUnit_ok n memory input
          (Nat.le_trans (Nat.add_le_add_left hle output) hshare)
        simp only [hout]
        rcases ih (amount - outputUnit) (output + outputUnit) (input + (buf.transferUnit.toNat +
          buf.gap.toNat)) out buf.advance (Nat.dvd_sub hdvd (dvd_refl _)) (by omega) with
          ⟨r, hr, hlength', hunit⟩ | ⟨hnone, hfuel⟩
        · exact Or.inl ⟨r, hr, hlength'.trans hlength, hunit⟩
        · exact Or.inr ⟨hnone, by omega⟩
      · exact Or.inl ⟨(share, buf), rfl, rfl, rfl⟩

theorem receiveData_decides {bound amount : Nat} {share : List UInt8} {buf : ConversionBuffer}
    (hbound : amount ≤ bound) (hshare : share.length = amount) :
    Decides bound (Transfer.verdict (.receive n buf.transferUnit.toNat amount))
      (fun r : List UInt8 × ConversionBuffer =>
        r.1.length = amount ∧ r.2.transferUnit = buf.transferUnit)
      fun fuel => receiveData fuel n memory share buf amount := by
  rw [Transfer.verdict]
  split_ifs with hzero hmod
  · refine ⟨fun fuel r hr => ?_, fun h => absurd rfl h⟩
    rw [receiveData, if_pos hzero] at hr
    obtain rfl := Option.some.inj hr
    rfl
  · refine ⟨fun fuel r hr => ?_, fun _ fuel _ => ?_⟩
    · rw [receiveData, if_neg hzero, if_pos hmod] at hr
      obtain rfl := Option.some.inj hr
      rfl
    · rw [receiveData, if_neg hzero, if_pos hmod]
      exact Option.some_ne_none _
  · have hloop (fuel : Nat) := receiveLoop_spec n memory (Nat.pos_of_ne_zero hzero)
      fuel amount 0 buf.address.toNat share buf (Nat.dvd_of_mod_eq_zero (not_not.mp hmod))
      (by rw [Nat.zero_add, hshare])
    have hdata (fuel : Nat) : receiveData fuel n memory share buf amount =
        receiveLoop n memory (buf.transferUnit.toNat / n) fuel amount 0 buf.address.toNat share buf := by
      rw [receiveData, if_neg hzero, if_neg hmod]
    refine ⟨fun fuel r hr => ?_, fun _ fuel hfuel hnone => ?_⟩
    · rw [hdata] at hr
      rcases hloop fuel with ⟨r', hr', hlength, hunit⟩ | ⟨hnone, -⟩
      · rw [hr'] at hr
        obtain rfl := Option.some.inj hr
        exact ⟨rfl, hlength.trans hshare, hunit⟩
      · rw [hnone] at hr
        cases hr
    · rw [hdata] at hnone
      rcases hloop fuel with ⟨r', hr', -⟩ | ⟨-, hle⟩
      · rw [hr'] at hnone
        cases hnone
      · omega

variable {f : OutputFormat} {alpha : UInt8} {input : List UInt32}

theorem foldlM_sendPixel (l : List Nat) : ∀ s : Sending, s.next ≤ input.length →
    (s.next + l.length ≤ input.length →
      ∃ t, l.foldlM (fun s _ => sendPixel f alpha input s) s = .ok t ∧ t.next = s.next + l.length) ∧
    (input.length < s.next + l.length →
      l.foldlM (fun s _ => sendPixel f alpha input s) s = .error .overread) := by
  induction l with
  | nil =>
      intro s hs
      exact ⟨fun _ => ⟨s, rfl, rfl⟩, fun hlt => absurd hs (Nat.not_le.mpr hlt)⟩
  | cons i l ih =>
      intro s hs
      rw [List.length_cons, List.foldlM_cons, sendPixel]
      rcases Nat.lt_or_ge s.next input.length with hlt | hge
      · rw [List.getElem?_eq_getElem hlt]
        obtain ⟨hok, herror⟩ := ih ⟨store s.memory s.output (f.encode alpha input[s.next]),
          s.output + f.bytesPerPixel, s.next + 1⟩ hlt
        refine ⟨fun hle => ?_, fun hlt => ?_⟩
        · obtain ⟨t, ht, hnext⟩ := hok (by simp only; omega)
          exact ⟨t, ht, hnext.trans (by simp only; omega)⟩
        · exact herror (by simp only; omega)
      · rw [List.getElem?_eq_none hge]
        exact ⟨fun hle => by omega, fun _ => rfl⟩

theorem sendUnit_spec {transferUnit : Nat} {s : Sending} (hs : s.next ≤ input.length) :
    (s.next + f.pixelsPerUnit transferUnit ≤ input.length →
      ∃ t, sendUnit f alpha input transferUnit s = .ok t ∧
        t.next = s.next + f.pixelsPerUnit transferUnit) ∧
    (input.length < s.next + f.pixelsPerUnit transferUnit →
      sendUnit f alpha input transferUnit s = .error .overread) := by
  have hloop := @foldlM_sendPixel f alpha input (List.range (f.pixelsPerUnit transferUnit)) s hs
  rwa [List.length_range] at hloop

/-- By induction on the iterations, with the pixels that are left. -/
theorem sendLoop_spec (fuel : Nat) : ∀ (amount : Nat) (s : Sending) (buf : ConversionBuffer),
    s.next + amount = input.length →
    let count := f.pixelsPerUnit buf.transferUnit.toNat
    (0 < count → count ∣ amount →
      (∃ r, sendLoop f alpha input fuel amount s buf = some (.ok r) ∧
          r.2.transferUnit = buf.transferUnit) ∨
        sendLoop f alpha input fuel amount s buf = none ∧ fuel ≤ amount) ∧
    (¬ count ∣ amount → sendLoop f alpha input fuel amount s buf = none ∨
      sendLoop f alpha input fuel amount s buf = some (.error .overread)) := by
  induction fuel with
  | zero => exact fun amount _ _ _ => ⟨fun _ _ => Or.inr ⟨rfl, Nat.zero_le amount⟩, fun _ => Or.inl rfl⟩
  | succ fuel ih =>
      intro amount s buf hleft count
      obtain ⟨hok, herror⟩ := @sendUnit_spec f alpha input buf.transferUnit.toNat s (by omega)
      rcases Nat.eq_zero_or_pos amount with rfl | hamount
      · refine ⟨fun _ _ => Or.inl ⟨(s, buf), ?_, rfl⟩, fun hdvd => absurd (dvd_zero count) hdvd⟩
        rw [sendLoop, if_neg (by simp)]
      · rw [sendLoop, if_pos (Int.natCast_pos.mpr hamount)]
        rcases Nat.lt_or_ge amount count with hlt | hge
        · have hover := herror (by omega)
          rw [hover]
          exact ⟨fun _ hdvd => absurd (Nat.le_of_dvd hamount hdvd) (Nat.not_le.mpr hlt),
            fun _ => Or.inr rfl⟩
        · obtain ⟨t, ht, hnext⟩ := hok (by omega)
          have hamount' : (amount : Int) - ((t.next - s.next : Nat) : Int) =
              ((amount - count : Nat) : Int) := by
            rw [hnext, Nat.add_sub_cancel_left]
            exact (Int.ofNat_sub hge).symm
          obtain ⟨hpass, hfail⟩ := ih (amount - count) { t with output := t.output + buf.gap.toNat }
            buf.advance (by simp only [hnext]; omega)
          rw [ht]
          simp only [hamount']
          refine ⟨fun hpos hdvd => ?_, fun hdvd => ?_⟩
          · rcases hpass hpos (Nat.dvd_sub hdvd (dvd_refl _)) with hr | ⟨hnone, hfuel⟩
            · exact Or.inl hr
            · exact Or.inr ⟨hnone, by omega⟩
          · exact hfail fun hdvd' => hdvd ((Nat.dvd_sub_iff_left hge (dvd_refl _)).mp hdvd')

theorem bytesPerPixel_pos (hf : f ≠ .undefined) : 0 < f.bytesPerPixel := by
  cases f with
  | undefined => exact absurd rfl hf
  | rgba8 | rgb8 | rgb5a1 | rgb565 => decide

/-- A unit has a pixel exactly if it has a byte. -/
theorem pixelsPerUnit_pos (hf : f ≠ .undefined) (transferUnit : Nat) :
    0 < f.pixelsPerUnit transferUnit ↔ transferUnit ≠ 0 := by
  have hpos := bytesPerPixel_pos hf
  rw [OutputFormat.pixelsPerUnit, Nat.div_pos_iff]
  omega

theorem sendData_decides (hf : f ≠ .undefined) {bound amount : Nat} {buf : ConversionBuffer}
    (hbound : amount ≤ bound) (hinput : input.length = amount) :
    Decides bound (Transfer.verdict (.send f buf.transferUnit.toNat amount))
      (fun r : (Nat → UInt8) × ConversionBuffer => r.2.transferUnit = buf.transferUnit)
      fun fuel => sendData fuel f alpha memory input buf amount := by
  have hloop (fuel : Nat) := @sendLoop_spec f alpha input fuel amount ⟨memory, buf.address.toNat, 0⟩ buf
    ((Nat.zero_add _).trans hinput.symm)
  have hloops : Decides bound (Transfer.verdict (.send f buf.transferUnit.toNat amount))
      (fun r : Sending × ConversionBuffer => r.2.transferUnit = buf.transferUnit)
      fun fuel => sendLoop f alpha input fuel amount ⟨memory, buf.address.toNat, 0⟩ buf := by
    rw [Transfer.verdict]
    split_ifs with hpasses
    · have hends (fuel : Nat) : (∃ r, sendLoop f alpha input fuel amount ⟨memory, buf.address.toNat, 0⟩
            buf = some (.ok r) ∧ r.2.transferUnit = buf.transferUnit) ∨
          sendLoop f alpha input fuel amount ⟨memory, buf.address.toNat, 0⟩ buf = none ∧
            fuel ≤ amount := by
        rcases hpasses with rfl | ⟨hunit, hdvd⟩
        · cases fuel with
          | zero => exact Or.inr ⟨rfl, Nat.le_refl 0⟩
          | succ fuel => exact Or.inl ⟨_, if_neg (Int.lt_irrefl 0), rfl⟩
        · exact (hloop fuel).1 ((pixelsPerUnit_pos hf _).mpr hunit) hdvd
      refine ⟨fun fuel r hr => ?_, fun _ fuel hfuel hnone => ?_⟩
      · rcases hends fuel with ⟨r', hr', hunit⟩ | ⟨hnone, -⟩
        · rw [hr'] at hr
          obtain rfl := Option.some.inj hr
          exact ⟨rfl, hunit⟩
        · rw [hnone] at hr
          cases hr
      · rcases hends fuel with ⟨r', hr', -⟩ | ⟨-, hle⟩
        · rw [hr'] at hnone
          cases hnone
        · omega
    · have hdvd : ¬ f.pixelsPerUnit buf.transferUnit.toNat ∣ amount := by
        intro hdvd
        refine hpasses (or_iff_not_imp_left.mpr fun hamount => ⟨fun hunit => hamount ?_, hdvd⟩)
        have hzero := Nat.eq_zero_of_not_pos fun hpos => (pixelsPerUnit_pos hf _).mp hpos hunit
        rw [hzero] at hdvd
        exact Nat.eq_zero_of_zero_dvd hdvd
      refine ⟨fun fuel r hr => ?_, fun h => absurd rfl h⟩
      rcases (hloop fuel).2 hdvd with hnone | hover
      · rw [hnone] at hr
        cases hr
      · rw [hover] at hr
        obtain rfl := Option.some.inj hr
        rfl
  exact hloops.map fun r hr => hr

end Transfers

/-! ### A strip -/

/-- What the transfers of a strip are taken from. -/
structure SameSettings (cvt cvt' : ConversionConfiguration) : Prop where
  inputFormat : cvt'.inputFormat = cvt.inputFormat
  outputFormat : cvt'.outputFormat = cvt.outputFormat
  alignment : cvt'.blockAlignment = cvt.blockAlignment
  width : cvt'.inputLineWidth = cvt.inputLineWidth
  unitY : cvt'.srcY.transferUnit = cvt.srcY.transferUnit
  unitU : cvt'.srcU.transferUnit = cvt.srcU.transferUnit
  unitV : cvt'.srcV.transferUnit = cvt.srcV.transferUnit
  unitYUYV : cvt'.srcYUYV.transferUnit = cvt.srcYUYV.transferUnit
  unitDst : cvt'.dst.transferUnit = cvt.dst.transferUnit

/-- The buffers of a conversion have the sizes of its configuration. -/
structure Steady (cvt : ConversionConfiguration) (s : Conversion) : Prop where
  settings : SameSettings cvt s.cvt
  data : s.data.length = cvt.inputLineWidth.toNat * 8 * 4
  tiles : s.tiles.length = cvt.inputLineWidth.toNat / 8
  tile : ∀ tile ∈ s.tiles, tile.length = tileSize
  tmpTile : s.tmpTile.length = tileSize

section Strip

variable {cvt : ConversionConfiguration} {s : Conversion} {bound n : Nat}

theorem receivePlane_decides {buf : ConversionBuffer} {place amount : Nat} (hbound : amount ≤ bound)
    (hplace : place + amount ≤ s.data.length) :
    Decides bound (Transfer.verdict (.receive n buf.transferUnit.toNat amount))
      (fun r : List UInt8 × ConversionBuffer =>
        r.1.length = s.data.length ∧ r.2.transferUnit = buf.transferUnit)
      fun fuel => receivePlane fuel n s buf place amount := by
  have hslice : slice s.data place amount = some ((s.data.drop place).take amount) :=
    slice_eq_some.mpr ⟨hplace, rfl⟩
  have hlength := length_of_slice hslice
  simp only [receivePlane, hslice]
  refine (receiveData_decides hbound hlength).map fun r hr => ⟨?_, hr.2⟩
  exact length_overwrite (hr.1.symm ▸ hplace)

theorem verdictOf_cons (t : Transfer) (l : List Transfer) :
    verdictOf (t :: l) = t.verdict.andThen (verdictOf l) := rfl

theorem receivePlanes_decides (hs : Steady cvt s) {chroma rowDataSize : Nat}
    (hrow : rowDataSize ≤ 8 * cvt.inputLineWidth.toNat) (hchroma : chroma ≤ rowDataSize / 2)
    (hbound : rowDataSize ≤ bound) :
    Decides bound
      (verdictOf [.receive n cvt.srcY.transferUnit.toNat rowDataSize,
        .receive n cvt.srcU.transferUnit.toNat chroma, .receive n cvt.srcV.transferUnit.toNat chroma])
      (Steady cvt) fun fuel => receivePlanes fuel n chroma s rowDataSize := by
  have hdata := hs.data
  simp only [receivePlanes, hs.settings.width, verdictOf_cons, ← hs.settings.unitY,
    ← hs.settings.unitU, ← hs.settings.unitV]
  refine Decides.bind (receivePlane_decides hbound (by omega)) fun r hr => ?_
  refine Decides.bind (receivePlane_decides (by omega) (by simp only [hr.1]; omega)) fun r' hr' => ?_
  refine Decides.bind (receivePlane_decides (by omega) (by simp only [hr'.1, hr.1]; omega))
    fun r'' hr'' => decides_ok ?_
  exact
    { settings :=
        { hs.settings with
          width := rfl
          unitY := hr.2.trans hs.settings.unitY
          unitU := hr'.2.trans hs.settings.unitU
          unitV := hr''.2.trans hs.settings.unitV }
      data := hr''.1.trans (hr'.1.trans (hr.1.trans hs.data))
      tiles := hs.tiles
      tile := hs.tile
      tmpTile := hs.tmpTile }

/-- What the transfers that a strip receives come to. -/
def receives (cvt : ConversionConfiguration) (rowHeight : Nat) : List Transfer :=
  (transfersOf cvt rowHeight).dropLast

/-- The transfer that a strip sends. -/
def sends (cvt : ConversionConfiguration) (rowHeight : Nat) : Transfer :=
  if cvt.outputFormat = .undefined then .unreachable
  else .send cvt.outputFormat cvt.dst.transferUnit.toNat (rowHeight * cvt.inputLineWidth.toNat)

theorem transfersOf_eq (cvt : ConversionConfiguration) (rowHeight : Nat) :
    transfersOf cvt rowHeight = receives cvt rowHeight ++ [sends cvt rowHeight] := by
  rw [receives, transfersOf, sends, List.dropLast_concat]

theorem receiveStrip_decides (hs : Steady cvt s) {rowHeight : Nat} (hheight : rowHeight ≤ 8)
    (hbound : 16 * cvt.inputLineWidth.toNat ≤ bound) :
    Decides bound (verdictOf (receives cvt rowHeight)) (Steady cvt)
      fun fuel => receiveStrip fuel s (rowHeight * cvt.inputLineWidth.toNat) := by
  have hrow : rowHeight * cvt.inputLineWidth.toNat ≤ 8 * cvt.inputLineWidth.toNat :=
    Nat.mul_le_mul_right _ hheight
  have hdata := hs.data
  simp only [receiveStrip, receives, transfersOf, List.dropLast_concat, hs.settings.inputFormat]
  cases hformat : cvt.inputFormat with
  | yuv422Indiv8 => exact receivePlanes_decides hs hrow (Nat.le_refl _) (by omega)
  | yuv420Indiv8 => exact receivePlanes_decides hs hrow (by omega) (by omega)
  | yuv422Indiv16 => exact receivePlanes_decides hs hrow (Nat.le_refl _) (by omega)
  | yuv420Indiv16 => exact receivePlanes_decides hs hrow (by omega) (by omega)
  | yuyv422Interleaved =>
      simp only [verdictOf_singleton, ← hs.settings.unitYUYV]
      refine (receivePlane_decides (by omega) (by omega)).map fun r hr => ?_
      exact
        { settings :=
            { hs.settings with
              inputFormat := hformat.symm
              unitYUYV := hr.2.trans hs.settings.unitYUYV }
          data := hr.1.trans hs.data
          tiles := hs.tiles
          tile := hs.tile
          tmpTile := hs.tmpTile }
  | undefined => exact decides_assertion

theorem sendStrip_decides (hs : Steady cvt s) {rowHeight : Nat} (hheight : rowHeight ≤ 8)
    (hbound : 16 * cvt.inputLineWidth.toNat ≤ bound) :
    Decides bound (verdictOf [sends cvt rowHeight]) (Steady cvt)
      fun fuel => sendStrip fuel s (rowHeight * cvt.inputLineWidth.toNat) := by
  have hrow : rowHeight * cvt.inputLineWidth.toNat ≤ 8 * cvt.inputLineWidth.toNat :=
    Nat.mul_le_mul_right _ hheight
  have hdata := hs.data
  simp only [sendStrip, sends, verdictOf_singleton, hs.settings.outputFormat, ← hs.settings.unitDst]
  split_ifs with hformat
  · exact decides_assertion
  · have hlength : ((wordsOf s.data).take (rowHeight * cvt.inputLineWidth.toNat)).length =
        rowHeight * cvt.inputLineWidth.toNat := by
      rw [List.length_take, wordsOf, List.length_map, List.length_range, min_eq_left]
      omega
    refine (sendData_decides hformat (by omega) hlength).map fun r hr => ?_
    exact
      { settings :=
          { hs.settings with
            outputFormat := rfl
            unitDst := hr.trans hs.settings.unitDst }
        data := hs.data
        tiles := hs.tiles
        tile := hs.tile
        tmpTile := hs.tmpTile }

theorem convertYUVToRGB_lengths (f : InputFormat) (data : List UInt8) (tiles : List ImageTile)
    (width height : Nat) (c : Nat → Int16) (htiles : ∀ tile ∈ tiles, tile.length = tileSize) :
    (convertYUVToRGB f data tiles width height c).length = tiles.length ∧
      ∀ tile ∈ convertYUVToRGB f data tiles width height c, tile.length = tileSize := by
  refine ⟨List.length_mapIdx, fun tile htile => ?_⟩
  obtain ⟨i, hi, rfl⟩ := List.mem_mapIdx.mp htile
  rw [List.length_mapIdx]
  exact htiles _ (List.getElem_mem hi)

/-- The height of a strip that the code works on. -/
structure StripHeight (cvt : ConversionConfiguration) (rowHeight : Nat) : Prop where
  pos : 0 < rowHeight
  le : rowHeight ≤ 8
  block : cvt.blockAlignment = .block8x8 → rowHeight = 8

theorem convertStrip_decides (hs : Steady cvt s) {rowHeight : Nat} (hheight : StripHeight cvt rowHeight)
    (hwidth : cvt.inputLineWidth.toNat % 8 = 0) (hbound : 16 * cvt.inputLineWidth.toNat ≤ bound) :
    Decides bound (verdictOf (transfersOf cvt rowHeight)) (Steady cvt)
      fun fuel => convertStrip fuel s rowHeight := by
  have hwidth' : cvt.inputLineWidth.toNat / 8 * 8 = cvt.inputLineWidth.toNat := by omega
  simp only [transfersOf_eq, verdictOf_append, convertStrip, hs.settings.width]
  refine Decides.bind (receiveStrip_decides hs hheight.le hbound) fun t ht => ?_
  obtain ⟨hlength, htile⟩ := convertYUVToRGB_lengths t.cvt.inputFormat t.data t.tiles
    cvt.inputLineWidth.toNat rowHeight t.cvt.coefficients ht.tile
  have hwords : (wordsOf t.data).length = cvt.inputLineWidth.toNat * 8 := by
    rw [wordsOf, List.length_map, List.length_range, ht.data]
    omega
  have hroom : (convertYUVToRGB t.cvt.inputFormat t.data t.tiles cvt.inputLineWidth.toNat rowHeight
      t.cvt.coefficients).length * 8 * rowHeight ≤ (wordsOf t.data).length := by
    rw [hlength, ht.tiles, hwidth', hwords]
    exact Nat.mul_le_mul_left _ hheight.le
  obtain ⟨out, hout, hpainted⟩ := convertTiles_painted t.cvt.rotation hheight.pos hheight.le
    (ht.settings.alignment ▸ hheight.block) htile ht.tmpTile hroom
  rw [hlength, ht.tiles, hwidth'] at hout
  simp only [hout]
  refine sendStrip_decides ?_ hheight.le hbound
  exact
    { settings := ht.settings
      data := by
        change (out.flatMap bytesOfU32).length = _
        rw [length_flatMap_width (w := 4) fun _ => rfl, hpainted.length, hwords]
        exact Nat.mul_comm ..
      tiles := hlength.trans ht.tiles
      tile := htile
      tmpTile := ht.tmpTile }

/-- By induction on the strips. -/
theorem foldlM_convertStrip_decides (hwidth : cvt.inputLineWidth.toNat % 8 = 0)
    (hbound : 16 * cvt.inputLineWidth.toNat ≤ bound) (heights : List Nat)
    (hheights : ∀ h ∈ heights, StripHeight cvt h) : ∀ s, Steady cvt s →
      Decides bound (verdictOf (heights.flatMap (transfersOf cvt))) (Steady cvt)
        fun fuel => heights.foldlM (convertStrip fuel) s := by
  induction heights with
  | nil => exact fun s hs => decides_ok hs
  | cons h heights ih =>
      intro s hs
      simp only [List.flatMap_cons, verdictOf_append, List.foldlM_cons]
      exact (convertStrip_decides hs (hheights h List.mem_cons_self) hwidth hbound).bind
        (ih fun h' hh' => hheights h' (List.mem_cons_of_mem h hh'))

theorem stripHeight_of_mem (hblock : cvt.blockAlignment = .block8x8 → cvt.inputLines.toNat % 8 = 0)
    {h : Nat} (hh : h ∈ stripHeights cvt.inputLines.toNat) : StripHeight cvt h := by
  obtain ⟨i, hi, rfl⟩ := List.mem_map.mp hh
  have hi := List.mem_range.mp hi
  refine ⟨by omega, by omega, fun ha => ?_⟩
  have hmod := hblock ha
  omega

end Strip

/-- A conversion of an image whose size the assertions accept. -/
structure Accepted (cvt : ConversionConfiguration) : Prop where
  width : cvt.inputLineWidth.toNat % 8 = 0
  max : cvt.inputLineWidth.toNat / 8 ≤ 1024 / 8
  block : cvt.blockAlignment = .block8x8 → cvt.inputLines.toNat % 8 = 0

theorem performConversion_decides {cvt : ConversionConfiguration} (h : Accepted cvt)
    (memory : Nat → UInt8) :
    Decides (16 * cvt.inputLineWidth.toNat) (verdictOf (allTransfers cvt)) (Steady cvt)
      fun fuel => performConversion fuel cvt memory := by
  have hassertions : ¬ (cvt.inputLineWidth.toNat % 8 ≠ 0 ∨
      (cvt.blockAlignment = .block8x8 ∧ cvt.inputLines.toNat % 8 ≠ 0) ∨
        1024 / 8 < cvt.inputLineWidth.toNat / 8) := by
    rintro (hwidth | ⟨ha, hlines⟩ | hmax)
    · exact hwidth h.width
    · exact hlines (h.block ha)
    · exact absurd h.max (Nat.not_le.mpr hmax)
  simp only [performConversion, if_neg hassertions]
  refine foldlM_convertStrip_decides h.width (Nat.le_refl _) _ (fun _ => stripHeight_of_mem h.block) _ ?_
  exact
    { settings := ⟨rfl, rfl, rfl, rfl, rfl, rfl, rfl, rfl, rfl⟩
      data := List.length_replicate
      tiles := List.length_replicate
      tile := fun tile htile => by
        rw [List.eq_of_mem_replicate htile, List.length_replicate]
      tmpTile := List.length_replicate }

/-- What a conversion may end in: it is done, or an assertion has stopped it. -/
def Harmless {α : Type} : Except Stop α → Prop
  | .ok _ => True
  | .error e => e = .assertion

theorem Decides.harmless_iff {α : Type} {bound : Nat} {v : Verdict} {P : α → Prop} {x : Nat → Run α}
    (hx : Decides bound v P x) : (∃ fuel r, x fuel = some r ∧ Harmless r) ↔ v ≠ .fails := by
  constructor
  · rintro ⟨fuel, r, hr, hharmless⟩ rfl
    have hagrees := hx.agrees fuel r hr
    cases r with
    | ok s => exact Verdict.noConfusion hagrees.1
    | error e =>
        obtain rfl := hharmless
        exact Verdict.noConfusion hagrees
  · intro hv
    obtain ⟨r, hr⟩ := Option.ne_none_iff_exists'.mp (hx.ends hv (bound + 1) (Nat.lt_succ_self _))
    have hagrees := hx.agrees _ r hr
    refine ⟨_, r, hr, ?_⟩
    cases r with
    | ok s => trivial
    | error e =>
        cases e with
        | assertion => rfl
        | divisionByZero | overflow | overread => exact absurd hagrees hv

/-- The transfers of a conversion come to their end, stay within their share of the data buffer
and never divide by zero exactly if none of those that are reached fails by its numbers. -/
theorem performConversion_safe_iff (cvt : ConversionConfiguration) (memory : Nat → UInt8)
    (hcvt : Accepted cvt) :
    (∃ fuel r, performConversion fuel cvt memory = some r ∧ Harmless r) ↔
      verdictOf (allTransfers cvt) ≠ .fails :=
  (performConversion_decides hcvt memory).harmless_iff

/-- An interleaved image of eight by eight pixels, with the units of its transfers. -/
def smallConversion (source dest : UInt16) : ConversionConfiguration where
  inputFormat := .yuyv422Interleaved
  outputFormat := .rgb8
  rotation := .none
  blockAlignment := .linear
  inputLineWidth := 8
  inputLines := 8
  coefficients := fun _ => 0
  alpha := 0
  srcY := ⟨0, 0, 0, 0⟩
  srcU := ⟨0, 0, 0, 0⟩
  srcV := ⟨0, 0, 0, 0⟩
  srcYUYV := ⟨0, 128, source, 0⟩
  dst := ⟨0, 192, dest, 0⟩

theorem smallConversion_accepted (source dest : UInt16) : Accepted (smallConversion source dest) where
  width := by
    change (8 : UInt16).toNat % 8 = 0
    decide
  max := by
    change (8 : UInt16).toNat / 8 ≤ 1024 / 8
    decide
  block := fun ha => BlockAlignment.noConfusion ha

theorem performConversion_safe_iff_lines :
    (∃ fuel r, performConversion fuel (smallConversion 16 24) (fun _ => 0) = some r ∧ Harmless r) ↔
      verdictOf (allTransfers (smallConversion 16 24)) ≠ .fails :=
  performConversion_safe_iff _ _ (smallConversion_accepted 16 24)

/-- A source unit of zero, a destination unit of zero, and one that is not a number of pixels
of the strip. -/
theorem performConversion_unsafe :
    (¬ ∃ fuel r, performConversion fuel (smallConversion 0 24) (fun _ => 0) = some r ∧ Harmless r) ∧
      (¬ ∃ fuel r, performConversion fuel (smallConversion 16 0) (fun _ => 0) = some r ∧ Harmless r) ∧
      ¬ ∃ fuel r, performConversion fuel (smallConversion 16 9) (fun _ => 0) = some r ∧ Harmless r := by
  have hharm (source dest : UInt16)
      (h : verdictOf (allTransfers (smallConversion source dest)) = .fails) :
      ¬ ∃ fuel r, performConversion fuel (smallConversion source dest) (fun _ => 0) = some r ∧
        Harmless r := fun hex =>
    (performConversion_decides (smallConversion_accepted source dest) _).harmless_iff.mp hex h
  exact ⟨hharm 0 24 (by decide), hharm 16 0 (by decide), hharm 16 9 (by decide)⟩

end Cytrus.Hw.Y2R
