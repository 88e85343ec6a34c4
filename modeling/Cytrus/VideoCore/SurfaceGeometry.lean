import Cytrus.Support.Grid
import Cytrus.VideoCore.PixelCodec

/-!
# The geometry of surfaces

A surface is a rectangle of pixels at each of its mip levels, and the levels
follow each other in memory. Intervals of addresses and rectangles of pixels
are computed from each other.

## Implementation notes

A division by zero, a failed assertion and a level that the array of offsets
does not have give no result.
-/

namespace Cytrus.VideoCore.Geometry

open Support

/-- `SurfaceParams`, without the fields that only the host uses. -/
structure SurfaceParams where
  addr : UInt32 := 0
  /-- `end`. -/
  stop : UInt32 := 0
  size : UInt32 := 0
  width : UInt32 := 0
  height : UInt32 := 0
  stride : UInt32 := 0
  levels : UInt32 := 1
  isTiled : Bool := false
  pixelFormat : SurfaceFormat
  type : SurfaceType := .invalid
  mipmapOffsets : Nat → UInt32 := fun _ => 0

def maxPicaLevels : Nat := 8

structure SurfaceInterval where
  lower : UInt32
  upper : UInt32
deriving DecidableEq

namespace SurfaceInterval

def isEmpty (i : SurfaceInterval) : Bool := i.upper ≤ i.lower

/-- `operator==`, for which all empty intervals are equal. -/
def equals (i j : SurfaceInterval) : Bool := (i.isEmpty && j.isEmpty) || i = j

/-- The addresses of an interval are all in another one. -/
def Within (i j : SurfaceInterval) : Prop := j.lower ≤ i.lower ∧ i.upper ≤ j.upper

end SurfaceInterval

/-- `Common::Rectangle<u32>`. -/
structure Rectangle where
  left : UInt32
  top : UInt32
  right : UInt32
  bottom : UInt32
deriving DecidableEq

/-- `std::abs`, of a difference as a signed integer. -/
def absolute (d : UInt32) : UInt32 := if d < 0x80000000 then d else -d

def Rectangle.getWidth (r : Rectangle) : UInt32 := absolute (r.right - r.left)

def Rectangle.getHeight (r : Rectangle) : UInt32 := absolute (r.bottom - r.top)

/-- The variables of the loops over the levels. -/
structure LevelCursor where
  levelWidth : UInt32
  levelHeight : UInt32
  offset : UInt32

namespace SurfaceParams

variable (s : SurfaceParams)

/-- `GetFormatBpp`. -/
def bpp : UInt32 := UInt32.ofNat s.pixelFormat.bpp

def pixelsInBytes (size : UInt32) : UInt32 := size * 8 / s.bpp

def bytesInPixels (pixels : UInt32) : UInt32 := pixels * s.bpp / 8

def getInterval : SurfaceInterval := ⟨s.addr, s.stop⟩

/-- A round of the loops of `CalculateMipLevelOffsets` and `CalculateSurfaceSize`. -/
def nextLevel (c : LevelCursor) : LevelCursor where
  levelWidth := c.levelWidth >>> 1
  levelHeight := c.levelHeight >>> 1
  offset := c.offset + s.bytesInPixels (c.levelWidth * c.levelHeight)

/-- The loops after so many rounds. -/
def levelCursor (offset : UInt32) (level : Nat) : LevelCursor :=
  s.nextLevel^[level] ⟨s.width, s.height, offset⟩

def calculateMipLevelOffsets : Nat → UInt32 := fun level =>
  if level < s.levels.toNat then (s.levelCursor s.addr level).offset else s.mipmapOffsets level

def calculateSurfaceSize : UInt32 := (s.levelCursor 0 s.levels.toNat).offset

/-- The pixels from the first to the last one of a single level. -/
def pixelSpan : UInt32 :=
  if s.isTiled then s.stride * 8 * (s.height / 8 - 1) + s.width * 8
  else s.stride * (s.height - 1) + s.width

def updateParams : Option SurfaceParams :=
  let s := { s with stride := if s.stride = 0 then s.width else s.stride, type := s.pixelFormat.type }
  if s.levels ≠ 1 then
    if s.stride = s.width ∧ s.levels.toNat ≤ maxPicaLevels then
      some { s with
        mipmapOffsets := s.calculateMipLevelOffsets
        size := s.calculateSurfaceSize
        stop := s.addr + s.calculateSurfaceSize }
    else none
  else
    some { s with
      mipmapOffsets := Function.update s.mipmapOffsets 0 s.addr
      size := s.bytesInPixels s.pixelSpan
      stop := s.addr + s.bytesInPixels s.pixelSpan }

/-- The loop of `LevelOf`, from a level down. -/
def levelFrom (levelAddr : UInt32) : Nat → Nat
  | 0 => 0
  | level + 1 => if levelAddr < s.mipmapOffsets (level + 1) then levelFrom levelAddr level else level + 1

def levelOf (levelAddr : UInt32) : Nat :=
  if levelAddr < s.addr ∨ s.stop < levelAddr then 0 else s.levelFrom levelAddr (s.levels.toNat - 1)

def levelInterval (level : Nat) : SurfaceInterval :=
  ⟨s.mipmapOffsets level,
    if level = s.levels.toNat - 1 then s.stop else s.mipmapOffsets (level + 1)⟩

def getSubRect (sub : SurfaceParams) : Option Rectangle :=
  let level := s.levelOf sub.addr
  let beginPixelIndex := s.pixelsInBytes (sub.addr - s.mipmapOffsets level)
  let strideLod := s.stride >>> UInt32.ofNat level
  if ¬ (s.stride = s.width ∨ level = 0) then none
  else if s.isTiled then
    if strideLod * 8 = 0 then none
    else
      let x0 := beginPixelIndex % (strideLod * 8) / 8
      let y0 := beginPixelIndex / (strideLod * 8) * 8
      let heightLod := s.height >>> UInt32.ofNat level
      some ⟨x0, heightLod - y0, x0 + sub.width, heightLod - (y0 + sub.height)⟩
  else if strideLod = 0 then none
  else
    let x0 := beginPixelIndex % strideLod
    let y0 := beginPixelIndex / strideLod
    some ⟨x0, y0 + sub.height, x0 + sub.width, y0⟩

/-- The bytes of a tile, or of a pixel if the surface is linear. -/
def tiledAlignment : UInt32 := s.bytesInPixels (if s.isTiled then 64 else 1)

def tiledSize : UInt32 := if s.isTiled then 8 else 1

def strideTiledBytes (level : Nat) : UInt32 :=
  s.bytesInPixels ((s.stride >>> UInt32.ofNat level) * s.tiledSize)

def canSubRect (sub : SurfaceParams) : Option Bool :=
  let level := s.levelOf sub.addr
  if s.addr ≤ sub.addr ∧ sub.stop ≤ s.stop ∧ sub.pixelFormat = s.pixelFormat ∧
      sub.isTiled = s.isTiled then
    if s.tiledAlignment = 0 then none
    else if (sub.addr - s.mipmapOffsets level) % s.tiledAlignment = 0 ∧
        (sub.stride = s.stride >>> UInt32.ofNat level ∨ sub.height ≤ s.tiledSize) then
      (s.getSubRect sub).map fun r => decide (r.right ≤ s.stride)
    else some false
  else some false

/-- `aligned_start` and `aligned_end`. -/
def alignedInterval (start size : UInt32) (interval : SurfaceInterval) : SurfaceInterval :=
  ⟨start + alignDown (interval.lower - start) size, start + alignUp (interval.upper - start) size⟩

/-- The parameters of `FromInterval` for whole rows. -/
def rowsParams (level : Nat) (aligned : SurfaceInterval) : SurfaceParams :=
  { s with
    addr := aligned.lower
    width := s.width >>> UInt32.ofNat level
    stride := s.stride >>> UInt32.ofNat level
    height := (aligned.upper - aligned.lower) / s.bytesInPixels (s.stride >>> UInt32.ofNat level)
    levels := 1 }

/-- The parameters of `FromInterval` for a part of one row. -/
def rowParams (aligned : SurfaceInterval) : SurfaceParams :=
  { s with
    addr := aligned.lower
    width := s.pixelsInBytes (aligned.upper - aligned.lower) / s.tiledSize
    stride := s.pixelsInBytes (aligned.upper - aligned.lower) / s.tiledSize
    height := s.tiledSize
    levels := 1 }

def fromInterval (interval : SurfaceInterval) : Option SurfaceParams :=
  let level := s.levelOf interval.lower
  let endAddr := interval.upper
  if ¬ (level = s.levelOf endAddr ∨ endAddr = s.stop ∨
      (level + 1 < maxPicaLevels ∧ endAddr = s.mipmapOffsets (level + 1))) then none
  else if ¬ (s.stride = s.width ∨ level = 0) then none
  else if s.strideTiledBytes level = 0 then none
  else
    let start := s.mipmapOffsets level
    let aligned := alignedInterval start (s.strideTiledBytes level) interval
    if s.strideTiledBytes level < aligned.upper - aligned.lower then
      if s.bytesInPixels (s.stride >>> UInt32.ofNat level) = 0 then none
      else (s.rowsParams level aligned).updateParams
    else if aligned.upper - aligned.lower ≠ s.strideTiledBytes level then none
    else if s.tiledAlignment = 0 then none
    else (s.rowParams (alignedInterval start s.tiledAlignment interval)).updateParams

def getSubRectInterval (rect : Rectangle) (level : Nat) : SurfaceInterval :=
  if rect.getHeight = 0 ∨ rect.getWidth = 0 then ⟨0, 0⟩
  else
    let rect := if s.isTiled then
      { left := alignDown rect.left 8 * 8
        bottom := alignDown rect.bottom 8 / 8
        right := alignUp rect.right 8 * 8
        top := alignUp rect.top 8 / 8 : Rectangle } else rect
    let strideTiled := (if s.isTiled then s.stride * 8 else s.stride) >>> UInt32.ofNat level
    let pixels := (rect.getHeight - 1) * strideTiled + rect.getWidth
    let pixelOffset :=
      strideTiled * (if s.isTiled then s.height / 8 - rect.top else rect.bottom) + rect.left
    let start := s.mipmapOffsets level
    ⟨start + s.bytesInPixels pixelOffset, start + s.bytesInPixels (pixelOffset + pixels)⟩

/-! ### Without overflow -/

def levelBytes (level : Nat) : Nat :=
  (s.width.toNat >>> level) * (s.height.toNat >>> level) * s.pixelFormat.bpp / 8

/-- The bytes of the levels before a level. -/
def bytesBelow : Nat → Nat
  | 0 => 0
  | level + 1 => bytesBelow level + s.levelBytes level

/-- The levels consist of whole tiles if the surface is tiled. -/
structure Shaped : Prop where
  stride : s.stride = s.width
  levels : 0 < s.levels.toNat
  width : ∀ level < s.levels.toNat, s.isTiled = true → 8 ∣ s.width.toNat >>> level
  height : ∀ level < s.levels.toNat, s.isTiled = true → 8 ∣ s.height.toNat >>> level

/-- Every level has pixels, of whole bytes if the surface is linear. -/
structure Regular : Prop extends s.Shaped where
  width_pos : ∀ level < s.levels.toNat, 0 < s.width.toNat >>> level
  height_pos : ∀ level < s.levels.toNat, 0 < s.height.toNat >>> level
  bytes : s.isTiled = false → 8 ≤ s.pixelFormat.bpp

/-- Neither the bits of a level nor the addresses of the surface exceed 32 bits. -/
structure NoOverflow : Prop where
  bits : s.width.toNat * s.height.toNat * s.pixelFormat.bpp < 2 ^ 32
  stop : s.addr.toNat + s.bytesBelow s.levels.toNat < 2 ^ 32

end SurfaceParams

theorem four_dvd_bpp (format : SurfaceFormat) : 4 ∣ format.bpp := by
  rcases format with format | _ | _ | _
  · cases format <;> decide
  all_goals decide

theorem bpp_pos (format : SurfaceFormat) : 0 < format.bpp := by
  rcases format with format | _ | _ | _
  · cases format <;> decide
  all_goals decide

theorem bpp_le (format : SurfaceFormat) : format.bpp ≤ 32 := by
  rcases format with format | _ | _ | _
  · cases format <;> decide
  all_goals decide

theorem eight_dvd_bpp {format : SurfaceFormat} (h : 8 ≤ format.bpp) : 8 ∣ format.bpp := by
  rcases format with format | _ | _ | _
  · cases format <;> revert h <;> decide
  all_goals decide

theorem toNat_add_of_lt {x y : UInt32} {m n : Nat} (hx : x.toNat = m) (hy : y.toNat = n)
    (h : m + n < 2 ^ 32) : (x + y).toNat = m + n := by
  rw [UInt32.toNat_add, hx, hy, Nat.mod_eq_of_lt h]

theorem toNat_sub_of_add {x y : UInt32} {m n : Nat} (hx : x.toNat = m + n) (hy : y.toNat = m) :
    (x - y).toNat = n := by
  have hle : y ≤ x := by
    rw [UInt32.le_iff_toNat_le, hx, hy]
    exact Nat.le_add_right ..
  rw [UInt32.toNat_sub_of_le _ _ hle, hx, hy, Nat.add_sub_cancel_left]

theorem toNat_alignDown (value size : UInt32) :
    (alignDown value size).toNat = Grid.floor size.toNat value.toNat := by
  have hle : value % size ≤ value := by
    rw [UInt32.le_iff_toNat_le, UInt32.toNat_mod]
    exact Nat.mod_le ..
  rw [alignDown, UInt32.toNat_sub_of_le _ _ hle, UInt32.toNat_mod, Grid.floor]

theorem toNat_alignUp {value size : UInt32} (h : Grid.ceil size.toNat value.toNat < 2 ^ 32) :
    (alignUp value size).toNat = Grid.ceil size.toNat value.toNat := by
  have hdown := toNat_alignDown value size
  have hzero : value % size = 0 ↔ value.toNat % size.toNat = 0 := by
    rw [← UInt32.toNat_inj, UInt32.toNat_mod]
    rfl
  unfold Grid.ceil at h ⊢
  unfold alignUp
  dsimp only
  by_cases hmod : value % size = 0
  · rw [if_pos hmod, if_pos (hzero.mp hmod), hmod, UInt32.sub_zero]
  · rw [if_neg (hzero.not.mp hmod)] at h ⊢
    rw [if_neg hmod, UInt32.toNat_add]
    change ((alignDown value size).toNat + size.toNat) % 2 ^ 32 = _
    rw [hdown, Grid.floor, Nat.mod_eq_of_lt h]

theorem toNat_shiftRight (a : UInt32) {level : Nat} (h : level < 32) :
    (a >>> UInt32.ofNat level).toNat = a.toNat >>> level := by
  rw [UInt32.toNat_shiftRight, UInt32.toNat_ofNat_of_lt' (h.trans (by decide)),
    Nat.mod_eq_of_lt h]

namespace SurfaceParams

variable {s r : SurfaceParams} {level : Nat}

theorem toNat_bpp (s : SurfaceParams) : s.bpp.toNat = s.pixelFormat.bpp :=
  UInt32.toNat_ofNat_of_lt' ((bpp_le s.pixelFormat).trans_lt (by decide))

theorem toNat_bytesInPixels {pixels : UInt32} (h : pixels.toNat * s.pixelFormat.bpp < 2 ^ 32) :
    (s.bytesInPixels pixels).toNat = pixels.toNat * s.pixelFormat.bpp / 8 := by
  rw [bytesInPixels, UInt32.toNat_div, UInt32.toNat_mul, toNat_bpp, Nat.mod_eq_of_lt h]
  rfl

theorem toNat_pixelsInBytes {size : UInt32} (h : size.toNat * 8 < 2 ^ 32) :
    (s.pixelsInBytes size).toNat = size.toNat * 8 / s.pixelFormat.bpp := by
  have hmul : (size * 8).toNat = size.toNat * 8 := by
    rw [UInt32.toNat_mul]
    exact Nat.mod_eq_of_lt h
  rw [pixelsInBytes, UInt32.toNat_div, hmul, toNat_bpp]

theorem levelBits_le (s : SurfaceParams) (level : Nat) :
    (s.width.toNat >>> level) * (s.height.toNat >>> level) * s.pixelFormat.bpp ≤
      s.width.toNat * s.height.toNat * s.pixelFormat.bpp :=
  Nat.mul_le_mul_right _ (Nat.mul_le_mul (Nat.shiftRight_le ..) (Nat.shiftRight_le ..))

theorem bytesBelow_mono (s : SurfaceParams) {k n : Nat} (h : k ≤ n) :
    s.bytesBelow k ≤ s.bytesBelow n := by
  induction n, h using Nat.le_induction with
  | base => exact le_rfl
  | succ n _ ih => exact ih.trans (Nat.le_add_right ..)

theorem toNat_levelCursor {offset : UInt32}
    (hbits : s.width.toNat * s.height.toNat * s.pixelFormat.bpp < 2 ^ 32)
    (hoffset : offset.toNat + s.bytesBelow level < 2 ^ 32) :
    (s.levelCursor offset level).levelWidth.toNat = s.width.toNat >>> level ∧
      (s.levelCursor offset level).levelHeight.toNat = s.height.toNat >>> level ∧
      (s.levelCursor offset level).offset.toNat = offset.toNat + s.bytesBelow level := by
  induction level with
  | zero => exact ⟨rfl, rfl, rfl⟩
  | succ level ih =>
      obtain ⟨hwidth, hheight, hsum⟩ := ih (lt_of_le_of_lt (Nat.add_le_add_left
        (s.bytesBelow_mono level.le_succ) _) hoffset)
      have hlevel := (s.levelBits_le level).trans_lt hbits
      have hpixels : ((s.levelCursor offset level).levelWidth *
          (s.levelCursor offset level).levelHeight).toNat =
          (s.width.toNat >>> level) * (s.height.toNat >>> level) := by
        rw [UInt32.toNat_mul, hwidth, hheight]
        exact Nat.mod_eq_of_lt ((Nat.le_mul_of_pos_right _ (bpp_pos _)).trans_lt hlevel)
      have hnext : s.levelCursor offset (level + 1) = s.nextLevel (s.levelCursor offset level) :=
        Function.iterate_succ_apply' ..
      rw [hnext]
      refine ⟨?_, ?_, ?_⟩
      · change ((s.levelCursor offset level).levelWidth >>> 1).toNat = _
        rw [UInt32.toNat_shiftRight, hwidth]
        exact (Nat.shiftRight_add ..).symm
      · change ((s.levelCursor offset level).levelHeight >>> 1).toNat = _
        rw [UInt32.toNat_shiftRight, hheight]
        exact (Nat.shiftRight_add ..).symm
      · change ((s.levelCursor offset level).offset + s.bytesInPixels _).toNat = _
        rw [UInt32.toNat_add, hsum, toNat_bytesInPixels (by rwa [hpixels]), hpixels, Nat.add_assoc]
        exact Nat.mod_eq_of_lt hoffset

theorem toNat_calculateSurfaceSize
    (hbits : s.width.toNat * s.height.toNat * s.pixelFormat.bpp < 2 ^ 32)
    (hsize : s.bytesBelow s.levels.toNat < 2 ^ 32) :
    s.calculateSurfaceSize.toNat = s.bytesBelow s.levels.toNat := by
  have hzero : (0 : UInt32).toNat = 0 := rfl
  have hcursor := (toNat_levelCursor hbits (by rwa [hzero, Nat.zero_add] : UInt32.toNat 0 +
    s.bytesBelow s.levels.toNat < 2 ^ 32)).2.2
  rw [calculateSurfaceSize, hcursor, hzero, Nat.zero_add]

/-! ### Completed parameters -/

/-- The pixels from the first to the last one of a rectangle of rows. -/
def rectSpan (s : SurfaceParams) : Nat :=
  if s.isTiled then s.stride.toNat * 8 * (s.height.toNat / 8 - 1) + s.width.toNat * 8
  else s.stride.toNat * (s.height.toNat - 1) + s.width.toNat

theorem toNat_pixelSpan (hheight : (if s.isTiled then 8 else 1) ≤ s.height.toNat)
    (h : s.rectSpan < 2 ^ 32) : s.pixelSpan.toNat = s.rectSpan := by
  unfold pixelSpan
  unfold rectSpan at h ⊢
  have height : (8 : UInt32).toNat = 8 := rfl
  have hone : (1 : UInt32).toNat = 1 := rfl
  cases htiled : s.isTiled with
  | true =>
      rw [htiled] at h hheight
      simp only [if_true] at h hheight ⊢
      have hdiv : (s.height / 8).toNat = s.height.toNat / 8 := UInt32.toNat_div ..
      have hrows : (s.height / 8 - 1).toNat = s.height.toNat / 8 - 1 := by
        rw [UInt32.toNat_sub_of_le _ _ (by rw [UInt32.le_iff_toNat_le, hdiv, hone]; omega), hdiv]
        rfl
      rcases Nat.eq_zero_or_pos (s.height.toNat / 8 - 1) with hzero | hpos
      · have hsub : s.height / 8 - 1 = 0 := UInt32.toNat_inj.mp (hrows.trans hzero)
        rw [hzero, Nat.mul_zero, Nat.zero_add] at h ⊢
        rw [hsub, UInt32.mul_zero, UInt32.zero_add, UInt32.toNat_mul, height, Nat.mod_eq_of_lt h]
      · have hstride : s.stride.toNat * 8 ≤ s.stride.toNat * 8 * (s.height.toNat / 8 - 1) :=
          Nat.le_mul_of_pos_right _ hpos
        rw [UInt32.toNat_add, UInt32.toNat_mul, UInt32.toNat_mul, UInt32.toNat_mul, hrows, height,
          Nat.mod_eq_of_lt (by omega : s.stride.toNat * 8 < 2 ^ 32),
          Nat.mod_eq_of_lt (by omega : s.width.toNat * 8 < 2 ^ 32),
          Nat.mod_eq_of_lt (by omega : s.stride.toNat * 8 * (s.height.toNat / 8 - 1) < 2 ^ 32),
          Nat.mod_eq_of_lt h]
  | false =>
      rw [htiled] at h hheight
      simp only [Bool.false_eq_true, if_false] at h hheight ⊢
      have hrows : (s.height - 1).toNat = s.height.toNat - 1 := by
        rw [UInt32.toNat_sub_of_le _ _ (by rw [UInt32.le_iff_toNat_le, hone]; omega)]
        rfl
      rw [UInt32.toNat_add, UInt32.toNat_mul, hrows,
        Nat.mod_eq_of_lt (by omega : s.stride.toNat * (s.height.toNat - 1) < 2 ^ 32),
        Nat.mod_eq_of_lt h]

theorem pixelSpan_of_height (hstride : s.stride = s.width) (hheight : s.height = 0) :
    s.pixelSpan = 0 := by
  unfold pixelSpan
  rw [hstride, hheight]
  have hzero : (0 : UInt32) / 8 = 0 := rfl
  split
  · rw [hzero]
    grind
  · grind

theorem rectSpan_eq (hstride : s.stride = s.width) (hpos : 0 < s.height.toNat)
    (htiled : s.isTiled = true → 8 ∣ s.height.toNat) :
    s.rectSpan = s.width.toNat * s.height.toNat := by
  unfold rectSpan
  rw [hstride]
  cases h : s.isTiled with
  | true =>
      obtain ⟨rows, hrows⟩ := htiled h
      obtain ⟨n, rfl⟩ : ∃ n, rows = n + 1 := Nat.exists_eq_succ_of_ne_zero (by omega)
      rw [if_pos rfl, hrows, Nat.mul_div_cancel_left _ (by decide), Nat.add_sub_cancel]
      ring
  | false =>
      obtain ⟨n, hn⟩ := Nat.exists_eq_succ_of_ne_zero hpos.ne'
      rw [if_neg Bool.false_ne_true, hn, Nat.succ_sub_one, Nat.mul_succ]

theorem updateParams_eq_some (h : r.updateParams = some s) :
    s.levels = 1 ∧ s.mipmapOffsets 0 = s.addr ∧ s.stop = s.addr + s.bytesInPixels s.pixelSpan ∨
      s.stride = s.width ∧ s.levels.toNat ≤ maxPicaLevels ∧
        (∀ level < s.levels.toNat, s.mipmapOffsets level = (s.levelCursor s.addr level).offset) ∧
        s.stop = s.addr + s.calculateSurfaceSize := by
  by_cases hlevels : r.levels = 1
  · obtain rfl : s = _ := by simpa [updateParams, hlevels] using h.symm
    exact .inl ⟨rfl, Function.update_self 0 r.addr r.mipmapOffsets, rfl⟩
  · simp only [updateParams, ne_eq, hlevels, not_false_eq_true, if_true, Option.ite_none_right_eq_some,
      Option.some.injEq] at h
    obtain ⟨⟨hstride, hle⟩, rfl⟩ := h
    exact .inr ⟨hstride, hle, fun level hlevel => if_pos hlevel, rfl⟩

/-- What `UpdateParams` leaves behind. -/
structure Completed (s : SurfaceParams) : Prop where
  levels_le : s.levels.toNat ≤ maxPicaLevels
  offset : ∀ level < s.levels.toNat, (s.mipmapOffsets level).toNat = s.addr.toNat + s.bytesBelow level
  stop : s.stop.toNat = s.addr.toNat + s.bytesBelow s.levels.toNat

theorem toNat_singleLevel (hshaped : s.Shaped)
    (hbits : s.width.toNat * s.height.toNat * s.pixelFormat.bpp < 2 ^ 32) :
    (s.bytesInPixels s.pixelSpan).toNat = s.levelBytes 0 := by
  rcases Nat.eq_zero_or_pos s.height.toNat with hzero | hpos
  · have hempty : s.pixelSpan = 0 := pixelSpan_of_height hshaped.stride (UInt32.toNat_inj.mp hzero)
    have hlevel : s.levelBytes 0 = 0 := by
      rw [levelBytes, Nat.shiftRight_zero, Nat.shiftRight_zero, hzero, Nat.mul_zero, Nat.zero_mul]
    rw [hempty, hlevel, toNat_bytesInPixels (by simp)]
    exact (congrArg (· / 8) (Nat.zero_mul _)).trans (Nat.zero_div _)
  · have htiled := hshaped.height 0 hshaped.levels
    have hspan := rectSpan_eq hshaped.stride hpos htiled
    have hroom : (if s.isTiled then 8 else 1) ≤ s.height.toNat := by
      split
      · exact Nat.le_of_dvd hpos (htiled ‹_›)
      · exact hpos
    have htoNat := toNat_pixelSpan hroom
      (hspan.trans_lt ((Nat.le_mul_of_pos_right _ (bpp_pos _)).trans_lt hbits))
    rw [toNat_bytesInPixels (by rw [htoNat, hspan]; exact hbits), htoNat, hspan]
    rfl

theorem completed_of_updateParams (h : r.updateParams = some s) (hshaped : s.Shaped)
    (hno : s.NoOverflow) : s.Completed := by
  obtain ⟨hbits, hstop⟩ := hno
  rcases updateParams_eq_some h with ⟨hlevels, hoffset, hend⟩ | ⟨-, hlevels, hoffset, hend⟩
  · have hone : s.levels.toNat = 1 := by rw [hlevels]; rfl
    refine ⟨hone.trans_le (by decide), fun level hlevel => ?_, ?_⟩
    · obtain rfl : level = 0 := Nat.lt_one_iff.mp (hone ▸ hlevel)
      rw [hoffset]
      rfl
    · rw [hone, bytesBelow, bytesBelow, Nat.zero_add] at hstop ⊢
      rw [hend, UInt32.toNat_add, toNat_singleLevel hshaped hbits]
      exact Nat.mod_eq_of_lt hstop
  · refine ⟨hlevels, fun level hlevel => ?_, ?_⟩
    · rw [hoffset level hlevel]
      exact (toNat_levelCursor hbits (lt_of_le_of_lt
        (Nat.add_le_add_left (s.bytesBelow_mono hlevel.le) _) hstop)).2.2
    · have hsize := toNat_calculateSurfaceSize hbits (lt_of_le_of_lt (Nat.le_add_left ..) hstop)
      rw [hend, UInt32.toNat_add, hsize]
      exact Nat.mod_eq_of_lt hstop

/-! ### Levels -/

theorem levelFrom_eq {a : UInt32} {n : Nat} (hle : level ≤ n)
    (hlow : 0 < level → s.mipmapOffsets level ≤ a)
    (hhigh : ∀ k, level < k → k ≤ n → a < s.mipmapOffsets k) : s.levelFrom a n = level := by
  induction n with
  | zero => exact (Nat.le_zero.mp hle).symm
  | succ n ih =>
      rw [levelFrom]
      rcases Nat.eq_or_lt_of_le hle with rfl | hlt
      · exact if_neg (UInt32.not_lt.mpr (hlow (Nat.succ_pos n)))
      · rw [if_pos (hhigh _ hlt le_rfl)]
        exact ih (Nat.le_of_lt_succ hlt) fun k hk hkn => hhigh k hk (hkn.trans n.le_succ)

theorem Completed.levelOf_eq (h : s.Completed) {a : UInt32} (hlevel : level < s.levels.toNat)
    (hlow : s.addr.toNat + s.bytesBelow level ≤ a.toNat)
    (hhigh : a.toNat < s.addr.toNat + s.bytesBelow (level + 1)) : s.levelOf a = level := by
  have hstop := s.bytesBelow_mono (show level + 1 ≤ _ from hlevel)
  have hin : ¬ (a < s.addr ∨ s.stop < a) := by
    rw [UInt32.lt_iff_toNat_lt, UInt32.lt_iff_toNat_lt, h.stop]
    omega
  rw [levelOf, if_neg hin]
  apply levelFrom_eq (by omega)
  · intro _
    rw [UInt32.le_iff_toNat_le, h.offset level hlevel]
    exact hlow
  · intro k hk hkn
    have hmono := s.bytesBelow_mono (show level + 1 ≤ k from hk)
    rw [UInt32.lt_iff_toNat_lt, h.offset k (by omega)]
    omega

theorem Completed.exists_level (h : s.Completed) {a : UInt32} (hlow : s.addr ≤ a) (hhigh : a < s.stop) :
    ∃ level < s.levels.toNat, s.addr.toNat + s.bytesBelow level ≤ a.toNat ∧
      a.toNat < s.addr.toNat + s.bytesBelow (level + 1) := by
  rw [UInt32.le_iff_toNat_le] at hlow
  rw [UInt32.lt_iff_toNat_lt, h.stop] at hhigh
  generalize s.levels.toNat = n at hhigh
  induction n with
  | zero => exact absurd hhigh (Nat.not_lt.mpr hlow)
  | succ n ih =>
      rcases Nat.lt_or_ge a.toNat (s.addr.toNat + s.bytesBelow n) with hlt | hge
      · obtain ⟨level, hlevel, hin⟩ := ih hlt
        exact ⟨level, hlevel.trans n.lt_succ_self, hin⟩
      · exact ⟨n, n.lt_succ_self, hge, hhigh⟩

/-- A level as rows of tiles, where the pixels of a linear surface are tiles by themselves. -/
structure Level (s : SurfaceParams) (level tile columns rows fine : Nat) : Prop where
  lt : level < s.levels.toNat
  tile_eq : tile = if s.isTiled then 8 else 1
  width : s.width.toNat >>> level = tile * columns
  height : s.height.toNat >>> level = tile * rows
  bits : fine * 8 = tile * tile * s.pixelFormat.bpp
  columns_pos : 0 < columns
  rows_pos : 0 < rows

theorem Shaped.exists_level (h : s.Shaped) (hlevel : level < s.levels.toNat)
    (hwidth : 0 < s.width.toNat >>> level) (hheight : 0 < s.height.toNat >>> level)
    (hbytes : s.isTiled = false → 8 ≤ s.pixelFormat.bpp) :
    ∃ tile columns rows fine, s.Level level tile columns rows fine := by
  cases htiled : s.isTiled with
  | true =>
      obtain ⟨columns, hcolumns⟩ := h.width level hlevel htiled
      obtain ⟨rows, hrows⟩ := h.height level hlevel htiled
      refine ⟨8, columns, rows, 8 * s.pixelFormat.bpp, hlevel, by rw [if_pos htiled], hcolumns, hrows,
        ?_, ?_, ?_⟩ <;> omega
  | false =>
      obtain ⟨n, hn⟩ := eight_dvd_bpp (hbytes htiled)
      refine ⟨1, _, _, n, hlevel, by rw [if_neg (by simp [htiled])], (Nat.one_mul _).symm,
        (Nat.one_mul _).symm, ?_, hwidth, hheight⟩
      omega

theorem Regular.exists_level (h : s.Regular) (hlevel : level < s.levels.toNat) :
    ∃ tile columns rows fine, s.Level level tile columns rows fine :=
  h.toShaped.exists_level hlevel (h.width_pos level hlevel) (h.height_pos level hlevel) h.bytes

namespace Level

variable {tile columns rows fine : Nat}

theorem tile_pos (h : s.Level level tile columns rows fine) : 0 < tile := by
  rw [h.tile_eq]
  split <;> decide

theorem fine_pos (h : s.Level level tile columns rows fine) : 0 < fine := by
  have hpos : 0 < tile * tile * s.pixelFormat.bpp :=
    Nat.mul_pos (Nat.mul_pos h.tile_pos h.tile_pos) (bpp_pos _)
  have := h.bits
  omega

theorem levelBytes_eq (h : s.Level level tile columns rows fine) :
    s.levelBytes level = columns * rows * fine := by
  have hbits : tile * columns * (tile * rows) * s.pixelFormat.bpp = columns * rows * fine * 8 := by
    calc tile * columns * (tile * rows) * s.pixelFormat.bpp
        = columns * rows * (tile * tile * s.pixelFormat.bpp) := by ring
      _ = columns * rows * fine * 8 := by rw [← h.bits, ← Nat.mul_assoc]
  rw [levelBytes, h.width, h.height, hbits, Nat.mul_div_cancel _ (by decide)]

theorem tileBits (h : s.Level level tile columns rows fine) (n : Nat) :
    tile * n * tile * s.pixelFormat.bpp = n * fine * 8 := by
  calc tile * n * tile * s.pixelFormat.bpp
      = n * (tile * tile * s.pixelFormat.bpp) := by ring
    _ = n * fine * 8 := by rw [← h.bits, Nat.mul_assoc]

theorem bits_lt (h : s.Level level tile columns rows fine) (hno : s.NoOverflow) :
    columns * rows * fine * 8 < 2 ^ 32 := by
  have hlevel := (s.levelBits_le level).trans_lt hno.bits
  rw [h.width, h.height] at hlevel
  calc columns * rows * fine * 8
      = columns * rows * (tile * tile * s.pixelFormat.bpp) := by rw [← h.bits, Nat.mul_assoc]
    _ = tile * columns * (tile * rows) * s.pixelFormat.bpp := by ring
    _ < 2 ^ 32 := hlevel

theorem row_le (h : s.Level level tile columns rows fine) :
    columns * fine ≤ columns * rows * fine :=
  Nat.mul_le_mul_right _ (Nat.le_mul_of_pos_right _ h.rows_pos)

theorem stop_le (h : s.Level level tile columns rows fine) (hno : s.NoOverflow) :
    s.addr.toNat + s.bytesBelow level + columns * rows * fine < 2 ^ 32 := by
  have hmono := s.bytesBelow_mono (show level + 1 ≤ _ from h.lt)
  have hstop := hno.stop
  rw [bytesBelow, h.levelBytes_eq] at hmono
  omega

end Level

/-- Parameters of a single level that `UpdateParams` completes. -/
structure CompletedFrom (r p : SurfaceParams) : Prop where
  addr : p.addr = r.addr
  stop : p.stop = r.addr + r.bytesInPixels r.pixelSpan
  width : p.width = r.width
  height : p.height = r.height
  stride : p.stride = r.stride
  isTiled : p.isTiled = r.isTiled
  pixelFormat : p.pixelFormat = r.pixelFormat

theorem updateParams_single (hlevels : r.levels = 1) (hstride : r.stride ≠ 0) :
    ∃ p, r.updateParams = some p ∧ CompletedFrom r p := by
  simp only [updateParams, hlevels, hstride, ne_eq, not_true_eq_false, if_false]
  exact ⟨_, rfl, rfl, rfl, rfl, rfl, rfl, rfl, rfl⟩

/-! ### Rounding an interval to a rectangle -/

section FromInterval

variable {tile columns rows fine a b : Nat} {i : SurfaceInterval}

/-- An interval in a level, by the offsets from its start. -/
structure Inside (s : SurfaceParams) (level a b : Nat) (i : SurfaceInterval) : Prop where
  lower : i.lower.toNat = s.addr.toNat + s.bytesBelow level + a
  upper : i.upper.toNat = s.addr.toNat + s.bytesBelow level + b
  lt : a < b
  le : b ≤ s.levelBytes level

/-- The parameters of a rectangle in a level. -/
structure Rect (s : SurfaceParams) (level tile columns fine a b : Nat) (p : SurfaceParams) :
    Prop where
  addr : p.addr.toNat = s.addr.toNat + s.bytesBelow level + a
  stop : p.stop.toNat = s.addr.toNat + s.bytesBelow level + b
  isTiled : p.isTiled = s.isTiled
  pixelFormat : p.pixelFormat = s.pixelFormat
  stride : p.stride = s.stride >>> UInt32.ofNat level ∨ p.height.toNat = tile
  right : a / fine % columns * tile + p.width.toNat ≤ tile * columns

theorem Level.rowBits_lt (h : s.Level level tile columns rows fine) (hno : s.NoOverflow) :
    tile * columns * tile * s.pixelFormat.bpp < 2 ^ 32 := by
  have hbits := h.bits_lt hno
  have hrow := h.row_le
  rw [h.tileBits]
  omega

theorem Level.toNat_tiledSize (h : s.Level level tile columns rows fine) :
    s.tiledSize.toNat = tile := by
  rw [h.tile_eq, tiledSize]
  split <;> rfl

theorem Level.lt_32 (h : s.Level level tile columns rows fine) (hc : s.Completed) : level < 32 := by
  have hle := hc.levels_le
  have hlt := h.lt
  unfold maxPicaLevels at hle
  omega

theorem Level.toNat_strideTiledBytes (h : s.Level level tile columns rows fine)
    (hno : s.NoOverflow) (hc : s.Completed) (hstride : s.stride = s.width) :
    (s.strideTiledBytes level).toNat = columns * fine := by
  have hbits := h.rowBits_lt hno
  have hpixels : tile * columns * tile < 2 ^ 32 :=
    (Nat.le_mul_of_pos_right _ (bpp_pos s.pixelFormat)).trans_lt hbits
  have hmul : ((s.stride >>> UInt32.ofNat level) * s.tiledSize).toNat = tile * columns * tile := by
    rw [UInt32.toNat_mul, toNat_shiftRight _ (h.lt_32 hc), hstride, h.width, h.toNat_tiledSize,
      Nat.mod_eq_of_lt hpixels]
  rw [strideTiledBytes, toNat_bytesInPixels (by rwa [hmul]), hmul, h.tileBits, Nat.mul_div_cancel _ (by decide)]

theorem Level.toNat_tiledAlignment (h : s.Level level tile columns rows fine)
    (hno : s.NoOverflow) : s.tiledAlignment.toNat = fine := by
  have hmul : (if s.isTiled then 64 else 1 : UInt32).toNat = tile * tile := by
    rw [h.tile_eq]
    split <;> rfl
  have hone : tile * tile * s.pixelFormat.bpp ≤ tile * columns * tile * s.pixelFormat.bpp := by
    rw [h.tileBits, ← h.bits]
    exact Nat.mul_le_mul_right _ (Nat.le_mul_of_pos_left _ h.columns_pos)
  have hbits := hone.trans_lt (h.rowBits_lt hno)
  rw [tiledAlignment, toNat_bytesInPixels (by rwa [hmul]), hmul, ← h.bits, Nat.mul_div_cancel _ (by decide)]

theorem Level.toNat_strideBytes (h : s.Level level tile columns rows fine) (hno : s.NoOverflow)
    (hc : s.Completed) (hstride : s.stride = s.width) :
    (s.bytesInPixels (s.stride >>> UInt32.ofNat level)).toNat * tile = columns * fine := by
  have hrow := h.rowBits_lt hno
  have hbits : tile * columns * s.pixelFormat.bpp * tile = columns * fine * 8 := by
    rw [← h.tileBits]
    ring
  rw [h.tileBits] at hrow
  have hwidth : (s.stride >>> UInt32.ofNat level).toNat = tile * columns := by
    rw [toNat_shiftRight _ (h.lt_32 hc), hstride, h.width]
  have hle : tile * columns * s.pixelFormat.bpp ≤ tile * columns * s.pixelFormat.bpp * tile :=
    Nat.le_mul_of_pos_right _ h.tile_pos
  rw [toNat_bytesInPixels (by rw [hwidth]; omega), hwidth]
  cases htiled : s.isTiled with
  | true =>
      have htile : tile = 8 := by rw [h.tile_eq, if_pos htiled]
      subst htile
      rw [Nat.mul_assoc 8] at hbits ⊢
      omega
  | false =>
      have htile : tile = 1 := by rw [h.tile_eq, if_neg (by simp [htiled])]
      subst htile
      omega

theorem Level.toNat_rectBytes (h : s.Level level tile columns rows fine) {w n : Nat}
    (htiled : r.isTiled = s.isTiled) (hformat : r.pixelFormat = s.pixelFormat)
    (hstride : r.stride = r.width) (hwidth : r.width.toNat = tile * w)
    (hheight : r.height.toNat = tile * n) (hn : 0 < n) (hbits : w * n * fine * 8 < 2 ^ 32) :
    (r.bytesInPixels r.pixelSpan).toNat = w * n * fine := by
  have hroom : (if r.isTiled then 8 else 1) ≤ r.height.toNat := by
    rw [htiled, hheight, ← h.tile_eq]
    exact Nat.le_mul_of_pos_right _ hn
  have hpixels : r.width.toNat * r.height.toNat * r.pixelFormat.bpp = w * n * fine * 8 := by
    calc r.width.toNat * r.height.toNat * r.pixelFormat.bpp
        = w * n * (tile * tile * s.pixelFormat.bpp) := by rw [hwidth, hheight, hformat]; ring
      _ = w * n * fine * 8 := by rw [← h.bits, ← Nat.mul_assoc]
  have hspan := rectSpan_eq hstride (by rw [hheight]; exact Nat.mul_pos h.tile_pos hn) fun ht => by
    rw [hheight, h.tile_eq, ← htiled, if_pos ht]
    exact Nat.dvd_mul_right ..
  have htoNat := toNat_pixelSpan hroom (by
    rw [hspan]
    exact (Nat.le_mul_of_pos_right _ (bpp_pos r.pixelFormat)).trans_lt (by rwa [hpixels]))
  rw [toNat_bytesInPixels (by rwa [htoNat, hspan, hpixels]), htoNat, hspan, hpixels,
    Nat.mul_div_cancel _ (by decide)]

theorem mod_add_le {c x q k : Nat} (hlow : c * k ≤ x) (hhigh : x + q ≤ c * (k + 1)) (hq : 0 < q) :
    x % c + q ≤ c := by
  have hdiv : x / c = k := Nat.div_eq_of_lt_le (by rw [Nat.mul_comm]; exact hlow) (by
    rw [Nat.succ_mul, Nat.mul_comm]
    rw [Nat.mul_succ] at hhigh
    omega)
  have hmod := Nat.div_add_mod x c
  rw [hdiv] at hmod
  rw [Nat.mul_succ] at hhigh
  omega

theorem Inside.assertion (hi : s.Inside level a b i) (h : s.Level level tile columns rows fine)
    (hc : s.Completed) :
    level = s.levelOf i.upper ∨ i.upper = s.stop ∨
      (level + 1 < maxPicaLevels ∧ i.upper = s.mipmapOffsets (level + 1)) := by
  have hle := hi.le
  have hnext : s.bytesBelow (level + 1) = s.bytesBelow level + s.levelBytes level := rfl
  rcases Nat.eq_or_lt_of_le hle with rfl | hlt
  · rcases Nat.eq_or_lt_of_le (Nat.succ_le_of_lt h.lt) with hlast | hmore
    · refine .inr (.inl (UInt32.toNat_inj.mp ?_))
      rw [hi.upper, hc.stop, ← hlast, Nat.succ_eq_add_one, hnext, Nat.add_assoc]
    · refine .inr (.inr ⟨hmore.trans_le hc.levels_le, UInt32.toNat_inj.mp ?_⟩)
      rw [hi.upper, hc.offset _ hmore, Nat.succ_eq_add_one, hnext, Nat.add_assoc]
  · refine .inl (hc.levelOf_eq h.lt ?_ ?_).symm
    · rw [hi.upper]
      omega
    · rw [hi.upper, hnext]
      omega

theorem Level.rect_rows (h : s.Level level tile columns rows fine) (hno : s.NoOverflow)
    (hc : s.Completed) (hstride : s.stride = s.width) {q : Nat}
    (hstart : i.lower.toNat = s.addr.toNat + s.bytesBelow level + columns * fine * a)
    (hend : i.upper.toNat =
      s.addr.toNat + s.bytesBelow level + columns * fine * a + columns * fine * q)
    (hq : 0 < q) (hle : columns * fine * a + columns * fine * q ≤ columns * rows * fine) :
    ∃ p, (s.rowsParams level i).updateParams = some p ∧
      s.Rect level tile columns fine (columns * fine * a)
        (columns * fine * a + columns * fine * q) p := by
  have hstop := h.stop_le hno
  have hbits := h.bits_lt hno
  have hstrideLod : (s.stride >>> UInt32.ofNat level).toNat = tile * columns := by
    rw [toNat_shiftRight _ (h.lt_32 hc), hstride, h.width]
  have hwidth : (s.width >>> UInt32.ofNat level).toNat = tile * columns := hstride ▸ hstrideLod
  have hbytes := h.toNat_strideBytes hno hc hstride
  have hbytesPos : 0 < (s.bytesInPixels (s.stride >>> UInt32.ofNat level)).toNat := by
    by_contra hzero
    rw [Nat.eq_zero_of_not_pos hzero, Nat.zero_mul] at hbytes
    exact (Nat.mul_pos h.columns_pos h.fine_pos).ne hbytes
  have hheight : (s.rowsParams level i).height.toNat = tile * q := by
    rw [rowsParams, UInt32.toNat_div, toNat_sub_of_add hend hstart, ← hbytes, Nat.mul_assoc,
      Nat.mul_div_cancel_left _ hbytesPos]
  have hne : s.stride >>> UInt32.ofNat level ≠ 0 := by
    intro hzero
    rw [hzero] at hstrideLod
    exact (Nat.mul_pos h.tile_pos h.columns_pos).ne hstrideLod
  obtain ⟨p, hp, hfrom⟩ := updateParams_single (r := s.rowsParams level i) rfl hne
  have hspace : columns * q * fine = columns * fine * q := by ring
  have hsize := h.toNat_rectBytes (r := s.rowsParams level i) rfl rfl
    (congrArg (· >>> UInt32.ofNat level) hstride) hwidth hheight hq (by rw [hspace]; omega)
  refine ⟨p, hp, ?_, ?_, hfrom.isTiled, hfrom.pixelFormat, .inl hfrom.stride, ?_⟩
  · rw [hfrom.addr]
    exact hstart
  · rw [hspace] at hsize
    rw [hfrom.stop, ← Nat.add_assoc]
    exact toNat_add_of_lt hstart hsize (by omega)
  · have hzero : columns * fine * a / fine % columns = 0 := by
      rw [Nat.mul_right_comm, Nat.mul_div_cancel _ h.fine_pos, Nat.mul_mod_right]
    rw [hzero, hfrom.width, Nat.zero_mul, Nat.zero_add]
    exact hwidth.le

theorem Level.rect_row (h : s.Level level tile columns rows fine) (hno : s.NoOverflow) {k q : Nat}
    (hstart : i.lower.toNat = s.addr.toNat + s.bytesBelow level + fine * a)
    (hend : i.upper.toNat = s.addr.toNat + s.bytesBelow level + fine * a + fine * q) (hq : 0 < q)
    (hlow : columns * k ≤ a) (hhigh : a + q ≤ columns * (k + 1)) (hk : k < rows) :
    ∃ p, (s.rowParams i).updateParams = some p ∧
      s.Rect level tile columns fine (fine * a) (fine * a + fine * q) p := by
  have hstop := h.stop_le hno
  have hbits := h.bits_lt hno
  have hle : fine * a + fine * q ≤ columns * rows * fine := by
    calc fine * a + fine * q = (a + q) * fine := by ring
      _ ≤ columns * rows * fine :=
        Nat.mul_le_mul_right _ (hhigh.trans (Nat.mul_le_mul_left _ hk))
  have hwidth : (s.rowParams i).width.toNat = tile * q := by
    have hdiff := toNat_sub_of_add hend hstart
    have hpixels : fine * q * 8 = tile * q * tile * s.pixelFormat.bpp := by
      rw [h.tileBits]
      ring
    rw [rowParams, UInt32.toNat_div, toNat_pixelsInBytes (by omega), hdiff, hpixels,
      h.toNat_tiledSize, Nat.mul_div_cancel _ (bpp_pos _), Nat.mul_div_cancel _ h.tile_pos]
  have hne : (s.rowParams i).stride ≠ 0 := by
    intro hzero
    have hwidth : (s.rowParams i).stride.toNat = tile * q := hwidth
    rw [hzero] at hwidth
    exact (Nat.mul_pos h.tile_pos hq).ne hwidth
  obtain ⟨p, hp, hfrom⟩ := updateParams_single (r := s.rowParams i) rfl hne
  have hspace : q * 1 * fine = fine * q := by ring
  have hsize := h.toNat_rectBytes (r := s.rowParams i) rfl rfl rfl hwidth
    (h.toNat_tiledSize.trans (Nat.mul_one _).symm) Nat.one_pos (by rw [hspace]; omega)
  refine ⟨p, hp, ?_, ?_, hfrom.isTiled, hfrom.pixelFormat, .inr ?_, ?_⟩
  · rw [hfrom.addr]
    exact hstart
  · rw [hspace] at hsize
    rw [hfrom.stop, ← Nat.add_assoc]
    exact toNat_add_of_lt hstart hsize (by omega)
  · rw [hfrom.height]
    exact h.toNat_tiledSize
  · rw [hfrom.width, hwidth, Nat.mul_div_cancel_left _ h.fine_pos, Nat.mul_comm _ tile,
      ← Nat.mul_add]
    exact Nat.mul_le_mul_left _ (mod_add_le hlow hhigh hq)

theorem Inside.aligned (hi : s.Inside level a b i) (h : s.Level level tile columns rows fine)
    (hno : s.NoOverflow) (hc : s.Completed) {size : UInt32} {n : Nat} (hsize : size.toNat = n)
    (hroom : Grid.ceil n b ≤ columns * rows * fine) :
    (alignedInterval (s.mipmapOffsets level) size i).lower.toNat =
        s.addr.toNat + s.bytesBelow level + Grid.floor n a ∧
      (alignedInterval (s.mipmapOffsets level) size i).upper.toNat =
        s.addr.toNat + s.bytesBelow level + Grid.ceil n b := by
  have hstop := h.stop_le hno
  have hlt := hi.lt
  have hle := hi.le
  rw [h.levelBytes_eq] at hle
  have hbase := hc.offset _ h.lt
  have hfloor := Grid.floor_le n a
  have ha := toNat_sub_of_add hi.lower hbase
  have hb := toNat_sub_of_add hi.upper hbase
  constructor
  · exact toNat_add_of_lt hbase (by rw [toNat_alignDown, hsize, ha]) (by omega)
  · exact toNat_add_of_lt hbase (by rw [toNat_alignUp (by rw [hsize, hb]; omega), hsize, hb])
      (by omega)

theorem fromInterval_rect (h : s.Level level tile columns rows fine) (hno : s.NoOverflow)
    (hc : s.Completed) (hstride : s.stride = s.width) (hi : s.Inside level a b i) :
    ∃ p, s.fromInterval i = some p ∧
      s.Rect level tile columns fine (Grid.roundOut fine (columns * fine) ⟨a, b⟩).lower
        (Grid.roundOut fine (columns * fine) ⟨a, b⟩).upper p := by
  have hlt := hi.lt
  have hle := hi.le
  have hnext : s.bytesBelow (level + 1) = s.bytesBelow level + s.levelBytes level := rfl
  have hlevel : s.levelOf i.lower = level := hc.levelOf_eq h.lt
    (by rw [hi.lower]; exact Nat.le_add_right ..) (by rw [hi.lower, hnext]; omega)
  rw [h.levelBytes_eq] at hle
  have hrowPos : 0 < columns * fine := Nat.mul_pos h.columns_pos h.fine_pos
  have hrows : columns * fine ∣ columns * rows * fine := ⟨rows, by ring⟩
  have hdvd : fine ∣ columns * fine := Nat.dvd_mul_left ..
  have hceil : Grid.ceil (columns * fine) b ≤ columns * rows * fine := Grid.ceil_le hrows hle
  have hrowBytes := h.toNat_strideTiledBytes hno hc hstride
  obtain ⟨hstart, hend⟩ := hi.aligned h hno hc hrowBytes hceil
  have hfloor := Grid.floor_le (columns * fine) a
  have hup : b ≤ Grid.ceil (columns * fine) b := Grid.le_ceil hrowPos
  have hdiff := toNat_sub_of_add (n := Grid.ceil (columns * fine) b - Grid.floor (columns * fine) a)
    (by rw [hend]; omega) hstart
  have hne {x : UInt32} {n : Nat} (hx : x.toNat = n) (hn : 0 < n) : x ≠ 0 := by
    rintro rfl
    exact hn.ne hx
  obtain ⟨k, hk⟩ := Grid.dvd_floor (columns * fine) a
  rw [fromInterval]
  dsimp only
  rw [hlevel, if_neg (not_not.mpr (hi.assertion h hc)), if_neg (not_not.mpr (.inl hstride)),
    if_neg (hne hrowBytes hrowPos)]
  rcases Grid.oneRow_or (i := ⟨a, b⟩) hrowPos hlt with hone | hmany
  · have hrow : Grid.ceil (columns * fine) b = Grid.floor (columns * fine) a + columns * fine := hone
    have htileBytes := h.toNat_tiledAlignment hno
    obtain ⟨hstart', hend'⟩ := hi.aligned h hno hc htileBytes (Grid.ceil_le (hdvd.trans hrows) hle)
    rw [if_neg (by rw [UInt32.lt_iff_toNat_lt, hdiff, hrowBytes]; omega),
      if_neg (not_not.mpr (by rw [← UInt32.toNat_inj, hdiff, hrowBytes]; omega)),
      if_neg (hne htileBytes h.fine_pos), Grid.roundOut_of_oneRow hone]
    obtain ⟨m, hm⟩ := Grid.dvd_floor fine a
    obtain ⟨n, hn⟩ := Grid.dvd_ceil fine b
    have hfloor' := Grid.floor_le fine a
    have hup' : b ≤ Grid.ceil fine b := Grid.le_ceil h.fine_pos
    dsimp only
    have hmn : m < n := by
      by_contra hge
      have := Nat.mul_le_mul_left fine (Nat.le_of_not_lt hge)
      omega
    have hsum : fine * m + fine * (n - m) = fine * n := by
      rw [← Nat.mul_add, Nat.add_sub_cancel' hmn.le]
    have hlow : columns * k ≤ m := by
      have hle := Grid.le_floor (n := fine) (hdvd.trans (Grid.dvd_floor (columns * fine) a)) hfloor
      rw [hk, hm, Nat.mul_right_comm, Nat.mul_comm fine] at hle
      exact Nat.le_of_mul_le_mul_right hle h.fine_pos
    have hhigh : n ≤ columns * (k + 1) := by
      have hle := Grid.ceil_le (n := fine) (hdvd.trans (Grid.dvd_ceil (columns * fine) b)) hup
      rw [hrow, hk, hn, ← Nat.mul_succ, Nat.mul_right_comm, Nat.mul_comm fine] at hle
      exact Nat.le_of_mul_le_mul_right hle h.fine_pos
    have hkrows : k < rows := by
      have hle : columns * fine * (k + 1) ≤ columns * fine * rows := by
        calc columns * fine * (k + 1) = Grid.ceil (columns * fine) b := by rw [hrow, hk, Nat.mul_succ]
          _ ≤ columns * rows * fine := hceil
          _ = columns * fine * rows := Nat.mul_right_comm ..
      exact Nat.le_of_mul_le_mul_left hle hrowPos
    obtain ⟨p, hp, hrect⟩ := h.rect_row hno (by rw [hstart', hm])
      (by rw [hend', hn, Nat.add_assoc _ (fine * m), hsum]) (Nat.sub_pos_of_lt hmn) hlow
      (by omega) hkrows
    rw [hsum, ← hm, ← hn] at hrect
    exact ⟨p, hp, hrect⟩
  · have hbytes := h.toNat_strideBytes hno hc hstride
    have hbytesNe : s.bytesInPixels (s.stride >>> UInt32.ofNat level) ≠ 0 := by
      intro hzero
      rw [hzero] at hbytes
      exact hrowPos.ne ((Nat.zero_mul _).symm.trans hbytes)
    have hout : Grid.roundOut fine (columns * fine) ⟨a, b⟩ =
        ⟨Grid.floor (columns * fine) a, Grid.ceil (columns * fine) b⟩ := if_pos hmany
    rw [if_pos (by rw [UInt32.lt_iff_toNat_lt, hdiff, hrowBytes]; exact hmany), if_neg hbytesNe, hout]
    obtain ⟨m, hm⟩ := Grid.dvd_ceil (columns * fine) b
    dsimp only
    have hkm : k < m := by
      by_contra hge
      have := Nat.mul_le_mul_left (columns * fine) (Nat.le_of_not_lt hge)
      omega
    have hsum : columns * fine * k + columns * fine * (m - k) = columns * fine * m := by
      rw [← Nat.mul_add, Nat.add_sub_cancel' hkm.le]
    obtain ⟨p, hp, hrect⟩ := h.rect_rows hno hc hstride (by rw [hstart, hk])
      (by rw [hend, hm, Nat.add_assoc _ (columns * fine * k), hsum]) (Nat.sub_pos_of_lt hkm)
      (by rw [hsum, ← hm]; exact hceil)
    rw [hsum, ← hk, ← hm] at hrect
    exact ⟨p, hp, hrect⟩

theorem getSubRect_eq (h : s.Level level tile columns rows fine) (hno : s.NoOverflow)
    (hc : s.Completed) (hstride : s.stride = s.width) {sub : SurfaceParams} {m : Nat}
    (hsub : sub.addr.toNat = s.addr.toNat + s.bytesBelow level + fine * m)
    (hm : fine * m < s.levelBytes level) :
    ∃ x0 y0 : UInt32, x0.toNat = m % columns * tile ∧ y0.toNat = m / columns * tile ∧
      s.getSubRect sub = some (if s.isTiled then
        ⟨x0, (s.height >>> UInt32.ofNat level) - y0, x0 + sub.width,
          (s.height >>> UInt32.ofNat level) - (y0 + sub.height)⟩
      else ⟨x0, y0 + sub.height, x0 + sub.width, y0⟩) := by
  have hbits := h.bits_lt hno
  have hrow := h.rowBits_lt hno
  have hnext : s.bytesBelow (level + 1) = s.bytesBelow level + s.levelBytes level := rfl
  have hlevel : s.levelOf sub.addr = level := hc.levelOf_eq h.lt
    (by rw [hsub]; exact Nat.le_add_right ..) (by rw [hsub, hnext]; omega)
  have hoffset := toNat_sub_of_add hsub (hc.offset _ h.lt)
  rw [h.levelBytes_eq] at hm
  have hindex : (s.pixelsInBytes (sub.addr - s.mipmapOffsets level)).toNat = m * (tile * tile) := by
    have hpixels : fine * m * 8 = m * (tile * tile) * s.pixelFormat.bpp := by
      calc fine * m * 8 = m * (fine * 8) := by ring
        _ = m * (tile * tile) * s.pixelFormat.bpp := by rw [h.bits, ← Nat.mul_assoc]
    rw [toNat_pixelsInBytes (by omega), hoffset, hpixels, Nat.mul_div_cancel _ (bpp_pos _)]
  have hstrideLod : (s.stride >>> UInt32.ofNat level).toNat = tile * columns := by
    rw [toNat_shiftRight _ (h.lt_32 hc), hstride, h.width]
  have hpixels : tile * columns * tile < 2 ^ 32 :=
    (Nat.le_mul_of_pos_right _ (bpp_pos s.pixelFormat)).trans_lt hrow
  have hcells : tile * columns * tile = columns * (tile * tile) := by ring
  have htileSq : 0 < tile * tile := Nat.mul_pos h.tile_pos h.tile_pos
  have hne {x : UInt32} {n : Nat} (hx : x.toNat = n) (hn : 0 < n) : x ≠ 0 := by
    rintro rfl
    exact hn.ne hx
  rw [getSubRect]
  dsimp only
  rw [hlevel, if_neg (not_not.mpr (.inl hstride))]
  cases htiled : s.isTiled with
  | true =>
      obtain rfl : tile = 8 := by rw [h.tile_eq, if_pos htiled]
      have hstrideTiled : (s.stride >>> UInt32.ofNat level * 8).toNat = columns * (8 * 8) := by
        rw [UInt32.toNat_mul, hstrideLod, ← hcells]
        exact Nat.mod_eq_of_lt hpixels
      simp only [if_true]
      rw [if_neg (hne hstrideTiled (Nat.mul_pos h.columns_pos htileSq))]
      refine ⟨_, _, ?_, ?_, rfl⟩
      · rw [UInt32.toNat_div, UInt32.toNat_mod, hindex, hstrideTiled, Nat.mul_mod_mul_right]
        exact (Nat.mul_assoc .. ▸ Nat.mul_div_cancel _ (by decide) : m % columns * (8 * 8) / 8 = _)
      · have hrowIndex : (s.pixelsInBytes (sub.addr - s.mipmapOffsets level) /
            (s.stride >>> UInt32.ofNat level * 8)).toNat = m / columns := by
          rw [UInt32.toNat_div, hindex, hstrideTiled, Nat.mul_div_mul_right _ _ htileSq]
        have hle : m / columns ≤ m := Nat.div_le_self ..
        have hmfine : m ≤ fine * m := Nat.le_mul_of_pos_left _ h.fine_pos
        rw [UInt32.toNat_mul, hrowIndex]
        exact Nat.mod_eq_of_lt (by change m / columns * 8 < 2 ^ 32; omega)
  | false =>
      obtain rfl : tile = 1 := by rw [h.tile_eq, if_neg (by simp [htiled])]
      rw [Nat.one_mul] at hstrideLod
      simp only [Bool.false_eq_true, if_false]
      rw [if_neg (hne hstrideLod h.columns_pos)]
      refine ⟨_, _, ?_, ?_, rfl⟩
      · rw [UInt32.toNat_mod, hindex, hstrideLod, Nat.mul_one, Nat.mul_one]
      · rw [UInt32.toNat_div, hindex, hstrideLod, Nat.mul_one, Nat.mul_one]

theorem Rect.canSubRect {p : SurfaceParams} (hp : s.Rect level tile columns fine a b p)
    (h : s.Level level tile columns rows fine) (hno : s.NoOverflow) (hc : s.Completed)
    (hstride : s.stride = s.width) (ha : fine ∣ a) (hab : a < b) (hb : b ≤ s.levelBytes level) :
    s.canSubRect p = some true := by
  obtain ⟨m, rfl⟩ := ha
  have hnext : s.bytesBelow (level + 1) = s.bytesBelow level + s.levelBytes level := rfl
  have hlevel : s.levelOf p.addr = level := hc.levelOf_eq h.lt
    (by rw [hp.addr]; exact Nat.le_add_right ..) (by rw [hp.addr, hnext]; omega)
  have hmono := s.bytesBelow_mono (show level + 1 ≤ _ from h.lt)
  have hwithin : s.addr ≤ p.addr ∧ p.stop ≤ s.stop ∧ p.pixelFormat = s.pixelFormat ∧
      p.isTiled = s.isTiled := by
    refine ⟨?_, ?_, hp.pixelFormat, hp.isTiled⟩
    · rw [UInt32.le_iff_toNat_le, hp.addr]
      omega
    · rw [UInt32.le_iff_toNat_le, hp.stop, hc.stop]
      omega
  have halignment := h.toNat_tiledAlignment hno
  have hne : s.tiledAlignment ≠ 0 := by
    intro hzero
    rw [hzero] at halignment
    exact h.fine_pos.ne halignment
  have haligned : (p.addr - s.mipmapOffsets level) % s.tiledAlignment = 0 := by
    rw [← UInt32.toNat_inj, UInt32.toNat_mod, toNat_sub_of_add hp.addr (hc.offset _ h.lt), halignment,
      Nat.mul_mod_right]
    rfl
  have hrow : p.stride = s.stride >>> UInt32.ofNat level ∨ p.height ≤ s.tiledSize := by
    refine hp.stride.imp_right fun hheight => ?_
    rw [UInt32.le_iff_toNat_le, hheight, h.toNat_tiledSize]
  obtain ⟨x0, y0, hx0, -, hrect⟩ := getSubRect_eq h hno hc hstride hp.addr (hab.trans_le hb)
  have hright : x0 + p.width ≤ s.stride := by
    have hwide : tile * columns ≤ s.stride.toNat := by
      rw [← h.width, hstride]
      exact Nat.shiftRight_le ..
    have hle := hp.right
    rw [Nat.mul_div_cancel_left _ h.fine_pos] at hle
    have hlt := s.stride.toNat_lt
    rw [UInt32.le_iff_toNat_le, toNat_add_of_lt hx0 rfl (by omega)]
    omega
  rw [SurfaceParams.canSubRect]
  rw [hlevel, if_pos hwithin, if_neg hne, if_pos ⟨haligned, hrow⟩, hrect]
  cases s.isTiled <;> exact congrArg some (decide_eq_true hright)

theorem Completed.toNat_levelUpper (h : s.Completed) (hlevel : level < s.levels.toNat) :
    (s.levelInterval level).upper.toNat = s.addr.toNat + s.bytesBelow level + s.levelBytes level := by
  have hnext : s.bytesBelow (level + 1) = s.bytesBelow level + s.levelBytes level := rfl
  unfold levelInterval
  split
  · next hlast =>
    have hlevels : s.levels.toNat = level + 1 := by omega
    rw [h.stop, hlevels, hnext, Nat.add_assoc]
  · next hmore => rw [h.offset _ (by omega), hnext, Nat.add_assoc]

theorem Completed.inside (h : s.Completed) (hlevel : level < s.levels.toNat) (hne : i.lower < i.upper)
    (hi : i.Within (s.levelInterval level)) : ∃ a b, s.Inside level a b i := by
  obtain ⟨hlow, hhigh⟩ := hi
  rw [UInt32.le_iff_toNat_le] at hlow hhigh
  rw [UInt32.lt_iff_toNat_lt] at hne
  have hoffset : (s.levelInterval level).lower.toNat = s.addr.toNat + s.bytesBelow level :=
    h.offset _ hlevel
  rw [hoffset] at hlow
  rw [h.toNat_levelUpper hlevel] at hhigh
  exact ⟨i.lower.toNat - (s.addr.toNat + s.bytesBelow level),
    i.upper.toNat - (s.addr.toNat + s.bytesBelow level), by omega, by omega, by omega, by omega⟩

/-- The rectangle around an interval inside a level contains it, is inside the level, is a
sub-rectangle of the surface, and is the rectangle around its own interval. -/
theorem fromInterval_rounds (h : r.updateParams = some s) (hregular : s.Regular)
    (hno : s.NoOverflow) (hlevel : level < s.levels.toNat) (hne : i.lower < i.upper)
    (hi : i.Within (s.levelInterval level)) :
    ∃ p, s.fromInterval i = some p ∧ i.Within p.getInterval ∧
      p.getInterval.Within (s.levelInterval level) ∧ s.canSubRect p = some true ∧
      ∃ q, s.fromInterval p.getInterval = some q ∧ q.getInterval = p.getInterval := by
  have hc := completed_of_updateParams h hregular.toShaped hno
  have hstride := hregular.stride
  obtain ⟨tile, columns, rows, fine, hl⟩ := hregular.exists_level hlevel
  obtain ⟨a, b, hinside⟩ := hc.inside hlevel hne hi
  obtain ⟨p, hp, hrect⟩ := fromInterval_rect hl hno hc hstride hinside
  have hrowPos : 0 < columns * fine := Nat.mul_pos hl.columns_pos hl.fine_pos
  have hdvd : fine ∣ columns * fine := Nat.dvd_mul_left ..
  have hlower : (Grid.roundOut fine (columns * fine) ⟨a, b⟩).lower ≤ a := Grid.lower_roundOut_le
  have hupper : b ≤ (Grid.roundOut fine (columns * fine) ⟨a, b⟩).upper :=
    Grid.le_upper_roundOut (i := ⟨a, b⟩) hl.fine_pos hrowPos
  have hle : (Grid.roundOut fine (columns * fine) ⟨a, b⟩).upper ≤ s.levelBytes level := by
    apply Grid.upper_roundOut_le hdvd _ hinside.le
    rw [hl.levelBytes_eq]
    exact ⟨rows, by ring⟩
  have hsame := Grid.roundOut_roundOut (i := ⟨a, b⟩) hl.fine_pos hrowPos hdvd hinside.lt
  have hstart := Grid.dvd_lower_roundOut (i := ⟨a, b⟩) hdvd
  have hlt := hinside.lt
  generalize Grid.roundOut fine (columns * fine) ⟨a, b⟩ = out at *
  have hinside' : s.Inside level out.lower out.upper p.getInterval :=
    ⟨hrect.addr, hrect.stop, by omega, hle⟩
  obtain ⟨q, hq, hrect'⟩ := fromInterval_rect hl hno hc hstride hinside'
  change s.Rect level tile columns fine (Grid.roundOut fine (columns * fine) out).lower
    (Grid.roundOut fine (columns * fine) out).upper q at hrect'
  rw [hsame] at hrect'
  refine ⟨p, hp, ⟨?_, ?_⟩, ⟨?_, ?_⟩, hrect.canSubRect hl hno hc hstride hstart (by omega) hle, q, hq, ?_⟩
  · rw [UInt32.le_iff_toNat_le, hinside.lower, getInterval, hrect.addr]
    omega
  · rw [UInt32.le_iff_toNat_le, hinside.upper, getInterval, hrect.stop]
    omega
  · have hoffset : (s.levelInterval level).lower.toNat = _ := hc.offset _ hlevel
    rw [UInt32.le_iff_toNat_le, hoffset, getInterval, hrect.addr]
    omega
  · rw [UInt32.le_iff_toNat_le, hc.toNat_levelUpper hlevel, getInterval, hrect.stop]
    omega
  · unfold getInterval
    congr 1
    · rw [← UInt32.toNat_inj, hrect'.addr, hrect.addr]
    · rw [← UInt32.toNat_inj, hrect'.stop, hrect.stop]

/-- A texture of two levels. -/
def mipmapped : SurfaceParams where
  addr := 0x18000000
  width := 32
  height := 32
  levels := 2
  isTiled := true
  pixelFormat := .color .RGBA8

theorem fromInterval_rounds_mipmapped :
    ∃ s, mipmapped.updateParams = some s ∧
      ∃ p, s.fromInterval ⟨0x18001004, 0x18001008⟩ = some p ∧
        SurfaceInterval.Within ⟨0x18001004, 0x18001008⟩ p.getInterval ∧
        p.getInterval.Within (s.levelInterval 1) ∧ s.canSubRect p = some true ∧
        ∃ q, s.fromInterval p.getInterval = some q ∧ q.getInterval = p.getInterval :=
  ⟨_, rfl, fromInterval_rounds (r := mipmapped) rfl
    ⟨⟨rfl, by decide, by decide, by decide⟩, by decide, by decide, by decide⟩
    ⟨by decide, by decide⟩ (by decide) (by decide) ⟨by decide, by decide⟩⟩

end FromInterval

end SurfaceParams

end Cytrus.VideoCore.Geometry
