import Cytrus.VideoCore.SurfaceGeometry
import Cytrus.VideoCore.Swizzle

/-!
# The walk over the tiles

`MortonCopy` goes from tile to tile with a cursor, whose offset into the linear image
moves by pixels of any number of bytes.

## Main results

* `onTile_beginCursor`, `OnTile.next`: where the cursor begins, and how it moves
-/

namespace Cytrus.VideoCore

open Support

theorem mortonInterleave_lt (x y : Nat) : mortonInterleave x y < 64 := by
  have h : ∀ i j : Fin 8, mortonInterleave i j < 64 := by decide
  have hsame : mortonInterleave (x % 8) (y % 8) = mortonInterleave x y := by
    simp only [mortonInterleave, Nat.mod_mod]
  exact hsame ▸ h ⟨x % 8, Nat.mod_lt _ (by decide)⟩ ⟨y % 8, Nat.mod_lt _ (by decide)⟩

theorem advance_advance (source : Pointer) (m n : Nat) :
    (source.advance m).advance n = source.advance (m + n) := by
  ext i
  rw [Pointer.advance, Pointer.advance, Pointer.advance, Nat.add_assoc]

/-- Where a texel is in the decoded image. -/
def texelIndex (width height x y : Nat) : Nat := (height - 1 - y) * width + x

/-- The first pixel of the linear buffer that the `k`-th tile is copied to. -/
def tileStart (columns rows k : Nat) : Nat :=
  (8 * rows - 8 - 8 * (k / columns)) * (8 * columns) + 8 * (k % columns)

section Order

variable {columns rows k : Nat}

theorem texelIndex_tile {x y : Nat} (hk : k / columns < rows) (hy : y < 8) :
    tileStart columns rows k + ((7 - y) * (8 * columns) + x) =
      texelIndex (8 * columns) (8 * rows) (8 * (k % columns) + x) (8 * (k / columns) + y) := by
  have hrow : 8 * rows - 1 - (8 * (k / columns) + y) =
      8 * rows - 8 - 8 * (k / columns) + (7 - y) := by omega
  rw [tileStart, texelIndex, hrow, Nat.add_mul]
  omega

theorem row_lt (hk : k < columns * rows) : k / columns < rows := Nat.div_lt_of_lt_mul hk

theorem tileStart_window_le (hcolumns : 0 < columns) (hk : k < columns * rows) :
    tileStart columns rows k + (7 * (8 * columns) + 8) ≤ 8 * columns * (8 * rows) := by
  have hrow := row_lt hk
  have hcolumn := Nat.mod_lt k hcolumns
  calc tileStart columns rows k + (7 * (8 * columns) + 8)
      = (8 * rows - 8 - 8 * (k / columns)) * (8 * columns) + (7 * (8 * columns) + 8 * (k % columns) + 8) := by
        rw [tileStart]
        omega
    _ ≤ (8 * rows - 8 - 8 * (k / columns)) * (8 * columns) + 8 * (8 * columns) := by omega
    _ = (8 * rows - 8 - 8 * (k / columns) + 8) * (8 * columns) := (Nat.add_mul ..).symm
    _ ≤ 8 * rows * (8 * columns) := Nat.mul_le_mul_right _ (by omega)
    _ = 8 * columns * (8 * rows) := Nat.mul_comm ..

theorem tile_right (hk : k % columns + 1 < columns) :
    (k + 1) % columns = k % columns + 1 ∧ (k + 1) / columns = k / columns := by
  have hsplit : k + 1 = columns * (k / columns) + (k % columns + 1) := by
    rw [← Nat.add_assoc, Nat.div_add_mod]
  rw [hsplit, Nat.mul_add_mod, Nat.mul_add_div (by omega), Nat.mod_eq_of_lt hk, Nat.div_eq_of_lt hk]
  exact ⟨rfl, rfl⟩

theorem tile_below (hpos : 0 < columns) (hk : k % columns + 1 = columns) :
    (k + 1) % columns = 0 ∧ (k + 1) / columns = k / columns + 1 := by
  have hsplit : k + 1 = columns * (k / columns + 1) := by
    have hk' := Nat.div_add_mod k columns
    rw [Nat.mul_add_one]
    omega
  rw [hsplit, Nat.mul_mod_right, Nat.mul_div_cancel_left _ hpos]
  exact ⟨rfl, rfl⟩

theorem tileStart_right (hk : k % columns + 1 < columns) :
    tileStart columns rows (k + 1) = tileStart columns rows k + 8 := by
  rw [tileStart, tileStart, (tile_right hk).1, (tile_right hk).2]
  omega

theorem tileStart_below (hpos : 0 < columns) (hk : k % columns + 1 = columns)
    (hlast : k / columns + 1 < rows) :
    tileStart columns rows (k + 1) + 9 * (8 * columns) = tileStart columns rows k + 8 := by
  have hrow : 8 * rows - 8 - 8 * (k / columns) = 8 * rows - 8 - 8 * (k / columns + 1) + 8 := by omega
  rw [tileStart, tileStart, (tile_below hpos hk).1, (tile_below hpos hk).2, hrow, Nat.add_mul]
  omega

theorem tile_of_texel {x y : Nat} (hx : x < 8 * columns) (hy : y < 8 * rows) :
    ∃ k < columns * rows, k % columns = x / 8 ∧ k / columns = y / 8 := by
  have hcolumn : x / 8 < columns := Nat.div_lt_of_lt_mul hx
  have hrow : y / 8 < rows := Nat.div_lt_of_lt_mul hy
  refine ⟨columns * (y / 8) + x / 8, ?_, ?_, ?_⟩
  · calc columns * (y / 8) + x / 8 < columns * (y / 8) + columns := Nat.add_lt_add_left hcolumn _
      _ = columns * (y / 8 + 1) := rfl
      _ ≤ columns * rows := Nat.mul_le_mul_left _ hrow
  · rw [Nat.mul_add_mod, Nat.mod_eq_of_lt hcolumn]
  · rw [Nat.mul_add_div (by omega), Nat.div_eq_of_lt hcolumn, Nat.add_zero]

end Order

namespace SurfaceFormat

/-- An image of so many columns and rows of tiles, with so many bytes a pixel, small enough
for 32-bit offsets. -/
structure TiledImage (width height : UInt32) (columns rows b : Nat) : Prop where
  width : width.toNat = 8 * columns
  height : height.toNat = 8 * rows
  columns_pos : 0 < columns
  rows_pos : 0 < rows
  bytes_pos : 0 < b
  fits : 8 * columns * (8 * rows) * b < 2 ^ 32

/-- The cursor is at the `k`-th tile, if there is one. -/
structure OnTile (columns rows b k : Nat) (c : TileCursor) : Prop where
  x : k < columns * rows → c.x.toNat = 8 * (k % columns)
  y : k < columns * rows → c.y.toNat = 8 * (k / columns)
  linearOffset : k < columns * rows → c.linearOffset = UInt32.ofNat (tileStart columns rows k * b)

variable {format : SurfaceFormat} {converted : Bool}

theorem tileBytes_eq_mul (format : SurfaceFormat) : format.tileBytes = format.bpp * 8 := by
  rw [tileBytes]
  omega

theorem linearBytesPerPixel_pos (format : SurfaceFormat) (converted : Bool) :
    0 < format.linearBytesPerPixel converted := by
  cases format with
  | color format => cases format <;> cases converted <;> decide
  | _ => cases converted <;> decide

theorem bpp_le_linearBytesPerPixel (format : SurfaceFormat) (converted : Bool) :
    format.bpp ≤ 8 * format.linearBytesPerPixel converted := by
  cases format with
  | color format => cases format <;> cases converted <;> decide
  | _ => cases converted <;> decide

theorem tileBytes_pos (format : SurfaceFormat) : 0 < format.tileBytes := by
  have := Geometry.bpp_pos format
  rw [tileBytes_eq_mul]
  omega

theorem toNat_tileBytes (format : SurfaceFormat) :
    (UInt32.ofNat format.tileBytes).toNat = format.tileBytes := by
  have := Geometry.bpp_le format
  refine UInt32.toNat_ofNat_of_lt' ?_
  change _ < 2 ^ 32
  rw [tileBytes_eq_mul]
  omega

theorem toNat_alignDown (value : UInt32) :
    (alignDown value (UInt32.ofNat format.tileBytes)).toNat = Grid.floor format.tileBytes value.toNat := by
  rw [Geometry.toNat_alignDown, toNat_tileBytes]

section Walk

variable {width height : UInt32} {columns rows b k : Nat} {c : TileCursor}

theorem TiledImage.pixels_lt (h : TiledImage width height columns rows b) :
    8 * columns * (8 * rows) < 2 ^ 32 :=
  (Nat.le_mul_of_pos_right _ h.bytes_pos).trans_lt h.fits

theorem TiledImage.columns_le (h : TiledImage width height columns rows b) :
    64 * columns ≤ 8 * columns * (8 * rows) := by
  calc 64 * columns = 8 * columns * 8 := by ring
    _ ≤ 8 * columns * (8 * rows) := Nat.mul_le_mul_left _ (Nat.le_mul_of_pos_right 8 h.rows_pos)

theorem TiledImage.rows_le (h : TiledImage width height columns rows b) :
    64 * rows ≤ 8 * columns * (8 * rows) := by
  calc 64 * rows = 8 * (8 * rows) := by ring
    _ ≤ 8 * columns * (8 * rows) := Nat.mul_le_mul_right _ (Nat.le_mul_of_pos_right 8 h.columns_pos)

theorem TiledImage.width_ne_zero (h : TiledImage width height columns rows b) : ¬ width * 8 = 0 := by
  have hpixels := h.pixels_lt
  have hcolumns := h.columns_le
  have hpos := h.columns_pos
  have hconst : (8 : UInt32).toNat = 8 := rfl
  rw [← UInt32.toNat_inj, UInt32.toNat_mul, h.width, hconst, Nat.mod_eq_of_lt (by omega)]
  change ¬ _ = 0
  omega

theorem TiledImage.window_le (h : TiledImage width height columns rows b) (hk : k < columns * rows) :
    tileStart columns rows k * b + (7 * (8 * columns) + 8) * b ≤ 8 * columns * (8 * rows) * b := by
  rw [← Nat.add_mul]
  exact Nat.mul_le_mul_right _ (tileStart_window_le h.columns_pos hk)

theorem OnTile.toNat_linearOffset (h : OnTile columns rows b k c)
    (himage : TiledImage width height columns rows b) (hk : k < columns * rows) :
    c.linearOffset.toNat = tileStart columns rows k * b := by
  have hwindow := himage.window_le hk
  have hfits := himage.fits
  rw [h.linearOffset hk, UInt32.toNat_ofNat_of_lt' (by change _ < 2 ^ 32; omega)]

theorem eq_ofNat {v : UInt32} {n : Nat} (h : v.toNat = n) : v = UInt32.ofNat n := by
  rw [← h, UInt32.ofNat_toNat]

theorem TiledImage.tiled_lt
    (h : TiledImage width height columns rows (format.linearBytesPerPixel converted)) :
    columns * rows * format.tileBytes < 2 ^ 32 := by
  calc columns * rows * format.tileBytes = columns * rows * 8 * format.bpp := by
        rw [tileBytes_eq_mul]
        ring
    _ ≤ columns * rows * 8 * (8 * format.linearBytesPerPixel converted) :=
        Nat.mul_le_mul_left _ (bpp_le_linearBytesPerPixel format converted)
    _ = 8 * columns * (8 * rows) * format.linearBytesPerPixel converted := by ring
    _ < 2 ^ 32 := h.fits

theorem TiledImage.toNat_linearTileStride
    (h : TiledImage width height columns rows (format.linearBytesPerPixel converted)) :
    (format.linearTileStride converted width).toNat =
      (7 * (8 * columns) + 8) * format.linearBytesPerPixel converted := by
  have hwindow := h.window_le (Nat.mul_pos h.columns_pos h.rows_pos)
  have hfits := h.fits
  have hseven : (7 : UInt32) = UInt32.ofNat 7 := rfl
  have hconst : (8 : UInt32) = UInt32.ofNat 8 := rfl
  rw [linearTileStride, eq_ofNat h.width, hseven, hconst, ← UInt32.ofNat_mul, ← UInt32.ofNat_add,
    ← UInt32.ofNat_mul, UInt32.toNat_ofNat_of_lt' (by change _ < 2 ^ 32; omega)]

theorem OnTile.next (h : OnTile columns rows b k c) (himage : TiledImage width height columns rows b)
    (hk : k < columns * rows) (tiledOffset : UInt32) :
    OnTile columns rows b (k + 1)
      { c.linearNextTile width height (UInt32.ofNat b) with tiledOffset := tiledOffset } := by
  have hcolumn := Nat.mod_lt k himage.columns_pos
  have hrow := row_lt hk
  have hpixels := himage.pixels_lt
  have hcolumns := himage.columns_le
  have hrows := himage.rows_le
  have htoNat : (8 : UInt32).toNat = 8 := rfl
  have hx : ((c.x + 8) % width).toNat = (8 * (k % columns) + 8) % (8 * columns) := by
    rw [UInt32.toNat_mod, UInt32.toNat_add, h.x hk, himage.width, htoNat,
      Nat.mod_eq_of_lt (by omega : 8 * (k % columns) + 8 < 2 ^ 32)]
  have hy : ((c.y + 8) % height).toNat = (8 * (k / columns) + 8) % (8 * rows) := by
    rw [UInt32.toNat_mod, UInt32.toNat_add, h.y hk, himage.height, htoNat,
      Nat.mod_eq_of_lt (by omega : 8 * (k / columns) + 8 < 2 ^ 32)]
  have hright : c.linearOffset + 8 * UInt32.ofNat b =
      UInt32.ofNat ((tileStart columns rows k + 8) * b) := by
    rw [h.linearOffset hk, Nat.add_mul, UInt32.ofNat_add, UInt32.ofNat_mul 8]
    rfl
  have hzero {i : UInt32} : i = 0 ↔ i.toNat = 0 := by rw [← UInt32.toNat_inj]; rfl
  rcases Nat.lt_or_ge (k % columns + 1) columns with hmore | hend
  · have hx' : ((c.x + 8) % width).toNat = 8 * (k % columns) + 8 := by
      rw [hx, Nat.mod_eq_of_lt (by omega)]
    have hnext : c.linearNextTile width height (UInt32.ofNat b) =
        { c with x := (c.x + 8) % width, linearOffset := c.linearOffset + 8 * UInt32.ofNat b } := by
      rw [TileCursor.linearNextTile, if_neg (by rw [hzero, hx']; omega)]
    obtain ⟨hmod, hdiv⟩ := tile_right hmore
    rw [hnext]
    refine ⟨fun _ => ?_, fun _ => ?_, fun _ => ?_⟩
    · rw [hx', hmod]
      omega
    · rw [hdiv, ← h.y hk]
    · rw [tileStart_right hmore, ← hright]
  · have hlast : k % columns + 1 = columns := by omega
    have hx' : ((c.x + 8) % width).toNat = 0 := by
      have hfull : 8 * (k % columns) + 8 = 8 * columns := by omega
      rw [hx, hfull, Nat.mod_self]
    obtain ⟨hmod, hdiv⟩ := tile_below himage.columns_pos hlast
    refine ⟨fun hk' => ?_, fun hk' => ?_, fun hk' => ?_⟩ <;>
      have hrow' : k / columns + 1 < rows := hdiv ▸ row_lt hk'
    all_goals
      have hy' : ((c.y + 8) % height).toNat = 8 * (k / columns) + 8 := by
        rw [hy, Nat.mod_eq_of_lt (by omega)]
      have hnext : c.linearNextTile width height (UInt32.ofNat b) =
          { c with
            x := (c.x + 8) % width
            y := (c.y + 8) % height
            linearOffset := c.linearOffset + 8 * UInt32.ofNat b - width * 9 * UInt32.ofNat b } := by
        rw [TileCursor.linearNextTile, if_pos (hzero.mpr hx'), if_neg (by rw [hzero, hy']; omega)]
      rw [hnext]
    · rw [hx', hmod]
    · rw [hy', hdiv]
      omega
    · have hbelow := @tileStart_below columns rows k himage.columns_pos hlast hrow'
      have hback : width * 9 * UInt32.ofNat b = UInt32.ofNat (9 * (8 * columns) * b) := by
        rw [UInt32.ofNat_mul (9 * (8 * columns)), UInt32.ofNat_mul 9, ← eq_ofNat himage.width]
        exact congrArg (· * UInt32.ofNat b) (UInt32.mul_comm ..)
      change c.linearOffset + 8 * UInt32.ofNat b - width * 9 * UInt32.ofNat b = _
      rw [hright, hback, ← hbelow, Nat.add_mul, UInt32.ofNat_add, UInt32.add_sub_cancel]

/-- The cursor begins at the tile of the start. -/
theorem onTile_beginCursor (format : SurfaceFormat) (converted : Bool) {start : UInt32}
    (himage : TiledImage width height columns rows (format.linearBytesPerPixel converted))
    (hstart : start.toNat = k * format.tileBytes) (hfits : k * format.tileBytes * 8 < 2 ^ 32) :
    OnTile columns rows (format.linearBytesPerPixel converted) k
      (format.beginCursor converted width height start) := by
  have hpixels := himage.pixels_lt
  have hcolumns := himage.columns_le
  have hrows := himage.rows_le
  have hpos := Geometry.bpp_pos format
  have hconst : (8 : UInt32).toNat = 8 := rfl
  have hbpp : (UInt32.ofNat format.bpp).toNat = format.bpp :=
    UInt32.toNat_ofNat_of_lt' ((Geometry.bpp_le format).trans_lt (by decide))
  have hindex : (start * 8 / UInt32.ofNat format.bpp).toNat = 64 * k := by
    have hproduct : k * format.tileBytes * 8 = format.bpp * (64 * k) := by
      rw [tileBytes_eq_mul]
      ring
    rw [UInt32.toNat_div, UInt32.toNat_mul, hbpp, hconst, hstart, Nat.mod_eq_of_lt hfits, hproduct,
      Nat.mul_div_cancel_left _ hpos]
  have hwide : (width * 8).toNat = 64 * columns := by
    rw [UInt32.toNat_mul, hconst, himage.width, Nat.mod_eq_of_lt (by omega)]
    omega
  have hx : (start * 8 / UInt32.ofNat format.bpp % (width * 8) / 8).toNat = 8 * (k % columns) := by
    rw [UInt32.toNat_div, UInt32.toNat_mod, hindex, hwide, hconst, Nat.mul_mod_mul_left]
    omega
  have hy (hk : k < columns * rows) :
      (start * 8 / UInt32.ofNat format.bpp / (width * 8) * 8).toNat = 8 * (k / columns) := by
    have hrow := row_lt hk
    rw [UInt32.toNat_mul, UInt32.toNat_div, hindex, hwide, hconst, Nat.mul_div_mul_left _ _ (by decide),
      Nat.mod_eq_of_lt (by omega), Nat.mul_comm]
  refine ⟨fun _ => hx, hy, fun hk => ?_⟩
  have hrow := row_lt hk
  have hline : height - 8 - start * 8 / UInt32.ofNat format.bpp / (width * 8) * 8 =
      UInt32.ofNat (8 * rows - 8 - 8 * (k / columns)) := by
    apply eq_ofNat
    have hle : 8 ≤ height := by
      rw [UInt32.le_iff_toNat_le, himage.height, hconst]
      omega
    have hsub : (height - 8).toNat = 8 * rows - 8 := by
      rw [UInt32.toNat_sub_of_le _ _ hle, himage.height, hconst]
    have hle' : start * 8 / UInt32.ofNat format.bpp / (width * 8) * 8 ≤ height - 8 := by
      rw [UInt32.le_iff_toNat_le, hy hk, hsub]
      omega
    rw [UInt32.toNat_sub_of_le _ _ hle', hsub, hy hk]
  change ((height - 8 - start * 8 / UInt32.ofNat format.bpp / (width * 8) * 8) * width +
    start * 8 / UInt32.ofNat format.bpp % (width * 8) / 8) * _ = _
  rw [hline, eq_ofNat hx, eq_ofNat himage.width, tileStart, UInt32.ofNat_mul (_ + _), UInt32.ofNat_add,
    UInt32.ofNat_mul (_ - _)]

theorem toNat_linearPixelOffset {stride : UInt32} {x y : Nat}
    (hfits : (7 * stride.toNat + 8) * format.linearBytesPerPixel converted < 2 ^ 32) (hx : x < 8) (hy : y < 8) :
    (format.linearPixelOffset converted stride x y).toNat =
      ((7 - y) * stride.toNat + x) * format.linearBytesPerPixel converted := by
  have hseven : 7 - UInt32.ofNat y = UInt32.ofNat (7 - y) := by
    have h : ∀ i : Fin 8, 7 - UInt32.ofNat i = UInt32.ofNat (7 - i) := by decide
    exact h ⟨y, hy⟩
  have hle : ((7 - y) * stride.toNat + x) * format.linearBytesPerPixel converted ≤
      (7 * stride.toNat + 8) * format.linearBytesPerPixel converted :=
    Nat.mul_le_mul_right _ (Nat.add_le_add (Nat.mul_le_mul_right _ (Nat.sub_le 7 y)) hx.le)
  rw [linearPixelOffset, hseven, eq_ofNat (v := stride) rfl, ← UInt32.ofNat_mul, ← UInt32.ofNat_add,
    ← UInt32.ofNat_mul, UInt32.toNat_ofNat_of_lt' (hle.trans_lt hfits), UInt32.ofNat_toNat]

theorem tiledImage_of_dvd (hwidth : 8 ∣ width.toNat) (hheight : 8 ∣ height.toNat)
    (hcolumns : 0 < width.toNat) (hrows : 0 < height.toNat)
    (hfits : width.toNat * height.toNat * format.linearBytesPerPixel converted < 2 ^ 32) :
    TiledImage width height (width.toNat / 8) (height.toNat / 8) (format.linearBytesPerPixel converted) where
  width := (Nat.mul_div_cancel' hwidth).symm
  height := (Nat.mul_div_cancel' hheight).symm
  columns_pos := Nat.div_pos (Nat.le_of_dvd hcolumns hwidth) (by decide)
  rows_pos := Nat.div_pos (Nat.le_of_dvd hrows hheight) (by decide)
  bytes_pos := linearBytesPerPixel_pos format converted
  fits := by rwa [Nat.mul_div_cancel' hwidth, Nat.mul_div_cancel' hheight]

theorem tiledBytes_of_dvd (hwidth : 8 ∣ width.toNat) (hheight : 8 ∣ height.toNat) :
    width.toNat * height.toNat * format.bpp / 8 =
      width.toNat / 8 * (height.toNat / 8) * format.tileBytes := by
  obtain ⟨columns, hcolumns⟩ := hwidth
  obtain ⟨rows, hrows⟩ := hheight
  rw [hcolumns, hrows, Nat.mul_div_cancel_left _ (by decide), Nat.mul_div_cancel_left _ (by decide),
    tileBytes_eq_mul]
  refine Nat.div_eq_of_eq_mul_left (by decide) ?_
  ring

end Walk

end SurfaceFormat

end Cytrus.VideoCore
