import Cytrus.VideoCore.TileWalk

/-!
# Decoding a tiled image

`MortonCopy` to a linear image writes the pixels tile by tile. In the end each pixel of
the linear image begins with what the pixel of its tile is decoded to.

## Main results

* `mortonCopy_painted`: a linear image after its tiles are decoded
* `linearByte_pixel`: what is in it
-/

namespace Cytrus.VideoCore.SurfaceFormat

open Support

/-- What a pixel of a tile is decoded to. -/
def decodedPixel (depth : DepthFloat) (format : SurfaceFormat) (converted : Bool) (tile : Pointer)
    (x y : Nat) : List UInt8 :=
  format.decodeTilePixel depth converted x y tile (tile.advance (mortonInterleave x y * (format.bpp / 8)))

/-- The byte of the linear image that a tiled one is decoded to. -/
def linearByte (depth : DepthFloat) (format : SurfaceFormat) (converted : Bool) (columns rows : Nat)
    (source : Pointer) (i : Nat) : UInt8 :=
  let b := format.linearBytesPerPixel converted
  let x := i / b % (8 * columns)
  let y := 8 * rows - 1 - i / b / (8 * columns)
  (format.decodedPixel depth converted
    (source.advance ((columns * (y / 8) + x / 8) * format.tileBytes)) (x % 8) (y % 8)).getD (i % b) 0

variable {depth : DepthFloat} {format : SurfaceFormat} {converted : Bool}

theorem length_decodedPixel_le (tile : Pointer) (x y : Nat) :
    (format.decodedPixel depth converted tile x y).length ≤ format.linearBytesPerPixel converted := by
  have hnibble (format : PixelFormat) : (decodePixel4 format x y tile).length = 4 := by
    rw [decodePixel4]
    split <;> rfl
  have htake (p : Pointer) (n : Nat) : ((List.range n).map p).length = n := by
    rw [List.length_map, List.length_range]
  cases format with
  | color format =>
      cases format with
      | I4 => cases converted <;> exact (hnibble .I4).le
      | A4 => cases converted <;> exact (hnibble .A4).le
      | ETC1 | ETC1A4 | IA8 | RG8 | I8 | A8 | IA4 => cases converted <;> exact Nat.le_refl 4
      | RGBA8 | RGB8 | RGB5A1 | RGB565 | RGBA4 =>
          cases converted with
          | true => exact Nat.le_refl 4
          | false => exact (htake _ _).le
  | D16 => cases converted <;> exact (htake _ 2).le.trans (by decide)
  | D24 =>
      cases converted with
      | true => exact Nat.le_refl 4
      | false => exact (htake _ 3).le.trans (by decide)
  | D24S8 => cases converted <;> exact Nat.le_refl 4

/-- A pixel of the linear image is decoded from the tile that has it. -/
theorem linearByte_pixel {columns rows k x y j : Nat} {source : Pointer} (hcolumns : 0 < columns)
    (hk : k < columns * rows) (hx : x < 8) (hy : y < 8)
    (hj : j < format.linearBytesPerPixel converted) :
    linearByte depth format converted columns rows source
        ((tileStart columns rows k + ((7 - y) * (8 * columns) + x)) * format.linearBytesPerPixel converted + j) =
      (format.decodedPixel depth converted (source.advance (k * format.tileBytes)) x y).getD j 0 := by
  have hrow := row_lt hk
  have hcolumn := Nat.mod_lt k hcolumns
  have hpixel : ((tileStart columns rows k + ((7 - y) * (8 * columns) + x)) *
      format.linearBytesPerPixel converted + j) / format.linearBytesPerPixel converted =
        texelIndex (8 * columns) (8 * rows) (8 * (k % columns) + x) (8 * (k / columns) + y) := by
    rw [texelIndex_tile hrow hy, Nat.mul_comm, Nat.mul_add_div (by omega), Nat.div_eq_of_lt hj, Nat.add_zero]
  have hbyte : ((tileStart columns rows k + ((7 - y) * (8 * columns) + x)) *
      format.linearBytesPerPixel converted + j) % format.linearBytesPerPixel converted = j := by
    rw [Nat.mul_add_mod', Nat.mod_eq_of_lt hj]
  have hmod : texelIndex (8 * columns) (8 * rows) (8 * (k % columns) + x) (8 * (k / columns) + y) %
      (8 * columns) = 8 * (k % columns) + x := by
    rw [texelIndex, Nat.mul_add_mod', Nat.mod_eq_of_lt (by omega)]
  have hdiv : texelIndex (8 * columns) (8 * rows) (8 * (k % columns) + x) (8 * (k / columns) + y) /
      (8 * columns) = 8 * rows - 1 - (8 * (k / columns) + y) := by
    rw [texelIndex, Nat.mul_comm, Nat.mul_add_div (by omega),
      Nat.div_eq_of_lt (by omega : 8 * (k % columns) + x < 8 * columns), Nat.add_zero]
  have hback : 8 * rows - 1 - (8 * rows - 1 - (8 * (k / columns) + y)) = 8 * (k / columns) + y := by omega
  have hquot {n i : Nat} (hi : i < 8) : (8 * n + i) / 8 = n := by omega
  have hrem {n i : Nat} (hi : i < 8) : (8 * n + i) % 8 = i := by omega
  simp only [linearByte, hpixel, hbyte, hmod, hdiv, hback, hquot hx, hquot hy, hrem hx, hrem hy,
    Nat.div_add_mod]

section Tile

variable {stride : UInt32} {tile : Pointer} {target : Nat → UInt8} {x y : Nat}

/-- The bytes of the linear buffer that a pixel is decoded to. -/
def decodedArea (depth : DepthFloat) (format : SurfaceFormat) (converted : Bool) (stride : Nat)
    (tile : Pointer) (x y : Nat) : Set Nat :=
  {i | ((7 - y) * stride + x) * format.linearBytesPerPixel converted ≤ i ∧
    i < ((7 - y) * stride + x) * format.linearBytesPerPixel converted +
      (format.decodedPixel depth converted tile x y).length}

theorem copyTilePixel_paints
    (hfits : (7 * stride.toNat + 8) * format.linearBytesPerPixel converted < 2 ^ 32) (hx : x < 8) (hy : y < 8)
    (htarget : ∀ j < (format.decodedPixel depth converted tile x y).length,
      (format.decodedPixel depth converted tile x y)[j]? =
        some (target (((7 - y) * stride.toNat + x) * format.linearBytesPerPixel converted + j))) :
    Paints ((7 * stride.toNat + 8) * format.linearBytesPerPixel converted) target
      (decodedArea depth format converted stride.toNat tile x y)
      (format.copyTilePixel depth converted stride ⟨tile, format.tileBytes⟩ y · x) := by
  intro l hl
  have hplace := mortonInterleave_lt x y
  have hsize : mortonInterleave x y * (format.bpp / 8) + format.bpp / 8 ≤ format.tileBytes := by
    calc mortonInterleave x y * (format.bpp / 8) + format.bpp / 8
        = (mortonInterleave x y + 1) * (format.bpp / 8) := (Nat.succ_mul ..).symm
      _ ≤ 64 * (format.bpp / 8) := Nat.mul_le_mul_right _ hplace
      _ ≤ format.tileBytes := by
          rw [tileBytes_eq_mul]
          omega
  have hroom : ((7 - y) * stride.toNat + x) * format.linearBytesPerPixel converted +
      format.linearBytesPerPixel converted ≤ l.length := by
    have hrow : (7 - y) * stride.toNat ≤ 7 * stride.toNat := Nat.mul_le_mul_right _ (Nat.sub_le 7 y)
    rw [hl, ← Nat.succ_mul]
    exact Nat.mul_le_mul_right _ (by omega)
  have hpixel : (Span.mk tile format.tileBytes).subspan (mortonInterleave x y * (format.bpp / 8))
      (format.bpp / 8) = some ⟨tile.advance (mortonInterleave x y * (format.bpp / 8)), format.bpp / 8⟩ :=
    if_pos hsize
  have hlength := @length_decodedPixel_le depth format converted tile x y
  obtain ⟨w, hw⟩ : ∃ w, slice l (((7 - y) * stride.toNat + x) * format.linearBytesPerPixel converted)
      (format.linearBytesPerPixel converted) = some w := ⟨_, slice_eq_some.mpr ⟨hroom, rfl⟩⟩
  refine ⟨overwrite l (((7 - y) * stride.toNat + x) * format.linearBytesPerPixel converted)
    (format.decodedPixel depth converted tile x y), ?_, painted_overwrite (by omega) htarget⟩
  simp only [copyTilePixel, hpixel, toNat_linearPixelOffset hfits hx hy, hw, Option.bind_eq_bind,
    Option.bind_some]
  rfl

theorem mortonCopyTile_paints
    (hfits : (7 * stride.toNat + 8) * format.linearBytesPerPixel converted < 2 ^ 32)
    (htarget : ∀ x < 8, ∀ y < 8, ∀ j < (format.decodedPixel depth converted tile x y).length,
      (format.decodedPixel depth converted tile x y)[j]? =
        some (target (((7 - y) * stride.toNat + x) * format.linearBytesPerPixel converted + j))) :
    Paints ((7 * stride.toNat + 8) * format.linearBytesPerPixel converted) target
      {i | ∃ y ∈ List.range 8, ∃ x ∈ List.range 8, i ∈ decodedArea depth format converted stride.toNat tile x y}
      (format.mortonCopyTile depth converted stride ⟨tile, format.tileBytes⟩) := by
  refine Paints.foldlM fun y hy => Paints.foldlM fun x hx => ?_
  have hx8 := List.mem_range.mp hx
  have hy8 := List.mem_range.mp hy
  exact copyTilePixel_paints hfits hx8 hy8 (htarget x hx8 y hy8)

end Tile

section Loop

variable {width height bufferEnd : UInt32} {columns rows k : Nat} {source : Pointer} {c : TileCursor}
  {l : List UInt8}

/-- The bytes of the linear image that a tile is decoded to. -/
def decodedTile (depth : DepthFloat) (format : SurfaceFormat) (converted : Bool) (columns rows : Nat)
    (source : Pointer) (k : Nat) : Set Nat :=
  (tileStart columns rows k * format.linearBytesPerPixel converted + ·) ''
    {i | ∃ y ∈ List.range 8, ∃ x ∈ List.range 8,
      i ∈ decodedArea depth format converted (8 * columns) (source.advance (k * format.tileBytes)) x y}

theorem copyTile_painted
    (himage : TiledImage width height columns rows (format.linearBytesPerPixel converted))
    (hk : k < columns * rows)
    (hl : l.length = 8 * columns * (8 * rows) * format.linearBytesPerPixel converted) :
    ∃ w w', slice l (tileStart columns rows k * format.linearBytesPerPixel converted)
        ((7 * (8 * columns) + 8) * format.linearBytesPerPixel converted) = some w ∧
      format.mortonCopyTile depth converted width
          ⟨source.advance (k * format.tileBytes), format.tileBytes⟩ w = some w' ∧
        Painted (linearByte depth format converted columns rows source)
          (decodedTile depth format converted columns rows source k) l
          (overwrite l (tileStart columns rows k * format.linearBytesPerPixel converted) w') := by
  have hwindow := himage.window_le hk
  have hfits := himage.fits
  have hslice := slice_eq_some.mpr
    ⟨(by omega : tileStart columns rows k * format.linearBytesPerPixel converted +
      (7 * (8 * columns) + 8) * format.linearBytesPerPixel converted ≤ l.length), rfl⟩
  have hpaints := @mortonCopyTile_paints depth format converted width (source.advance (k * format.tileBytes))
    (fun i => linearByte depth format converted columns rows source
      (tileStart columns rows k * format.linearBytesPerPixel converted + i))
    (by rw [himage.width]; omega) fun x hx y hy j hj => by
      have hroom := hj.trans_le (length_decodedPixel_le ..)
      have hpixel := @linearByte_pixel depth format converted columns rows k x y j source himage.columns_pos
        hk hx hy hroom
      have hplace : tileStart columns rows k * format.linearBytesPerPixel converted +
          (((7 - y) * width.toNat + x) * format.linearBytesPerPixel converted + j) =
            (tileStart columns rows k + ((7 - y) * (8 * columns) + x)) *
              format.linearBytesPerPixel converted + j := by
        rw [himage.width, Nat.add_mul (tileStart columns rows k)]
        omega
      rw [hplace, hpixel, List.getElem?_eq_getElem hj, List.getD_eq_getElem _ _ hj]
  obtain ⟨w', hw', hpaint⟩ := hpaints _ (by rw [himage.width]; exact length_of_slice hslice)
  rw [himage.width] at hpaint
  refine ⟨_, w', hslice, hw', hpaint.window hslice ?_⟩
  rintro i ⟨y, hy, x, hx, hi⟩
  have hx8 := List.mem_range.mp hx
  have hrow : (7 - y) * (8 * columns) ≤ 7 * (8 * columns) := Nat.mul_le_mul_right _ (Nat.sub_le 7 y)
  have hroom := @length_decodedPixel_le depth format converted (source.advance (k * format.tileBytes)) x y
  calc i < ((7 - y) * (8 * columns) + x) * format.linearBytesPerPixel converted +
          (format.decodedPixel depth converted (source.advance (k * format.tileBytes)) x y).length := hi.2
    _ ≤ ((7 - y) * (8 * columns) + x) * format.linearBytesPerPixel converted +
          format.linearBytesPerPixel converted := Nat.add_le_add_left hroom _
    _ = ((7 - y) * (8 * columns) + x + 1) * format.linearBytesPerPixel converted := (Nat.succ_mul ..).symm
    _ ≤ (7 * (8 * columns) + 8) * format.linearBytesPerPixel converted := Nat.mul_le_mul_right _ (by omega)

/-- The bytes of the linear image that the tiles from the `k`-th on are decoded to. -/
def decodedFrom (depth : DepthFloat) (format : SurfaceFormat) (converted : Bool) (columns rows : Nat)
    (source : Pointer) (k : Nat) : Set Nat :=
  {i | ∃ m, k ≤ m ∧ m < columns * rows ∧ i ∈ decodedTile depth format converted columns rows source m}

theorem decodedFrom_end :
    decodedFrom depth format converted columns rows source (columns * rows) = ∅ :=
  Set.eq_empty_of_forall_notMem fun _ ⟨_, hle, hlt, _⟩ => absurd hlt (not_lt.mpr hle)

theorem decodedFrom_eq (hk : k < columns * rows) :
    decodedFrom depth format converted columns rows source k =
      decodedTile depth format converted columns rows source k ∪
        decodedFrom depth format converted columns rows source (k + 1) := by
  ext i
  constructor
  · rintro ⟨m, hle, hm, hi⟩
    rcases hle.eq_or_lt with rfl | hlt
    · exact .inl hi
    · exact .inr ⟨m, hlt, hm, hi⟩
  · rintro (hi | ⟨m, hle, hm, hi⟩)
    · exact ⟨k, le_rfl, hk, hi⟩
    · exact ⟨m, (Nat.le_succ k).trans hle, hm, hi⟩

theorem copyTiles_painted
    (himage : TiledImage width height columns rows (format.linearBytesPerPixel converted))
    (hend : bufferEnd.toNat = columns * rows * format.tileBytes) {rounds : Nat}
    (hc : OnTile columns rows (format.linearBytesPerPixel converted) k c)
    (hoffset : c.tiledOffset.toNat = k * format.tileBytes) (hk : k ≤ columns * rows)
    (hrounds : columns * rows ≤ k + rounds)
    (hl : l.length = 8 * columns * (8 * rows) * format.linearBytesPerPixel converted) :
    ∃ l', format.copyTiles depth converted width height bufferEnd
        ⟨source, columns * rows * format.tileBytes⟩ rounds c l = some l' ∧
      Painted (linearByte depth format converted columns rows source)
        (decodedFrom depth format converted columns rows source k) l l' := by
  have hcond {k : Nat} {c : TileCursor} (hoffset : c.tiledOffset.toNat = k * format.tileBytes) :
      c.tiledOffset < bufferEnd ↔ k < columns * rows := by
    rw [UInt32.lt_iff_toNat_lt, hoffset, hend, Nat.mul_lt_mul_right format.tileBytes_pos]
  -- The tiles that are left are the next one and those behind it.
  induction rounds generalizing k c l with
  | zero =>
      obtain rfl : k = columns * rows := by omega
      refine ⟨l, ?_, decodedFrom_end ▸ .refl⟩
      rw [copyTiles, if_neg ((hcond hoffset).not.mpr (lt_irrefl _))]
  | succ rounds ih =>
      rcases hk.eq_or_lt with rfl | hlt
      · refine ⟨l, ?_, decodedFrom_end ▸ .refl⟩
        rw [copyTiles, if_neg ((hcond hoffset).not.mpr (lt_irrefl _))]
      · obtain ⟨w, w', hslice, hcopy, hpaint⟩ :=
          @copyTile_painted depth format converted width height columns rows k source l himage hlt hl
        have hlast : k * format.tileBytes + format.tileBytes ≤ columns * rows * format.tileBytes :=
          (Nat.succ_mul ..).symm.le.trans (Nat.mul_le_mul_right _ hlt)
        have hbytes := himage.tiled_lt
        have hoffset' : (c.tiledOffset + UInt32.ofNat format.tileBytes).toNat = (k + 1) * format.tileBytes := by
          rw [UInt32.toNat_add, hoffset, toNat_tileBytes, Nat.mod_eq_of_lt (by omega), Nat.succ_mul]
        have hnext := hc.next himage hlt (c.tiledOffset + UInt32.ofNat format.tileBytes)
        obtain ⟨l', hl', hpaint'⟩ := ih hnext hoffset' hlt (by omega) (hpaint.length.trans hl)
        have hsubspan : (Span.mk source (columns * rows * format.tileBytes)).subspan
            (k * format.tileBytes) format.tileBytes =
              some ⟨source.advance (k * format.tileBytes), format.tileBytes⟩ := if_pos hlast
        refine ⟨l', ?_, decodedFrom_eq hlt ▸ hpaint.trans hpaint'⟩
        rw [copyTiles, if_pos ((hcond hoffset).mpr hlt)]
        simp only [himage.toNat_linearTileStride, hc.toNat_linearOffset himage hlt, hslice, hoffset, hsubspan,
          hcopy, Option.bind_eq_bind, Option.bind_some]
        exact hl'

/-- A copy of a whole image decodes all its tiles. -/
theorem mortonCopy_painted
    (himage : TiledImage width height columns rows (format.linearBytesPerPixel converted)) {rounds : Nat}
    (hrounds : columns * rows ≤ rounds)
    (hl : l.length = 8 * columns * (8 * rows) * format.linearBytesPerPixel converted) :
    ∃ l', format.mortonCopy depth converted rounds width height 0
        (UInt32.ofNat (columns * rows * format.tileBytes)) l
        ⟨source, columns * rows * format.tileBytes⟩ = some l' ∧
      Painted (linearByte depth format converted columns rows source)
        (decodedFrom depth format converted columns rows source 0) l l' := by
  have hpos := Nat.mul_pos (Nat.mul_pos himage.columns_pos himage.rows_pos) format.tileBytes_pos
  have hend : (UInt32.ofNat (columns * rows * format.tileBytes)).toNat = columns * rows * format.tileBytes :=
    UInt32.toNat_ofNat_of_lt' himage.tiled_lt
  have hdown : alignDown 0 (UInt32.ofNat format.tileBytes) = 0 := by
    simp [alignDown]
  have hup : alignUp 0 (UInt32.ofNat format.tileBytes) = 0 := by
    simp [alignUp]
  have haligned : alignDown (UInt32.ofNat (columns * rows * format.tileBytes))
      (UInt32.ofNat format.tileBytes) = UInt32.ofNat (columns * rows * format.tileBytes) := by
    rw [← UInt32.toNat_inj, toNat_alignDown, hend, Grid.floor_of_dvd (Nat.dvd_mul_left ..)]
  have hcond : (0 : UInt32) < UInt32.ofNat (columns * rows * format.tileBytes) := by
    rw [UInt32.lt_iff_toNat_lt, hend]
    exact hpos
  have hmin (bufferEnd : UInt32) : min bufferEnd bufferEnd = bufferEnd := ite_self _
  have hbegin := @onTile_beginCursor width height columns rows 0 format converted 0 himage
    (Nat.zero_mul _).symm (by rw [Nat.zero_mul, Nat.zero_mul]; decide)
  obtain ⟨l', hl', hpaint⟩ := @copyTiles_painted depth format converted width height
    (UInt32.ofNat (columns * rows * format.tileBytes)) columns rows 0 source
    (format.beginCursor converted width height 0) l himage hend rounds hbegin (Nat.zero_mul _).symm
    (Nat.zero_le _) (by omega) hl
  refine ⟨l', ?_, hpaint⟩
  simp only [mortonCopy, hdown, hup, haligned, himage.width_ne_zero, hcond, UInt32.sub_zero, hmin, and_self,
    not_true, if_false, if_true]
  exact hl'

theorem slice_decoded {l' : List UInt8} {x y : Nat}
    (himage : TiledImage width height columns rows (format.linearBytesPerPixel converted))
    (hl : l.length = 8 * columns * (8 * rows) * format.linearBytesPerPixel converted)
    (hpaint : Painted (linearByte depth format converted columns rows source)
      (decodedFrom depth format converted columns rows source 0) l l')
    (hk : k < columns * rows) (hx : x < 8) (hy : y < 8) :
    slice l' ((tileStart columns rows k + ((7 - y) * (8 * columns) + x)) * format.linearBytesPerPixel converted)
        (format.decodedPixel depth converted (source.advance (k * format.tileBytes)) x y).length =
      some (format.decodedPixel depth converted (source.advance (k * format.tileBytes)) x y) := by
  have hroom := @length_decodedPixel_le depth format converted (source.advance (k * format.tileBytes)) x y
  have hrow : (7 - y) * (8 * columns) ≤ 7 * (8 * columns) := Nat.mul_le_mul_right _ (Nat.sub_le 7 y)
  have hwindow := tileStart_window_le himage.columns_pos hk
  have hbound : (tileStart columns rows k + ((7 - y) * (8 * columns) + x)) *
      format.linearBytesPerPixel converted + format.linearBytesPerPixel converted ≤ l.length := by
    rw [hl, ← Nat.succ_mul]
    exact Nat.mul_le_mul_right _ (by omega)
  refine hpaint.slice_eq rfl (fun j hj => ?_) (fun j hj => ?_) (by omega)
  · refine ⟨k, Nat.zero_le _, hk, ((7 - y) * (8 * columns) + x) * format.linearBytesPerPixel converted + j,
      ⟨y, List.mem_range.mpr hy, x, List.mem_range.mpr hx, Nat.le_add_right .., Nat.add_lt_add_left hj _⟩, ?_⟩
    beta_reduce
    rw [Nat.add_mul (tileStart columns rows k)]
    omega
  · rw [linearByte_pixel himage.columns_pos hk hx hy (hj.trans_le hroom), List.getElem?_eq_getElem hj,
      List.getD_eq_getElem _ _ hj]

end Loop

end Cytrus.VideoCore.SurfaceFormat
