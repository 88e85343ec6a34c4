import Cytrus.VideoCore.TileDecoding

/-!
# The two texture decoders

Looking texels up one by one and decoding the whole image agree, with the rows
of the decoded image from the bottom up.

## Main results

* `lookupTexture_eq_mortonCopy`: the value that is looked up is the one that is stored

## Implementation notes

`MortonCopy` computes with 32-bit offsets, so the decoded image has less than 4 GiB.
-/

namespace Cytrus.VideoCore

open Support

theorem shiftRight_high (v : UInt8) : (v &&& 0xF0) >>> 4 = v >>> 4 := by
  have h : ∀ n : Fin 256, (UInt8.ofNat n &&& 0xF0) >>> 4 = UInt8.ofNat n >>> 4 := by decide +kernel
  simpa using h ⟨v.toNat, v.toNat_lt⟩

theorem lookupNibble_eq (source : Pointer) (m : Nat) :
    lookupNibble source m = if m % 2 = 1 then source (m >>> 1) >>> 4 else source (m >>> 1) &&& 0xF := by
  rw [lookupNibble, Nat.shiftRight_one, shiftRight_high]

section Pixel

variable {format : TextureFormat} {converted : Bool} {info : TextureInfo}

theorem linearBytesPerPixel_eq
    (hconverted : converted = true ∨ (pixelFormatFromTextureFormat format).Implicit) :
    (pixelFormatFromTextureFormat format).linearBytesPerPixel converted = 4 := by
  rcases hconverted with rfl | himplicit
  · rfl
  · rw [PixelFormat.linearBytesPerPixel, himplicit.1, ite_self]

theorem tileBytes_eq (format : TextureFormat) :
    (pixelFormatFromTextureFormat format).tileBytes = calculateTileSize format := by
  cases format <;> rfl

theorem decodeTilePixel_eq (hformat : info.format = format)
    (hconverted : converted = true ∨ (pixelFormatFromTextureFormat format).Implicit)
    (tile : Pointer) (x y : Nat) :
    decodeTilePixel (pixelFormatFromTextureFormat format) converted x y tile
        (tile.advance (mortonInterleave x y * ((pixelFormatFromTextureFormat format).bpp / 8))) =
      (lookupTexelInTile tile x y info false).asArray := by
  have hbyte : tile.advance (mortonInterleave x y * 1) 0 = tile (mortonInterleave x y) :=
    congrArg tile (by omega)
  have hnibble := (lookupNibble_eq tile (mortonInterleave x y)).symm
  rw [lookupTexelInTile, hformat]
  cases format with
  | RGBA8 | RGB8 | RGB5A1 | RGB565 | RGBA4 =>
      cases hconverted.resolve_right (by decide)
      rfl
  | IA8 | RG8 | ETC1 | ETC1A4 => cases converted <;> rfl
  | I8 => cases converted <;> exact congrArg (fun i => [i, i, i, 255]) hbyte
  | A8 => cases converted <;> exact congrArg (fun a => [0, 0, 0, a]) hbyte
  | IA4 =>
      cases converted <;> exact congrArg (fun value : UInt8 =>
        let i := Color.convert4To8 ((value &&& 0xF0) >>> 4)
        [i, i, i, Color.convert4To8 (value &&& 0xF)]) hbyte
  | I4 =>
      cases converted <;> exact congrArg (fun value =>
        let i := Color.convert4To8 value
        [i, i, i, 255]) hnibble
  | A4 => cases converted <;> exact congrArg (fun value => [0, 0, 0, Color.convert4To8 value]) hnibble

end Pixel

theorem lookupTexture_tile (source : Pointer) {info : TextureInfo} {columns k x y : Nat}
    (hstride : info.stride = calculateTileSize info.format * columns) (hx : x < 8) (hy : y < 8) :
    lookupTexture source (8 * (k % columns) + x) (8 * (k / columns) + y) info false =
      lookupTexelInTile (source.advance (k * calculateTileSize info.format)) x y info false := by
  have hoffset : k / columns * info.stride + k % columns * calculateTileSize info.format =
      k * calculateTileSize info.format := by
    calc k / columns * info.stride + k % columns * calculateTileSize info.format
        = (columns * (k / columns) + k % columns) * calculateTileSize info.format := by
          rw [hstride]
          ring
      _ = k * calculateTileSize info.format := by rw [Nat.div_add_mod]
  have hdiv {n i : Nat} (hi : i < 8) : (8 * n + i) / 8 = n := by omega
  have hmod {n i : Nat} (hi : i < 8) : (8 * n + i) % 8 = i := by omega
  rw [lookupTexture, hdiv hx, hdiv hy, hmod hx, hmod hy, advance_advance, hoffset]

section Image

variable {format : TextureFormat} {converted : Bool} {width height : UInt32} {source : Pointer}
  {l : List UInt8}

/-- The texel that is looked up is the one that `MortonCopy` stores for its pixel. -/
theorem lookupTexture_eq_mortonCopy {x y rounds : Nat}
    (hconverted : converted = true ∨ (pixelFormatFromTextureFormat format).Implicit)
    (hwidth : 8 ∣ width.toNat) (hheight : 8 ∣ height.toNat)
    (hlinear : l.length = width.toNat * height.toNat * 4) (hfits : l.length < 2 ^ 32)
    (hrounds : width.toNat / 8 * (height.toNat / 8) ≤ rounds)
    (hx : x < width.toNat) (hy : y < height.toNat) :
    let size := width.toNat * height.toNat * (pixelFormatFromTextureFormat format).bpp / 8
    ∃ linear, mortonCopy (pixelFormatFromTextureFormat format) converted rounds width height 0
        (UInt32.ofNat size) l ⟨source, size⟩ = some linear ∧
      slice linear (((height.toNat - 1 - y) * width.toNat + x) * 4) 4 =
        some (lookupTexture source x y
          (TextureInfo.setDefaultStride ⟨width.toNat, height.toNat, 0, format⟩) false).asArray := by
  have hbytes : (SurfaceFormat.color (pixelFormatFromTextureFormat format)).linearBytesPerPixel converted = 4 :=
    linearBytesPerPixel_eq hconverted
  have htile : (SurfaceFormat.color (pixelFormatFromTextureFormat format)).tileBytes =
      calculateTileSize format := tileBytes_eq format
  have hcolumns : 8 * (width.toNat / 8) = width.toNat := Nat.mul_div_cancel' hwidth
  have hrows : 8 * (height.toNat / 8) = height.toNat := Nat.mul_div_cancel' hheight
  have hlength : l.length = 8 * (width.toNat / 8) * (8 * (height.toNat / 8)) *
      (SurfaceFormat.color (pixelFormatFromTextureFormat format)).linearBytesPerPixel converted := by
    rw [hcolumns, hrows, hbytes, hlinear]
  have himage := @SurfaceFormat.tiledImage_of_dvd (.color (pixelFormatFromTextureFormat format)) converted
    width height hwidth hheight (by omega) (by omega) (by rwa [hbytes, ← hlinear])
  have hsize := @SurfaceFormat.tiledBytes_of_dvd (.color (pixelFormatFromTextureFormat format)) width height
    hwidth hheight
  obtain ⟨linear, hcopy, hpaint⟩ := @SurfaceFormat.mortonCopy_painted ⟨id, id⟩
    (.color (pixelFormatFromTextureFormat format)) converted width height (width.toNat / 8)
    (height.toNat / 8) source l himage rounds hrounds hlength
  rw [← hsize, SurfaceFormat.mortonCopy_color] at hcopy
  refine ⟨linear, hcopy, ?_⟩
  obtain ⟨k, hk, hmod, hdiv⟩ := @tile_of_texel (width.toNat / 8) (height.toNat / 8) x y
    (by rwa [hcolumns]) (by rwa [hrows])
  have hx8 : x % 8 < 8 := Nat.mod_lt _ (by decide)
  have hy8 : y % 8 < 8 := Nat.mod_lt _ (by decide)
  have hplace := @texelIndex_tile (width.toNat / 8) (height.toNat / 8) k (x % 8) (y % 8) (row_lt hk) hy8
  have hlookup := @lookupTexture_tile source
    (TextureInfo.setDefaultStride ⟨width.toNat, height.toNat, 0, format⟩) (width.toNat / 8) k (x % 8) (y % 8)
    rfl hx8 hy8
  have hslice := SurfaceFormat.slice_decoded himage hlength hpaint hk hx8 hy8
  have hpixel : SurfaceFormat.decodedPixel ⟨id, id⟩ (.color (pixelFormatFromTextureFormat format)) converted
      (source.advance (k * calculateTileSize format)) (x % 8) (y % 8) =
        (lookupTexelInTile (source.advance (k * calculateTileSize format)) (x % 8) (y % 8)
          (TextureInfo.setDefaultStride ⟨width.toNat, height.toNat, 0, format⟩) false).asArray :=
    @decodeTilePixel_eq format converted
      (TextureInfo.setDefaultStride ⟨width.toNat, height.toNat, 0, format⟩) rfl hconverted _ _ _
  rw [hmod, hdiv, Nat.div_add_mod, Nat.div_add_mod, hcolumns, hrows, texelIndex] at hplace
  rw [hmod, hdiv, Nat.div_add_mod, Nat.div_add_mod] at hlookup
  rw [htile, hpixel, hcolumns, hplace, hbytes] at hslice
  rw [hlookup]
  exact hslice

end Image

/-- The bytes of an image, each with another one. -/
def gradient : Pointer := fun i => UInt8.ofNat (i * 37)

/-- A texel of a tile with four bits a pixel. -/
theorem lookupTexture_gradient :
    ∃ linear, mortonCopy .I4 true 1 8 8 0 32 (List.replicate 256 0) ⟨gradient, 32⟩ = some linear ∧
      slice linear ((5 * 8 + 3) * 4) 4 = some [0xDD, 0xDD, 0xDD, 255] := by
  obtain ⟨linear, hcopy, hslice⟩ := @lookupTexture_eq_mortonCopy .I4 true 8 8 gradient
    (List.replicate 256 0) 3 2 1 (.inl rfl) (by decide) (by decide) List.length_replicate
    (by rw [List.length_replicate]; decide) (by decide) (by decide) (by decide)
  exact ⟨linear, hcopy, hslice.trans (congrArg some (by decide))⟩

end Cytrus.VideoCore
