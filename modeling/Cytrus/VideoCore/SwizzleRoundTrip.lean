import Cytrus.VideoCore.PartialSwizzle
import Cytrus.VideoCore.TileDecoding

/-!
# Unswizzling and swizzling

A tiled image that is decoded to a linear one and encoded again is the same: each pixel
is encoded to the bytes that it was decoded from, at the place where it was found.

## Main results

* `mortonCopyToTiled_mortonCopy`: the round trip
* `mortonCopy_tooWide`: an image that is too wide is not decoded
-/

namespace Cytrus.VideoCore

open Support

/-- The bytes of a list as they are read. -/
def Span.ofList (bytes : List UInt8) : Span := ⟨(bytes.getD · 0), bytes.length⟩

namespace SurfaceFormat

variable {depth : DepthFloat} {format : SurfaceFormat} {converted : Bool} {columns rows k : Nat}
  {source : Pointer} {linear : List UInt8}

/-- The linear image has at its pixels what the tiles are decoded to. -/
def Decoded (depth : DepthFloat) (format : SurfaceFormat) (converted : Bool) (columns rows : Nat)
    (source : Pointer) (linear : List UInt8) : Prop :=
  ∀ k < columns * rows, ∀ x < 8, ∀ y < 8,
    slice linear ((tileStart columns rows k + ((7 - y) * (8 * columns) + x)) *
        format.linearBytesPerPixel converted)
        (format.decodedPixel depth converted (source.advance (k * format.tileBytes)) x y).length =
      some (format.decodedPixel depth converted (source.advance (k * format.tileBytes)) x y)

theorem getD_of_slice {l data : List UInt8} {i n j : Nat} (h : slice l i n = some data) (hj : j < n) :
    l.getD (i + j) 0 = data.getD j 0 := by
  obtain ⟨-, rfl⟩ := slice_eq_some.mp h
  rw [List.getD_eq_getElem?_getD, List.getD_eq_getElem?_getD, List.getElem?_take_of_lt hj, List.getElem?_drop]

theorem Decoded.placedPixel (h : Decoded depth format converted columns rows source linear)
    (hk : k < columns * rows) {m j : Nat}
    (hj : j < (format.decodedPixel depth converted (source.advance (k * format.tileBytes)) (mortonX m)
      (mortonY m)).length) :
    format.placedPixel converted (8 * columns) ((Span.ofList linear).data.advance
        (tileStart columns rows k * format.linearBytesPerPixel converted)) m j =
      (format.decodedPixel depth converted (source.advance (k * format.tileBytes)) (mortonX m)
        (mortonY m)).getD j 0 := by
  rw [← getD_of_slice (h k hk (mortonX m) (mortonX_lt m) (mortonY m) (mortonY_lt m)) hj]
  change linear.getD _ 0 = _
  rw [Nat.add_mul (tileStart columns rows k), Nat.add_assoc]

theorem decodedPixel_of_bytes (h4 : ¬ format.Is4Bit) (hcompressed : ¬ format.IsCompressed) (tile : Pointer)
    (x y : Nat) :
    format.decodedPixel depth converted tile x y =
      format.decodePixel depth converted (tile.advance (mortonInterleave x y * (format.bpp / 8))) := by
  cases format with
  | color format =>
      have hcompressed' : ¬ (format = .ETC1 ∨ format = .ETC1A4) := fun h =>
        hcompressed (h.imp (congrArg color) (congrArg color))
      have h4' : ¬ (format = .I4 ∨ format = .A4) := fun h => h4 (h.imp (congrArg color) (congrArg color))
      exact (if_neg hcompressed').trans (if_neg h4')
  | _ => rfl

theorem getD_take (p : Pointer) {n j : Nat} (hj : j < n) : (p.take n).getD j 0 = p j := by
  rw [Pointer.take, List.getD_eq_getElem?_getD, List.getElem?_map, List.getElem?_range hj]
  rfl

theorem Decoded.tileCode_of_bytes (h : Decoded depth format converted columns rows source linear)
    (h4 : ¬ format.Is4Bit) (hcompressed : ¬ format.IsCompressed) (hD24 : format ≠ D24)
    (hk : k < columns * rows) {i : Nat} (hi : i < format.tileBytes) :
    format.tileCode depth converted (8 * columns) ((Span.ofList linear).data.advance
        (tileStart columns rows k * format.linearBytesPerPixel converted)) i =
      source (k * format.tileBytes + i) := by
  obtain ⟨hsize, hpos⟩ := tileBytes_of_bytes h4 hcompressed
  have hm : i / (format.bpp / 8) < 64 := Nat.div_lt_of_lt_mul (by rwa [Nat.mul_comm, ← hsize])
  have hrest : i % (format.bpp / 8) < format.bpp / 8 := Nat.mod_lt _ hpos
  have hpixel := @encodePixel_decodePixel
    ((source.advance (k * format.tileBytes)).advance (i / (format.bpp / 8) * (format.bpp / 8)))
    (format.placedPixel converted (8 * columns) ((Span.ofList linear).data.advance
      (tileStart columns rows k * format.linearBytesPerPixel converted)) (i / (format.bpp / 8)))
    depth format converted h4 hcompressed hD24 fun j hj => by
      have hplaced := @Decoded.placedPixel depth format converted columns rows k source linear h hk
        (i / (format.bpp / 8)) j
      rw [decodedPixel_of_bytes h4 hcompressed, mortonInterleave_mortonX hm] at hplaced
      exact hplaced hj
  rw [tileCode, if_neg h4, hpixel, getD_take _ hrest, advance_advance, Pointer.advance, Nat.add_assoc,
    Nat.div_add_mod']

theorem Decoded.tileCode_of_is4Bit (h : Decoded depth format converted columns rows source linear)
    (h4 : format.Is4Bit) (hk : k < columns * rows) {i : Nat} (hi : i < format.tileBytes) :
    format.tileCode depth converted (8 * columns) ((Span.ofList linear).data.advance
        (tileStart columns rows k * format.linearBytesPerPixel converted)) i =
      source (k * format.tileBytes + i) := by
  have hsize := (bpp_of_is4Bit h4).2
  have hnibble {m : Nat} (hm : m < 64) :
      format.encodeNibble (format.placedPixel converted (8 * columns) ((Span.ofList linear).data.advance
        (tileStart columns rows k * format.linearBytesPerPixel converted)) m) =
          nibbleAt (source.advance (k * format.tileBytes)) m := by
    obtain ⟨textureFormat, rfl⟩ : ∃ textureFormat, format = color textureFormat := by
      rcases h4 with rfl | rfl <;> exact ⟨_, rfl⟩
    have hdecoded (x y : Nat) : (color textureFormat).decodedPixel depth converted
        (source.advance (k * (color textureFormat).tileBytes)) x y =
          decodePixel4 textureFormat x y (source.advance (k * (color textureFormat).tileBytes)) := by
      rcases h4 with hformat | hformat <;> obtain rfl := SurfaceFormat.color.inj hformat <;> rfl
    have hlength (x y : Nat) :
        (decodePixel4 textureFormat x y (source.advance (k * (color textureFormat).tileBytes))).length = 4 := by
      rw [decodePixel4]
      split <;> rfl
    have hpixel := @encodeNibble_decodePixel4 (source.advance (k * (color textureFormat).tileBytes))
      ((color textureFormat).placedPixel converted (8 * columns) ((Span.ofList linear).data.advance
        (tileStart columns rows k * (color textureFormat).linearBytesPerPixel converted)) m)
      (mortonX m) (mortonY m) textureFormat h4 fun j hj => by
        have hplaced := @Decoded.placedPixel depth (color textureFormat) converted columns rows k source linear h
          hk m j
        rw [hdecoded, hlength] at hplaced
        exact hplaced hj
    rw [hpixel, mortonInterleave_mortonX hm]
  have hhalves (b : UInt8) : ((b >>> 4) <<< 4) ||| (b &&& 0xF) = b := by
    have h : ∀ n : Fin 256, ((UInt8.ofNat n >>> 4) <<< 4) ||| (UInt8.ofNat n &&& 0xF) = UInt8.ofNat n := by
      decide +kernel
    simpa using h ⟨b.toNat, b.toNat_lt⟩
  have hodd : (2 * i + 1) / 2 = i := by omega
  have heven : 2 * i / 2 = i := by omega
  rw [tileCode, if_pos h4, hnibble (by omega), hnibble (by omega), nibbleAt, nibbleAt, if_pos (by omega),
    if_neg (by omega), hodd, heven, hhalves]
  rfl

theorem Decoded.tiledImage_eq (h : Decoded depth format converted columns rows source linear)
    (hcompressed : ¬ format.IsCompressed) (hD24 : format ≠ D24) :
    tiledImage depth format converted columns rows (Span.ofList linear).data =
      source.take (columns * rows * format.tileBytes) := by
  refine List.map_congr_left fun i hi => ?_
  have hlt := List.mem_range.mp hi
  have hpos := format.tileBytes_pos
  have hk : i / format.tileBytes < columns * rows := Nat.div_lt_of_lt_mul (by rwa [Nat.mul_comm])
  have hrest : i % format.tileBytes < format.tileBytes := Nat.mod_lt _ hpos
  have hplace : i / format.tileBytes * format.tileBytes + i % format.tileBytes = i := Nat.div_add_mod' ..
  rw [tiledByte]
  by_cases h4 : format.Is4Bit
  · rw [h.tileCode_of_is4Bit h4 hk hrest, hplace]
  · rw [h.tileCode_of_bytes h4 hcompressed hD24 hk hrest, hplace]

theorem take_ofList (image : List UInt8) : (Span.ofList image).data.take image.length = image := by
  refine List.ext_getElem? fun i => ?_
  rcases Nat.lt_or_ge i image.length with hi | hi
  · rw [Pointer.take, List.getElem?_map, List.getElem?_range hi, List.getElem?_eq_getElem hi]
    exact congrArg some (List.getD_eq_getElem _ _ hi)
  · rw [List.getElem?_eq_none hi, List.getElem?_eq_none (by rwa [Pointer.take, List.length_map, List.length_range])]

/-- Decoding a tiled image and encoding what it is decoded to gives the image back. -/
theorem mortonCopyToTiled_mortonCopy {width height : UInt32} {rounds : Nat}
    {image linear tiled headBuf tailBuf : List UInt8} (hcompressed : ¬ format.IsCompressed)
    (hD24 : format ≠ D24) (hwidth : 8 ∣ width.toNat) (hheight : 8 ∣ height.toNat)
    (hcolumns : 0 < width.toNat) (hrows : 0 < height.toNat)
    (hlinear : linear.length = width.toNat * height.toNat * format.linearBytesPerPixel converted)
    (hfits : linear.length < 2 ^ 32)
    (himage : image.length = width.toNat * height.toNat * format.bpp / 8)
    (htiled : tiled.length = image.length)
    (hrounds : width.toNat / 8 * (height.toNat / 8) ≤ rounds)
    (hhead : headBuf.length = format.tileBytes) (htail : tailBuf.length = format.tileBytes) :
    ∃ linear', format.mortonCopy depth converted rounds width height 0 (UInt32.ofNat image.length) linear
        (Span.ofList image) = some linear' ∧
      format.mortonCopyToTiled depth converted rounds headBuf tailBuf width height 0
        (UInt32.ofNat image.length) (Span.ofList linear') tiled = some image := by
  have hdims := @tiledImage_of_dvd format converted width height hwidth hheight hcolumns hrows
    (by rwa [← hlinear])
  have hsize := himage.trans (@tiledBytes_of_dvd format width height hwidth hheight)
  have hlength : linear.length = 8 * (width.toNat / 8) * (8 * (height.toNat / 8)) *
      format.linearBytesPerPixel converted := by
    rw [Nat.mul_div_cancel' hwidth, Nat.mul_div_cancel' hheight, hlinear]
  obtain ⟨linear', hcopy, hpaint⟩ := @mortonCopy_painted depth format converted width height
    (width.toNat / 8) (height.toNat / 8) (Span.ofList image).data linear hdims rounds hrounds hlength
  have hdecoded : Decoded depth format converted (width.toNat / 8) (height.toNat / 8)
      (Span.ofList image).data linear' :=
    fun k hk x hx y hy => slice_decoded hdims hlength hpaint hk hx hy
  have hencode := @mortonCopyToTiled_whole depth format converted width height (width.toNat / 8)
    (height.toNat / 8) (Span.ofList linear') hdims hcompressed (hpaint.length.trans hlength).ge rounds hrounds
    headBuf tailBuf tiled hhead htail (htiled.trans hsize)
  refine ⟨linear', ?_, ?_⟩
  · rw [← hsize] at hcopy
    exact hcopy
  · rw [hsize, hencode, hdecoded.tiledImage_eq hcompressed hD24, ← hsize, take_ofList]

/-- Two tiles of colours with a bit of alpha, each byte of them another one. -/
def colours : List UInt8 := (List.range 256).map UInt8.ofNat

theorem length_colours : colours.length = 256 := by
  rw [colours, List.length_map, List.length_range]

theorem mortonCopyToTiled_mortonCopy_colours :
    ∃ linear', (color .RGB5A1).mortonCopy ⟨id, id⟩ true 2 16 8 0 (UInt32.ofNat colours.length)
        (List.replicate 512 0) (Span.ofList colours) = some linear' ∧
      (color .RGB5A1).mortonCopyToTiled ⟨id, id⟩ true 2 (List.replicate 128 0) (List.replicate 128 0) 16 8 0
        (UInt32.ofNat colours.length) (Span.ofList linear') (List.replicate 256 0) = some colours :=
  mortonCopyToTiled_mortonCopy (by decide) (by decide) (by decide) (by decide) (by decide) (by decide)
    List.length_replicate (by rw [List.length_replicate]; decide) length_colours
    (List.length_replicate.trans length_colours.symm) (by decide) List.length_replicate
    List.length_replicate

/-- The width of a row of tiles in pixels is computed in 32 bits, and then divided by. -/
theorem mortonCopy_tooWide :
    ¬ ∃ (rounds : Nat) (image linear linear' : List UInt8), image.length = 2 ^ 29 * 8 * 4 / 8 ∧
      (color .I4).mortonCopy ⟨id, id⟩ false rounds (UInt32.ofNat (2 ^ 29)) 8 0 (UInt32.ofNat image.length)
        linear (Span.ofList image) = some linear' := by
  rintro ⟨rounds, image, linear, linear', -, hcopy⟩
  have hwide : UInt32.ofNat (2 ^ 29) * 8 = 0 := by decide
  rw [mortonCopy, if_pos hwide, ite_self] at hcopy
  cases hcopy

end SurfaceFormat

end Cytrus.VideoCore
