import Cytrus.VideoCore.TextureCodec
import Cytrus.VideoCore.RasterizerCache

/-!
# Pixels of surfaces

The formats of surfaces: those of textures and those of depth buffers. A pixel is
decoded to the bytes that the host has for it, and encoded from them.

## Implementation notes

A value of 24 bits is converted to a float and back by functions that are
arguments: nothing depends on what they do.

## Main results

* `encodePixel_decodePixel`: what is decoded is encoded to the same bytes
* `encodeNibble_decodePixel4`: the same of a pixel of four bits
-/

namespace Cytrus.VideoCore

/-- `PixelFormat`, with the formats of depth buffers and without `Invalid`. -/
inductive SurfaceFormat where
  | color (format : PixelFormat)
  | D16 | D24 | D24S8
deriving DecidableEq

namespace SurfaceFormat

/-- `FORMAT_MAP`: the bits of a pixel in guest memory, and its bytes on the host. -/
def formatMap : SurfaceFormat → Nat × Nat
  | color format => format.formatMap
  | D16 => (16, 2)
  | D24 => (24, 4)
  | D24S8 => (32, 4)

/-- `GetFormatBpp`. -/
def bpp (format : SurfaceFormat) : Nat := format.formatMap.1

/-- `GetFormatBytesPerPixel`. -/
def bytesPerPixel (format : SurfaceFormat) : Nat := format.formatMap.2

/-- `GetFormatType`. -/
def type : SurfaceFormat → SurfaceType
  | color .RGBA8 | color .RGB8 | color .RGB5A1 | color .RGB565 | color .RGBA4 => .color
  | color _ => .texture
  | D16 | D24 => .depth
  | D24S8 => .depthStencil

def linearBytesPerPixel (format : SurfaceFormat) (converted : Bool) : Nat :=
  if converted then 4 else format.bytesPerPixel

/-- `tile_size`. -/
def tileBytes (format : SurfaceFormat) : Nat := format.bpp * 64 / 8

/-- The formats with two pixels in a byte. -/
def Is4Bit (format : SurfaceFormat) : Prop := format = color .I4 ∨ format = color .A4

instance (format : SurfaceFormat) : Decidable format.Is4Bit := inferInstanceAs (Decidable (_ ∨ _))

/-- The compressed formats, which are not encoded. -/
def IsCompressed (format : SurfaceFormat) : Prop := format = color .ETC1 ∨ format = color .ETC1A4

instance (format : SurfaceFormat) : Decidable format.IsCompressed := inferInstanceAs (Decidable (_ ∨ _))

end SurfaceFormat

/-- `u32`, copied from memory. -/
def Pointer.u32 (bytes : Pointer) : UInt32 :=
  (bytes 0).toUInt32 ||| ((bytes 1).toUInt32 <<< 8) ||| ((bytes 2).toUInt32 <<< 16) |||
    ((bytes 3).toUInt32 <<< 24)

/-- The first bytes at a pointer. -/
def Pointer.take (bytes : Pointer) (n : Nat) : List UInt8 := (List.range n).map bytes

/-- A `u16` as it is copied to memory. -/
def bytesOfU16 (v : UInt16) : List UInt8 := [v.toUInt8, (v >>> 8).toUInt8]

/-- A `u32` as it is copied to memory. -/
def bytesOfU32 (v : UInt32) : List UInt8 :=
  [v.toUInt8, (v >>> 8).toUInt8, (v >>> 16).toUInt8, (v >>> 24).toUInt8]

/-- `Common::Vec4<u8>`, copied from memory. -/
def Pointer.vec4 (bytes : Pointer) : Vec4 := ⟨bytes 0, bytes 1, bytes 2, bytes 3⟩

namespace Color

def convert8To1 (value : UInt8) : UInt8 := value >>> 7

def convert8To4 (value : UInt8) : UInt8 := value >>> 4

def convert8To5 (value : UInt8) : UInt8 := value >>> 3

def convert8To6 (value : UInt8) : UInt8 := value >>> 2

def averageRgbComponents (color : Vec4) : UInt8 :=
  ((color.r.toUInt32 + color.g.toUInt32 + color.b.toUInt32) / 3).toUInt8

def encodeRGBA8 (color : Vec4) : List UInt8 := [color.a, color.b, color.g, color.r]

def encodeRGB8 (color : Vec4) : List UInt8 := [color.b, color.g, color.r]

def encodeRG8 (color : Vec4) : List UInt8 := [color.g, color.r]

def encodeRGB565 (color : Vec4) : List UInt8 :=
  bytesOfU16 (((convert8To5 color.r).toUInt16 <<< 11) ||| ((convert8To6 color.g).toUInt16 <<< 5) |||
    (convert8To5 color.b).toUInt16)

def encodeRGB5A1 (color : Vec4) : List UInt8 :=
  bytesOfU16 (((convert8To5 color.r).toUInt16 <<< 11) ||| ((convert8To5 color.g).toUInt16 <<< 6) |||
    ((convert8To5 color.b).toUInt16 <<< 1) ||| (convert8To1 color.a).toUInt16)

def encodeRGBA4 (color : Vec4) : List UInt8 :=
  bytesOfU16 (((convert8To4 color.r).toUInt16 <<< 12) ||| ((convert8To4 color.g).toUInt16 <<< 8) |||
    ((convert8To4 color.b).toUInt16 <<< 4) ||| (convert8To4 color.a).toUInt16)

def encodeIA8 (color : Vec4) : List UInt8 := [color.a, averageRgbComponents color]

def encodeI8 (color : Vec4) : List UInt8 := [averageRgbComponents color]

def encodeA8 (color : Vec4) : List UInt8 := [color.a]

def encodeIA4 (color : Vec4) : List UInt8 :=
  [(convert8To4 (averageRgbComponents color) <<< 4) ||| convert8To4 color.a]

def decodeD24 (bytes : Pointer) : UInt32 :=
  ((bytes 2).toUInt32 <<< 16) ||| ((bytes 1).toUInt32 <<< 8) ||| (bytes 0).toUInt32

def encodeD24 (value : UInt32) : List UInt8 :=
  [value.toUInt8, (value >>> 8).toUInt8, (value >>> 16).toUInt8]

end Color

/-- The conversions between a value of 24 bits and the bits of a float. -/
structure DepthFloat where
  ofD24 : UInt32 → UInt32
  toD24 : UInt32 → UInt32

/-- `std::rotl` by a byte. -/
def rotl8 (v : UInt32) : UInt32 := (v <<< 8) ||| (v >>> 24)

/-- `std::rotr` by a byte. -/
def rotr8 (v : UInt32) : UInt32 := (v >>> 8) ||| (v <<< 24)

namespace SurfaceFormat

variable (depth : DepthFloat)

def decodePixel (format : SurfaceFormat) (converted : Bool) (source : Pointer) : List UInt8 :=
  match format, converted with
  | color format, converted => VideoCore.decodePixel format converted source
  | D24, true => bytesOfU32 (depth.ofD24 (Color.decodeD24 source))
  | D24S8, _ => bytesOfU32 (rotl8 source.u32)
  | format, _ => source.take (format.bpp / 8)

def encodePixel (format : SurfaceFormat) (converted : Bool) (source : Pointer) : List UInt8 :=
  match format, converted with
  | color .RGBA8, true => Color.encodeRGBA8 source.vec4
  | color .RGB8, true => Color.encodeRGB8 source.vec4
  | color .RGB565, true => Color.encodeRGB565 source.vec4
  | color .RGB5A1, true => Color.encodeRGB5A1 source.vec4
  | color .RGBA4, true => Color.encodeRGBA4 source.vec4
  | color .IA8, _ => Color.encodeIA8 source.vec4
  | color .RG8, _ => Color.encodeRG8 source.vec4
  | color .I8, _ => Color.encodeI8 source.vec4
  | color .A8, _ => Color.encodeA8 source.vec4
  | color .IA4, _ => Color.encodeIA4 source.vec4
  | D24, true => Color.encodeD24 (depth.toD24 source.u32)
  | D24S8, _ => bytesOfU32 (rotr8 source.u32)
  | format, _ => source.take (format.bpp / 8)

/-- The new value of `EncodePixel4`. -/
def encodeNibble (format : SurfaceFormat) (source : Pointer) : UInt8 :=
  let pixel := if format = color .I4 then Color.averageRgbComponents source.vec4 else source.vec4.a
  Color.convert8To4 pixel

/-- A byte of the tile with a new value in one of its halves. -/
def withNibble (mortonOffset : Nat) (currentValues newValue : UInt8) : UInt8 :=
  if mortonOffset % 2 = 1 then (newValue <<< 4) ||| (currentValues &&& 0x0F)
  else (currentValues &&& 0xF0) ||| newValue

end SurfaceFormat

/-! ### What is decoded is encoded to the same bytes -/

namespace Color

theorem convert8To1_convert1To8 {v : UInt8} (hv : v < 2) : convert8To1 (convert1To8 v) = v := by
  have h : ∀ n : Fin 2, convert8To1 (convert1To8 (UInt8.ofNat n)) = UInt8.ofNat n := by decide
  simpa using h ⟨v.toNat, hv⟩

theorem convert8To4_convert4To8 {v : UInt8} (hv : v < 16) : convert8To4 (convert4To8 v) = v := by
  have h : ∀ n : Fin 16, convert8To4 (convert4To8 (UInt8.ofNat n)) = UInt8.ofNat n := by decide
  simpa using h ⟨v.toNat, hv⟩

theorem convert8To5_convert5To8 {v : UInt8} (hv : v < 32) : convert8To5 (convert5To8 v) = v := by
  have h : ∀ n : Fin 32, convert8To5 (convert5To8 (UInt8.ofNat n)) = UInt8.ofNat n := by decide
  simpa using h ⟨v.toNat, hv⟩

theorem convert8To6_convert6To8 {v : UInt8} (hv : v < 64) : convert8To6 (convert6To8 v) = v := by
  have h : ∀ n : Fin 64, convert8To6 (convert6To8 (UInt8.ofNat n)) = UInt8.ofNat n := by decide
  simpa using h ⟨v.toNat, hv⟩

theorem averageRgbComponents_grey (i a : UInt8) : averageRgbComponents ⟨i, i, i, a⟩ = i := by
  have hi := i.toNat_lt
  apply UInt8.toNat_inj.mp
  have hsum : (i.toNat + i.toNat + i.toNat) % 4294967296 = i.toNat * 3 := by omega
  simp [averageRgbComponents, hsum]

end Color

section Fields

theorem toNat_masked_le (x m : UInt16) : (x &&& m).toNat ≤ m.toNat := by
  rw [UInt16.toNat_and]
  exact Nat.and_le_right

theorem toUInt16_masked (x : UInt16) {m : UInt16} (hm : m < 256) :
    (x &&& m).toUInt8.toUInt16 = x &&& m := by
  have hle := toNat_masked_le x m
  have hlt : m.toNat < 256 := hm
  apply UInt16.toNat_inj.mp
  rw [UInt8.toNat_toUInt16, UInt16.toNat_toUInt8]
  exact Nat.mod_eq_of_lt (hle.trans_lt hlt)

theorem masked_lt (x : UInt16) {m : UInt16} {n : UInt8} (hm : m.toNat < n.toNat) :
    (x &&& m).toUInt8 < n := by
  have hle := toNat_masked_le x m
  rw [UInt8.lt_iff_toNat_lt, UInt16.toNat_toUInt8]
  exact (Nat.mod_le _ _).trans_lt (hle.trans_lt hm)

theorem fields_RGB565 (x : UInt16) :
    ((x >>> 11 &&& 0x1F) <<< 11) ||| ((x >>> 5 &&& 0x3F) <<< 5) ||| (x &&& 0x1F) = x := by
  apply UInt16.toBitVec_inj.mp
  ext i hi
  simp
  interval_cases i <;> simp

theorem fields_RGB5A1 (x : UInt16) :
    ((x >>> 11 &&& 0x1F) <<< 11) ||| ((x >>> 6 &&& 0x1F) <<< 6) ||| ((x >>> 1 &&& 0x1F) <<< 1) |||
      (x &&& 0x1) = x := by
  apply UInt16.toBitVec_inj.mp
  ext i hi
  simp
  interval_cases i <;> simp

theorem fields_RGBA4 (x : UInt16) :
    ((x >>> 12 &&& 0xF) <<< 12) ||| ((x >>> 8 &&& 0xF) <<< 8) ||| ((x >>> 4 &&& 0xF) <<< 4) |||
      (x &&& 0xF) = x := by
  apply UInt16.toBitVec_inj.mp
  ext i hi
  simp
  interval_cases i <;> simp

theorem bytesOfU16_u16 (source : Pointer) : bytesOfU16 source.u16 = [source 0, source 1] := by
  have hlow : source.u16.toUInt8 = source 0 := by
    apply UInt8.toBitVec_inj.mp
    ext i hi
    simp [Pointer.u16]
  have hhigh : (source.u16 >>> 8).toUInt8 = source 1 := by
    apply UInt8.toBitVec_inj.mp
    ext i hi
    simp [Pointer.u16]
    interval_cases i <;> simp
  rw [bytesOfU16, hlow, hhigh]

theorem bytesOfU32_u32 (source : Pointer) :
    bytesOfU32 source.u32 = [source 0, source 1, source 2, source 3] := by
  simp only [bytesOfU32, List.cons.injEq, and_true]
  refine ⟨?_, ?_, ?_, ?_⟩ <;>
  · apply UInt8.toBitVec_inj.mp
    ext i hi
    simp [Pointer.u32]
    try interval_cases i <;> simp

theorem u32_of_bytesOfU32 {source : Pointer} {v : UInt32}
    (h : ∀ j < 4, source j = (bytesOfU32 v).getD j 0) : source.u32 = v := by
  have hbyte (w : UInt32) : w.toUInt8.toUInt32 = w &&& 0xFF := by
    apply UInt32.toNat_inj.mp
    rw [UInt8.toNat_toUInt32, UInt32.toNat_toUInt8, UInt32.toNat_and]
    exact (Nat.and_two_pow_sub_one_eq_mod w.toNat 8).symm
  have hbytes : source.u32 = (v &&& (0xFF : UInt32)) ||| ((v >>> 8 &&& 0xFF) <<< 8) |||
      ((v >>> 16 &&& 0xFF) <<< 16) ||| ((v >>> 24 &&& 0xFF) <<< 24) := by
    rw [Pointer.u32, h 0 (by decide), h 1 (by decide), h 2 (by decide), h 3 (by decide), ← hbyte,
      ← hbyte, ← hbyte, ← hbyte]
    rfl
  rw [hbytes]
  apply UInt32.toBitVec_inj.mp
  ext i hi
  simp
  interval_cases i <;> simp

theorem rotr8_rotl8 (v : UInt32) : rotr8 (rotl8 v) = v := by
  apply UInt32.toBitVec_inj.mp
  ext i hi
  simp [rotr8, rotl8]
  interval_cases i <;> simp

end Fields

section RoundTrip

variable {source pixel : Pointer}

theorem vec4_of_asArray {v : Vec4} (h : ∀ j < 4, pixel j = v.asArray.getD j 0) : pixel.vec4 = v := by
  rw [Pointer.vec4, h 0 (by decide), h 1 (by decide), h 2 (by decide), h 3 (by decide)]
  rfl

theorem take_of_take {n : Nat} (h : ∀ j < n, pixel j = (source.take n).getD j 0) :
    pixel.take n = source.take n := by
  refine List.map_congr_left fun j hj => ?_
  have hlt := List.mem_range.mp hj
  rw [h j hlt, Pointer.take, List.getD_eq_getElem?_getD, List.getElem?_map, List.getElem?_range hlt]
  rfl

theorem encodeRGB565_decodeRGB565 (source : Pointer) :
    Color.encodeRGB565 (Color.decodeRGB565 source) = source.take 2 := by
  have hr := Color.convert8To5_convert5To8 (masked_lt (source.u16 >>> 11) (m := 0x1F) (n := 32) (by decide))
  have hg := Color.convert8To6_convert6To8 (masked_lt (source.u16 >>> 5) (m := 0x3F) (n := 64) (by decide))
  have hb := Color.convert8To5_convert5To8 (masked_lt source.u16 (m := 0x1F) (n := 32) (by decide))
  simp (disch := decide) only [Color.encodeRGB565, Color.decodeRGB565, hr, hg, hb, toUInt16_masked, fields_RGB565]
  exact bytesOfU16_u16 source

theorem encodeRGB5A1_decodeRGB5A1 (source : Pointer) :
    Color.encodeRGB5A1 (Color.decodeRGB5A1 source) = source.take 2 := by
  have hr := Color.convert8To5_convert5To8 (masked_lt (source.u16 >>> 11) (m := 0x1F) (n := 32) (by decide))
  have hg := Color.convert8To5_convert5To8 (masked_lt (source.u16 >>> 6) (m := 0x1F) (n := 32) (by decide))
  have hb := Color.convert8To5_convert5To8 (masked_lt (source.u16 >>> 1) (m := 0x1F) (n := 32) (by decide))
  have ha := Color.convert8To1_convert1To8 (masked_lt source.u16 (m := 0x1) (n := 2) (by decide))
  simp (disch := decide) only [Color.encodeRGB5A1, Color.decodeRGB5A1, hr, hg, hb, ha, toUInt16_masked, fields_RGB5A1]
  exact bytesOfU16_u16 source

theorem encodeRGBA4_decodeRGBA4 (source : Pointer) :
    Color.encodeRGBA4 (Color.decodeRGBA4 source) = source.take 2 := by
  have hr := Color.convert8To4_convert4To8 (masked_lt (source.u16 >>> 12) (m := 0xF) (n := 16) (by decide))
  have hg := Color.convert8To4_convert4To8 (masked_lt (source.u16 >>> 8) (m := 0xF) (n := 16) (by decide))
  have hb := Color.convert8To4_convert4To8 (masked_lt (source.u16 >>> 4) (m := 0xF) (n := 16) (by decide))
  have ha := Color.convert8To4_convert4To8 (masked_lt source.u16 (m := 0xF) (n := 16) (by decide))
  simp (disch := decide) only [Color.encodeRGBA4, Color.decodeRGBA4, hr, hg, hb, ha, toUInt16_masked, fields_RGBA4]
  exact bytesOfU16_u16 source

theorem encodeIA4_decodeIA4 (source : Pointer) :
    Color.encodeIA4 (Color.decodeIA4 source) = source.take 1 := by
  have h : ∀ n : Fin 256,
      (Color.convert8To4 (Color.convert4To8 ((UInt8.ofNat n &&& 0xF0) >>> 4)) <<< 4) |||
        Color.convert8To4 (Color.convert4To8 (UInt8.ofNat n &&& 0x0F)) = UInt8.ofNat n := by
    decide +kernel
  have hbyte := h ⟨(source 0).toNat, (source 0).toNat_lt⟩
  simp only [UInt8.ofNat_toNat] at hbyte
  simp only [Color.encodeIA4, Color.decodeIA4, Color.averageRgbComponents_grey, hbyte]
  rfl

namespace SurfaceFormat

variable {depth : DepthFloat} {format : SurfaceFormat} {converted : Bool}

/-- A pixel that is decoded is encoded to its bytes, whatever follows them. -/
theorem encodePixel_decodePixel (h4 : ¬ format.Is4Bit) (hcompressed : ¬ format.IsCompressed)
    (hD24 : format ≠ D24)
    (h : ∀ j < (decodePixel depth format converted source).length,
      pixel j = (decodePixel depth format converted source).getD j 0) :
    encodePixel depth format converted pixel = source.take (format.bpp / 8) := by
  have hvec {v : Vec4} (hv : decodePixel depth format converted source = v.asArray) : pixel.vec4 = v :=
    vec4_of_asArray fun j hj => by
      rw [hv] at h
      exact h j hj
  have htake {n : Nat} (hn : decodePixel depth format converted source = source.take n) :
      pixel.take n = source.take n :=
    take_of_take fun j hj => by
      rw [hn] at h
      exact h j (by rwa [Pointer.take, List.length_map, List.length_range])
  cases format with
  | color format =>
      cases format with
      | RGBA8 =>
          cases converted with
          | false => exact htake rfl
          | true => exact congrArg Color.encodeRGBA8 (hvec rfl)
      | RGB8 =>
          cases converted with
          | false => exact htake rfl
          | true => exact congrArg Color.encodeRGB8 (hvec rfl)
      | RGB5A1 =>
          cases converted with
          | false => exact htake rfl
          | true => exact (congrArg Color.encodeRGB5A1 (hvec rfl)).trans (encodeRGB5A1_decodeRGB5A1 source)
      | RGB565 =>
          cases converted with
          | false => exact htake rfl
          | true => exact (congrArg Color.encodeRGB565 (hvec rfl)).trans (encodeRGB565_decodeRGB565 source)
      | RGBA4 =>
          cases converted with
          | false => exact htake rfl
          | true => exact (congrArg Color.encodeRGBA4 (hvec rfl)).trans (encodeRGBA4_decodeRGBA4 source)
      | IA8 =>
          have hgrey := (congrArg Color.encodeIA8 (hvec (v := Color.decodeIA8 source) rfl)).trans
            (congrArg (fun i => [source 0, i]) (Color.averageRgbComponents_grey (source 1) (source 0)))
          cases converted <;> exact hgrey
      | RG8 =>
          have hpixel := congrArg Color.encodeRG8 (hvec (v := Color.decodeRG8 source) rfl)
          cases converted <;> exact hpixel
      | I8 =>
          have hgrey := (congrArg Color.encodeI8 (hvec (v := Color.decodeI8 source) rfl)).trans
            (congrArg (fun i => [i]) (Color.averageRgbComponents_grey (source 0) 255))
          cases converted <;> exact hgrey
      | A8 =>
          have hpixel := congrArg Color.encodeA8 (hvec (v := Color.decodeA8 source) rfl)
          cases converted <;> exact hpixel
      | IA4 =>
          have hpixel := (congrArg Color.encodeIA4 (hvec (v := Color.decodeIA4 source) rfl)).trans
            (encodeIA4_decodeIA4 source)
          cases converted <;> exact hpixel
      | I4 => exact absurd (.inl rfl) h4
      | A4 => exact absurd (.inr rfl) h4
      | ETC1 => exact absurd (.inl rfl) hcompressed
      | ETC1A4 => exact absurd (.inr rfl) hcompressed
  | D16 =>
      have hpixel := htake (n := 2) rfl
      cases converted <;> exact hpixel
  | D24 => exact absurd rfl hD24
  | D24S8 =>
      have hword : pixel.u32 = rotl8 source.u32 := u32_of_bytesOfU32 h
      have hpixel := (congrArg (fun v => bytesOfU32 (rotr8 v)) hword).trans
        ((congrArg bytesOfU32 (rotr8_rotl8 source.u32)).trans (bytesOfU32_u32 source))
      cases converted <;> exact hpixel

/-- The half of a byte that a pixel of four bits has. -/
def nibbleAt (source : Pointer) (m : Nat) : UInt8 :=
  if m % 2 = 1 then source (m / 2) >>> 4 else source (m / 2) &&& 0xF

theorem nibbleAt_lt (source : Pointer) (m : Nat) : nibbleAt source m < 16 := by
  have hbyte := (source (m / 2)).toNat_lt
  rw [nibbleAt, UInt8.lt_iff_toNat_lt]
  split
  · rw [UInt8.toNat_shiftRight]
    simp [Nat.shiftRight_eq_div_pow]
    omega
  · rw [UInt8.toNat_and]
    exact Nat.lt_of_le_of_lt Nat.and_le_right (by decide)

/-- The same of a pixel of four bits. -/
theorem encodeNibble_decodePixel4 {x y : Nat} {textureFormat : PixelFormat}
    (h4 : (color textureFormat).Is4Bit)
    (h : ∀ j < 4, pixel j = (decodePixel4 textureFormat x y source).getD j 0) :
    encodeNibble (color textureFormat) pixel = nibbleAt source (mortonInterleave x y) := by
  rw [← Color.convert8To4_convert4To8 (nibbleAt_lt source _), nibbleAt, ← Nat.shiftRight_one]
  rcases h4 with hformat | hformat <;> obtain rfl := SurfaceFormat.color.inj hformat
  · have hpixel : pixel.vec4 = _ := vec4_of_asArray (v := ⟨_, _, _, 255⟩) h
    rw [encodeNibble, if_pos rfl, hpixel, Color.averageRgbComponents_grey]
    rfl
  · have hpixel : pixel.vec4 = _ := vec4_of_asArray (v := ⟨0, 0, 0, _⟩) h
    rw [encodeNibble, if_neg (by decide), hpixel]
    rfl

end SurfaceFormat

end RoundTrip

end Cytrus.VideoCore
