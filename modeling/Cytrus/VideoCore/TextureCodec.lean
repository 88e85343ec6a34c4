import Cytrus.Support.Slices
import Cytrus.VideoCore.Texture

/-!
# Decoding textures

`MortonCopy` copies a tiled image, tile by tile, to a linear one, which it fills
from the bottom up. Here is its instance for uploads, which decodes pixels.

## Implementation notes

The formats are those of textures. A subspan that is out of bounds, a failed
assertion and a division by zero have no result.
-/

namespace Cytrus.VideoCore

open Support

/-- `PixelFormat`, without the formats of depth buffers. -/
inductive PixelFormat where
  | RGBA8 | RGB8 | RGB5A1 | RGB565 | RGBA4 | IA8 | RG8 | I8 | A8 | IA4 | I4 | A4 | ETC1 | ETC1A4
deriving DecidableEq

def pixelFormatFromTextureFormat : TextureFormat → PixelFormat
  | .RGBA8 => .RGBA8
  | .RGB8 => .RGB8
  | .RGB5A1 => .RGB5A1
  | .RGB565 => .RGB565
  | .RGBA4 => .RGBA4
  | .IA8 => .IA8
  | .RG8 => .RG8
  | .I8 => .I8
  | .A8 => .A8
  | .IA4 => .IA4
  | .I4 => .I4
  | .A4 => .A4
  | .ETC1 => .ETC1
  | .ETC1A4 => .ETC1A4

namespace PixelFormat

/-- `FORMAT_MAP`: the bits of a pixel in guest memory, and its bytes on the host. -/
def formatMap : PixelFormat → Nat × Nat
  | .RGBA8 => (32, 4)
  | .RGB8 => (24, 3)
  | .RGB5A1 | .RGB565 | .RGBA4 => (16, 2)
  | .IA8 | .RG8 => (16, 4)
  | .I8 | .A8 | .IA4 => (8, 4)
  | .I4 | .A4 | .ETC1 => (4, 4)
  | .ETC1A4 => (8, 4)

/-- `GetFormatBpp`. -/
def bpp (format : PixelFormat) : Nat := format.formatMap.1

/-- `GetFormatBytesPerPixel`. -/
def bytesPerPixel (format : PixelFormat) : Nat := format.formatMap.2

def linearBytesPerPixel (format : PixelFormat) (converted : Bool) : Nat :=
  if converted then 4 else format.bytesPerPixel

/-- `tile_size`. -/
def tileBytes (format : PixelFormat) : Nat := format.bpp * 64 / 8

/-- The formats that `DecodePixel` converts whatever `converted` is. -/
def Implicit (format : PixelFormat) : Prop := format.bytesPerPixel = 4 ∧ format ≠ .RGBA8

instance (format : PixelFormat) : Decidable format.Implicit := inferInstanceAs (Decidable (_ ∧ _))

end PixelFormat

def decodePixel (format : PixelFormat) (converted : Bool) (source : Pointer) : List UInt8 :=
  match format, converted with
  | .RGBA8, true => (Color.decodeRGBA8 source).asArray
  | .RGB8, true => (Color.decodeRGB8 source).asArray
  | .RGB565, true => (Color.decodeRGB565 source).asArray
  | .RGB5A1, true => (Color.decodeRGB5A1 source).asArray
  | .RGBA4, true => (Color.decodeRGBA4 source).asArray
  | .IA8, _ => (Color.decodeIA8 source).asArray
  | .RG8, _ => (Color.decodeRG8 source).asArray
  | .I8, _ => (Color.decodeI8 source).asArray
  | .A8, _ => (Color.decodeA8 source).asArray
  | .IA4, _ => (Color.decodeIA4 source).asArray
  | format, _ => (List.range (format.bpp / 8)).map source

def decodePixel4 (format : PixelFormat) (x y : Nat) (sourceTile : Pointer) : List UInt8 :=
  let mortonOffset := mortonInterleave x y
  let value := sourceTile (mortonOffset >>> 1)
  let pixel := Color.convert4To8 (if mortonOffset % 2 = 1 then value >>> 4 else value &&& 0xF)
  if format = .I4 then List.replicate 3 pixel ++ [255] else List.replicate 3 0 ++ [pixel]

def decodePixelETC1 (format : PixelFormat) (x y : Nat) (sourceTile : Pointer) : List UInt8 :=
  let hasAlpha := decide (format = .ETC1A4)
  let subtileSize := if hasAlpha then 16 else 8
  let subtileIndex := x / 4 + 2 * (y / 4)
  let x := x % 4
  let y := y % 4
  let subtile := sourceTile.advance (subtileIndex * subtileSize)
  let packedAlpha := subtile.u64
  let alpha := if hasAlpha then
    Color.convert4To8 ((packedAlpha >>> UInt64.ofNat (4 * (x * 4 + y))) &&& 0xF).toUInt8 else 255
  let subtile := if hasAlpha then subtile.advance 8 else subtile
  let rgb := sampleETC1Subtile subtile.u64 x y
  [rgb.r, rgb.g, rgb.b, alpha]

/-- `std::span<u8>`, of bytes that are read. -/
structure Span where
  data : Pointer
  size : Nat

def Span.subspan (s : Span) (offset count : Nat) : Option Span :=
  if offset + count ≤ s.size then some ⟨s.data.advance offset, count⟩ else none

section MortonCopy

variable (format : PixelFormat) (converted : Bool)

/-- What `MortonCopyTile` writes at a pixel. -/
def decodeTilePixel (x y : Nat) (tileBuffer tiledPixel : Pointer) : List UInt8 :=
  if format = .ETC1 ∨ format = .ETC1A4 then decodePixelETC1 format x y tileBuffer
  else if format = .I4 ∨ format = .A4 then decodePixel4 format x y tileBuffer
  else decodePixel format converted tiledPixel

/-- The body of the loops of `MortonCopyTile`. -/
def copyTilePixel (stride : UInt32) (tileBuffer : Span) (y : Nat) (linearBuffer : List UInt8) (x : Nat) :
    Option (List UInt8) := do
  let bytesPerPixel := format.bpp / 8
  let linearBytesPerPixel := format.linearBytesPerPixel converted
  let tiledPixel ← tileBuffer.subspan (mortonInterleave x y * bytesPerPixel) bytesPerPixel
  let linearOffset : UInt32 :=
    ((7 - UInt32.ofNat y) * stride + UInt32.ofNat x) * UInt32.ofNat linearBytesPerPixel
  let _ ← slice linearBuffer linearOffset.toNat linearBytesPerPixel
  return overwrite linearBuffer linearOffset.toNat
    (decodeTilePixel format converted x y tileBuffer.data tiledPixel.data)

/-- `MortonCopyTile`, to a linear buffer. -/
def mortonCopyTile (stride : UInt32) (tileBuffer : Span) (linearBuffer : List UInt8) :
    Option (List UInt8) :=
  (List.range 8).foldlM (fun linearBuffer y =>
    (List.range 8).foldlM (copyTilePixel format converted stride tileBuffer y) linearBuffer) linearBuffer

/-- The variables that the loop of `MortonCopy` changes. -/
structure TileCursor where
  x : UInt32
  y : UInt32
  linearOffset : UInt32
  tiledOffset : UInt32

def TileCursor.linearNextTile (width height alignedBytesPerPixel : UInt32) (c : TileCursor) :
    TileCursor :=
  let x := (c.x + 8) % width
  let linearOffset := c.linearOffset + 8 * alignedBytesPerPixel
  if x = 0 then
    let y := (c.y + 8) % height
    if y = 0 then { c with x := x, y := y, linearOffset := linearOffset }
    else { c with x := x, y := y, linearOffset := linearOffset - width * 9 * alignedBytesPerPixel }
  else { c with x := x, linearOffset := linearOffset }

/-- The loop over the tiles of `MortonCopy`, for so many rounds at most. -/
def copyTiles (width height bufferEnd : UInt32) (tiledBuffer : Span) :
    Nat → TileCursor → List UInt8 → Option (List UInt8)
  | rounds, c, linearBuffer =>
    if c.tiledOffset < bufferEnd then
      match rounds with
      | 0 => none
      | rounds + 1 => do
        let alignedBytesPerPixel := UInt32.ofNat (format.linearBytesPerPixel converted)
        let linearTileStride := (7 * width + 8) * alignedBytesPerPixel
        let linearData ← slice linearBuffer c.linearOffset.toNat linearTileStride.toNat
        let tiledData ← tiledBuffer.subspan c.tiledOffset.toNat format.tileBytes
        let linearData ← mortonCopyTile format converted width tiledData linearData
        copyTiles width height bufferEnd tiledBuffer rounds
          { c.linearNextTile width height alignedBytesPerPixel with
            tiledOffset := c.tiledOffset + UInt32.ofNat format.tileBytes }
          (overwrite linearBuffer c.linearOffset.toNat linearData)
    else some linearBuffer

def alignDown (value size : UInt32) : UInt32 := value - value % size

def alignUp (value size : UInt32) : UInt32 :=
  let mod := value % size
  if mod = 0 then value - mod else value - mod + size

/-- `MortonCopy`, to a linear buffer. -/
def mortonCopy (rounds : Nat) (width height startOffset endOffset : UInt32)
    (linearBuffer : List UInt8) (tiledBuffer : Span) : Option (List UInt8) :=
  let alignedBytesPerPixel := UInt32.ofNat (format.linearBytesPerPixel converted)
  let tileSize := UInt32.ofNat format.tileBytes
  let alignedDownStartOffset := alignDown startOffset tileSize
  let alignedStartOffset := alignUp startOffset tileSize
  let alignedEndOffset := alignDown endOffset tileSize
  let beginPixelIndex := alignedDownStartOffset * 8 / UInt32.ofNat format.bpp
  if ¬ (alignedStartOffset = startOffset ∧ alignedEndOffset = endOffset) then none
  else if width * 8 = 0 then none
  else
    let x := beginPixelIndex % (width * 8) / 8
    let y := beginPixelIndex / (width * 8) * 8
    let linearOffset := ((height - 8 - y) * width + x) * alignedBytesPerPixel
    if alignedStartOffset < alignedEndOffset then
      let tileBufferSize := UInt32.ofNat tiledBuffer.size
      let bufferEnd := min (alignedEndOffset - alignedStartOffset) tileBufferSize
      copyTiles format converted width height bufferEnd tiledBuffer rounds ⟨x, y, linearOffset, 0⟩
        linearBuffer
    else some linearBuffer

end MortonCopy

end Cytrus.VideoCore
