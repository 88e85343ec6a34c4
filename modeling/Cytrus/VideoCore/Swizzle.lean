import Cytrus.Support.Painting
import Cytrus.VideoCore.PixelCodec

/-!
# Swizzling

`MortonCopy` for all formats: from a tiled image to a linear one, and from a linear
image to a range of a tiled one, whose ends need not be those of tiles.

## Implementation notes

As in the decoder of textures, a subspan that is out of bounds, a failed assertion
and a division by zero have no result, and the loop over the tiles runs for so many
rounds at most. The buffer for a tile whose ends are not those of the range begins
with any bytes.

## Main results

* `mortonCopy_color`: the copy to a linear image is the decoder of textures
-/

namespace Cytrus.VideoCore.SurfaceFormat

open Support

variable (depth : DepthFloat) (format : SurfaceFormat) (converted : Bool)

/-- The index of the pixel of a tile in its linear buffer, in bytes. -/
def linearPixelOffset (stride : UInt32) (x y : Nat) : UInt32 :=
  ((7 - UInt32.ofNat y) * stride + UInt32.ofNat x) * UInt32.ofNat (format.linearBytesPerPixel converted)

/-! ### To a linear image -/

/-- What `MortonCopyTile` writes at a pixel of a linear buffer. -/
def decodeTilePixel (x y : Nat) (tileBuffer tiledPixel : Pointer) : List UInt8 :=
  match format with
  | color format => VideoCore.decodeTilePixel format converted x y tileBuffer tiledPixel
  | format => decodePixel depth format converted tiledPixel

/-- The body of the loops of `MortonCopyTile`, to a linear buffer. -/
def copyTilePixel (stride : UInt32) (tileBuffer : Span) (y : Nat) (linearBuffer : List UInt8) (x : Nat) :
    Option (List UInt8) := do
  let bytesPerPixel := format.bpp / 8
  let tiledPixel ← tileBuffer.subspan (mortonInterleave x y * bytesPerPixel) bytesPerPixel
  let linearOffset := format.linearPixelOffset converted stride x y
  let _ ← slice linearBuffer linearOffset.toNat (format.linearBytesPerPixel converted)
  return overwrite linearBuffer linearOffset.toNat
    (format.decodeTilePixel depth converted x y tileBuffer.data tiledPixel.data)

/-- `MortonCopyTile`, to a linear buffer. -/
def mortonCopyTile (stride : UInt32) (tileBuffer : Span) (linearBuffer : List UInt8) :
    Option (List UInt8) :=
  (List.range 8).foldlM (fun linearBuffer y =>
    (List.range 8).foldlM (format.copyTilePixel depth converted stride tileBuffer y) linearBuffer)
    linearBuffer

/-- The cursor at a tile, from where `MortonCopy` begins. -/
def beginCursor (width height alignedDownStartOffset : UInt32) : TileCursor :=
  let beginPixelIndex := alignedDownStartOffset * 8 / UInt32.ofNat format.bpp
  let x := beginPixelIndex % (width * 8) / 8
  let y := beginPixelIndex / (width * 8) * 8
  { x := x
    y := y
    linearOffset := ((height - 8 - y) * width + x) * UInt32.ofNat (format.linearBytesPerPixel converted)
    tiledOffset := 0 }

def linearTileStride (width : UInt32) : UInt32 :=
  (7 * width + 8) * UInt32.ofNat (format.linearBytesPerPixel converted)

/-- The cursor at the next tile. -/
def nextTile (width height : UInt32) (c : TileCursor) : TileCursor :=
  { c.linearNextTile width height (UInt32.ofNat (format.linearBytesPerPixel converted)) with
    tiledOffset := c.tiledOffset + UInt32.ofNat format.tileBytes }

/-- The loop over the tiles of `MortonCopy`, to a linear buffer. -/
def copyTiles (width height bufferEnd : UInt32) (tiledBuffer : Span) :
    Nat → TileCursor → List UInt8 → Option (List UInt8)
  | rounds, c, linearBuffer =>
    if c.tiledOffset < bufferEnd then
      match rounds with
      | 0 => none
      | rounds + 1 => do
        let linearData ← slice linearBuffer c.linearOffset.toNat
          (format.linearTileStride converted width).toNat
        let tiledData ← tiledBuffer.subspan c.tiledOffset.toNat format.tileBytes
        let linearData ← format.mortonCopyTile depth converted width tiledData linearData
        copyTiles width height bufferEnd tiledBuffer rounds (format.nextTile converted width height c)
          (overwrite linearBuffer c.linearOffset.toNat linearData)
    else some linearBuffer

/-- `MortonCopy`, to a linear buffer. -/
def mortonCopy (rounds : Nat) (width height startOffset endOffset : UInt32)
    (linearBuffer : List UInt8) (tiledBuffer : Span) : Option (List UInt8) :=
  let tileSize := UInt32.ofNat format.tileBytes
  let alignedStartOffset := alignUp startOffset tileSize
  let alignedEndOffset := alignDown endOffset tileSize
  if ¬ (alignedStartOffset = startOffset ∧ alignedEndOffset = endOffset) then none
  else if width * 8 = 0 then none
  else if alignedStartOffset < alignedEndOffset then
    let bufferEnd := min (alignedEndOffset - alignedStartOffset) (UInt32.ofNat tiledBuffer.size)
    format.copyTiles depth converted width height bufferEnd tiledBuffer rounds
      (format.beginCursor converted width height (alignDown startOffset tileSize)) linearBuffer
  else some linearBuffer

/-! ### To a tiled image -/

/-- The body of the loops of `MortonCopyTile`, to a tile. -/
def encodeTilePixel (stride : UInt32) (linearBuffer : Span) (y : Nat) (tileBuffer : List UInt8) (x : Nat) :
    Option (List UInt8) := do
  let bytesPerPixel := format.bpp / 8
  let mortonOffset := mortonInterleave x y
  let _ ← slice tileBuffer (mortonOffset * bytesPerPixel) bytesPerPixel
  let linearPixel ← linearBuffer.subspan (format.linearPixelOffset converted stride x y).toNat
    (format.linearBytesPerPixel converted)
  if format.Is4Bit then do
    let byte ← tileBuffer[mortonOffset >>> 1]?
    return tileBuffer.set (mortonOffset >>> 1)
      (withNibble mortonOffset byte (format.encodeNibble linearPixel.data))
  else
    return overwrite tileBuffer (mortonOffset * bytesPerPixel)
      (format.encodePixel depth converted linearPixel.data)

/-- `MortonCopyTile`, to a tile. -/
def encodeTile (stride : UInt32) (linearBuffer : Span) (tileBuffer : List UInt8) : Option (List UInt8) :=
  (List.range 8).foldlM (fun tileBuffer y =>
    (List.range 8).foldlM (format.encodeTilePixel depth converted stride linearBuffer y) tileBuffer)
    tileBuffer

/-- The tile at a cursor, encoded to a buffer. -/
def encodeTileAt (width : UInt32) (linearBuffer : Span) (c : TileCursor) (tileBuffer : List UInt8) :
    Option (List UInt8) := do
  let linearData ← linearBuffer.subspan c.linearOffset.toNat (format.linearTileStride converted width).toNat
  format.encodeTile depth converted width linearData tileBuffer

/-- `std::memcpy` of a part of a buffer. -/
def copyPart (source : List UInt8) (i n : Nat) (dest : List UInt8) (o : Nat) : Option (List UInt8) := do
  let part ← slice source i n
  let _ ← slice dest o n
  return overwrite dest o part

/-- The tile that the range begins in, if it does not begin with it. -/
def encodeHead (width height startOffset endOffset : UInt32) (linearBuffer : Span) (tmpBuf : List UInt8)
    (c : TileCursor) (tiledBuffer : List UInt8) : Option (TileCursor × List UInt8) :=
  let tileSize := UInt32.ofNat format.tileBytes
  let alignedStartOffset := alignUp startOffset tileSize
  if startOffset < alignedStartOffset then do
    let tmpBuf ← format.encodeTileAt depth converted width linearBuffer c tmpBuf
    let tiledBuffer ← copyPart tmpBuf (startOffset - alignDown startOffset tileSize).toNat
      (min alignedStartOffset endOffset - startOffset).toNat tiledBuffer 0
    return ({ c.linearNextTile width height (UInt32.ofNat (format.linearBytesPerPixel converted)) with
      tiledOffset := c.tiledOffset + (alignedStartOffset - startOffset) }, tiledBuffer)
  else some (c, tiledBuffer)

/-- The loop over the whole tiles of the range. -/
def encodeTiles (width height bufferEnd : UInt32) (linearBuffer : Span) :
    Nat → TileCursor → List UInt8 → Option (TileCursor × List UInt8)
  | rounds, c, tiledBuffer =>
    if c.tiledOffset < bufferEnd then
      match rounds with
      | 0 => none
      | rounds + 1 => do
        let tiledData ← slice tiledBuffer c.tiledOffset.toNat format.tileBytes
        let tiledData ← format.encodeTileAt depth converted width linearBuffer c tiledData
        encodeTiles width height bufferEnd linearBuffer rounds (format.nextTile converted width height c)
          (overwrite tiledBuffer c.tiledOffset.toNat tiledData)
    else some (c, tiledBuffer)

/-- The tiles between the ends of the range. -/
def encodeBody (rounds : Nat) (width height startOffset endOffset : UInt32) (linearBuffer : Span)
    (c : TileCursor) (tiledBuffer : List UInt8) : Option (TileCursor × List UInt8) :=
  let tileSize := UInt32.ofNat format.tileBytes
  let alignedStartOffset := alignUp startOffset tileSize
  let alignedEndOffset := alignDown endOffset tileSize
  if alignedStartOffset < alignedEndOffset then
    let bufferEnd := min (c.tiledOffset + alignedEndOffset - alignedStartOffset)
      (UInt32.ofNat tiledBuffer.length)
    format.encodeTiles depth converted width height bufferEnd linearBuffer rounds c tiledBuffer
  else some (c, tiledBuffer)

/-- The tile that the range ends in, if it does not end with it. -/
def encodeTail (width startOffset endOffset : UInt32) (linearBuffer : Span) (tmpBuf : List UInt8)
    (c : TileCursor) (tiledBuffer : List UInt8) : Option (List UInt8) :=
  let tileSize := UInt32.ofNat format.tileBytes
  let alignedEndOffset := alignDown endOffset tileSize
  if max (alignUp startOffset tileSize) alignedEndOffset < endOffset then do
    let tmpBuf ← format.encodeTileAt depth converted width linearBuffer c tmpBuf
    copyPart tmpBuf 0 (endOffset - alignedEndOffset).toNat tiledBuffer c.tiledOffset.toNat
  else some tiledBuffer

/-- `MortonCopy`, to a tiled buffer, with what is in the buffers for the tiles at the ends. -/
def mortonCopyToTiled (rounds : Nat) (headBuf tailBuf : List UInt8)
    (width height startOffset endOffset : UInt32) (linearBuffer : Span) (tiledBuffer : List UInt8) :
    Option (List UInt8) :=
  if width * 8 = 0 then none
  else do
    let c := format.beginCursor converted width height
      (alignDown startOffset (UInt32.ofNat format.tileBytes))
    let (c, tiledBuffer) ← format.encodeHead depth converted width height startOffset endOffset
      linearBuffer headBuf c tiledBuffer
    let (c, tiledBuffer) ← format.encodeBody depth converted rounds width height startOffset endOffset
      linearBuffer c tiledBuffer
    format.encodeTail depth converted width startOffset endOffset linearBuffer tailBuf c tiledBuffer

/-! ### The formats of textures -/

theorem copyTiles_color (format : PixelFormat) {width height bufferEnd : UInt32} {tiledBuffer : Span}
    (rounds : Nat) (c : TileCursor) (linearBuffer : List UInt8) :
    (color format).copyTiles depth converted width height bufferEnd tiledBuffer rounds c linearBuffer =
      VideoCore.copyTiles format converted width height bufferEnd tiledBuffer rounds c linearBuffer := by
  induction rounds generalizing c linearBuffer with
  | zero =>
      rw [copyTiles, VideoCore.copyTiles]
  | succ rounds ih =>
      rw [copyTiles, VideoCore.copyTiles]
      split
      · simp only [ih]
        rfl
      · rfl

/-- The copy to a linear image is the decoder of textures. -/
theorem mortonCopy_color (format : PixelFormat) (rounds : Nat)
    (width height startOffset endOffset : UInt32) (linearBuffer : List UInt8) (tiledBuffer : Span) :
    (color format).mortonCopy depth converted rounds width height startOffset endOffset linearBuffer
        tiledBuffer =
      VideoCore.mortonCopy format converted rounds width height startOffset endOffset linearBuffer
        tiledBuffer := by
  rw [mortonCopy, VideoCore.mortonCopy]
  simp only [copyTiles_color]
  rfl

end Cytrus.VideoCore.SurfaceFormat
