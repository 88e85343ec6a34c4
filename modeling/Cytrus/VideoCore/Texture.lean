import Mathlib

/-!
# Looking up texels

The textures of the PICA200 are stored in tiles of 8 x 8 pixels, in Morton order
or, if they are compressed, in four subtiles of ETC1. `LookupTexture` reads one
texel.
-/

namespace Cytrus.VideoCore

/-- A pointer: the bytes from there on. -/
abbrev Pointer := Nat → UInt8

/-- The pointer moved by `n` bytes. -/
def Pointer.advance (source : Pointer) (n : Nat) : Pointer := fun i => source (n + i)

/-- `u16_le`, copied from memory. -/
def Pointer.u16 (bytes : Pointer) : UInt16 := (bytes 0).toUInt16 ||| ((bytes 1).toUInt16 <<< 8)

/-- `u64_le`, copied from memory. -/
def Pointer.u64 (bytes : Pointer) : UInt64 :=
  (List.range 8).foldl (fun v i => v ||| ((bytes i).toUInt64 <<< UInt64.ofNat (8 * i))) 0

/-- `Common::Vec3`. -/
structure Vec3 (α : Type) where
  r : α
  g : α
  b : α
deriving DecidableEq

/-- `Common::Vec4<u8>`. -/
structure Vec4 where
  r : UInt8
  g : UInt8
  b : UInt8
  a : UInt8
deriving DecidableEq

def Vec4.asArray (v : Vec4) : List UInt8 := [v.r, v.g, v.b, v.a]

/-- `MakeVec`, of a colour and its alpha. -/
def makeVec (rgb : Vec3 UInt8) (alpha : UInt8) : Vec4 := ⟨rgb.r, rgb.g, rgb.b, alpha⟩

namespace Color

def convert1To8 (value : UInt8) : UInt8 := value * 255

def convert4To8 (value : UInt8) : UInt8 := (value <<< 4) ||| value

def convert5To8 (value : UInt8) : UInt8 := (value <<< 3) ||| (value >>> 2)

def convert6To8 (value : UInt8) : UInt8 := (value <<< 2) ||| (value >>> 4)

def decodeRGBA8 (bytes : Pointer) : Vec4 := ⟨bytes 3, bytes 2, bytes 1, bytes 0⟩

def decodeRGB8 (bytes : Pointer) : Vec4 := ⟨bytes 2, bytes 1, bytes 0, 255⟩

def decodeRG8 (bytes : Pointer) : Vec4 := ⟨bytes 1, bytes 0, 0, 255⟩

def decodeRGB565 (bytes : Pointer) : Vec4 :=
  let pixel := bytes.u16
  ⟨convert5To8 ((pixel >>> 11) &&& 0x1F).toUInt8, convert6To8 ((pixel >>> 5) &&& 0x3F).toUInt8,
    convert5To8 (pixel &&& 0x1F).toUInt8, 255⟩

def decodeRGB5A1 (bytes : Pointer) : Vec4 :=
  let pixel := bytes.u16
  ⟨convert5To8 ((pixel >>> 11) &&& 0x1F).toUInt8, convert5To8 ((pixel >>> 6) &&& 0x1F).toUInt8,
    convert5To8 ((pixel >>> 1) &&& 0x1F).toUInt8, convert1To8 (pixel &&& 0x1).toUInt8⟩

def decodeRGBA4 (bytes : Pointer) : Vec4 :=
  let pixel := bytes.u16
  ⟨convert4To8 ((pixel >>> 12) &&& 0xF).toUInt8, convert4To8 ((pixel >>> 8) &&& 0xF).toUInt8,
    convert4To8 ((pixel >>> 4) &&& 0xF).toUInt8, convert4To8 (pixel &&& 0xF).toUInt8⟩

def decodeIA8 (bytes : Pointer) : Vec4 := ⟨bytes 1, bytes 1, bytes 1, bytes 0⟩

def decodeI8 (bytes : Pointer) : Vec4 := ⟨bytes 0, bytes 0, bytes 0, 255⟩

def decodeA8 (bytes : Pointer) : Vec4 := ⟨0, 0, 0, bytes 0⟩

def decodeIA4 (bytes : Pointer) : Vec4 :=
  let i := convert4To8 ((bytes 0 &&& 0xF0) >>> 4)
  let a := convert4To8 (bytes 0 &&& 0x0F)
  ⟨i, i, i, a⟩

end Color

/-- `MortonInterleave`: the place in a tile of the pixel at a coordinate. -/
def mortonInterleave (x y : Nat) : Nat :=
  let xlut := [0x00, 0x01, 0x04, 0x05, 0x10, 0x11, 0x14, 0x15]
  let ylut := [0x00, 0x02, 0x08, 0x0a, 0x20, 0x22, 0x28, 0x2a]
  xlut.getD (x % 8) 0 + ylut.getD (y % 8) 0

def etc1ModifierTable : List (List Nat) :=
  [[2, 8], [5, 17], [9, 29], [13, 42], [18, 60], [24, 80], [33, 106], [47, 183]]

structure ETC1Tile where
  raw : UInt64

namespace ETC1Tile

variable (tile : ETC1Tile)

/-- `BitField<position, bits, u64>`. -/
def bits (position count : Nat) : Nat := tile.raw.toNat / 2 ^ position % 2 ^ count

/-- `BitField<position, bits, s64>`. -/
def signedBits (position count : Nat) : Int :=
  let value : Int := tile.bits position count
  if value < 2 ^ (count - 1) then value else value - 2 ^ count

/-- `GetTableSubIndex`, of the field `table_subindexes`. -/
def getTableSubIndex (index : Nat) : Nat := tile.bits 0 16 / 2 ^ index % 2

/-- `GetNegationFlag`, of the field `negation_flags`. -/
def getNegationFlag (index : Nat) : Bool := tile.bits 16 16 / 2 ^ index % 2 = 1

def flip : Bool := tile.bits 32 1 = 1

def differentialMode : Bool := tile.bits 33 1 = 1

def tableIndex2 : Nat := tile.bits 34 3

def tableIndex1 : Nat := tile.bits 37 3

/-- The base value of the channel whose fields start at the position: in `differential` a delta
and the value, in `separate` the values of the second and the first half. -/
def baseValue (position x : Nat) : UInt8 :=
  if tile.differentialMode then
    let value : Int := tile.bits (position + 3) 5
    Color.convert5To8 (UInt8.ofInt (if 2 ≤ x then value + tile.signedBits position 3 else value))
  else if x < 2 then Color.convert4To8 (UInt8.ofNat (tile.bits (position + 4) 4))
  else Color.convert4To8 (UInt8.ofNat (tile.bits position 4))

def getRGB (x y : Nat) : Vec3 UInt8 :=
  let texel := 4 * x + y
  let x := if tile.flip then y else x
  let tableIndex := if x < 2 then tile.tableIndex1 else tile.tableIndex2
  let entry : Int := (etc1ModifierTable.getD tableIndex []).getD (tile.getTableSubIndex texel) 0
  let modifier := if tile.getNegationFlag texel then -entry else entry
  let channel position := UInt8.ofInt (max 0 (min ((tile.baseValue position x).toNat + modifier) 255))
  ⟨channel 56, channel 48, channel 40⟩

end ETC1Tile

def sampleETC1Subtile (value : UInt64) (x y : Nat) : Vec3 UInt8 := (ETC1Tile.mk value).getRGB x y

inductive TextureFormat where
  | RGBA8 | RGB8 | RGB5A1 | RGB565 | RGBA4 | IA8 | RG8 | I8 | A8 | IA4 | I4 | A4 | ETC1 | ETC1A4
deriving DecidableEq

def tileSize : Nat := 8 * 8

def etc1Subtiles : Nat := 2 * 2

def calculateTileSize : TextureFormat → Nat
  | .RGBA8 => 4 * tileSize
  | .RGB8 => 3 * tileSize
  | .RGB5A1 | .RGB565 | .RGBA4 | .IA8 | .RG8 => 2 * tileSize
  | .I8 | .A8 | .IA4 => 1 * tileSize
  | .I4 | .A4 => tileSize / 2
  | .ETC1 => etc1Subtiles * 8
  | .ETC1A4 => etc1Subtiles * 16

structure TextureInfo where
  width : Nat
  height : Nat
  stride : Nat
  format : TextureFormat

def TextureInfo.setDefaultStride (info : TextureInfo) : TextureInfo :=
  { info with stride := calculateTileSize info.format * (info.width / 8) }

/-- The nibble of a pixel in a tile of a format of four bits, as `LookupTexelInTile` reads it. -/
def lookupNibble (source : Pointer) (mortonOffset : Nat) : UInt8 :=
  let value := source (mortonOffset / 2)
  if mortonOffset % 2 = 1 then (value &&& 0xF0) >>> 4 else value &&& 0xF

/-- What `LookupTexelInTile` reads in a tile of a compressed format. -/
def lookupETC1 (hasAlpha : Bool) (source : Pointer) (x y : Nat) (disableAlpha : Bool) : Vec4 :=
  let subtileSize := if hasAlpha then 16 else 8
  let subtile := source.advance ((x / 4 + 2 * (y / 4)) * subtileSize)
  let x := x % 4
  let y := y % 4
  let packedAlpha := subtile.u64
  let alpha := if hasAlpha then
    Color.convert4To8 ((packedAlpha >>> UInt64.ofNat (4 * (x * 4 + y))) &&& 0xF).toUInt8 else 255
  let subtile := if hasAlpha then subtile.advance 8 else subtile
  makeVec (sampleETC1Subtile subtile.u64 x y) (if disableAlpha then 255 else alpha)

def lookupTexelInTile (source : Pointer) (x y : Nat) (info : TextureInfo) (disableAlpha : Bool) :
    Vec4 :=
  let morton := mortonInterleave x y
  let visible (v : Vec4) : Vec4 := { v with a := if disableAlpha then 255 else v.a }
  match info.format with
  | .RGBA8 => visible (Color.decodeRGBA8 (source.advance (morton * 4)))
  | .RGB8 => { Color.decodeRGB8 (source.advance (morton * 3)) with a := 255 }
  | .RGB5A1 => visible (Color.decodeRGB5A1 (source.advance (morton * 2)))
  | .RGB565 => { Color.decodeRGB565 (source.advance (morton * 2)) with a := 255 }
  | .RGBA4 => visible (Color.decodeRGBA4 (source.advance (morton * 2)))
  | .IA8 =>
      let bytes := source.advance (morton * 2)
      if disableAlpha then ⟨bytes 1, bytes 0, 0, 255⟩ else ⟨bytes 1, bytes 1, bytes 1, bytes 0⟩
  | .RG8 => { Color.decodeRG8 (source.advance (morton * 2)) with b := 0, a := 255 }
  | .I8 =>
      let i := source morton
      ⟨i, i, i, 255⟩
  | .A8 =>
      let a := source morton
      if disableAlpha then ⟨a, a, a, 255⟩ else ⟨0, 0, 0, a⟩
  | .IA4 =>
      let i := Color.convert4To8 ((source morton &&& 0xF0) >>> 4)
      let a := Color.convert4To8 (source morton &&& 0xF)
      if disableAlpha then ⟨i, a, 0, 255⟩ else ⟨i, i, i, a⟩
  | .I4 =>
      let i := Color.convert4To8 (lookupNibble source morton)
      ⟨i, i, i, 255⟩
  | .A4 =>
      let a := Color.convert4To8 (lookupNibble source morton)
      if disableAlpha then ⟨a, a, a, 255⟩ else ⟨0, 0, 0, a⟩
  | .ETC1 => lookupETC1 false source x y disableAlpha
  | .ETC1A4 => lookupETC1 true source x y disableAlpha

def lookupTexture (source : Pointer) (x y : Nat) (info : TextureInfo) (disableAlpha : Bool) : Vec4 :=
  let line := source.advance (y / 8 * info.stride)
  let tile := line.advance (x / 8 * calculateTileSize info.format)
  lookupTexelInTile tile (x % 8) (y % 8) info disableAlpha

end Cytrus.VideoCore
