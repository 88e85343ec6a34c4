import Mathlib
import Cytrus.Support.PackedTable

/-!
# Writing encrypted content

The content of a title arrives in pieces of any size. Its header says which
regions are encrypted, and one of these holds a header that says where further
ones are. Each piece is cut where a region starts or ends, and the keystream of
a region is started anew for each part of it.

## Implementation notes

The header bytes that have arrived are a list, and its length is `header_size`;
likewise for the header inside of the content. The key slots, the digest, the
list of seeds and the keystream of a key and a counter are parameters. Where an
error is set, the keys found so far are not kept, since nothing reads them
afterwards.
-/

namespace Cytrus.Am

open Support

/-! ## The header -/

/-- `NCCH_Header`, as far as it is read here. -/
structure NCCHHeader where
  signature : List UInt8
  magic : Nat
  partitionId : List UInt8
  version : Nat
  programId : Nat
  extendedHeaderSize : Nat
  secondaryKeySlot : Nat
  fixedKey : Bool
  noCrypto : Bool
  seedCrypto : Bool
  exefsOffset : Nat
  exefsSize : Nat
  romfsOffset : Nat
  romfsSize : Nat

def NCCHHeader.ofBytes (bytes : List UInt8) : NCCHHeader where
  signature := bytes.take 0x100
  magic := fieldAt bytes 0x100 4
  partitionId := (bytes.drop 0x108).take 8
  version := fieldAt bytes 0x112 2
  programId := fieldAt bytes 0x118 8
  extendedHeaderSize := fieldAt bytes 0x180 4
  secondaryKeySlot := fieldAt bytes 0x18B 1
  fixedKey := (fieldAt bytes 0x18F 1).testBit 0
  noCrypto := (fieldAt bytes 0x18F 1).testBit 2
  seedCrypto := (fieldAt bytes 0x18F 1).testBit 5
  exefsOffset := fieldAt bytes 0x1A0 4
  exefsSize := fieldAt bytes 0x1A4 4
  romfsOffset := fieldAt bytes 0x1B0 4
  romfsSize := fieldAt bytes 0x1B4 4

/-- `MakeMagic('N', 'C', 'C', 'H')`. -/
def ncchMagic : Nat := 0x4843434E

/-- The header bytes with `no_crypto` assigned. -/
def setNoCrypto (header : List UInt8) : List UInt8 := header.modify 0x18F fun flags => flags ||| 4

/-- A number of blocks in bytes. -/
def blockBytes (n : Nat) : Nat := n * 0x200 % 2 ^ 32

/-! ## Keys and counters -/

/-- What encrypts a content. -/
structure Ciphers where
  primaryKey : List UInt8
  secondaryKey : List UInt8
  exheaderCtr : List UInt8
  exefsCtr : List UInt8
  romfsCtr : List UInt8
  deriving Inhabited

/-- The key of a slot for a key Y, where there is one, the digest, the seeds of programs, and the
keystream of a key from a counter. -/
structure Crypto where
  normalKey : Nat → List UInt8 → Option (List UInt8)
  sha256 : List UInt8 → List UInt8
  getSeed : Nat → Option (List UInt8)
  keystream : List UInt8 → List UInt8 → Nat → UInt8

namespace NCCHHeader

variable (crypto : Crypto) (header : NCCHHeader)

def keys : Option (List UInt8 × List UInt8) :=
  if header.fixedKey then some (List.replicate 16 0, List.replicate 16 0)
  else do
    let keyYPrimary := header.signature.take 16
    let keyYSecondary ←
      if header.seedCrypto then
        (crypto.getSeed header.programId).map fun seed =>
          (crypto.sha256 (keyYPrimary ++ seed)).take 16
      else some keyYPrimary
    let primaryKey ← crypto.normalKey 0x2C keyYPrimary
    let secondaryKey ← match header.secondaryKeySlot with
      | 0 => crypto.normalKey 0x2C keyYSecondary
      | 1 => crypto.normalKey 0x25 keyYSecondary
      | 10 => crypto.normalKey 0x18 keyYSecondary
      | 11 => crypto.normalKey 0x1B keyYSecondary
      | _ => some (List.replicate 16 0)
    return (primaryKey, secondaryKey)

def counters : Option (List UInt8 × List UInt8 × List UInt8) :=
  if header.version = 0 ∨ header.version = 2 then
    let ctr (n : UInt8) := header.partitionId.reverse ++ n :: List.replicate 7 0
    some (ctr 1, ctr 2, ctr 3)
  else if header.version = 1 then
    let ctr (offset : Nat) :=
      header.partitionId ++ List.replicate 4 0 ++ (toBytes 4 offset).reverse
    some (ctr 0x200, ctr (blockBytes header.exefsOffset), ctr (blockBytes header.romfsOffset))
  else none

def ciphers : Option Ciphers := do
  let (primaryKey, secondaryKey) ← header.keys crypto
  let (exheaderCtr, exefsCtr, romfsCtr) ← header.counters
  return { primaryKey, secondaryKey, exheaderCtr, exefsCtr, romfsCtr }

end NCCHHeader

/-! ## Regions -/

inductive RegionType
  | exheader
  | exefsHdr
  | exefsPri
  | exefsSec
  | romfs
  deriving DecidableEq

structure CryptoRegion where
  type : RegionType
  offset : Nat
  size : Nat
  seekFrom : Nat
  deriving DecidableEq

def CryptoRegion.contains (reg : CryptoRegion) (offset : Nat) : Bool :=
  reg.offset ≤ offset && offset < reg.offset + reg.size

def NCCHHeader.regions (header : NCCHHeader) : List CryptoRegion :=
  let exefsOffset := blockBytes header.exefsOffset
  let romfsOffset := blockBytes header.romfsOffset
  (if header.extendedHeaderSize ≠ 0 then [⟨.exheader, 0x200, 0x800, 0x200⟩] else []) ++
    (if header.exefsSize ≠ 0 then [⟨.exefsHdr, exefsOffset, 0x200, exefsOffset⟩] else []) ++
    (if header.romfsSize ≠ 0 then
      [⟨.romfs, romfsOffset, blockBytes header.romfsSize, romfsOffset⟩] else [])

/-- `Common::AlignUp` of a 32-bit number. -/
def alignUp32 (value size : Nat) : Nat :=
  if value % size = 0 then value else (value - value % size + size) % 2 ^ 32

/-- A section of the header inside of the content, the names being `icon` and `banner`. -/
def exefsSection (offset : Nat) (exefsHeader : List UInt8) (i : Nat) : Option CryptoRegion :=
  let name := (exefsHeader.drop (16 * i)).take 8
  let size := fieldAt exefsHeader (16 * i + 12) 4
  if size = 0 then none
  else some
    { type :=
        if name.take 4 = [0x69, 0x63, 0x6F, 0x6E] ∨
          name.take 6 = [0x62, 0x61, 0x6E, 0x6E, 0x65, 0x72] then .exefsPri else .exefsSec
      offset := offset + 0x200 + fieldAt exefsHeader (16 * i + 8) 4
      size := alignUp32 size 0x200
      seekFrom := offset }

def exefsSections (offset : Nat) (exefsHeader : List UInt8) : List CryptoRegion :=
  (List.range 8).filterMap (exefsSection offset exefsHeader)

/-- The key and the counter of a region. -/
def Ciphers.ofRegion (ciphers : Ciphers) : RegionType → List UInt8 × List UInt8
  | .exheader => (ciphers.primaryKey, ciphers.exheaderCtr)
  | .exefsHdr => (ciphers.primaryKey, ciphers.exefsCtr)
  | .exefsPri => (ciphers.primaryKey, ciphers.exefsCtr)
  | .exefsSec => (ciphers.secondaryKey, ciphers.exefsCtr)
  | .romfs => (ciphers.secondaryKey, ciphers.romfsCtr)

/-- A byte at a position of a region, decrypted. -/
def Crypto.processData (crypto : Crypto) (ciphers : Ciphers) (reg : CryptoRegion) (position : Nat)
    (byte : UInt8) : UInt8 :=
  byte ^^^ crypto.keystream (ciphers.ofRegion reg.type).1 (ciphers.ofRegion reg.type).2
    (position - reg.seekFrom)

/-- The first region that contains an offset, else the closest one after it. -/
def findClosestRegion (offset : Nat) : List CryptoRegion → Option CryptoRegion →
    Option CryptoRegion
  | [], closest => closest
  | reg :: regions, closest =>
      if reg.contains offset then some reg
      else if offset < reg.offset ∧
          closest.all (fun other => reg.offset - offset < other.offset - offset) then
        findClosestRegion offset regions (some reg)
      else findClosestRegion offset regions closest

/-! ## The file -/

structure NCCHCryptoFile where
  file : List UInt8 := []
  isError : Bool := false
  isNotNcch : Bool := false
  decryptionAuthorized : Bool
  written : Nat := 0
  ncchHeader : List UInt8 := []
  headerParsed : Bool := false
  isEncrypted : Bool := false
  ciphers : Ciphers := default
  regions : List CryptoRegion := []
  exefsHeader : List UInt8 := []
  exefsHeaderProcessed : Bool := false

/-- A function of the position on each byte, from a position on. -/
def mapFrom (f : Nat → UInt8 → UInt8) (start : Nat) (bytes : List UInt8) : List UInt8 :=
  bytes.mapIdx fun i => f (start + i)

namespace NCCHCryptoFile

variable (crypto : Crypto) (s : NCCHCryptoFile)

def writeBytes (bytes : List UInt8) : NCCHCryptoFile := { s with file := s.file ++ bytes }

/-- The header is written as one of a content that is not encrypted. -/
def writeHeader : NCCHCryptoFile :=
  { s.writeBytes (setNoCrypto s.ncchHeader) with written := s.written + 0x200 }

/-- The header has arrived. -/
def parseHeader : NCCHCryptoFile :=
  let header := NCCHHeader.ofBytes s.ncchHeader
  if header.magic ≠ ncchMagic then { s.writeBytes s.ncchHeader with isNotNcch := true }
  else if header.noCrypto then writeHeader { s with headerParsed := true }
  else if !s.decryptionAuthorized then { s with isError := true }
  else
    match header.ciphers crypto with
    | none => { s with isEncrypted := true, headerParsed := true, isError := true }
    | some ciphers =>
        writeHeader
          { s with
            isEncrypted := true
            headerParsed := true
            ciphers := ciphers
            regions := s.regions ++ header.regions }

def writeVerbatim (bytes : List UInt8) : NCCHCryptoFile :=
  { s.writeBytes bytes with written := s.written + bytes.length }

def readExefsHeader (reg : CryptoRegion) (bytes : List UInt8) : NCCHCryptoFile :=
  let s := if s.exefsHeader.length ≠ 0x200 then
    { s with exefsHeader := s.exefsHeader ++ bytes } else s
  if !s.exefsHeaderProcessed ∧ s.exefsHeader.length = 0x200 then
    { s with
      regions := s.regions ++ exefsSections reg.offset s.exefsHeader
      exefsHeaderProcessed := true }
  else s

def writeDecrypted (reg : CryptoRegion) (bytes : List UInt8) : NCCHCryptoFile :=
  let temp := mapFrom (crypto.processData s.ciphers reg) s.written bytes
  let s := { s.writeBytes temp with written := s.written + bytes.length }
  if reg.type = .exefsHdr then s.readExefsHeader reg temp else s

/-- One round of the loop, with what it leaves of the buffer. -/
def round (buffer : List UInt8) : NCCHCryptoFile × List UInt8 :=
  match findClosestRegion s.written s.regions none with
  | none => (s.writeVerbatim buffer, [])
  | some reg =>
      if s.written < reg.offset then
        let toWrite := reg.offset - s.written
        (s.writeVerbatim (buffer.take toWrite), buffer.drop toWrite)
      else
        let toWrite := reg.offset + reg.size - s.written
        (if s.isEncrypted then s.writeDecrypted crypto reg (buffer.take toWrite)
          else s.writeVerbatim (buffer.take toWrite),
          buffer.drop toWrite)

/-- The loop, with a bound for its rounds. -/
def writeRest (s : NCCHCryptoFile) : Nat → List UInt8 → NCCHCryptoFile
  | 0, _ => s
  | rounds + 1, buffer =>
      if buffer = [] then s
      else (s.round crypto buffer).1.writeRest rounds (s.round crypto buffer).2

/-- The header is parsed when all of its bytes have arrived. -/
def readHeader (bytes : List UInt8) : NCCHCryptoFile :=
  let s := { s with ncchHeader := s.ncchHeader ++ bytes }
  if !s.headerParsed ∧ s.ncchHeader.length = 0x200 then s.parseHeader crypto else s

def writeContent (buffer : List UInt8) : NCCHCryptoFile :=
  if s.isError then s
  else if s.isNotNcch then s.writeBytes buffer
  else s.writeRest crypto buffer.length buffer

def write (buffer : List UInt8) : NCCHCryptoFile :=
  if s.isError then s
  else if s.isNotNcch then s.writeBytes buffer
  else
    let missing := 0x200 - s.ncchHeader.length
    (s.readHeader crypto (buffer.take missing)).writeContent crypto (buffer.drop missing)

end NCCHCryptoFile

end Cytrus.Am
