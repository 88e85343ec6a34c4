import Cytrus.FileSys.LayeredFS

/-!
# Containers of an installation

A CIA file is a header, a ticket, title metadata and contents, each section at a
multiple of 64 bytes. The header says how long the sections are and which
contents are there, and the title metadata says how long the contents are.

## Implementation notes

Sizes and offsets are natural numbers, as no image has `2 ^ 64` bytes. A ticket
is kept as the fact that it loads, and title metadata as its identifier and its
contents. Reading behind the end of the data is out of bounds, also where the
source computes the size of what is left first and that wraps around.
-/

namespace Cytrus.FileSys

open Support

/-- The number at `i` with its most significant byte first. -/
def bigEndianAt (s : List UInt8) (i width : Nat) : Nat := ofBytes ((s.drop i).take width).reverse

theorem bigEndianAt_append (front rest : List UInt8) (i width : Nat) :
    bigEndianAt (front ++ rest) (front.length + i) width = bigEndianAt rest i width := by
  unfold bigEndianAt
  rw [← List.drop_drop, List.drop_left]

def ciaHeaderSize : Nat := 0x2020

def ciaSectionAlignment : Nat := 0x40

structure CIAHeader where
  headerSize : Nat := 0
  certSize : Nat := 0
  tikSize : Nat := 0
  tmdSize : Nat := 0
  contentPresent : List UInt8 := []

/-- The header at the start of the data. -/
def CIAHeader.read (data : List UInt8) : CIAHeader where
  headerSize := fieldAt data 0 4
  certSize := fieldAt data 8 4
  tikSize := fieldAt data 12 4
  tmdSize := fieldAt data 16 4
  contentPresent := (data.drop 32).take 0x2000

/-- The bit of the content, where the first one is the topmost bit of its byte. -/
def CIAHeader.isContentPresent (header : CIAHeader) (index : Nat) : Bool :=
  (header.contentPresent.getD (index / 8) 0).toNat.testBit (7 - index % 8)

/-- `GetSignatureSize`; a bad type has no size. -/
def getSignatureSize (type : Nat) : Nat :=
  match type with
  | 0x10000 | 0x10003 => 0x200
  | 0x10001 | 0x10004 => 0x100
  | 0x10002 | 0x10005 => 0x3C
  | _ => 0

/-- `sizeof(Ticket::Body)`. -/
def ticketBodySize : Nat := 0x164

/-- `sizeof(TitleMetadata::Body)`. -/
def tmdBodySize : Nat := 0x9C4

/-- `sizeof(ContentChunk)`. -/
def contentChunkSize : Nat := 0x30

inductive ContainerFault where
  | outOfBounds
  deriving DecidableEq, Repr

/-- `ResultStatus`, as far as loading returns it. -/
inductive ResultStatus where
  | success
  | error
  | errorInvalidFormat
  deriving DecidableEq, Repr

/-- `Ticket::Load`, as its result. -/
def Ticket.load (data : List UInt8) (offset : Nat) : Except ContainerFault ResultStatus :=
  if data.length < offset then .error .outOfBounds
  else
    let totalSize := data.length - offset
    if totalSize < 4 then .ok .error
    else
      let signatureSize := getSignatureSize (bigEndianAt data offset 4)
      if signatureSize = 0 then .ok .error
      else
        let bodyEnd := alignUp (signatureSize + 4) 0x40 + ticketBodySize
        if totalSize < bodyEnd then .ok .error
        else if totalSize < bodyEnd + 8 then .ok .error
        else if totalSize < bodyEnd + bigEndianAt data (offset + bodyEnd + 4) 4 then .ok .error
        else .ok .success

structure ContentChunk where
  id : Nat
  index : Nat
  type : Nat
  size : Nat
  deriving DecidableEq, Repr

/-- The record at `i`. -/
def ContentChunk.read (data : List UInt8) (i : Nat) : ContentChunk where
  id := bigEndianAt data i 4
  index := bigEndianAt data (i + 4) 2
  type := bigEndianAt data (i + 6) 2
  size := bigEndianAt data (i + 8) 8

def ContentChunk.encrypted (chunk : ContentChunk) : Bool := chunk.type.testBit 0

/-- `TMDContentTypeFlag::Optional`. -/
def ContentChunk.isOptional (chunk : ContentChunk) : Bool := chunk.type.testBit 14

@[ext]
structure TitleMetadata where
  titleId : Nat := 0
  chunks : List ContentChunk := []
  deriving DecidableEq

namespace TitleMetadata

/-- `Load`, with the metadata that it leaves; chunks are added to those that are there. -/
def load (tmd : TitleMetadata) (data : List UInt8) (offset : Nat) :
    Except ContainerFault (ResultStatus × TitleMetadata) :=
  if data.length < offset then .error .outOfBounds
  else
    let totalSize := data.length - offset
    if totalSize < 4 then .ok (.error, tmd)
    else
      let signatureSize := getSignatureSize (bigEndianAt data offset 4)
      if signatureSize = 0 then .ok (.error, tmd)
      else
        let bodyStart := alignUp (signatureSize + 4) 0x40
        let bodyEnd := bodyStart + tmdBodySize
        if totalSize < bodyEnd then .ok (.error, tmd)
        else
          let titleId := bigEndianAt data (offset + bodyStart + 0x4C) 8
          let contentCount := bigEndianAt data (offset + bodyStart + 0x9E) 2
          if totalSize < bodyEnd + contentCount * contentChunkSize then
            .ok (.errorInvalidFormat, { tmd with titleId })
          else
            .ok (.success, {
              titleId
              chunks := tmd.chunks ++ (List.range contentCount).map fun i =>
                ContentChunk.read data (offset + bodyEnd + i * contentChunkSize) })

def getContentCount (tmd : TitleMetadata) : Nat := tmd.chunks.length

def getContentSizeByIndex (tmd : TitleMetadata) (index : Nat) : Nat :=
  (tmd.chunks[index]?.map ContentChunk.size).getD 0

/-- The flag of the content type. -/
def encryptedByIndex (tmd : TitleMetadata) (index : Nat) : Bool :=
  (tmd.chunks[index]?.map ContentChunk.encrypted).getD false

/-- `HasEncryptedContent`, with a header only for the contents that it lists. -/
def hasEncryptedContent (tmd : TitleMetadata) (header : Option CIAHeader) : Bool :=
  tmd.chunks.any fun chunk =>
    chunk.encrypted && header.all fun header => header.isContentPresent chunk.index

end TitleMetadata

structure CIAContainer where
  hasHeader : Bool := false
  ciaHeader : CIAHeader := {}
  ciaTmd : TitleMetadata := {}

namespace CIAContainer

/-- `LoadHeader`; too little data changes nothing. -/
def loadHeader (c : CIAContainer) (data : List UInt8) : CIAContainer :=
  if data.length < ciaHeaderSize then c
  else { c with hasHeader := true, ciaHeader := CIAHeader.read data }

variable (c : CIAContainer)

def getHeader : Option CIAHeader := if c.hasHeader then some c.ciaHeader else none

def getCertificateOffset : Nat := alignUp c.ciaHeader.headerSize ciaSectionAlignment

def getTicketOffset : Nat :=
  alignUp (c.getCertificateOffset + c.ciaHeader.certSize) ciaSectionAlignment

def getTitleMetadataOffset : Nat :=
  alignUp (c.getTicketOffset + c.ciaHeader.tikSize) ciaSectionAlignment

/-- A content that is not in the file has no size. -/
def getContentSize (index : Nat) : Nat :=
  if c.ciaHeader.isContentPresent index then c.ciaTmd.getContentSizeByIndex index else 0

def getContentOffset (index : Nat) : Nat :=
  alignUp (c.getTitleMetadataOffset + c.ciaHeader.tmdSize) ciaSectionAlignment +
    ((List.range index).map c.getContentSize).sum

end CIAContainer

end Cytrus.FileSys
