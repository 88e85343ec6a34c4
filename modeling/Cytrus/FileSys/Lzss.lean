import Mathlib.Tactic
import Mathlib.Data.Nat.Bitwise
import Cytrus.Support.PackedTable

/-!
# Backward LZSS

The `.code` section of an executable is compressed from its end to its start.
Both the compressed and the decompressed data are walked backwards. Eight
tokens share a control byte: a token is a byte, or a reference to bytes that
were written before, which lie behind it.

## Implementation notes

The result is an error where the code returns `false`, and where it reads or
writes outside of its buffers. Sizes have 64 bits, and only those that the
footer is subtracted from can wrap around.

## Main results

* `decompress_packed`: packed tokens are decompressed to what they stand for
* `decompress_inRange_iff`: when the indices stay inside of the buffers
-/

namespace Cytrus.FileSys.Lzss

open Support

/-- How the code ends without a result. -/
inductive Exit where
  | returnFalse
  | outOfRange
deriving DecidableEq

/-- `LZSS_GetDecompressedSize`. -/
def getDecompressedSize (buffer : List UInt8) : Nat :=
  (fieldAt buffer (buffer.length - 4) 4 + buffer.length) % 2 ^ 64

/-- `index`, `out` and the decompressed buffer. -/
structure Cursor where
  index : Nat
  out : Nat
  decompressed : List UInt8

/-- A byte of a buffer. -/
def readAt (buffer : List UInt8) (i : Nat) : Except Exit UInt8 :=
  match buffer[i]? with
  | some data => .ok data
  | none => .error .outOfRange

/-- `compressed[--index]`. -/
def Cursor.readBack (c : Cursor) (compressed : List UInt8) : Except Exit (UInt8 × Cursor) :=
  if c.index = 0 then .error .outOfRange
  else do
    let data ← readAt compressed (c.index - 1)
    .ok (data, { c with index := c.index - 1 })

/-- `decompressed[--out] = data`. -/
def Cursor.put (c : Cursor) (data : UInt8) : Except Exit Cursor :=
  if 0 < c.out ∧ c.out ≤ c.decompressed.length then
    .ok { c with out := c.out - 1, decompressed := c.decompressed.set (c.out - 1) data }
  else .error .outOfRange

/-- The loop over a segment. -/
def copySegment (segmentOffset : Nat) : Nat → Cursor → Except Exit Cursor
  | 0, c => .ok c
  | n + 1, c =>
      if c.decompressed.length ≤ c.out + segmentOffset then .error .returnFalse
      else do
        let data ← readAt c.decompressed (c.out + segmentOffset)
        let c ← c.put data
        copySegment segmentOffset n c

/-- A segment that the two bytes below the index refer to. -/
def readSegment (compressed : List UInt8) (c : Cursor) : Except Exit Cursor :=
  if c.index < 2 then .error .returnFalse
  else do
    let index := c.index - 2
    let low ← readAt compressed index
    let high ← readAt compressed (index + 1)
    let segmentOffset := low.toNat ||| (high.toNat <<< 8)
    let segmentSize := (segmentOffset >>> 12 &&& 15) + 3
    let segmentOffset := (segmentOffset &&& 0x0FFF) + 2
    if c.out < segmentSize then .error .returnFalse
    else copySegment segmentOffset segmentSize { c with index := index }

/-- A byte that is copied. -/
def readLiteral (compressed : List UInt8) (c : Cursor) : Except Exit Cursor :=
  if c.out < 1 then .error .returnFalse
  else do
    let (data, c) ← c.readBack compressed
    c.put data

/-- A token, with the flag of a segment as the highest bit of the control byte. -/
def readToken (compressed : List UInt8) (control : UInt8) (c : Cursor) : Except Exit Cursor :=
  if control &&& 0x80 ≠ 0 then readSegment compressed c else readLiteral compressed c

/-- The loop over the bits of a control byte, with so many of them left. -/
def readGroup (compressed : List UInt8) (stopIndex : Nat) : Nat → UInt8 → Cursor → Except Exit Cursor
  | 0, _, c => .ok c
  | n + 1, control, c =>
      if c.index ≤ stopIndex ∨ c.index = 0 ∨ c.out = 0 then .ok c
      else do
        let c ← readToken compressed control c
        readGroup compressed stopIndex n (control <<< 1) c

theorem bind_eq_ok {α β : Type} {x : Except Exit α} {f : α → Except Exit β} {b : β}
    (h : (x >>= f) = .ok b) : ∃ a, x = .ok a ∧ f a = .ok b := by
  cases x with
  | error e => cases h
  | ok a => exact ⟨a, rfl, h⟩

section Index

variable {compressed : List UInt8} {c c' : Cursor} {data : UInt8} {n : Nat}

theorem index_readBack (h : c.readBack compressed = .ok (data, c')) : c'.index + 1 = c.index := by
  unfold Cursor.readBack at h
  split at h
  · cases h
  · obtain ⟨b, -, h⟩ := bind_eq_ok h
    cases h
    dsimp only
    omega

theorem index_put (h : c.put data = .ok c') : c'.index = c.index := by
  unfold Cursor.put at h
  split at h
  · cases h
    rfl
  · cases h

theorem index_copySegment {segmentOffset : Nat} (h : copySegment segmentOffset n c = .ok c') :
    c'.index = c.index := by
  induction n generalizing c with
  | zero =>
      cases h
      rfl
  | succ n ih =>
      unfold copySegment at h
      split at h
      · cases h
      · obtain ⟨data, -, h⟩ := bind_eq_ok h
        obtain ⟨next, hput, h⟩ := bind_eq_ok h
        exact (ih h).trans (index_put hput)

theorem index_readSegment (h : readSegment compressed c = .ok c') : c'.index ≤ c.index := by
  unfold readSegment at h
  split at h
  · cases h
  · obtain ⟨low, -, h⟩ := bind_eq_ok h
    obtain ⟨high, -, h⟩ := bind_eq_ok h
    dsimp only at h
    split at h
    · cases h
    · exact (index_copySegment h).trans_le (Nat.sub_le ..)

theorem index_readLiteral (h : readLiteral compressed c = .ok c') : c'.index ≤ c.index := by
  unfold readLiteral at h
  split at h
  · cases h
  · obtain ⟨⟨data, next⟩, hread, h⟩ := bind_eq_ok h
    have hindex := index_readBack hread
    have hput := index_put h
    omega

theorem index_readToken {control : UInt8} (h : readToken compressed control c = .ok c') :
    c'.index ≤ c.index := by
  unfold readToken at h
  split at h
  · exact index_readSegment h
  · exact index_readLiteral h

theorem index_readGroup {stopIndex : Nat} {control : UInt8}
    (h : readGroup compressed stopIndex n control c = .ok c') : c'.index ≤ c.index := by
  induction n generalizing c control with
  | zero =>
      cases h
      exact le_rfl
  | succ n ih =>
      unfold readGroup at h
      split at h
      · cases h
        exact le_rfl
      · obtain ⟨next, htoken, h⟩ := bind_eq_ok h
        exact (ih h).trans (index_readToken htoken)

end Index

/-- The outer loop: every group takes its control byte at least. -/
def decompressLoop (compressed : List UInt8) (stopIndex : Nat) (c : Cursor) : Except Exit Cursor :=
  if stopIndex < c.index then
    match hread : c.readBack compressed with
    | .error e => .error e
    | .ok (control, c') =>
        match hgroup : readGroup compressed stopIndex 8 control c' with
        | .error e => .error e
        | .ok next => decompressLoop compressed stopIndex next
  else .ok c
termination_by c.index
decreasing_by
  have hindex := index_readBack hread
  have hle := index_readGroup hgroup
  omega

theorem decompressLoop_eq (compressed : List UInt8) (stopIndex : Nat) (c : Cursor) :
    decompressLoop compressed stopIndex c =
      if stopIndex < c.index then
        c.readBack compressed >>= fun r =>
          readGroup compressed stopIndex 8 r.1 r.2 >>= decompressLoop compressed stopIndex
      else .ok c := by
  rw [decompressLoop]
  split
  · split
    · next hread =>
      rw [hread]
      rfl
    · next hread =>
      rw [hread]
      change _ = readGroup _ _ _ _ _ >>= _
      split
      · next hgroup =>
        rw [hgroup]
        rfl
      · next hgroup =>
        rw [hgroup]
        rfl
  · rfl

def bufferTopAndBottom (compressed : List UInt8) : Nat := fieldAt compressed (compressed.length - 8) 4

def footerLength (compressed : List UInt8) : Nat := bufferTopAndBottom compressed >>> 24 &&& 0xFF

def compressedSpan (compressed : List UInt8) : Nat := bufferTopAndBottom compressed &&& 0xFFFFFF

/-- `index` and `out` before the loop, and the copy of the compressed data. -/
def startCursor (compressed : List UInt8) (decompressedSize : Nat) : Cursor where
  index := (2 ^ 64 + compressed.length - footerLength compressed) % 2 ^ 64
  out := decompressedSize
  decompressed := compressed ++ List.replicate (decompressedSize - compressed.length) 0

def stopIndex (compressed : List UInt8) : Nat :=
  (2 ^ 64 + compressed.length - compressedSpan compressed) % 2 ^ 64

/-- `LZSS_Decompress`, with the bytes of the buffer when it returns `true`. -/
def decompress (compressed : List UInt8) (decompressedSize : Nat) : Except Exit (List UInt8) :=
  if compressed.length < 8 ∨ decompressedSize < compressed.length then .error .outOfRange
  else
    (decompressLoop compressed (stopIndex compressed) (startCursor compressed decompressedSize)).map
      Cursor.decompressed

/-! ### Indices in range -/

section Range

variable {compressed : List UInt8} {c c' : Cursor} {n : Nat}

/-- The indices are in their buffers, or behind their last bytes. -/
structure InRange (compressed : List UInt8) (c : Cursor) : Prop where
  index : c.index ≤ compressed.length
  out : c.out ≤ c.decompressed.length

/-- The code goes on in range, or returns `false`. -/
def Keeps (compressed : List UInt8) : Except Exit Cursor → Prop
  | .ok c => InRange compressed c
  | .error e => e = .returnFalse

theorem Keeps.bind {x : Except Exit Cursor} {f : Cursor → Except Exit Cursor} (h : Keeps compressed x)
    (hf : ∀ c, x = .ok c → InRange compressed c → Keeps compressed (f c)) : Keeps compressed (x >>= f) := by
  cases x with
  | error e => exact h
  | ok c => exact hf c rfl h

theorem readAt_of_lt {buffer : List UInt8} {i : Nat} (h : i < buffer.length) :
    ∃ data, readAt buffer i = .ok data := by
  rw [readAt, List.getElem?_eq_getElem h]
  exact ⟨_, rfl⟩

theorem InRange.readBack (h : InRange compressed c) (hpos : 0 < c.index) :
    ∃ data, c.readBack compressed = .ok (data, { c with index := c.index - 1 }) := by
  have hindex := h.index
  obtain ⟨data, hread⟩ := @readAt_of_lt compressed (c.index - 1) (by omega)
  rw [Cursor.readBack, if_neg hpos.ne', hread]
  exact ⟨data, rfl⟩

theorem InRange.put (h : InRange compressed c) (hpos : 0 < c.out) (data : UInt8) :
    ∃ c', c.put data = .ok c' ∧ InRange compressed c' ∧ c'.out + 1 = c.out := by
  refine ⟨_, if_pos ⟨hpos, h.out⟩, ⟨h.index, ?_⟩, Nat.sub_add_cancel hpos⟩
  rw [List.length_set]
  exact (Nat.sub_le ..).trans h.out

theorem keeps_copySegment {segmentOffset : Nat} (h : InRange compressed c) (hn : n ≤ c.out) :
    Keeps compressed (copySegment segmentOffset n c) := by
  induction n generalizing c with
  | zero => exact h
  | succ n ih =>
      unfold copySegment
      split
      · rfl
      · next hlt =>
        obtain ⟨data, hread⟩ := readAt_of_lt (Nat.not_le.mp hlt)
        obtain ⟨c', hput, hrange, hout⟩ := h.put (by omega) data
        rw [hread]
        change Keeps compressed (c.put data >>= copySegment segmentOffset n)
        rw [hput]
        exact ih hrange (by omega)

theorem keeps_readSegment (h : InRange compressed c) : Keeps compressed (readSegment compressed c) := by
  have hindex := h.index
  unfold readSegment
  split
  · rfl
  · obtain ⟨low, hlow⟩ := @readAt_of_lt compressed (c.index - 2) (by omega)
    obtain ⟨high, hhigh⟩ := @readAt_of_lt compressed (c.index - 2 + 1) (by omega)
    simp only [hlow, hhigh]
    change Keeps compressed (if _ then _ else _)
    split
    · rfl
    · next hout =>
      exact keeps_copySegment ⟨(Nat.sub_le ..).trans hindex, h.out⟩ (Nat.not_lt.mp hout)

theorem keeps_readLiteral (h : InRange compressed c) (hpos : 0 < c.index) :
    Keeps compressed (readLiteral compressed c) := by
  unfold readLiteral
  split
  · rfl
  · next hout =>
    obtain ⟨data, hread⟩ := h.readBack hpos
    have hrange : InRange compressed { c with index := c.index - 1 } :=
      ⟨(Nat.sub_le ..).trans h.index, h.out⟩
    obtain ⟨c', hput, hrange', -⟩ := hrange.put (Nat.not_lt.mp hout) data
    rw [hread]
    change Keeps compressed (Cursor.put _ data)
    rw [hput]
    exact hrange'

theorem keeps_readToken {control : UInt8} (h : InRange compressed c) (hpos : 0 < c.index) :
    Keeps compressed (readToken compressed control c) := by
  unfold readToken
  split
  · exact keeps_readSegment h
  · exact keeps_readLiteral h hpos

theorem keeps_readGroup {stopIndex : Nat} {control : UInt8} (h : InRange compressed c) :
    Keeps compressed (readGroup compressed stopIndex n control c) := by
  induction n generalizing c control with
  | zero => exact h
  | succ n ih =>
      unfold readGroup
      split
      · exact h
      · next hgo =>
        exact (keeps_readToken h (by omega)).bind fun c' _ h' => ih h'

theorem keeps_decompressLoop {stopIndex : Nat} (h : InRange compressed c) :
    Keeps compressed (decompressLoop compressed stopIndex c) := by
  generalize hn : c.index = n
  induction n using Nat.strong_induction_on generalizing c with
  | _ n ih =>
      rw [decompressLoop_eq]
      split
      · next hlt =>
        obtain ⟨control, hread⟩ := h.readBack (by omega)
        rw [hread]
        change Keeps compressed (readGroup _ _ _ _ _ >>= _)
        have hrange : InRange compressed { c with index := c.index - 1 } :=
          ⟨(Nat.sub_le ..).trans h.index, h.out⟩
        refine (keeps_readGroup hrange).bind fun next hgroup hnext => ?_
        have hindex : next.index ≤ c.index - 1 := index_readGroup hgroup
        exact ih next.index (by omega) hnext rfl
      · exact h

/-- The footer is not longer than the data, or the compressed span is longer than the data and
not longer than the footer. -/
def FooterFits (compressed : List UInt8) : Prop :=
  footerLength compressed ≤ compressed.length ∨
    compressed.length < compressedSpan compressed ∧
      compressedSpan compressed ≤ footerLength compressed

theorem length_le_getDecompressedSize (hlt : compressed.length < 2 ^ 63) :
    compressed.length ≤ getDecompressedSize compressed := by
  have hfield := ofBytes_lt ((compressed.drop (compressed.length - 4)).take 4)
  have hlength : ((compressed.drop (compressed.length - 4)).take 4).length ≤ 4 := List.length_take_le ..
  have hpow := Nat.pow_le_pow_right (show 0 < 256 by decide) hlength
  have hroom : fieldAt compressed (compressed.length - 4) 4 + compressed.length < 2 ^ 64 := by
    rw [fieldAt]
    omega
  rw [getDecompressedSize, Nat.mod_eq_of_lt hroom]
  exact Nat.le_add_left ..

theorem footerLength_lt (compressed : List UInt8) : footerLength compressed < 2 ^ 8 :=
  Nat.and_lt_two_pow _ (by decide)

theorem compressedSpan_lt (compressed : List UInt8) : compressedSpan compressed < 2 ^ 24 :=
  Nat.and_lt_two_pow _ (by decide)

theorem decompress_of_fits {size : Nat} (hsize : 8 ≤ compressed.length) (hlt : compressed.length < 2 ^ 63)
    (hle : compressed.length ≤ size) (h : FooterFits compressed) :
    decompress compressed size ≠ .error .outOfRange := by
  have hfooter := footerLength_lt compressed
  have hspan := compressedSpan_lt compressed
  have hout : size ≤ (startCursor compressed size).decompressed.length := by
    rw [startCursor, List.length_append, List.length_replicate, Nat.add_sub_cancel' hle]
  have hkeeps : Keeps compressed
      (decompressLoop compressed (stopIndex compressed) (startCursor compressed size)) ∨
      decompressLoop compressed (stopIndex compressed) (startCursor compressed size) =
        .ok (startCursor compressed size) := by
    rcases h with hshort | ⟨hlong, hle'⟩
    · refine .inl (keeps_decompressLoop ⟨?_, hout⟩)
      change (2 ^ 64 + compressed.length - footerLength compressed) % 2 ^ 64 ≤ _
      omega
    · right
      rw [decompressLoop_eq, if_neg]
      change ¬ (2 ^ 64 + compressed.length - _) % 2 ^ 64 < (2 ^ 64 + compressed.length - _) % 2 ^ 64
      omega
  rw [decompress, if_neg (by omega)]
  cases hloop : decompressLoop compressed (stopIndex compressed) (startCursor compressed size) with
  | ok c => exact fun h => by cases h
  | error e =>
      rw [hloop] at hkeeps
      rcases hkeeps with hkeeps | herror
      · cases hkeeps
        exact fun h => by cases h
      · cases herror

theorem decompress_of_not_fits {size : Nat} (hlt : compressed.length < 2 ^ 63)
    (h : ¬ FooterFits compressed) : decompress compressed size = .error .outOfRange := by
  have hfooter := footerLength_lt compressed
  have hspan := compressedSpan_lt compressed
  unfold FooterFits at h
  have hindex : (startCursor compressed size).index =
      (2 ^ 64 + compressed.length - footerLength compressed) % 2 ^ 64 := rfl
  -- The index begins close to the end of the address space.
  have hread : (startCursor compressed size).readBack compressed = .error .outOfRange := by
    rw [Cursor.readBack, if_neg (by omega), readAt, List.getElem?_eq_none (by omega)]
    rfl
  have hgo : stopIndex compressed < (startCursor compressed size).index := by
    rw [hindex, stopIndex]
    omega
  rw [decompress]
  split
  · rfl
  · rw [decompressLoop_eq, if_pos hgo, hread]
    rfl

/-- The decompression stays inside of its buffers if the footer fits, and only then. -/
theorem decompress_inRange_iff (compressed : List UInt8) (hsize : 8 ≤ compressed.length)
    (hlt : compressed.length < 2 ^ 63) :
    decompress compressed (getDecompressedSize compressed) ≠ .error .outOfRange ↔
      FooterFits compressed := by
  constructor
  · intro h
    by_contra hfits
    exact h (decompress_of_not_fits hlt hfits)
  · exact decompress_of_fits hsize hlt (length_le_getDecompressedSize hlt)

/-- A footer of 255 bytes, and a span of 8 bytes, in no more than 8 bytes. -/
def longFooter : List UInt8 := [8, 0, 0, 0xFF, 0, 0, 0, 0]

theorem decompress_inRange_longFooter :
    decompress longFooter (getDecompressedSize longFooter) ≠ .error .outOfRange ↔
      FooterFits longFooter :=
  decompress_inRange_iff longFooter (by decide) (by decide)

/-- The first control byte is read in front of the buffer. -/
theorem decompress_longFooter :
    ¬ ∀ compressed : List UInt8, 8 ≤ compressed.length → compressed.length < 2 ^ 63 →
      decompress compressed (getDecompressedSize compressed) ≠ .error .outOfRange := by
  intro h
  have hfits : ¬ FooterFits longFooter := by
    rintro (hle | ⟨hlt, -⟩)
    · exact absurd hle (by decide)
    · exact absurd hlt (by decide)
  exact h longFooter (by decide) (by decide) (decompress_of_not_fits (by decide) hfits)

end Range

/-! ### What tokens stand for -/

/-- A byte, or a reference to bytes that begin so far behind the next one. -/
inductive Token where
  | literal (byte : UInt8)
  | reference (distance length : Nat) (hdistance : 3 ≤ distance ∧ distance ≤ 4098)
      (hlength : 3 ≤ length ∧ length ≤ 18)

namespace Token

/-- The flag of a token. -/
def isReference : Token → Bool
  | literal _ => false
  | reference .. => true

/-- The bytes of a token in the order in which they are read. -/
def encode : Token → List UInt8
  | literal byte => [byte]
  | reference distance length _ _ =>
      let field := (length - 3) * 2 ^ 12 + (distance - 3)
      [UInt8.ofNat (field / 256), UInt8.ofNat field]

/-- Bytes of the plaintext in front of those that are there already, one after another. -/
def copyBack (distance : Nat) : Nat → List UInt8 → Option (List UInt8)
  | 0, plain => some plain
  | n + 1, plain => plain[distance - 1]?.bind fun byte => copyBack distance n (byte :: plain)

/-- The plaintext with what a token puts in front of it. -/
def expand : Token → List UInt8 → Option (List UInt8)
  | literal byte, plain => some (byte :: plain)
  | reference distance length _ _, plain => copyBack distance length plain

/-- The plaintext that tokens build from its end. -/
def expandAll : List Token → List UInt8 → Option (List UInt8)
  | [], plain => some plain
  | t :: rest, plain => (t.expand plain).bind (expandAll rest)

end Token

/-- Tokens in groups of eight behind their control bytes, in the order in which they are read. The
last group may have fewer. -/
inductive Packed : List Token → List UInt8 → Prop
  | done : Packed [] []
  | group {control : UInt8} {tokens rest : List Token} {bytes : List UInt8} (hne : tokens ≠ [])
      (hlength : tokens.length ≤ 8) (hfull : rest ≠ [] → tokens.length = 8)
      (hcontrol : ∀ i (h : i < tokens.length), control.toNat.testBit (7 - i) = tokens[i].isReference)
      (hrest : Packed rest bytes) :
      Packed (tokens ++ rest) (control :: (tokens.flatMap Token.encode ++ bytes))

section Correct

variable {compressed front bytes plain plain' text : List UInt8} {c : Cursor} {n : Nat}

/-- A cursor that has still to read some bytes behind the front, and has written a part of the
text. -/
structure At (compressed front text : List UInt8) (c : Cursor) (bytes plain : List UInt8) : Prop where
  index : c.index ≤ compressed.length
  reads : compressed.take c.index = front ++ bytes.reverse
  out : c.out + plain.length = front.length + text.length
  length : c.decompressed.length = front.length + text.length
  start : c.decompressed.take front.length = front
  built : c.decompressed.drop c.out = plain
  le : plain.length ≤ text.length

theorem At.readBack {b : UInt8} (h : At compressed front text c (b :: bytes) plain) :
    c.readBack compressed = .ok (b, { c with index := c.index - 1 }) ∧
      At compressed front text { c with index := c.index - 1 } bytes plain := by
  have hindex := h.index
  have hreads : compressed.take c.index = (front ++ bytes.reverse) ++ [b] := by
    rw [h.reads, List.reverse_cons, List.append_assoc]
  have hlength := congrArg List.length hreads
  rw [List.length_take, min_eq_left hindex, List.length_append, List.length_singleton] at hlength
  have hlast : compressed[c.index - 1]? = some b := by
    have hget := @List.getElem?_concat_length _ (front ++ bytes.reverse) b
    rw [← hreads, List.getElem?_take_of_lt (by omega)] at hget
    rwa [hlength, Nat.add_sub_cancel]
  constructor
  · rw [Cursor.readBack, if_neg (by omega), readAt, hlast]
    rfl
  · refine ⟨(Nat.sub_le ..).trans hindex, ?_, h.out, h.length, h.start, h.built, h.le⟩
    have htake := congrArg (List.take (c.index - 1)) hreads
    rw [List.take_take, min_eq_left (Nat.sub_le ..), List.take_left' (by omega)] at htake
    exact htake

theorem At.put (h : At compressed front text c bytes plain) (b : UInt8) (hlt : plain.length < text.length) :
    ∃ c', c.put b = .ok c' ∧ At compressed front text c' bytes (b :: plain) := by
  have hout := h.out
  have hlength := h.length
  have hset : c.out - 1 < c.decompressed.length := by omega
  refine ⟨_, if_pos ⟨by omega, by omega⟩, h.index, h.reads, ?_, ?_, ?_, ?_, hlt⟩
  · rw [List.length_cons]
    dsimp only
    omega
  · rw [List.length_set]
    exact hlength
  · rw [List.take_set_of_le (by omega)]
    exact h.start
  · have hdrop : c.decompressed.drop (c.out - 1 + 1) = plain := by
      rw [show c.out - 1 + 1 = c.out by omega]
      exact h.built
    rw [List.drop_eq_getElem_cons (by rwa [List.length_set]), List.getElem_set_self,
      List.drop_set_of_lt (Nat.lt_succ_self _), hdrop]

theorem At.copySegment {distance : Nat} (h : At compressed front text c bytes plain)
    (hcopy : Token.copyBack distance n plain = some plain')
    (hle : plain.length + n ≤ text.length) :
    ∃ c', copySegment (distance - 1) n c = .ok c' ∧ At compressed front text c' bytes plain' := by
  induction n generalizing c plain with
  | zero =>
      cases hcopy
      exact ⟨c, rfl, h⟩
  | succ n ih =>
      obtain ⟨b, hb, hcopy⟩ := Option.bind_eq_some_iff.mp hcopy
      have hlt := (List.getElem?_eq_some_iff.mp hb).1
      have hout := h.out
      have hlength := h.length
      have hread : readAt c.decompressed (c.out + (distance - 1)) = .ok b := by
        have hbyte : c.decompressed[c.out + (distance - 1)]? = some b := by
          rw [← List.getElem?_drop, h.built, hb]
        rw [readAt, hbyte]
      obtain ⟨c', hput, h'⟩ := h.put b (by omega)
      obtain ⟨c'', hrest, h''⟩ := ih h' hcopy (by rw [List.length_cons]; omega)
      refine ⟨c'', ?_, h''⟩
      rw [Lzss.copySegment, if_neg (by omega), hread]
      change c.put b >>= _ = _
      rw [hput]
      exact hrest

theorem length_copyBack {distance : Nat} (h : Token.copyBack distance n plain = some plain') :
    plain'.length = plain.length + n := by
  induction n generalizing plain with
  | zero =>
      cases h
      rfl
  | succ n ih =>
      obtain ⟨b, -, h⟩ := Option.bind_eq_some_iff.mp h
      rw [ih h, List.length_cons]
      omega

theorem field_eq {distance length : Nat} (hdistance : 3 ≤ distance ∧ distance ≤ 4098)
    (hlength : 3 ≤ length ∧ length ≤ 18) {field : Nat}
    (hfield : field = (length - 3) * 2 ^ 12 + (distance - 3)) :
    let value := (UInt8.ofNat field).toNat ||| (UInt8.ofNat (field / 256)).toNat <<< 8
    (value >>> 12 &&& 15) + 3 = length ∧ (value &&& 0x0FFF) + 2 = distance - 1 := by
  have hvalue : (UInt8.ofNat field).toNat ||| (UInt8.ofNat (field / 256)).toNat <<< 8 = field := by
    rw [UInt8.toNat_ofNat', UInt8.toNat_ofNat', Nat.or_comm, ← Nat.shiftLeft_add_eq_or_of_lt (Nat.mod_lt _ (by decide)),
      Nat.shiftLeft_eq]
    omega
  have hhigh : field >>> 12 &&& 15 = field / 2 ^ 12 % 2 ^ 4 := by
    rw [← Nat.and_two_pow_sub_one_eq_mod, Nat.shiftRight_eq_div_pow]
  have hlow : field &&& 0x0FFF = field % 2 ^ 12 := by
    rw [← Nat.and_two_pow_sub_one_eq_mod]
  dsimp only
  rw [hvalue, hhigh, hlow]
  omega

theorem readAt_of_readBack {b : UInt8} {c' : Cursor} (h : c.readBack compressed = .ok (b, c')) :
    0 < c.index ∧ readAt compressed (c.index - 1) = .ok b := by
  unfold Cursor.readBack at h
  split at h
  · cases h
  · next hpos =>
    obtain ⟨data, hread, h⟩ := bind_eq_ok h
    cases h
    exact ⟨Nat.pos_of_ne_zero hpos, hread⟩

theorem At.readSegment {distance length : Nat} {hdistance : 3 ≤ distance ∧ distance ≤ 4098}
    {hlength : 3 ≤ length ∧ length ≤ 18}
    (h : At compressed front text c
      ((Token.reference distance length hdistance hlength).encode ++ bytes) plain)
    (hcopy : Token.copyBack distance length plain = some plain') (hle : plain'.length ≤ text.length) :
    ∃ c', readSegment compressed c = .ok c' ∧ At compressed front text c' bytes plain' := by
  obtain ⟨hhigh, h1⟩ := At.readBack h
  obtain ⟨hlow, h2⟩ := At.readBack h1
  obtain ⟨hpos, hhigh⟩ := readAt_of_readBack hhigh
  obtain ⟨hpos', hlow⟩ := readAt_of_readBack hlow
  dsimp only at hpos' hlow
  obtain ⟨hsize, hoffset⟩ := field_eq hdistance hlength rfl
  have hroom := length_copyBack hcopy
  have hout := h2.out
  obtain ⟨c', hsegment, h'⟩ := h2.copySegment hcopy (by omega)
  refine ⟨c', ?_, h'⟩
  have hindex : c.index - 2 = c.index - 1 - 1 := by omega
  have hindex' : c.index - 2 + 1 = c.index - 1 := by omega
  rw [Lzss.readSegment, if_neg (by omega)]
  dsimp only
  rw [hindex', hindex, hlow, hhigh]
  change (if _ then _ else _) = _
  rw [hsize, hoffset, if_neg (by dsimp only at hout; omega)]
  exact hsegment

theorem and_high_ne_zero (control : UInt8) : control &&& 0x80 ≠ 0 ↔ control.toNat.testBit 7 = true := by
  have hbit := Nat.and_two_pow control.toNat 7
  have hnat : (control &&& 0x80).toNat = control.toNat &&& 2 ^ 7 := UInt8.toNat_and ..
  rw [ne_eq, ← UInt8.toNat_inj, hnat, hbit]
  cases control.toNat.testBit 7 <;> simp

theorem At.readToken {t : Token} {control : UInt8} (h : At compressed front text c (t.encode ++ bytes) plain)
    (hflag : control.toNat.testBit 7 = t.isReference) (hexpand : t.expand plain = some plain')
    (hle : plain'.length ≤ text.length) :
    ∃ c', readToken compressed control c = .ok c' ∧ At compressed front text c' bytes plain' := by
  unfold Lzss.readToken
  cases t with
  | literal byte =>
      cases hexpand
      obtain ⟨hread, h'⟩ := At.readBack h
      obtain ⟨c', hput, h''⟩ := h'.put byte hle
      refine ⟨c', ?_, h''⟩
      have hout := h.out
      rw [List.length_cons] at hle
      rw [if_neg (by rw [and_high_ne_zero, hflag]; exact Bool.false_ne_true), readLiteral,
        if_neg (by omega), hread]
      exact hput
  | reference distance length hdistance hlength =>
      rw [if_pos ((and_high_ne_zero control).mpr hflag)]
      exact h.readSegment hexpand hle

theorem length_lt_of_expand {t : Token} (h : t.expand plain = some plain') :
    plain.length < plain'.length := by
  cases t with
  | literal byte =>
      cases h
      exact Nat.lt_succ_self _
  | reference distance length hdistance hlength =>
      have := length_copyBack h
      omega

theorem length_le_of_expandAll {tokens : List Token} (h : Token.expandAll tokens plain = some plain') :
    plain.length ≤ plain'.length := by
  induction tokens generalizing plain with
  | nil =>
      cases h
      exact le_rfl
  | cons t rest ih =>
      obtain ⟨next, hnext, h⟩ := Option.bind_eq_some_iff.mp h
      exact (length_lt_of_expand hnext).le.trans (ih h)

theorem expandAll_append (tokens rest : List Token) (plain : List UInt8) :
    Token.expandAll (tokens ++ rest) plain =
      (Token.expandAll tokens plain).bind (Token.expandAll rest) := by
  induction tokens generalizing plain with
  | nil => rfl
  | cons t tail ih =>
      rw [List.cons_append, Token.expandAll, Token.expandAll, Option.bind_assoc]
      exact congrArg _ (funext ih)

theorem encode_ne_nil (t : Token) : t.encode ≠ [] := by
  cases t <;> exact List.cons_ne_nil _ _

theorem At.index_eq (h : At compressed front text c bytes plain) :
    c.index = front.length + bytes.length := by
  have hlength := congrArg List.length h.reads
  rwa [List.length_take, min_eq_left h.index, List.length_append, List.length_reverse] at hlength

theorem testBit_shift (control : UInt8) {i : Nat} (hi : i < 7) :
    (control <<< 1).toNat.testBit (7 - i) = control.toNat.testBit (7 - (i + 1)) := by
  have hshift : (control <<< 1).toNat = control.toNat <<< 1 % 2 ^ 8 := UInt8.toNat_shiftLeft ..
  rw [hshift, Nat.testBit_mod_two_pow, decide_eq_true (by omega), Bool.true_and, Nat.testBit_shiftLeft,
    decide_eq_true (by omega), Bool.true_and]
  rfl

theorem At.readGroup {tokens : List Token} {control : UInt8}
    (h : At compressed front text c (tokens.flatMap Token.encode ++ bytes) plain)
    (hlength : tokens.length ≤ n) (hn : n ≤ 8) (hfull : bytes = [] ∨ tokens.length = n)
    (hcontrol : ∀ i (h : i < tokens.length), control.toNat.testBit (7 - i) = tokens[i].isReference)
    (hexpand : Token.expandAll tokens plain = some plain') (hle : plain'.length ≤ text.length) :
    ∃ c', readGroup compressed front.length n control c = .ok c' ∧
      At compressed front text c' bytes plain' := by
  induction n generalizing tokens c control plain with
  | zero =>
      obtain rfl := List.eq_nil_of_length_eq_zero (Nat.le_zero.mp hlength)
      cases hexpand
      exact ⟨c, rfl, h⟩
  | succ n ih =>
      have hindex := h.index_eq
      unfold Lzss.readGroup
      cases tokens with
      | nil =>
          cases hexpand
          obtain rfl := hfull.resolve_right (Nat.succ_ne_zero n).symm
          exact ⟨c, if_pos (.inl hindex.le), h⟩
      | cons t rest =>
          obtain ⟨next, hnext, hrest⟩ := Option.bind_eq_some_iff.mp hexpand
          have hgrow := length_lt_of_expand hnext
          have hle' := (length_le_of_expandAll hrest).trans hle
          have hout := h.out
          have hbytes : 0 < ((t :: rest).flatMap Token.encode ++ bytes).length := by
            rw [List.flatMap_cons, List.append_assoc, List.length_append]
            exact Nat.add_pos_left (List.length_pos_of_ne_nil (encode_ne_nil t)) _
          rw [List.flatMap_cons, List.append_assoc] at h
          obtain ⟨c', htoken, h'⟩ := h.readToken (hcontrol 0 (Nat.succ_pos _)) hnext hle'
          obtain ⟨c'', hgroup, h''⟩ := ih h' (Nat.le_of_succ_le_succ hlength) (by omega)
            (hfull.imp_right Nat.succ.inj)
            (fun i hi => (testBit_shift control (by rw [List.length_cons] at hlength; omega)).trans
              (hcontrol (i + 1) (Nat.succ_lt_succ hi))) hrest
          refine ⟨c'', ?_, h''⟩
          rw [if_neg (by omega), htoken]
          exact hgroup

theorem At.decompressLoop {tokens : List Token} (hpacked : Packed tokens bytes)
    (h : At compressed front text c bytes plain) (hexpand : Token.expandAll tokens plain = some plain')
    (hle : plain'.length ≤ text.length) :
    ∃ c', decompressLoop compressed front.length c = .ok c' ∧ At compressed front text c' [] plain' := by
  induction hpacked generalizing c plain with
  | done =>
      cases hexpand
      have hend : c.index = front.length := h.index_eq
      refine ⟨c, ?_, h⟩
      rw [decompressLoop_eq, if_neg (Nat.not_lt.mpr hend.le)]
  | @group control tokens rest bytes hne hlength hfull hcontrol hrest ih =>
      rw [expandAll_append] at hexpand
      obtain ⟨middle, hmiddle, hexpand⟩ := Option.bind_eq_some_iff.mp hexpand
      have hindex := h.index_eq
      rw [List.length_cons] at hindex
      obtain ⟨hread, h'⟩ := At.readBack h
      have hend : bytes = [] ∨ tokens.length = 8 := by
        cases hrest with
        | done => exact .inl rfl
        | group hne' => exact .inr (hfull (List.append_ne_nil_of_left_ne_nil hne' _))
      obtain ⟨c', hgroup, h''⟩ := h'.readGroup hlength le_rfl hend hcontrol hmiddle
        ((length_le_of_expandAll hexpand).trans hle)
      obtain ⟨c'', hloop, hdone⟩ := ih h'' hexpand
      refine ⟨c'', ?_, hdone⟩
      rw [decompressLoop_eq, if_pos (by omega), hread]
      change Lzss.readGroup _ _ _ _ _ >>= _ = _
      rw [hgroup]
      exact hloop

/-- The footer of a span of packed tokens. -/
def footer (padding span increase : Nat) : List UInt8 :=
  toBytes 4 (span + (padding + 8) * 2 ^ 24) ++ toBytes 4 increase

/-- Packed tokens behind a part that is not compressed are decompressed to that part and the text
that they stand for. -/
theorem decompress_packed {tokens : List Token} (padding : List UInt8) {increase : Nat}
    (hpacked : Packed tokens bytes) (hexpand : Token.expandAll tokens [] = some text)
    (hcompressed : compressed = front ++ bytes.reverse ++ padding ++
      footer padding.length (bytes.length + (padding.length + 8)) increase)
    (hpadding : padding.length + 8 < 2 ^ 8) (hspan : bytes.length + (padding.length + 8) < 2 ^ 24)
    (hincrease : increase < 2 ^ 32) (hsize : increase + compressed.length = front.length + text.length)
    (hlt : compressed.length < 2 ^ 63) :
    decompress compressed (getDecompressedSize compressed) = .ok (front ++ text) := by
  have hlength : compressed.length = front.length + bytes.length + padding.length + 8 := by
    rw [hcompressed, footer]
    simp only [List.length_append, List.length_reverse, length_toBytes]
  have htop : bufferTopAndBottom compressed =
      bytes.length + (padding.length + 8) + (padding.length + 8) * 2 ^ 24 := by
    refine fieldAt_toBytes ?_ (by omega)
    have hlen : (front ++ bytes.reverse ++ padding).length = compressed.length - 8 := by
      simp only [List.length_append, List.length_reverse]
      omega
    rw [← hlen, hcompressed, List.drop_left, footer, List.take_left' (length_toBytes ..)]
  have hlast : fieldAt compressed (compressed.length - 4) 4 = increase := by
    refine fieldAt_toBytes ?_ hincrease
    have hsplit : compressed = (front ++ bytes.reverse ++ padding ++ toBytes 4
        (bytes.length + (padding.length + 8) + (padding.length + 8) * 2 ^ 24)) ++ toBytes 4 increase := by
      rw [hcompressed, footer]
      simp only [List.append_assoc]
    have hlen : (front ++ bytes.reverse ++ padding ++ toBytes 4
        (bytes.length + (padding.length + 8) + (padding.length + 8) * 2 ^ 24)).length =
          compressed.length - 4 := by
      simp only [List.length_append, List.length_reverse, length_toBytes]
      omega
    rw [← hlen]
    conv_lhs => rw [hsplit]
    rw [List.drop_left, List.take_of_length_le (length_toBytes ..).le]
  have hfooter : footerLength compressed = padding.length + 8 := by
    rw [footerLength, htop, Nat.shiftRight_eq_div_pow, Nat.add_mul_div_right _ _ (Nat.two_pow_pos 24),
      Nat.div_eq_of_lt hspan, Nat.zero_add]
    change _ &&& 2 ^ 8 - 1 = _
    rw [Nat.and_two_pow_sub_one_eq_mod, Nat.mod_eq_of_lt hpadding]
  have hspan' : compressedSpan compressed = bytes.length + (padding.length + 8) := by
    rw [compressedSpan, htop]
    change _ &&& 2 ^ 24 - 1 = _
    rw [Nat.and_two_pow_sub_one_eq_mod]
    omega
  have hdecompressed : getDecompressedSize compressed = front.length + text.length := by
    rw [getDecompressedSize, hlast, hsize, Nat.mod_eq_of_lt (by omega)]
  have hstop : stopIndex compressed = front.length := by
    rw [stopIndex, hspan']
    omega
  have hindex : (startCursor compressed (front.length + text.length)).index =
      front.length + bytes.length := by
    change (2 ^ 64 + compressed.length - _) % 2 ^ 64 = _
    rw [hfooter]
    omega
  have hlong : (startCursor compressed (front.length + text.length)).decompressed.length =
      front.length + text.length := by
    rw [startCursor, List.length_append, List.length_replicate]
    omega
  have hstart : At compressed front text (startCursor compressed (front.length + text.length)) bytes [] := by
    refine ⟨by omega, ?_, rfl, hlong, ?_, List.drop_of_length_le hlong.le, Nat.zero_le _⟩
    · have hlen : (front ++ bytes.reverse).length = front.length + bytes.length := by
        rw [List.length_append, List.length_reverse]
      rw [hindex, ← hlen, hcompressed, List.append_assoc _ padding, List.take_left]
    · rw [startCursor, hcompressed]
      simp only [List.append_assoc, List.take_left]
  obtain ⟨c, hloop, hdone⟩ := hstart.decompressLoop hpacked hexpand le_rfl
  have hout : c.out = front.length := Nat.add_right_cancel hdone.out
  have hresult : c.decompressed = front ++ text := by
    rw [← List.take_append_drop front.length c.decompressed, hdone.start, ← hout, hdone.built]
  rw [hdecompressed, decompress, if_neg (by omega), hstop, hloop]
  exact congrArg Except.ok hresult

/-- Three bytes, and a reference that repeats them six times. -/
def repeated : List Token :=
  [.literal 3, .literal 2, .literal 1, .reference 3 18 (by decide) (by decide)]

theorem packed_repeated : Packed repeated [0x10, 3, 2, 1, 0xF0, 0] :=
  @Packed.group 0x10 repeated [] [] (by decide) (by decide) (fun h => absurd rfl h) (by decide) .done

theorem decompress_packed_repeated :
    decompress ([0x50, 0, 0xF0, 1, 2, 3, 0x10] ++ footer 0 14 7)
        (getDecompressedSize ([0x50, 0, 0xF0, 1, 2, 3, 0x10] ++ footer 0 14 7)) =
      .ok ([0x50] ++ (List.replicate 7 [1, 2, 3]).flatten) :=
  @decompress_packed _ [0x50] _ _ _ [] _ packed_repeated rfl rfl (by decide) (by decide) (by decide)
    (by decide) (by decide)

end Correct

end Cytrus.FileSys.Lzss
