import Mathlib
import Cytrus.Support.PackedTable

/-!
# Packets of the network

A packet is written at its end and read from a position on. Numbers are in
network byte order, and strings and vectors begin with their length. A read that
does not fit makes the packet invalid.

## Main results

* `readAll_writeAll`: what was written is read back
* `isSome_run_iff`: when reads stay inside of the packet
* `run_of_invalid`: behind a read that failed only ignored bytes move the position
-/

namespace Cytrus.Network.Codec

open Support

structure Packet where
  data : List UInt8 := []
  readPos : Nat := 0
  isValid : Bool := true
  deriving DecidableEq

/-! ## Byte order -/

def byteSwap (width n : Nat) : Nat := ofBytes (toBytes width n).reverse

/-- `htons`, on a host whose first byte is the lowest one. -/
def htons (x : UInt16) : UInt16 := UInt16.ofNat (byteSwap 2 x.toNat)

def htonl (x : UInt32) : UInt32 := UInt32.ofNat (byteSwap 4 x.toNat)

def htonll (x : UInt64) : UInt64 :=
  if 1 = htonl 1 then x
  else ((htonl (x &&& 0xFFFFFFFF).toUInt32).toUInt64 <<< 32) ||| (htonl (x >>> 32).toUInt32).toUInt64

def ntohs (x : UInt16) : UInt16 := UInt16.ofNat (byteSwap 2 x.toNat)

def ntohl (x : UInt32) : UInt32 := UInt32.ofNat (byteSwap 4 x.toNat)

def ntohll (x : UInt64) : UInt64 :=
  if 1 = htonl 1 then x
  else ((ntohl (x &&& 0xFFFFFFFF).toUInt32).toUInt64 <<< 32) ||| (ntohl (x >>> 32).toUInt32).toUInt64

/-! ## Values -/

/-- The types that a packet carries. -/
inductive Ty
  | bool | s8 | u8 | s16 | u16 | s32 | u32 | s64 | u64
  | string
  | vector (t : Ty)
  | array (t : Ty) (n : Nat)
  deriving DecidableEq

/-- The values of a type; the characters of a string are bytes. -/
def Ty.Val : Ty → Type
  | .bool => Bool
  | .s8 => Int8
  | .u8 => UInt8
  | .s16 => Int16
  | .u16 => UInt16
  | .s32 => Int32
  | .u32 => UInt32
  | .s64 => Int64
  | .u64 => UInt64
  | .string => List UInt8
  | .vector t => List t.Val
  | .array t n => { l : List t.Val // l.length = n }

namespace Packet

/-! ## Writing -/

def append (p : Packet) (bytes : List UInt8) : Packet := { p with data := p.data ++ bytes }

def writeU8 (x : UInt8) (p : Packet) : Packet := p.append [x]

def writeU16 (x : UInt16) (p : Packet) : Packet := p.append (toBytes 2 (htons x).toNat)

def writeU32 (x : UInt32) (p : Packet) : Packet := p.append (toBytes 4 (htonl x).toNat)

def writeU64 (x : UInt64) (p : Packet) : Packet := p.append (toBytes 8 (htonll x).toNat)

def writeString (s : List UInt8) (p : Packet) : Packet :=
  let length := UInt32.ofNat s.length
  let p := writeU32 length p
  if 0 < length then p.append (s.take length.toNat) else p

def write : (t : Ty) → t.Val → Packet → Packet
  | .bool, (x : Bool), p => writeU8 (if x then 1 else 0) p
  | .s8, (x : Int8), p => writeU8 x.toUInt8 p
  | .u8, (x : UInt8), p => writeU8 x p
  | .s16, (x : Int16), p => writeU16 x.toUInt16 p
  | .u16, (x : UInt16), p => writeU16 x p
  | .s32, (x : Int32), p => writeU32 x.toUInt32 p
  | .u32, (x : UInt32), p => writeU32 x p
  | .s64, (x : Int64), p => writeU64 x.toUInt64 p
  | .u64, (x : UInt64), p => writeU64 x p
  | .string, s, p => writeString s p
  | .vector t, l, p => List.foldl (fun p x => write t x p) (writeU32 (UInt32.ofNat (List.length l)) p) l
  | .array t _, l, p => l.val.foldl (fun p x => write t x p) p

/-! ## Reading -/

/-- `CheckSize`, whose sum has 64 bits. -/
def checkSize (p : Packet) (size : Nat) : Bool × Packet :=
  let isValid := p.isValid && (p.readPos + size) % 2 ^ 64 ≤ p.data.length
  (isValid, { p with isValid })

/-- Copy the bytes at the read position, which is possible only inside of the data. -/
def take (p : Packet) (size : Nat) : Option (List UInt8 × Packet) :=
  (slice p.data p.readPos size).map fun bytes => (bytes, { p with readPos := (p.readPos + size) % 2 ^ 64 })

/-- `Read` into a variable that holds `old`. -/
def readRaw (p : Packet) (old : List UInt8) : Option (List UInt8 × Packet) :=
  if (p.checkSize old.length).1 then (p.checkSize old.length).2.take old.length
  else some (old, (p.checkSize old.length).2)

def ignoreBytes (p : Packet) (length : UInt32) : Packet :=
  { p with readPos := (p.readPos + length.toNat) % 2 ^ 64 }

def readU8 (old : UInt8) (p : Packet) : Option (UInt8 × Packet) :=
  (p.readRaw [old]).map fun r => (UInt8.ofNat (ofBytes r.1), r.2)

/-- The value is zero where nothing is read. -/
def readU16 (p : Packet) : Option (UInt16 × Packet) :=
  (p.readRaw (List.replicate 2 0)).map fun r => (ntohs (UInt16.ofNat (ofBytes r.1)), r.2)

def readU32 (p : Packet) : Option (UInt32 × Packet) :=
  (p.readRaw (List.replicate 4 0)).map fun r => (ntohl (UInt32.ofNat (ofBytes r.1)), r.2)

def readU64 (p : Packet) : Option (UInt64 × Packet) :=
  (p.readRaw (List.replicate 8 0)).map fun r => (ntohll (UInt64.ofNat (ofBytes r.1)), r.2)

/-- The characters of a string, behind its length. -/
def readChars (length : UInt32) (p : Packet) : Option (List UInt8 × Packet) :=
  if 0 < length then
    if (p.checkSize length.toNat).1 then (p.checkSize length.toNat).2.take length.toNat
    else some ([], (p.checkSize length.toNat).2)
  else some ([], p)

/-- The loop over the elements of a vector or an array. -/
def readMany {α : Type} (read : Packet → Option (α × Packet)) :
    (n : Nat) → Packet → Option ({ l : List α // l.length = n } × Packet)
  | 0, p => some (⟨[], rfl⟩, p)
  | n + 1, p =>
      match read p with
      | none => none
      | some (x, p) => (readMany read n p).map fun r => (⟨x :: r.1.1, congrArg (· + 1) r.1.2⟩, r.2)

def readBool (fresh : UInt8) (old : Bool) (p : Packet) : Option (Bool × Packet) :=
  (readU8 fresh p).map fun r => (if r.2.isValid then r.1 != 0 else old, r.2)

def readString (p : Packet) : Option (List UInt8 × Packet) := (readU32 p).bind fun r => readChars r.1 r.2

def readVector {α : Type} (read : Packet → Option (α × Packet)) (p : Packet) : Option (List α × Packet) :=
  (readU32 p).bind fun r => (readMany read r.1.toNat r.2).map fun r => (r.1.1, r.2)

/-- The operators `>>` into a variable that holds `old`. A variable of a type that is not set holds
what `fresh` says. -/
def read (fresh : (t : Ty) → t.Val) : (t : Ty) → t.Val → Packet → Option (t.Val × Packet)
  | .bool, old, p => readBool (fresh .u8) old p
  | .s8, (old : Int8), p => (readU8 old.toUInt8 p).map fun r => (r.1.toInt8, r.2)
  | .u8, old, p => readU8 old p
  | .s16, _, p => (readU16 p).map fun r => (r.1.toInt16, r.2)
  | .u16, _, p => readU16 p
  | .s32, _, p => (readU32 p).map fun r => (r.1.toInt32, r.2)
  | .u32, _, p => readU32 p
  | .s64, _, p => (readU64 p).map fun r => (r.1.toInt64, r.2)
  | .u64, _, p => readU64 p
  | .string, _, p => readString p
  | .vector t, _, p => readVector (read fresh t (fresh t)) p
  | .array t n, _, p => readMany (read fresh t (fresh t)) n p

/-! ## Sequences -/

/-- Values, each with its type. -/
abbrev Value := (t : Ty) × t.Val

def writeAll (values : List Value) (p : Packet) : Packet := values.foldl (fun p v => write v.1 v.2 p) p

/-- Typed reads, with what they return. -/
def readAll (fresh : (t : Ty) → t.Val) : List Ty → Packet → Option (List Value × Packet)
  | [], p => some ([], p)
  | t :: rest, p =>
      (read fresh t (fresh t) p).bind fun r => (readAll fresh rest r.2).map fun s => (⟨t, r.1⟩ :: s.1, s.2)

/-- A typed read or `IgnoreBytes`. -/
inductive Op
  | read (t : Ty)
  | ignoreBytes (length : UInt32)

def apply (fresh : (t : Ty) → t.Val) (p : Packet) : Op → Option Packet
  | .read t => (read fresh t (fresh t) p).map Prod.snd
  | .ignoreBytes length => some (p.ignoreBytes length)

/-- A run has no result if it reads outside of the packet. -/
def run (fresh : (t : Ty) → t.Val) : List Op → Packet → Option Packet
  | [], p => some p
  | op :: rest, p => (p.apply fresh op).bind (run fresh rest)

end Packet

/-! ## What was written is read -/

section ByteOrder

theorem byteSwap_lt (width n : Nat) : byteSwap width n < 256 ^ width := by
  have hlt := ofBytes_lt (toBytes width n).reverse
  rwa [List.length_reverse, length_toBytes] at hlt

theorem byteSwap_byteSwap {width n : Nat} (h : n < 256 ^ width) : byteSwap width (byteSwap width n) = n := by
  have hbytes : toBytes width (ofBytes (toBytes width n).reverse) = (toBytes width n).reverse := by
    have hto := toBytes_ofBytes (toBytes width n).reverse
    rwa [List.length_reverse, length_toBytes] at hto
  rw [byteSwap, byteSwap, hbytes, List.reverse_reverse, ofBytes_toBytes, Nat.mod_eq_of_lt h]

@[simp] theorem ntohs_htons (x : UInt16) : ntohs (htons x) = x := by
  have hlt : byteSwap 2 x.toNat < 2 ^ 16 := byteSwap_lt 2 _
  have hx : x.toNat < 256 ^ 2 := x.toNat_lt
  rw [ntohs, htons, UInt16.toNat_ofNat', Nat.mod_eq_of_lt hlt, byteSwap_byteSwap hx, UInt16.ofNat_toNat]

@[simp] theorem ntohl_htonl (x : UInt32) : ntohl (htonl x) = x := by
  have hlt : byteSwap 4 x.toNat < 2 ^ 32 := byteSwap_lt 4 _
  have hx : x.toNat < 256 ^ 4 := x.toNat_lt
  rw [ntohl, htonl, UInt32.toNat_ofNat', Nat.mod_eq_of_lt hlt, byteSwap_byteSwap hx, UInt32.ofNat_toNat]

theorem toNat_join (a b : UInt32) : ((a.toUInt64 <<< 32) ||| b.toUInt64).toNat = a.toNat * 2 ^ 32 + b.toNat := by
  have ha : a.toNat < 2 ^ 32 := a.toNat_lt
  have hb : b.toNat < 2 ^ 32 := b.toNat_lt
  have h32 : (32 : UInt64).toNat % 64 = 32 := rfl
  have hshift : (a.toUInt64 <<< 32).toNat = a.toNat <<< 32 := by
    rw [UInt64.toNat_shiftLeft, h32, UInt32.toNat_toUInt64, Nat.mod_eq_of_lt]
    rw [Nat.shiftLeft_eq]; omega
  rw [UInt64.toNat_or, hshift, UInt32.toNat_toUInt64, ← Nat.shiftLeft_add_eq_or_of_lt hb, Nat.shiftLeft_eq]

theorem halves (a b : UInt32) :
    (((a.toUInt64 <<< 32) ||| b.toUInt64) &&& 0xFFFFFFFF).toUInt32 = b ∧
      (((a.toUInt64 <<< 32) ||| b.toUInt64) >>> 32).toUInt32 = a := by
  have ha : a.toNat < 2 ^ 32 := a.toNat_lt
  have hb : b.toNat < 2 ^ 32 := b.toNat_lt
  have h32 : (32 : UInt64).toNat % 64 = 32 := rfl
  have hmask : (0xFFFFFFFF : UInt64).toNat = 2 ^ 32 - 1 := rfl
  constructor
  · rw [← UInt32.toNat_inj, UInt64.toNat_toUInt32, UInt64.toNat_and, hmask, Nat.and_two_pow_sub_one_eq_mod,
      toNat_join]
    omega
  · rw [← UInt32.toNat_inj, UInt64.toNat_toUInt32, UInt64.toNat_shiftRight, h32, toNat_join, Nat.shiftRight_eq_div_pow]
    omega

theorem join_halves (x : UInt64) :
    (((x >>> 32).toUInt32).toUInt64 <<< 32) ||| (x &&& 0xFFFFFFFF).toUInt32.toUInt64 = x := by
  have hx : x.toNat < 2 ^ 64 := x.toNat_lt
  have h32 : (32 : UInt64).toNat % 64 = 32 := rfl
  have hmask : (0xFFFFFFFF : UInt64).toNat = 2 ^ 32 - 1 := rfl
  rw [← UInt64.toNat_inj, toNat_join, UInt64.toNat_toUInt32, UInt64.toNat_toUInt32, UInt64.toNat_shiftRight, h32,
    UInt64.toNat_and, hmask, Nat.and_two_pow_sub_one_eq_mod, Nat.shiftRight_eq_div_pow]
  omega

@[simp] theorem ntohll_htonll (x : UInt64) : ntohll (htonll x) = x := by
  have hhost : ¬1 = htonl 1 := by decide
  rw [ntohll, htonll, if_neg hhost, if_neg hhost, (halves _ _).1, (halves _ _).2, ntohl_htonl, ntohl_htonl]
  exact join_halves x

end ByteOrder

namespace Ty

/-- The bytes of a value. -/
def encode : (t : Ty) → t.Val → List UInt8
  | .bool, (x : Bool) => [if x then 1 else 0]
  | .s8, (x : Int8) => [x.toUInt8]
  | .u8, (x : UInt8) => [x]
  | .s16, (x : Int16) => toBytes 2 (htons x.toUInt16).toNat
  | .u16, (x : UInt16) => toBytes 2 (htons x).toNat
  | .s32, (x : Int32) => toBytes 4 (htonl x.toUInt32).toNat
  | .u32, (x : UInt32) => toBytes 4 (htonl x).toNat
  | .s64, (x : Int64) => toBytes 8 (htonll x.toUInt64).toNat
  | .u64, (x : UInt64) => toBytes 8 (htonll x).toNat
  | .string, (s : List UInt8) =>
      toBytes 4 (htonl (UInt32.ofNat s.length)).toNat ++ s.take (UInt32.ofNat s.length).toNat
  | .vector t, (l : List t.Val) => toBytes 4 (htonl (UInt32.ofNat l.length)).toNat ++ l.flatMap (encode t)
  | .array t _, l => l.val.flatMap (encode t)

/-- A value of each type. -/
def zero : (t : Ty) → t.Val
  | .bool => false
  | .s8 => (0 : Int8)
  | .u8 => (0 : UInt8)
  | .s16 => (0 : Int16)
  | .u16 => (0 : UInt16)
  | .s32 => (0 : Int32)
  | .u32 => (0 : UInt32)
  | .s64 => (0 : Int64)
  | .u64 => (0 : UInt64)
  | .string | .vector _ => []
  | .array t n => ⟨List.replicate n t.zero, List.length_replicate⟩

/-- Lengths fit into 32 bits. -/
def WellSized : (t : Ty) → t.Val → Prop
  | .string, (s : List UInt8) => s.length < 2 ^ 32
  | .vector t, (l : List t.Val) => l.length < 2 ^ 32 ∧ ∀ x ∈ l, WellSized t x
  | .array t _, l => ∀ x ∈ l.val, WellSized t x
  | _, _ => True

end Ty

namespace Packet

variable {fresh : (t : Ty) → t.Val} {p q : Packet} {bytes bytes' old : List UInt8} {t : Ty}

/-- The most bytes that a `std::vector<char>` has. -/
def maxSize : Nat := 2 ^ 63 - 1

@[simp] theorem append_nil : p.append [] = p := by rw [append, List.append_nil]

@[simp] theorem append_append : (p.append bytes).append bytes' = p.append (bytes ++ bytes') := by
  rw [append, append, append, List.append_assoc]

theorem foldl_append {α : Type} {f : Packet → α → Packet} {g : α → List UInt8} (h : ∀ p x, f p x = p.append (g x))
    (l : List α) : l.foldl f p = p.append (l.flatMap g) := by
  induction l generalizing p with
  | nil => exact append_nil.symm
  | cons x rest ih => rw [List.foldl_cons, ih, h, append_append, List.flatMap_cons]

theorem writeString_eq (s : List UInt8) : writeString s p = p.append (Ty.encode .string s) := by
  have hencode : Ty.encode .string s =
      toBytes 4 (htonl (UInt32.ofNat s.length)).toNat ++ s.take (UInt32.ofNat s.length).toNat := rfl
  rw [hencode, ← append_append, writeString]
  split
  · rw [writeU32]
  · next hzero =>
    have hnil : (UInt32.ofNat s.length).toNat = 0 := by
      rw [UInt32.lt_iff_toNat_lt] at hzero
      exact Nat.eq_zero_of_not_pos hzero
    rw [hnil, List.take_zero, append_nil, writeU32]

theorem write_eq (x : t.Val) : write t x p = p.append (t.encode x) := by
  induction t generalizing p with
  | string => exact writeString_eq x
  | vector t ih => exact (foldl_append (fun p x => ih x) _).trans append_append
  | array t n ih => exact foldl_append (fun p x => ih x) _
  | _ => rfl

/-- The packet is valid, and its next bytes are these. -/
structure At (p : Packet) (bytes : List UInt8) : Prop where
  valid : p.isValid = true
  bound : p.data.length ≤ maxSize
  next : ∃ front rest, p.data = front ++ bytes ++ rest ∧ p.readPos = front.length

def skip (p : Packet) (n : Nat) : Packet := { p with readPos := p.readPos + n }

theorem skip_skip (n m : Nat) : (p.skip n).skip m = p.skip (n + m) := by
  rw [skip, skip, skip, add_assoc]

theorem At.append_left (h : At p (bytes ++ bytes')) : At p bytes := by
  obtain ⟨front, rest, hdata, hpos⟩ := h.next
  exact ⟨h.valid, h.bound, front, bytes' ++ rest, by rw [hdata]; simp, hpos⟩

theorem At.append_right (h : At p (bytes ++ bytes')) : At (p.skip bytes.length) bytes' := by
  obtain ⟨front, rest, hdata, hpos⟩ := h.next
  exact ⟨h.valid, h.bound, front ++ bytes, rest, by rw [skip, hdata]; simp, by rw [skip, hpos]; simp⟩

theorem At.length_le (h : At p bytes) : p.readPos + bytes.length ≤ p.data.length := by
  obtain ⟨front, rest, hdata, hpos⟩ := h.next
  rw [hdata, hpos, List.length_append, List.length_append]
  omega

theorem At.checkSize (h : At p bytes) : p.checkSize bytes.length = (true, p) := by
  have hle := h.length_le
  have hbound := h.bound
  have hmax : maxSize < 2 ^ 64 := by decide
  rw [Packet.checkSize, h.valid, Nat.mod_eq_of_lt (by omega), decide_eq_true hle, Bool.and_true, ← h.valid]

theorem At.take (h : At p bytes) : p.take bytes.length = some (bytes, p.skip bytes.length) := by
  have hle := h.length_le
  have hbound := h.bound
  have hmax : maxSize < 2 ^ 64 := by decide
  obtain ⟨front, rest, hdata, hpos⟩ := h.next
  have hslice : slice p.data p.readPos bytes.length = some bytes := by
    rw [hdata, hpos, slice_append_length]
  rw [Packet.take, Nat.mod_eq_of_lt (by omega), hslice]
  rfl

theorem At.readRaw (h : At p bytes) (hlength : old.length = bytes.length) :
    p.readRaw old = some (bytes, p.skip bytes.length) := by
  rw [Packet.readRaw, hlength, h.checkSize, if_pos rfl, h.take]

theorem At.readU8 {x old : UInt8} (h : At p [x]) : p.readU8 old = some (x, p.skip 1) := by
  have hraw : p.readRaw [old] = some ([x], p.skip 1) := h.readRaw rfl
  rw [Packet.readU8, hraw, Option.map_some]
  simp [ofBytes]

theorem At.readBool {x old : Bool} {fresh : UInt8} (h : At p [if x then 1 else 0]) :
    p.readBool fresh old = some (x, p.skip 1) := by
  have hvalid : (p.skip 1).isValid = true := h.valid
  rw [Packet.readBool, h.readU8, Option.map_some, if_pos hvalid]
  cases x <;> rfl

theorem At.readU16 {x : UInt16} (h : At p (toBytes 2 (htons x).toNat)) : p.readU16 = some (x, p.skip 2) := by
  have hlt : (htons x).toNat < 256 ^ 2 := (htons x).toNat_lt
  rw [Packet.readU16, h.readRaw (by simp), Option.map_some, ofBytes_toBytes, Nat.mod_eq_of_lt hlt,
    UInt16.ofNat_toNat, ntohs_htons, length_toBytes]

theorem At.readU32 {x : UInt32} (h : At p (toBytes 4 (htonl x).toNat)) : p.readU32 = some (x, p.skip 4) := by
  have hlt : (htonl x).toNat < 256 ^ 4 := (htonl x).toNat_lt
  rw [Packet.readU32, h.readRaw (by simp), Option.map_some, ofBytes_toBytes, Nat.mod_eq_of_lt hlt,
    UInt32.ofNat_toNat, ntohl_htonl, length_toBytes]

theorem At.readU64 {x : UInt64} (h : At p (toBytes 8 (htonll x).toNat)) : p.readU64 = some (x, p.skip 8) := by
  have hlt : (htonll x).toNat < 256 ^ 8 := (htonll x).toNat_lt
  rw [Packet.readU64, h.readRaw (by simp), Option.map_some, ofBytes_toBytes, Nat.mod_eq_of_lt hlt,
    UInt64.ofNat_toNat, ntohll_htonll, length_toBytes]

theorem At.readChars {s : List UInt8} (h : At p s) (hlength : s.length < 2 ^ 32) :
    p.readChars (UInt32.ofNat s.length) = some (s, p.skip s.length) := by
  have htoNat : (UInt32.ofNat s.length).toNat = s.length := by
    rw [UInt32.toNat_ofNat', Nat.mod_eq_of_lt hlength]
  rw [Packet.readChars, htoNat]
  split
  · rw [h.checkSize, if_pos rfl, h.take]
  · next hzero =>
    rw [UInt32.lt_iff_toNat_lt, htoNat] at hzero
    rw [List.eq_nil_of_length_eq_zero (Nat.eq_zero_of_not_pos hzero)]
    rfl

theorem At.readString {s : List UInt8} (hlength : s.length < 2 ^ 32)
    (h : At p (toBytes 4 (htonl (UInt32.ofNat s.length)).toNat ++ s.take (UInt32.ofNat s.length).toNat)) :
    p.readString = some (s, p.skip
      (toBytes 4 (htonl (UInt32.ofNat s.length)).toNat ++ s.take (UInt32.ofNat s.length).toNat).length) := by
  have htake : s.take (UInt32.ofNat s.length).toNat = s := by
    rw [UInt32.toNat_ofNat', Nat.mod_eq_of_lt hlength, List.take_length]
  rw [htake] at h ⊢
  have hchars := h.append_right
  rw [length_toBytes] at hchars
  rw [Packet.readString, h.append_left.readU32, Option.bind_some, hchars.readChars hlength, skip_skip,
    List.length_append, length_toBytes]

theorem At.readMany {α : Type} {read : Packet → Option (α × Packet)} {encode : α → List UInt8} {l : List α}
    (hread : ∀ x ∈ l, ∀ p, At p (encode x) → read p = some (x, p.skip (encode x).length))
    (h : At p (l.flatMap encode)) :
    Packet.readMany read l.length p = some (⟨l, rfl⟩, p.skip (l.flatMap encode).length) := by
  induction l generalizing p with
  | nil => rfl
  | cons x rest ih =>
      rw [List.flatMap_cons] at h
      have hrest := ih (fun y hy => hread y (List.mem_cons_of_mem _ hy)) h.append_right
      simp only [List.length_cons, Packet.readMany, hread x List.mem_cons_self p h.append_left, hrest,
        Option.map_some, List.flatMap_cons, List.length_append, skip_skip]

theorem At.readVector {α : Type} {read : Packet → Option (α × Packet)} {encode : α → List UInt8} {l : List α}
    (hlength : l.length < 2 ^ 32)
    (hread : ∀ x ∈ l, ∀ p, At p (encode x) → read p = some (x, p.skip (encode x).length))
    (h : At p (toBytes 4 (htonl (UInt32.ofNat l.length)).toNat ++ l.flatMap encode)) :
    Packet.readVector read p = some (l, p.skip
      (toBytes 4 (htonl (UInt32.ofNat l.length)).toNat ++ l.flatMap encode).length) := by
  have htoNat : (UInt32.ofNat l.length).toNat = l.length := by
    rw [UInt32.toNat_ofNat', Nat.mod_eq_of_lt hlength]
  have helements := At.readMany hread h.append_right
  rw [length_toBytes] at helements
  rw [Packet.readVector, h.append_left.readU32, Option.bind_some]
  dsimp only
  rw [htoNat, helements, Option.map_some, skip_skip, List.length_append, length_toBytes]

theorem At.read {x : t.Val} (h : At p (t.encode x)) (hsized : t.WellSized x) (old : t.Val) :
    Packet.read fresh t old p = some (x, p.skip (t.encode x).length) := by
  induction t generalizing p with
  | bool => exact At.readBool h
  | s8 =>
      have hbyte : At p [Int8.toUInt8 x] := h
      exact (congrArg _ hbyte.readU8).trans rfl
  | u8 =>
      have hbyte : At p [(x : UInt8)] := h
      exact hbyte.readU8
  | s16 =>
      have hbytes : At p (toBytes 2 (htons (Int16.toUInt16 x)).toNat) := h
      exact (congrArg _ hbytes.readU16).trans rfl
  | u16 => exact At.readU16 h
  | s32 =>
      have hbytes : At p (toBytes 4 (htonl (Int32.toUInt32 x)).toNat) := h
      exact (congrArg _ hbytes.readU32).trans rfl
  | u32 => exact At.readU32 h
  | s64 =>
      have hbytes : At p (toBytes 8 (htonll (Int64.toUInt64 x)).toNat) := h
      exact (congrArg _ hbytes.readU64).trans rfl
  | u64 => exact At.readU64 h
  | string => exact At.readString hsized h
  | vector t ih =>
      exact At.readVector hsized.1 (fun y hy p hp => ih hp (hsized.2 y hy) (fresh t)) h
  | array t n ih =>
      obtain ⟨l, rfl⟩ : { l : List t.Val // l.length = n } := x
      exact At.readMany (fun y hy p hp => ih hp (hsized y hy) (fresh t)) h

/-- The bytes of values. -/
def encodeAll (values : List Value) : List UInt8 := values.flatMap fun v => v.1.encode v.2

theorem writeAll_eq (values : List Value) : writeAll values p = p.append (encodeAll values) :=
  foldl_append (fun _ v => write_eq v.2) values

theorem At.readAll {values : List Value} (h : At p (encodeAll values)) (hsized : ∀ v ∈ values, v.1.WellSized v.2) :
    Packet.readAll fresh (values.map Sigma.fst) p = some (values, p.skip (encodeAll values).length) := by
  induction values generalizing p with
  | nil => rfl
  | cons v rest ih =>
      have hcons : encodeAll (v :: rest) = v.1.encode v.2 ++ encodeAll rest := List.flatMap_cons
      rw [hcons] at h ⊢
      have hrest := ih h.append_right fun w hw => hsized w (List.mem_cons_of_mem _ hw)
      rw [List.map_cons, Packet.readAll, h.append_left.read (hsized v List.mem_cons_self) _, Option.bind_some]
      dsimp only
      rw [hrest, Option.map_some, skip_skip, List.length_append]

/-- Values that were written to a packet are read from it, which takes all of its bytes. -/
theorem readAll_writeAll {values : List Value} (hsized : ∀ v ∈ values, v.1.WellSized v.2)
    (hbound : (writeAll values {}).data.length ≤ maxSize) :
    readAll fresh (values.map Sigma.fst) (writeAll values {}) =
      some (values, { writeAll values {} with readPos := (writeAll values {}).data.length }) := by
  rw [writeAll_eq] at *
  have hdata : (append {} (encodeAll values)).data = encodeAll values := List.nil_append _
  have hat : At (append {} (encodeAll values)) (encodeAll values) :=
    ⟨rfl, hbound, [], [], by rw [hdata]; simp, rfl⟩
  rw [hat.readAll hsized, hdata, skip, append, Nat.zero_add]

/-! ## Reads of any bytes -/

/-- The position and the data are in the range of `size_t`. -/
structure Bounded (p : Packet) : Prop where
  data_le : p.data.length ≤ maxSize
  readPos_lt : p.readPos < 2 ^ 64

/-- The sum of the position and a size has more than 64 bits, and what is left of it is in the data. -/
def Wraps (p : Packet) (size : Nat) : Prop :=
  p.isValid = true ∧ 2 ^ 64 ≤ p.readPos + size ∧ p.readPos + size - 2 ^ 64 ≤ p.data.length

/-- What a read that does not fit makes of the packet. -/
def fail (p : Packet) : Packet := { p with isValid := false }

theorem checkSize_of_invalid (h : p.isValid = false) (size : Nat) : p.checkSize size = (false, p) := by
  rw [checkSize, h, Bool.false_and, ← h]

theorem readRaw_of_invalid (h : p.isValid = false) (old : List UInt8) : p.readRaw old = some (old, p) := by
  rw [readRaw, checkSize_of_invalid h, if_neg Bool.false_ne_true]

end Packet

namespace Ty

def numberWidth : Ty → Option Nat
  | .bool | .s8 | .u8 => some 1
  | .s16 | .u16 => some 2
  | .s32 | .u32 => some 4
  | .s64 | .u64 => some 8
  | .string | .vector _ | .array _ _ => none

/-- The bytes that are read first. -/
def firstWidth : Ty → Option Nat
  | .string | .vector _ => some 4
  | .array _ 0 => none
  | .array t (_ + 1) => t.firstWidth
  | t => t.numberWidth

end Ty

namespace Packet

variable {fresh : (t : Ty) → t.Val} {p q : Packet} {t : Ty} {width : Nat}

theorem firstWidth_le (h : width ∈ t.firstWidth) : width ≤ 8 := by
  induction t with
  | array t n ih =>
      cases n with
      | zero => exact absurd h (Option.not_mem_none _)
      | succ n => exact ih h
  | _ => exact Option.some.inj h ▸ by decide

theorem read_number (h : t.numberWidth = some width) (old : t.Val) :
    ∃ (bytes : List UInt8) (value : List UInt8 × Packet → t.Val), bytes.length = width ∧
      ∀ p, read fresh t old p = (p.readRaw bytes).map fun r => (value r, r.2) := by
  cases t with
  | string | vector | array => exact absurd h.symm (Option.some_ne_none _)
  | bool => exact ⟨[fresh .u8], _, Option.some.inj h, fun p => Option.map_map ..⟩
  | s8 => exact ⟨[Int8.toUInt8 old], _, Option.some.inj h, fun p => Option.map_map ..⟩
  | u8 => exact ⟨[old], _, Option.some.inj h, fun p => rfl⟩
  | s16 => exact ⟨List.replicate 2 0, _, Option.some.inj h, fun p => Option.map_map ..⟩
  | u16 => exact ⟨List.replicate 2 0, _, Option.some.inj h, fun p => rfl⟩
  | s32 => exact ⟨List.replicate 4 0, _, Option.some.inj h, fun p => Option.map_map ..⟩
  | u32 => exact ⟨List.replicate 4 0, _, Option.some.inj h, fun p => rfl⟩
  | s64 => exact ⟨List.replicate 8 0, _, Option.some.inj h, fun p => Option.map_map ..⟩
  | u64 => exact ⟨List.replicate 8 0, _, Option.some.inj h, fun p => rfl⟩

section Many

variable {α : Type} {readOne : Packet → Option (α × Packet)}

theorem readMany_none {n : Nat} (h : readOne p = none) : readMany readOne (n + 1) p = none := by
  rw [readMany]
  simp only [h]

theorem readMany_some {n : Nat} {x : α} {r : Packet} (h : readOne p = some (x, q))
    (hrest : ∃ l, readMany readOne n q = some (l, r)) : ∃ l, readMany readOne (n + 1) p = some (l, r) := by
  obtain ⟨l, hl⟩ := hrest
  exact ⟨⟨x :: l.1, congrArg (· + 1) l.2⟩, by simp only [readMany, h, hl, Option.map_some]⟩

theorem readMany_unchanged (h : ∃ x, readOne p = some (x, p)) (n : Nat) : ∃ l, readMany readOne n p = some (l, p) := by
  obtain ⟨x, hx⟩ := h
  induction n with
  | zero => exact ⟨_, rfl⟩
  | succ n ih =>
      exact readMany_some hx ih

theorem readMany_keeps {P : Packet → Prop} (h : ∀ p, P p → ∃ x q, readOne p = some (x, q) ∧ P q) (hp : P p) (n : Nat) :
    ∃ l q, readMany readOne n p = some (l, q) ∧ P q := by
  induction n generalizing p with
  | zero => exact ⟨_, p, rfl, hp⟩
  | succ n ih =>
      obtain ⟨x, q, hx, hq⟩ := h p hp
      obtain ⟨l, r, hl, hr⟩ := ih hq
      obtain ⟨l', hl'⟩ := readMany_some hx ⟨l, hl⟩
      exact ⟨l', r, hl', hr⟩

end Many

theorem readString_eq {length : UInt32} {s : List UInt8} {r : Packet} (hlength : readU32 p = some (length, q))
    (hchars : readChars length q = some (s, r)) : readString p = some (s, r) := by
  rw [readString, hlength, Option.bind_some]
  exact hchars

theorem readVector_eq {α : Type} {readOne : Packet → Option (α × Packet)} {length : UInt32} {r : Packet}
    {l : { l : List α // l.length = length.toNat }} (hlength : readU32 p = some (length, q))
    (hmany : readMany readOne length.toNat q = some (l, r)) : readVector readOne p = some (l.1, r) := by
  rw [readVector, hlength, Option.bind_some]
  exact congrArg (Option.map _) hmany

theorem read_of_invalid (h : p.isValid = false) (old : t.Val) : ∃ x, read fresh t old p = some (x, p) := by
  have hnumber {t : Ty} {width : Nat} (ht : t.numberWidth = some width) (old : t.Val) :
      ∃ x, read fresh t old p = some (x, p) := by
    obtain ⟨bytes, value, -, hread⟩ := read_number ht old
    exact ⟨value (bytes, p), by rw [hread, readRaw_of_invalid h, Option.map_some]⟩
  obtain ⟨length, hlength⟩ : ∃ length, readU32 p = some (length, p) := @hnumber .u32 4 rfl (fresh .u32)
  induction t with
  | string =>
      refine ⟨[], ?_⟩
      have hchars : readChars length p = some ([], p) := by
        rw [readChars, checkSize_of_invalid h, if_neg Bool.false_ne_true, ite_self]
      exact readString_eq hlength hchars
  | vector t ih =>
      obtain ⟨l, hl⟩ := readMany_unchanged (ih (fresh t)) length.toNat
      exact ⟨l.1, readVector_eq hlength hl⟩
  | array t n ih => exact readMany_unchanged (ih (fresh t)) n
  | _ => exact hnumber rfl old

/-- The position is in the data, or at its end. -/
structure Inside (data : List UInt8) (p : Packet) : Prop where
  data_eq : p.data = data
  readPos_le : p.readPos ≤ data.length

section Inside

variable {data old : List UInt8} {size : Nat}

theorem Inside.checkSize (h : Inside data p) (hbound : data.length ≤ maxSize) (hsize : size < 2 ^ 32) :
    p.checkSize size = (p.isValid && p.readPos + size ≤ data.length,
      { p with isValid := p.isValid && p.readPos + size ≤ data.length }) := by
  have hpos := h.readPos_le
  have hmax : maxSize + 2 ^ 32 < 2 ^ 64 := by decide
  rw [Packet.checkSize, Nat.mod_eq_of_lt (by omega), h.data_eq]

theorem Inside.take (h : Inside data p) (hbound : data.length ≤ maxSize) (hsize : size < 2 ^ 32)
    (hcheck : (p.checkSize size).1 = true) :
    ∃ bytes q, (p.checkSize size).2.take size = some (bytes, q) ∧ Inside data q := by
  have hmax : maxSize < 2 ^ 64 := by decide
  rw [h.checkSize hbound hsize] at hcheck ⊢
  obtain ⟨rfl, hpos⟩ := h
  have hle : p.readPos + size ≤ p.data.length := of_decide_eq_true (Bool.and_eq_true_iff.mp hcheck).2
  have hskip : (p.readPos + size) % 2 ^ 64 = p.readPos + size := Nat.mod_eq_of_lt (by omega)
  refine ⟨(p.data.drop p.readPos).take size, { p with
    readPos := p.readPos + size, isValid := p.isValid && p.readPos + size ≤ p.data.length }, ?_, rfl, hle⟩
  rw [Packet.take, slice]
  dsimp only
  rw [if_pos hle, hskip, Option.map_some]

theorem Inside.fail (h : Inside data p) (hbound : data.length ≤ maxSize) (hsize : size < 2 ^ 32) :
    Inside data (p.checkSize size).2 := by
  rw [h.checkSize hbound hsize]
  exact ⟨h.data_eq, h.readPos_le⟩

theorem Inside.readRaw (h : Inside data p) (hbound : data.length ≤ maxSize) (hold : old.length < 2 ^ 32) :
    ∃ bytes q, p.readRaw old = some (bytes, q) ∧ Inside data q := by
  rw [Packet.readRaw]
  split
  · next hcheck => exact h.take hbound hold hcheck
  · exact ⟨_, _, rfl, h.fail hbound hold⟩

theorem Inside.read (h : Inside data p) (hbound : data.length ≤ maxSize) (old : t.Val) :
    ∃ x q, Packet.read fresh t old p = some (x, q) ∧ Inside data q := by
  have hnumber {t : Ty} {width : Nat} (ht : t.numberWidth = some width) (hwidth : width < 2 ^ 32) (old : t.Val)
      {p : Packet} (h : Inside data p) :
      ∃ x q, Packet.read fresh t old p = some (x, q) ∧ Inside data q := by
    obtain ⟨bytes, value, rfl, hread⟩ := read_number ht old
    obtain ⟨bytes', q, hraw, hq⟩ := h.readRaw hbound hwidth
    exact ⟨_, q, by rw [hread, hraw, Option.map_some], hq⟩
  have hlength {p : Packet} (h : Inside data p) : ∃ length q, readU32 p = some (length, q) ∧ Inside data q :=
    @hnumber .u32 4 rfl (by decide) (fresh .u32) p h
  induction t generalizing p with
  | string =>
      obtain ⟨length, q, hq, hinside⟩ := hlength h
      have hchars : ∃ s r, readChars length q = some (s, r) ∧ Inside data r := by
        rw [readChars]
        split
        · split
          · next hcheck => exact hinside.take hbound length.toNat_lt hcheck
          · exact ⟨_, _, rfl, hinside.fail hbound length.toNat_lt⟩
        · exact ⟨_, _, rfl, hinside⟩
      obtain ⟨s, r, hs, hr⟩ := hchars
      exact ⟨s, r, readString_eq hq hs, hr⟩
  | vector t ih =>
      obtain ⟨length, q, hq, hinside⟩ := hlength h
      obtain ⟨l, r, hl, hr⟩ := readMany_keeps (fun p hp => ih hp (fresh t)) hinside length.toNat
      exact ⟨l.1, r, readVector_eq hq hl, hr⟩
  | array t n ih => exact readMany_keeps (fun p hp => ih hp (fresh t)) h n
  | _ => exact hnumber rfl (by decide) old h

end Inside

/-! ### Behind the end -/

section Past

variable {old : List UInt8}

/-- A read wraps around, and then leaves the packet, or it fails. -/
theorem readRaw_past (h : p.Bounded) (hvalid : p.isValid = true) (hpast : p.data.length < p.readPos)
    (hold : old.length < 2 ^ 32) :
    (p.Wraps old.length → p.readRaw old = none) ∧ (¬p.Wraps old.length → p.readRaw old = some (old, p.fail)) := by
  have hpos := h.readPos_lt
  have hcheck : (p.readPos + old.length) % 2 ^ 64 ≤ p.data.length ↔ p.Wraps old.length := by
    rw [Wraps, and_iff_right hvalid]
    rcases Nat.lt_or_ge (p.readPos + old.length) (2 ^ 64) with hlt | hge
    · rw [Nat.mod_eq_of_lt hlt]
      omega
    · rw [Nat.mod_eq_sub_mod hge, Nat.mod_eq_of_lt (by omega)]
      omega
  constructor
  · intro hwraps
    have hslice : slice p.data p.readPos old.length = none := slice_eq_none.mpr (by omega)
    rw [readRaw, checkSize, hvalid, decide_eq_true (hcheck.mpr hwraps), Bool.and_true, if_pos rfl, take]
    dsimp only
    rw [hslice, Option.map_none]
  · intro hfits
    rw [readRaw, checkSize, hvalid, decide_eq_false (hcheck.not.mpr hfits), Bool.and_false,
      if_neg Bool.false_ne_true, fail]

theorem read_past (h : p.Bounded) (hvalid : p.isValid = true) (hpast : p.data.length < p.readPos) (old : t.Val) :
    (∀ width ∈ t.firstWidth, p.Wraps width → read fresh t old p = none) ∧
      (∀ width ∈ t.firstWidth, ¬p.Wraps width → ∃ x, read fresh t old p = some (x, p.fail)) ∧
      (t.firstWidth = none → ∃ x, read fresh t old p = some (x, p)) := by
  have hnumber {t : Ty} {width : Nat} (ht : t.numberWidth = some width) (hwidth : width < 2 ^ 32) (old : t.Val) :
      (p.Wraps width → read fresh t old p = none) ∧
        (¬p.Wraps width → ∃ x, read fresh t old p = some (x, p.fail)) := by
    obtain ⟨bytes, value, rfl, hread⟩ := read_number ht old
    obtain ⟨hwraps, hfits⟩ := readRaw_past h hvalid hpast hwidth
    exact ⟨fun hw => by rw [hread, hwraps hw, Option.map_none],
      fun hw => ⟨value (bytes, p.fail), by rw [hread, hfits hw, Option.map_some]⟩⟩
  obtain ⟨hnone, hsome⟩ : (p.Wraps 4 → readU32 p = none) ∧
      (¬p.Wraps 4 → ∃ length, readU32 p = some (length, p.fail)) :=
    @hnumber .u32 4 rfl (by decide) (fresh .u32)
  induction t with
  | string =>
      refine ⟨?_, ?_, fun hnot => absurd hnot (Option.some_ne_none _)⟩
      · rintro _ ⟨⟩ hw
        exact congrArg (Option.bind · _) (hnone hw)
      · rintro _ ⟨⟩ hw
        obtain ⟨length, hlength⟩ := hsome hw
        refine ⟨[], readString_eq hlength ?_⟩
        rw [readChars, checkSize_of_invalid rfl, if_neg Bool.false_ne_true, ite_self]
  | vector t _ =>
      refine ⟨?_, ?_, fun hnot => absurd hnot (Option.some_ne_none _)⟩
      · rintro _ ⟨⟩ hw
        exact congrArg (Option.bind · _) (hnone hw)
      · rintro _ ⟨⟩ hw
        obtain ⟨length, hlength⟩ := hsome hw
        obtain ⟨l, hl⟩ := readMany_unchanged (@read_of_invalid fresh p.fail t rfl (fresh t)) length.toNat
        exact ⟨l.1, readVector_eq hlength hl⟩
  | array t n ih =>
      obtain ⟨ihnone, ihsome, ihsame⟩ := ih (fresh t)
      cases n with
      | zero => exact ⟨fun _ hw => absurd hw.symm (Option.some_ne_none _),
          fun _ hw => absurd hw.symm (Option.some_ne_none _), fun _ => ⟨_, rfl⟩⟩
      | succ n =>
          refine ⟨fun width hwidth hw => ?_, fun width hwidth hw => ?_, fun hwidth => ?_⟩
          · exact readMany_none (ihnone width hwidth hw)
          · obtain ⟨x, hx⟩ := ihsome width hwidth hw
            exact readMany_some hx (readMany_unchanged (@read_of_invalid fresh p.fail t rfl (fresh t)) n)
          · exact readMany_unchanged (ihsame hwidth) (n + 1)
  | _ =>
      refine ⟨?_, ?_, fun hnot => absurd hnot (Option.some_ne_none _)⟩
      · rintro _ ⟨⟩ hw
        exact (hnumber rfl (by decide) old).1 hw
      · rintro _ ⟨⟩ hw
        exact (hnumber rfl (by decide) old).2 hw

end Past

/-! ### Runs -/

/-- The first bytes that an operation reads do not wrap around into the data. -/
def Op.StaysInside (p : Packet) : Op → Prop
  | .read t => ∀ width ∈ t.firstWidth, ¬p.Wraps width
  | .ignoreBytes _ => True

/-- The operations of a run all do. -/
def Meets (fresh : (t : Ty) → t.Val) : List Op → Packet → Prop
  | [], _ => True
  | op :: rest, p => op.StaysInside p ∧ ∀ q, p.apply fresh op = some q → Meets fresh rest q

/-- How far a run moves the position of an invalid packet. -/
def ignored : List Op → Nat
  | [] => 0
  | .read _ :: rest => ignored rest
  | .ignoreBytes length :: rest => length.toNat + ignored rest

theorem Inside.bounded {data : List UInt8} (h : Inside data p) (hbound : data.length ≤ maxSize) : p.Bounded := by
  have hpos := h.readPos_le
  have hmax : maxSize < 2 ^ 64 := by decide
  exact ⟨h.data_eq ▸ hbound, by omega⟩

/-- A typed read has a result if and only if it stays inside. -/
theorem apply_read (h : p.Bounded) (t : Ty) :
    ((Op.read t).StaysInside p → ∃ q, p.apply fresh (.read t) = some q ∧ q.Bounded ∧ q.data = p.data) ∧
      (¬(Op.read t).StaysInside p → p.apply fresh (.read t) = none) := by
  have hresult {q : Packet} (hread : ∃ x, read fresh t (fresh t) p = some (x, q)) (hq : q.Bounded)
      (hdata : q.data = p.data) : ∃ q, p.apply fresh (.read t) = some q ∧ q.Bounded ∧ q.data = p.data := by
    obtain ⟨x, hx⟩ := hread
    exact ⟨q, congrArg (Option.map Prod.snd) hx, hq, hdata⟩
  rcases Bool.eq_false_or_eq_true p.isValid with hvalid | hinvalid
  · rcases Nat.lt_or_ge p.data.length p.readPos with hpast | hinside
    · obtain ⟨hnone, hfail, hsame⟩ := @read_past fresh p t h hvalid hpast (fresh t)
      cases hwidth : t.firstWidth with
      | none =>
          refine ⟨fun _ => hresult (hsame hwidth) h rfl, fun hout => ?_⟩
          exact absurd (fun width hw => absurd (hwidth ▸ hw) (Option.not_mem_none _)) hout
      | some width =>
          have hstays : (Op.read t).StaysInside p ↔ ¬p.Wraps width := by
            simp only [Op.StaysInside, hwidth, Option.mem_some_iff, forall_eq']
          refine ⟨fun hin => hresult (hfail width hwidth (hstays.mp hin)) ⟨h.data_le, h.readPos_lt⟩ rfl, fun hout => ?_⟩
          exact congrArg (Option.map Prod.snd) (hnone width hwidth (not_not.mp (hstays.not.mp hout)))
    · obtain ⟨x, q, hread, hq⟩ := @Inside.read fresh p t p.data ⟨rfl, hinside⟩ h.data_le (fresh t)
      refine ⟨fun _ => hresult ⟨x, hread⟩ (hq.bounded h.data_le) hq.data_eq, fun hout => absurd ?_ hout⟩
      rintro width hwidth ⟨-, hge, -⟩
      have hle := h.data_le
      have hmax : maxSize + 8 < 2 ^ 64 := by decide
      have hsmall := firstWidth_le hwidth
      omega
  · refine ⟨fun _ => hresult (read_of_invalid hinvalid (fresh t)) h rfl, fun hout => absurd ?_ hout⟩
    rintro width hwidth ⟨hvalid, -⟩
    exact absurd (hvalid.symm.trans hinvalid) (by decide)

theorem Bounded.ignoreBytes (h : p.Bounded) (length : UInt32) : (p.ignoreBytes length).Bounded :=
  ⟨h.data_le, Nat.mod_lt _ (by decide)⟩

theorem Bounded.apply (h : p.Bounded) {op : Op} (happly : p.apply fresh op = some q) : q.Bounded := by
  cases op with
  | ignoreBytes length => exact Option.some.inj happly ▸ h.ignoreBytes length
  | read t =>
      obtain ⟨hstays, hleaves⟩ := @apply_read fresh p h t
      by_cases hin : (Op.read t).StaysInside p
      · obtain ⟨q', hq', hbounded, -⟩ := hstays hin
        exact Option.some.inj (hq'.symm.trans happly) ▸ hbounded
      · exact absurd ((hleaves hin).symm.trans happly).symm (Option.some_ne_none _)

theorem Bounded.run (h : p.Bounded) {ops : List Op} (hrun : Packet.run fresh ops p = some q) : q.Bounded := by
  induction ops generalizing p with
  | nil => exact Option.some.inj hrun ▸ h
  | cons op rest ih =>
      obtain ⟨r, hr, hrest⟩ := Option.bind_eq_some_iff.mp hrun
      exact ih (h.apply hr) hrest

/-- A run has a result if and only if all of its operations stay inside. -/
theorem isSome_run_iff (h : p.Bounded) (ops : List Op) : (run fresh ops p).isSome ↔ Meets fresh ops p := by
  induction ops generalizing p with
  | nil => exact ⟨fun _ => trivial, fun _ => rfl⟩
  | cons op rest ih =>
      rw [run, Meets]
      cases op with
      | ignoreBytes length =>
          have hrest := ih (h.ignoreBytes length)
          constructor
          · rintro hsome
            refine ⟨trivial, ?_⟩
            rintro _ ⟨⟩
            exact hrest.mp hsome
          · rintro ⟨-, hmeets⟩
            exact hrest.mpr (hmeets _ rfl)
      | read t =>
          obtain ⟨hstays, hleaves⟩ := @apply_read fresh p h t
          constructor
          · intro hsome
            have hin : (Op.read t).StaysInside p := by
              by_contra hout
              rw [hleaves hout] at hsome
              exact Bool.false_ne_true hsome
            obtain ⟨q, hq, hbounded, -⟩ := hstays hin
            refine ⟨hin, fun q' hq' => ?_⟩
            obtain rfl := Option.some.inj (hq.symm.trans hq')
            rw [hq] at hsome
            exact (ih hbounded).mp hsome
          · rintro ⟨hin, hmeets⟩
            obtain ⟨q, hq, hbounded, -⟩ := hstays hin
            rw [hq]
            exact (ih hbounded).mpr (hmeets q hq)

/-- Behind a read that failed only ignored bytes move the position. -/
theorem run_of_invalid (h : p.Bounded) (hinvalid : p.isValid = false) (ops : List Op) :
    run fresh ops p = some { p with readPos := (p.readPos + ignored ops) % 2 ^ 64 } := by
  induction ops generalizing p with
  | nil => rw [run, ignored, add_zero, Nat.mod_eq_of_lt h.readPos_lt]
  | cons op rest ih =>
      cases op with
      | read t =>
          obtain ⟨x, hx⟩ := @read_of_invalid fresh p t hinvalid (fresh t)
          rw [run, apply, hx, Option.map_some, Option.bind_some, ih h hinvalid, ignored]
      | ignoreBytes length =>
          have hinvalid' : (p.ignoreBytes length).isValid = false := hinvalid
          rw [run, apply, Option.bind_some, ih (h.ignoreBytes length) hinvalid', ignored, ignoreBytes, Nat.mod_add_mod,
            add_assoc]

/-- What was written is read back, runs stay inside of the packet if and only if their operations do,
and behind a read that failed only ignored bytes move the position. -/
theorem codec (values : List Value) (data : List UInt8) (ops : List Op)
    (hsized : ∀ v ∈ values, v.1.WellSized v.2) (hwritten : (writeAll values {}).data.length ≤ maxSize)
    (hdata : data.length ≤ maxSize) :
    readAll fresh (values.map Sigma.fst) (writeAll values {}) =
        some (values, { writeAll values {} with readPos := (writeAll values {}).data.length }) ∧
      ((run fresh ops { data }).isSome ↔ Meets fresh ops { data }) ∧
      ∀ p, run fresh ops { data } = some p → p.isValid = false → ∀ rest,
        run fresh rest p = some { p with readPos := (p.readPos + ignored rest) % 2 ^ 64 } := by
  have hbounded : Bounded { data } := ⟨hdata, Nat.two_pow_pos 64⟩
  exact ⟨readAll_writeAll hsized hwritten, isSome_run_iff hbounded ops,
    fun p hrun hinvalid rest => run_of_invalid (hbounded.run hrun) hinvalid rest⟩

theorem run_ignoreBytes (h : p.Bounded) (n : Nat) (length : UInt32) (rest : List Op) :
    run fresh (List.replicate n (.ignoreBytes length) ++ rest) p =
      run fresh rest { p with readPos := (p.readPos + n * length.toNat) % 2 ^ 64 } := by
  induction n generalizing p with
  | zero => rw [List.replicate_zero, List.nil_append, Nat.zero_mul, add_zero, Nat.mod_eq_of_lt h.readPos_lt]
  | succ n ih =>
      rw [List.replicate_succ, List.cons_append, run, apply, Option.bind_some, ih (h.ignoreBytes length),
        ignoreBytes, Nat.mod_add_mod, Nat.succ_mul, add_assoc, add_comm length.toNat]

/-- Ignored bytes can move the position to `2 ^ 64 - 1`, from which a read of four bytes wraps around. -/
theorem run_wrapped : run Ty.zero (List.replicate (2 ^ 32 + 1) (.ignoreBytes 0xFFFFFFFF) ++ [.read .u32])
    { data := [0, 0, 0] } = none := by
  have hbounded : Bounded { data := [0, 0, 0] } := ⟨by decide, by decide⟩
  have hpos : ((2 ^ 32 + 1) * (0xFFFFFFFF : UInt32).toNat) % 2 ^ 64 = 2 ^ 64 - 1 := by decide
  rw [run_ignoreBytes hbounded, Nat.zero_add, hpos]
  decide

/-- A vector that ends too early. -/
theorem codec_vector : run Ty.zero [.ignoreBytes 3]
    { data := [0, 0, 0, 2, 0, 0, 0, 1, 65, 0, 0, 0, 9, 66], readPos := 13, isValid := false } =
      some { data := [0, 0, 0, 2, 0, 0, 0, 1, 65, 0, 0, 0, 9, 66], readPos := 16, isValid := false } :=
  (@codec Ty.zero [⟨.string, [65, 66]⟩]
      [0, 0, 0, 2, 0, 0, 0, 1, 65, 0, 0, 0, 9, 66] [.read (.vector .string)]
      (by simp [Ty.WellSized]) (by decide) (by decide)).2.2
    { data := [0, 0, 0, 2, 0, 0, 0, 1, 65, 0, 0, 0, 9, 66], readPos := 13, isValid := false }
    (by decide) rfl [.ignoreBytes 3]

end Packet

end Cytrus.Network.Codec
