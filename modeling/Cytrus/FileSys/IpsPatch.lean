import Cytrus.Support.Exec
import Cytrus.Support.Slices

/-!
# IPS patches

## Main results

* `applyIpsPatch_eq`: the cursor loop does what reading the records first and
  then applying them does
* `applyIpsPatch_encode`: the standard encoding of records that fit is applied,
  except at the offset whose bytes are the end marker
* `applyIpsPatch_safe_iff`: when a patch is read within its bounds and a refused
  patch leaves the buffer as it was

## Implementation notes

A read or write outside a vector is undefined, so it aborts the call. The loop
has a bound on its rounds, which it never reaches.
-/

namespace Cytrus.FileSys

open Support

/-- Why a patch call has no defined result. -/
inductive PatchFault where
  | outOfRange
  | emptyOptional
  | outOfRounds
  deriving DecidableEq, Repr

/-- A patch call on the buffer. -/
abbrev PatchCall (α : Type) := Exec PatchFault PEmpty (List UInt8) α

/-- `"PATCH"`. -/
def ipsHeader : List UInt8 := ['P', 'A', 'T', 'C', 'H'].map Char.toUInt8

/-- `"EOF"`. -/
def eofMarker : List UInt8 := ['E', 'O', 'F'].map Char.toUInt8

/-- Two bytes, the most significant one first. -/
def be16 (a b : UInt8) : Nat := a.toNat <<< 8 ||| b.toNat

/-- Three bytes, the most significant one first. -/
def be24 (a b c : UInt8) : Nat := a.toNat <<< 16 ||| b.toNat <<< 8 ||| c.toNat

namespace Ips

/-- `ips.size() - 3`, an unsigned subtraction. -/
def patchLength (ips : List UInt8) : Nat :=
  if 3 ≤ ips.length then ips.length - 3 else 2 ^ 64 + ips.length - 3

/-- `ips[i]`. -/
def at_ (ips : List UInt8) (i : Nat) : PatchCall UInt8 := Exec.read .outOfRange fun _ => ips[i]?

/-- A copy of `n` bytes of the patch. -/
def bytesAt (ips : List UInt8) (i n : Nat) : PatchCall (List UInt8) :=
  Exec.read .outOfRange fun _ => slice ips i n

/-- Write into the buffer. -/
def write (offset : Nat) (data : List UInt8) : PatchCall PUnit := do
  let buffer ← Exec.get
  Exec.assert .outOfRange (offset + data.length ≤ buffer.length)
  Exec.modify fun _ => overwrite buffer offset data

/-- The loop that writes one byte `length` times; it reads the byte in every round. -/
def fill (ips : List UInt8) (cursor offset length : Nat) : PatchCall PUnit :=
  Exec.when (length ≠ 0) do
    let value ← at_ ips (cursor + 7)
    write offset (List.replicate length value)

/-- The loop over the records. -/
def recordLoop (ips : List UInt8) : Nat → Nat → PatchCall Bool
  | 0, _ => Exec.abort .outOfRounds
  | rounds + 1, cursor =>
      if cursor < patchLength ips then do
        let eofCheck ← bytesAt ips cursor 3
        if eofCheck = eofMarker then return false
        let offset := be24 (← at_ ips cursor) (← at_ ips (cursor + 1)) (← at_ ips (cursor + 2))
        let length := be16 (← at_ ips (cursor + 3)) (← at_ ips (cursor + 4))
        if length = 0 then
          let length := be16 (← at_ ips (cursor + 5)) (← at_ ips (cursor + 6))
          if (← Exec.get).length < offset + length then return false
          fill ips cursor offset length
          recordLoop ips rounds (cursor + 8)
        else
          if (← Exec.get).length < offset + length then return false
          write offset (← bytesAt ips (cursor + 5) length)
          recordLoop ips rounds (cursor + (length + 5))
      else return true

end Ips

def applyIpsPatch (ips : List UInt8) : PatchCall Bool := do
  let header ← Ips.bytesAt ips 0 5
  if header ≠ ipsHeader then return false
  Ips.recordLoop ips ips.length 5

/-! ### The format -/

/-- A record of an IPS patch. -/
inductive IpsRecord where
  | plain (offset : Nat) (data : List UInt8)
  | rle (offset count : Nat) (value : UInt8)
  deriving DecidableEq, Repr

namespace IpsRecord

def offset : IpsRecord → Nat
  | plain offset _ => offset
  | rle offset _ _ => offset

/-- The bytes that a record writes. -/
def data : IpsRecord → List UInt8
  | plain _ data => data
  | rle _ count value => List.replicate count value

/-- The numbers of the record have the width of their fields; a plain record is not empty. -/
def Encodable : IpsRecord → Prop
  | plain offset data => offset < 2 ^ 24 ∧ 0 < data.length ∧ data.length < 2 ^ 16
  | rle offset count _ => offset < 2 ^ 24 ∧ count < 2 ^ 16

/-- The record writes inside a buffer of the given size. -/
def Fits (size : Nat) (r : IpsRecord) : Prop := r.offset + r.data.length ≤ size

def apply (buffer : List UInt8) (r : IpsRecord) : List UInt8 := overwrite buffer r.offset r.data

def applyAll (records : List IpsRecord) (buffer : List UInt8) : List UInt8 :=
  records.foldl apply buffer

/-- A number as two bytes, the most significant one first. -/
def bytes16 (n : Nat) : List UInt8 := [UInt8.ofNat (n / 2 ^ 8), UInt8.ofNat n]

/-- A number as three bytes, the most significant one first. -/
def bytes24 (n : Nat) : List UInt8 :=
  [UInt8.ofNat (n / 2 ^ 16), UInt8.ofNat (n / 2 ^ 8), UInt8.ofNat n]

def encode : IpsRecord → List UInt8
  | plain offset data => bytes24 offset ++ bytes16 data.length ++ data
  | rle offset count value => bytes24 offset ++ bytes16 0 ++ bytes16 count ++ [value]

end IpsRecord

/-- The standard encoding of a patch. -/
def encodeIps (records : List IpsRecord) : List UInt8 :=
  ipsHeader ++ (records.flatMap IpsRecord.encode ++ eofMarker)

/-- What reading the records of a patch comes to: they end, one of them is refused, or one of them
is not all there. -/
inductive IpsScan where
  | finished (records : List IpsRecord)
  | refused (records : List IpsRecord)
  | overrun
  deriving DecidableEq, Repr

/-- A record in front of those that were read. -/
def IpsScan.cons (r : IpsRecord) : IpsScan → IpsScan
  | finished records => finished (r :: records)
  | refused records => refused (r :: records)
  | overrun => overrun

/-- Read the records of a patch for a buffer of the given size. The last three bytes of a patch
start no record, and a run of length zero needs no value at the end. -/
def scanRecords (size : Nat) : List UInt8 → IpsScan
  | a :: b :: c :: d :: rest =>
      if [a, b, c] = eofMarker then .refused []
      else
        match rest with
        | [] => .overrun
        | e :: rest =>
            if be16 d e = 0 then
              match rest with
              | f :: g :: rest =>
                  if size < be24 a b c + be16 f g then .refused []
                  else
                    match rest with
                    | value :: rest => (scanRecords size rest).cons (.rle (be24 a b c) (be16 f g) value)
                    | [] => if be16 f g = 0 then .finished [] else .overrun
              | _ => .overrun
            else if size < be24 a b c + be16 d e then .refused []
            else if rest.length < be16 d e then .overrun
            else
              (scanRecords size (rest.drop (be16 d e))).cons
                (.plain (be24 a b c) (rest.take (be16 d e)))
  | _ => .finished []
termination_by bytes => bytes.length
decreasing_by all_goals simp; omega

namespace IpsScan

/-- How a call ends that reads and applies the records as it goes. -/
def run : IpsScan → List UInt8 → Outcome PatchFault PEmpty (List UInt8) Bool
  | finished records, buffer => .value true (IpsRecord.applyAll records buffer)
  | refused records, buffer => .value false (IpsRecord.applyAll records buffer)
  | overrun, _ => .fault .outOfRange

@[simp] theorem run_cons (scan : IpsScan) (r : IpsRecord) (buffer : List UInt8) :
    (scan.cons r).run buffer = scan.run (r.apply buffer) := by
  cases scan <;> rfl

end IpsScan

theorem IpsRecord.length_apply {r : IpsRecord} {buffer : List UInt8} (h : r.Fits buffer.length) :
    (r.apply buffer).length = buffer.length := length_overwrite h

namespace Ips

variable {front bytes buffer : List UInt8} {rounds : Nat}

theorem lt_patchLength_iff (h : 5 ≤ front.length) :
    front.length < patchLength (front ++ bytes) ↔ 3 < bytes.length := by
  rw [patchLength, if_pos (by simp; omega), List.length_append]
  omega

theorem at_bind (k : Nat) (next : UInt8 → PatchCall Bool) :
    (at_ (front ++ bytes) (front.length + k) >>= next) buffer =
      (bytes[k]?).elim (.fault .outOfRange) fun value => next value buffer := by
  have hat : (front ++ bytes)[front.length + k]? = bytes[k]? := by
    rw [List.getElem?_append_right (Nat.le_add_right _ k), Nat.add_sub_cancel_left]
  cases hbyte : bytes[k]? with
  | none => exact Exec.bind_of_fault (by simp [at_, Exec.read, hat, hbyte])
  | some value => exact Exec.bind_of_value (by simp [at_, Exec.read, hat, hbyte])

theorem at_front_bind (next : UInt8 → PatchCall Bool) :
    (at_ (front ++ bytes) front.length >>= next) buffer =
      (bytes[0]?).elim (.fault .outOfRange) fun value => next value buffer :=
  at_bind 0 next

theorem bytesAt_bind (k n : Nat) (next : List UInt8 → PatchCall Bool) :
    (bytesAt (front ++ bytes) (front.length + k) n >>= next) buffer =
      (slice bytes k n).elim (.fault .outOfRange) fun data => next data buffer := by
  have hslice : slice (front ++ bytes) (front.length + k) n = slice bytes k n := by
    rw [← slice_drop (by simp), List.drop_left]
  cases hdata : slice bytes k n with
  | none => exact Exec.bind_of_fault (by simp [bytesAt, Exec.read, hslice, hdata])
  | some data => exact Exec.bind_of_value (by simp [bytesAt, Exec.read, hslice, hdata])

theorem bytesAt_front_bind (n : Nat) (next : List UInt8 → PatchCall Bool) :
    (bytesAt (front ++ bytes) front.length n >>= next) buffer =
      (slice bytes 0 n).elim (.fault .outOfRange) fun data => next data buffer :=
  bytesAt_bind 0 n next

theorem write_eq {offset : Nat} {data : List UInt8} (h : offset + data.length ≤ buffer.length) :
    write offset data buffer = .value ⟨⟩ (overwrite buffer offset data) := by
  have hassert : (Exec.assert .outOfRange (offset + data.length ≤ buffer.length) :
      PatchCall PUnit) buffer = .value ⟨⟩ buffer := by
    rw [Exec.assert, if_pos h]
    rfl
  exact (Exec.bind_of_value rfl).trans (Exec.bind_of_value hassert)

theorem write_bind {offset : Nat} {data : List UInt8} (h : offset + data.length ≤ buffer.length)
    (next : PUnit → PatchCall Bool) :
    (write offset data >>= next) buffer = next ⟨⟩ (overwrite buffer offset data) :=
  Exec.bind_of_value (write_eq h)

/-- Filling needs the byte of the run only if the run is not empty. -/
theorem fill_bind {offset length : Nat} (h : offset + length ≤ buffer.length)
    (next : PUnit → PatchCall Bool) :
    (fill (front ++ bytes) front.length offset length >>= next) buffer =
      if length = 0 then next ⟨⟩ buffer
      else (bytes[7]?).elim (.fault .outOfRange) fun value =>
        next ⟨⟩ (overwrite buffer offset (List.replicate length value)) := by
  have hat : (front ++ bytes)[front.length + 7]? = bytes[7]? := by
    rw [List.getElem?_append_right (Nat.le_add_right _ 7), Nat.add_sub_cancel_left]
  split_ifs with hlength
  · exact Exec.bind_of_value (by simp [fill, Exec.when, hlength]; rfl)
  · have hfill : fill (front ++ bytes) front.length offset length =
        (at_ (front ++ bytes) (front.length + 7) >>= fun value =>
          write offset (List.replicate length value)) := by
      rw [fill, Exec.when, if_pos hlength]
    rw [hfill]
    cases hbyte : bytes[7]? with
    | none =>
        exact Exec.bind_of_fault (Exec.bind_of_fault (by simp [at_, Exec.read, hat, hbyte]))
    | some value =>
        refine Exec.bind_of_value ((Exec.bind_of_value ?_).trans (write_eq (by simpa using h)))
        simp [at_, Exec.read, hat, hbyte]

theorem recordLoop_end {rounds cursor : Nat} {ips : List UInt8} (h : ¬cursor < patchLength ips) :
    recordLoop ips (rounds + 1) cursor buffer = .value true buffer := by
  rw [recordLoop, if_neg h]
  rfl

theorem recordLoop_eq (buffer : List UInt8) (hfront : 5 ≤ front.length)
    (hrounds : bytes.length < rounds) :
    recordLoop (front ++ bytes) rounds front.length buffer =
      (scanRecords buffer.length bytes).run buffer := by
  induction rounds generalizing front bytes buffer with
  | zero => exact absurd hrounds (Nat.not_lt_zero _)
  | succ rounds ih =>
      -- a record moves the cursor over the bytes that were read
      have hnext : ∀ (read rest : List UInt8) (r : IpsRecord), bytes = read ++ rest → read ≠ [] →
          r.Fits buffer.length →
          recordLoop (front ++ bytes) rounds (front.length + read.length) (r.apply buffer) =
            ((scanRecords buffer.length rest).cons r).run buffer := by
        intro read rest r hbytes hread hfits
        have hpos := List.length_pos_of_ne_nil hread
        have hfront' : 5 ≤ (front ++ read).length := by
          rw [List.length_append]
          omega
        have hrounds' : rest.length < rounds := by
          rw [hbytes, List.length_append] at hrounds
          omega
        have hloop := @ih (front ++ read) rest (r.apply buffer) hfront' hrounds'
        rwa [List.append_assoc, ← hbytes, List.length_append, IpsRecord.length_apply hfits,
          ← IpsScan.run_cons] at hloop
      rcases bytes with _ | ⟨a, _ | ⟨b, _ | ⟨c, _ | ⟨d, _ | ⟨e, rest⟩⟩⟩⟩⟩
      -- fewer than four bytes are not read
      iterate 4
        · rw [recordLoop_end (by rw [lt_patchLength_iff hfront]; simp), scanRecords]
          · rfl
          all_goals simp
      · rw [recordLoop, if_pos ((lt_patchLength_iff hfront).mpr (by simp)), bytesAt_front_bind,
          scanRecords]
        simp only [slice, List.length_cons, List.length_nil, Nat.reduceAdd, Nat.reduceLeDiff,
          if_true, List.drop_zero, List.take_succ_cons, List.take_zero, Option.elim_some]
        split_ifs with heof
        · rfl
        · simp [at_bind, at_front_bind, IpsScan.run]
      · have hmarker : slice (a :: b :: c :: d :: e :: rest) 0 3 = some [a, b, c] := by
          simp [slice]
        rw [recordLoop, if_pos ((lt_patchLength_iff hfront).mpr (by simp)), bytesAt_front_bind]
        unfold scanRecords
        simp only [hmarker, Option.elim_some]
        split_ifs with heof hzero hsize hrest
        · rfl
        all_goals
          simp only [at_bind, at_front_bind, List.getElem?_cons_zero, List.getElem?_cons_succ,
            Option.elim_some]
        · rw [if_pos hzero]
          rcases rest with _ | ⟨f, _ | ⟨g, rest⟩⟩
          iterate 2
            · simp [at_bind, IpsScan.run]
          · simp only [at_bind, List.getElem?_cons_zero, List.getElem?_cons_succ,
              Option.elim_some, Exec.get_bind]
            split_ifs with hsize hcount
            · rfl
            all_goals rw [fill_bind (by omega)]
            · rw [if_pos hcount]
              cases rest with
              | nil =>
                  obtain ⟨rounds, rfl⟩ : ∃ n, rounds = n + 1 :=
                    ⟨rounds - 1, by simp only [List.length_cons] at hrounds; omega⟩
                  refine recordLoop_end ?_
                  rw [patchLength, if_pos (by simp), List.length_append]
                  simp only [List.length_cons, List.length_nil]
                  omega
              | cons value rest =>
                  have hloop := hnext [a, b, c, d, e, f, g, value] rest
                    (.rle (be24 a b c) (be16 f g) value) rfl (by simp)
                    (by simp only [IpsRecord.Fits, IpsRecord.offset, IpsRecord.data,
                      List.length_replicate]; omega)
                  simpa [IpsRecord.apply, IpsRecord.data, hcount] using hloop
            · rw [if_neg hcount]
              cases rest with
              | nil => simp [IpsScan.run]
              | cons value rest =>
                  exact hnext [a, b, c, d, e, f, g, value] rest
                    (.rle (be24 a b c) (be16 f g) value) rfl (by simp)
                    (by simp only [IpsRecord.Fits, IpsRecord.offset, IpsRecord.data,
                      List.length_replicate]; omega)
        · rw [if_neg hzero, Exec.get_bind, if_pos hsize]
          rfl
        · rw [if_neg hzero, Exec.get_bind, if_neg hsize, bytesAt_bind]
          have hnone : slice (a :: b :: c :: d :: e :: rest) 5 (be16 d e) = none := by
            rw [slice_eq_none]
            simp only [List.length_cons]
            omega
          rw [hnone]
          rfl
        · have hdata : slice (a :: b :: c :: d :: e :: rest) 5 (be16 d e) =
              some (rest.take (be16 d e)) := by
            rw [slice_eq_some]
            simp only [List.length_cons, List.drop_succ_cons, List.drop_zero, and_true]
            omega
          have htake : (rest.take (be16 d e)).length = be16 d e := by
            rw [List.length_take]
            omega
          rw [if_neg hzero, Exec.get_bind, if_neg hsize, bytesAt_bind, hdata, Option.elim_some,
            write_bind (by omega)]
          have hloop := hnext (a :: b :: c :: d :: e :: rest.take (be16 d e))
            (rest.drop (be16 d e)) (.plain (be24 a b c) (rest.take (be16 d e)))
            (by simp) (by simp) (by simp only [IpsRecord.Fits, IpsRecord.offset, IpsRecord.data]; omega)
          have hlength : (a :: b :: c :: d :: e :: rest.take (be16 d e)).length =
              be16 d e + 5 := by simp only [List.length_cons, htake]
          rw [hlength] at hloop
          exact hloop

end Ips

/-- A call reads the header, then the records, and applies them. -/
theorem applyIpsPatch_eq (ips buffer : List UInt8) :
    applyIpsPatch ips buffer =
      if ips.length < 5 then .fault .outOfRange
      else if ips.take 5 ≠ ipsHeader then .value false buffer
      else (scanRecords buffer.length (ips.drop 5)).run buffer := by
  have hheader := @Ips.bytesAt_front_bind [] ips buffer 5
    fun header => if header ≠ ipsHeader then return false else Ips.recordLoop ips ips.length 5
  refine hheader.trans ?_
  by_cases hlength : ips.length < 5
  · have hnone : slice ips 0 5 = none := slice_eq_none.mpr (by omega)
    rw [hnone, if_pos hlength]
    rfl
  · have hsome : slice ips 0 5 = some (ips.take 5) := slice_eq_some.mpr ⟨by omega, rfl⟩
    have hfront : (ips.take 5).length = 5 := by
      rw [List.length_take]
      omega
    rw [hsome, if_neg hlength, Option.elim_some]
    split_ifs with hne
    · rfl
    · have hrounds : (ips.drop 5).length < ips.length := by
        rw [List.length_drop]
        omega
      have hloop := Ips.recordLoop_eq buffer hfront.ge hrounds
      rwa [hfront, List.take_append_drop] at hloop

section Encoding

variable {size : Nat} {r : IpsRecord} {records : List IpsRecord}

/-- The offset whose bytes are the end marker. -/
def eofOffset : Nat := 0x454F46

theorem be16_eq (a b : UInt8) : be16 a b = a.toNat * 2 ^ 8 + b.toNat := by
  rw [be16, ← Nat.shiftLeft_add_eq_or_of_lt b.toNat_lt, Nat.shiftLeft_eq]

theorem be24_eq (a b c : UInt8) :
    be24 a b c = a.toNat * 2 ^ 16 + b.toNat * 2 ^ 8 + c.toNat := by
  have hlow : b.toNat * 2 ^ 8 + c.toNat < 2 ^ 16 := by
    have := b.toNat_lt
    have := c.toNat_lt
    omega
  have hbc : b.toNat <<< 8 ||| c.toNat = b.toNat * 2 ^ 8 + c.toNat := be16_eq b c
  rw [be24, Nat.or_assoc, hbc, ← Nat.shiftLeft_add_eq_or_of_lt hlow, Nat.shiftLeft_eq, add_assoc]

theorem be16_bytes {n : Nat} (h : n < 2 ^ 16) : be16 (UInt8.ofNat (n / 2 ^ 8)) (UInt8.ofNat n) = n := by
  rw [be16_eq, UInt8.toNat_ofNat', UInt8.toNat_ofNat']
  omega

theorem be24_bytes {n : Nat} (h : n < 2 ^ 24) :
    be24 (UInt8.ofNat (n / 2 ^ 16)) (UInt8.ofNat (n / 2 ^ 8)) (UInt8.ofNat n) = n := by
  rw [be24_eq, UInt8.toNat_ofNat', UInt8.toNat_ofNat', UInt8.toNat_ofNat']
  omega

theorem bytes24_eq_eofMarker {n : Nat} (h : n < 2 ^ 24) :
    IpsRecord.bytes24 n = eofMarker ↔ n = eofOffset := by
  constructor
  · intro hbytes
    have hn := be24_bytes h
    simp only [IpsRecord.bytes24, eofMarker, List.map_cons, List.map_nil, List.cons.injEq] at hbytes
    obtain ⟨ha, hb, hc, -⟩ := hbytes
    rw [ha, hb, hc] at hn
    rw [← hn]
    decide
  · rintro rfl
    decide

section Scanning

variable {a b c d e : UInt8} {rest : List UInt8}

theorem scanRecords_marker (h : [a, b, c] = eofMarker) :
    scanRecords size (a :: b :: c :: d :: e :: rest) = .refused [] := by
  unfold scanRecords
  rw [if_pos h]

variable (rest) in
theorem scanRecords_plain {data : List UInt8} (h : [a, b, c] ≠ eofMarker)
    (hlength : be16 d e = data.length) (hdata : 0 < data.length)
    (hsize : be24 a b c + data.length ≤ size) :
    scanRecords size (a :: b :: c :: d :: e :: (data ++ rest)) =
      (scanRecords size rest).cons (.plain (be24 a b c) data) := by
  conv_lhs => unfold scanRecords
  rw [if_neg h]
  simp only
  rw [hlength, if_neg (by omega), if_neg (by omega), if_neg (by simp), List.drop_left,
    List.take_left]

variable (rest) in
theorem scanRecords_rle {f g : UInt8} (value : UInt8) (h : [a, b, c] ≠ eofMarker) (hlength : be16 d e = 0)
    (hsize : be24 a b c + be16 f g ≤ size) :
    scanRecords size (a :: b :: c :: d :: e :: f :: g :: value :: rest) =
      (scanRecords size rest).cons (.rle (be24 a b c) (be16 f g) value) := by
  conv_lhs => unfold scanRecords
  rw [if_neg h]
  simp only
  rw [if_pos hlength, if_neg (by omega)]

end Scanning

theorem scanRecords_encode (hencodable : r.Encodable) (hfits : r.Fits size) (rest : List UInt8) :
    scanRecords size (r.encode ++ rest) =
      if r.offset = eofOffset then .refused [] else (scanRecords size rest).cons r := by
  cases r with
  | plain offset data =>
      obtain ⟨hoffset, hpos, hlength⟩ := hencodable
      have hbe24 := be24_bytes hoffset
      simp only [IpsRecord.encode, IpsRecord.bytes24, IpsRecord.bytes16, List.cons_append,
        List.nil_append, ← bytes24_eq_eofMarker hoffset, IpsRecord.offset]
      split_ifs with hmarker
      · exact scanRecords_marker hmarker
      · have hsize : be24 (UInt8.ofNat (offset / 2 ^ 16)) (UInt8.ofNat (offset / 2 ^ 8))
            (UInt8.ofNat offset) + data.length ≤ size := hbe24.symm ▸ hfits
        have hscan := scanRecords_plain rest hmarker (be16_bytes hlength) hpos hsize
        rwa [hbe24] at hscan
  | rle offset count value =>
      obtain ⟨hoffset, hcount⟩ := hencodable
      have hbe24 := be24_bytes hoffset
      have hbe16 := be16_bytes hcount
      have hrun : offset + count ≤ size := by
        simpa [IpsRecord.Fits, IpsRecord.offset, IpsRecord.data] using hfits
      simp only [IpsRecord.encode, IpsRecord.bytes24, IpsRecord.bytes16, List.cons_append,
        List.nil_append, ← bytes24_eq_eofMarker hoffset, IpsRecord.offset]
      split_ifs with hmarker
      · exact scanRecords_marker hmarker
      · have hsize : be24 (UInt8.ofNat (offset / 2 ^ 16)) (UInt8.ofNat (offset / 2 ^ 8))
            (UInt8.ofNat offset) + be16 (UInt8.ofNat (count / 2 ^ 8)) (UInt8.ofNat count) ≤ size := by
          rwa [hbe24, hbe16]
        have hscan := scanRecords_rle rest value hmarker (be16_bytes (by decide : 0 < 2 ^ 16)) hsize
        rwa [hbe24, hbe16] at hscan

theorem scanRecords_end (size : Nat) : scanRecords size eofMarker = .finished [] := by
  unfold scanRecords
  rfl

theorem scanRecords_all (hencodable : ∀ r ∈ records, r.Encodable)
    (hfits : ∀ r ∈ records, r.Fits size) :
    scanRecords size (records.flatMap IpsRecord.encode ++ eofMarker) =
      if ∀ r ∈ records, r.offset ≠ eofOffset then .finished records
      else .refused (records.takeWhile fun r => r.offset ≠ eofOffset) := by
  induction records with
  | nil => simpa using scanRecords_end size
  | cons r rest ih =>
      rw [List.flatMap_cons, List.append_assoc,
        scanRecords_encode (hencodable r List.mem_cons_self) (hfits r List.mem_cons_self),
        ih (fun r hr => hencodable r (List.mem_cons_of_mem _ hr))
          fun r hr => hfits r (List.mem_cons_of_mem _ hr)]
      by_cases hoffset : r.offset = eofOffset
      · simp [hoffset]
      · have hcons : (∀ other ∈ r :: rest, other.offset ≠ eofOffset) ↔
            ∀ other ∈ rest, other.offset ≠ eofOffset := by
          simp [hoffset]
        rw [if_neg hoffset, List.takeWhile_cons_of_pos (by simpa using hoffset)]
        by_cases hrest : ∀ other ∈ rest, other.offset ≠ eofOffset
        · rw [if_pos hrest, if_pos (hcons.mpr hrest)]
          rfl
        · rw [if_neg hrest, if_neg (mt hcons.mp hrest)]
          rfl

/-- The standard encoding of records that fit is applied exactly when no record starts at the
offset whose bytes are the end marker. -/
theorem applyIpsPatch_encode (records : List IpsRecord) (buffer : List UInt8)
    (hencodable : ∀ r ∈ records, r.Encodable) (hfits : ∀ r ∈ records, r.Fits buffer.length) :
    applyIpsPatch (encodeIps records) buffer =
        .value true (IpsRecord.applyAll records buffer) ↔
      ∀ r ∈ records, r.offset ≠ eofOffset := by
  have htake : (encodeIps records).take 5 = ipsHeader := rfl
  have hdrop : (encodeIps records).drop 5 = records.flatMap IpsRecord.encode ++ eofMarker := rfl
  have hlength : ¬(encodeIps records).length < 5 := by simp [encodeIps, ipsHeader]
  rw [applyIpsPatch_eq, if_neg hlength, htake, if_neg (by simp), hdrop,
    scanRecords_all hencodable hfits]
  split_ifs with hmarker
  · exact iff_of_true rfl hmarker
  · exact iff_of_false (by simp [IpsScan.run]) hmarker

/-- Two records that overlap, the second one a run. -/
theorem applyIpsPatch_encode_overlap :
    applyIpsPatch (encodeIps [.plain 1 [7, 8], .rle 2 2 9]) [0, 0, 0, 0] =
        .value true (IpsRecord.applyAll [.plain 1 [7, 8], .rle 2 2 9] [0, 0, 0, 0]) ↔
      ∀ r ∈ [IpsRecord.plain 1 [7, 8], .rle 2 2 9], r.offset ≠ eofOffset :=
  applyIpsPatch_encode _ _
    (by simp [IpsRecord.Encodable]) (by simp [IpsRecord.Fits, IpsRecord.offset, IpsRecord.data])

/-- A record of one byte at the marker's offset is refused. -/
theorem applyIpsPatch_refuses_marker :
    IpsRecord.Encodable (.plain 0x454F46 [1]) ∧
      IpsRecord.Fits (List.replicate 0x454F47 (0 : UInt8)).length (.plain 0x454F46 [1]) ∧
      applyIpsPatch (encodeIps [.plain 0x454F46 [1]]) (List.replicate 0x454F47 0) =
        .value false (List.replicate 0x454F47 0) := by
  rw [List.length_replicate]
  refine ⟨by simp [IpsRecord.Encodable],
    by simp [IpsRecord.Fits, IpsRecord.offset, IpsRecord.data], ?_⟩
  generalize List.replicate 0x454F47 (0 : UInt8) = buffer
  rfl

end Encoding

section Safety

variable {ips buffer : List UInt8}

/-- The call returns, all its accesses being in range, and changes nothing if it fails. -/
def IpsSafe (ips buffer : List UInt8) : Prop :=
  ∃ result buffer', applyIpsPatch ips buffer = .value result buffer' ∧
    (result = false → buffer' = buffer)

/-- The records that were read are all there, and none before a refused one changes a byte. -/
def IpsScan.Harmless (buffer : List UInt8) : IpsScan → Prop
  | .finished _ => True
  | .refused records => IpsRecord.applyAll records buffer = buffer
  | .overrun => False

theorem IpsScan.harmless_iff (scan : IpsScan) :
    (∃ result buffer', scan.run buffer = .value result buffer' ∧
      (result = false → buffer' = buffer)) ↔ scan.Harmless buffer := by
  cases scan with
  | finished records => exact iff_of_true ⟨true, _, rfl, by simp⟩ trivial
  | refused records =>
      constructor
      · rintro ⟨result, buffer', hrun, hsame⟩
        obtain ⟨rfl, rfl⟩ : false = result ∧ IpsRecord.applyAll records buffer = buffer' := by
          simpa [IpsScan.run] using hrun
        exact hsame rfl
      · intro h
        exact ⟨false, _, rfl, fun _ => h⟩
  | overrun => exact iff_of_false (by simp [IpsScan.run]) not_false

/-- When a patch is applied safely. -/
theorem applyIpsPatch_safe_iff (ips buffer : List UInt8) :
    IpsSafe ips buffer ↔
      5 ≤ ips.length ∧
        (ips.take 5 = ipsHeader → (scanRecords buffer.length (ips.drop 5)).Harmless buffer) := by
  rw [IpsSafe, applyIpsPatch_eq]
  by_cases hlength : ips.length < 5
  · rw [if_pos hlength]
    exact iff_of_false (by simp) fun h => absurd hlength (Nat.not_lt.mpr h.1)
  · have hlong : 5 ≤ ips.length := Nat.not_lt.mp hlength
    rw [if_neg hlength]
    by_cases hheader : ips.take 5 = ipsHeader
    · rw [if_neg (not_not.mpr hheader), IpsScan.harmless_iff]
      exact ⟨fun h => ⟨hlong, fun _ => h⟩, fun h => h.2 hheader⟩
    · rw [if_pos hheader]
      exact iff_of_true ⟨false, buffer, rfl, fun _ => rfl⟩ ⟨hlong, fun h => absurd h hheader⟩

/-- A patch of one byte is read past its end, and a record before a refused one stays applied. -/
theorem applyIpsPatch_unsafe :
    ¬IpsSafe [80] [] ∧ ¬IpsSafe (encodeIps [.plain 0 [1], .plain 9 [1]]) [0, 0] := by
  constructor
  · rintro ⟨result, buffer', hrun, -⟩
    have hfault : applyIpsPatch [80] [] = .fault .outOfRange := rfl
    rw [hfault] at hrun
    cases hrun
  · rintro ⟨result, buffer', hrun, hsame⟩
    have hvalue : applyIpsPatch (encodeIps [.plain 0 [1], .plain 9 [1]]) [0, 0] =
        .value false [1, 0] := rfl
    rw [hvalue] at hrun
    cases hrun
    exact absurd (hsame rfl) (by decide)

end Safety

end Cytrus.FileSys
