import Cytrus.FileSys.IpsPatch

/-!
# BPS patches

The source is a copy of the buffer, the target is the buffer itself, and the
commands move a cursor in each of the three streams.

## Main results

* `handleCommand_post`: what a command keeps, and when it leaves the target
* `loopAt_step`, `commandLoop_eq`: the loop follows the commands, and its bound
  on the rounds is never reached

## Implementation notes

`Number` is `u32` and the relative offsets are `u64`; both are naturals taken
modulo their range. The checksum is a parameter.
-/

namespace Cytrus.FileSys

open Support Relation
open Exec (post_bind bind_of_value post_get post_modify post_ite)

structure Stream where
  data : List UInt8
  offset : Nat := 0
  deriving DecidableEq, Repr

namespace Stream

def size (s : Stream) : Nat := s.data.length

/-- `Stream::Read`; nothing moves where it fails. -/
def read (s : Stream) (length : Nat) : Option (List UInt8 × Stream) :=
  if s.size < s.offset + length then none
  else some ((s.data.drop s.offset).take length, { s with offset := s.offset + length })

def copyFrom (s other : Stream) (length : Nat) : Option (Stream × Stream) :=
  if s.size < s.offset + length then none
  else (other.read length).map fun read =>
    ({ data := overwrite s.data s.offset read.1, offset := s.offset + length }, read.2)

/-- `Stream::Seek`. -/
def seek (s : Stream) (offset : Nat) : Option Stream :=
  if s.size < offset then none else some { s with offset }

/-- The loop of `ReadNumber` over the bytes ahead; it gives back what it leaves. -/
def numberLoop : List UInt8 → Nat → Nat → Nat × List UInt8
  | [], data, _ => (data, [])
  | x :: rest, data, shift =>
      let data := (data + x.toNat % 128 * shift) % 2 ^ 32
      if 128 ≤ x.toNat then (data, rest)
      else
        let shift := shift * 128 % 2 ^ 32
        numberLoop rest ((data + shift) % 2 ^ 32) shift

def readNumber (s : Stream) : Nat × Stream :=
  let number := numberLoop (s.data.drop s.offset) 0 1
  (number.1, { s with offset := s.size - number.2.length })

/-- Bytes as a number, the least significant one first. -/
def littleEndian (bytes : List UInt8) : Nat := bytes.foldr (fun x n => x.toNat + 256 * n) 0

def readU32 (s : Stream) : Option (Nat × Stream) :=
  (s.read 4).map fun read => (littleEndian read.1, read.2)

end Stream

/-- `"BPS1"`. -/
def bpsMagic : List UInt8 := ['B', 'P', 'S', '1'].map Char.toUInt8

def magicSize : Nat := 4

def footerSize : Nat := 12

structure PatchApplier where
  source : Stream
  target : Stream
  patch : Stream
  sourceRelativeOffset : Nat := 0
  targetRelativeOffset : Nat := 0
  deriving DecidableEq, Repr

abbrev BpsCall (α : Type) := Exec PatchFault PEmpty PatchApplier α

/-- `offset += (data & 1 ? -1 : +1) * int(data >> 1)` in `u64`. -/
def addOffset (offset data : Nat) : Nat :=
  if data % 2 = 1 then (offset + (2 ^ 64 - data / 2)) % 2 ^ 64 else (offset + data / 2) % 2 ^ 64

namespace Bps

def sourceRead (length : Nat) : BpsCall Bool := fun s =>
  match s.source.seek s.target.offset with
  | none => .value false s
  | some source =>
      match s.target.copyFrom source length with
      | none => .value false { s with source }
      | some (target, source) => .value true { s with source, target }

def targetRead (length : Nat) : BpsCall Bool := fun s =>
  match s.target.copyFrom s.patch length with
  | none => .value false s
  | some (target, patch) => .value true { s with target, patch }

def sourceCopy (length : Nat) : BpsCall Bool := fun s =>
  let patch := s.patch.readNumber.2
  let sourceRelativeOffset := addOffset s.sourceRelativeOffset s.patch.readNumber.1
  match s.source.seek sourceRelativeOffset with
  | none => .value false { s with patch, sourceRelativeOffset }
  | some source =>
      match s.target.copyFrom source length with
      | none => .value false { s with patch, source, sourceRelativeOffset }
      | some (target, source) =>
          .value true
            { s with
              patch, source, target
              sourceRelativeOffset := (sourceRelativeOffset + length) % 2 ^ 64 }

/-- The byte by byte copy of `TargetCopy`, from its `i`-th byte on. -/
def copyLoop : Nat → Nat → BpsCall PUnit
  | 0, _ => pure ⟨⟩
  | remaining + 1, i => do
      let value ← Exec.read .outOfRange fun s => s.target.data[s.targetRelativeOffset]?
      let s ← Exec.get
      Exec.assert .outOfRange (s.target.offset + i < s.target.size)
      Exec.modify fun s =>
        { s with
          target := { s.target with data := s.target.data.set (s.target.offset + i) value }
          targetRelativeOffset := (s.targetRelativeOffset + 1) % 2 ^ 64 }
      copyLoop remaining (i + 1)

def targetCopy (length : Nat) : BpsCall Bool := do
  Exec.modify fun s =>
    { s with
      patch := s.patch.readNumber.2
      targetRelativeOffset := addOffset s.targetRelativeOffset s.patch.readNumber.1 }
  let s ← Exec.get
  if s.target.size < s.target.offset + length then return false
  if s.target.size < (s.targetRelativeOffset + length) % 2 ^ 64 then return false
  copyLoop length 0
  Exec.modify fun s =>
    { s with target := (s.target.seek (s.target.offset + length)).getD s.target }
  return true

def handleCommand : BpsCall Bool := fun s =>
  let data := s.patch.readNumber.1
  let s := { s with patch := s.patch.readNumber.2 }
  let length := data / 4 + 1
  if data % 4 = 0 then sourceRead length s
  else if data % 4 = 1 then targetRead length s
  else if data % 4 = 2 then sourceCopy length s
  else targetCopy length s

/-- The loop over the commands. -/
def commandLoop (commandEnd : Nat) : Nat → BpsCall Bool
  | 0 => Exec.abort .outOfRounds
  | rounds + 1 => do
      let s ← Exec.get
      if s.patch.offset < commandEnd then
        if ← handleCommand then commandLoop commandEnd rounds else return false
      else return true

/-- What stands between the magic bytes and the commands. -/
structure Header where
  sourceSize : Nat
  targetSize : Nat
  metadataSize : Nat
  commands : Stream

def readHeader (patch : Stream) : Header :=
  let source := patch.readNumber
  let target := source.2.readNumber
  let metadata := target.2.readNumber
  ⟨source.1, target.1, metadata.1, metadata.2⟩

/-- `m_patch.size() - FooterSize`, an unsigned subtraction. -/
def commandEndOffset (size : Nat) : Nat :=
  if footerSize ≤ size then size - footerSize else 2 ^ 64 + size - footerSize

def apply (crc32 : List UInt8 → UInt32) : BpsCall Bool := do
  let s ← Exec.get
  let magic ← Exec.read .emptyOptional fun _ => s.patch.read magicSize
  if magic.1 ≠ bpsMagic then return false
  let header := readHeader magic.2
  if s.source.size < header.sourceSize ∨ s.target.size < header.targetSize ∨
      header.metadataSize ≠ 0 then return false
  let commandEnd := commandEndOffset s.patch.size
  let footer := (header.commands.seek commandEnd).getD header.commands
  let sourceCrc32 ← Exec.read .emptyOptional fun _ => footer.readU32
  let targetCrc32 ← Exec.read .emptyOptional fun _ => sourceCrc32.2.readU32
  let patch := (targetCrc32.2.seek header.commands.offset).getD targetCrc32.2
  if (crc32 (s.source.data.take header.sourceSize)).toNat ≠ sourceCrc32.1 then return false
  Exec.modify fun s =>
    { s with patch, target := { s.target with data := List.replicate s.target.size 0 } }
  if ← commandLoop commandEnd (s.patch.size + 1) then
    let s ← Exec.get
    return decide ((crc32 (s.target.data.take header.targetSize)).toNat = targetCrc32.1)
  else return false

end Bps

def resize (buffer : List UInt8) (size : Nat) : List UInt8 :=
  buffer.take size ++ List.replicate (size - buffer.length) 0

def applyBpsPatch (crc32 : List UInt8 → UInt32) (patch : List UInt8) : PatchCall Bool := do
  let patchStream : Stream := { data := patch }
  let header := (patchStream.seek magicSize).getD patchStream
  let sourceSize := header.readNumber.1
  let targetSize := header.readNumber.2.readNumber.1
  Exec.when (sourceSize < targetSize) (Exec.modify fun buffer => resize buffer targetSize)
  Exec.zoom (fun buffer => { source := ⟨buffer, 0⟩, target := ⟨buffer, 0⟩, patch := patchStream })
    (fun _ applier => applier.target.data) (Bps.apply crc32)

namespace Stream

variable {s t other : Stream} {length offset : Nat} {bytes : List UInt8}

/-- The bytes ahead of the cursor. -/
def remaining (s : Stream) : List UInt8 := s.data.drop s.offset

/-- The cursor does not pass the end. -/
def Sound (s : Stream) : Prop := s.offset ≤ s.size

theorem length_remaining : s.remaining.length = s.size - s.offset := List.length_drop

theorem read_eq_some : s.read length = some (bytes, t) ↔
    s.offset + length ≤ s.size ∧ s.remaining.take length = bytes ∧
      t = { s with offset := s.offset + length } := by
  unfold read remaining
  split
  · simp
    omega
  · simp only [Option.some.injEq, Prod.mk.injEq]
    constructor
    · rintro ⟨hbytes, rfl⟩
      exact ⟨by omega, hbytes, rfl⟩
    · rintro ⟨-, hbytes, rfl⟩
      exact ⟨hbytes, rfl⟩

theorem read_eq_none : s.read length = none ↔ s.size < s.offset + length := by
  unfold read
  split <;> simp_all

theorem seek_eq_some : s.seek offset = some t ↔
    offset ≤ s.size ∧ t = { s with offset } := by
  unfold seek
  split
  · simp
    omega
  · simp only [Option.some.injEq]
    exact ⟨fun h => ⟨by omega, h.symm⟩, fun h => h.2.symm⟩

theorem numberLoop_length (bytes : List UInt8) (data shift : Nat) :
    (numberLoop bytes data shift).2.length ≤ bytes.length ∧
      (bytes ≠ [] → (numberLoop bytes data shift).2.length < bytes.length) := by
  induction bytes generalizing data shift with
  | nil => simp [numberLoop]
  | cons x rest ih =>
      simp only [numberLoop]
      split
      · simp
      · have := (ih (((data + x.toNat % 128 * shift) % 2 ^ 32 + shift * 128 % 2 ^ 32) % 2 ^ 32)
          (shift * 128 % 2 ^ 32)).1
        simp only [List.length_cons]
        omega

theorem numberLoop_suffix (bytes : List UInt8) (data shift : Nat) :
    (numberLoop bytes data shift).2 <:+ bytes := by
  induction bytes generalizing data shift with
  | nil => exact List.suffix_rfl
  | cons x rest ih =>
      simp only [numberLoop]
      split
      · exact List.suffix_cons x rest
      · exact (ih _ _).trans (List.suffix_cons x rest)

@[simp] theorem readNumber_data (s : Stream) : s.readNumber.2.data = s.data := rfl

theorem readNumber_sound (s : Stream) : s.readNumber.2.Sound := Nat.sub_le _ _

theorem readNumber_remaining (s : Stream) :
    s.readNumber.2.remaining = (numberLoop s.remaining 0 1).2 := by
  obtain ⟨front, hfront⟩ := (numberLoop_suffix s.remaining 0 1).trans (List.drop_suffix s.offset s.data)
  have hsize : s.size = front.length + (numberLoop s.remaining 0 1).2.length := by
    rw [size, ← hfront, List.length_append]
  have hoffset : s.readNumber.2.offset = front.length := by
    change s.size - (numberLoop s.remaining 0 1).2.length = _
    omega
  rw [remaining, readNumber_data, hoffset, ← hfront, List.drop_left]

/-- Reading a number moves the cursor on, unless it is at the end. -/
theorem readNumber_offset (hs : s.Sound) :
    s.offset ≤ s.readNumber.2.offset ∧ (s.offset < s.size → s.offset < s.readNumber.2.offset) := by
  have hlength := numberLoop_length s.remaining 0 1
  have hremaining := length_remaining (s := s)
  change s.offset ≤ s.size - (numberLoop s.remaining 0 1).2.length ∧
    (_ → s.offset < s.size - (numberLoop s.remaining 0 1).2.length)
  unfold Sound at hs
  refine ⟨by omega, fun hlt => ?_⟩
  have hne : s.remaining ≠ [] := List.ne_nil_of_length_pos (by omega)
  have := hlength.2 hne
  omega

theorem copyFrom_eq_some {s' other' : Stream} :
    s.copyFrom other length = some (s', other') ↔
      s.offset + length ≤ s.size ∧ other.offset + length ≤ other.size ∧
        s' = { data := overwrite s.data s.offset (other.remaining.take length),
               offset := s.offset + length } ∧
        other' = { other with offset := other.offset + length } := by
  unfold copyFrom
  split
  · simp
    omega
  · cases hread : other.read length with
    | none =>
        have := read_eq_none.mp hread
        simp
        omega
    | some result =>
        obtain ⟨hbound, hbytes, hnext⟩ := read_eq_some.mp hread
        simp only [Option.map_some, Option.some.injEq, Prod.mk.injEq, ← hbytes, hnext]
        constructor
        · rintro ⟨rfl, rfl⟩
          exact ⟨by omega, hbound, rfl, rfl⟩
        · rintro ⟨-, -, rfl, rfl⟩
          exact ⟨rfl, rfl⟩

theorem copyFrom_size {s' other' : Stream} (h : s.copyFrom other length = some (s', other')) :
    s'.size = s.size := by
  obtain ⟨hroom, hbound, rfl, -⟩ := copyFrom_eq_some.mp h
  have htake : (other.remaining.take length).length = length := by
    rw [List.length_take, length_remaining]
    omega
  exact length_overwrite (by rw [htake]; exact hroom)

end Stream

namespace PatchApplier

variable {s t u : PatchApplier}

/-- The cursors of the patch and of the target are inside their streams. -/
structure Sound (s : PatchApplier) : Prop where
  patch : s.patch.Sound
  target : s.target.Sound

/-- What a command leaves as it was. -/
structure Frame (s t : PatchApplier) : Prop where
  source : t.source.data = s.source.data
  patch : t.patch.data = s.patch.data
  target : t.target.size = s.target.size

theorem Frame.refl (s : PatchApplier) : Frame s s := ⟨rfl, rfl, rfl⟩

theorem Frame.trans (h : Frame s t) (h' : Frame t u) : Frame s u :=
  ⟨h'.source.trans h.source, h'.patch.trans h.patch, h'.target.trans h.target⟩

theorem Frame.patch_size (h : Frame s t) : t.patch.size = s.patch.size :=
  congrArg List.length h.patch

/-- A `TargetCopy` that passes the checks of the code from the offset `rel`: a position that it
reads lies outside the target. As sizes are below `2 ^ 64`, this is where the end of the range
wraps around. -/
def CopiesOutside (size rel length : Nat) : Prop :=
  (rel + length) % 2 ^ 64 ≤ size ∧ ∃ k < length, size ≤ (rel + k) % 2 ^ 64

/-- The next command is a `TargetCopy` that passes the checks but reads outside the target. -/
def ReachesOutside (s : PatchApplier) : Prop :=
  let data := s.patch.readNumber.1
  let length := data / 4 + 1
  data % 4 = 3 ∧ s.target.offset + length ≤ s.target.size ∧
    CopiesOutside s.target.size
      (addOffset s.targetRelativeOffset s.patch.readNumber.2.readNumber.1) length

end PatchApplier

namespace Bps

open PatchApplier

variable {s t u : PatchApplier} {n i length : Nat}

/-- What a command does to a sound state: it fails the patch or goes on. -/
def Goes (s : PatchApplier) (result : Bool) (t : PatchApplier) : Prop :=
  result = true → t.Sound ∧ Frame s t ∧ s.patch.offset ≤ t.patch.offset

theorem sourceRead_post (hs : s.Sound) :
    (sourceRead length).Post s (Goes s) (fun _ _ => False) (fun _ => False) := by
  unfold Exec.Post sourceRead
  cases hseek : s.source.seek s.target.offset with
  | none => exact fun h => by cases h
  | some source =>
      obtain ⟨-, rfl⟩ := Stream.seek_eq_some.mp hseek
      dsimp only
      cases hcopy : s.target.copyFrom { s.source with offset := s.target.offset } length with
      | none => exact fun h => by cases h
      | some result =>
          obtain ⟨target, source⟩ := result
          have hsize := Stream.copyFrom_size hcopy
          obtain ⟨hroom, -, htarget, rfl⟩ := Stream.copyFrom_eq_some.mp hcopy
          refine fun _ => ⟨⟨hs.patch, ?_⟩, ⟨rfl, rfl, hsize⟩, le_rfl⟩
          rw [Stream.Sound, hsize, htarget]
          exact hroom

theorem targetRead_post :
    (targetRead length).Post s (Goes s) (fun _ _ => False) (fun _ => False) := by
  unfold Exec.Post targetRead
  cases hcopy : s.target.copyFrom s.patch length with
  | none => exact fun h => by cases h
  | some result =>
      obtain ⟨target, patch⟩ := result
      have hsize := Stream.copyFrom_size hcopy
      obtain ⟨hroom, hread, htarget, rfl⟩ := Stream.copyFrom_eq_some.mp hcopy
      refine fun _ => ⟨⟨hread, ?_⟩, ⟨rfl, rfl, hsize⟩, Nat.le_add_right _ _⟩
      rw [Stream.Sound, hsize, htarget]
      exact hroom

theorem sourceCopy_post (hs : s.Sound) :
    (sourceCopy length).Post s (Goes s) (fun _ _ => False) (fun _ => False) := by
  unfold Exec.Post sourceCopy
  dsimp only
  cases hseek : s.source.seek (addOffset s.sourceRelativeOffset s.patch.readNumber.1) with
  | none => exact fun h => by cases h
  | some source =>
      obtain ⟨-, rfl⟩ := Stream.seek_eq_some.mp hseek
      dsimp only
      cases hcopy : s.target.copyFrom
          { s.source with offset := addOffset s.sourceRelativeOffset s.patch.readNumber.1 } length with
      | none => exact fun h => by cases h
      | some result =>
          obtain ⟨target, source⟩ := result
          have hsize := Stream.copyFrom_size hcopy
          obtain ⟨hroom, -, htarget, rfl⟩ := Stream.copyFrom_eq_some.mp hcopy
          refine fun _ => ⟨⟨Stream.readNumber_sound _, ?_⟩, ⟨rfl, rfl, hsize⟩,
            (Stream.readNumber_offset hs.patch).1⟩
          rw [Stream.Sound, hsize, htarget]
          exact hroom

/-- The copy loop fails exactly where it reads outside the target. -/
theorem copyLoop_post (hroom : s.target.offset + i + n ≤ s.target.size)
    (hrel : s.targetRelativeOffset < 2 ^ 64) :
    (copyLoop n i).Post s
      (fun _ t => (∀ k < n, (s.targetRelativeOffset + k) % 2 ^ 64 < s.target.size) ∧
        t.target.offset = s.target.offset ∧ t.patch = s.patch ∧ Frame s t)
      (fun _ _ => False)
      (fun _ => ∃ k < n, s.target.size ≤ (s.targetRelativeOffset + k) % 2 ^ 64) := by
  induction n generalizing s i with
  | zero => exact ⟨fun k hk => absurd hk (Nat.not_lt_zero k), rfl, rfl, Frame.refl s⟩
  | succ n ih =>
      rw [copyLoop, post_bind, Exec.post_read]
      constructor
      · intro value hvalue
        have hfirst : s.targetRelativeOffset < s.target.size :=
          (List.getElem?_eq_some_iff.mp hvalue).1
        rw [post_bind, post_get, post_bind, Exec.post_assert]
        refine ⟨fun _ => ?_, fun hout => absurd (by omega) hout⟩
        rw [post_bind, post_modify]
        have hnext : ∀ k, ((s.targetRelativeOffset + 1) % 2 ^ 64 + k) % 2 ^ 64 =
            (s.targetRelativeOffset + (k + 1)) % 2 ^ 64 := fun k => by
          rw [Nat.mod_add_mod, add_assoc, add_comm 1 k]
        have hsize : (s.target.data.set (s.target.offset + i) value).length = s.target.size :=
          List.length_set
        have hroom' : s.target.offset + (i + 1) + n ≤
            (s.target.data.set (s.target.offset + i) value).length := by
          rw [hsize]
          omega
        refine (ih (s := { s with
          target := { s.target with data := s.target.data.set (s.target.offset + i) value }
          targetRelativeOffset := (s.targetRelativeOffset + 1) % 2 ^ 64 }) (i := i + 1)
          hroom' (Nat.mod_lt _ (by decide))).mono
          ?_ (fun _ _ h => h) ?_
        · rintro _ t ⟨hinside, hoffset, hpatch, hframe⟩
          refine ⟨fun k hk => ?_, hoffset, hpatch, ?_⟩
          · cases k with
            | zero =>
                rw [Nat.add_zero, Nat.mod_eq_of_lt hrel]
                exact hfirst
            | succ k =>
                have hk' := hinside k (by omega)
                rw [hnext] at hk'
                exact hk'.trans_eq hsize
          · exact ⟨hframe.source, hframe.patch, hframe.target.trans hsize⟩
        · rintro f ⟨k, hk, houtside⟩
          rw [hnext] at houtside
          exact ⟨k + 1, by omega, hsize.symm.trans_le houtside⟩
      · intro hnone
        refine ⟨0, by omega, ?_⟩
        rw [Nat.add_zero, Nat.mod_eq_of_lt hrel]
        exact List.getElem?_eq_none_iff.mp hnone

theorem addOffset_lt (offset data : Nat) : addOffset offset data < 2 ^ 64 := by
  unfold addOffset
  split <;> exact Nat.mod_lt _ (by decide)

theorem targetCopy_post (length : Nat) (hs : s.Sound) :
    (targetCopy length).Post s
      (fun result t => Goes s result t ∧ ¬(s.target.offset + length ≤ s.target.size ∧
        CopiesOutside s.target.size (addOffset s.targetRelativeOffset s.patch.readNumber.1) length))
      (fun _ _ => False)
      (fun _ => s.target.offset + length ≤ s.target.size ∧
        CopiesOutside s.target.size (addOffset s.targetRelativeOffset s.patch.readNumber.1)
          length) := by
  rw [targetCopy, post_bind, post_modify, post_bind, post_get]
  generalize hrel : addOffset s.targetRelativeOffset s.patch.readNumber.1 = rel
  have hlt : rel < 2 ^ 64 := hrel ▸ addOffset_lt _ _
  rw [post_ite]
  refine ⟨fun hshort => ⟨fun h => (by cases h), fun h => ?_⟩, fun hroom => ?_⟩
  · exact absurd h.1 (Nat.not_le.mpr hshort)
  rw [post_ite]
  refine ⟨fun hpast => ⟨fun h => (by cases h), fun h => ?_⟩, fun hend => ?_⟩
  · exact absurd h.2.1 (Nat.not_le.mpr hpast)
  rw [post_bind]
  have hroom' : s.target.offset + length ≤ s.target.size := Nat.not_lt.mp hroom
  refine (copyLoop_post (s := { s with
    patch := s.patch.readNumber.2
    targetRelativeOffset := rel }) (i := 0) (by simpa using hroom') hlt).mono
    ?_ (fun _ _ h => h) ?_
  · rintro _ t ⟨hinside, hoffset, hpatch, hframe⟩
    have hsize : t.target.size = s.target.size := hframe.target
    have hseek : (t.target.seek (t.target.offset + length)).getD t.target =
        { t.target with offset := s.target.offset + length } := by
      have hbound : t.target.offset + length ≤ t.target.size := by
        rw [hoffset, hsize]
        exact hroom'
      rw [Stream.seek_eq_some.mpr ⟨hbound, rfl⟩, Option.getD_some, hoffset]
    rw [post_bind, post_modify, Exec.post_pure, hseek]
    refine ⟨fun _ => ⟨⟨?_, ?_⟩, ⟨hframe.source, hframe.patch, hsize⟩, ?_⟩, ?_⟩
    · change t.patch.Sound
      rw [hpatch]
      exact Stream.readNumber_sound _
    · exact hroom'.trans_eq hsize.symm
    · change _ ≤ t.patch.offset
      rw [hpatch]
      exact (Stream.readNumber_offset hs.patch).1
    · rintro ⟨-, -, k, hk, houtside⟩
      exact absurd (hinside k hk) (Nat.not_lt.mpr houtside)
  · rintro f houtside
    exact ⟨hroom', Nat.not_lt.mp hend, houtside⟩

/-- A command reads outside the target exactly as a `TargetCopy` that passes the checks can. One
that succeeds has moved the cursor of the patch. -/
theorem handleCommand_post (hs : s.Sound) :
    handleCommand.Post s
      (fun result t => ¬ReachesOutside s ∧ (result = true → t.Sound ∧ Frame s t ∧
        (s.patch.offset < s.patch.size → s.patch.offset < t.patch.offset)))
      (fun _ _ => False) (fun _ => ReachesOutside s) := by
  have hoffset := Stream.readNumber_offset hs.patch
  have hsound : ({ s with patch := s.patch.readNumber.2 } : PatchApplier).Sound :=
    ⟨Stream.readNumber_sound _, hs.target⟩
  have hgoes : ∀ {result : Bool} {t : PatchApplier},
      Goes { s with patch := s.patch.readNumber.2 } result t → result = true →
        t.Sound ∧ Frame s t ∧ (s.patch.offset < s.patch.size → s.patch.offset < t.patch.offset) := by
    intro result t h hresult
    obtain ⟨ht, hframe, hmove⟩ := h hresult
    exact ⟨ht, ⟨hframe.source, hframe.patch, hframe.target⟩,
      fun hlt => (hoffset.2 hlt).trans_le hmove⟩
  have hkept : ∀ {call : BpsCall Bool}, s.patch.readNumber.1 % 4 ≠ 3 →
      handleCommand s = call { s with patch := s.patch.readNumber.2 } →
      call.Post { s with patch := s.patch.readNumber.2 }
        (Goes { s with patch := s.patch.readNumber.2 }) (fun _ _ => False) (fun _ => False) →
      handleCommand.Post s
        (fun result t => ¬ReachesOutside s ∧ (result = true → t.Sound ∧ Frame s t ∧
          (s.patch.offset < s.patch.size → s.patch.offset < t.patch.offset)))
        (fun _ _ => False) (fun _ => ReachesOutside s) := by
    intro call hcommand hcall hpost
    exact (hpost.of_eq hcall).mono (fun _ _ h => ⟨fun hout => hcommand hout.1, hgoes h⟩) (fun _ _ h => h)
      fun _ h => h.elim
  by_cases h0 : s.patch.readNumber.1 % 4 = 0
  · exact hkept (by omega) (if_pos h0) (sourceRead_post hsound)
  by_cases h1 : s.patch.readNumber.1 % 4 = 1
  · exact hkept (by omega) ((if_neg h0).trans (if_pos h1)) targetRead_post
  by_cases h2 : s.patch.readNumber.1 % 4 = 2
  · exact hkept (by omega) ((if_neg h0).trans ((if_neg h1).trans (if_pos h2)))
      (sourceCopy_post hsound)
  have h3 : s.patch.readNumber.1 % 4 = 3 := by omega
  have hcall : handleCommand s = targetCopy (s.patch.readNumber.1 / 4 + 1)
      { s with patch := s.patch.readNumber.2 } :=
    (if_neg h0).trans ((if_neg h1).trans (if_neg h2))
  have hpost := targetCopy_post (s.patch.readNumber.1 / 4 + 1) hsound
  exact (hpost.of_eq hcall).mono (fun _ _ h => ⟨fun hout => h.2 hout.2, hgoes h.1⟩) (fun _ _ h => h)
    fun _ h => ⟨h3, h⟩

/-- One round of the loop that goes on. -/
def Next (commandEnd : Nat) (s t : PatchApplier) : Prop :=
  s.patch.offset < commandEnd ∧ handleCommand s = .value true t

variable {commandEnd rounds : Nat}

theorem Next.spec (h : Next commandEnd s t) (hs : s.Sound) :
    t.Sound ∧ Frame s t ∧ (s.patch.offset < s.patch.size → s.patch.offset < t.patch.offset) :=
  ((handleCommand_post hs).value h.2).2 rfl

theorem commandLoop_next (h : Next commandEnd s t) :
    commandLoop commandEnd (rounds + 1) s = commandLoop commandEnd rounds t := by
  rw [commandLoop]
  refine (bind_of_value (s := s) (t := s) rfl).trans ?_
  rw [if_pos h.1]
  exact bind_of_value h.2

theorem commandLoop_done (h : commandEnd ≤ s.patch.offset) :
    commandLoop commandEnd (rounds + 1) s = .value true s := by
  rw [commandLoop]
  refine (bind_of_value (s := s) (t := s) rfl).trans ?_
  rw [if_neg (Nat.not_lt.mpr h)]
  rfl

theorem commandLoop_of_reaches (h : ReflTransGen (Next commandEnd) s u) (hs : s.Sound)
    (hend : commandEnd ≤ s.patch.size) (hrounds : s.patch.size - s.patch.offset < rounds) :
    ∃ rounds', u.patch.size - u.patch.offset < rounds' ∧ u.Sound ∧ Frame s u ∧
      commandLoop commandEnd rounds s = commandLoop commandEnd rounds' u := by
  induction h using ReflTransGen.head_induction_on generalizing rounds with
  | refl => exact ⟨rounds, hrounds, hs, Frame.refl u, rfl⟩
  | @head v w hnext _ ih =>
      obtain ⟨ht, hframe, hmove⟩ := hnext.spec hs
      have hlt := hmove (hnext.1.trans_le hend)
      have hsize := hframe.patch_size
      have hbound : _ ≤ _ := ht.patch
      obtain ⟨rounds, rfl⟩ : ∃ n, rounds = n + 1 := ⟨rounds - 1, by omega⟩
      have hahead : w.patch.size - w.patch.offset < rounds := by omega
      obtain ⟨rounds', hrounds', hu, hframe', hloop⟩ := ih ht (hend.trans_eq hsize.symm) hahead
      exact ⟨rounds', hrounds', hu, hframe.trans hframe', (commandLoop_next hnext).trans hloop⟩

theorem commandLoop_post (hs : s.Sound) (hend : commandEnd ≤ s.patch.size)
    (hrounds : s.patch.size - s.patch.offset < rounds) :
    (commandLoop commandEnd rounds).Post s
      (fun result t => result = true →
        ReflTransGen (Next commandEnd) s t ∧ commandEnd ≤ t.patch.offset)
      (fun _ _ => False)
      (fun _ => ∃ u, ReflTransGen (Next commandEnd) s u ∧ u.patch.offset < commandEnd ∧
        ReachesOutside u) := by
  induction rounds generalizing s with
  | zero => exact absurd hrounds (Nat.not_lt_zero _)
  | succ rounds ih =>
      by_cases hlt : s.patch.offset < commandEnd
      · have hpost := handleCommand_post hs
        rw [commandLoop, post_bind, post_get, if_pos hlt, post_bind]
        rw [Exec.post_iff] at hpost ⊢
        refine ⟨fun result t hcommand => ?_, hpost.2.1, fun f hfault => ?_⟩
        · cases result with
          | false => exact fun h => by cases h
          | true =>
              have hnext : Next commandEnd s t := ⟨hlt, hcommand⟩
              obtain ⟨ht, hframe, hmove⟩ := hnext.spec hs
              have hoffset := hmove (hlt.trans_le hend)
              have hsize := hframe.patch_size
              refine (ih ht (hend.trans_eq hsize.symm) (by omega)).mono ?_ (fun _ _ h => h) ?_
              · intro result v h hresult
                exact ⟨(h hresult).1.head hnext, (h hresult).2⟩
              · rintro f ⟨u, hreach, hu⟩
                exact ⟨u, hreach.head hnext, hu⟩
        · exact ⟨s, .refl, hlt, hpost.2.2 f hfault⟩
      · have hdone : commandEnd ≤ s.patch.offset := Nat.not_lt.mp hlt
        exact Exec.post_of_value (commandLoop_done hdone) fun _ => ⟨.refl, hdone⟩

end Bps

/-! ### The call as a whole -/

section Whole

variable (patch buffer : List UInt8)

/-- What the patch declares between its magic bytes and its commands. -/
def declared : Bps.Header := Bps.readHeader { data := patch, offset := magicSize }

/-- The buffer after `ApplyBpsPatch` resized it. -/
def prepared : List UInt8 :=
  if (declared patch).sourceSize < (declared patch).targetSize then
    resize buffer (declared patch).targetSize
  else buffer

/-- The declared sizes pass the check. -/
def SizesPass : Prop :=
  (declared patch).sourceSize ≤ (prepared patch buffer).length ∧
    (declared patch).targetSize ≤ (prepared patch buffer).length ∧
    (declared patch).metadataSize = 0

instance : Decidable (SizesPass patch buffer) := inferInstanceAs (Decidable (_ ∧ _ ∧ _))

/-- The checksum of the source in the footer. -/
def sourceChecksum : Nat :=
  Stream.littleEndian ((patch.drop (patch.length - footerSize)).take 4)

/-- The checksum of the target in the footer. -/
def targetChecksum : Nat :=
  Stream.littleEndian ((patch.drop (patch.length - footerSize + 4)).take 4)

/-- The state in which the commands start. -/
def commandStart : PatchApplier :=
  { source := { data := prepared patch buffer }
    target := { data := List.replicate (prepared patch buffer).length 0 }
    patch := { data := patch, offset := (declared patch).commands.offset } }

variable (crc32 : List UInt8 → UInt32)

/-- The source passes the check of its checksum. -/
def SourcePasses : Prop :=
  (crc32 ((prepared patch buffer).take (declared patch).sourceSize)).toNat = sourceChecksum patch

instance : Decidable (SourcePasses patch buffer crc32) := inferInstanceAs (Decidable (_ = _))

/-- How a call on the applier ends for the buffer. -/
def onBuffer : Outcome PatchFault PEmpty PatchApplier Bool → Outcome PatchFault PEmpty (List UInt8) Bool
  | .value result t => .value result t.target.data
  | .error e t => .error e t.target.data
  | .fault f => .fault f

/-- The end of `Apply`, from the loop on. -/
def finish : BpsCall Bool := do
  if ← Bps.commandLoop (patch.length - footerSize) (patch.length + 1) then
    let s ← Exec.get
    return decide ((crc32 (s.target.data.take (declared patch).targetSize)).toNat =
      targetChecksum patch)
  else return false

theorem read_bind {s : PatchApplier} {α β : Type} {fault : PatchFault} {look : Option α}
    (next : α → BpsCall β) :
    ((Exec.read fault fun _ => look : BpsCall α) >>= next) s =
      look.elim (.fault fault) fun value => next value s := by
  cases look with
  | none => exact Exec.bind_of_fault rfl
  | some value => exact bind_of_value rfl

theorem footer_read {stream : Stream} (h : stream.offset + 4 ≤ stream.size) :
    stream.readU32 = some (Stream.littleEndian (stream.remaining.take 4),
      { stream with offset := stream.offset + 4 }) := by
  rw [Stream.readU32, Stream.read_eq_some.mpr ⟨h, rfl, rfl⟩]
  rfl

theorem footer_unread {stream : Stream} (h : stream.size < stream.offset + 4) :
    stream.readU32 = none := by
  rw [Stream.readU32, Stream.read_eq_none.mpr h]
  rfl

theorem readHeader_sound (stream : Stream) (hs : stream.Sound) :
    (Bps.readHeader stream).commands.Sound ∧
      stream.offset ≤ (Bps.readHeader stream).commands.offset ∧
      (Bps.readHeader stream).commands.data = stream.data := by
  refine ⟨Stream.readNumber_sound _, ?_, rfl⟩
  calc stream.offset
      ≤ stream.readNumber.2.offset := (Stream.readNumber_offset hs).1
    _ ≤ stream.readNumber.2.readNumber.2.offset :=
        (Stream.readNumber_offset (Stream.readNumber_sound _)).1
    _ ≤ _ := (Stream.readNumber_offset (Stream.readNumber_sound _)).1

/-- The state in which `Apply` starts. -/
def applyStart : PatchApplier :=
  { source := { data := prepared patch buffer }
    target := { data := prepared patch buffer }
    patch := { data := patch } }

theorem apply_eq (hmagic : magicSize ≤ patch.length) :
    Bps.apply crc32 (applyStart patch buffer) =
      if patch.take magicSize ≠ bpsMagic then .value false (applyStart patch buffer)
      else if ¬SizesPass patch buffer then .value false (applyStart patch buffer)
      else if patch.length < footerSize then .fault .emptyOptional
      else if ¬SourcePasses patch buffer crc32 then .value false (applyStart patch buffer)
      else finish patch crc32 (commandStart patch buffer) := by
  have hread : ({ data := patch } : Stream).read magicSize =
      some (patch.take magicSize, { data := patch, offset := magicSize }) :=
    Stream.read_eq_some.mpr ⟨by simpa [Stream.size] using hmagic, rfl, by simp⟩
  obtain ⟨hsound, hoffset, hdata⟩ := readHeader_sound { data := patch, offset := magicSize } hmagic
  have hheader : Bps.readHeader { data := patch, offset := magicSize } = declared patch := rfl
  rw [hheader] at hsound hoffset hdata
  have hsize : (declared patch).commands.size = patch.length := congrArg List.length hdata
  unfold Bps.apply
  refine (bind_of_value (s := applyStart patch buffer) (t := applyStart patch buffer) rfl).trans ?_
  rw [read_bind]
  change (({ data := patch } : Stream).read magicSize).elim _ _ = _
  rw [hread, Option.elim_some]
  dsimp only
  by_cases hne : patch.take magicSize ≠ bpsMagic
  · rw [if_pos hne, if_pos hne]
    rfl
  rw [if_neg hne, if_neg hne, hheader]
  have hpass : ((applyStart patch buffer).source.size < (declared patch).sourceSize ∨
      (applyStart patch buffer).target.size < (declared patch).targetSize ∨
      (declared patch).metadataSize ≠ 0) ↔ ¬SizesPass patch buffer := by
    simp only [SizesPass, applyStart, Stream.size]
    omega
  by_cases hsizes : SizesPass patch buffer
  · rw [if_neg (mt hpass.mp (not_not.mpr hsizes)), if_neg (not_not.mpr hsizes), read_bind]
    have hend : (applyStart patch buffer).patch.size = patch.length := rfl
    by_cases hshort : patch.length < footerSize
    · -- the cursor stays behind the header, where two words are too many
      have hseek : (declared patch).commands.seek (Bps.commandEndOffset patch.length) = none := by
        rw [Stream.seek, hsize, if_pos]
        rw [Bps.commandEndOffset, if_neg (by omega)]
        simp only [footerSize] at hshort ⊢
        omega
      rw [if_pos hshort, hend, hseek, Option.getD_none]
      by_cases hfirst : (declared patch).commands.size < (declared patch).commands.offset + 4
      · rw [footer_unread hfirst]
        rfl
      · rw [footer_read (Nat.not_lt.mp hfirst), Option.elim_some, read_bind, footer_unread]
        · rfl
        · simp only [Stream.size] at hsize
          simp only [magicSize] at hoffset
          simp only [footerSize] at hshort
          simp only [Stream.size]
          omega
    · have hlong : footerSize ≤ patch.length := Nat.not_lt.mp hshort
      have hcommandEnd : Bps.commandEndOffset patch.length = patch.length - footerSize := if_pos hlong
      have hseek : (declared patch).commands.seek (patch.length - footerSize) =
          some { data := patch, offset := patch.length - footerSize } :=
        Stream.seek_eq_some.mpr ⟨by omega, by rw [hdata]⟩
      have hback : ({ data := patch, offset := patch.length - footerSize + 4 + 4 } : Stream).seek
          (declared patch).commands.offset =
            some { data := patch, offset := (declared patch).commands.offset } :=
        Stream.seek_eq_some.mpr ⟨hsound.trans_eq hsize, rfl⟩
      simp only [footerSize] at hlong
      rw [if_neg hshort, hend, hcommandEnd, hseek, Option.getD_some,
        footer_read (by simp only [Stream.size, footerSize]; omega), Option.elim_some, read_bind,
        footer_read (by simp only [Stream.size, footerSize]; omega), Option.elim_some]
      dsimp only
      rw [hback, Option.getD_some]
      have hcrc : ((crc32 ((applyStart patch buffer).source.data.take
          (declared patch).sourceSize)).toNat ≠ Stream.littleEndian
            ((({ data := patch, offset := patch.length - footerSize } : Stream).remaining.take 4))) ↔
          ¬SourcePasses patch buffer crc32 := Iff.rfl
      by_cases hsource : SourcePasses patch buffer crc32
      · rw [if_neg (mt hcrc.mp (not_not.mpr hsource)), if_neg (not_not.mpr hsource)]
        exact bind_of_value rfl
      · rw [if_pos (hcrc.mpr hsource), if_pos hsource]
        rfl
  · rw [if_pos (hpass.mpr hsizes), if_pos hsizes]
    rfl

theorem applyBpsPatch_eq :
    applyBpsPatch crc32 patch buffer =
      if patch.length < magicSize then .fault .emptyOptional
      else if patch.take magicSize ≠ bpsMagic then .value false (prepared patch buffer)
      else if ¬SizesPass patch buffer then .value false (prepared patch buffer)
      else if patch.length < footerSize then .fault .emptyOptional
      else if ¬SourcePasses patch buffer crc32 then .value false (prepared patch buffer)
      else onBuffer (finish patch crc32 (commandStart patch buffer)) := by
  have hwhen : ∀ (c : Prop) [Decidable c] (f : List UInt8 → List UInt8),
      (Exec.when c (Exec.modify f) : PatchCall PUnit) buffer =
        .value ⟨⟩ (if c then f buffer else buffer) := by
    intro c _ f
    unfold Exec.when
    split <;> rfl
  by_cases hmagic : patch.length < magicSize
  · rw [if_pos hmagic]
    have hread : ({ data := patch } : Stream).read magicSize = none :=
      Stream.read_eq_none.mpr (by simpa [Stream.size] using hmagic)
    refine (bind_of_value (hwhen _ _)).trans ?_
    have hfault : ∀ b : List UInt8, Bps.apply crc32
        { source := ⟨b, 0⟩, target := ⟨b, 0⟩, patch := ⟨patch, 0⟩ } = .fault .emptyOptional := by
      intro b
      refine (bind_of_value rfl).trans (Exec.bind_of_fault ?_)
      simp only [Exec.read, hread]
    unfold Exec.zoom
    rw [hfault]
  · rw [if_neg hmagic]
    have hseek : ({ data := patch } : Stream).seek magicSize =
        some { data := patch, offset := magicSize } :=
      Stream.seek_eq_some.mpr ⟨Nat.not_lt.mp hmagic, rfl⟩
    have happly := apply_eq patch buffer crc32 (Nat.not_lt.mp hmagic)
    have hzoom : ∀ b : List UInt8,
        (Exec.zoom (fun buffer => { source := ⟨buffer, 0⟩, target := ⟨buffer, 0⟩, patch := ⟨patch, 0⟩ })
          (fun _ applier => applier.target.data) (Bps.apply crc32) : PatchCall Bool) b =
          onBuffer (Bps.apply crc32
            { source := ⟨b, 0⟩, target := ⟨b, 0⟩, patch := ⟨patch, 0⟩ }) := by
      intro b
      unfold Exec.zoom onBuffer
      dsimp only
      split <;> simp_all
    refine (bind_of_value (hwhen _ _)).trans ?_
    rw [hseek, Option.getD_some, hzoom]
    change onBuffer (Bps.apply crc32 (applyStart patch buffer)) = _
    rw [happly]
    split_ifs <;> rfl

theorem commandStart_rounds : (commandStart patch buffer).patch.size -
    (commandStart patch buffer).patch.offset < patch.length + 1 :=
  Nat.lt_succ_of_le (Nat.sub_le _ _)

variable {patch crc32}

theorem commandStart_sound (h : magicSize ≤ patch.length) : (commandStart patch buffer).Sound :=
  ⟨(readHeader_sound { data := patch, offset := magicSize } h).1, Nat.zero_le _⟩

variable {buffer}

/-- The checks before the commands all pass. -/
structure ChecksPass (crc32 : List UInt8 → UInt32) (patch buffer : List UInt8) : Prop where
  magic : patch.take magicSize = bpsMagic
  sizes : SizesPass patch buffer
  footer : footerSize ≤ patch.length
  source : SourcePasses patch buffer crc32

theorem ChecksPass.apply (h : ChecksPass crc32 patch buffer) :
    applyBpsPatch crc32 patch buffer =
      onBuffer (finish patch crc32 (commandStart patch buffer)) := by
  have hlength : ¬patch.length < magicSize := by
    have := h.footer
    have : magicSize ≤ footerSize := by decide
    omega
  rw [applyBpsPatch_eq, if_neg hlength, if_neg (not_not.mpr h.magic), if_neg (not_not.mpr h.sizes),
    if_neg (Nat.not_lt.mpr h.footer), if_neg (not_not.mpr h.source)]

theorem checksPass_of_succeeds {buffer' : List UInt8}
    (h : applyBpsPatch crc32 patch buffer = .value true buffer') : ChecksPass crc32 patch buffer := by
  rw [applyBpsPatch_eq] at h
  by_contra hchecks
  split_ifs at h with hmagic hheader hsizes hfooter hsource <;> try cases h
  exact hchecks ⟨not_not.mp hheader, hsizes, Nat.not_lt.mp hfooter, hsource⟩

variable (crc32 buffer) in
theorem finish_post (h : magicSize ≤ patch.length) :
    (finish patch crc32).Post (commandStart patch buffer)
      (fun result t => result = true →
        ReflTransGen (Bps.Next (patch.length - footerSize)) (commandStart patch buffer) t ∧
          patch.length - footerSize ≤ t.patch.offset ∧
          (crc32 (t.target.data.take (declared patch).targetSize)).toNat = targetChecksum patch)
      (fun _ _ => False)
      (fun _ => ∃ u, ReflTransGen (Bps.Next (patch.length - footerSize)) (commandStart patch buffer) u ∧
        u.patch.offset < patch.length - footerSize ∧ u.ReachesOutside) := by
  have hloop := Bps.commandLoop_post (commandStart_sound buffer h) (Nat.sub_le _ footerSize)
    (commandStart_rounds patch buffer)
  rw [finish, post_bind]
  refine hloop.mono (fun result t ht => ?_) (fun _ _ h => h) fun _ h => h
  cases result with
  | false => exact fun h => by cases h
  | true =>
      rw [if_pos rfl, post_bind, post_get, Exec.post_pure]
      exact fun hsum => ⟨(ht rfl).1, (ht rfl).2, of_decide_eq_true hsum⟩

theorem applyBpsPatch_length {buffer' : List UInt8}
    (h : applyBpsPatch crc32 patch buffer = .value true buffer') :
    buffer'.length = (prepared patch buffer).length := by
  have hchecks := checksPass_of_succeeds h
  have hmagic : magicSize ≤ patch.length := le_trans (by decide) hchecks.footer
  rw [hchecks.apply] at h
  cases hfinish : finish patch crc32 (commandStart patch buffer) with
  | fault f => rw [hfinish] at h; cases h
  | error e t => cases e
  | value result t =>
      rw [hfinish] at h
      cases h
      obtain ⟨-, -, -, hframe, -⟩ := Bps.commandLoop_of_reaches
        ((finish_post buffer crc32 hmagic).value hfinish rfl).1 (commandStart_sound buffer hmagic)
        (Nat.sub_le _ _) (Nat.lt_succ_self _)
      exact hframe.target.trans List.length_replicate

end Whole

end Cytrus.FileSys
