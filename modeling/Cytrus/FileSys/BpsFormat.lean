import Mathlib.Data.ZMod.Basic
import Cytrus.FileSys.BpsPatch

/-!
# The BPS format

What a BPS patch says: commands that build the target from the source, their
encoding, and the footer.

## Main results

* `applyBpsPatch_encode`: what applying a well-formed patch leaves in the buffer
* `applyBpsPatch_target`: it leaves the target if the target is not shorter than
  the source and every number of the patch has 32 bits

## Implementation notes

The format does not bound its numbers. The checksum is a parameter.
-/

namespace Cytrus.FileSys

open Support Relation

/-- A relative offset, encoded with its sign in the lowest bit. -/
structure SignedNumber where
  negative : Bool
  magnitude : Nat
  deriving DecidableEq, Repr

namespace SignedNumber

/-- The number that stands for the offset. -/
def code (n : SignedNumber) : Nat := 2 * n.magnitude + if n.negative then 1 else 0

/-- The offset that lies so far from another one. -/
def shift (n : SignedNumber) (offset : Nat) : Option Nat :=
  if n.negative then if n.magnitude ≤ offset then some (offset - n.magnitude) else none
  else some (offset + n.magnitude)

end SignedNumber

/-- A command of a BPS patch. -/
inductive BpsCommand where
  | sourceRead (length : Nat)
  | targetRead (data : List UInt8)
  | sourceCopy (length : Nat) (offset : SignedNumber)
  | targetCopy (length : Nat) (offset : SignedNumber)
  deriving DecidableEq, Repr

/-- What the commands have built so far, and the offsets that they count from. -/
structure BpsOutput where
  output : List UInt8 := []
  sourceOffset : Nat := 0
  targetOffset : Nat := 0
  deriving DecidableEq, Repr

/-- Append copies of what was written from `i` on, byte by byte: what is read may be new itself. -/
def copyOutput : Nat → List UInt8 → Nat → Option (List UInt8)
  | 0, output, _ => some output
  | n + 1, output, i => output[i]?.bind fun value => copyOutput n (output ++ [value]) (i + 1)

namespace BpsCommand

/-- The length of what the command writes. -/
def length : BpsCommand → Nat
  | sourceRead length => length
  | targetRead data => data.length
  | sourceCopy length _ => length
  | targetCopy length _ => length

def run (source : List UInt8) : BpsCommand → BpsOutput → Option BpsOutput
  | sourceRead length, o =>
      (slice source o.output.length length).map fun bytes => { o with output := o.output ++ bytes }
  | targetRead data, o => some { o with output := o.output ++ data }
  | sourceCopy length offset, o =>
      (offset.shift o.sourceOffset).bind fun i =>
        (slice source i length).map fun bytes =>
          { o with output := o.output ++ bytes, sourceOffset := i + length }
  | targetCopy length offset, o =>
      (offset.shift o.targetOffset).bind fun i =>
        (copyOutput length o.output i).map fun output =>
          { o with output, targetOffset := i + length }

def runAll (source : List UInt8) : List BpsCommand → BpsOutput → Option BpsOutput
  | [], o => some o
  | c :: rest, o => (c.run source o).bind (runAll source rest)

/-- The kind of the command in the two lowest bits of its number. -/
def kind : BpsCommand → Nat
  | sourceRead _ => 0
  | targetRead _ => 1
  | sourceCopy _ _ => 2
  | targetCopy _ _ => 3

/-- The number that starts the command. -/
def code (c : BpsCommand) : Nat := 4 * (c.length - 1) + c.kind

end BpsCommand

/-- A number in digits of seven bits, the last one marked; each digit before it counts one more. -/
def encodeNumber (n : Nat) : List UInt8 :=
  if n < 128 then [UInt8.ofNat (n + 128)]
  else UInt8.ofNat (n % 128) :: encodeNumber (n / 128 - 1)
termination_by n
decreasing_by omega

/-- What follows the number of a command. -/
def BpsCommand.payload : BpsCommand → List UInt8
  | sourceRead _ => []
  | targetRead data => data
  | sourceCopy _ offset => encodeNumber offset.code
  | targetCopy _ offset => encodeNumber offset.code

def BpsCommand.encode (c : BpsCommand) : List UInt8 := encodeNumber c.code ++ c.payload

/-- A word, the least significant byte first. -/
def encodeU32 (n : Nat) : List UInt8 :=
  [UInt8.ofNat n, UInt8.ofNat (n / 2 ^ 8), UInt8.ofNat (n / 2 ^ 16), UInt8.ofNat (n / 2 ^ 24)]

/-- A patch up to its own checksum. -/
def bpsBody (crc32 : List UInt8 → UInt32) (source target : List UInt8)
    (commands : List BpsCommand) : List UInt8 :=
  bpsMagic ++ (encodeNumber source.length ++ (encodeNumber target.length ++ (encodeNumber 0 ++
    (commands.flatMap BpsCommand.encode ++
      (encodeU32 (crc32 source).toNat ++ encodeU32 (crc32 target).toNat)))))

/-- The encoding of a patch without metadata. -/
def encodeBps (crc32 : List UInt8 → UInt32) (source target : List UInt8)
    (commands : List BpsCommand) : List UInt8 :=
  bpsBody crc32 source target commands ++
    encodeU32 (crc32 (bpsBody crc32 source target commands)).toNat

/-- The commands write something each and build the target from the source. -/
structure Builds (source target : List UInt8) (commands : List BpsCommand) : Prop where
  nonempty : ∀ c ∈ commands, 0 < c.length
  run : (BpsCommand.runAll source commands {}).map BpsOutput.output = some target

/-- A well-formed BPS patch. -/
def WellFormedBps (crc32 : List UInt8 → UInt32) (patch : List UInt8) : Prop :=
  ∃ source target commands, Builds source target commands ∧
    patch = encodeBps crc32 source target commands

/-- The numbers of the command have 32 bits. -/
def BpsCommand.Fits32 (c : BpsCommand) : Prop :=
  c.code < 2 ^ 32 ∧
    match c with
    | sourceRead _ => True
    | targetRead _ => True
    | sourceCopy _ offset => offset.code < 2 ^ 32
    | targetCopy _ offset => offset.code < 2 ^ 32

/-- All numbers of a patch have 32 bits. -/
structure Fits32 (source target : List UInt8) (commands : List BpsCommand) : Prop where
  source : source.length < 2 ^ 32
  target : target.length < 2 ^ 32
  commands : ∀ c ∈ commands, c.Fits32

/-! ### Numbers -/

section Numbers

theorem digits_wrap (data shift r q : Nat) :
    (((data + r * shift) % 2 ^ 32 + shift * 128 % 2 ^ 32) % 2 ^ 32 +
        q * (shift * 128 % 2 ^ 32)) % 2 ^ 32 =
      (data + (r + 128 * (q + 1)) * shift) % 2 ^ 32 := by
  rw [← ZMod.natCast_eq_natCast_iff']
  simp only [Nat.cast_add, Nat.cast_mul, ZMod.natCast_mod]
  push_cast
  ring

theorem numberLoop_encode (n : Nat) (rest : List UInt8) (data shift : Nat) :
    Stream.numberLoop (encodeNumber n ++ rest) data shift =
      ((data + n * shift) % 2 ^ 32, rest) := by
  induction n using Nat.strong_induction_on generalizing data shift with
  | _ n ih =>
      rw [encodeNumber]
      split
      · have hbyte : (UInt8.ofNat (n + 128)).toNat = n + 128 := by
          rw [UInt8.toNat_ofNat']
          omega
        have hdigit : (n + 128) % 128 = n := by omega
        have hlast : 128 ≤ n + 128 := by omega
        simp only [List.cons_append, List.nil_append, Stream.numberLoop, hbyte, hdigit, if_pos hlast]
      · have hbyte : (UInt8.ofNat (n % 128)).toNat = n % 128 := by
          rw [UInt8.toNat_ofNat']
          omega
        have hnext : ¬128 ≤ n % 128 := by omega
        have hn : n % 128 + 128 * (n / 128 - 1 + 1) = n := by omega
        simp only [List.cons_append, Stream.numberLoop, hbyte, if_neg hnext, Nat.mod_mod,
          ih (n / 128 - 1) (by omega), digits_wrap, hn]

theorem readNumber_encode {s : Stream} {n : Nat} {rest : List UInt8}
    (h : s.remaining = encodeNumber n ++ rest) :
    s.readNumber.1 = n % 2 ^ 32 ∧ s.readNumber.2.remaining = rest := by
  have hloop := numberLoop_encode n rest 0 1
  rw [Nat.zero_add, Nat.mul_one, ← h] at hloop
  rw [Stream.readNumber_remaining, hloop]
  exact ⟨congrArg Prod.fst hloop, rfl⟩

theorem encodeNumber_ne_nil (n : Nat) : encodeNumber n ≠ [] := by
  rw [encodeNumber]
  split <;> simp

theorem littleEndian_encodeU32 (n : UInt32) :
    Stream.littleEndian (encodeU32 n.toNat) = n.toNat := by
  have := n.toNat_lt
  simp only [Stream.littleEndian, encodeU32, List.foldr_cons, List.foldr_nil, UInt8.toNat_ofNat']
  omega

theorem addOffset_code {n : SignedNumber} {offset target : Nat} (hcode : n.code < 2 ^ 32)
    (hoffset : offset < 2 ^ 63) (hshift : n.shift offset = some target) :
    addOffset offset n.code = target := by
  obtain ⟨negative, magnitude⟩ := n
  cases negative with
  | true =>
      simp only [SignedNumber.shift, if_true] at hshift
      split at hshift
      · obtain rfl := Option.some.inj hshift
        simp only [SignedNumber.code, if_true] at hcode ⊢
        rw [addOffset, if_pos (by omega)]
        omega
      · cases hshift
  | false =>
      obtain rfl : offset + magnitude = target := Option.some.inj hshift
      simp only [SignedNumber.code, Bool.false_eq_true, if_false] at hcode ⊢
      rw [addOffset, if_neg (by omega)]
      omega

end Numbers

/-! ### Commands -/

section Commands

variable {source : List UInt8} {o o' : BpsOutput} {c : BpsCommand} {commands : List BpsCommand}

theorem copyOutput_starts {n i : Nat} {output output' : List UInt8}
    (h : copyOutput n output i = some output') :
    output <+: output' ∧ output'.length = output.length + n := by
  induction n generalizing output i with
  | zero =>
      obtain rfl := Option.some.inj h
      exact ⟨List.prefix_rfl, rfl⟩
  | succ n ih =>
      obtain ⟨value, -, hrest⟩ := Option.bind_eq_some_iff.mp h
      obtain ⟨hstarts, hlength⟩ := ih hrest
      refine ⟨(List.prefix_append output [value]).trans hstarts, ?_⟩
      rw [hlength, List.length_append, List.length_singleton]
      omega

theorem run_length (h : c.run source o = some o') :
    o'.output.length = o.output.length + c.length := by
  cases c with
  | sourceRead length =>
      obtain ⟨bytes, hbytes, rfl⟩ := Option.map_eq_some_iff.mp h
      simp [BpsCommand.length, length_of_slice hbytes]
  | targetRead data =>
      obtain rfl := Option.some.inj h
      simp [BpsCommand.length]
  | sourceCopy length offset =>
      obtain ⟨i, -, hmap⟩ := Option.bind_eq_some_iff.mp h
      obtain ⟨bytes, hbytes, rfl⟩ := Option.map_eq_some_iff.mp hmap
      simp [BpsCommand.length, length_of_slice hbytes]
  | targetCopy length offset =>
      obtain ⟨i, -, hmap⟩ := Option.bind_eq_some_iff.mp h
      obtain ⟨output, houtput, rfl⟩ := Option.map_eq_some_iff.mp hmap
      exact (copyOutput_starts houtput).2

theorem runAll_length (h : BpsCommand.runAll source commands o = some o') :
    o.output.length ≤ o'.output.length := by
  induction commands generalizing o with
  | nil =>
      obtain rfl := Option.some.inj h
      exact le_rfl
  | cons c rest ih =>
      obtain ⟨next, hrun, hrest⟩ := Option.bind_eq_some_iff.mp h
      have := run_length hrun
      have := ih hrest
      omega

variable {s t : PatchApplier} {size : Nat} {rest : List UInt8}

/-- The applier has built what the commands say. -/
structure Matches (source : List UInt8) (size : Nat) (o : BpsOutput) (s : PatchApplier) : Prop where
  extends_ : source <+: s.source.data
  target : s.target.data = o.output ++ List.replicate (size - o.output.length) 0
  position : s.target.offset = o.output.length
  sourceOffset : s.sourceRelativeOffset = o.sourceOffset
  targetOffset : s.targetRelativeOffset = o.targetOffset
  sourceBound : o.sourceOffset ≤ source.length
  targetBound : o.targetOffset ≤ o.output.length

theorem Matches.target_size (h : Matches source size o s) (hroom : o.output.length ≤ size) :
    s.target.size = size := by
  rw [Stream.size, h.target, List.length_append, List.length_replicate]
  omega

theorem overwrite_output (output bytes : List UInt8) :
    overwrite (output ++ List.replicate (size - output.length) 0) output.length bytes =
      output ++ bytes ++ List.replicate (size - (output ++ bytes).length) 0 := by
  have hdrop : size - output.length - bytes.length = size - (output ++ bytes).length := by
    rw [List.length_append]
    omega
  rw [overwrite, List.take_left, ← List.drop_drop, List.drop_left, List.drop_replicate, hdrop]

theorem copyFrom_source {length i : Nat} {bytes : List UInt8} (h : Matches source size o s)
    (hslice : slice source i length = some bytes) (hroom : o.output.length + length ≤ size) :
    s.source.seek i = some { s.source with offset := i } ∧
      s.target.copyFrom { s.source with offset := i } length =
        some ({ data := o.output ++ bytes ++
                  List.replicate (size - (o.output ++ bytes).length) 0
                offset := (o.output ++ bytes).length },
              { s.source with offset := i + length }) := by
  have hlength := length_of_slice hslice
  obtain ⟨hbound, hbytes⟩ := slice_eq_some.mp hslice
  obtain ⟨tail, htail⟩ := h.extends_
  have hsource : source.length ≤ s.source.size := by
    rw [Stream.size, ← htail, List.length_append]
    omega
  have hread : ({ s.source with offset := i } : Stream).remaining.take length = bytes := by
    change ((s.source.data.drop i).take length) = bytes
    rw [← htail, List.drop_append_of_le_length (by omega),
      List.take_append_of_le_length (by rw [List.length_drop]; omega), hbytes]
  refine ⟨Stream.seek_eq_some.mpr ⟨by omega, rfl⟩, ?_⟩
  refine Stream.copyFrom_eq_some.mpr ⟨?_, ?_, ?_, rfl⟩
  · rw [h.position, h.target_size (by omega)]
    exact hroom
  · exact hbound.trans hsource
  · rw [hread, h.target, h.position, overwrite_output, List.length_append, hlength]

theorem sourceRead_run {length : Nat} (h : Matches source size o s)
    (hrun : (BpsCommand.sourceRead length).run source o = some o')
    (hroom : o'.output.length ≤ size) :
    ∃ t, Bps.sourceRead length s = .value true t ∧ Matches source size o' t ∧ t.patch = s.patch := by
  have hlength := run_length hrun
  obtain ⟨bytes, hslice, rfl⟩ := Option.map_eq_some_iff.mp hrun
  obtain ⟨hseek, hcopy⟩ := copyFrom_source h hslice (hlength.ge.trans hroom)
  unfold Bps.sourceRead
  rw [h.position, hseek]
  dsimp only
  rw [hcopy]
  refine ⟨_, rfl, ⟨h.extends_, rfl, rfl, h.sourceOffset, h.targetOffset, h.sourceBound, ?_⟩, rfl⟩
  rw [List.length_append]
  exact h.targetBound.trans (Nat.le_add_right _ _)

theorem targetRead_run {data : List UInt8} (h : Matches source size o s) (hdata : 0 < data.length)
    (hpatch : s.patch.remaining = data ++ rest) (hroom : o.output.length + data.length ≤ size) :
    ∃ t, Bps.targetRead data.length s = .value true t ∧
      Matches source size { o with output := o.output ++ data } t ∧
      t.patch.remaining = rest ∧ t.patch.data = s.patch.data := by
  have hahead : s.patch.offset + data.length ≤ s.patch.size := by
    have := congrArg List.length hpatch
    rw [Stream.length_remaining, List.length_append] at this
    omega
  have hcopy : s.target.copyFrom s.patch data.length =
      some ({ data := o.output ++ data ++ List.replicate (size - (o.output ++ data).length) 0
              offset := (o.output ++ data).length },
            { s.patch with offset := s.patch.offset + data.length }) := by
    refine Stream.copyFrom_eq_some.mpr ⟨?_, hahead, ?_, rfl⟩
    · rw [h.position, h.target_size (by omega)]
      exact hroom
    · rw [hpatch, List.take_left, h.target, h.position, overwrite_output, List.length_append]
  unfold Bps.targetRead
  rw [hcopy]
  refine ⟨_, rfl, ⟨h.extends_, rfl, rfl, h.sourceOffset, h.targetOffset, h.sourceBound, ?_⟩, ?_, rfl⟩
  · rw [List.length_append]
    exact h.targetBound.trans (Nat.le_add_right _ _)
  · rw [Stream.remaining, ← List.drop_drop]
    change s.patch.remaining.drop data.length = rest
    rw [hpatch, List.drop_left]

theorem sourceCopy_run {length : Nat} {offset : SignedNumber} (h : Matches source size o s)
    (hsource : source.length < 2 ^ 32) (hcode : offset.code < 2 ^ 32)
    (hpatch : s.patch.remaining = encodeNumber offset.code ++ rest)
    (hrun : (BpsCommand.sourceCopy length offset).run source o = some o')
    (hroom : o'.output.length ≤ size) :
    ∃ t, Bps.sourceCopy length s = .value true t ∧ Matches source size o' t ∧
      t.patch.remaining = rest ∧ t.patch.data = s.patch.data := by
  have hlength := run_length hrun
  obtain ⟨i, hshift, hmap⟩ := Option.bind_eq_some_iff.mp hrun
  obtain ⟨bytes, hslice, rfl⟩ := Option.map_eq_some_iff.mp hmap
  obtain ⟨hbound, -⟩ := slice_eq_some.mp hslice
  obtain ⟨hnumber, hrest⟩ := readNumber_encode hpatch
  have hsum : addOffset s.sourceRelativeOffset s.patch.readNumber.1 = i := by
    rw [hnumber, Nat.mod_eq_of_lt hcode, h.sourceOffset]
    exact addOffset_code hcode (by have := h.sourceBound; omega) hshift
  obtain ⟨hseek, hcopy⟩ := copyFrom_source h hslice (hlength.ge.trans hroom)
  unfold Bps.sourceCopy
  dsimp only
  rw [hsum, hseek]
  dsimp only
  rw [hcopy]
  refine ⟨_, rfl, ⟨h.extends_, rfl, rfl, Nat.mod_eq_of_lt (by omega), h.targetOffset, hbound, ?_⟩,
    hrest, rfl⟩
  rw [List.length_append]
  exact h.targetBound.trans (Nat.le_add_right _ _)

theorem copyLoop_run {n i : Nat} {output output' : List UInt8}
    (hcopy : copyOutput n output s.targetRelativeOffset = some output')
    (hdata : s.target.data = output ++ List.replicate (size - output.length) 0)
    (hposition : s.target.offset + i = output.length) (hroom : output'.length ≤ size)
    (hrel : s.targetRelativeOffset + n < 2 ^ 64) :
    Bps.copyLoop n i s = .value ⟨⟩
      { s with
        target := { s.target with data := output' ++ List.replicate (size - output'.length) 0 }
        targetRelativeOffset := s.targetRelativeOffset + n } := by
  induction n generalizing s i output with
  | zero =>
      obtain rfl := Option.some.inj hcopy
      rw [← hdata]
      rfl
  | succ n ih =>
      obtain ⟨value, hvalue, hrest⟩ := Option.bind_eq_some_iff.mp hcopy
      have hinside := (List.getElem?_eq_some_iff.mp hvalue).1
      have hgrow := (copyOutput_starts hrest).2
      rw [List.length_append, List.length_singleton] at hgrow
      have hread : s.target.data[s.targetRelativeOffset]? = some value := by
        rw [hdata, List.getElem?_append_left hinside, hvalue]
      have hwrite : s.target.data.set (s.target.offset + i) value =
          output ++ [value] ++ List.replicate (size - (output ++ [value]).length) 0 := by
        obtain ⟨k, hk⟩ : ∃ k, size - output.length = k + 1 := ⟨size - output.length - 1, by omega⟩
        have hk' : size - (output ++ [value]).length = k := by
          rw [List.length_append, List.length_singleton]
          omega
        rw [hdata, hposition, hk, hk', List.set_append_right _ _ le_rfl, Nat.sub_self,
          List.replicate_succ, List.set_cons_zero, List.append_assoc, List.singleton_append]
      have hsize : s.target.offset + i < s.target.size := by
        rw [hposition, Stream.size, hdata, List.length_append, List.length_replicate]
        omega
      have hmod : (s.targetRelativeOffset + 1) % 2 ^ 64 = s.targetRelativeOffset + 1 :=
        Nat.mod_eq_of_lt (by omega)
      let look := fun s : PatchApplier => s.target.data[s.targetRelativeOffset]?
      have hlook : look s = some value := hread
      rw [Bps.copyLoop, Exec.read_bind_some hlook, Exec.get_bind, Exec.assert_bind hsize,
        Exec.modify_bind, hwrite, hmod]
      generalize hzeros : List.replicate (size - (output ++ [value]).length) (0 : UInt8) = zeros
      have hloop := ih (s := { s with
          target := { s.target with data := output ++ [value] ++ zeros }
          targetRelativeOffset := s.targetRelativeOffset + 1 }) (i := i + 1) hrest (by rw [← hzeros])
        (by rw [List.length_append, List.length_singleton, ← add_assoc, hposition])
        (by simp only; omega)
      rw [hloop]
      simp only [Outcome.value.injEq, PatchApplier.mk.injEq, true_and]
      omega

theorem targetCopy_run {length : Nat} {offset : SignedNumber} (h : Matches source size o s)
    (hlength : 0 < length) (hsize : size < 2 ^ 32) (hcode : offset.code < 2 ^ 32)
    (hpatch : s.patch.remaining = encodeNumber offset.code ++ rest)
    (hrun : (BpsCommand.targetCopy length offset).run source o = some o')
    (hroom : o'.output.length ≤ size) :
    ∃ t, Bps.targetCopy length s = .value true t ∧ Matches source size o' t ∧
      t.patch.remaining = rest ∧ t.patch.data = s.patch.data := by
  have hgrow := run_length hrun
  obtain ⟨i, hshift, hmap⟩ := Option.bind_eq_some_iff.mp hrun
  obtain ⟨output, hcopy, rfl⟩ := Option.map_eq_some_iff.mp hmap
  obtain ⟨hnumber, hrest⟩ := readNumber_encode hpatch
  simp only [BpsCommand.length] at hgrow hroom
  have hfirst : i < o.output.length := by
    obtain ⟨n, rfl⟩ : ∃ n, length = n + 1 := ⟨length - 1, by omega⟩
    obtain ⟨value, hvalue, -⟩ := Option.bind_eq_some_iff.mp hcopy
    exact (List.getElem?_eq_some_iff.mp hvalue).1
  have hsum : addOffset s.targetRelativeOffset s.patch.readNumber.1 = i := by
    rw [hnumber, Nat.mod_eq_of_lt hcode, h.targetOffset]
    exact addOffset_code hcode (by have := h.targetBound; omega) hshift
  have htarget := h.target_size (by omega)
  unfold Bps.targetCopy
  rw [Exec.modify_bind, Exec.get_bind, hsum]
  dsimp only
  rw [if_neg (by rw [htarget, h.position]; omega),
    if_neg (by rw [htarget, Nat.mod_eq_of_lt (by omega)]; omega)]
  have hloop := copyLoop_run (s := { s with
    patch := s.patch.readNumber.2, targetRelativeOffset := i }) (i := 0) hcopy h.target h.position
    hroom (by simp only; omega)
  rw [Exec.bind_of_value hloop, Exec.modify_bind]
  have hseek : ({ s.target with data := output ++ List.replicate (size - output.length) 0 } :
      Stream).seek (s.target.offset + length) =
        some { data := output ++ List.replicate (size - output.length) 0
               offset := s.target.offset + length } :=
    Stream.seek_eq_some.mpr ⟨by simp [Stream.size, h.position]; omega, rfl⟩
  dsimp only
  rw [hseek, Option.getD_some]
  refine ⟨_, rfl, ⟨h.extends_, rfl, ?_, h.sourceOffset, rfl, h.sourceBound, ?_⟩, hrest, rfl⟩
  · rw [h.position]
    exact hgrow.symm
  · change i + length ≤ output.length
    omega

theorem code_kind (hlength : 0 < c.length) : c.code % 4 = c.kind ∧ c.code / 4 + 1 = c.length := by
  have hkind : c.kind < 4 := by cases c <;> simp [BpsCommand.kind]
  unfold BpsCommand.code
  omega

theorem handleCommand_run (h : Matches source size o s) (hsource : source.length < 2 ^ 32)
    (hsize : size < 2 ^ 32) (hlength : 0 < c.length) (hfits : c.Fits32)
    (hpatch : s.patch.remaining = c.encode ++ rest) (hrun : c.run source o = some o')
    (hroom : o'.output.length ≤ size) :
    ∃ t, Bps.handleCommand s = .value true t ∧ Matches source size o' t ∧
      t.patch.remaining = rest ∧ t.patch.data = s.patch.data := by
  obtain ⟨hkind, hcount⟩ := code_kind hlength
  rw [BpsCommand.encode, List.append_assoc] at hpatch
  obtain ⟨hnumber, hrest⟩ := readNumber_encode hpatch
  rw [Nat.mod_eq_of_lt hfits.1] at hnumber
  have hmatches : Matches source size o { s with patch := s.patch.readNumber.2 } :=
    ⟨h.extends_, h.target, h.position, h.sourceOffset, h.targetOffset, h.sourceBound, h.targetBound⟩
  unfold Bps.handleCommand
  dsimp only
  rw [hnumber, hkind, hcount]
  cases c with
  | sourceRead length =>
      obtain ⟨t, hcall, ht, hsame⟩ := sourceRead_run hmatches hrun hroom
      exact ⟨t, hcall, ht, by rw [hsame, hrest]; rfl, by rw [hsame]; rfl⟩
  | targetRead data =>
      have hgrow := run_length hrun
      obtain rfl := Option.some.inj hrun
      exact targetRead_run hmatches hlength hrest (hgrow.ge.trans hroom)
  | sourceCopy length offset => exact sourceCopy_run hmatches hsource hfits.2 hrest hrun hroom
  | targetCopy length offset =>
      exact targetCopy_run hmatches hlength hsize hfits.2 hrest hrun hroom

theorem encode_ne_nil (c : BpsCommand) : c.encode ≠ [] :=
  List.append_ne_nil_of_left_ne_nil (encodeNumber_ne_nil _) _

theorem commands_run {commandEnd : Nat} (h : Matches source size o s)
    (hsource : source.length < 2 ^ 32) (hsize : size < 2 ^ 32)
    (hlength : ∀ c ∈ commands, 0 < c.length) (hfits : ∀ c ∈ commands, c.Fits32)
    (hpatch : s.patch.remaining = commands.flatMap BpsCommand.encode ++ rest)
    (hend : s.patch.size = commandEnd + rest.length)
    (hrun : BpsCommand.runAll source commands o = some o') (hroom : o'.output.length ≤ size) :
    ∃ t, ReflTransGen (Bps.Next commandEnd) s t ∧ Matches source size o' t ∧
      t.patch.remaining = rest := by
  induction commands generalizing s o with
  | nil =>
      obtain rfl := Option.some.inj hrun
      exact ⟨s, .refl, h, hpatch⟩
  | cons c tail ih =>
      obtain ⟨next, hfirst, hrest⟩ := Option.bind_eq_some_iff.mp hrun
      have hshort := runAll_length hrest
      rw [List.flatMap_cons, List.append_assoc] at hpatch
      obtain ⟨t, hcommand, ht, hremaining, hdata⟩ := handleCommand_run h hsource hsize
        (hlength c List.mem_cons_self) (hfits c List.mem_cons_self) hpatch hfirst
        (hshort.trans hroom)
      have hahead : s.patch.offset < commandEnd := by
        have := congrArg List.length hpatch
        have := List.length_pos_of_ne_nil (encode_ne_nil c)
        simp only [Stream.length_remaining, List.length_append] at *
        omega
      obtain ⟨u, hreach, hu, hlast⟩ := ih ht
        (fun other hother => hlength other (List.mem_cons_of_mem c hother))
        (fun other hother => hfits other (List.mem_cons_of_mem c hother)) hremaining
        (by rw [Stream.size, hdata]; exact hend) hrest
      exact ⟨u, ReflTransGen.head ⟨hahead, hcommand⟩ hreach, hu, hlast⟩

end Commands

/-! ### Whole patches -/

section Patches

variable {source target : List UInt8} {commands : List BpsCommand} {crc32 : List UInt8 → UInt32}

/-- The last twelve bytes of a patch. -/
def bpsFooter (crc32 : List UInt8 → UInt32) (source target : List UInt8)
    (commands : List BpsCommand) : List UInt8 :=
  encodeU32 (crc32 source).toNat ++ (encodeU32 (crc32 target).toNat ++
    encodeU32 (crc32 (bpsBody crc32 source target commands)).toNat)

theorem encodeBps_eq : encodeBps crc32 source target commands =
    bpsMagic ++ (encodeNumber source.length ++ (encodeNumber target.length ++ (encodeNumber 0 ++
      (commands.flatMap BpsCommand.encode ++ bpsFooter crc32 source target commands)))) := by
  simp [encodeBps, bpsBody, bpsFooter]

@[simp] theorem length_encodeU32 (n : Nat) : (encodeU32 n).length = 4 := rfl

@[simp] theorem length_bpsFooter : (bpsFooter crc32 source target commands).length = footerSize := by
  simp [bpsFooter, footerSize]

variable (crc32 source target commands) in
theorem declared_encode :
    (declared (encodeBps crc32 source target commands)).sourceSize = source.length % 2 ^ 32 ∧
      (declared (encodeBps crc32 source target commands)).targetSize = target.length % 2 ^ 32 ∧
      (declared (encodeBps crc32 source target commands)).metadataSize = 0 ∧
      (declared (encodeBps crc32 source target commands)).commands.remaining =
        commands.flatMap BpsCommand.encode ++ bpsFooter crc32 source target commands := by
  have hstart : ({ data := encodeBps crc32 source target commands, offset := magicSize } :
      Stream).remaining = encodeNumber source.length ++ (encodeNumber target.length ++
        (encodeNumber 0 ++
          (commands.flatMap BpsCommand.encode ++ bpsFooter crc32 source target commands))) := by
    rw [encodeBps_eq]
    rfl
  obtain ⟨hfirst, hsecond⟩ := readNumber_encode hstart
  obtain ⟨hthird, hfourth⟩ := readNumber_encode hsecond
  obtain ⟨hfifth, hlast⟩ := readNumber_encode hfourth
  exact ⟨hfirst, hthird, hfifth, hlast⟩

variable (crc32 source target commands) in
theorem drop_footer : (encodeBps crc32 source target commands).drop
    ((encodeBps crc32 source target commands).length - footerSize) =
      bpsFooter crc32 source target commands := by
  have hsplit : encodeBps crc32 source target commands =
      bpsMagic ++ encodeNumber source.length ++ encodeNumber target.length ++ encodeNumber 0 ++
        commands.flatMap BpsCommand.encode ++ bpsFooter crc32 source target commands := by
    simp [encodeBps_eq]
  rw [hsplit, List.length_append, length_bpsFooter, Nat.add_sub_cancel, List.drop_left]

variable (crc32 source target commands) in
theorem checksums_encode :
    sourceChecksum (encodeBps crc32 source target commands) = (crc32 source).toNat ∧
      targetChecksum (encodeBps crc32 source target commands) = (crc32 target).toNat := by
  constructor
  · rw [sourceChecksum, drop_footer]
    exact littleEndian_encodeU32 _
  · rw [targetChecksum, ← List.drop_drop, drop_footer]
    exact littleEndian_encodeU32 _

variable (crc32) in
theorem prepared_encode (hfits : Fits32 source target commands) :
    prepared (encodeBps crc32 source target commands) source =
      source ++ List.replicate (target.length - source.length) 0 := by
  obtain ⟨hsource, htarget, -⟩ := declared_encode source target commands crc32
  rw [prepared, hsource, htarget, Nat.mod_eq_of_lt hfits.source, Nat.mod_eq_of_lt hfits.target]
  split
  · rw [resize, List.take_of_length_le (by omega)]
  · have hzero : target.length - source.length = 0 := by omega
    rw [hzero, List.replicate_zero, List.append_nil]

/-- Applying a well-formed patch whose numbers have 32 bits: the target, and zeros behind it as far
as the source was longer. -/
theorem applyBpsPatch_encode (hbuilds : Builds source target commands)
    (hfits : Fits32 source target commands) :
    applyBpsPatch crc32 (encodeBps crc32 source target commands) source =
      .value true (target ++ List.replicate (source.length - target.length) 0) := by
  obtain ⟨hsource, htarget, hmetadata, hcommands⟩ := declared_encode source target commands crc32
  rw [Nat.mod_eq_of_lt hfits.source] at hsource
  rw [Nat.mod_eq_of_lt hfits.target] at htarget
  obtain ⟨hsourceSum, htargetSum⟩ := checksums_encode source target commands crc32
  have hprepared := prepared_encode crc32 hfits
  have hmagic : (encodeBps crc32 source target commands).take magicSize = bpsMagic := by
    rw [encodeBps_eq]
    rfl
  have hlong : footerSize ≤ (encodeBps crc32 source target commands).length := by
    rw [encodeBps_eq]
    simp only [List.length_append, length_bpsFooter]
    omega
  have hsound := (readHeader_sound
    { data := encodeBps crc32 source target commands, offset := magicSize }
    (le_trans (by decide : magicSize ≤ footerSize) hlong)).1
  generalize hpatch : encodeBps crc32 source target commands = patch at *
  have hlength : (prepared patch source).length = source.length + (target.length - source.length) := by
    rw [hprepared, List.length_append, List.length_replicate]
  have hsizes : SizesPass patch source := by
    refine ⟨?_, ?_, hmetadata⟩
    · rw [hsource, hlength]
      omega
    · rw [htarget, hlength]
      omega
  have hpasses : SourcePasses patch source crc32 := by
    rw [SourcePasses, hsource, hprepared, List.take_left, hsourceSum]
  obtain ⟨o, hrun, houtput⟩ := Option.map_eq_some_iff.mp hbuilds.run
  have hmatches : Matches source (prepared patch source).length {} (commandStart patch source) :=
    ⟨⟨_, hprepared.symm⟩, by simp [commandStart], rfl, rfl, rfl, Nat.zero_le _, Nat.zero_le _⟩
  have hroom : o.output.length ≤ (prepared patch source).length := by
    rw [houtput, hlength]
    omega
  have hsmall : (prepared patch source).length < 2 ^ 32 := by
    have := hfits.source
    have := hfits.target
    omega
  have hend : (commandStart patch source).patch.size =
      patch.length - footerSize + (bpsFooter crc32 source target commands).length := by
    rw [length_bpsFooter]
    exact (Nat.sub_add_cancel hlong).symm
  obtain ⟨u, hreach, hu, hremaining⟩ := commands_run hmatches hfits.source hsmall
    hbuilds.nonempty hfits.commands hcommands hend hrun hroom
  have hstart : (commandStart patch source).Sound := ⟨hsound, Nat.zero_le _⟩
  obtain ⟨rounds, hrounds, husound, huframe, hloop⟩ := Bps.commandLoop_of_reaches hreach hstart
    (Nat.sub_le _ _) (commandStart_rounds patch source)
  obtain ⟨rounds, rfl⟩ : ∃ n, rounds = n + 1 := ⟨rounds - 1, by omega⟩
  have hoffset : patch.length - footerSize ≤ u.patch.offset := by
    have hahead := congrArg List.length hremaining
    have hsize : u.patch.size = patch.length := huframe.patch_size
    rw [Stream.length_remaining, length_bpsFooter, hsize] at hahead
    omega
  rw [Bps.commandLoop_done hoffset] at hloop
  have hzeros : source.length + (target.length - source.length) - target.length =
      source.length - target.length := by omega
  have hdata : u.target.data = target ++ List.replicate (source.length - target.length) 0 := by
    rw [hu.target, houtput, hlength, hzeros]
  have hfinish : finish patch crc32 (commandStart patch source) = .value true u := by
    rw [finish, Exec.bind_of_value hloop, if_pos rfl, Exec.get_bind, htarget, hdata, List.take_left,
      htargetSum, decide_eq_true rfl]
    rfl
  rw [applyBpsPatch_eq, if_neg (by have : magicSize ≤ footerSize := by decide
                                   omega),
    if_neg (not_not.mpr hmagic), if_neg (not_not.mpr hsizes), if_neg (Nat.not_lt.mpr hlong),
    if_neg (not_not.mpr hpasses), hfinish, onBuffer, hdata]

/-- A target that is not shorter than the source is what the call leaves. -/
theorem applyBpsPatch_target (crc32 : List UInt8 → UInt32) (source target : List UInt8)
    (commands : List BpsCommand) (hbuilds : Builds source target commands)
    (hfits : Fits32 source target commands) (hlonger : source.length ≤ target.length) :
    applyBpsPatch crc32 (encodeBps crc32 source target commands) source = .value true target := by
  rw [applyBpsPatch_encode hbuilds hfits, Nat.sub_eq_zero_of_le hlonger, List.replicate_zero,
    List.append_nil]

def crc32Type (data : List UInt8) : UInt32 :=
  let bit (crc : UInt32) : UInt32 := if crc &&& 1 = 1 then (crc >>> 1) ^^^ 0xEDB88320 else crc >>> 1
  let byte (crc : UInt32) (x : UInt8) : UInt32 :=
    (List.range 8).foldl (fun crc _ => bit crc) (crc ^^^ x.toUInt32)
  (data.foldl byte 0xFFFFFFFF) ^^^ 0xFFFFFFFF

/-- The check value of the polynomial. -/
example : crc32Type (['1', '2', '3', '4', '5', '6', '7', '8', '9'].map Char.toUInt8) =
    0xCBF43926 := by decide +kernel

theorem applyBpsPatch_target_longer :
    applyBpsPatch crc32Type
        (encodeBps crc32Type [1] [1, 2, 2] [.sourceRead 1, .targetRead [2], .targetCopy 1 ⟨false, 1⟩])
        [1] = .value true [1, 2, 2] :=
  applyBpsPatch_target _ _ _ _ ⟨by decide, by decide⟩
    ⟨by decide, by decide, by simp [BpsCommand.Fits32, BpsCommand.code, BpsCommand.length,
      BpsCommand.kind, SignedNumber.code]⟩ (by decide)

theorem copyOutput_replicate (value : UInt8) (n k i : Nat) (hi : i ≤ k) :
    copyOutput n (List.replicate (k + 1) value) i = some (List.replicate (k + 1 + n) value) := by
  induction n generalizing k i with
  | zero => rfl
  | succ n ih =>
      have hread : (List.replicate (k + 1) value)[i]? = some value :=
        List.getElem?_replicate_of_lt (by omega)
      rw [copyOutput, hread, Option.bind_some, ← List.replicate_succ', ih (k + 1) (i + 1) (by omega)]
      congr 2
      omega

theorem builds_replicate (value : UInt8) {n : Nat} (hn : 0 < n) :
    Builds [] (List.replicate (n + 1) value) [.targetRead [value], .targetCopy n ⟨false, 0⟩] := by
  refine ⟨by simpa [BpsCommand.length] using hn, ?_⟩
  have hcopy := copyOutput_replicate value n 0 0 le_rfl
  rw [Nat.add_comm (0 + 1) n] at hcopy
  have hone : List.replicate (0 + 1) value = [value] := rfl
  rw [hone] at hcopy
  simp [BpsCommand.runAll, BpsCommand.run, SignedNumber.shift, hcopy]

theorem applyBpsPatch_wraps (hne : target ≠ []) (hwraps : target.length % 2 ^ 32 = 0) :
    applyBpsPatch crc32 (encodeBps crc32 [] target commands) [] ≠ .value true target := by
  intro happly
  have hlength := applyBpsPatch_length happly
  obtain ⟨hsource, htarget, -⟩ := declared_encode [] target commands crc32
  rw [hwraps] at htarget
  rw [prepared, hsource, htarget, if_neg (by simp)] at hlength
  exact hne (List.length_eq_zero_iff.mp hlength)

/-- A shorter target keeps the length of the source, and a size of `2 ^ 32` is read as zero. -/
theorem applyBpsPatch_misses :
    (Builds [1] [] [] ∧
      applyBpsPatch crc32Type (encodeBps crc32Type [1] [] []) [1] ≠ .value true []) ∧
    (Builds [] (List.replicate (4294967295 + 1) 5)
        [.targetRead [5], .targetCopy 4294967295 ⟨false, 0⟩] ∧
      applyBpsPatch crc32Type (encodeBps crc32Type [] (List.replicate (4294967295 + 1) 5)
        [.targetRead [5], .targetCopy 4294967295 ⟨false, 0⟩]) [] ≠
          .value true (List.replicate (4294967295 + 1) 5)) := by
  refine ⟨⟨⟨by simp, rfl⟩, ?_⟩, builds_replicate 5 (by decide), applyBpsPatch_wraps ?_ ?_⟩
  · rw [applyBpsPatch_encode ⟨by simp, rfl⟩ ⟨by simp, by simp, by simp⟩]
    simp
  · exact List.ne_nil_of_length_eq_add_one List.length_replicate
  · rw [List.length_replicate]
    norm_num

end Patches

end Cytrus.FileSys
