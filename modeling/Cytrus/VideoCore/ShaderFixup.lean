import Mathlib
import Cytrus.VideoCore.PicaRegisters
import Cytrus.Support.Runs

/-!
# The program of a shader and its fixups

A shader setup keeps its program code, the hash of what it runs, and for some
games a copy of the code with a fixup. Three flags say whether the hash is out of
date, whether a fixup may still be due, and whether the copy is what is run.

The copy is made of as many bytes as the program has words, and a write of one
word leaves the flags as they are where the hash is out of date already, also if
it is the fixup that has made it so.

## Main results

* `Cached.step`: what the hashes are in every state
* `Fixed.step`: what the copy is, as long as the whole program fits in what is
  copied and no word is written before the hash is asked for
* `coherent_of_run`: both in every run of such calls

## Implementation notes

The hash is any function of words. Hashing more words than the program has is
out of bounds and has no result.
-/

namespace Cytrus.VideoCore.Pica

open Support

/-- `ShaderSetup`, with what the register writes do not touch. -/
structure ShaderProgram extends ShaderSetup where
  requiresFixup : Bool := false
  programCodeFixup : Table UInt32 4096 := Table.fill 4096 0
  programCodeHash : UInt64 := 0
  swizzleDataHash : UInt64 := 0

/-- What a fixup inserts, and where, in bytes. -/
structure Fixup where
  offsetBase : Nat
  movSwizzle : UInt32
  deriving DecidableEq

namespace Fixup

def sega3dClassicsThunderBlade : UInt64 := 0x0797513756f2c8c9
def sega3dClassicsAfterBurner : UInt64 := 0x188e959fbe31324d
def sega3dClassicsCollectionTb : UInt64 := 0x5954c8e4d13cdd86
def sega3dClassicsCollectionPd : UInt64 := 0x27496993b307355b

/-- The fixup of the program with the hash. -/
def select (hash : UInt64) : Option Fixup :=
  if hash = sega3dClassicsThunderBlade then some ⟨0x510, 0xA⟩
  else if hash = sega3dClassicsAfterBurner then some ⟨0x50C, 0xA⟩
  else if hash = sega3dClassicsCollectionTb then some ⟨0xAE0, 0xC⟩
  else if hash = sega3dClassicsCollectionPd then some ⟨0xAF0, 0xC⟩
  else none

variable (f : Fixup)

/-- The first word that is patched. -/
def base : Nat := f.offsetBase / 4

/-- The words that are patched: the inserted one, the seven moved ones and the last one. -/
def Patches (i : Nat) : Prop := (f.base ≤ i ∧ i ≤ f.base + 7) ∨ i = f.base + 0x20

instance (i : Nat) : Decidable (f.Patches i) := inferInstanceAs (Decidable (_ ∨ _))

/-- The code with the fixup: seven words are moved up to insert one, and the end is marked. -/
def patch (code : Table UInt32 4096) : Table UInt32 4096 := fun i =>
  if i.val = f.base + 0x20 then 0x88000000
  else if i.val = f.base then 0x4c000000 ||| f.movSwizzle
  else if f.base < i.val ∧ i.val ≤ f.base + 7 then
    code ⟨i.val - 1, Nat.lt_of_le_of_lt (Nat.sub_le i.val 1) i.isLt⟩
  else code i

/-- The size of a program with the fixup. -/
def enlarge (size : Nat) : Nat := if size ≤ f.base + 0x20 then f.base + 0x20 + 1 else size

variable {f}

theorem patch_of_not_patches {code : Table UInt32 4096} {i : Fin 4096}
    (h : ¬ f.Patches i.val) : f.patch code i = code i := by
  unfold Patches at h
  unfold patch
  rw [if_neg (by omega), if_neg (by omega), if_neg (by omega)]

theorem base_lt_of_select {hash : UInt64} (h : select hash = some f) : f.base + 0x20 < 1024 := by
  unfold select at h
  split_ifs at h <;> (cases h; decide)

end Fixup

namespace ShaderProgram

variable (hash : List UInt32 → UInt64) (s : ShaderProgram)

def firstWords (words : Table UInt32 4096) (size : Nat) : List UInt32 :=
  (List.ofFn words).take size

/-- `ComputeHash64` of the first words. -/
def computeHash (words : Table UInt32 4096) (size : Nat) : Option UInt64 :=
  if size ≤ 4096 then some (hash (firstWords words size)) else none

def getProgramCode : Table UInt32 4096 := if s.hasFixup then s.programCodeFixup else s.programCode

def getProgramCodeHash : Option (UInt64 × ShaderProgram) :=
  if s.programCodeHashDirty then do
    let value ← computeHash hash s.getProgramCode s.biggestProgramSize
    return (value, { s with programCodeHash := value, programCodeHashDirty := false })
  else some (s.programCodeHash, s)

def getSwizzleDataHash : Option (UInt64 × ShaderProgram) :=
  if s.swizzleDataHashDirty then do
    let value ← computeHash hash s.swizzleData s.biggestSwizzleSize
    return (value, { s with swizzleDataHash := value, swizzleDataHashDirty := false })
  else some (s.swizzleDataHash, s)

/-- `prepare_for_fixup`: the copy has `program_code.size()` bytes, a quarter of the words. -/
def prepareForFixup : ShaderProgram :=
  { s with
    programCodeFixup := fun i => if i.val < 1024 then s.programCode i else s.programCodeFixup i
    hasFixup := true
    programCodeHashDirty := true }

def fix3dClassicsCommon (f : Fixup) : ShaderProgram :=
  { s with
    programCodeFixup := f.patch s.programCodeFixup
    biggestProgramSize := f.enlarge s.biggestProgramSize }

def doProgramCodeFixup : Option ShaderProgram :=
  if !s.requiresFixup || !s.programCodePendingFixup then some s
  else do
    let (value, s) ← getProgramCodeHash hash { s with programCodePendingFixup := false }
    match Fixup.select value with
    | none => return s
    | some f => return s.prepareForFixup.fix3dClassicsCommon f

/-- `UpdateProgramCode` of one word. -/
def updateProgramCode (offset : Nat) (value : UInt32) : Option ShaderProgram :=
  (s.toShaderSetup.updateProgramCode offset value).map fun setup => { s with toShaderSetup := setup }

/-- `UpdateProgramCode` of a whole program. -/
def updateProgramCodeWhole (other : Table UInt32 4096) (otherSize : Nat) : ShaderProgram :=
  { s with
    programCode := other
    biggestProgramSize := max s.biggestProgramSize otherSize
    programCodeHashDirty := true
    programCodePendingFixup := true
    hasFixup := false }

/-- `UpdateSwizzleData` of one word. -/
def updateSwizzleData (offset : Nat) (value : UInt32) : Option ShaderProgram :=
  (s.toShaderSetup.updateSwizzleData offset value).map fun setup => { s with toShaderSetup := setup }

/-- `UpdateSwizzleData` of all data. -/
def updateSwizzleDataWhole (other : Table UInt32 4096) (otherSize : Nat) : ShaderProgram :=
  { s with
    swizzleData := other
    biggestSwizzleSize := max s.biggestSwizzleSize otherSize
    swizzleDataHashDirty := true }

inductive Call
  | updateProgramCode (offset : Nat) (value : UInt32)
  | updateProgramCodeWhole (other : Table UInt32 4096) (otherSize : Nat)
  | updateSwizzleData (offset : Nat) (value : UInt32)
  | updateSwizzleDataWhole (other : Table UInt32 4096) (otherSize : Nat)
  | doProgramCodeFixup
  | getProgramCodeHash
  | getSwizzleDataHash

/-- The setup after a call; nothing if it reads or writes out of bounds. -/
def step : Call → Option ShaderProgram
  | .updateProgramCode offset value => s.updateProgramCode offset value
  | .updateProgramCodeWhole other otherSize => some (s.updateProgramCodeWhole other otherSize)
  | .updateSwizzleData offset value => s.updateSwizzleData offset value
  | .updateSwizzleDataWhole other otherSize => some (s.updateSwizzleDataWhole other otherSize)
  | .doProgramCodeFixup => s.doProgramCodeFixup hash
  | .getProgramCodeHash => (s.getProgramCodeHash hash).map Prod.snd
  | .getSwizzleDataHash => (s.getSwizzleDataHash hash).map Prod.snd

/-- A new setup, with either value of `requires_fixup`. -/
def initial (requiresFixup : Bool) : ShaderProgram := { requiresFixup }

/-! ## What the calls do -/

variable {hash s} {s' : ShaderProgram}

theorem updateProgramCode_cases {offset : Nat} {value : UInt32}
    (h : s.updateProgramCode offset value = some s') :
    ∃ hlt : offset < 4096, (s.programCode ⟨offset, hlt⟩ = value ∧ s' = s) ∨
      (s.programCode ⟨offset, hlt⟩ ≠ value ∧ s' = { s with
        programCode := Function.update s.programCode ⟨offset, hlt⟩ value
        programCodeHashDirty := true
        programCodePendingFixup := s.programCodePendingFixup || !s.programCodeHashDirty
        hasFixup := s.hasFixup && s.programCodeHashDirty
        biggestProgramSize := max s.biggestProgramSize (offset + 1) }) := by
  obtain ⟨setup, hsetup, rfl⟩ := Option.map_eq_some_iff.mp h
  unfold ShaderSetup.updateProgramCode at hsetup
  by_cases hlt : offset < 4096
  · refine ⟨hlt, ?_⟩
    rw [Table.get?_of_lt _ hlt, Table.set?_of_lt _ _ hlt] at hsetup
    by_cases hsame : s.programCode ⟨offset, hlt⟩ = value
    · left
      rw [Option.bind_eq_bind, Option.bind_some, if_pos hsame] at hsetup
      cases hsetup
      exact ⟨hsame, rfl⟩
    · right
      rw [Option.bind_eq_bind, Option.bind_some, if_neg hsame] at hsetup
      cases hsetup
      refine ⟨hsame, ?_⟩
      cases hdirty : s.programCodeHashDirty with
      | true => simp
      | false => simp [ShaderSetup.makeProgramCodeDirty]
  · have hnone : s.programCode.get? offset = none := dif_neg hlt
    rw [hnone] at hsetup
    cases hsetup

theorem updateSwizzleData_cases {offset : Nat} {value : UInt32}
    (h : s.updateSwizzleData offset value = some s') :
    s' = s ∨ ∃ data size, s' = { s with
      swizzleData := data, swizzleDataHashDirty := true, biggestSwizzleSize := size } := by
  unfold updateSwizzleData ShaderSetup.updateSwizzleData at h
  simp only [Option.map_eq_some_iff, Option.bind_eq_bind, Option.bind_eq_some_iff] at h
  obtain ⟨setup, ⟨old, -, h⟩, rfl⟩ := h
  split_ifs at h
  · left
    cases h
    rfl
  · right
    obtain ⟨data, -, h⟩ := Option.bind_eq_some_iff.mp h
    cases h
    exact ⟨data, _, rfl⟩

theorem getProgramCodeHash_cases {value : UInt64}
    (h : s.getProgramCodeHash hash = some (value, s')) :
    (s.programCodeHashDirty = true ∧
      value = hash (firstWords s.getProgramCode s.biggestProgramSize) ∧
      s' = { s with programCodeHash := value, programCodeHashDirty := false }) ∨
    (s.programCodeHashDirty = false ∧ value = s.programCodeHash ∧ s' = s) := by
  unfold getProgramCodeHash computeHash at h
  split_ifs at h with hdirty hsize
  · left
    cases h
    exact ⟨hdirty, rfl, rfl⟩
  · cases h
  · right
    cases h
    exact ⟨by simpa using hdirty, rfl, rfl⟩

theorem getSwizzleDataHash_cases {value : UInt64}
    (h : s.getSwizzleDataHash hash = some (value, s')) :
    (s.swizzleDataHashDirty = true ∧
      value = hash (firstWords s.swizzleData s.biggestSwizzleSize) ∧
      s' = { s with swizzleDataHash := value, swizzleDataHashDirty := false }) ∨
    (s.swizzleDataHashDirty = false ∧ value = s.swizzleDataHash ∧ s' = s) := by
  unfold getSwizzleDataHash computeHash at h
  split_ifs at h with hdirty hsize
  · left
    cases h
    exact ⟨hdirty, rfl, rfl⟩
  · cases h
  · right
    cases h
    exact ⟨by simpa using hdirty, rfl, rfl⟩

/-! ## The hashes -/

/-- A hash that is not out of date is the one of what is there, and a fixup that is due is not
there yet. -/
structure Cached (hash : List UInt32 → UInt64) (s : ShaderProgram) : Prop where
  programCodeHash : s.programCodeHashDirty = false →
    s.programCodeHash = hash (firstWords s.getProgramCode s.biggestProgramSize)
  swizzleDataHash : s.swizzleDataHashDirty = false →
    s.swizzleDataHash = hash (firstWords s.swizzleData s.biggestSwizzleSize)
  pending : s.programCodePendingFixup = true → s.hasFixup = false

theorem cached_initial (hash : List UInt32 → UInt64) (requiresFixup : Bool) :
    (initial requiresFixup).Cached hash where
  programCodeHash h := by cases h
  swizzleDataHash h := by cases h
  pending _ := rfl

namespace Cached

theorem getProgramCodeHash {value : UInt64} (hs : s.Cached hash)
    (h : s.getProgramCodeHash hash = some (value, s')) :
    value = hash (firstWords s.getProgramCode s.biggestProgramSize) ∧
      s' = { s with programCodeHash := value, programCodeHashDirty := false } := by
  rcases getProgramCodeHash_cases h with ⟨-, hvalue, hs'⟩ | ⟨hclean, rfl, rfl⟩
  · exact ⟨hvalue, hs'⟩
  · refine ⟨hs.programCodeHash hclean, ?_⟩
    simp only [← hclean]

theorem getSwizzleDataHash {value : UInt64} (hs : s.Cached hash)
    (h : s.getSwizzleDataHash hash = some (value, s')) :
    value = hash (firstWords s.swizzleData s.biggestSwizzleSize) ∧
      s' = { s with swizzleDataHash := value, swizzleDataHashDirty := false } := by
  rcases getSwizzleDataHash_cases h with ⟨-, hvalue, hs'⟩ | ⟨hclean, rfl, rfl⟩
  · exact ⟨hvalue, hs'⟩
  · refine ⟨hs.swizzleDataHash hclean, ?_⟩
    simp only [← hclean]

theorem doProgramCodeFixup (hs : s.Cached hash) (h : s.doProgramCodeFixup hash = some s') :
    s' = s ∨ (s.requiresFixup = true ∧ s.programCodePendingFixup = true ∧
      ∃ t : ShaderProgram, t = { s with
          programCodePendingFixup := false
          programCodeHash := hash (firstWords s.programCode s.biggestProgramSize)
          programCodeHashDirty := false } ∧
        ((Fixup.select (hash (firstWords s.programCode s.biggestProgramSize)) = none ∧ s' = t) ∨
          ∃ f, Fixup.select (hash (firstWords s.programCode s.biggestProgramSize)) = some f ∧
            s' = t.prepareForFixup.fix3dClassicsCommon f)) := by
  unfold ShaderProgram.doProgramCodeFixup at h
  split_ifs at h with hskip
  · exact .inl (Option.some.inj h).symm
  · right
    rw [Bool.or_eq_true, not_or, Bool.not_eq_true', Bool.not_eq_true', Bool.not_eq_false,
      Bool.not_eq_false] at hskip
    obtain ⟨⟨value, t⟩, hvalue, hrest⟩ := Option.bind_eq_some_iff.mp h
    have hclean : ({ s with programCodePendingFixup := false } : ShaderProgram).Cached hash :=
      ⟨hs.programCodeHash, hs.swizzleDataHash, (fun hfalse => by cases hfalse)⟩
    have hcode : ({ s with programCodePendingFixup := false } : ShaderProgram).getProgramCode =
        s.programCode := by
      unfold getProgramCode
      rw [if_neg]
      simpa using hs.pending hskip.2
    obtain ⟨hvalue', hstate⟩ := hclean.getProgramCodeHash hvalue
    rw [hcode] at hvalue'
    subst hvalue'
    refine ⟨hskip.1, hskip.2, t, hstate, ?_⟩
    dsimp only at hrest
    split at hrest
    next hnone =>
      cases hrest
      exact .inl ⟨hnone, rfl⟩
    next f hsome =>
      cases hrest
      exact .inr ⟨f, hsome, rfl⟩

theorem step {call : Call} (hs : s.Cached hash) (h : s.step hash call = some s') :
    s'.Cached hash := by
  cases call with
  | updateProgramCode offset value =>
      obtain ⟨_, ⟨-, rfl⟩ | ⟨-, rfl⟩⟩ := updateProgramCode_cases h
      · exact hs
      · refine ⟨(fun hclean => by cases hclean), hs.swizzleDataHash, fun hpending => ?_⟩
        dsimp only at hpending ⊢
        cases hdirty : s.programCodeHashDirty with
        | true =>
            rw [hdirty, Bool.not_true, Bool.or_false] at hpending
            rw [hs.pending hpending, Bool.false_and]
        | false => rw [Bool.and_false]
  | updateProgramCodeWhole other otherSize =>
      cases h
      exact ⟨(fun hclean => by cases hclean), hs.swizzleDataHash, fun _ => rfl⟩
  | updateSwizzleData offset value =>
      obtain rfl | ⟨data, size, rfl⟩ := updateSwizzleData_cases h
      · exact hs
      · exact ⟨hs.programCodeHash, (fun hclean => by cases hclean), hs.pending⟩
  | updateSwizzleDataWhole other otherSize =>
      cases h
      exact ⟨hs.programCodeHash, (fun hclean => by cases hclean), hs.pending⟩
  | doProgramCodeFixup =>
      obtain rfl | ⟨-, hpending, t, rfl, ⟨-, rfl⟩ | ⟨f, -, rfl⟩⟩ := hs.doProgramCodeFixup h
      · exact hs
      · refine ⟨fun _ => ?_, hs.swizzleDataHash, (fun hfalse => by cases hfalse)⟩
        unfold getProgramCode
        rw [if_neg]
        simpa using hs.pending hpending
      · exact ⟨(fun hclean => by cases hclean), hs.swizzleDataHash, (fun hfalse => by cases hfalse)⟩
  | getProgramCodeHash =>
      obtain ⟨⟨value, t⟩, hvalue, rfl⟩ := Option.map_eq_some_iff.mp h
      obtain ⟨hright, rfl⟩ := hs.getProgramCodeHash hvalue
      exact ⟨fun _ => hright, hs.swizzleDataHash, hs.pending⟩
  | getSwizzleDataHash =>
      obtain ⟨⟨value, t⟩, hvalue, rfl⟩ := Option.map_eq_some_iff.mp h
      obtain ⟨hright, rfl⟩ := hs.getSwizzleDataHash hvalue
      exact ⟨hs.programCodeHash, fun _ => hright, hs.pending⟩

end Cached

/-! ## The copy -/

/-- The copy is the program with its fixup wherever it is what is run. -/
structure Fixed (hash : List UInt32 → UInt64) (s : ShaderProgram) : Prop where
  rest : ∀ i : Fin 4096, 1024 ≤ i.val → s.programCodeFixup i = 0
  fixup : s.hasFixup = true → ∃ size f, f.enlarge size = s.biggestProgramSize ∧
    Fixup.select (hash (firstWords s.programCode size)) = some f ∧
      s.programCodeFixup = f.patch s.programCode

/-- A word is not changed while a fixup has put the hash out of date, and no fixup is made of a
program with words that are not copied. -/
def Careful (hash : List UInt32 → UInt64) (s : ShaderProgram) : Call → Prop
  | .updateProgramCode offset value =>
      s.hasFixup = true → s.programCodeHashDirty = true → s.programCode.get? offset = some value
  | .doProgramCodeFixup =>
      s.requiresFixup = true → s.programCodePendingFixup = true →
        Fixup.select (hash (firstWords s.programCode s.biggestProgramSize)) ≠ none →
          ∀ i : Fin 4096, 1024 ≤ i.val → s.programCode i = 0
  | _ => True

theorem fixed_initial (hash : List UInt32 → UInt64) (requiresFixup : Bool) :
    (initial requiresFixup).Fixed hash where
  rest _ _ := rfl
  fixup h := by cases h

theorem prepareForFixup_programCodeFixup (hs : s.Fixed hash)
    (hzero : ∀ i : Fin 4096, 1024 ≤ i.val → s.programCode i = 0) :
    s.prepareForFixup.programCodeFixup = s.programCode := by
  funext i
  unfold prepareForFixup
  dsimp only
  split_ifs with hi
  · rfl
  · rw [hs.rest i (Nat.le_of_not_lt hi), hzero i (Nat.le_of_not_lt hi)]

/-- The copy stays the program with its fixup after a careful call. -/
theorem Fixed.step {call : Call} (hs : s.Fixed hash) (hcached : s.Cached hash)
    (hcareful : s.Careful hash call) (h : s.step hash call = some s') : s'.Fixed hash := by
  cases call with
  | updateProgramCode offset value =>
      obtain ⟨hlt, ⟨-, rfl⟩ | ⟨hne, rfl⟩⟩ := updateProgramCode_cases h
      · exact hs
      · refine ⟨hs.rest, fun hfixup => ?_⟩
        rw [Bool.and_eq_true] at hfixup
        have hsame := hcareful hfixup.1 hfixup.2
        rw [Table.get?_of_lt _ hlt, Option.some.injEq] at hsame
        exact absurd hsame hne
  | updateProgramCodeWhole other otherSize =>
      cases h
      exact ⟨hs.rest, (fun hfixup => by cases hfixup)⟩
  | updateSwizzleData offset value =>
      obtain rfl | ⟨data, size, rfl⟩ := updateSwizzleData_cases h
      · exact hs
      · exact ⟨hs.rest, hs.fixup⟩
  | updateSwizzleDataWhole other otherSize =>
      cases h
      exact ⟨hs.rest, hs.fixup⟩
  | doProgramCodeFixup =>
      obtain rfl | ⟨hrequires, hpending, t, rfl, ⟨-, rfl⟩ | ⟨f, hf, rfl⟩⟩ :=
        hcached.doProgramCodeFixup h
      · exact hs
      · exact ⟨hs.rest, hs.fixup⟩
      · have hzero := hcareful hrequires hpending (by simp [hf])
        have hhashed : Fixed hash { s with
            programCodePendingFixup := false
            programCodeHash := hash (firstWords s.programCode s.biggestProgramSize)
            programCodeHashDirty := false } := ⟨hs.rest, hs.fixup⟩
        have hcopy := prepareForFixup_programCodeFixup hhashed hzero
        unfold fix3dClassicsCommon
        rw [hcopy]
        refine ⟨fun i hi => ?_, fun _ => ⟨s.biggestProgramSize, f, rfl, hf, rfl⟩⟩
        have hbase := Fixup.base_lt_of_select hf
        have hpatch : f.patch s.programCode i = s.programCode i := by
          apply Fixup.patch_of_not_patches
          unfold Fixup.Patches
          omega
        exact hpatch.trans (hzero i hi)
  | getProgramCodeHash =>
      obtain ⟨⟨value, t⟩, hvalue, rfl⟩ := Option.map_eq_some_iff.mp h
      obtain ⟨-, rfl⟩ := hcached.getProgramCodeHash hvalue
      exact ⟨hs.rest, hs.fixup⟩
  | getSwizzleDataHash =>
      obtain ⟨⟨value, t⟩, hvalue, rfl⟩ := Option.map_eq_some_iff.mp h
      obtain ⟨-, rfl⟩ := hcached.getSwizzleDataHash hvalue
      exact ⟨hs.rest, hs.fixup⟩

/-! ## Runs -/

/-- What is run is the program but for words that the fixup of this program patches, as it was
chosen with the size before the fixup. -/
def Coherent (hash : List UInt32 → UInt64) (s : ShaderProgram) : Prop :=
  ∀ i : Fin 4096, s.getProgramCode i = s.programCode i ∨
    ∃ size f, f.enlarge size = s.biggestProgramSize ∧
      Fixup.select (hash (firstWords s.programCode size)) = some f ∧ f.Patches i.val

/-- A hash that is asked for is the one of the first words of what is there. -/
def HashesRight (hash : List UInt32 → UInt64) (s : ShaderProgram) : Prop :=
  (∀ value s', s.getProgramCodeHash hash = some (value, s') →
    value = hash (firstWords s.getProgramCode s.biggestProgramSize)) ∧
  ∀ value s', s.getSwizzleDataHash hash = some (value, s') →
    value = hash (firstWords s.swizzleData s.biggestSwizzleSize)

theorem Fixed.coherent (hs : s.Fixed hash) : s.Coherent hash := by
  intro i
  unfold getProgramCode
  split_ifs with hfixup
  · obtain ⟨size, f, hsize, hf, hcopy⟩ := hs.fixup hfixup
    by_cases hi : f.Patches i.val
    · exact .inr ⟨size, f, hsize, hf, hi⟩
    · rw [hcopy, Fixup.patch_of_not_patches hi]
      exact .inl rfl
  · exact .inl rfl

theorem Cached.hashesRight (hs : s.Cached hash) : s.HashesRight hash :=
  ⟨fun _ _ h => (hs.getProgramCodeHash h).1, fun _ _ h => (hs.getSwizzleDataHash h).1⟩

/-- In every run of careful calls, what is run is the program with its fixup, and the hashes are
those of what is there. -/
theorem coherent_of_run (hash : List UInt32 → UInt64) (requiresFixup : Bool)
    {steps : List (ShaderProgram × Call)} {s : ShaderProgram}
    (h : Run (fun s call => s.step hash call) (initial requiresFixup) steps s)
    (hcareful : ∀ x ∈ steps, x.1.Careful hash x.2) : s.Coherent hash ∧ s.HashesRight hash := by
  have hinv := (h.invariant_of (I := fun s => s.Cached hash ∧ s.Fixed hash)
    ⟨cached_initial hash requiresFixup, fixed_initial hash requiresFixup⟩
    (fun _ _ _ hs hcall hstep => ⟨hs.1.step hstep, hs.2.step hs.1 hcall hstep⟩) hcareful).1
  exact ⟨hinv.2.coherent, hinv.1.hashesRight⟩

/-- A hash for which a fixup is always chosen. -/
def constantHash (_ : List UInt32) : UInt64 := Fixup.sega3dClassicsThunderBlade

/-- A new setup after its fixup. -/
def fixedUp : ShaderProgram :=
  ({ initial true with
    programCodePendingFixup := false
    programCodeHash := Fixup.sega3dClassicsThunderBlade
    programCodeHashDirty := false } : ShaderProgram).prepareForFixup.fix3dClassicsCommon ⟨0x510, 0xA⟩

theorem run_fixedUp : Run (fun s call => s.step constantHash call) (initial true)
    [(initial true, .doProgramCodeFixup)] fixedUp :=
  Run.nil.snoc rfl

theorem coherent_fixedUp : fixedUp.Coherent constantHash ∧ fixedUp.HashesRight constantHash :=
  coherent_of_run constantHash true run_fixedUp (by
    intro x hx
    rw [List.mem_singleton.mp hx]
    exact fun _ _ _ _ _ => rfl)

/-- A word that is written right after the fixup does not reach what is run. -/
theorem fixedUp_not_coherent : ∃ steps s,
    Run (fun s call => ShaderProgram.step constantHash s call) (initial true) steps s ∧
      ¬ s.Coherent constantHash := by
  refine ⟨_, _, run_fixedUp.snoc (a := .updateProgramCode 0 1) rfl, fun h => ?_⟩
  rcases h ⟨0, Nat.zero_lt_succ 4095⟩ with hsame | ⟨size, f, -, hf, hpatches⟩
  · exact absurd hsame (by decide)
  · cases Option.some.inj hf
    exact absurd hpatches (by decide)

end ShaderProgram

end Cytrus.VideoCore.Pica
