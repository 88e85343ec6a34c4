import Mathlib.Tactic

/-!
# Gateway cheats

The lines of a cheat are run one after the other: `GatewayCheat::Execute`. A
loop jumps back to its first line, and a failed condition skips a block.

## Implementation notes

The memory of the process, and the pad, are behind a `Platform`. What an access
behind the last line reads is up to it, too. A line number is an integer: the
source computes `loop_back_line - 1` in 64 bits, and the loop adds one again.
-/

namespace Cytrus.Cheats

/-- `CheatType`. The numbers that the source gives no name are one value here. -/
inductive CheatType where
  | null
  | write32
  | write16
  | write8
  | greaterThan32
  | lessThan32
  | equalTo32
  | notEqualTo32
  | greaterThan16WithMask
  | lessThan16WithMask
  | equalTo16WithMask
  | notEqualTo16WithMask
  | loadOffset
  | loop
  | terminator
  | loopExecuteVariant
  | fullTerminator
  | setOffset
  | addValue
  | setValue
  | incrementiveWrite32
  | incrementiveWrite16
  | incrementiveWrite8
  | load32
  | load16
  | load8
  | addOffset
  | joker
  | patch
  | unnamed
  deriving DecidableEq, Repr

/-- The part of a `CheatLine` that is executed. -/
structure Instruction where
  type : CheatType
  address : UInt32 := 0
  value : UInt32 := 0
  first : UInt32 := 0
  deriving DecidableEq, Repr

/-- What a cheat is executed on. -/
structure Platform (μ : Type*) where
  read8 : μ → UInt32 → UInt8
  read16 : μ → UInt32 → UInt16
  read32 : μ → UInt32 → UInt32
  write8 : μ → UInt32 → UInt8 → μ
  write16 : μ → UInt32 → UInt16 → μ
  write32 : μ → UInt32 → UInt32 → μ
  invalidateCacheRange : μ → UInt32 → UInt32 → μ
  padState : μ → UInt32
  /-- What an access behind the last line reads. -/
  behind : Int → Instruction

structure State where
  reg : UInt32 := 0
  offset : UInt32 := 0
  ifFlag : UInt32 := 0
  loopCount : UInt32 := 0
  loopBackLine : Int := 0
  currentLineNr : Int := 0
  loopFlag : Bool := false
  deriving DecidableEq, Repr

/-- The state of a run, and the memory. -/
structure Machine (μ : Type*) where
  state : State := {}
  memory : μ
  deriving DecidableEq, Repr

variable {μ : Type*}

/-! ## Operations -/

section Operations

def writeOp {T : Type} [DecidableEq T] (platform : Platform μ) (read : μ → UInt32 → T)
    (write : μ → UInt32 → T → μ) (cast : UInt32 → T) (size : UInt32) (line : Instruction)
    (m : Machine μ) : Machine μ :=
  let addr := line.address + m.state.offset
  if read m.memory addr ≠ cast line.value then
    { m with memory := platform.invalidateCacheRange (write m.memory addr (cast line.value)) addr size }
  else m

def compOp {T : Type} (read : μ → UInt32 → T) (comp : T → Bool) (line : Instruction) (m : Machine μ) :
    Machine μ :=
  let addr := line.address + m.state.offset
  if comp (read m.memory addr) then m
  else { m with state.ifFlag := m.state.ifFlag + 1 }

def loadOffsetOp (platform : Platform μ) (line : Instruction) (m : Machine μ) : Machine μ :=
  { m with state.offset := platform.read32 m.memory (line.address + m.state.offset) }

def loopOp (line : Instruction) (s : State) : State :=
  { s with
    loopFlag := s.loopCount < line.value
    loopCount := s.loopCount + 1
    loopBackLine := s.currentLineNr }

def terminateOp (s : State) : State := if 0 < s.ifFlag then { s with ifFlag := s.ifFlag - 1 } else s

def loopExecuteVariantOp (s : State) : State :=
  if s.loopFlag then { s with currentLineNr := s.loopBackLine - 1 } else { s with loopCount := 0 }

def fullTerminateOp (s : State) : State :=
  if s.loopFlag then { s with currentLineNr := s.loopBackLine - 1 }
  else { s with offset := 0, reg := 0, loopCount := 0, ifFlag := 0, loopFlag := false }

def setOffsetOp (line : Instruction) (s : State) : State := { s with offset := line.value }

def addValueOp (line : Instruction) (s : State) : State := { s with reg := s.reg + line.value }

def setValueOp (line : Instruction) (s : State) : State := { s with reg := line.value }

def incrementiveWriteOp {T : Type} [DecidableEq T] (platform : Platform μ) (read : μ → UInt32 → T)
    (write : μ → UInt32 → T → μ) (cast : UInt32 → T) (size : UInt32) (line : Instruction)
    (m : Machine μ) : Machine μ :=
  let addr := line.value + m.state.offset
  let memory :=
    if read m.memory addr ≠ cast m.state.reg then
      platform.invalidateCacheRange (write m.memory addr (cast m.state.reg)) addr size
    else m.memory
  { m with memory, state.offset := m.state.offset + size }

def loadOp (read : μ → UInt32 → UInt32) (line : Instruction) (m : Machine μ) : Machine μ :=
  { m with state.reg := read m.memory (line.value + m.state.offset) }

def addOffsetOp (line : Instruction) (s : State) : State := { s with offset := s.offset + line.value }

def jokerOp (platform : Platform μ) (line : Instruction) (m : Machine μ) : Machine μ :=
  if platform.padState m.memory &&& line.value = line.value then m
  else { m with state.ifFlag := m.state.ifFlag + 1 }

/-- `cheat_lines[nr]`. -/
def lineAt (platform : Platform μ) (lines : List Instruction) (nr : Int) : Instruction :=
  (lines[nr.toNat]?).getD (platform.behind nr)

/-- The variables of the loops of `PatchOp`. -/
structure PatchState (μ : Type*) where
  numBytes : Nat
  addr : UInt32
  first : Bool := true
  bitOffset : UInt32 := 0
  currentLineNr : Int
  memory : μ

/-- The value that comes next, out of the line. -/
def PatchState.tmp (platform : Platform μ) (lines : List Instruction) (p : PatchState μ) : UInt32 :=
  let line := lineAt platform lines p.currentLineNr
  if p.first then line.first else line.value

/-- The body of the first loop of `PatchOp`. -/
def PatchState.word (platform : Platform μ) (lines : List Instruction) (p : PatchState μ) :
    PatchState μ :=
  { p with
    currentLineNr := if !p.first ∧ 4 < p.numBytes then p.currentLineNr + 1 else p.currentLineNr
    first := !p.first
    memory := platform.write32 p.memory p.addr (p.tmp platform lines)
    addr := p.addr + 4
    numBytes := p.numBytes - 4 }

/-- The body of the second loop of `PatchOp`. -/
def PatchState.byte (platform : Platform μ) (lines : List Instruction) (p : PatchState μ) :
    PatchState μ :=
  { p with
    memory := platform.write8 p.memory p.addr (p.tmp platform lines >>> p.bitOffset).toUInt8
    addr := p.addr + 1
    numBytes := p.numBytes - 1
    bitOffset := p.bitOffset + 8 }

/-- `PatchOp`. The loops take four bytes, and then one byte, at a time. -/
def patchOp (platform : Platform μ) (lines : List Instruction) (line : Instruction) (m : Machine μ) :
    Machine μ :=
  if 0 < m.state.ifFlag then
    -- skip over the additional patch lines
    { m with state.currentLineNr := m.state.currentLineNr + (line.value.toNat + 7) / 8 }
  else
    let numBytes := line.value.toNat
    let addr := line.address + m.state.offset
    let start : PatchState μ := {
      numBytes
      addr
      currentLineNr := if 0 < numBytes then m.state.currentLineNr + 1 else m.state.currentLineNr
      memory := platform.invalidateCacheRange m.memory addr line.value }
    let p := (PatchState.byte platform lines)^[numBytes % 4]
      ((PatchState.word platform lines)^[numBytes / 4] start)
    { m with state.currentLineNr := p.currentLineNr, memory := p.memory }

end Operations

/-! ## Execution -/

section Execution

variable (platform : Platform μ) (lines : List Instruction)

/-- A line in a skipped block. -/
def skipLine (line : Instruction) (m : Machine μ) : Machine μ :=
  match line.type with
  | .greaterThan32 | .lessThan32 | .equalTo32 | .notEqualTo32 | .greaterThan16WithMask
  | .lessThan16WithMask | .equalTo16WithMask | .notEqualTo16WithMask | .joker =>
      { m with state.ifFlag := m.state.ifFlag + 1 }
  | .patch => patchOp platform lines line m
  | .terminator => { m with state := terminateOp m.state }
  | .fullTerminator => { m with state := fullTerminateOp m.state }
  | _ => m

/-- A comparison of the low half of a line with what its high half leaves of a value. -/
def masked (comp : UInt16 → UInt16 → Bool) (line : Instruction) (val : UInt16) : Bool :=
  comp line.value.toUInt16 ((~~~line.value >>> 16).toUInt16 &&& val)

/-- A line outside of a skipped block. -/
def executeLine (line : Instruction) (m : Machine μ) : Machine μ :=
  match line.type with
  | .null | .unnamed => m
  | .write32 => writeOp platform platform.read32 platform.write32 id 4 line m
  | .write16 => writeOp platform platform.read16 platform.write16 UInt32.toUInt16 2 line m
  | .write8 => writeOp platform platform.read8 platform.write8 UInt32.toUInt8 1 line m
  | .greaterThan32 => compOp platform.read32 (fun val => line.value > val) line m
  | .lessThan32 => compOp platform.read32 (fun val => line.value < val) line m
  | .equalTo32 => compOp platform.read32 (fun val => line.value = val) line m
  | .notEqualTo32 => compOp platform.read32 (fun val => line.value ≠ val) line m
  | .greaterThan16WithMask => compOp platform.read16 (masked (· > ·) line) line m
  | .lessThan16WithMask => compOp platform.read16 (masked (· < ·) line) line m
  | .equalTo16WithMask => compOp platform.read16 (masked (· = ·) line) line m
  | .notEqualTo16WithMask => compOp platform.read16 (masked (· ≠ ·) line) line m
  | .loadOffset => loadOffsetOp platform line m
  | .loop => { m with state := loopOp line m.state }
  | .terminator => { m with state := terminateOp m.state }
  | .loopExecuteVariant => { m with state := loopExecuteVariantOp m.state }
  | .fullTerminator => { m with state := fullTerminateOp m.state }
  | .setOffset => { m with state := setOffsetOp line m.state }
  | .addValue => { m with state := addValueOp line m.state }
  | .setValue => { m with state := setValueOp line m.state }
  | .incrementiveWrite32 => incrementiveWriteOp platform platform.read32 platform.write32 id 4 line m
  | .incrementiveWrite16 =>
      incrementiveWriteOp platform platform.read16 platform.write16 UInt32.toUInt16 2 line m
  | .incrementiveWrite8 =>
      incrementiveWriteOp platform platform.read8 platform.write8 UInt32.toUInt8 1 line m
  | .load32 => loadOp platform.read32 line m
  | .load16 => loadOp (fun memory addr => (platform.read16 memory addr).toUInt32) line m
  | .load8 => loadOp (fun memory addr => (platform.read8 memory addr).toUInt32) line m
  | .addOffset => { m with state := addOffsetOp line m.state }
  | .joker => jokerOp platform line m
  | .patch => patchOp platform lines line m

/-- The loop has run past the last line. -/
def Finished (m : Machine μ) : Prop := (lines.length : Int) ≤ m.state.currentLineNr

instance (m : Machine μ) : Decidable (Finished lines m) := inferInstanceAs (Decidable (_ ≤ _))

/-- One iteration of the loop of `Execute`. -/
def iteration (m : Machine μ) : Machine μ :=
  if Finished lines m then m
  else
    let line := lineAt platform lines m.state.currentLineNr
    let m := if 0 < m.state.ifFlag then skipLine platform lines line m
      else executeLine platform lines line m
    { m with state.currentLineNr := m.state.currentLineNr + 1 }

/-- `Execute`, after so many iterations. -/
def execute (memory : μ) (iterations : Nat) : Machine μ :=
  (iteration platform lines)^[iterations] { memory }

/-- `Execute` comes to an end. -/
def Finishes (memory : μ) : Prop := ∃ n, Finished lines (execute platform lines memory n)

end Execution

end Cytrus.Cheats
