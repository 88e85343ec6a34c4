import Mathlib
import Cytrus.VideoCore.PicaRegisters
import Cytrus.Support.Walks

/-!
# Command lists

A command is a value, a header, and as many extra words as the header says; each
word is written to a register. Commands start at even words. A write may switch
to another list or stop the processing, also between two words of a command. The
length of the list is looked at before a command only, and before the index is
made even.

## Main results

* `extras_inside_iff`: the words that a command takes from the lists it comes to
* `command_inside_iff`: the commands that are read inside of their lists
* `reads_inside_iff`: the same for whole runs, of the processing and of the guess

## Implementation notes

What a physical address points to is a sequence of words, and an address is all
that is known of a list beside its length. A write that is out of bounds in one
of the tables of the core has no result, and nothing is read after it.
-/

namespace Cytrus.VideoCore.Pica

open Support

structure CommandList where
  addr : UInt32
  currentIndex : Nat
  length : Nat
  deriving DecidableEq

/-- A word that is read, by its index, and the length of the list at that time. -/
structure Read where
  index : Nat
  length : Nat
  deriving DecidableEq

def Read.Inside (r : Read) : Prop := r.index < r.length

instance (r : Read) : Decidable r.Inside := inferInstanceAs (Decidable (_ < _))

namespace CommandList

variable (list : CommandList)

/-- `Reset`, with the size in bytes. -/
def reset (addr size : UInt32) : CommandList := ⟨addr, 0, size.toNat / 4⟩

def advance : CommandList := { list with currentIndex := list.currentIndex + 1 }

def align : CommandList := if list.currentIndex % 2 ≠ 0 then list.advance else list

def read : Read := ⟨list.currentIndex, list.length⟩

end CommandList

structure CommandHeader where
  hex : UInt32

namespace CommandHeader

variable (header : CommandHeader)

def cmdId : UInt32 := bits 0 16 header.hex
def parameterMask : Fin 16 :=
  ⟨(bits 16 4 header.hex).toNat % 16, Nat.mod_lt _ (Nat.succ_pos 15)⟩
def extraDataLength : UInt32 := bits 20 8 header.hex
def groupCommands : UInt32 := bits 31 1 header.hex

/-- The register that an extra word is written to. -/
def extraId (i : Nat) : UInt32 :=
  header.cmdId + if header.groupCommands ≠ 0 then UInt32.ofNat i + 1 else 0

end CommandHeader

/-! ## One command -/

/-- What a write leaves: the list that it has switched to, and whether it ends the command. -/
structure Written (σ : Type) where
  state : σ
  list : Option CommandList
  halt : Bool

section Command

variable {σ : Type} (words : UInt32 → Nat → UInt32)
  (write : σ → UInt32 → UInt32 → Fin 16 → Option (Written σ)) (header : CommandHeader)

/-- The word at the index of a list. -/
def CommandList.word (list : CommandList) : UInt32 := words list.addr list.currentIndex

/-- The loop over the extra words, with what it reads. -/
def extras : Nat → Nat → σ → CommandList → List Read × Option (σ × CommandList)
  | 0, _, s, list => ([], some (s, list))
  | left + 1, i, s, list =>
      match write s (header.extraId i) (list.word words) header.parameterMask with
      | none => ([list.read], none)
      | some w =>
          if w.halt then ([list.read], some (w.state, w.list.getD list.advance))
          else
            let rest := extras left (i + 1) w.state (w.list.getD list.advance)
            (list.read :: rest.1, rest.2)

/-- A command, with what it reads, what it leaves, and whether its first write has ended it. -/
def command (s : σ) (list : CommandList) : List Read × Option (σ × CommandList × Bool) :=
  let first := list.align
  let header : CommandHeader := ⟨first.advance.word words⟩
  let reads := [first.read, first.advance.read]
  match write s header.cmdId (first.word words) header.parameterMask with
  | none => (reads, none)
  | some w =>
      let next := w.list.getD first.advance.advance
      if w.halt then (reads, some (w.state, next, true))
      else
        let rest := extras words write header header.extraDataLength.toNat 0 w.state next
        (reads ++ rest.1, rest.2.map fun last => (last.1, last.2, false))

/-! ### What fits -/

/-- The extra words that are taken from the present list: up to the end of the command, or to a
write that ends it or switches to another list. -/
def taken : Nat → Nat → σ → CommandList → Nat
  | 0, _, _, _ => 0
  | left + 1, i, s, list =>
      match write s (header.extraId i) (list.word words) header.parameterMask with
      | none => 1
      | some w => if w.halt || w.list.isSome then 1 else 1 + taken left (i + 1) w.state list.advance

/-- The lists that are switched to have the words that the command then takes from them. With
`fresh`, that goes for the present list too. -/
def ExtrasFit : Bool → Nat → Nat → σ → CommandList → Prop
  | _, 0, _, _, _ => True
  | fresh, left + 1, i, s, list =>
      (fresh = true →
        list.currentIndex + taken words write header (left + 1) i s list ≤ list.length) ∧
      match write s (header.extraId i) (list.word words) header.parameterMask with
      | none => True
      | some w => w.halt = true ∨
          ExtrasFit w.list.isSome left (i + 1) w.state (w.list.getD list.advance)

/-- From the even index on, the list has the two words of a command and those that the command
takes further, and so have the lists that it switches to. -/
def CommandFits (s : σ) (list : CommandList) : Prop :=
  let first := list.align
  let header : CommandHeader := ⟨first.advance.word words⟩
  match write s header.cmdId (first.word words) header.parameterMask with
  | none => first.currentIndex + 2 ≤ first.length
  | some w =>
      let left := header.extraDataLength.toNat
      let next := w.list.getD first.advance.advance
      if w.halt then first.currentIndex + 2 ≤ first.length
      else if w.list.isSome then
        first.currentIndex + 2 ≤ first.length ∧
          ExtrasFit words write header true left 0 w.state next
      else
        first.currentIndex + 2 + taken words write header left 0 w.state next ≤ first.length ∧
          ExtrasFit words write header false left 0 w.state next

variable {words write header}

theorem extrasFit_true {left i : Nat} {s : σ} {list : CommandList} :
    ExtrasFit words write header true left i s list ↔
      (left ≠ 0 → list.currentIndex + taken words write header left i s list ≤ list.length) ∧
        ExtrasFit words write header false left i s list := by
  cases left with
  | zero => simp [ExtrasFit]
  | succ left => simp [ExtrasFit]

theorem read_inside_iff {list : CommandList} :
    list.read.Inside ↔ list.currentIndex + 1 ≤ list.length :=
  Nat.lt_iff_add_one_le

/-- The words of a command are read inside if and only if each list that it comes to has the
words that are taken from it. -/
theorem extras_inside_iff (left i : Nat) (s : σ) (list : CommandList) :
    (∀ r ∈ (extras words write header left i s list).1, r.Inside) ↔
      ExtrasFit words write header true left i s list := by
  induction left generalizing i s list with
  | zero => simp [extras, ExtrasFit]
  | succ left ih =>
      have hone : (∀ r ∈ [list.read], r.Inside) ↔ list.currentIndex + 1 ≤ list.length := by
        rw [List.forall_mem_singleton]
        exact read_inside_iff
      rw [extrasFit_true, extras, taken, ExtrasFit]
      cases hwrite : write s (header.extraId i) (list.word words) header.parameterMask with
      | none =>
          dsimp only
          rw [hone]
          simp
      | some w =>
          obtain ⟨state, next, halt⟩ := w
          cases halt with
          | true =>
              dsimp only
              rw [if_pos rfl, hone]
              simp
          | false =>
              dsimp only
              rw [if_neg Bool.false_ne_true, List.forall_mem_cons, read_inside_iff, ih]
              cases next with
              | some next => simp
              | none =>
                  have hnil : left = 0 → taken words write header left (i + 1) state list.advance = 0 := by
                    rintro rfl
                    rfl
                  simp only [Option.getD_none, Option.isSome_none, Bool.or_false, Bool.false_eq_true,
                    if_false, extrasFit_true, false_implies, false_or, true_and]
                  rw [← and_assoc]
                  apply and_congr_left'
                  show _ ∧ (_ → list.currentIndex + 1 + _ ≤ list.length) ↔ _
                  omega

theorem command_inside_iff (s : σ) (list : CommandList) :
    (∀ r ∈ (command words write s list).1, r.Inside) ↔ CommandFits words write s list := by
  have htwo : (∀ r ∈ [list.align.read, list.align.advance.read], r.Inside) ↔
      list.align.currentIndex + 2 ≤ list.align.length := by
    rw [List.forall_mem_cons, List.forall_mem_singleton, read_inside_iff, read_inside_iff]
    show _ ∧ list.align.currentIndex + 1 + 1 ≤ list.align.length ↔ _
    omega
  unfold command CommandFits
  dsimp only
  split
  next => exact htwo
  next w _ =>
    obtain ⟨state, next, halt⟩ := w
    cases halt with
    | true =>
        rw [if_pos rfl, if_pos rfl]
        exact htwo
    | false =>
        rw [if_neg Bool.false_ne_true, if_neg Bool.false_ne_true, List.forall_mem_append, htwo,
          extras_inside_iff]
        cases next with
        | some next => exact Iff.rfl
        | none =>
            rw [if_neg (by simp), Option.getD_none, extrasFit_true, ← and_assoc]
            apply and_congr_left'
            dsimp only
            generalize CommandHeader.extraDataLength _ = left
            have hnil : left.toNat = 0 → taken words write ⟨list.align.advance.word words⟩ left.toNat 0
                state list.align.advance.advance = 0 := by
              intro hzero
              rw [hzero]
              rfl
            show _ ∧ (_ → list.align.currentIndex + 1 + 1 + _ ≤ list.align.length) ↔ _
            omega

end Command

/-! ## Processing and guessing -/

def Effect.stops : Effect → Bool
  | .stopRequested => true
  | _ => false

def Effect.list? : Effect → Option CommandList
  | .resetCmdList addr size => some (.reset addr size)
  | _ => none

/-- `WriteInternalReg`, with whether a stop was requested so far. -/
def processWrite (s : PicaCore × Bool) (id value : UInt32) (mask : Fin 16) :
    Option (Written (PicaCore × Bool)) :=
  (writeInternalReg s.1 ⟨id, value, mask⟩).map fun written =>
    let stop := s.2 || written.2.any Effect.stops
    { state := (written.1, stop), list := written.2.findSome? Effect.list?, halt := stop }

/-- What `ProcessCmdList` works on. -/
structure Processing where
  core : PicaCore
  stopRequested : Bool
  cmdList : CommandList

/-- What the loop of `ProcessCmdList` goes on for. -/
def Processing.Running (p : Processing) : Prop :=
  p.cmdList.currentIndex < p.cmdList.length ∧ p.stopRequested = false

instance (p : Processing) : Decidable p.Running := inferInstanceAs (Decidable (_ ∧ _))

variable (words : UInt32 → Nat → UInt32)

/-- What is read for one command. -/
def Processing.reads (p : Processing) : List Read :=
  (command words processWrite (p.core, p.stopRequested) p.cmdList).1

/-- One round of the loop. -/
def Processing.next (p : Processing) : Option Processing :=
  if p.Running then
    (command words processWrite (p.core, p.stopRequested) p.cmdList).2.map fun last =>
      ⟨last.1.1, last.1.2, last.2.1⟩
  else none

/-- Where `ProcessCmdList` starts, unless the list is ignored. -/
def processCmdList (core : PicaCore) (list size : UInt32) (ignoreList : Bool) : Option Processing :=
  if ignoreList then none else some ⟨core, false, .reset list size⟩

structure RenderPropertiesGuess where
  vpHeight : UInt32
  paddr : UInt32
  vpHeightFound : Bool := false
  paddrFound : Bool := false
  deriving DecidableEq

/-- `process_write` of `GuessCmdRenderProperties`, which writes no register. -/
def guessWrite (core : PicaCore) (info : RenderPropertiesGuess) (id value : UInt32) (_ : Fin 16) :
    Option (Written RenderPropertiesGuess) :=
  let info :=
    if id = 0x43 then { info with vpHeight := value, vpHeightFound := true }
    else if id = 0x11d then { info with paddr := value * 8, paddrFound := true }
    else info
  let list :=
    if id = 0x23c then
      some (CommandList.reset (8 * bits 0 28 (regAt core.regs 0x23a)) (8 * bits 0 20 (regAt core.regs 0x238)))
    else if id = 0x23d then
      some (CommandList.reset (8 * bits 0 28 (regAt core.regs 0x23b)) (8 * bits 0 20 (regAt core.regs 0x239)))
    else none
  some { state := info, list, halt := info.vpHeightFound && info.paddrFound }

/-- What `GuessCmdRenderProperties` works on. -/
structure Guessing where
  findInfo : RenderPropertiesGuess
  cmdList : CommandList
  iterations : Nat

def maxIterations : Nat := 0x100

/-- What the loop of `GuessCmdRenderProperties` goes on for. -/
def Guessing.Running (g : Guessing) : Prop :=
  g.cmdList.currentIndex < g.cmdList.length ∧ g.iterations < maxIterations

instance (g : Guessing) : Decidable g.Running := inferInstanceAs (Decidable (_ ∧ _))

def Guessing.reads (core : PicaCore) (g : Guessing) : List Read :=
  (command words (guessWrite core) g.findInfo g.cmdList).1

/-- One round of the loop, which ends if the first write has found everything. -/
def Guessing.next (core : PicaCore) (g : Guessing) : Option Guessing :=
  if g.Running then
    (command words (guessWrite core) g.findInfo g.cmdList).2.bind fun last =>
      if last.2.2 then none else some ⟨last.1, last.2.1, g.iterations + 1⟩
  else none

def guessCmdRenderProperties (core : PicaCore) (list size : UInt32) : Guessing where
  findInfo :=
    { vpHeight := bits 0 24 (regAt core.regs 0x43), paddr := bits 0 28 (regAt core.regs 0x11d) * 8 }
  cmdList := .reset list size
  iterations := 0

/-- Every word is read inside of the list that is read at that time. -/
def ReadsInside (core : PicaCore) (list size : UInt32) (ignoreList : Bool) : Prop :=
  (∀ start, processCmdList core list size ignoreList = some start →
    ∀ n p, placeAfter (Processing.next words) start n = some p → p.Running →
      ∀ r ∈ p.reads words, r.Inside) ∧
  ∀ n g, placeAfter (Guessing.next words core) (guessCmdRenderProperties core list size) n =
      some g → g.Running → ∀ r ∈ g.reads words core, r.Inside

/-- Every command that is started fits in the list it starts in and in those it switches to. -/
def CommandsFit (core : PicaCore) (list size : UInt32) (ignoreList : Bool) : Prop :=
  (∀ start, processCmdList core list size ignoreList = some start →
    ∀ n p, placeAfter (Processing.next words) start n = some p → p.Running →
      CommandFits words processWrite (p.core, p.stopRequested) p.cmdList) ∧
  ∀ n g, placeAfter (Guessing.next words core) (guessCmdRenderProperties core list size) n =
      some g → g.Running → CommandFits words (guessWrite core) g.findInfo g.cmdList

/-- The lists are read inside of their bounds if and only if every command fits. -/
theorem reads_inside_iff (core : PicaCore) (list size : UInt32) (ignoreList : Bool) :
    ReadsInside words core list size ignoreList ↔ CommandsFit words core list size ignoreList := by
  unfold ReadsInside CommandsFit
  apply and_congr
  · exact forall₂_congr fun start _ => forall₂_congr fun n p => forall₂_congr fun _ _ =>
      command_inside_iff _ _
  · exact forall₂_congr fun n g => forall₂_congr fun _ _ => command_inside_iff _ _

/-- A list of two words whose command has an extra word. -/
def shortList (_ : UInt32) (i : Nat) : UInt32 := if i = 1 then 0x00100000 else 0

theorem shortList_not_inside : ¬ ReadsInside shortList {} 0 8 false := by
  intro h
  have hread := h.1 _ rfl 0 _ rfl ⟨by decide, rfl⟩ ⟨2, 2⟩ (by decide)
  exact absurd hread (by decide)

end Cytrus.VideoCore.Pica
