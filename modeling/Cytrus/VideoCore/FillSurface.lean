import Mathlib

/-!
# Flushing a filled surface

A surface of type `Fill` has no texels, only a pattern of two to four bytes.
`DownloadFillSurface` writes the pattern to an interval of the surface. It
counts from the start of the surface, but the pointer it writes through starts
at the interval.
-/

namespace Cytrus.VideoCore

/-- The members of a `Fill` surface that a flush reads. -/
structure FillSurface where
  addr : Nat
  «end» : Nat
  fillSize : Nat
  fillData : Fin 4 → UInt8
  two_le_fillSize : 2 ≤ fillSize
  fillSize_le : fillSize ≤ 4

namespace FillSurface

variable {surface : FillSurface} {n offset size x : Nat} {memory : Nat → UInt8}

theorem fillSize_pos (surface : FillSurface) : 0 < surface.fillSize :=
  lt_of_lt_of_le Nat.zero_lt_two surface.two_le_fillSize

/-- The byte of the pattern at a position. -/
def pattern (surface : FillSurface) (n : Nat) : UInt8 :=
  surface.fillData ⟨n % surface.fillSize,
    lt_of_lt_of_le (Nat.mod_lt n surface.fillSize_pos) surface.fillSize_le⟩

/-- `std::memcpy` of `n` bytes to an address. -/
def memcpy (memory : Nat → UInt8) (dest : Nat) (source : Nat → UInt8) (n : Nat) : Nat → UInt8 :=
  fun x => if dest ≤ x ∧ x < dest + n then source (x - dest) else memory x

/-- The loop: a copy of the pattern at each step, cut off at the end. -/
def fillLoop (surface : FillSurface) (destPtr downloadSize : Nat) (memory : Nat → UInt8)
    (offset : Nat) : Nat → UInt8 :=
  if offset < downloadSize then
    fillLoop surface destPtr downloadSize
      (memcpy memory (destPtr + offset) surface.pattern
        (min surface.fillSize (downloadSize - offset)))
      (offset + surface.fillSize)
  else memory
termination_by downloadSize - offset
decreasing_by
  have hpos := surface.fillSize_pos
  omega

/-- `DownloadFillSurface`. `destSize` is the size of the physical memory at the start of the
interval, if there is any; no memory is left by a failed assertion. -/
def downloadFillSurface (surface : FillSurface) (flushStart flushEnd : Nat)
    (destSize : Option Nat) (memory : Nat → UInt8) : Option (Nat → UInt8) :=
  if surface.addr ≤ flushStart ∧ flushEnd ≤ surface.end then
    match destSize with
    | none => some memory
    | some destSize =>
        let startOffset := flushStart - surface.addr
        let downloadSize := min (flushEnd - flushStart) destSize
        let coarseStartOffset := startOffset - startOffset % surface.fillSize
        let backupBytes := startOffset % surface.fillSize
        let backupData := fun i => memory (flushStart + coarseStartOffset + i)
        let filled := fillLoop surface flushStart downloadSize memory coarseStartOffset
        some (if backupBytes ≠ 0 then
          memcpy filled (flushStart + coarseStartOffset) backupData backupBytes
        else filled)
  else none

/-- What a flush is to leave in memory. -/
def filled (surface : FillSurface) (flushStart flushEnd : Nat) (memory : Nat → UInt8) :
    Nat → UInt8 := fun x =>
  if flushStart ≤ x ∧ x < flushEnd then surface.pattern (x - surface.addr) else memory x

theorem fillLoop_apply (destPtr size x : Nat) (memory : Nat → UInt8) (hoffset : surface.fillSize ∣ offset) :
    fillLoop surface destPtr size memory offset x =
      if destPtr + offset ≤ x ∧ x < destPtr + size then surface.pattern (x - destPtr)
      else memory x := by
  fun_induction fillLoop surface destPtr size memory offset with
  | case1 memory offset hlt ih =>
      rw [ih (hoffset.add dvd_rfl)]
      obtain ⟨k, rfl⟩ := hoffset
      have hpos := surface.fillSize_pos
      unfold memcpy
      by_cases hnext : destPtr + (surface.fillSize * k + surface.fillSize) ≤ x ∧ x < destPtr + size
      · rw [if_pos hnext, if_pos (by omega)]
      · rw [if_neg hnext]
        by_cases hnow : destPtr + surface.fillSize * k ≤ x ∧ x < destPtr + size
        · rw [if_pos (by omega), if_pos hnow]
          have hsplit : x - destPtr = x - (destPtr + surface.fillSize * k) +
              surface.fillSize * k := by omega
          unfold pattern
          congr 2
          rw [hsplit, Nat.add_mul_mod_self_left]
        · rw [if_neg (by omega), if_neg hnow]
  | case2 memory offset hge => rw [if_neg (by omega)]

theorem downloadFillSurface_eq {flushStart flushEnd destSize : Nat}
    (hstart : surface.addr ≤ flushStart) (hend : flushEnd ≤ surface.end)
    (hsize : flushEnd - flushStart ≤ destSize) :
    downloadFillSurface surface flushStart flushEnd (some destSize) memory =
      some fun x => if flushStart + (flushStart - surface.addr) ≤ x ∧ x < flushEnd then
        surface.pattern (x - flushStart) else memory x := by
  have hle := Nat.mod_le (flushStart - surface.addr) surface.fillSize
  have hcoarse : surface.fillSize ∣ flushStart - surface.addr -
      (flushStart - surface.addr) % surface.fillSize := Nat.dvd_sub_mod _
  unfold downloadFillSurface
  rw [if_pos ⟨hstart, hend⟩]
  simp only [min_eq_left hsize, Option.some.injEq]
  generalize (flushStart - surface.addr) % surface.fillSize = backupBytes at hle hcoarse ⊢
  funext x
  have hloop := fillLoop_apply flushStart (flushEnd - flushStart) x memory hcoarse
  by_cases hbackup : backupBytes = 0
  · subst hbackup
    rw [if_neg (by simp), hloop]
    by_cases hx : flushStart + (flushStart - surface.addr) ≤ x ∧ x < flushEnd
    · rw [if_pos (by omega), if_pos hx]
    · rw [if_neg (by omega), if_neg hx]
  · rw [if_pos hbackup, memcpy, hloop]
    by_cases hrestored : flushStart + (flushStart - surface.addr - backupBytes) ≤ x ∧
        x < flushStart + (flushStart - surface.addr - backupBytes) + backupBytes
    · rw [if_pos hrestored, if_neg (by omega)]
      congr 1
      omega
    · rw [if_neg hrestored]
      by_cases hx : flushStart + (flushStart - surface.addr) ≤ x ∧ x < flushEnd
      · rw [if_pos (by omega), if_pos hx]
      · rw [if_neg (by omega), if_neg hx]

/-- Whatever the memory holds, a flush of a non-empty interval of the surface leaves the pattern
there, counted from the start of the surface, and everything else as it was: exactly when the
interval starts with the surface. -/
theorem downloadFillSurface_filled_iff {flushStart flushEnd destSize : Nat}
    (hstart : surface.addr ≤ flushStart) (hlt : flushStart < flushEnd)
    (hend : flushEnd ≤ surface.end) (hsize : flushEnd - flushStart ≤ destSize) :
    (∀ memory, downloadFillSurface surface flushStart flushEnd (some destSize) memory =
      some (filled surface flushStart flushEnd memory)) ↔ flushStart = surface.addr := by
  constructor
  · intro hfilled
    by_contra hne
    -- The first byte of the interval keeps its value, which may be any.
    have hbyte := congrFun (Option.some.inj ((downloadFillSurface_eq hstart hend hsize).symm.trans
      (hfilled fun _ => surface.pattern (flushStart - surface.addr) + 1))) flushStart
    rw [if_neg (by omega), filled, if_pos ⟨le_rfl, hlt⟩] at hbyte
    exact absurd hbyte (by simp)
  · rintro rfl memory
    rw [downloadFillSurface_eq hstart hend hsize, Nat.sub_self, Nat.add_zero]
    rfl

/-- Two bytes `12 34`, over and over. -/
def exampleSurface : FillSurface where
  addr := 0x18000000
  «end» := 0x18000010
  fillSize := 2
  fillData := fun i => if i.val % 2 = 0 then 0x12 else 0x34
  two_le_fillSize := le_rfl
  fillSize_le := by decide

theorem downloadFillSurface_filled_start :
    downloadFillSurface exampleSurface 0x18000000 0x18000008 (some 0x600000) (fun _ => 0) =
      some (filled exampleSurface 0x18000000 0x18000008 fun _ => 0) :=
  (downloadFillSurface_filled_iff le_rfl (by decide) (by decide) (by decide)).mpr rfl _

/-- A flush of four bytes from the second pattern on leaves the first two of them alone. -/
theorem downloadFillSurface_skips :
    downloadFillSurface exampleSurface 0x18000002 0x18000006 (some 0x5FFFFE) (fun _ => 0) ≠
      some (filled exampleSurface 0x18000002 0x18000006 fun _ => 0) := by
  rw [downloadFillSurface_eq (by decide) (by decide) (by decide)]
  intro h
  have hbyte := congrFun (Option.some.inj h) 0x18000002
  exact absurd hbyte (by decide)

end FillSurface

end Cytrus.VideoCore
