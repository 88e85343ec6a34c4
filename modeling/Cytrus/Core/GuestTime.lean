import Cytrus.Kernel.Timer

/-!
# Durations in cycles

A duration is converted exactly while the product with the clock rate fits,
then by its whole seconds, and saturates at last. Each range is monotone on its
own; where the second range begins, the part of a second is dropped.
-/

namespace Cytrus.Core

open Kernel

variable {unit a b d : Int}

/-- The conversion of `d` parts of a second, `unit` of them to the second; the products are
taken in `u64`. -/
def toCycles (unit d : Int) : Int :=
  if maxValueToMultiply < d.tdiv unit then 2 ^ 63 - 1
  else if maxValueToMultiply < d then
    wrapS64 (wrapU64 (baseClockRateArm11 * d.tdiv unit))
  else wrapS64 (wrapU64 (baseClockRateArm11 * d) / unit)

/-- `usToCycles(s64)`. -/
def usToCycles (us : Int) : Int := toCycles 1000000 us

theorem nsToCycles_eq (ns : Int) : nsToCycles ns = toCycles 1000000000 ns := rfl

/-- The exact value, rounded down. -/
def exactCycles (unit d : Int) : Int := baseClockRateArm11 * d / unit

theorem exactCycles_mono (hunit : 0 < unit) (hab : a ≤ b) :
    exactCycles unit a ≤ exactCycles unit b := by
  apply Int.ediv_le_ediv hunit
  exact Int.mul_le_mul_of_nonneg_left hab (by decide)

theorem exactCycles_nonneg (hunit : 0 < unit) (hd : 0 ≤ d) : 0 ≤ exactCycles unit d :=
  Int.ediv_nonneg (Int.mul_nonneg (by decide) hd) hunit.le

/-- Converting whole seconds only loses cycles. -/
theorem mul_ediv_le_exactCycles (hunit : 0 < unit) :
    baseClockRateArm11 * (d / unit) ≤ exactCycles unit d := by
  apply (Int.le_ediv_iff_mul_le hunit).mpr
  calc baseClockRateArm11 * (d / unit) * unit
      = baseClockRateArm11 * (d / unit * unit) := Int.mul_assoc ..
    _ ≤ baseClockRateArm11 * d :=
        Int.mul_le_mul_of_nonneg_left (Int.ediv_mul_le d hunit.ne') (by decide)

/-! ## The three ranges -/

theorem maxValueToMultiply_eq : maxValueToMultiply = 34401209161 := by decide

theorem mul_le_iff : baseClockRateArm11 * d ≤ (2 ^ 63 - 1 : Int) ↔ d ≤ maxValueToMultiply := by
  have hrate : (baseClockRateArm11 : Int) = 268111856 := rfl
  rw [maxValueToMultiply_eq, hrate]
  omega

theorem wrapS64_ediv {p : Int} (hunit : 0 < unit) (hp : 0 ≤ p) (hle : p ≤ 2 ^ 63 - 1) :
    wrapS64 ((wrapU64 p : Int) / unit) = p / unit := by
  have hcast : (wrapU64 p : Int) = p := by
    rw [wrapU64_cast]
    omega
  have hself := Int.ediv_le_self unit hp
  have hnonneg := Int.ediv_nonneg hp hunit.le
  rw [hcast, wrapS64_eq (by omega) (by omega)]

theorem toCycles_of_le (hunit : 0 < unit) (hd : 0 ≤ d) (hle : d ≤ maxValueToMultiply) :
    toCycles unit d = exactCycles unit d := by
  have hself : d / unit ≤ d := Int.ediv_le_self unit hd
  unfold toCycles
  rw [Int.tdiv_eq_ediv_of_nonneg hd, if_neg (by omega), if_neg (by omega)]
  exact wrapS64_ediv hunit (Int.mul_nonneg (by decide) hd) (mul_le_iff.mpr hle)

theorem toCycles_of_lt (hunit : 0 < unit) (hd : 0 ≤ d) (hlt : maxValueToMultiply < d)
    (hle : d / unit ≤ maxValueToMultiply) :
    toCycles unit d = baseClockRateArm11 * (d / unit) := by
  have hnonneg : 0 ≤ d / unit := Int.ediv_nonneg hd hunit.le
  have hproduct := wrapS64_ediv Int.one_pos (Int.mul_nonneg (by decide) hnonneg)
    (mul_le_iff.mpr hle)
  rw [Int.ediv_one, Int.ediv_one] at hproduct
  unfold toCycles
  rw [Int.tdiv_eq_ediv_of_nonneg hd, if_neg (by omega), if_pos hlt, hproduct]

theorem toCycles_of_saturated (hd : 0 ≤ d) (hlt : maxValueToMultiply < d / unit) :
    toCycles unit d = 2 ^ 63 - 1 := by
  unfold toCycles
  rw [Int.tdiv_eq_ediv_of_nonneg hd, if_pos hlt]

/-! ## Bounds and order -/

theorem toCycles_bounds (hunit : 0 < unit) (hd : 0 ≤ d) :
    0 ≤ toCycles unit d ∧ toCycles unit d ≤ exactCycles unit d ∧
      toCycles unit d ≤ 2 ^ 63 - 1 := by
  have hnonneg := exactCycles_nonneg hunit hd
  by_cases hexact : d ≤ maxValueToMultiply
  · rw [toCycles_of_le hunit hd hexact]
    have hself := Int.ediv_le_self unit (a := baseClockRateArm11 * d)
      (Int.mul_nonneg (by decide) hd)
    exact ⟨hnonneg, le_rfl, hself.trans (mul_le_iff.mpr hexact)⟩
  · have hwhole := mul_ediv_le_exactCycles hunit (d := d)
    have hlimit := mul_le_iff (d := d / unit)
    by_cases hlt : maxValueToMultiply < d / unit
    · rw [toCycles_of_saturated hd hlt]
      omega
    · rw [toCycles_of_lt hunit hd (by omega) (by omega)]
      have hpos : 0 ≤ baseClockRateArm11 * (d / unit) :=
        Int.mul_nonneg (by decide) (Int.ediv_nonneg hd hunit.le)
      exact ⟨hpos, hwhole, hlimit.mpr (by omega)⟩

/-- The two durations lie on both sides of the limit of the exact range, and the first is
longer than the whole seconds of the second by at least a cycle. -/
def LosesPart (unit a b : Int) : Prop :=
  a ≤ maxValueToMultiply ∧ maxValueToMultiply < b ∧
    unit ≤ baseClockRateArm11 * (a - b / unit * unit)

theorem exactCycles_le_iff (hunit : 0 < unit) (n : Int) :
    exactCycles unit a ≤ baseClockRateArm11 * n ↔
      baseClockRateArm11 * (a - n * unit) < unit := by
  have hsplit : baseClockRateArm11 * (a - n * unit) =
      baseClockRateArm11 * a - baseClockRateArm11 * n * unit := by ring
  unfold exactCycles
  rw [← Int.lt_add_one_iff, Int.ediv_lt_iff_lt_mul hunit, hsplit, Int.add_mul]
  omega

theorem not_losesPart_of_saturated (hunit : 0 < unit) (hlt : maxValueToMultiply < b / unit) :
    ¬ LosesPart unit a b := by
  rintro ⟨hle, -, hpart⟩
  have hmax : 0 ≤ maxValueToMultiply := by decide
  have hseconds : b / unit * 1 ≤ b / unit * unit :=
    Int.mul_le_mul_of_nonneg_left hunit (by omega)
  have hnegative : baseClockRateArm11 * (a - b / unit * unit) ≤ 0 :=
    Int.mul_nonpos_of_nonneg_of_nonpos (by decide) (by omega)
  omega

/-- Between durations that are not negative, the conversion keeps the order unless it drops a
part of a second that is worth a cycle. -/
theorem toCycles_le_iff (hunit : 0 < unit) (ha : 0 ≤ a) (hab : a ≤ b) :
    toCycles unit a ≤ toCycles unit b ↔ ¬ LosesPart unit a b := by
  have hb : 0 ≤ b := ha.trans hab
  have hdiv : a / unit ≤ b / unit := Int.ediv_le_ediv hunit hab
  by_cases hsaturated : maxValueToMultiply < b / unit
  · rw [toCycles_of_saturated hb hsaturated]
    exact iff_of_true (toCycles_bounds hunit ha).2.2 (not_losesPart_of_saturated hunit hsaturated)
  · by_cases hexact : b ≤ maxValueToMultiply
    · rw [toCycles_of_le hunit ha (by omega), toCycles_of_le hunit hb hexact]
      exact iff_of_true (exactCycles_mono hunit hab) fun hloses => absurd hloses.2.1 (by omega)
    · rw [toCycles_of_lt hunit hb (by omega) (by omega)]
      by_cases hle : a ≤ maxValueToMultiply
      · rw [toCycles_of_le hunit ha hle, exactCycles_le_iff hunit]
        unfold LosesPart
        omega
      · rw [toCycles_of_lt hunit ha (by omega) (by omega)]
        exact iff_of_true (Int.mul_le_mul_of_nonneg_left hdiv (by decide))
          fun hloses => absurd hloses.1 hle

/-- Durations that are not negative convert to counts that are not negative and at most exact,
and in order, unless the longer one is rounded to whole seconds while the shorter one is exact
and ends after them: by at least four nanoseconds, or one microsecond. -/
theorem cycles_monotone (ha : 0 ≤ a) (hab : a ≤ b) :
    (nsToCycles a ≤ nsToCycles b ↔ ¬ (a ≤ maxValueToMultiply ∧ maxValueToMultiply < b ∧
        b / 1000000000 * 1000000000 + 4 ≤ a)) ∧
      (usToCycles a ≤ usToCycles b ↔ ¬ (a ≤ maxValueToMultiply ∧ maxValueToMultiply < b ∧
        b / 1000000 * 1000000 + 1 ≤ a)) ∧
      (0 ≤ nsToCycles a ∧ nsToCycles a ≤ 268111856 * a / 1000000000) ∧
      (0 ≤ usToCycles a ∧ usToCycles a ≤ 268111856 * a / 1000000) := by
  have hns := @toCycles_bounds 1000000000 a (by decide) ha
  have hus := @toCycles_bounds 1000000 a (by decide) ha
  have hrate : (baseClockRateArm11 : Int) = 268111856 := rfl
  refine ⟨?_, ?_, ⟨hns.1, hns.2.1⟩, hus.1, hus.2.1⟩
  · rw [nsToCycles_eq, nsToCycles_eq, toCycles_le_iff (by decide) ha hab, LosesPart, hrate]
    omega
  · rw [usToCycles, usToCycles, toCycles_le_iff (by decide) ha hab, LosesPart, hrate]
    omega

theorem cycles_monotone_second :
    nsToCycles 1000000000 ≤ nsToCycles (2 ^ 63 - 1) ∧
      usToCycles 1000000000 ≤ usToCycles (2 ^ 63 - 1) := by
  have h := cycles_monotone (a := 1000000000) (b := 2 ^ 63 - 1) (by decide) (by decide)
  exact ⟨h.1.mpr (by decide), h.2.1.mpr (by decide)⟩

/-- One nanosecond past the exact range costs part of a second; and a duration of minus one
nanosecond is more than a minute. -/
theorem nsToCycles_not_monotone :
    nsToCycles 34401209162 < nsToCycles 34401209161 ∧ nsToCycles 0 < nsToCycles (-1) := by
  decide

end Cytrus.Core
