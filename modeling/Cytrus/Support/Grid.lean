import Cytrus.Support.IntervalSet

/-!
# Rounding intervals to grids

A fine grid inside a coarse one. An interval is rounded outwards to the coarse
grid, or to the fine one where it lies in a single cell of the coarse grid, and
inwards to the largest such interval that a row-by-row search finds. What is
rounded inwards is not changed by rounding it outwards.

## Main results

* `roundOut_roundOut`: rounding outwards is idempotent
* `roundOut_roundIn`: what is rounded inwards is rounded outwards already
-/

namespace Cytrus.Support.Grid

def floor (n a : Nat) : Nat := a - a % n

def ceil (n a : Nat) : Nat := if a % n = 0 then a else a - a % n + n

section Cells

variable {n a b : Nat}

theorem floor_le (n a : Nat) : floor n a ≤ a := Nat.sub_le ..

theorem dvd_floor (n a : Nat) : n ∣ floor n a := Nat.dvd_sub_mod a

theorem lt_floor_add (hn : 0 < n) : a < floor n a + n := by
  have hmod := Nat.mod_lt a hn
  have hle := Nat.mod_le a n
  unfold floor
  omega

theorem floor_of_dvd (h : n ∣ a) : floor n a = a := by
  rw [floor, Nat.mod_eq_zero_of_dvd h, Nat.sub_zero]

theorem floor_mono (n : Nat) (h : a ≤ b) : floor n a ≤ floor n b := by
  have hdiv := Nat.mul_le_mul_left n (Nat.div_le_div_right (c := n) h)
  have ha := Nat.div_add_mod a n
  have hb := Nat.div_add_mod b n
  unfold floor
  omega

theorem le_floor (hb : n ∣ b) (h : b ≤ a) : b ≤ floor n a := by
  have hmono := floor_mono n h
  rwa [floor_of_dvd hb] at hmono

theorem ceil_of_dvd (h : n ∣ a) : ceil n a = a := if_pos (Nat.mod_eq_zero_of_dvd h)

theorem ceil_of_not_dvd (h : ¬ n ∣ a) : ceil n a = floor n a + n :=
  if_neg fun hmod => h (Nat.dvd_of_mod_eq_zero hmod)

theorem dvd_ceil (n a : Nat) : n ∣ ceil n a := by
  by_cases h : n ∣ a
  · rwa [ceil_of_dvd h]
  · rw [ceil_of_not_dvd h]
    exact (dvd_floor n a).add dvd_rfl

theorem le_ceil (hn : 0 < n) : a ≤ ceil n a := by
  by_cases h : n ∣ a
  · rw [ceil_of_dvd h]
  · rw [ceil_of_not_dvd h]
    exact (lt_floor_add hn).le

theorem ceil_le_floor_add (hn : 0 < n) : ceil n a ≤ floor n a + n := by
  by_cases h : n ∣ a
  · rw [ceil_of_dvd h]
    exact (lt_floor_add hn).le
  · rw [ceil_of_not_dvd h]

theorem ceil_lt (hn : 0 < n) : ceil n a < a + n := by
  by_cases h : n ∣ a
  · rw [ceil_of_dvd h]
    omega
  · have hle := Nat.mod_le a n
    rw [ceil_of_not_dvd h, floor]
    omega

theorem add_le_of_dvd (ha : n ∣ a) (hb : n ∣ b) (h : a < b) : a + n ≤ b := by
  have hpos := Nat.le_of_dvd (Nat.sub_pos_of_lt h) (Nat.dvd_sub hb ha)
  omega

theorem ceil_le (hb : n ∣ b) (h : a ≤ b) : ceil n a ≤ b := by
  by_cases ha : n ∣ a
  · rwa [ceil_of_dvd ha]
  · rw [ceil_of_not_dvd ha]
    refine add_le_of_dvd (dvd_floor n a) hb (lt_of_le_of_ne ((floor_le n a).trans h) ?_)
    rintro rfl
    exact ha (Nat.le_antisymm (floor_le n a) h ▸ dvd_floor n a)

end Cells

section Rounding

variable {fine coarse n : Nat} {i : Block}

/-- Outwards to the coarse grid, or to the fine one in a single row. -/
def roundOut (fine coarse : Nat) (i : Block) : Block :=
  if coarse < ceil coarse i.upper - floor coarse i.lower then
    ⟨floor coarse i.lower, ceil coarse i.upper⟩
  else ⟨floor fine i.lower, ceil fine i.upper⟩

/-- An interval in a single row of the coarse grid. -/
def OneRow (coarse : Nat) (i : Block) : Prop :=
  ceil coarse i.upper = floor coarse i.lower + coarse

theorem floor_add_le_ceil (hcoarse : 0 < coarse) (hi : i.lower < i.upper) :
    floor coarse i.lower + coarse ≤ ceil coarse i.upper :=
  add_le_of_dvd (dvd_floor ..) (dvd_ceil ..)
    ((floor_le ..).trans_lt (hi.trans_le (le_ceil hcoarse)))

theorem oneRow_or (hcoarse : 0 < coarse) (hi : i.lower < i.upper) :
    OneRow coarse i ∨ coarse < ceil coarse i.upper - floor coarse i.lower := by
  have hle := floor_add_le_ceil hcoarse hi
  unfold OneRow
  omega

theorem roundOut_of_oneRow (h : OneRow coarse i) :
    roundOut fine coarse i = ⟨floor fine i.lower, ceil fine i.upper⟩ := by
  unfold OneRow at h
  exact if_neg (by omega)

theorem lower_roundOut_le : (roundOut fine coarse i).lower ≤ i.lower := by
  unfold roundOut
  split <;> exact floor_le ..

theorem le_upper_roundOut (hfine : 0 < fine) (hcoarse : 0 < coarse) :
    i.upper ≤ (roundOut fine coarse i).upper := by
  unfold roundOut
  split
  · exact le_ceil hcoarse
  · exact le_ceil hfine

theorem dvd_lower_roundOut (hdvd : fine ∣ coarse) : fine ∣ (roundOut fine coarse i).lower := by
  unfold roundOut
  split
  · exact hdvd.trans (dvd_floor ..)
  · exact dvd_floor ..

theorem upper_roundOut_le (hdvd : fine ∣ coarse) (hn : coarse ∣ n) (h : i.upper ≤ n) :
    (roundOut fine coarse i).upper ≤ n := by
  unfold roundOut
  split
  · exact ceil_le hn h
  · exact ceil_le (hdvd.trans hn) h

theorem OneRow.roundOut (hfine : 0 < fine) (hcoarse : 0 < coarse) (hdvd : fine ∣ coarse)
    (hi : i.lower < i.upper) (h : OneRow coarse i) :
    OneRow coarse (Grid.roundOut fine coarse i) := by
  rw [roundOut_of_oneRow h]
  have hlower : floor coarse i.lower ≤ floor coarse (floor fine i.lower) :=
    le_floor (dvd_floor ..) (le_floor (hdvd.trans (dvd_floor ..)) (floor_le ..))
  have hupper : ceil coarse (ceil fine i.upper) ≤ ceil coarse i.upper :=
    ceil_le (dvd_ceil ..) (ceil_le (hdvd.trans (dvd_ceil ..)) (le_ceil hcoarse))
  have hlt : floor fine i.lower < ceil fine i.upper :=
    (floor_le ..).trans_lt (hi.trans_le (le_ceil hfine))
  have hle := floor_add_le_ceil (i := ⟨floor fine i.lower, ceil fine i.upper⟩) hcoarse hlt
  unfold OneRow at h ⊢
  dsimp only at hle ⊢
  omega

theorem roundOut_roundOut (hfine : 0 < fine) (hcoarse : 0 < coarse) (hdvd : fine ∣ coarse)
    (hi : i.lower < i.upper) :
    roundOut fine coarse (roundOut fine coarse i) = roundOut fine coarse i := by
  rcases oneRow_or hcoarse hi with hrow | hrows
  · rw [roundOut_of_oneRow (hrow.roundOut hfine hcoarse hdvd hi), roundOut_of_oneRow hrow,
      floor_of_dvd (dvd_floor ..), ceil_of_dvd (dvd_ceil ..)]
  · have hout : roundOut fine coarse i = ⟨floor coarse i.lower, ceil coarse i.upper⟩ := if_pos hrows
    rw [hout, roundOut, floor_of_dvd (dvd_floor ..), ceil_of_dvd (dvd_ceil ..), if_pos hrows]

theorem roundOut_of_dvd (hdvd : fine ∣ coarse) (hlower : coarse ∣ i.lower)
    (hupper : coarse ∣ i.upper) : roundOut fine coarse i = i := by
  unfold roundOut
  rw [floor_of_dvd hlower, ceil_of_dvd hupper, floor_of_dvd (hdvd.trans hlower),
    ceil_of_dvd (hdvd.trans hupper), ite_self]

theorem OneRow.roundOut_eq (h : OneRow coarse i) (hlower : fine ∣ i.lower)
    (hupper : fine ∣ i.upper) : Grid.roundOut fine coarse i = i := by
  rw [roundOut_of_oneRow h, floor_of_dvd hlower, ceil_of_dvd hupper]

/-- The cells of the fine grid in an interval. -/
def cells (fine : Nat) (i : Block) : Block := ⟨ceil fine i.lower, floor fine i.upper⟩

/-- The rows in an interval of cells; where there are none, the larger of the parts of the
two rows that it lies in, or all of it if it lies in one. -/
def rows (coarse : Nat) (i : Block) : Block :=
  let lower := ceil coarse i.lower
  let upper := floor coarse i.upper
  if upper < lower then i
  else if upper = lower then
    if i.upper - lower < lower - i.lower then ⟨i.lower, lower⟩ else ⟨lower, i.upper⟩
  else ⟨lower, upper⟩

def roundIn (fine coarse : Nat) (i : Block) : Block := rows coarse (cells fine i)

theorem lower_le_rows (hcoarse : 0 < coarse) : i.lower ≤ (rows coarse i).lower := by
  have hle : i.lower ≤ ceil coarse i.lower := le_ceil hcoarse
  unfold rows
  dsimp only
  split_ifs <;> first | exact hle | exact le_rfl

theorem upper_rows_le : (rows coarse i).upper ≤ i.upper := by
  have hle := floor_le coarse i.upper
  unfold rows
  dsimp only
  split_ifs with hinverted hempty
  · exact le_rfl
  · exact hempty ▸ hle
  · exact le_rfl
  · exact hle

theorem oneRow_of_dvd (hcoarse : 0 < coarse) (hi : i.lower < i.upper)
    (h : coarse ∣ i.lower ∧ i.upper ≤ i.lower + coarse ∨
      coarse ∣ i.upper ∧ i.upper ≤ i.lower + coarse) : OneRow coarse i := by
  have hle := floor_add_le_ceil hcoarse hi
  unfold OneRow
  rcases h with ⟨hdvd, hlen⟩ | ⟨hdvd, hlen⟩
  · have hceil := ceil_le (hdvd.add dvd_rfl) hlen
    rw [floor_of_dvd hdvd] at hle ⊢
    omega
  · have hfloor : i.upper - coarse ≤ floor coarse i.lower :=
      le_floor (Nat.dvd_sub hdvd dvd_rfl) (by omega)
    rw [ceil_of_dvd hdvd] at hle ⊢
    omega

theorem roundOut_rows (hcoarse : 0 < coarse) (hdvd : fine ∣ coarse) (hi : i.lower < i.upper)
    (hlower : fine ∣ i.lower) (hupper : fine ∣ i.upper) :
    roundOut fine coarse (rows coarse i) = rows coarse i ∧
      (rows coarse i).lower < (rows coarse i).upper := by
  have hfloor := lt_floor_add hcoarse (a := i.upper)
  have hfloor' := floor_le coarse i.upper
  have hceil := ceil_lt hcoarse (a := i.lower)
  have hceil' := le_ceil hcoarse (a := i.lower)
  have hrow : fine ∣ ceil coarse i.lower := hdvd.trans (dvd_ceil ..)
  unfold rows
  dsimp only
  by_cases hinverted : floor coarse i.upper < ceil coarse i.lower
  · rw [if_pos hinverted]
    -- No multiple of the coarse grid lies in the interval.
    have hone : OneRow coarse i := by
      have hlow : ¬ coarse ∣ i.lower := by
        intro h
        rw [ceil_of_dvd h] at hinverted
        have := le_floor h hi.le
        omega
      have hstart : floor coarse i.lower = floor coarse i.upper := by
        rw [ceil_of_not_dvd hlow] at hinverted
        refine Nat.le_antisymm (floor_mono coarse hi.le) ?_
        by_contra hlt
        have := add_le_of_dvd (dvd_floor coarse i.lower) (dvd_floor coarse i.upper) (by omega)
        omega
      have hle := floor_add_le_ceil hcoarse hi
      have := ceil_le_floor_add hcoarse (a := i.upper)
      unfold OneRow
      omega
    exact ⟨hone.roundOut_eq hlower hupper, hi⟩
  · rw [if_neg hinverted]
    by_cases hempty : floor coarse i.upper = ceil coarse i.lower
    · rw [if_pos hempty]
      split
      · have hlt : i.lower < ceil coarse i.lower := by omega
        have hone : OneRow coarse ⟨i.lower, ceil coarse i.lower⟩ :=
          oneRow_of_dvd hcoarse hlt (.inr ⟨dvd_ceil .., hceil.le⟩)
        exact ⟨hone.roundOut_eq hlower hrow, hlt⟩
      · have hlt : ceil coarse i.lower < i.upper := by omega
        have hone : OneRow coarse ⟨ceil coarse i.lower, i.upper⟩ :=
          oneRow_of_dvd hcoarse hlt (.inl ⟨dvd_ceil .., by dsimp only; omega⟩)
        exact ⟨hone.roundOut_eq hrow hupper, hlt⟩
    · rw [if_neg hempty]
      exact ⟨roundOut_of_dvd hdvd (dvd_ceil ..) (dvd_floor ..), by dsimp only; omega⟩

theorem lower_le_roundIn (hfine : 0 < fine) (hcoarse : 0 < coarse) :
    i.lower ≤ (roundIn fine coarse i).lower :=
  (le_ceil hfine).trans (lower_le_rows (i := cells fine i) hcoarse)

theorem upper_roundIn_le : (roundIn fine coarse i).upper ≤ i.upper :=
  (upper_rows_le (i := cells fine i)).trans (floor_le ..)

theorem roundOut_roundIn (hcoarse : 0 < coarse) (hdvd : fine ∣ coarse)
    (hi : (cells fine i).lower < (cells fine i).upper) :
    roundOut fine coarse (roundIn fine coarse i) = roundIn fine coarse i ∧
      (roundIn fine coarse i).lower < (roundIn fine coarse i).upper :=
  roundOut_rows hcoarse hdvd hi (dvd_ceil ..) (dvd_floor ..)

end Rounding

end Cytrus.Support.Grid
