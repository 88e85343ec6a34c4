import Mathlib.Tactic
import Mathlib.Data.List.Range

/-!
# Rings of slots

A ring has `cap` slots, of which `count` from `head` on are in use; behind the
last slot comes the first. Its contents are a list, and what an operation on the
slots does to the list depends only on where it writes.

## Main results

* `contents_put`: writing the slot behind the used ones appends
* `contents_write`: writing a list from a place on is reading it back there
-/

namespace Cytrus.Support.Ring

variable {α : Type*} {slots slots' : Nat → α} {cap head count i j m n : Nat} {x : α} {l : List α}

/-- The slots in use, from `head` on. -/
def contents (slots : Nat → α) (cap head count : Nat) : List α :=
  (List.range count).map fun k => slots ((head + k) % cap)

/-- Write a list from `head` on. -/
def write (slots : Nat → α) (cap : Nat) : Nat → List α → Nat → α
  | _, [] => slots
  | head, x :: l => write (Function.update slots (head % cap) x) cap (head + 1) l

@[simp] theorem length_contents : (contents slots cap head count).length = count := by
  rw [contents, List.length_map, List.length_range]

theorem contents_congr (h : ∀ k < count, slots ((head + k) % cap) = slots' ((head + k) % cap)) :
    contents slots cap head count = contents slots' cap head count :=
  List.map_congr_left fun k hk => h k (List.mem_range.mp hk)

theorem contents_mod : contents slots cap (head % cap) count = contents slots cap head count :=
  List.map_congr_left fun k _ => by rw [Nat.mod_add_mod]

theorem contents_add :
    contents slots cap head (m + n) = contents slots cap head m ++ contents slots cap (head + m) n := by
  rw [contents, List.range_add, List.map_append, List.map_map]
  refine congrArg _ (List.map_congr_left fun k _ => ?_)
  rw [Function.comp_apply, add_assoc]

theorem contents_succ :
    contents slots cap head (count + 1) = slots (head % cap) :: contents slots cap (head + 1) count := by
  rw [add_comm, contents_add]
  rfl

theorem contents_concat :
    contents slots cap head (count + 1) = contents slots cap head count ++ [slots ((head + count) % cap)] := by
  rw [contents_add]
  rfl

theorem place_inj (hi : i < cap) (hj : j < cap) : (head + i) % cap = (head + j) % cap ↔ i = j := by
  constructor
  · intro h
    have hmod : i % cap = j % cap := Nat.ModEq.add_left_cancel' head h
    rwa [Nat.mod_eq_of_lt hi, Nat.mod_eq_of_lt hj] at hmod
  · rintro rfl
    rfl

/-- Writing the slot behind the used ones appends. -/
theorem contents_put (h : count < cap) :
    contents (Function.update slots ((head + count) % cap) x) cap head (count + 1) =
      contents slots cap head count ++ [x] := by
  rw [contents_concat, Function.update_self]
  refine congrArg (· ++ [x]) (contents_congr fun k hk => ?_)
  rw [Function.update_of_ne]
  rw [ne_eq, place_inj (hk.trans h) h]
  exact hk.ne

theorem write_of_ne (h : ∀ k < l.length, i ≠ (head + k) % cap) : write slots cap head l i = slots i := by
  induction l generalizing slots head with
  | nil => rfl
  | cons x rest ih =>
      rw [write, ih fun k hk => ?_]
      · exact Function.update_of_ne (h 0 (Nat.zero_lt_succ _)) ..
      · rw [add_right_comm, add_assoc]
        exact h (k + 1) (Nat.succ_lt_succ hk)

/-- Where writing starts matters up to rounds only. -/
theorem write_mod : write slots cap (head % cap) l = write slots cap head l := by
  induction l generalizing slots head with
  | nil => rfl
  | cons x rest ih => rw [write, write, Nat.mod_mod, ← ih, Nat.mod_add_mod, ih]

/-- Writing a list from a place on is reading it back there. -/
theorem contents_write (h : l.length ≤ cap) : contents (write slots cap head l) cap head l.length = l := by
  induction l generalizing slots head with
  | nil => rfl
  | cons x rest ih =>
      have hrest : rest.length < cap := h
      rw [List.length_cons, contents_succ, write, ih hrest.le, write_of_ne, Function.update_self]
      intro k hk
      have hplaces := @place_inj cap head 0 (k + 1) (Nat.zero_lt_of_lt hrest) (by omega)
      rw [add_zero] at hplaces
      rw [add_right_comm, add_assoc, ne_eq, hplaces]
      omega

theorem contents_write_behind (h : count + l.length ≤ cap) :
    contents (write slots cap (head + count) l) cap head count = contents slots cap head count := by
  refine contents_congr fun k hk => write_of_ne fun j hj => ?_
  rw [add_assoc, ne_eq, place_inj (by omega) (by omega)]
  omega

end Cytrus.Support.Ring
