import Mathlib.Tactic

/-!
# Slices of lists

Reading a range of a list, which has no answer past its end, and overwriting
one.
-/

namespace Cytrus.Support

variable {α : Type*} {l data data' : List α} {i j n m : Nat}

/-- The `n` elements from `i` on, if there are so many. -/
def slice (l : List α) (i n : Nat) : Option (List α) :=
  if i + n ≤ l.length then some ((l.drop i).take n) else none

/-- The list with `data` written over it from `i` on. -/
def overwrite (l : List α) (i : Nat) (data : List α) : List α :=
  l.take i ++ data ++ l.drop (i + data.length)

/-- The list with `n` elements, new ones being `x`. -/
def resized (l : List α) (n : Nat) (x : α) : List α := l.take n ++ List.replicate (n - l.length) x

theorem slice_eq_some : slice l i n = some data ↔ i + n ≤ l.length ∧ (l.drop i).take n = data := by
  unfold slice
  split <;> simp_all

theorem slice_eq_none : slice l i n = none ↔ l.length < i + n := by
  unfold slice
  split <;> simp_all

theorem length_of_slice (h : slice l i n = some data) : data.length = n := by
  obtain ⟨hbound, rfl⟩ := slice_eq_some.mp h
  rw [List.length_take, List.length_drop]
  omega

@[simp] theorem slice_append_length (front data rest : List α) :
    slice (front ++ data ++ rest) front.length data.length = some data := by
  rw [slice_eq_some]
  refine ⟨by simp, ?_⟩
  rw [List.append_assoc, List.drop_left, List.take_left]

theorem slice_drop (hi : i ≤ l.length) : slice (l.drop i) j n = slice l (i + j) n := by
  have hbound : j + n ≤ (l.drop i).length ↔ i + j + n ≤ l.length := by
    rw [List.length_drop]
    omega
  simp only [slice, hbound, List.drop_drop]

@[simp] theorem length_overwrite (h : i + data.length ≤ l.length) :
    (overwrite l i data).length = l.length := by
  simp only [overwrite, List.length_append, List.length_take, List.length_drop]
  omega

@[simp] theorem overwrite_nil : overwrite l i [] = l := by simp [overwrite]

theorem overwrite_overwrite (h : i + data.length ≤ l.length) :
    overwrite (overwrite l i data) (i + data.length) data' = overwrite l i (data ++ data') := by
  have hfront : (l.take i ++ data).length = i + data.length := by
    rw [List.length_append, List.length_take]
    omega
  have hbehind : (l.take i ++ data ++ l.drop (i + data.length)).drop
      (i + data.length + data'.length) = l.drop (i + (data ++ data').length) := by
    rw [← hfront, List.drop_append, hfront, List.drop_drop, List.length_append, ← Nat.add_assoc]
    simp only [Nat.add_sub_cancel_left, List.drop_eq_nil_of_le (hfront.le.trans (Nat.le_add_right _ _)),
      List.nil_append]
  rw [overwrite, overwrite, overwrite, hbehind, ← hfront, List.take_left]
  simp only [List.append_assoc]

theorem getElem?_overwrite (h : i + data.length ≤ l.length) :
    (overwrite l i data)[j]? =
      if j < i then l[j]? else if j < i + data.length then data[j - i]? else l[j]? := by
  have hi : (l.take i).length = i := by
    rw [List.length_take]
    omega
  rw [overwrite, List.append_assoc]
  split
  · rw [List.getElem?_append_left (by omega), List.getElem?_take_of_lt ‹_›]
  · rw [List.getElem?_append_right (by omega), hi]
    split
    · rw [List.getElem?_append_left (by omega)]
    · rw [List.getElem?_append_right (by omega), List.getElem?_drop]
      congr 1
      omega

@[simp] theorem length_resized (l : List α) (n : Nat) (x : α) :
    (resized l n x).length = n := by
  simp only [resized, List.length_append, List.length_take, List.length_replicate]
  omega

theorem resized_of_le {x : α} (h : l.length ≤ n) :
    resized l n x = l ++ List.replicate (n - l.length) x := by
  rw [resized, List.take_of_length_le h]

theorem drop_next {front rest : List α} (h : l.drop i = front ++ rest) (hn : front.length = n)
    (hj : j = i + n) : l.drop j = rest := by
  rw [hj, ← List.drop_drop, h, List.drop_left' hn]

section Records

variable {β : Type*} {f : β → List α} {w : Nat} {records : List β} {x : β} {rest : List α}

theorem length_flatMap_width (h : ∀ x, (f x).length = w) :
    (records.flatMap f).length = w * records.length := by
  induction records with
  | nil => rfl
  | cons y records ih =>
      rw [List.flatMap_cons, List.length_append, h, ih, List.length_cons, Nat.mul_succ, Nat.add_comm]

theorem take_drop_flatMap (h : ∀ x, (f x).length = w) (hx : records[i]? = some x) :
    ((records.flatMap f ++ rest).drop (w * i)).take w = f x := by
  induction records generalizing i with
  | nil => exact nomatch hx
  | cons y records ih =>
      rw [List.flatMap_cons, List.append_assoc]
      cases i with
      | zero =>
          cases Option.some.inj hx
          rw [Nat.mul_zero, List.drop_zero, List.take_left' (h _)]
      | succ i =>
          have hdrop : w * (i + 1) = (f y).length + w * i := by rw [h, Nat.mul_succ, Nat.add_comm]
          rw [hdrop, ← List.drop_drop, List.drop_left]
          exact ih hx

end Records

end Cytrus.Support
