import Cytrus.Support.Slices

/-!
# Painting a list

Steps that overwrite parts of a list with the values of one target. Whatever
the order and the overlaps, the parts that were overwritten hold the target in
the end.

## Main results

* `Paints.foldlM`: a loop of such steps
* `Paints.window`: such a step on a part of the list
-/

namespace Cytrus.Support

variable {α β : Type*} {n : Nat} {target : Nat → α} {area area' : Set Nat} {l m l' : List α}

/-- The list `l'` holds the target in the area, and what `l` holds outside of it. -/
structure Painted (target : Nat → α) (area : Set Nat) (l l' : List α) : Prop where
  length : l'.length = l.length
  inside : ∀ i ∈ area, l'[i]? = some (target i)
  outside : ∀ i, i ∉ area → l'[i]? = l[i]?

theorem Painted.refl : Painted target ∅ l l := ⟨rfl, fun _ => False.elim, fun _ _ => rfl⟩

theorem Painted.trans (h : Painted target area l m) (h' : Painted target area' m l') :
    Painted target (area ∪ area') l l' where
  length := h'.length.trans h.length
  inside := by
    intro i hi
    by_cases hi' : i ∈ area'
    · exact h'.inside i hi'
    · rw [h'.outside i hi']
      exact h.inside i (hi.resolve_right hi')
  outside := by
    intro i hi
    rw [h'.outside i fun hi' => hi (.inr hi'), h.outside i fun hi' => hi (.inl hi')]

theorem painted_overwrite {i : Nat} {data : List α} (h : i + data.length ≤ l.length)
    (hdata : ∀ j < data.length, data[j]? = some (target (i + j))) :
    Painted target {k | i ≤ k ∧ k < i + data.length} l (overwrite l i data) where
  length := length_overwrite h
  inside := by
    intro k hk
    have hsum : i + (k - i) = k := Nat.add_sub_cancel' hk.1
    rw [getElem?_overwrite h, if_neg (not_lt.mpr hk.1), if_pos hk.2]
    exact (hdata (k - i) (by have := hk.2; omega)).trans (by rw [hsum])
  outside := by
    intro k hk
    rw [getElem?_overwrite h]
    split
    · rfl
    · rw [if_neg fun hlt => hk ⟨not_lt.mp ‹_›, hlt⟩]

theorem painted_set {i : Nat} (hi : i < l.length) : Painted target {i} l (l.set i (target i)) where
  length := List.length_set
  inside := by
    rintro _ rfl
    exact List.getElem?_set_self hi
  outside := by
    intro k hk
    exact List.getElem?_set_ne fun heq => hk heq.symm

/-- A list whose first elements are painted holds the target there and is the same behind. -/
theorem Painted.eq_append (h : Painted target area l l') {m : Nat}
    (hin : ∀ i < m, i ∈ area) (hout : ∀ i < l.length, i ∈ area → i < m) :
    l' = (List.range m).map target ++ l.drop m := by
  refine List.ext_getElem? fun i => ?_
  have hlength : ((List.range m).map target).length = m := by rw [List.length_map, List.length_range]
  rcases Nat.lt_or_ge i m with hi | hi
  · rw [h.inside i (hin i hi), List.getElem?_append_left (by rwa [hlength]), List.getElem?_map,
      List.getElem?_range hi]
    rfl
  · have hsame : l'[i]? = l[i]? := by
      rcases Nat.lt_or_ge i l.length with hlt | hge
      · exact h.outside i fun hmem => absurd (hout i hlt hmem) (not_lt.mpr hi)
      · rw [List.getElem?_eq_none (h.length ▸ hge), List.getElem?_eq_none hge]
    rw [hsame, List.getElem?_append_right (by rwa [hlength]), hlength, List.getElem?_drop,
      Nat.add_sub_cancel' hi]

theorem Painted.eq_map (h : Painted target area l l') (harea : ∀ i < l.length, i ∈ area) :
    l' = (List.range l.length).map target := by
  rw [h.eq_append harea fun i hi _ => hi, List.drop_length, List.append_nil]

theorem Painted.window {o k : Nat} {w w' : List α} (hslice : slice l o k = some w)
    (h : Painted (fun i => target (o + i)) area w w') (harea : ∀ i ∈ area, i < k) :
    Painted target ((o + ·) '' area) l (overwrite l o w') := by
  have hlength : w'.length = k := h.length.trans (length_of_slice hslice)
  obtain ⟨hbound, hw⟩ := slice_eq_some.mp hslice
  have hinside : o + w'.length ≤ l.length := hlength ▸ hbound
  refine ⟨length_overwrite hinside, ?_, ?_⟩
  · rintro _ ⟨i, hi, rfl⟩
    have hik := harea i hi
    have hlow : ¬ o + i < o := by omega
    have hhigh : o + i < o + w'.length := by omega
    change (overwrite l o w')[o + i]? = some (target (o + i))
    rw [getElem?_overwrite hinside, if_neg hlow, if_pos hhigh, Nat.add_sub_cancel_left]
    exact h.inside i hi
  · intro i hi
    rw [getElem?_overwrite hinside]
    split
    · rfl
    · split
      · next hlow hhigh =>
        have hsum : o + (i - o) = i := Nat.add_sub_cancel' (not_lt.mp hlow)
        have hout : i - o ∉ area := fun hmem => hi ⟨_, hmem, hsum⟩
        rw [h.outside _ hout, ← hw, List.getElem?_take_of_lt (by omega), List.getElem?_drop, hsum]
      · rfl

theorem Painted.slice_eq (h : Painted target area l l') {i k : Nat} {data : List α}
    (hlength : data.length = k) (harea : ∀ j < k, i + j ∈ area)
    (hdata : ∀ j < k, data[j]? = some (target (i + j))) (hbound : i + k ≤ l.length) :
    slice l' i k = some data := by
  refine slice_eq_some.mpr ⟨h.length ▸ hbound, List.ext_getElem? fun j => ?_⟩
  by_cases hj : j < k
  · rw [List.getElem?_take_of_lt hj, List.getElem?_drop, h.inside _ (harea j hj), hdata j hj]
  · rw [List.getElem?_eq_none (by rw [List.length_take]; omega), List.getElem?_eq_none (by omega)]

/-- A step that succeeds on lists of the length, and paints the area. -/
def Paints (n : Nat) (target : Nat → α) (area : Set Nat) (f : List α → Option (List α)) : Prop :=
  ∀ l, l.length = n → ∃ l', f l = some l' ∧ Painted target area l l'

theorem Paints.bind {f g : List α → Option (List α)} (hf : Paints n target area f)
    (hg : Paints n target area' g) : Paints n target (area ∪ area') fun l => (f l).bind g := by
  intro l hl
  obtain ⟨m, hm, hpaint⟩ := hf l hl
  obtain ⟨l', hl', hpaint'⟩ := hg m (hpaint.length.trans hl)
  exact ⟨l', (congrArg (·.bind g) hm).trans hl', hpaint.trans hpaint'⟩

/-- A loop paints what its steps paint. -/
theorem Paints.foldlM {f : List α → β → Option (List α)} {area : β → Set Nat} {xs : List β}
    (h : ∀ x ∈ xs, Paints n target (area x) (f · x)) :
    Paints n target {i | ∃ x ∈ xs, i ∈ area x} fun l => xs.foldlM f l := by
  induction xs with
  | nil =>
      have hempty : {i | ∃ x ∈ ([] : List β), i ∈ area x} = ∅ := by simp
      exact fun l _ => ⟨l, rfl, hempty ▸ .refl⟩
  | cons x xs ih =>
      have hsplit : {i | ∃ y ∈ x :: xs, i ∈ area y} = area x ∪ {i | ∃ y ∈ xs, i ∈ area y} := by
        ext i
        simp
      have hstep := (h x (List.mem_cons_self ..)).bind (ih fun y hy => h y (List.mem_cons_of_mem _ hy))
      rw [hsplit]
      exact hstep

end Cytrus.Support
