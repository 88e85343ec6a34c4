import Mathlib.Tactic

/-!
# Maps from intervals of naturals

A map is a list of right-open intervals in increasing order, each with a value;
the structure carries the proof. Touching intervals with the same value are
joined. Every operation is characterised by what it does to the value at a
number.

## Main results

* `value_update`: updating the values on an interval
* `lookup_overlapping`: the segments that overlap an interval hold the values in it
-/

namespace Cytrus.Support

/-- A right-open interval with a value; it is empty unless `lower < upper`. -/
structure MapSegment (α : Type*) where
  lower : Nat
  upper : Nat
  value : α
  deriving DecidableEq

namespace MapSegment

variable {α : Type*} {b b' lo hi n : Nat} {s : MapSegment α} {l l' : List (MapSegment α)}

/-- The numbers in a segment. -/
def Contains (s : MapSegment α) (n : Nat) : Prop := s.lower ≤ n ∧ n < s.upper

instance (s : MapSegment α) (n : Nat) : Decidable (s.Contains n) := inferInstanceAs (Decidable (_ ∧ _))

/-- Nonempty segments at or after `b`, in order and without overlaps. -/
def Ordered : Nat → List (MapSegment α) → Prop
  | _, [] => True
  | b, s :: rest => b ≤ s.lower ∧ s.lower < s.upper ∧ Ordered s.upper rest

/-- The value at a number. -/
def lookup : List (MapSegment α) → Nat → Option α
  | [], _ => none
  | s :: rest, n => if s.Contains n then some s.value else lookup rest n

/-- A segment as a list, empty when it is or has no value. -/
def piece (lo hi : Nat) : Option α → List (MapSegment α)
  | none => []
  | some v => if lo < hi then [⟨lo, hi, v⟩] else []

/-- Update the values on `[lo, hi)`, where segments are split at its ends. -/
def updateOn (f : Option α → Option α) : Nat → Nat → List (MapSegment α) → List (MapSegment α)
  | lo, hi, [] => piece lo hi (f none)
  | lo, hi, s :: rest =>
      piece s.lower (min s.upper lo) (some s.value) ++
        (piece lo (min hi s.lower) (f none) ++
          (piece (max lo s.lower) (min hi s.upper) (f (some s.value)) ++
            (piece (max s.lower hi) s.upper (some s.value) ++ updateOn f (max lo s.upper) hi rest)))

/-- Join touching segments with the same value. -/
def join [DecidableEq α] : List (MapSegment α) → List (MapSegment α)
  | [] => []
  | s :: rest =>
      match join rest with
      | [] => [s]
      | t :: rest' =>
          if s.upper = t.lower ∧ s.value = t.value then ⟨s.lower, t.upper, s.value⟩ :: rest'
          else s :: t :: rest'

@[simp] theorem lookup_nil : lookup ([] : List (MapSegment α)) n = none := rfl

theorem lookup_cons : lookup (s :: l) n = if s.Contains n then some s.value else lookup l n := rfl

theorem lookup_append : lookup (l ++ l') n = (lookup l n).or (lookup l' n) := by
  induction l with
  | nil => rfl
  | cons s rest ih =>
      rw [List.cons_append, lookup_cons, lookup_cons, ih]
      split <;> rfl

theorem lookup_piece (o : Option α) :
    lookup (piece lo hi o) n = if lo ≤ n ∧ n < hi then o else none := by
  cases o with
  | none => simp [piece]
  | some v =>
      rw [piece]
      split
      · rfl
      · rw [lookup_nil, if_neg (by omega)]

theorem Ordered.mono (h : Ordered b' l) (hb : b ≤ b') : Ordered b l := by
  cases l with
  | nil => trivial
  | cons s rest => exact ⟨hb.trans h.1, h.2⟩

theorem Ordered.bounds (h : Ordered b l) (hs : s ∈ l) : b ≤ s.lower ∧ s.lower < s.upper := by
  induction l generalizing b with
  | nil => exact absurd hs List.not_mem_nil
  | cons t rest ih =>
      rcases List.mem_cons.mp hs with rfl | hs
      · exact ⟨h.1, h.2.1⟩
      · exact ⟨(h.1.trans h.2.1.le).trans (ih h.2.2 hs).1, (ih h.2.2 hs).2⟩

theorem Ordered.lookup_of_lt (h : Ordered b l) (hn : n < b) : lookup l n = none := by
  induction l generalizing b with
  | nil => rfl
  | cons s rest ih =>
      obtain ⟨hb, hs, hrest⟩ := h
      rw [lookup_cons, if_neg fun hc => absurd (hb.trans hc.1) (not_le.mpr hn)]
      exact ih hrest (hn.trans (hb.trans_lt hs))

theorem Ordered.filter (p : MapSegment α → Bool) (h : Ordered b l) : Ordered b (l.filter p) := by
  induction l generalizing b with
  | nil => trivial
  | cons s rest ih =>
      obtain ⟨hb, hs, hrest⟩ := h
      rw [List.filter_cons]
      split
      · exact ⟨hb, hs, ih hrest⟩
      · exact (ih hrest).mono (hb.trans hs.le)

theorem Ordered.lookup_eq_some {v : α} (h : Ordered b l) :
    lookup l n = some v ↔ ∃ s ∈ l, s.Contains n ∧ s.value = v := by
  induction l generalizing b with
  | nil => simp
  | cons s rest ih =>
      obtain ⟨hb, hs, hrest⟩ := h
      rw [lookup_cons]
      by_cases hc : s.Contains n
      · have hnone : lookup rest n = none := hrest.lookup_of_lt hc.2
        have hrest' : ¬ ∃ t ∈ rest, t.Contains n ∧ t.value = v := by
          rw [← ih hrest, hnone]
          exact nofun
        rw [if_pos hc, List.exists_mem_cons_iff]
        simp only [hc, true_and, hrest', or_false, Option.some.injEq]
      · rw [if_neg hc, ih hrest, List.exists_mem_cons_iff]
        simp only [hc, false_and, false_or]

theorem ordered_piece_append (o : Option α) (hlo : b ≤ lo) (h : Ordered b' l) (hhi : hi ≤ b')
    (hb : b ≤ b') : Ordered b (piece lo hi o ++ l) := by
  cases o with
  | none => exact h.mono hb
  | some v =>
      rw [piece]
      split
      · exact ⟨hlo, ‹_›, h.mono hhi⟩
      · exact h.mono hb

/-- A nonempty interval, or one in front of all the segments. -/
def Clear (lo hi : Nat) (l : List (MapSegment α)) : Prop := lo < hi ∨ hi ≤ lo ∧ Ordered lo l

theorem Clear.rest (h : Clear lo hi (s :: l)) (hs : s.lower < s.upper) (hl : Ordered s.upper l) :
    Clear (max lo s.upper) hi l := by
  rcases Nat.lt_or_ge (max lo s.upper) hi with hlt | hge
  · exact .inl hlt
  · refine .inr ⟨hge, ?_⟩
    rcases h with hlt | ⟨-, hlo, -⟩
    · rwa [max_eq_right (by omega)]
    · rwa [max_eq_right (by omega)]

theorem ordered_updateOn (f : Option α → Option α) (h : Ordered b l) (hb : b ≤ lo)
    (hclear : Clear lo hi l) : Ordered b (updateOn f lo hi l) := by
  induction l generalizing b lo with
  | nil =>
      have hpiece := @ordered_piece_append α b (max b hi) lo hi [] (f none) hb trivial
        (le_max_right ..) (le_max_left ..)
      rwa [List.append_nil] at hpiece
  | cons s rest ih =>
      obtain ⟨hbs, hs, hrest⟩ := h
      have hlower : lo < hi ∨ lo ≤ s.lower := hclear.imp_right fun hfront => hfront.2.1
      have hlast := ih hrest (le_max_right lo s.upper) (hclear.rest hs hrest)
      have hright := @ordered_piece_append α (max (min s.upper lo) (min hi s.upper)) s.upper
        (max s.lower hi) s.upper _ (some s.value) (by omega) hlast le_rfl (by omega)
      have hboth := @ordered_piece_append α (max (min s.upper lo) (min hi s.lower)) _
        (max lo s.lower) (min hi s.upper) _ (f (some s.value)) (by omega) hright (by omega) (by omega)
      have hgap := @ordered_piece_append α (min s.upper lo) _ lo (min hi s.lower) _ (f none)
        (by omega) hboth (by omega) (by omega)
      exact ordered_piece_append _ hbs hgap le_rfl (by omega)

theorem lookup_updateOn (f : Option α → Option α) (h : Ordered b l) (hclear : Clear lo hi l) :
    lookup (updateOn f lo hi l) n = if lo ≤ n ∧ n < hi then f (lookup l n) else lookup l n := by
  induction l generalizing b lo with
  | nil => rw [updateOn, lookup_piece, lookup_nil]
  | cons s rest ih =>
      obtain ⟨hbs, hs, hrest⟩ := h
      rw [updateOn, lookup_append, lookup_append, lookup_append, lookup_append, lookup_piece,
        lookup_piece, lookup_piece, lookup_piece, ih hrest (hclear.rest hs hrest), lookup_cons]
      rcases Nat.lt_or_ge n s.upper with hupper | hupper
      · rw [hrest.lookup_of_lt hupper]
        simp only [MapSegment.Contains, max_le_iff, ← not_le]
        by_cases hlo : lo ≤ n <;> by_cases hhi : hi ≤ n <;> by_cases hn : s.lower ≤ n <;>
          simp [hlo, hhi, hn, not_le.mpr hupper]
      · have hbehind : ¬ s.Contains n := fun hc => absurd hc.2 (not_lt.mpr hupper)
        have hrange : max lo s.upper ≤ n ∧ n < hi ↔ lo ≤ n ∧ n < hi := by omega
        rw [if_neg (by omega), if_neg (by omega), if_neg (by omega), if_neg (by omega),
          if_neg hbehind, Option.none_or, Option.none_or, Option.none_or, Option.none_or]
        simp only [hrange]

section Join

variable [DecidableEq α]

theorem ordered_join (h : Ordered b l) : Ordered b (join l) := by
  induction l generalizing b with
  | nil => trivial
  | cons s rest ih =>
      obtain ⟨hb, hs, hrest⟩ := h
      have hjoined := ih hrest
      rw [join]
      cases hj : join rest with
      | nil => exact ⟨hb, hs, trivial⟩
      | cons t rest' =>
          rw [hj] at hjoined
          obtain ⟨hst, ht, hrest'⟩ := hjoined
          dsimp only
          split
          · exact ⟨hb, (hs.trans_le hst).trans ht, hrest'⟩
          · exact ⟨hb, hs, hst, ht, hrest'⟩

theorem lookup_join (h : Ordered b l) : lookup (join l) n = lookup l n := by
  induction l generalizing b with
  | nil => rfl
  | cons s rest ih =>
      obtain ⟨hb, hs, hrest⟩ := h
      have hjoined := ordered_join hrest
      rw [lookup_cons, ← ih hrest, join]
      cases hj : join rest with
      | nil => rw [lookup_cons]
      | cons t rest' =>
          rw [hj] at hjoined
          obtain ⟨hst, ht, -⟩ := hjoined
          dsimp only
          split
          · next hsame =>
            have hboth : (⟨s.lower, t.upper, s.value⟩ : MapSegment α).Contains n ↔
                s.Contains n ∨ t.Contains n := by
              simp only [Contains]
              omega
            rw [lookup_cons, lookup_cons]
            by_cases hc : s.Contains n
            · rw [if_pos hc, if_pos (hboth.mpr (.inl hc))]
            · rw [if_neg hc]
              by_cases hc' : t.Contains n
              · rw [if_pos hc', if_pos (hboth.mpr (.inr hc')), hsame.2]
              · rw [if_neg hc', if_neg fun hc'' => (hboth.mp hc'').elim hc hc']
          · rw [lookup_cons]

end Join

end MapSegment

/-- A map from disjoint intervals to values. -/
structure IntervalMap (α : Type*) where
  segments : List (MapSegment α)
  ordered : MapSegment.Ordered 0 segments

namespace IntervalMap

variable {α : Type*} {m : IntervalMap α} {lo hi n : Nat} {v : α}

def empty : IntervalMap α := ⟨[], trivial⟩

def value (m : IntervalMap α) (n : Nat) : Option α := MapSegment.lookup m.segments n

/-- The segments that overlap `[lo, hi)`, in order. -/
def overlapping (m : IntervalMap α) (lo hi : Nat) : List (MapSegment α) :=
  m.segments.filter fun s => s.lower < hi ∧ lo < s.upper ∧ lo < hi

theorem value_eq_some : m.value n = some v ↔ ∃ s ∈ m.segments, s.Contains n ∧ s.value = v :=
  m.ordered.lookup_eq_some

theorem mem_overlapping {s : MapSegment α} :
    s ∈ m.overlapping lo hi ↔ s ∈ m.segments ∧ s.lower < hi ∧ lo < s.upper ∧ lo < hi := by
  rw [overlapping, List.mem_filter, decide_eq_true_iff]

theorem ordered_overlapping : MapSegment.Ordered 0 (m.overlapping lo hi) := m.ordered.filter _

/-- A number of an interval has a value in a segment that overlaps the interval. -/
theorem lookup_overlapping (hlo : lo ≤ n) (hhi : n < hi) :
    MapSegment.lookup (m.overlapping lo hi) n = m.value n := by
  refine Option.ext fun v => ?_
  rw [ordered_overlapping.lookup_eq_some, value_eq_some]
  refine exists_congr fun s => and_congr_left fun hs => ?_
  obtain ⟨⟨hlower, hupper⟩, -⟩ := hs
  rw [mem_overlapping]
  exact ⟨fun hmem => hmem.1, fun hmem => ⟨hmem, by omega⟩⟩

section Update

variable [DecidableEq α]

/-- Update the values on `[lo, hi)`. -/
def update (m : IntervalMap α) (f : Option α → Option α) (lo hi : Nat) : IntervalMap α :=
  if h : lo < hi then
    ⟨MapSegment.join (MapSegment.updateOn f lo hi m.segments),
      MapSegment.ordered_join (MapSegment.ordered_updateOn f m.ordered (Nat.zero_le lo) (.inl h))⟩
  else m

/-- Give `[lo, hi)` one value. -/
def set (m : IntervalMap α) (lo hi : Nat) (v : α) : IntervalMap α := m.update (fun _ => some v) lo hi

/-- Remove the values on `[lo, hi)`. -/
def erase (m : IntervalMap α) (lo hi : Nat) : IntervalMap α := m.update (fun _ => none) lo hi

/-- Add to the values on `[lo, hi)`, where no value stands for zero. -/
def add [AddMonoid α] (m : IntervalMap α) (lo hi : Nat) (d : α) : IntervalMap α :=
  m.update (fun o => if o.getD 0 + d = 0 then none else some (o.getD 0 + d)) lo hi

theorem value_update (f : Option α → Option α) :
    (m.update f lo hi).value n = if lo ≤ n ∧ n < hi then f (m.value n) else m.value n := by
  rw [update]
  split
  · next h =>
    have hordered := MapSegment.ordered_updateOn f m.ordered (Nat.zero_le lo) (.inl h)
    exact (MapSegment.lookup_join hordered).trans (MapSegment.lookup_updateOn f m.ordered (.inl h))
  · rw [if_neg (by omega)]

theorem value_set : (m.set lo hi v).value n = if lo ≤ n ∧ n < hi then some v else m.value n :=
  value_update _

theorem value_erase : (m.erase lo hi).value n = if lo ≤ n ∧ n < hi then none else m.value n :=
  value_update _

theorem value_add [AddMonoid α] (d : α) :
    (m.add lo hi d).value n =
      if lo ≤ n ∧ n < hi then
        if (m.value n).getD 0 + d = 0 then none else some ((m.value n).getD 0 + d)
      else m.value n :=
  value_update _

theorem getD_value_add [AddMonoid α] (d : α) :
    ((m.add lo hi d).value n).getD 0 =
      if lo ≤ n ∧ n < hi then (m.value n).getD 0 + d else (m.value n).getD 0 := by
  rw [value_add]
  split
  · split
    · next hzero => exact hzero.symm
    · rfl
  · rfl

end Update

end IntervalMap

end Cytrus.Support
