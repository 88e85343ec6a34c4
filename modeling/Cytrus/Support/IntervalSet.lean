import Mathlib.Tactic
import Mathlib.Order.Interval.Finset.Nat
import Mathlib.Algebra.BigOperators.Group.List.Basic

/-!
# Sets of naturals kept as separated intervals

A set is a list of right-open intervals in increasing order. Intervals that
overlap or touch are joined, so the list is determined by the set; the
structure carries the proof. `toFinset` is the set denoted, and every
operation is characterised by what it does to it.
-/

namespace Cytrus.Support

/-- A right-open interval of a set; it is empty unless `lower < upper`. -/
structure Block where
  lower : Nat
  upper : Nat
  deriving DecidableEq, Repr

namespace Block

def length (i : Block) : Nat := i.upper - i.lower

def toFinset (i : Block) : Finset Nat := Finset.Ico i.lower i.upper

@[simp] theorem mem_toFinset {i : Block} {x : Nat} :
    x ∈ i.toFinset ↔ i.lower ≤ x ∧ x < i.upper := Finset.mem_Ico

@[simp] theorem card_toFinset (i : Block) : i.toFinset.card = i.length := Nat.card_Ico _ _

/-- Nonempty intervals at or after `b`, in order and with a gap before each but the first. -/
def Spaced : Nat → List Block → Prop
  | _, [] => True
  | b, i :: rest => b ≤ i.lower ∧ i.lower < i.upper ∧ Spaced (i.upper + 1) rest

/-- The union of a list of intervals. -/
def union (l : List Block) : Finset Nat := l.foldr (fun i s => i.toFinset ∪ s) ∅

/-- Add `[a, c)`, joining the intervals that it overlaps or touches. -/
def insertBlock (a c : Nat) : List Block → List Block
  | [] => [⟨a, c⟩]
  | i :: rest =>
      if i.upper < a then i :: insertBlock a c rest
      else if c < i.lower then ⟨a, c⟩ :: i :: rest
      else insertBlock (min a i.lower) (max c i.upper) rest

/-- An interval as a list, empty when it is. -/
def nonempty (i : Block) : List Block := if i.lower < i.upper then [i] else []

/-- Remove `[a, c)`, keeping what is left of each interval on either side. -/
def removeBlock (a c : Nat) : List Block → List Block
  | [] => []
  | i :: rest =>
      nonempty ⟨i.lower, min i.upper a⟩ ++ (nonempty ⟨max i.lower c, i.upper⟩ ++
        removeBlock a c rest)

variable {a b b' c x : Nat} {i : Block} {l l' : List Block}

@[simp] theorem union_nil : union [] = ∅ := rfl

@[simp] theorem union_cons : union (i :: l) = i.toFinset ∪ union l := rfl

@[simp] theorem union_append : union (l ++ l') = union l ∪ union l' := by
  induction l with
  | nil => simp
  | cons i rest ih => simp [ih, Finset.union_assoc]

theorem mem_union : x ∈ union l ↔ ∃ i ∈ l, i.lower ≤ x ∧ x < i.upper := by
  induction l with
  | nil => simp
  | cons i rest ih => simp [ih]

@[simp] theorem union_nonempty : union (nonempty i) = i.toFinset := by
  unfold nonempty
  by_cases hi : i.lower < i.upper
  · simp [hi]
  · have hempty : i.toFinset = ∅ := Finset.Ico_eq_empty hi
    simp [hi, hempty]

theorem Spaced.mono (h : Spaced b' l) (hb : b ≤ b') : Spaced b l := by
  cases l with
  | nil => trivial
  | cons i rest => exact ⟨hb.trans h.1, h.2⟩

theorem Spaced.bounds (h : Spaced b l) (hi : i ∈ l) : b ≤ i.lower ∧ i.lower < i.upper := by
  induction l generalizing b with
  | nil => simp at hi
  | cons j rest ih =>
      obtain ⟨hb, hj, hrest⟩ := h
      rcases List.mem_cons.mp hi with rfl | hi
      · exact ⟨hb, hj⟩
      · have hbounds := ih hrest hi
        omega

theorem Spaced.le_of_mem (h : Spaced b l) (hx : x ∈ union l) : b ≤ x := by
  obtain ⟨i, hi, hlo, -⟩ := mem_union.mp hx
  exact (h.bounds hi).1.trans hlo

theorem Spaced.pairwise (h : Spaced b l) :
    l.Pairwise fun i j => Disjoint i.toFinset j.toFinset := by
  induction l generalizing b with
  | nil => exact List.Pairwise.nil
  | cons i rest ih =>
      obtain ⟨-, -, hrest⟩ := h
      refine List.pairwise_cons.mpr ⟨fun j hj => ?_, ih hrest⟩
      have hlower := (hrest.bounds hj).1
      rw [Finset.disjoint_left]
      intro x hx hx'
      rw [mem_toFinset] at hx hx'
      omega

theorem union_reverse : union l.reverse = union l := by
  ext x
  simp [mem_union]

theorem Spaced.upper_notMem (h : Spaced b l) (hi : i ∈ l) : i.upper ∉ union l := by
  induction l generalizing b with
  | nil => simp at hi
  | cons j rest ih =>
      obtain ⟨hb, hj, hrest⟩ := h
      rw [union_cons, Finset.mem_union, mem_toFinset]
      rcases List.mem_cons.mp hi with rfl | hi
      · rintro (hx | hx)
        · omega
        · have hlo := hrest.le_of_mem hx
          omega
      · have hbounds := hrest.bounds hi
        rintro (hx | hx)
        · omega
        · exact ih hrest hi hx

theorem spaced_insertBlock (h : Spaced b l) (ha : b ≤ a) (hac : a < c) :
    Spaced b (insertBlock a c l) := by
  induction l generalizing a b c with
  | nil => exact ⟨ha, hac, trivial⟩
  | cons i rest ih =>
      obtain ⟨hb, hi, hrest⟩ := h
      unfold insertBlock
      by_cases hafter : i.upper < a
      · rw [if_pos hafter]
        exact ⟨hb, hi, ih hrest (by omega) hac⟩
      · rw [if_neg hafter]
        by_cases hbefore : c < i.lower
        · rw [if_pos hbefore]
          exact ⟨ha, hac, by simpa using hbefore, hi, hrest⟩
        · rw [if_neg hbefore]
          exact ih (hrest.mono (by omega)) (by omega) (by omega)

theorem union_insertBlock (hac : a < c) :
    union (insertBlock a c l) = (Block.mk a c).toFinset ∪ union l := by
  induction l generalizing a c with
  | nil => simp [insertBlock]
  | cons i rest ih =>
      unfold insertBlock
      by_cases hafter : i.upper < a
      · rw [if_pos hafter, union_cons, ih hac, union_cons, Finset.union_left_comm]
      · rw [if_neg hafter]
        by_cases hbefore : c < i.lower
        · rw [if_pos hbefore]
          simp
        · rw [if_neg hbefore, ih (by omega), union_cons, ← Finset.union_assoc]
          congr 1
          ext x
          simp only [Finset.mem_union, mem_toFinset]
          omega

theorem spaced_nonempty_append (hb : i.lower < i.upper → b ≤ i.lower)
    (hi : i.lower < i.upper → Spaced (i.upper + 1) l) (h : Spaced b l) :
    Spaced b (nonempty i ++ l) := by
  unfold nonempty
  by_cases hne : i.lower < i.upper
  · rw [if_pos hne]
    exact ⟨hb hne, hne, hi hne⟩
  · rw [if_neg hne]
    exact h

theorem spaced_removeBlock (h : Spaced b l) (hac : a < c) : Spaced b (removeBlock a c l) := by
  induction l generalizing b with
  | nil => trivial
  | cons i rest ih =>
      obtain ⟨hb, hi, hrest⟩ := h
      have htail := ih hrest
      have hhigh (b' : Nat) (hb' : b' ≤ max i.lower c) (hup : b' ≤ i.upper + 1) :
          Spaced b' (nonempty ⟨max i.lower c, i.upper⟩ ++ removeBlock a c rest) :=
        spaced_nonempty_append (fun _ => hb') (fun _ => htail) (htail.mono hup)
      apply spaced_nonempty_append
      · exact fun _ => hb
      · intro _
        exact hhigh _ (by simp only; omega) (by simp only; omega)
      · exact hhigh b (by omega) (by omega)

theorem union_removeBlock :
    union (removeBlock a c l) = union l \ (Block.mk a c).toFinset := by
  induction l with
  | nil => simp [removeBlock]
  | cons i rest ih =>
      rw [removeBlock, union_append, union_append, union_nonempty, union_nonempty, ih, union_cons]
      ext x
      simp only [Finset.mem_union, Finset.mem_sdiff, mem_toFinset]
      constructor
      · rintro (hx | hx | hx)
        · exact ⟨.inl (by omega), by omega⟩
        · exact ⟨.inl (by omega), by omega⟩
        · exact ⟨.inr hx.1, hx.2⟩
      · rintro ⟨hx | hx, hnot⟩
        · by_cases hlow : x < a
          · exact .inl (by omega)
          · exact .inr (.inl (by omega))
        · exact .inr (.inr ⟨hx, hnot⟩)

theorem card_union (h : Spaced b l) : (union l).card = (l.map length).sum := by
  induction l generalizing b with
  | nil => rfl
  | cons i rest ih =>
      obtain ⟨-, -, hrest⟩ := h
      have hdisjoint : Disjoint i.toFinset (union rest) := by
        rw [Finset.disjoint_left]
        intro x hx hxrest
        have hup := (mem_toFinset.mp hx).2
        have hlo := hrest.le_of_mem hxrest
        omega
      rw [union_cons, Finset.card_union_of_disjoint hdisjoint, card_toFinset, ih hrest]
      simp

end Block

open Block

/-- A set of naturals as its separated maximal intervals. -/
structure IntervalSet where
  blocks : List Block
  spaced : Spaced 0 blocks
  deriving DecidableEq

namespace IntervalSet

def empty : IntervalSet := ⟨[], trivial⟩

def toFinset (s : IntervalSet) : Finset Nat := union s.blocks

/-- The total length of the intervals. -/
def size (s : IntervalSet) : Nat := (s.blocks.map length).sum

def add (s : IntervalSet) (i : Block) : IntervalSet :=
  if h : i.lower < i.upper then
    ⟨insertBlock i.lower i.upper s.blocks, spaced_insertBlock s.spaced (Nat.zero_le _) h⟩
  else s

def sub (s : IntervalSet) (i : Block) : IntervalSet :=
  if h : i.lower < i.upper then
    ⟨removeBlock i.lower i.upper s.blocks, spaced_removeBlock s.spaced h⟩
  else s

/-- Union and difference with a set, interval by interval. -/
def addSet (s t : IntervalSet) : IntervalSet := t.blocks.foldl add s

@[inherit_doc addSet]
def subSet (s t : IntervalSet) : IntervalSet := t.blocks.foldl sub s

/-- Whether every member of the interval is in the set. -/
def contains (s : IntervalSet) (i : Block) : Bool :=
  i.upper ≤ i.lower || s.blocks.any fun j => j.lower ≤ i.lower && i.upper ≤ j.upper

/-- Whether some member of the interval is in the set. -/
def intersects (s : IntervalSet) (i : Block) : Bool :=
  i.lower < i.upper && s.blocks.any fun j => j.lower < i.upper && i.lower < j.upper

variable {s t : IntervalSet} {i : Block} {x : Nat}

@[simp] theorem toFinset_empty : empty.toFinset = ∅ := rfl

theorem mem_toFinset : x ∈ s.toFinset ↔ ∃ i ∈ s.blocks, i.lower ≤ x ∧ x < i.upper := mem_union

theorem toFinset_of_mem (hi : i ∈ s.blocks) : i.toFinset ⊆ s.toFinset := by
  intro x hx
  exact mem_toFinset.mpr ⟨i, hi, Block.mem_toFinset.mp hx⟩

theorem size_eq_card (s : IntervalSet) : s.size = s.toFinset.card := (card_union s.spaced).symm

theorem toFinset_add (s : IntervalSet) (i : Block) :
    (s.add i).toFinset = s.toFinset ∪ i.toFinset := by
  unfold add
  by_cases hi : i.lower < i.upper
  · rw [dif_pos hi, Finset.union_comm]
    exact union_insertBlock hi
  · have hempty : i.toFinset = ∅ := Finset.Ico_eq_empty hi
    rw [dif_neg hi, hempty, Finset.union_empty]

theorem toFinset_sub (s : IntervalSet) (i : Block) :
    (s.sub i).toFinset = s.toFinset \ i.toFinset := by
  unfold sub
  by_cases hi : i.lower < i.upper
  · rw [dif_pos hi]
    exact union_removeBlock
  · have hempty : i.toFinset = ∅ := Finset.Ico_eq_empty hi
    rw [dif_neg hi, hempty, Finset.sdiff_empty]

theorem toFinset_foldl_add (l : List Block) (s : IntervalSet) :
    (l.foldl add s).toFinset = s.toFinset ∪ union l := by
  induction l generalizing s with
  | nil => simp
  | cons i rest ih => rw [List.foldl_cons, ih, toFinset_add, Finset.union_assoc, union_cons]

theorem toFinset_foldl_sub (l : List Block) (s : IntervalSet) :
    (l.foldl sub s).toFinset = s.toFinset \ union l := by
  induction l generalizing s with
  | nil => simp
  | cons i rest ih =>
      rw [List.foldl_cons, ih, toFinset_sub, sdiff_sdiff_left, union_cons]
      rfl

theorem toFinset_addSet (s t : IntervalSet) : (s.addSet t).toFinset = s.toFinset ∪ t.toFinset :=
  toFinset_foldl_add t.blocks s

theorem toFinset_subSet (s t : IntervalSet) : (s.subSet t).toFinset = s.toFinset \ t.toFinset :=
  toFinset_foldl_sub t.blocks s

theorem contains_iff : s.contains i = true ↔ i.toFinset ⊆ s.toFinset := by
  simp only [contains, Bool.or_eq_true, decide_eq_true_eq, List.any_eq_true, Bool.and_eq_true]
  constructor
  · rintro (hempty | ⟨j, hj, hlo, hhi⟩)
    · intro x hx
      have hbounds := Block.mem_toFinset.mp hx
      omega
    · intro x hx
      have hbounds := Block.mem_toFinset.mp hx
      exact mem_toFinset.mpr ⟨j, hj, by omega, by omega⟩
  · intro hsub
    by_cases hi : i.lower < i.upper
    · right
      obtain ⟨j, hj, hlo, hhi⟩ :=
        mem_toFinset.mp (hsub (Block.mem_toFinset.mpr ⟨le_rfl, hi⟩))
      refine ⟨j, hj, hlo, ?_⟩
      by_contra hshort
      exact s.spaced.upper_notMem hj
        (hsub (Block.mem_toFinset.mpr ⟨by omega, by omega⟩))
    · exact .inl (by omega)

theorem intersects_iff : s.intersects i = false ↔ Disjoint s.toFinset i.toFinset := by
  rw [← Bool.not_eq_true, Finset.disjoint_left]
  simp only [intersects, Bool.and_eq_true, decide_eq_true_eq, List.any_eq_true]
  constructor
  · intro hno x hx hxi
    obtain ⟨j, hj, hlo, hhi⟩ := mem_toFinset.mp hx
    have hbounds := Block.mem_toFinset.mp hxi
    exact hno ⟨by omega, j, hj, by omega, by omega⟩
  · rintro hdisjoint ⟨hi, j, hj, hlo, hhi⟩
    have hj' := (s.spaced.bounds hj).2
    exact hdisjoint (mem_toFinset.mpr ⟨j, hj, le_max_left _ i.lower, by omega⟩)
      (Block.mem_toFinset.mpr ⟨by omega, by omega⟩)

end IntervalSet

end Cytrus.Support
