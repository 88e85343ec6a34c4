import Mathlib.Tactic

/-!
# Binary heaps in arrays

A min-heap in the layout of `push_heap`, `pop_heap` and `make_heap`: the
children of a position `p` are `2 * p + 1` and `2 * p + 2`. Elements are
compared by a key.

## Implementation notes

The sifts take the number of steps they may make; the callers pass enough. An
order fact speaks of two positions through `getElem?`, so that it says nothing
about positions outside the array.
-/

namespace Cytrus.Support

variable {α β : Type*} [LinearOrder β]

namespace BinaryHeap

/-- `c` is a child of `p`. -/
def IsChild (p c : Nat) : Prop := c = 2 * p + 1 ∨ c = 2 * p + 2

def parent (c : Nat) : Nat := (c - 1) / 2

/-- The element at `p` comes no later than the one at `c`. -/
def Before (key : α → β) (a : Array α) (p c : Nat) : Prop :=
  ∀ x y, a[p]? = some x → a[c]? = some y → key x ≤ key y

/-- The heap order holds below the positions from `lo` on. -/
def OrderedFrom (key : α → β) (lo : Nat) (a : Array α) : Prop :=
  ∀ p c, lo ≤ p → IsChild p c → Before key a p c

/-- The whole array is a heap. -/
def IsHeap (key : α → β) (a : Array α) : Prop := OrderedFrom key 0 a

/-! ## Operations -/

/-- The element at `i` comes before the one at `j`, and both exist. -/
def earlier (key : α → β) (a : Array α) (i j : Nat) : Bool :=
  match a[i]?, a[j]? with
  | some x, some y => decide (key x < key y)
  | _, _ => false

/-- Exchange an element with its parent as long as it comes before it. -/
def siftUp (key : α → β) : Nat → Array α → Nat → Array α
  | 0, a, _ => a
  | fuel + 1, a, hole =>
      if earlier key a hole (parent hole) then
        siftUp key fuel (a.swapIfInBounds hole (parent hole)) (parent hole)
      else a

/-- The child of `p` that comes first; the left one where they tie. -/
def firstChild (key : α → β) (a : Array α) (p : Nat) : Nat :=
  if earlier key a (2 * p + 2) (2 * p + 1) then 2 * p + 2 else 2 * p + 1

/-- Exchange an element with its first child as long as that one comes before it. -/
def siftDown (key : α → β) : Nat → Array α → Nat → Array α
  | 0, a, _ => a
  | fuel + 1, a, hole =>
      if earlier key a (firstChild key a hole) hole then
        siftDown key fuel (a.swapIfInBounds hole (firstChild key a hole)) (firstChild key a hole)
      else a

def push (key : α → β) (a : Array α) (x : α) : Array α := siftUp key a.size (a.push x) a.size

def pop (key : α → β) (a : Array α) : Array α :=
  siftDown key a.size (a.swapIfInBounds 0 (a.size - 1)).pop 0

/-- Sift the elements below position `count` down, the last one first. -/
def sinkBelow (key : α → β) : Nat → Array α → Array α
  | 0, a => a
  | count + 1, a => sinkBelow key count (siftDown key a.size a count)

def make (key : α → β) (a : Array α) : Array α := sinkBelow key (a.size / 2) a

/-! ## Positions -/

section Positions

variable {key : α → β} {a : Array α} {i j k p c : Nat}

theorem earlier_iff : earlier key a i j = true ↔
    ∃ x y, a[i]? = some x ∧ a[j]? = some y ∧ key x < key y := by
  unfold earlier
  cases a[i]? with
  | none => simp
  | some x =>
      cases a[j]? with
      | none => simp
      | some y => simp

theorem earlier_lt (h : earlier key a i j = true) : i < a.size ∧ j < a.size := by
  obtain ⟨x, y, hx, hy, -⟩ := earlier_iff.mp h
  exact ⟨(Array.getElem?_eq_some_iff.mp hx).1, (Array.getElem?_eq_some_iff.mp hy).1⟩

theorem before_of_not_earlier (h : ¬ earlier key a i j = true) : Before key a j i := by
  intro y x hy hx
  by_contra hlt
  exact h (earlier_iff.mpr ⟨x, y, hx, hy, not_le.mp hlt⟩)

theorem before_of_earlier (h : earlier key a i j = true) : Before key a i j := by
  obtain ⟨x, y, hx, hy, hlt⟩ := earlier_iff.mp h
  intro x' y' hx' hy'
  cases hx.symm.trans hx'
  cases hy.symm.trans hy'
  exact hlt.le

theorem Before.refl (key : α → β) (a : Array α) (i : Nat) : Before key a i i := by
  intro x y hx hy
  cases hx.symm.trans hy
  exact le_rfl

theorem Before.trans (hij : Before key a i j) (hjk : Before key a j k) (hj : j < a.size) :
    Before key a i k := by
  intro x z hx hz
  have hy := Array.getElem?_eq_getElem hj
  exact (hij x _ hx hy).trans (hjk _ z hy hz)

theorem swap_getElem? (hi : i < a.size) (hj : j < a.size) :
    (a.swapIfInBounds i j)[k]? = if j = k then a[i]? else if i = k then a[j]? else a[k]? := by
  rw [Array.swapIfInBounds, dif_pos hi, dif_pos hj, Array.getElem?_swap,
    Array.getElem?_eq_getElem hi, Array.getElem?_eq_getElem hj]

theorem IsChild.lt (h : IsChild p c) : p < c := by
  unfold IsChild at h
  omega

theorem isChild_iff : IsChild p c ↔ 0 < c ∧ p = parent c := by
  unfold IsChild parent
  omega

theorem before_swap (hi : i < a.size) (hj : j < a.size) (hij : i ≠ j) :
    (Before key (a.swapIfInBounds i j) p c ↔
      Before key a (if p = i then j else if p = j then i else p)
        (if c = i then j else if c = j then i else c)) := by
  have hread : ∀ k, (a.swapIfInBounds i j)[k]? =
      a[if k = i then j else if k = j then i else k]? := by
    intro k
    rw [swap_getElem? hi hj]
    by_cases hki : k = i
    · rw [if_pos hki, if_neg fun hjk => hij (hki.symm.trans hjk.symm), if_pos hki.symm]
    · by_cases hkj : k = j
      · rw [if_pos hkj.symm, if_neg hki, if_pos hkj]
      · rw [if_neg (Ne.symm hkj), if_neg (Ne.symm hki), if_neg hki, if_neg hkj]
  unfold Before
  rw [hread, hread]

end Positions

/-! ## The same elements -/

section Perm

variable {key : α → β}

theorem swapIfInBounds_perm (a : Array α) (i j : Nat) : (a.swapIfInBounds i j).Perm a := by
  unfold Array.swapIfInBounds
  split
  · split
    · exact Array.swap_perm _ _
    · exact .refl a
  · exact .refl a

theorem siftUp_perm (key : α → β) (fuel : Nat) (a : Array α) (hole : Nat) : (siftUp key fuel a hole).Perm a := by
  induction fuel generalizing a hole with
  | zero => exact .refl a
  | succ fuel ih =>
      rw [siftUp]
      by_cases hearlier : earlier key a hole (parent hole)
      · rw [if_pos hearlier]
        exact (ih _ _).trans (swapIfInBounds_perm a _ _)
      · rw [if_neg hearlier]

theorem siftDown_perm (key : α → β) (fuel : Nat) (a : Array α) (hole : Nat) :
    (siftDown key fuel a hole).Perm a := by
  induction fuel generalizing a hole with
  | zero => exact .refl a
  | succ fuel ih =>
      rw [siftDown]
      by_cases hearlier : earlier key a (firstChild key a hole) hole
      · rw [if_pos hearlier]
        exact (ih _ _).trans (swapIfInBounds_perm a _ _)
      · rw [if_neg hearlier]

theorem sinkBelow_perm (count : Nat) (a : Array α) : (sinkBelow key count a).Perm a := by
  induction count generalizing a with
  | zero => exact .refl a
  | succ count ih => exact (ih _).trans (siftDown_perm key _ _ _)

theorem push_perm (a : Array α) (x : α) : (push key a x).toList.Perm (a.toList ++ [x]) := by
  have hperm := (siftUp_perm key a.size (a.push x) a.size).toList
  rwa [Array.toList_push] at hperm

theorem make_perm (a : Array α) : (make key a).toList.Perm a.toList := (sinkBelow_perm _ a).toList

/-- `pop` removes the front element and nothing else. -/
theorem pop_perm {a : Array α} {x : α} (h : a[0]? = some x) :
    a.toList.Perm (x :: (pop key a).toList) := by
  have hsize : 0 < a.size := (Array.getElem?_eq_some_iff.mp h).1
  have hrest := (siftDown_perm key a.size (a.swapIfInBounds 0 (a.size - 1)).pop 0).toList
  have hlast : (a.swapIfInBounds 0 (a.size - 1)).back? = some x := by
    rw [Array.back?, Array.size_swapIfInBounds, swap_getElem? hsize (by omega), if_pos rfl, h]
  have hsplit : (a.swapIfInBounds 0 (a.size - 1)).toList =
      (a.swapIfInBounds 0 (a.size - 1)).pop.toList ++ [x] := by
    rw [Array.toList_pop]
    have hback : (a.swapIfInBounds 0 (a.size - 1)).toList.getLast? = some x := by
      rwa [Array.getLast?_toList]
    exact (List.dropLast_append_getLast? x hback).symm
  have hmoved : (x :: (a.swapIfInBounds 0 (a.size - 1)).pop.toList).Perm a.toList := by
    refine (List.perm_append_singleton x _).symm.trans ?_
    rw [← hsplit]
    exact (swapIfInBounds_perm a _ _).toList
  exact hmoved.symm.trans (hrest.symm.cons x)

end Perm

/-! ## The heap order -/

section Order

variable {key : α → β} {a : Array α} {lo hole p c : Nat}

/-- What `siftUp` needs: the order holds but at the hole and its parent, and the children of the
hole come after that parent. -/
structure UpOrder (key : α → β) (a : Array α) (hole : Nat) : Prop where
  rest : ∀ p c, IsChild p c → c ≠ hole → Before key a p c
  grand : ∀ p c, IsChild p hole → IsChild hole c → Before key a p c

/-- What `siftDown` needs from position `lo` on: the order holds but below the hole, and the
children of the hole come after its parent. -/
structure DownOrder (key : α → β) (lo : Nat) (a : Array α) (hole : Nat) : Prop where
  inside : lo ≤ hole
  rest : ∀ p c, lo ≤ p → IsChild p c → p ≠ hole → Before key a p c
  grand : ∀ p c, lo ≤ p → IsChild p hole → IsChild hole c → Before key a p c

theorem UpOrder.move (h : UpOrder key a hole) (hearlier : earlier key a hole (parent hole)) :
    UpOrder key (a.swapIfInBounds hole (parent hole)) (parent hole) := by
  obtain ⟨hhole, hparent⟩ := earlier_lt hearlier
  have hchild : IsChild (parent hole) hole := by
    refine isChild_iff.mpr ⟨Nat.pos_of_ne_zero fun hzero => ?_, rfl⟩
    subst hzero
    obtain ⟨x, y, hx, hy, hlt⟩ := earlier_iff.mp hearlier
    cases hx.symm.trans hy
    exact lt_irrefl _ hlt
  have hne : hole ≠ parent hole := hchild.lt.ne'
  constructor
  · intro p c hpc hc
    rw [before_swap hhole hparent hne, if_neg hc]
    by_cases hchole : c = hole
    · -- the pair that was out of order
      obtain rfl : p = parent hole := (isChild_iff.mp (hchole ▸ hpc)).2
      rw [if_neg hne.symm, if_pos rfl, if_pos hchole]
      exact before_of_earlier hearlier
    · rw [if_neg hchole]
      by_cases hphole : p = hole
      · rw [if_pos hphole]
        exact h.grand _ c hchild (hphole ▸ hpc)
      · rw [if_neg hphole]
        by_cases hpparent : p = parent hole
        · rw [if_pos hpparent]
          exact (before_of_earlier hearlier).trans (h.rest _ c (hpparent ▸ hpc) hchole) hparent
        · rw [if_neg hpparent]
          exact h.rest p c hpc hchole
  · intro p c hp hc
    have habove : Before key a p (parent hole) := h.rest p _ hp hne.symm
    have hp₁ : p ≠ hole := (hp.lt.trans hchild.lt).ne
    have hc₁ : c ≠ parent hole := hc.lt.ne'
    rw [before_swap hhole hparent hne, if_neg hp₁, if_neg hp.lt.ne]
    by_cases hchole : c = hole
    · rw [if_pos hchole]
      exact habove
    · rw [if_neg hchole, if_neg hc₁]
      exact habove.trans (h.rest _ c hc hchole) hparent

theorem UpOrder.finish (h : UpOrder key a hole) (hstop : ¬ earlier key a hole (parent hole)) :
    IsHeap key a := by
  intro p c _ hpc
  by_cases hc : c = hole
  · subst hc
    rw [(isChild_iff.mp hpc).2]
    exact before_of_not_earlier hstop
  · exact h.rest p c hpc hc

theorem siftUp_isHeap {fuel : Nat} (h : UpOrder key a hole) (hfuel : hole ≤ fuel) :
    IsHeap key (siftUp key fuel a hole) := by
  induction fuel generalizing a hole with
  | zero =>
      obtain rfl : hole = 0 := by omega
      refine h.finish fun hearlier => ?_
      obtain ⟨x, y, hx, hy, hlt⟩ := earlier_iff.mp hearlier
      cases hx.symm.trans hy
      exact lt_irrefl _ hlt
  | succ fuel ih =>
      rw [siftUp]
      by_cases hearlier : earlier key a hole (parent hole)
      · rw [if_pos hearlier]
        refine ih (h.move hearlier) ?_
        unfold parent
        omega
      · rw [if_neg hearlier]
        exact h.finish hearlier

theorem firstChild_isChild (key : α → β) (a : Array α) (p : Nat) :
    IsChild p (firstChild key a p) := by
  unfold firstChild
  split
  · exact .inr rfl
  · exact .inl rfl

theorem firstChild_before (hc : IsChild p c) :
    Before key a (firstChild key a p) c := by
  unfold firstChild at *
  by_cases hright : earlier key a (2 * p + 2) (2 * p + 1)
  · rw [if_pos hright]
    rcases hc with rfl | rfl
    · exact before_of_earlier hright
    · exact .refl key a _
  · rw [if_neg hright]
    rcases hc with rfl | rfl
    · exact .refl key a _
    · exact before_of_not_earlier hright

theorem DownOrder.move (h : DownOrder key lo a hole)
    (hearlier : earlier key a (firstChild key a hole) hole) :
    DownOrder key lo (a.swapIfInBounds hole (firstChild key a hole)) (firstChild key a hole) := by
  obtain ⟨hfirst, hhole⟩ := earlier_lt hearlier
  have hchild := firstChild_isChild key a hole
  have hmin : ∀ c, IsChild hole c → Before key a (firstChild key a hole) c :=
    fun c hc => firstChild_before hc
  generalize firstChild key a hole = first at *
  have hne : hole ≠ first := hchild.lt.ne
  constructor
  · exact h.inside.trans hchild.lt.le
  · intro p c hlo hpc hp
    rw [before_swap hhole hfirst hne]
    by_cases hphole : p = hole
    · subst hphole
      rw [if_pos rfl, if_neg hpc.lt.ne']
      by_cases hcfirst : c = first
      · rw [if_pos hcfirst]
        exact before_of_earlier hearlier
      · rw [if_neg hcfirst]
        exact hmin c hpc
    · rw [if_neg hphole, if_neg hp]
      by_cases hchole : c = hole
      · rw [if_pos hchole]
        exact h.grand p first hlo (hchole ▸ hpc) hchild
      · have hcfirst : c ≠ first := by
          rintro rfl
          exact hphole ((isChild_iff.mp hpc).2.trans (isChild_iff.mp hchild).2.symm)
        rw [if_neg hchole, if_neg hcfirst]
        exact h.rest p c hlo hpc hphole
  · intro p c hlo hp hc
    obtain rfl : p = hole := (isChild_iff.mp hp).2.trans (isChild_iff.mp hchild).2.symm
    rw [before_swap hhole hfirst hne, if_pos rfl, if_neg (hchild.lt.trans hc.lt).ne',
      if_neg hc.lt.ne']
    exact h.rest first c (hlo.trans hchild.lt.le) hc hne.symm

theorem DownOrder.finish (h : DownOrder key lo a hole)
    (hstop : ¬ earlier key a (firstChild key a hole) hole) : OrderedFrom key lo a := by
  intro p c hlo hpc
  by_cases hp : p = hole
  · subst hp
    by_cases hc : c < a.size
    · have hfirst : firstChild key a p < a.size := by
        unfold firstChild
        split
        · rename_i hright
          exact (earlier_lt hright).1
        · rcases hpc with rfl | rfl <;> omega
      exact (before_of_not_earlier hstop).trans (firstChild_before hpc) hfirst
    · intro x y _ hy
      exact absurd (Array.getElem?_eq_some_iff.mp hy).1 hc
  · exact h.rest p c hlo hpc hp

theorem siftDown_ordered {fuel : Nat} (h : DownOrder key lo a hole) (hfuel : a.size ≤ fuel + hole) :
    OrderedFrom key lo (siftDown key fuel a hole) := by
  induction fuel generalizing a hole with
  | zero =>
      refine h.finish fun hearlier => ?_
      have := (earlier_lt hearlier).2
      omega
  | succ fuel ih =>
      rw [siftDown]
      by_cases hearlier : earlier key a (firstChild key a hole) hole
      · rw [if_pos hearlier]
        refine ih (h.move hearlier) ?_
        have := (firstChild_isChild key a hole).lt
        rw [Array.size_swapIfInBounds]
        omega
      · rw [if_neg hearlier]
        exact h.finish hearlier

/-! ### Operations keep the order -/

theorem isHeap_empty (key : α → β) : IsHeap key #[] := by
  intro p c _ _ x y hx
  simp at hx

theorem IsHeap.push (h : IsHeap key a) (x : α) : IsHeap key (push key a x) := by
  have hold : ∀ {i}, i < a.size → (a.push x)[i]? = a[i]? := fun hi => by
    rw [Array.getElem?_push, if_neg hi.ne]
  refine siftUp_isHeap ⟨fun p c hpc hc u v hu hv => ?_, fun p c _ hc u v _ hv => ?_⟩ le_rfl
  · have hsize := (Array.getElem?_eq_some_iff.mp hv).1
    rw [Array.size_push] at hsize
    have hpos := hpc.lt
    rw [hold (by omega)] at hu hv
    exact h p c (Nat.zero_le p) hpc u v hu hv
  · have hsize := (Array.getElem?_eq_some_iff.mp hv).1
    have := hc.lt
    rw [Array.size_push] at hsize
    omega

theorem IsHeap.pop (h : IsHeap key a) : IsHeap key (pop key a) := by
  have hold : ∀ {i y}, 0 < i → (a.swapIfInBounds 0 (a.size - 1)).pop[i]? = some y →
      a[i]? = some y := by
    intro i y hi hy
    have hsize := (Array.getElem?_eq_some_iff.mp hy).1
    rw [Array.size_pop, Array.size_swapIfInBounds] at hsize
    rw [Array.getElem?_pop, Array.size_swapIfInBounds, if_pos hsize,
      swap_getElem? (by omega) (by omega), if_neg (by omega), if_neg (by omega)] at hy
    exact hy
  refine siftDown_ordered ⟨le_rfl, fun p c _ hpc hp x y hx hy => ?_, fun p c _ hp => ?_⟩ ?_
  · exact h p c (Nat.zero_le p) hpc x y (hold (Nat.pos_of_ne_zero hp) hx)
      (hold (by have := hpc.lt; omega) hy)
  · exact absurd hp.lt (Nat.not_lt_zero p)
  · rw [Array.size_pop, Array.size_swapIfInBounds]
    omega

theorem sinkBelow_isHeap {count : Nat} (h : OrderedFrom key count a) :
    IsHeap key (sinkBelow key count a) := by
  induction count generalizing a with
  | zero => exact h
  | succ count ih =>
      refine ih (siftDown_ordered ⟨le_rfl, fun p c hlo hpc hp => ?_, fun p c hlo hp => ?_⟩ ?_)
      · exact h p c (by omega) hpc
      · have := hp.lt
        omega
      · omega

theorem isHeap_make (key : α → β) (a : Array α) : IsHeap key (make key a) := by
  refine sinkBelow_isHeap fun p c hlo hpc x y _ hy => ?_
  have hsize := (Array.getElem?_eq_some_iff.mp hy).1
  unfold IsChild at hpc
  omega

theorem IsHeap.front_le (h : IsHeap key a) {x y : α} (hx : a[0]? = some x) (hy : y ∈ a) :
    key x ≤ key y := by
  obtain ⟨i, hi, rfl⟩ := Array.mem_iff_getElem.mp hy
  have hbefore : Before key a 0 i := by
    induction i using Nat.strong_induction_on with
    | _ i ih =>
        by_cases hzero : i = 0
        · rw [hzero]
          exact .refl key a 0
        · have hchild : IsChild (parent i) i :=
            isChild_iff.mpr ⟨Nat.pos_of_ne_zero hzero, rfl⟩
          have hparent : parent i < a.size := hchild.lt.trans hi
          exact (ih (parent i) hchild.lt hparent (Array.getElem_mem hparent)).trans
            (h _ _ (Nat.zero_le _) hchild) hparent
  exact hbefore x _ hx (Array.getElem?_eq_getElem hi)

end Order

end BinaryHeap

end Cytrus.Support
