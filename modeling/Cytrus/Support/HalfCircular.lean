import Mathlib

/-!
# Half-circular doubly linked lists

Each cell of the list names the cell behind it and the cell in front of it. The
last cell has the null cell behind it; the first cell names the last one, so
that a new cell is appended without a walk.

## Main results

* `HalfCircular.concat`, `HalfCircular.tail`, `HalfCircular.unlink`,
  `HalfCircular.dropLast`: the changes of the links for appending a cell, and for
  removing the first, an inner and the last cell
* `Path.walk_eq`: a walk visits the cells in order and ends
-/

namespace Cytrus.Support

variable {α : Type*} {f g : α → α} {l l' : List α} {a b e : α}

/-- Following `f` goes through the list and then to `e`. -/
def Path (f : α → α) : List α → α → Prop
  | [], _ => True
  | a :: l, e => f a = l.headD e ∧ Path f l e

namespace Path

theorem congr (h : ∀ a ∈ l, f a = g a) (hl : Path f l e) : Path g l e := by
  induction l with
  | nil => trivial
  | cons a l ih =>
      refine ⟨(h a List.mem_cons_self).symm.trans hl.1, ih (fun b hb => ?_) hl.2⟩
      exact h b (List.mem_cons_of_mem a hb)

theorem append_iff : Path f (l ++ l') e ↔ Path f l (l'.headD e) ∧ Path f l' e := by
  induction l with
  | nil => exact (true_and _).symm ▸ Iff.rfl
  | cons a l ih =>
      have hhead : (l ++ l').headD e = l.headD (l'.headD e) := by
        cases l
        · rfl
        · rfl
      rw [List.cons_append, Path, Path, ih, hhead, and_assoc]

theorem concat_iff : Path f (l ++ [a]) e ↔ Path f l a ∧ f a = e := by
  rw [append_iff]
  exact and_congr_right fun _ => and_iff_left trivial

/-- Only the last cell is led to another end. -/
theorem retarget (hl : Path f l e) (hne : l ≠ []) (hnodup : l.Nodup)
    (h : ∀ a ∈ l, a ≠ l.getLast hne → f a = g a) (hlast : g (l.getLast hne) = b) :
    Path g l b := by
  rw [← List.dropLast_append_getLast hne] at hl hnodup ⊢
  rw [concat_iff] at hl ⊢
  refine ⟨hl.1.congr fun a ha => h a (List.mem_of_mem_dropLast ha) ?_, hlast⟩
  rintro rfl
  exact List.disjoint_of_nodup_append hnodup ha (List.mem_singleton_self _)

theorem unlink {m : α} (hl : Path f (l ++ a :: m :: b :: l') e) (hnodup : (l ++ a :: b :: l').Nodup)
    (h : ∀ c ∈ l ++ a :: b :: l', c ≠ a → f c = g c) (ha : g a = b) :
    Path g (l ++ a :: b :: l') e := by
  obtain ⟨hfront, -, -, hback⟩ := append_iff.1 hl
  have hdisjoint := List.disjoint_of_nodup_append hnodup
  have hcons := (List.nodup_cons.1 (List.nodup_append.1 hnodup).2.1).1
  refine append_iff.2 ⟨hfront.congr fun c hc => ?_, ha, hback.congr fun c hc => ?_⟩
  · refine h c (List.mem_append_left _ hc) ?_
    rintro rfl
    exact hdisjoint hc List.mem_cons_self
  · refine h c (List.mem_append_right _ (List.mem_cons_of_mem a hc)) ?_
    rintro rfl
    exact hcons hc

theorem apply_eq (h : Path f (l ++ a :: b :: l') e) : f a = b :=
  (append_iff.1 h).2.1

end Path

/-- `l` are the cells that `next` links, and `prev` the other way round. -/
structure HalfCircular (next prev : α → α) (null : α) (l : List α) : Prop where
  forward : Path next l null
  backward : Path prev l.reverse (l.reverse.headD null)
  nodup : l.Nodup
  null_notMem : null ∉ l

namespace HalfCircular

variable {next prev next' prev' : α → α} {null m h t : α} {xs ys : List α}

theorem nil : HalfCircular next prev null [] := by
  constructor
  · trivial
  · trivial
  · exact List.nodup_nil
  · exact List.not_mem_nil

theorem congr (hl : HalfCircular next prev null l) (hnext : ∀ a ∈ l, next a = next' a)
    (hprev : ∀ a ∈ l, prev a = prev' a) : HalfCircular next' prev' null l where
  forward := hl.forward.congr hnext
  backward := hl.backward.congr fun a ha => hprev a (List.mem_reverse.1 ha)
  nodup := hl.nodup
  null_notMem := hl.null_notMem

theorem headD_reverse (hne : l ≠ []) : l.reverse.headD null = l.getLast hne := by
  rw [List.headD_eq_head?_getD, List.head?_reverse, List.getLast?_eq_getLast_of_ne_nil hne,
    Option.getD_some]

theorem prev_head (hl : HalfCircular next prev null l) (hne : l ≠ []) :
    prev (l.head hne) = l.getLast hne := by
  have hback := hl.backward
  rw [← List.cons_head_tail hne, List.reverse_cons, Path.concat_iff] at hback
  rw [hback.2, ← List.reverse_cons, List.cons_head_tail hne, headD_reverse hne]

theorem prev_eq (hl : HalfCircular next prev null (xs ++ a :: b :: ys)) : prev b = a := by
  have hback := hl.backward
  rw [List.reverse_append, List.reverse_cons, List.reverse_cons, List.append_assoc,
    List.append_assoc] at hback
  exact Path.apply_eq hback

theorem next_eq (hl : HalfCircular next prev null (xs ++ m :: ys)) : next m = ys.headD null :=
  (Path.append_iff.1 hl.forward).2.1

theorem next_getLast (hl : HalfCircular next prev null l) (hne : l ≠ []) :
    next (l.getLast hne) = null := by
  have hforward := hl.forward
  rw [← List.dropLast_append_getLast hne, Path.concat_iff] at hforward
  exact hforward.2

theorem singleton (hm : m ≠ null) (hnext : next m = null) (hprev : prev m = m) :
    HalfCircular next prev null [m] where
  forward := ⟨hnext, trivial⟩
  backward := ⟨hprev, trivial⟩
  nodup := List.nodup_singleton m
  null_notMem h := hm (List.mem_singleton.1 h).symm

theorem concat (hl : HalfCircular next prev null l) (hne : l ≠ []) (hm : m ∉ l) (hnull : m ≠ null)
    (hnext : ∀ a ∈ l, a ≠ l.getLast hne → next a = next' a)
    (hlast : next' (l.getLast hne) = m) (hnew : next' m = null)
    (hprev : ∀ a ∈ l, a ≠ l.head hne → prev a = prev' a)
    (hhead : prev' (l.head hne) = m) (hback : prev' m = l.getLast hne) :
    HalfCircular next' prev' null (l ++ [m]) := by
  refine ⟨?_, ?_, ?_, ?_⟩
  · exact Path.concat_iff.2 ⟨hl.forward.retarget hne hl.nodup hnext hlast, hnew⟩
  · rw [List.reverse_append, List.reverse_singleton, List.singleton_append]
    refine ⟨hback.trans (headD_reverse hne).symm, ?_⟩
    refine hl.backward.retarget (List.reverse_ne_nil_iff.2 hne) (List.nodup_reverse.2 hl.nodup)
      (fun a ha hlast => hprev a (List.mem_reverse.1 ha) ?_) ?_
    · rwa [List.getLast_reverse] at hlast
    · rwa [List.getLast_reverse]
  · exact List.nodup_append_comm.1 (List.nodup_cons.2 ⟨hm, hl.nodup⟩)
  · rw [List.mem_append, List.mem_singleton, not_or]
    exact ⟨hl.null_notMem, hnull.symm⟩

theorem tail (hl : HalfCircular next prev null (m :: l)) (hne : l ≠ [])
    (hnext : ∀ a ∈ l, next a = next' a)
    (hprev : ∀ a ∈ l, a ≠ l.head hne → prev a = prev' a)
    (hhead : prev' (l.head hne) = prev m) : HalfCircular next' prev' null l := by
  have hnodup := (List.nodup_cons.1 hl.nodup).2
  refine ⟨hl.forward.2.congr hnext, ?_, hnodup, fun h => ?_⟩
  · have hback := hl.backward
    rw [List.reverse_cons, Path.concat_iff] at hback
    rw [headD_reverse hne]
    refine hback.1.retarget (List.reverse_ne_nil_iff.2 hne) (List.nodup_reverse.2 hnodup)
      (fun a ha hlast => hprev a (List.mem_reverse.1 ha) ?_) ?_
    · rwa [List.getLast_reverse] at hlast
    · rw [List.getLast_reverse, hhead]
      exact (hl.prev_head (List.cons_ne_nil m l)).trans (List.getLast_cons hne)
  · exact hl.null_notMem (List.mem_cons_of_mem m h)

theorem unlink (hl : HalfCircular next prev null (xs ++ a :: m :: b :: ys))
    (hnext : ∀ c ∈ xs ++ a :: b :: ys, c ≠ a → next c = next' c) (ha : next' a = b)
    (hprev : ∀ c ∈ xs ++ a :: b :: ys, c ≠ b → prev c = prev' c) (hb : prev' b = a) :
    HalfCircular next' prev' null (xs ++ a :: b :: ys) := by
  have hsub : List.Sublist (xs ++ a :: b :: ys) (xs ++ a :: m :: b :: ys) :=
    ((List.sublist_cons_self m (b :: ys)).cons_cons a).append_left xs
  have hnodup := hl.nodup.sublist hsub
  have hrev (zs : List α) : (xs ++ a :: zs).reverse = zs.reverse ++ a :: xs.reverse := by
    rw [List.reverse_append, List.reverse_cons, List.append_assoc, List.singleton_append]
  refine ⟨hl.forward.unlink hnodup hnext ha, ?_, hnodup, fun h => hl.null_notMem (hsub.mem h)⟩
  have hback := hl.backward
  rw [headD_reverse (List.append_ne_nil_of_right_ne_nil xs (List.cons_ne_nil _ _))] at hback ⊢
  rw [hrev, List.reverse_cons, List.reverse_cons, List.append_assoc, List.append_assoc] at hback
  have hlast : (xs ++ a :: m :: b :: ys).getLast (by simp) =
      (xs ++ a :: b :: ys).getLast (by simp) := by
    rw [List.getLast_append_of_right_ne_nil _ _ (List.cons_ne_nil _ _),
      List.getLast_append_of_right_ne_nil _ _ (List.cons_ne_nil _ _),
      List.getLast_cons (List.cons_ne_nil _ _), List.getLast_cons (List.cons_ne_nil _ _),
      List.getLast_cons (List.cons_ne_nil _ _)]
  have hrevnodup := List.nodup_reverse.2 hnodup
  rw [hlast] at hback
  rw [hrev, List.reverse_cons, List.append_assoc] at hrevnodup ⊢
  refine Path.unlink hback hrevnodup (fun c hc hne => hprev c ?_ hne) hb
  rw [← List.mem_reverse, hrev, List.reverse_cons, List.append_assoc]
  exact hc

theorem dropLast (hl : HalfCircular next prev null (l ++ [m])) (hne : l ≠ [])
    (hnext : ∀ c ∈ l, c ≠ l.getLast hne → next c = next' c) (hlast : next' (l.getLast hne) = null)
    (hprev : ∀ c ∈ l, c ≠ l.head hne → prev c = prev' c)
    (hhead : prev' (l.head hne) = l.getLast hne) : HalfCircular next' prev' null l := by
  have hnodup := (List.nodup_append.1 hl.nodup).1
  refine ⟨?_, ?_, hnodup, fun h => hl.null_notMem (List.mem_append_left _ h)⟩
  · exact (Path.concat_iff.1 hl.forward).1.retarget hne hnodup hnext hlast
  · have hback := hl.backward
    rw [List.reverse_append, List.reverse_singleton, List.singleton_append] at hback
    rw [headD_reverse hne]
    refine hback.2.retarget (List.reverse_ne_nil_iff.2 hne) (List.nodup_reverse.2 hnodup)
      (fun a ha hlast => hprev a (List.mem_reverse.1 ha) ?_) ?_
    · rwa [List.getLast_reverse] at hlast
    · rwa [List.getLast_reverse]

end HalfCircular

/-- Follow `next` to the null cell, through fewer than `n` cells. -/
def walk [DecidableEq α] (next : α → α) (null : α) : Nat → α → Option (List α)
  | 0, _ => none
  | n + 1, a => if a = null then some [] else (walk next null n (next a)).map (a :: ·)

theorem Path.walk_eq [DecidableEq α] {next : α → α} {null : α} (hl : Path next l null)
    (hnull : null ∉ l) {n : Nat} (hn : l.length < n) :
    walk next null n (l.headD null) = some l := by
  induction l generalizing n with
  | nil =>
      obtain ⟨n, rfl⟩ := Nat.exists_eq_succ_of_ne_zero (Nat.ne_of_gt hn)
      exact if_pos rfl
  | cons a l ih =>
      obtain ⟨n, rfl⟩ := Nat.exists_eq_succ_of_ne_zero (Nat.ne_of_gt (Nat.zero_lt_of_lt hn))
      rw [List.mem_cons, not_or] at hnull
      rw [List.headD_cons, walk, if_neg (Ne.symm hnull.1), hl.1,
        ih hl.2 hnull.2 (Nat.lt_of_succ_lt_succ hn), Option.map_some]

end Cytrus.Support
