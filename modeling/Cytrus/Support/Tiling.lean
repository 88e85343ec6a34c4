import Mathlib.Tactic
import Mathlib.Data.List.Basic

/-!
# Tilings of an interval and the function they denote

A list of segments tiles `[lo, hi)` when each segment starts where the one
before it stops. Such a list denotes a function on addresses: the segment
that covers an address is read there. Cutting a segment in two, or joining
two that read alike, changes the list and not the function.
-/

namespace Cytrus.Support

/-- A segment starts somewhere, is some addresses long, and can be read at each of them. -/
class Segment (ε : Type*) (β : outParam Type*) where
  start : ε → Nat
  length : ε → Nat
  read : ε → Nat → β

namespace Segment

variable {ε β : Type*} [Segment ε β]

/-- The first address after a segment. -/
def stop (e : ε) : Nat := start e + length e

/-- `l` covers `[lo, hi)` with nonempty segments, in order and without gap or overlap. -/
def Tiled : Nat → List ε → Nat → Prop
  | lo, [], hi => lo = hi
  | lo, e :: rest, hi => start e = lo ∧ 0 < length e ∧ Tiled (stop e) rest hi

/-- What the first segment that stops after `a` holds at `a`. -/
def lookup : List ε → Nat → Option β
  | [], _ => none
  | e :: rest, a => if a < stop e then some (read e a) else lookup rest a

variable {lo mid hi a : Nat} {l l₁ l₂ l₃ : List ε} {e : ε}

@[simp] theorem tiled_nil : Tiled lo ([] : List ε) hi ↔ lo = hi := Iff.rfl

@[simp] theorem tiled_cons :
    Tiled lo (e :: l) hi ↔ start e = lo ∧ 0 < length e ∧ Tiled (stop e) l hi := Iff.rfl

@[simp] theorem lookup_nil : lookup ([] : List ε) a = none := rfl

theorem lookup_cons :
    lookup (e :: l) a = if a < stop e then some (read e a) else lookup l a := rfl

theorem lookup_cons_of_lt (h : a < stop e) : lookup (e :: l) a = some (read e a) :=
  if_pos h

theorem lookup_cons_of_le (h : stop e ≤ a) : lookup (e :: l) a = lookup l a :=
  if_neg (by omega)

theorem lookup_append_congr (h : lookup l₁ a = lookup l₂ a) :
    lookup (l ++ l₁) a = lookup (l ++ l₂) a := by
  induction l with
  | nil => exact h
  | cons e rest ih => simp only [List.cons_append, lookup_cons, ih]

theorem Tiled.le (h : Tiled lo l hi) : lo ≤ hi := by
  induction l generalizing lo with
  | nil => exact le_of_eq h
  | cons e rest ih =>
      obtain ⟨hs, hl, ht⟩ := h
      have hle := ih ht
      unfold stop at hle
      omega

theorem tiled_append :
    Tiled lo (l₁ ++ l₂) hi ↔ ∃ mid, Tiled lo l₁ mid ∧ Tiled mid l₂ hi := by
  induction l₁ generalizing lo with
  | nil => simp
  | cons e rest ih =>
      simp only [List.cons_append, tiled_cons, ih]
      constructor
      · rintro ⟨hs, hl, mid, h₁, h₂⟩
        exact ⟨mid, ⟨hs, hl, h₁⟩, h₂⟩
      · rintro ⟨mid, ⟨hs, hl, h₁⟩, h₂⟩
        exact ⟨hs, hl, mid, h₁, h₂⟩

theorem Tiled.append (h₁ : Tiled lo l₁ mid) (h₂ : Tiled mid l₂ hi) :
    Tiled lo (l₁ ++ l₂) hi := tiled_append.mpr ⟨mid, h₁, h₂⟩

theorem Tiled.right_unique {hi' : Nat} (h : Tiled lo l hi) (h' : Tiled lo l hi') : hi = hi' := by
  induction l generalizing lo with
  | nil => exact h.symm.trans h'
  | cons e rest ih => exact ih h.2.2 h'.2.2

theorem Tiled.start_lt (h : Tiled lo l hi) (he : e ∈ l) :
    lo ≤ start e ∧ start e < stop e ∧ stop e ≤ hi := by
  induction l generalizing lo with
  | nil => simp at he
  | cons d rest ih =>
      obtain ⟨hs, hl, ht⟩ := h
      have hle := ht.le
      rcases List.mem_cons.mp he with rfl | he
      · unfold stop at hle ⊢
        omega
      · have hr := ih ht he
        unfold stop at hr ⊢ hle
        omega

theorem Tiled.dvd {d : Nat} (h : Tiled lo l hi) (hlo : d ∣ lo)
    (hl : ∀ e ∈ l, d ∣ length e) : d ∣ hi := by
  induction l generalizing lo with
  | nil =>
      have heq : lo = hi := h
      exact heq ▸ hlo
  | cons e rest ih =>
      obtain ⟨hs, -, ht⟩ := h
      refine ih ht ?_ fun e he => hl e (by simp [he])
      unfold stop
      exact (hs ▸ hlo).add (hl e (by simp))

theorem Tiled.pairwise (h : Tiled lo l hi) : l.Pairwise fun a b => start a < start b := by
  induction l generalizing lo with
  | nil => exact List.Pairwise.nil
  | cons e rest ih =>
      obtain ⟨hs, hl, ht⟩ := h
      refine List.pairwise_cons.mpr ⟨fun d hd => ?_, ih ht⟩
      have hd := (ht.start_lt hd).1
      unfold stop at hd
      omega

/-- Every address of the interval is covered by one segment, which splits the tiling. -/
theorem Tiled.split_at (h : Tiled lo l hi) (hlo : lo ≤ a) (hhi : a < hi) :
    ∃ pre e post, l = pre ++ e :: post ∧ Tiled lo pre (start e) ∧
      start e ≤ a ∧ a < stop e ∧ Tiled (stop e) post hi := by
  induction l generalizing lo with
  | nil =>
      have heq : lo = hi := h
      omega
  | cons e rest ih =>
      obtain ⟨hs, hl, ht⟩ := h
      by_cases hae : a < stop e
      · exact ⟨[], e, rest, rfl, by simp [hs], by omega, hae, ht⟩
      · obtain ⟨pre, d, post, rfl, hpre, hd, had, hpost⟩ := ih ht (by omega)
        exact ⟨e :: pre, d, post, rfl, ⟨hs, hl, hpre⟩, hd, had, hpost⟩

/-- The segments that start below an address come before those that do not. -/
theorem Tiled.split_below (h : Tiled lo l hi) (b : Nat) :
    ∃ l₁ l₂, l = l₁ ++ l₂ ∧ (∀ e ∈ l₁, start e < b) ∧ ∀ e ∈ l₂, b ≤ start e := by
  induction l generalizing lo with
  | nil => exact ⟨[], [], rfl, by simp, by simp⟩
  | cons d rest ih =>
      by_cases hd : start d < b
      · obtain ⟨l₁, l₂, rfl, h₁, h₂⟩ := ih h.2.2
        exact ⟨d :: l₁, l₂, rfl, by simpa [hd] using h₁, h₂⟩
      · refine ⟨[], d :: rest, rfl, by simp, fun e he => ?_⟩
        have hle := (h.start_lt he).1
        have hstart := h.1
        omega

theorem Tiled.lookup_append_left (h : Tiled lo l₁ mid) (ha : a < mid) (hlo : lo ≤ a) :
    lookup (l₁ ++ l₂) a = lookup l₁ a := by
  induction l₁ generalizing lo with
  | nil =>
      have heq : lo = mid := h
      omega
  | cons e rest ih =>
      obtain ⟨hs, hl, ht⟩ := h
      simp only [List.cons_append, lookup_cons]
      by_cases hae : a < stop e
      · simp [hae]
      · simp only [if_neg hae]
        exact ih ht (by omega)

theorem Tiled.lookup_append_right (h : Tiled lo l₁ mid) (ha : mid ≤ a) :
    lookup (l₁ ++ l₂) a = lookup l₂ a := by
  induction l₁ generalizing lo with
  | nil => rfl
  | cons e rest ih =>
      obtain ⟨hs, hl, ht⟩ := h
      have hle := ht.le
      simp only [List.cons_append, lookup_cons]
      rw [if_neg (by omega)]
      exact ih ht

theorem Tiled.lookup_at (hpre : Tiled lo l₁ (start e)) (ha : start e ≤ a) (hae : a < stop e) :
    lookup (l₁ ++ e :: l₂) a = some (read e a) := by
  rw [hpre.lookup_append_right ha, lookup_cons, if_pos hae]

theorem Tiled.exists_lookup (h : Tiled lo l hi) (hlo : lo ≤ a) (hhi : a < hi) :
    ∃ b, lookup l a = some b := by
  obtain ⟨pre, e, post, rfl, hpre, hea, hae, -⟩ := h.split_at hlo hhi
  exact ⟨read e a, hpre.lookup_at hea hae⟩

theorem Tiled.lookup_of_le (h : Tiled lo l hi) (ha : hi ≤ a) : lookup l a = none := by
  rw [← List.append_nil l, h.lookup_append_right ha, lookup_nil]

/-- Replacing the tiles of an inner interval changes the function there and nowhere else. -/
theorem Tiled.lookup_replace {lo s t : Nat} {mid mid' : List ε}
    (h₁ : Tiled lo l₁ s) (hm : Tiled s mid t) (hm' : Tiled s mid' t) (ha : lo ≤ a) :
    lookup (l₁ ++ (mid' ++ l₂)) a =
      if s ≤ a ∧ a < t then lookup mid' a else lookup (l₁ ++ (mid ++ l₂)) a := by
  by_cases has : a < s
  · rw [if_neg (by omega), h₁.lookup_append_left has ha, h₁.lookup_append_left has ha]
  · have has' : s ≤ a := by omega
    rw [h₁.lookup_append_right has', h₁.lookup_append_right has']
    by_cases hat : a < t
    · rw [if_pos ⟨has', hat⟩, hm'.lookup_append_left hat has']
    · have hat' : t ≤ a := by omega
      rw [if_neg (by omega), hm.lookup_append_right hat', hm'.lookup_append_right hat']

end Segment

end Cytrus.Support
