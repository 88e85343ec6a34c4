import Mathlib.Tactic

/-!
# Raw memory

Memory without bounds checks: an address may hold nothing, and a block that
touches such an address is not moved. Rows of equal length are moved and filled
one after the other.

## Main results

* `moveRows_isSome`, `fillRows_isSome`: when rows are moved and filled
* `moveRows_sameOutside`, `fillRows_sameOutside`: where memory stays as it was
-/

namespace Cytrus.Support

/-- What memory holds at each address, where it holds something. -/
abbrev RawMemory (β : Type*) : Type _ := Nat → Option β

namespace RawMemory

variable {β : Type*} (m : RawMemory β)

/-- The `n` addresses from `a` on hold something. -/
def Readable (a n : Nat) : Prop := ∀ i < n, (m (a + i)).isSome

instance (a n : Nat) : Decidable (m.Readable a n) :=
  inferInstanceAs (Decidable (∀ i < n, (m (a + i)).isSome))

/-- A block of `n` places moved from `src` to `dst`. -/
def move (dst src n : Nat) : Option (RawMemory β) :=
  if m.Readable src n ∧ m.Readable dst n then
    some fun a => if dst ≤ a ∧ a < dst + n then m (src + (a - dst)) else m a
  else none

/-- A block of `n` places that is filled with `x`. -/
def fill (x : β) (dst n : Nat) : Option (RawMemory β) :=
  if m.Readable dst n then
    some fun a => if dst ≤ a ∧ a < dst + n then some x else m a
  else none

/-- Rows of `n` places that are moved one after the other. -/
def moveRows (dstStride srcStride n : Nat) :
    RawMemory β → (dst src : Nat) → (rows : Nat) → Option (RawMemory β)
  | m, _, _, 0 => some m
  | m, dst, src, rows + 1 =>
      (m.move dst src n).bind fun m =>
        moveRows dstStride srcStride n m (dst + dstStride) (src + srcStride) rows

/-- Rows that are filled one after the other. -/
def fillRows (x : β) (stride : Nat) : RawMemory β → (dst : Nat) → (rows : Nat) → Option (RawMemory β)
  | m, _, 0 => some m
  | m, dst, rows + 1 =>
      (m.fill x dst stride).bind fun m => fillRows x stride m (dst + stride) rows

/-- Two memories that hold something at the same addresses, and the same outside of a range. -/
structure SameOutside (lo hi : Nat) (m m' : RawMemory β) : Prop where
  isSome : ∀ a, (m' a).isSome = (m a).isSome
  outside : ∀ a, a < lo ∨ hi ≤ a → m' a = m a

variable {m} {m' m'' : RawMemory β} {lo hi lo' hi' dst src n dstStride srcStride rows : Nat} {x : β}

theorem SameOutside.refl : SameOutside lo hi m m := ⟨fun _ => rfl, fun _ _ => rfl⟩

theorem SameOutside.trans (h : SameOutside lo hi m m') (h' : SameOutside lo hi m' m'') :
    SameOutside lo hi m m'' where
  isSome a := (h'.isSome a).trans (h.isSome a)
  outside a ha := (h'.outside a ha).trans (h.outside a ha)

theorem SameOutside.mono (h : SameOutside lo hi m m') (hlo : lo' ≤ lo) (hhi : hi ≤ hi') :
    SameOutside lo' hi' m m' where
  isSome := h.isSome
  outside a ha := h.outside a (by omega)

theorem SameOutside.readable_iff (h : SameOutside lo hi m m') (a n : Nat) :
    m'.Readable a n ↔ m.Readable a n :=
  forall₂_congr fun i _ => by rw [h.isSome]

theorem Readable.sub {a b k : Nat} (h : m.Readable a n) (hlo : a ≤ b) (hhi : b + k ≤ a + n) :
    m.Readable b k := by
  intro i hi
  have hplace : b + i = a + (b + i - a) := by omega
  rw [hplace]
  exact h _ (by omega)

theorem move_isSome : (m.move dst src n).isSome ↔ m.Readable src n ∧ m.Readable dst n := by
  rw [move]
  split <;> simp_all

theorem fill_isSome : (m.fill x dst n).isSome ↔ m.Readable dst n := by
  rw [fill]
  split <;> simp_all

theorem move_sameOutside (h : m.move dst src n = some m') : SameOutside dst (dst + n) m m' := by
  rw [move] at h
  split at h
  · next hreadable =>
      cases h
      refine ⟨fun a => ?_, fun a ha => if_neg (by omega)⟩
      split
      · next hin =>
          have hplace : a = dst + (a - dst) := by omega
          rw [hreadable.1 _ (by omega)]
          conv_rhs => rw [hplace]
          exact (hreadable.2 _ (by omega)).symm
      · rfl
  · cases h

theorem fill_sameOutside (h : m.fill x dst n = some m') : SameOutside dst (dst + n) m m' := by
  rw [fill] at h
  split at h
  · next hreadable =>
      cases h
      refine ⟨fun a => ?_, fun a ha => if_neg (by omega)⟩
      split
      · next hin =>
          have hplace : a = dst + (a - dst) := by omega
          rw [hplace]
          exact (hreadable _ (by omega)).symm
      · rfl
  · cases h

/-- Rows that are moved to a range leave memory as it was outside of it. -/
theorem moveRows_sameOutside (hn : n ≤ dstStride)
    (h : moveRows dstStride srcStride n m dst src rows = some m') :
    SameOutside dst (dst + dstStride * rows) m m' := by
  induction rows generalizing m dst src with
  | zero =>
      cases h
      exact .refl
  | succ rows ih =>
      obtain ⟨next, hmove, hrest⟩ := Option.bind_eq_some_iff.mp h
      rw [Nat.mul_succ]
      refine ((move_sameOutside hmove).mono le_rfl ?_).trans ((ih hrest).mono ?_ ?_) <;> omega

theorem fillRows_sameOutside {stride : Nat} (h : fillRows x stride m dst rows = some m') :
    SameOutside dst (dst + stride * rows) m m' := by
  induction rows generalizing m dst with
  | zero =>
      cases h
      exact .refl
  | succ rows ih =>
      obtain ⟨next, hfill, hrest⟩ := Option.bind_eq_some_iff.mp h
      rw [Nat.mul_succ]
      refine ((fill_sameOutside hfill).mono le_rfl ?_).trans ((ih hrest).mono ?_ ?_) <;> omega

/-- Rows are moved to a range that holds something if each of them can be read. -/
theorem moveRows_isSome (hn : n ≤ dstStride) (hdst : m.Readable dst (dstStride * rows)) :
    (moveRows dstStride srcStride n m dst src rows).isSome ↔
      ∀ y < rows, m.Readable (src + srcStride * y) n := by
  induction rows generalizing m dst src with
  | zero => exact iff_of_true rfl fun y hy => absurd hy (Nat.not_lt_zero y)
  | succ rows ih =>
      rw [Nat.mul_succ] at hdst
      have hfirst : m.Readable dst n := hdst.sub le_rfl (by omega)
      have hrest {next : RawMemory β} (hmove : m.move dst src n = some next) :
          (moveRows dstStride srcStride n next (dst + dstStride) (src + srcStride) rows).isSome ↔
            ∀ y < rows, m.Readable (src + srcStride * (y + 1)) n := by
        have hsame := move_sameOutside hmove
        rw [ih ((hsame.readable_iff _ _).mpr (hdst.sub (by omega) (by omega)))]
        refine forall₂_congr fun y _ => ?_
        rw [hsame.readable_iff, Nat.mul_succ, Nat.add_assoc, Nat.add_comm srcStride]
      rw [moveRows, Nat.forall_lt_succ_left, Nat.mul_zero, Nat.add_zero]
      cases hmove : m.move dst src n with
      | none =>
          refine iff_of_false Bool.false_ne_true fun hread => ?_
          have hmoved : (m.move dst src n).isSome := move_isSome.mpr ⟨hread.1, hfirst⟩
          rw [hmove] at hmoved
          exact Bool.false_ne_true hmoved
      | some next =>
          have hread : m.Readable src n := (move_isSome.mp (Option.isSome_of_eq_some hmove)).1
          rw [Option.bind_some, hrest hmove]
          exact ⟨fun h => ⟨hread, h⟩, fun h => h.2⟩

theorem fillRows_isSome {stride : Nat} (hdst : m.Readable dst (stride * rows)) :
    (fillRows x stride m dst rows).isSome := by
  induction rows generalizing m dst with
  | zero => rfl
  | succ rows ih =>
      rw [Nat.mul_succ] at hdst
      obtain ⟨next, hfill⟩ := Option.isSome_iff_exists.mp
        (fill_isSome.mpr (hdst.sub le_rfl (by omega) : m.Readable dst stride) :
          (m.fill x dst stride).isSome)
      rw [fillRows, hfill, Option.bind_some]
      exact ih (((fill_sameOutside hfill).readable_iff _ _).mpr (hdst.sub (by omega) (by omega)))

end RawMemory

end Cytrus.Support
