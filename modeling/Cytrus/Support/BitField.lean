import Mathlib.Data.Nat.Bitwise
import Mathlib.Tactic

/-!
# Bit fields

Reading and assigning a field of a word, and words that are made by assigning
fields that do not overlap.

## Main results

* `extract_assign`, `extract_assign_of_disjoint`: a field after an assignment
* `extract_pack`: every field of a packed word is read back
-/

namespace Cytrus.Support.BitField

variable {pos width pos' width' n v i : Nat}

/-- The field of `width` bits from `pos` on. -/
def extract (pos width n : Nat) : Nat := n / 2 ^ pos % 2 ^ width

/-- The word with the field replaced by the low bits of a value. -/
def assign (pos width n v : Nat) : Nat :=
  n % 2 ^ pos + 2 ^ pos * (v % 2 ^ width + 2 ^ width * (n / 2 ^ (pos + width)))

theorem testBit_extract : (extract pos width n).testBit i = (decide (i < width) && n.testBit (pos + i)) := by
  rw [extract, Nat.testBit_mod_two_pow, Nat.testBit_div_two_pow, Nat.add_comm]

theorem testBit_assign : (assign pos width n v).testBit i =
    if pos ≤ i ∧ i < pos + width then v.testBit (i - pos) else n.testBit i := by
  have hlow : n % 2 ^ pos < 2 ^ pos := Nat.mod_lt _ (Nat.two_pow_pos pos)
  have hfield : v % 2 ^ width < 2 ^ width := Nat.mod_lt _ (Nat.two_pow_pos width)
  rw [assign, Nat.add_comm, Nat.testBit_two_pow_mul_add _ hlow, Nat.add_comm (v % 2 ^ width),
    Nat.testBit_two_pow_mul_add _ hfield, Nat.testBit_mod_two_pow, Nat.testBit_mod_two_pow,
    Nat.testBit_div_two_pow]
  by_cases hlo : i < pos
  · simp [hlo]
  · by_cases hhi : i < pos + width
    · simp [hlo, show i - pos < width by omega, show pos ≤ i ∧ i < pos + width by omega]
    · have hback : i - pos - width + (pos + width) = i := by omega
      simp [hlo, show ¬ i - pos < width by omega, hhi, hback]

/-- An assigned field holds the low bits of its value. -/
theorem extract_assign : extract pos width (assign pos width n v) = v % 2 ^ width := by
  apply Nat.eq_of_testBit_eq
  intro i
  rw [testBit_extract, testBit_assign, Nat.testBit_mod_two_pow]
  by_cases hi : i < width
  · simp [hi]
  · simp [hi]

/-- Two fields have no bit in common. -/
def Disjoint (pos width pos' width' : Nat) : Prop := pos + width ≤ pos' ∨ pos' + width' ≤ pos

instance : Decidable (Disjoint pos width pos' width') := inferInstanceAs (Decidable (_ ∨ _))

theorem extract_assign_of_disjoint (h : Disjoint pos width pos' width') :
    extract pos' width' (assign pos width n v) = extract pos' width' n := by
  apply Nat.eq_of_testBit_eq
  intro i
  rw [testBit_extract, testBit_extract, testBit_assign]
  by_cases hi : i < width'
  · unfold Disjoint at h
    rw [if_neg (by omega)]
  · simp [hi]

theorem assign_lt {bits : Nat} (hfield : pos + width ≤ bits) (hn : n < 2 ^ bits) :
    assign pos width n v < 2 ^ bits := by
  apply Nat.lt_pow_two_of_testBit
  intro i hi
  rw [testBit_assign, if_neg (by omega)]
  exact Nat.testBit_lt_two_pow (hn.trans_le (Nat.pow_le_pow_right Nat.two_pos hi))

/-! ## Packed words -/

/-- A field with its value. -/
structure Field where
  pos : Nat
  width : Nat
  value : Nat
  deriving DecidableEq, Repr

/-- The word that has all fields assigned, one after the other. -/
def packFrom (word : Nat) (fields : List Field) : Nat :=
  fields.foldl (fun word f => assign f.pos f.width word f.value) word

/-- The word that is zero outside of the fields. -/
def pack (fields : List Field) : Nat := packFrom 0 fields

/-- The fields do not overlap. -/
def Apart (fields : List Field) : Prop :=
  fields.Pairwise fun f g => Disjoint f.pos f.width g.pos g.width

variable {fields : List Field} {f : Field} {word : Nat}

theorem extract_packFrom_of_disjoint
    (h : ∀ g ∈ fields, Disjoint g.pos g.width pos width) :
    extract pos width (packFrom word fields) = extract pos width word := by
  induction fields generalizing word with
  | nil => rfl
  | cons g rest ih =>
      rw [packFrom, List.foldl_cons, ← packFrom, ih fun g hg => h g (List.mem_cons_of_mem _ hg)]
      exact extract_assign_of_disjoint (h g (by simp))

theorem extract_packFrom (h : Apart fields) (hf : f ∈ fields) :
    extract f.pos f.width (packFrom word fields) = f.value % 2 ^ f.width := by
  induction fields generalizing word with
  | nil => simp at hf
  | cons g rest ih =>
      obtain ⟨hg, hrest⟩ := List.pairwise_cons.mp h
      rw [packFrom, List.foldl_cons, ← packFrom]
      rcases List.mem_cons.mp hf with rfl | hf
      · rw [extract_packFrom_of_disjoint fun d hd => (hg d hd).symm, extract_assign]
      · exact ih hrest hf

theorem packFrom_lt {bits : Nat} (h : ∀ g ∈ fields, g.pos + g.width ≤ bits)
    (hword : word < 2 ^ bits) : packFrom word fields < 2 ^ bits := by
  induction fields generalizing word with
  | nil => exact hword
  | cons g rest ih =>
      rw [packFrom, List.foldl_cons, ← packFrom]
      apply ih fun g hg => h g (List.mem_cons_of_mem _ hg)
      exact assign_lt (h g (by simp)) hword

end Cytrus.Support.BitField
