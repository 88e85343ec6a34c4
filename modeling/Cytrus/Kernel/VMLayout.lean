import Cytrus.Support.Tiling
import Cytrus.Kernel.VMManager

/-!
# Address spaces as lists of areas and as functions

An address space is read in two ways. `Layout` reads its map as the list of
its areas, which tile the managed addresses; `view` reads it as the function
that `FindVMA` gives. Splitting and merging act on the list and leave the
function alone.

## Implementation notes

`Zipper` is a list of areas with a position in it, as the loops of the range
calls hold one. `Zipper.merge` is the list-level meaning of `MergeAdjacent`,
`cutAt` that of a split at an address.
-/

namespace Cytrus.Kernel

open Support Support.OrderedMap Support.Segment Memory

/-- What an address space holds at one address. -/
structure Cell where
  type : VMAType
  permissions : VMAPermission
  meminfoState : MemoryState
  pointer : Nat
  deriving DecidableEq, Repr

namespace VirtualMemoryArea

/-- The host byte behind an address of the area; a free area has none. -/
def pointerAt (vma : VirtualMemoryArea) (address : Nat) : Nat :=
  match vma.type with
  | .free => 0
  | .backingMemory => vma.backingMemory.getPtr + (address - vma.base)

/-- What the area says about an address. -/
def cell (vma : VirtualMemoryArea) (address : Nat) : Cell :=
  ⟨vma.type, vma.permissions, vma.meminfoState, vma.pointerAt address⟩

/-- The area made of two that touch. -/
def extend (vma next : VirtualMemoryArea) : VirtualMemoryArea :=
  { vma with size := vma.size + next.size }

/-- The part of an area below an address. -/
def takeTo (vma : VirtualMemoryArea) (address : Nat) : VirtualMemoryArea :=
  { vma with size := address - vma.base }

/-- The part of an area from an address on. -/
def dropTo (vma : VirtualMemoryArea) (address : Nat) : VirtualMemoryArea :=
  { vma with
    base := address
    size := vma.base + vma.size - address
    backingMemory := match vma.type with
      | .free => vma.backingMemory
      | .backingMemory => vma.backingMemory.plus (address - vma.base) }

/-- The host buffer covers the whole area, so that no split of it can abort. -/
def Backed (vma : VirtualMemoryArea) : Prop :=
  vma.type = .backingMemory → vma.size ≤ vma.backingMemory.getSize

/-- What a split at an address asks of the buffer behind the area. -/
def CutOk (vma : VirtualMemoryArea) (address : Nat) : Prop :=
  vma.type = .backingMemory → address - vma.base < vma.backingMemory.getSize

instance : Segment VirtualMemoryArea Cell where
  start := base
  length := size
  read := cell

@[simp] theorem start_eq (v : VirtualMemoryArea) : Segment.start v = v.base := rfl
@[simp] theorem length_eq (v : VirtualMemoryArea) : Segment.length v = v.size := rfl
@[simp] theorem read_eq (v : VirtualMemoryArea) : Segment.read v = v.cell := rfl
@[simp] theorem stop_eq (v : VirtualMemoryArea) : Segment.stop v = v.base + v.size := rfl

@[simp] theorem extend_base (v n : VirtualMemoryArea) : (v.extend n).base = v.base := rfl
@[simp] theorem extend_size (v n : VirtualMemoryArea) :
    (v.extend n).size = v.size + n.size := rfl
@[simp] theorem extend_cell (v n : VirtualMemoryArea) : (v.extend n).cell = v.cell := rfl

@[simp] theorem takeTo_base (v : VirtualMemoryArea) (a : Nat) : (v.takeTo a).base = v.base := rfl
@[simp] theorem takeTo_size (v : VirtualMemoryArea) (a : Nat) :
    (v.takeTo a).size = a - v.base := rfl
@[simp] theorem takeTo_type (v : VirtualMemoryArea) (a : Nat) : (v.takeTo a).type = v.type := rfl
@[simp] theorem takeTo_cell (v : VirtualMemoryArea) (a : Nat) : (v.takeTo a).cell = v.cell := rfl

@[simp] theorem dropTo_base (v : VirtualMemoryArea) (a : Nat) : (v.dropTo a).base = a := rfl
@[simp] theorem dropTo_size (v : VirtualMemoryArea) (a : Nat) :
    (v.dropTo a).size = v.base + v.size - a := rfl
@[simp] theorem dropTo_type (v : VirtualMemoryArea) (a : Nat) : (v.dropTo a).type = v.type := rfl

variable {v n m : VirtualMemoryArea} {a b : Nat}

theorem canBeMergedWith_iff : v.canBeMergedWith n = true ↔
    v.permissions = n.permissions ∧ v.meminfoState = n.meminfoState ∧ v.type = n.type ∧
      (v.type = .backingMemory → v.backingMemory.getPtr + v.size = n.backingMemory.getPtr) := by
  simp [canBeMergedWith, and_assoc, or_iff_not_imp_left]

theorem cell_eq_of_canBeMergedWith (h : v.canBeMergedWith n = true)
    (htouch : v.base + v.size = n.base) (ha : n.base ≤ a) : v.cell a = n.cell a := by
  obtain ⟨hp, hs, ht, hb⟩ := canBeMergedWith_iff.mp h
  have hpointer : v.pointerAt a = n.pointerAt a := by
    unfold pointerAt
    rw [← ht]
    cases hv : v.type with
    | free => rfl
    | backingMemory =>
        have hptr := hb hv
        simp only
        omega
  simp [cell, hp, hs, ht, hpointer]

theorem extend_canBeMergedWith (h : v.canBeMergedWith n = true) :
    (v.extend n).canBeMergedWith m = n.canBeMergedWith m := by
  obtain ⟨hp, hs, ht, hb⟩ := canBeMergedWith_iff.mp h
  rw [Bool.eq_iff_iff, canBeMergedWith_iff, canBeMergedWith_iff]
  simp only [extend, hp, hs, ht]
  refine and_congr_right fun _ => and_congr_right fun _ => and_congr_right fun _ => ?_
  refine forall_congr' fun hn => ?_
  rw [← hb (ht.trans hn), Nat.add_assoc]

theorem CutOk.backingMem_ne_none (h : v.CutOk a) (hv : v.type = .backingMemory) :
    v.backingMemory.backingMem ≠ none := by
  intro hnone
  have hlt := h hv
  simp [MemoryRef.getSize, hnone] at hlt

theorem Backed.cutOk (h : v.Backed) (hlo : v.base ≤ a) (hhi : a < v.base + v.size) :
    v.CutOk a := by
  intro hv
  have hsize := h hv
  omega

theorem dropTo_cell (h : v.CutOk b) (hb : v.base ≤ b) (ha : b ≤ a) :
    (v.dropTo b).cell a = v.cell a := by
  have hpointer : (v.dropTo b).pointerAt a = v.pointerAt a := by
    unfold pointerAt
    rw [dropTo_type]
    cases hv : v.type with
    | free => rfl
    | backingMemory =>
        have hsome := h.backingMem_ne_none hv
        cases hmemory : v.backingMemory.backingMem with
        | none => exact (hsome hmemory).elim
        | some mem =>
            simp only [dropTo, hv, MemoryRef.getPtr, MemoryRef.plus, hmemory]
            omega
  simp only [cell, hpointer]
  rfl

theorem takeTo_canBeMergedWith_dropTo (h : v.CutOk a) :
    (v.takeTo a).canBeMergedWith (v.dropTo a) = true := by
  refine canBeMergedWith_iff.mpr ⟨rfl, rfl, rfl, fun hv => ?_⟩
  have hv : v.type = .backingMemory := hv
  have hsome := h.backingMem_ne_none hv
  cases hmemory : v.backingMemory.backingMem with
  | none => exact (hsome hmemory).elim
  | some mem =>
      simp only [takeTo, dropTo, hv, MemoryRef.getPtr, MemoryRef.plus, hmemory]
      omega

theorem canBeMergedWith_takeTo (v n : VirtualMemoryArea) (a : Nat) :
    n.canBeMergedWith (v.takeTo a) = n.canBeMergedWith v := rfl

theorem dropTo_canBeMergedWith (h : v.CutOk a)
    (hlo : v.base ≤ a) (hhi : a ≤ v.base + v.size) :
    (v.dropTo a).canBeMergedWith n = v.canBeMergedWith n := by
  have hjoin := extend_canBeMergedWith (m := n) (takeTo_canBeMergedWith_dropTo h)
  have hself : (v.takeTo a).extend (v.dropTo a) = v := by
    have hsize : a - v.base + (v.base + v.size - a) = v.size := by omega
    simp [takeTo, dropTo, extend, hsize]
  rw [hself] at hjoin
  exact hjoin.symm

end VirtualMemoryArea

open VirtualMemoryArea (stop_eq start_eq length_eq extend_size extend_cell dropTo_base
  takeTo_size takeTo_cell takeTo_base extend_base dropTo_size)

/-! ## Joining and cutting areas in a list -/

section Lists

variable {lo hi a b : Nat} {l pre post : List VirtualMemoryArea} {v n : VirtualMemoryArea}

theorem lookup_area_of_lt (h : a < v.base + v.size) : lookup (v :: l) a = some (v.cell a) :=
  lookup_cons_of_lt h

theorem lookup_area_of_le (h : v.base + v.size ≤ a) : lookup (v :: l) a = lookup l a :=
  lookup_cons_of_le h

theorem tiled_join (h : Tiled lo (pre ++ v :: n :: post) hi) :
    Tiled lo (pre ++ v.extend n :: post) hi := by
  obtain ⟨mid, hpre, hv, hvs, hn, hns, hpost⟩ := tiled_append.mp h
  simp only [start_eq, stop_eq,
    length_eq] at hv hvs hn hns hpost
  refine hpre.append ⟨hv, ?_, ?_⟩
  · simp only [length_eq, extend_size]
    omega
  · simp only [stop_eq, extend_base,
      extend_size]
    rwa [← Nat.add_assoc, ← hn]

theorem lookup_join (h : Tiled lo (pre ++ v :: n :: post) hi)
    (hm : v.canBeMergedWith n = true) :
    lookup (pre ++ v.extend n :: post) a = lookup (pre ++ v :: n :: post) a := by
  obtain ⟨mid, -, -, -, hn, -, -⟩ := tiled_append.mp h
  simp only [start_eq, stop_eq] at hn
  apply lookup_append_congr
  by_cases hav : a < v.base + v.size
  · rw [lookup_area_of_lt hav, lookup_area_of_lt (by simp; omega), extend_cell]
  · rw [lookup_area_of_le (v := v) (by omega)]
    by_cases han : a < n.base + n.size
    · rw [lookup_area_of_lt han, lookup_area_of_lt (by simp; omega),
        extend_cell,
        VirtualMemoryArea.cell_eq_of_canBeMergedWith hm hn.symm (by omega)]
    · rw [lookup_area_of_le (by simp; omega), lookup_area_of_le (by omega)]

theorem tiled_cut (h : Tiled lo (pre ++ v :: post) hi) (hlo : v.base < a)
    (hhi : a < v.base + v.size) : Tiled lo (pre ++ v.takeTo a :: v.dropTo a :: post) hi := by
  obtain ⟨mid, hpre, hv, hvs, hpost⟩ := tiled_append.mp h
  simp only [start_eq, stop_eq] at hv hpost
  refine hpre.append ⟨hv, ?_, ?_, ?_, ?_⟩
  · simpa using hlo
  · simp only [start_eq, stop_eq,
      takeTo_base, takeTo_size, dropTo_base]
    omega
  · simpa using hhi
  · have hstop : a + (v.base + v.size - a) = v.base + v.size := by omega
    simp only [stop_eq, dropTo_base,
      dropTo_size]
    rwa [hstop]

theorem lookup_cut (h : v.CutOk b) (hlo : v.base < b)
    (hhi : b < v.base + v.size) :
    lookup (pre ++ v.takeTo b :: v.dropTo b :: post) a = lookup (pre ++ v :: post) a := by
  apply lookup_append_congr
  by_cases hab : a < b
  · rw [lookup_area_of_lt (by simp; omega), lookup_area_of_lt (by omega),
      takeTo_cell]
  · rw [lookup_area_of_le (v := v.takeTo b) (by simp; omega)]
    by_cases hav : a < v.base + v.size
    · rw [lookup_area_of_lt hav, lookup_area_of_lt (by simp; omega),
        VirtualMemoryArea.dropTo_cell h (by omega) (by omega)]
    · rw [lookup_area_of_le (by simp; omega), lookup_area_of_le (by omega)]

/-- Cut the area that has an address strictly inside it, if there is one. -/
def cutAt (a : Nat) : List VirtualMemoryArea → List VirtualMemoryArea
  | [] => []
  | v :: rest =>
      if v.base < a ∧ a < v.base + v.size then v.takeTo a :: v.dropTo a :: rest
      else v :: cutAt a rest

/-- No area has the address strictly inside it. -/
def EdgeAt (a : Nat) (l : List VirtualMemoryArea) : Prop :=
  ∀ v ∈ l, ¬ (v.base < a ∧ a < v.base + v.size)

theorem cutAt_cases (a : Nat) (l : List VirtualMemoryArea) :
    (cutAt a l = l ∧ EdgeAt a l) ∨
      ∃ pre v post, l = pre ++ v :: post ∧ v.base < a ∧ a < v.base + v.size ∧
        cutAt a l = pre ++ v.takeTo a :: v.dropTo a :: post := by
  induction l with
  | nil => exact .inl ⟨rfl, by simp [EdgeAt]⟩
  | cons v rest ih =>
      by_cases hv : v.base < a ∧ a < v.base + v.size
      · exact .inr ⟨[], v, rest, rfl, hv.1, hv.2, by simp [cutAt, hv]⟩
      · rcases ih with ⟨hcut, hedge⟩ | ⟨pre, w, post, rfl, hlo, hhi, hcut⟩
        · refine .inl ⟨by rw [cutAt, if_neg hv, hcut], ?_⟩
          intro w hw
          rcases List.mem_cons.mp hw with rfl | hw
          · exact hv
          · exact hedge w hw
        · exact .inr ⟨v :: pre, w, post, rfl, hlo, hhi, by rw [cutAt, if_neg hv, hcut]; rfl⟩

theorem cutAt_of_edgeAt (h : EdgeAt a l) : cutAt a l = l := by
  rcases cutAt_cases a l with ⟨heq, -⟩ | ⟨pre, v, post, rfl, hlo, hhi, -⟩
  · exact heq
  · exact (h v (by simp) ⟨hlo, hhi⟩).elim

theorem cutAt_split (h : Tiled lo (pre ++ v :: post) hi) (hlo : v.base < a)
    (hhi : a < v.base + v.size) :
    cutAt a (pre ++ v :: post) = pre ++ v.takeTo a :: v.dropTo a :: post := by
  induction pre generalizing lo with
  | nil => simp [cutAt, hlo, hhi]
  | cons d rest ih =>
      have hd := h.2.2
      obtain ⟨mid, hrest, hv, -, -⟩ := tiled_append.mp hd
      have hle := hrest.le
      simp only [start_eq, stop_eq] at hv hle
      rw [List.cons_append, cutAt, if_neg (by omega), ih hd]
      rfl

theorem edgeAt_base (h : Tiled lo (pre ++ v :: post) hi) : EdgeAt v.base (pre ++ v :: post) := by
  obtain ⟨mid, hpre, hv, hvs, hpost⟩ := tiled_append.mp h
  simp only [start_eq, stop_eq] at hv hpost
  intro w hw hstrict
  simp only [List.mem_append, List.mem_cons] at hw
  rcases hw with hw | rfl | hw
  · have hle := (hpre.start_lt hw).2.2
    simp only [stop_eq] at hle
    omega
  · omega
  · have hle := (hpost.start_lt hw).1
    simp only [start_eq] at hle
    omega

theorem edgeAt_of_le (h : Tiled lo l hi) (ha : hi ≤ a) : EdgeAt a l := by
  intro w hw hstrict
  have hle := (h.start_lt hw).2.2
  simp only [stop_eq] at hle
  omega

theorem mem_cutAt_cases {w : VirtualMemoryArea} (hw : w ∈ cutAt a l) :
    w ∈ l ∨ ∃ v ∈ l, v.base < a ∧ a < v.base + v.size ∧ (w = v.takeTo a ∨ w = v.dropTo a) := by
  rcases cutAt_cases a l with ⟨heq, -⟩ | ⟨pre, v, post, rfl, hlo, hhi, heq⟩
  · exact .inl (heq ▸ hw)
  · rw [heq] at hw
    simp only [List.mem_append, List.mem_cons] at hw
    rcases hw with hw | hw | hw | hw
    · exact .inl (by simp [hw])
    · exact .inr ⟨v, by simp, hlo, hhi, .inl hw⟩
    · exact .inr ⟨v, by simp, hlo, hhi, .inr hw⟩
    · exact .inl (by simp [hw])

theorem mem_cutAt {w : VirtualMemoryArea} (hw : w ∈ cutAt a l) :
    ∃ v ∈ l, w.type = v.type ∧ w.permissions = v.permissions ∧
      w.meminfoState = v.meminfoState ∧ v.base ≤ w.base ∧
      w.base + w.size ≤ v.base + v.size := by
  rcases mem_cutAt_cases hw with hw | ⟨v, hv, hlo, hhi, rfl | rfl⟩
  · exact ⟨w, hw, rfl, rfl, rfl, le_rfl, le_rfl⟩
  · exact ⟨v, hv, rfl, rfl, rfl, le_rfl, by simp; omega⟩
  · exact ⟨v, hv, rfl, rfl, rfl, by simp; omega, by simp; omega⟩

theorem EdgeAt.cutAt (h : EdgeAt a l) (b : Nat) : EdgeAt a (cutAt b l) := by
  intro w hw hstrict
  obtain ⟨v, hv, -, -, -, hlo, hhi⟩ := mem_cutAt hw
  exact h v hv ⟨by omega, by omega⟩

theorem edgeAt_cutAt (h : Tiled lo l hi) (a : Nat) : EdgeAt a (cutAt a l) := by
  rcases cutAt_cases a l with ⟨heq, hedge⟩ | ⟨pre, v, post, rfl, hlo, hhi, heq⟩
  · rwa [heq]
  · have ht := tiled_cut h hlo hhi
    rw [List.append_cons] at ht
    rw [heq, List.append_cons]
    exact edgeAt_base (v := v.dropTo a) ht

/-- The buffer behind the area that is cut reaches past the cut. -/
def Cuttable (a : Nat) (l : List VirtualMemoryArea) : Prop :=
  ∀ v ∈ l, v.base < a → a < v.base + v.size → v.CutOk a

theorem lookup_cutAt (h : Cuttable b l) : lookup (cutAt b l) a = lookup l a := by
  rcases cutAt_cases b l with ⟨heq, -⟩ | ⟨pre, v, post, rfl, hlo, hhi, heq⟩
  · rw [heq]
  · rw [heq]
    exact lookup_cut (h v (by simp) hlo hhi) hlo hhi

theorem tiled_cutAt (h : Tiled lo l hi) (a : Nat) : Tiled lo (cutAt a l) hi := by
  rcases cutAt_cases a l with ⟨heq, -⟩ | ⟨pre, v, post, rfl, hlo, hhi, heq⟩
  · rwa [heq]
  · rw [heq]
    exact tiled_cut h hlo hhi

theorem cuttable_of_backed (h : ∀ v ∈ l, v.Backed) : Cuttable a l :=
  fun v hv hlo hhi => (h v hv).cutOk hlo.le hhi

theorem backed_cutAt (h : ∀ v ∈ l, v.Backed) : ∀ v ∈ cutAt a l, v.Backed := by
  rcases cutAt_cases a l with ⟨heq, -⟩ | ⟨pre, v, post, rfl, hlo, hhi, heq⟩
  · rwa [heq]
  · have hv := h v (by simp)
    rw [heq]
    intro w hw
    simp only [List.mem_append, List.mem_cons] at hw
    rcases hw with hw | rfl | rfl | hw
    · exact h w (by simp [hw])
    · intro htype
      have hsize := hv htype
      simp only [VirtualMemoryArea.takeTo] at *
      omega
    · intro htype
      have htype : v.type = .backingMemory := htype
      have hsize := hv htype
      simp only [VirtualMemoryArea.dropTo, htype, MemoryRef.getSize, MemoryRef.plus] at *
      cases hmem : v.backingMemory.backingMem with
      | none =>
          simp only [hmem] at hsize
          omega
      | some mem =>
          simp only [hmem] at hsize ⊢
          omega
    · exact h w (by simp [hw])

theorem exists_of_edgeAt (h : Tiled lo l hi) (he : EdgeAt a l) (hlo : lo ≤ a) (hhi : a < hi) :
    ∃ (left : List VirtualMemoryArea) (v : VirtualMemoryArea) (right : List VirtualMemoryArea),
      l = left.reverse ++ v :: right ∧ v.base = a := by
  obtain ⟨pre, v, post, rfl, -, hva, hav, -⟩ := h.split_at hlo hhi
  simp only [start_eq, stop_eq] at hva hav
  have hstrict := he v (by simp)
  exact ⟨pre.reverse, v, post, by simp, by omega⟩

end Lists

/-- A list of areas with a position in it; the areas before the position are listed from the
nearest one on. -/
structure Zipper where
  left : List VirtualMemoryArea
  focus : VirtualMemoryArea
  right : List VirtualMemoryArea

namespace Zipper

def areas (z : Zipper) : List VirtualMemoryArea := z.left.reverse ++ z.focus :: z.right

/-- Let the focus absorb the area after it if the two can be merged. -/
def mergeNext (z : Zipper) : Zipper :=
  match z.right with
  | next :: right =>
      if z.focus.canBeMergedWith next then { z with focus := z.focus.extend next, right } else z
  | [] => z

/-- Let the area before the focus absorb it if the two can be merged. -/
def mergePrev (z : Zipper) : Zipper :=
  match z.left with
  | prev :: left =>
      if prev.canBeMergedWith z.focus then { z with left, focus := prev.extend z.focus } else z
  | [] => z

/-- Merge on the right, then on the left, absorbing at most one area on each side. -/
def merge (z : Zipper) : Zipper := z.mergeNext.mergePrev

/-- Change the area at the position. -/
def onFocus (f : VirtualMemoryArea → VirtualMemoryArea) (z : Zipper) : Zipper :=
  { z with focus := f z.focus }

variable {z : Zipper} {hi a : Nat}

theorem mergeNext_cases (z : Zipper) :
    (z.mergeNext = z ∧ ∀ n ∈ z.right.head?, z.focus.canBeMergedWith n = false) ∨
      ∃ n rest, z.right = n :: rest ∧ z.focus.canBeMergedWith n = true ∧
        z.mergeNext = { z with focus := z.focus.extend n, right := rest } := by
  unfold mergeNext
  cases hr : z.right with
  | nil => exact .inl ⟨rfl, by simp⟩
  | cons n rest =>
      by_cases hm : z.focus.canBeMergedWith n = true
      · exact .inr ⟨n, rest, rfl, hm, by simp [hm]⟩
      · exact .inl ⟨by simp [hm], by simpa using hm⟩

theorem mergePrev_cases (z : Zipper) :
    (z.mergePrev = z ∧ ∀ p ∈ z.left.head?, p.canBeMergedWith z.focus = false) ∨
      ∃ p rest, z.left = p :: rest ∧ p.canBeMergedWith z.focus = true ∧
        z.mergePrev = { z with left := rest, focus := p.extend z.focus } := by
  unfold mergePrev
  cases hl : z.left with
  | nil => exact .inl ⟨rfl, by simp⟩
  | cons p rest =>
      by_cases hm : p.canBeMergedWith z.focus = true
      · exact .inr ⟨p, rest, rfl, hm, by simp [hm]⟩
      · exact .inl ⟨by simp [hm], by simpa using hm⟩

/-- What one merge keeps: the tiling, whole pages, and the function denoted. -/
structure Same (z z' : Zipper) : Prop where
  tiled : ∀ hi, Tiled 0 z.areas hi → Tiled 0 z'.areas hi
  paged : (∀ v ∈ z.areas, pageSize ∣ v.size) → ∀ v ∈ z'.areas, pageSize ∣ v.size
  lookup : ∀ hi, Tiled 0 z.areas hi → ∀ a, Segment.lookup z'.areas a = Segment.lookup z.areas a

theorem Same.refl (z : Zipper) : z.Same z := ⟨fun _ h => h, fun h => h, fun _ _ _ => rfl⟩

theorem Same.trans {z₁ z₂ z₃ : Zipper} (h : z₁.Same z₂) (h' : z₂.Same z₃) : z₁.Same z₃ :=
  ⟨fun hi ht => h'.tiled hi (h.tiled hi ht), fun hp => h'.paged (h.paged hp),
    fun hi ht a => (h'.lookup hi (h.tiled hi ht) a).trans (h.lookup hi ht a)⟩

theorem Same.of_join {z z' : Zipper} {pre post : List VirtualMemoryArea}
    {v n : VirtualMemoryArea} (hz : z.areas = pre ++ v :: n :: post)
    (hz' : z'.areas = pre ++ v.extend n :: post) (hm : v.canBeMergedWith n = true) :
    z.Same z' := by
  refine ⟨fun hi h => ?_, fun h w hw => ?_, fun hi h a => ?_⟩
  · rw [hz'] at *
    exact tiled_join (hz ▸ h)
  · rw [hz] at h
    rw [hz'] at hw
    rcases List.mem_append.mp hw with hw | hw
    · exact h w (by simp [hw])
    · rcases List.mem_cons.mp hw with rfl | hw
      · exact Dvd.dvd.add (h v (by simp)) (h n (by simp))
      · exact h w (by simp [hw])
  · rw [hz', hz]
    exact lookup_join (hz ▸ h) hm

theorem same_mergeNext (z : Zipper) : z.Same z.mergeNext := by
  rcases z.mergeNext_cases with ⟨heq, -⟩ | ⟨n, rest, hr, hm, heq⟩
  · rw [heq]
    exact .refl z
  · exact .of_join (by rw [areas, hr]) (by rw [heq, areas]) hm

theorem same_mergePrev (z : Zipper) : z.Same z.mergePrev := by
  rcases z.mergePrev_cases with ⟨heq, -⟩ | ⟨p, rest, hl, hm, heq⟩
  · rw [heq]
    exact .refl z
  · have hz : z.areas = rest.reverse ++ p :: z.focus :: z.right := by simp [areas, hl]
    exact .of_join hz (by simp [heq, areas]) hm

theorem same_merge (z : Zipper) : z.Same z.merge :=
  z.same_mergeNext.trans z.mergeNext.same_mergePrev

theorem length_merge_right (z : Zipper) : z.merge.right.length ≤ z.right.length := by
  have hprev : z.merge.right = z.mergeNext.right := by
    unfold merge
    rcases z.mergeNext.mergePrev_cases with ⟨heq, -⟩ | ⟨p, rest, -, -, heq⟩ <;> rw [heq]
  rw [hprev]
  rcases z.mergeNext_cases with ⟨heq, -⟩ | ⟨n, rest, hr, -, heq⟩
  · rw [heq]
  · rw [heq, hr]
    simp

end Zipper

/-- The map that holds a list of areas, each under its base address. -/
def entries (l : List VirtualMemoryArea) : Entries Nat VirtualMemoryArea :=
  l.map fun v => (v.base, v)

section Entries

variable {lo hi : Nat} {l pre post : List VirtualMemoryArea} {v w : VirtualMemoryArea}

@[simp] theorem entries_nil : entries [] = [] := rfl

@[simp] theorem entries_cons : entries (v :: l) = (v.base, v) :: entries l := rfl

@[simp] theorem entries_append : entries (pre ++ post) = entries pre ++ entries post := by
  simp [entries]

theorem head?_entries : (entries l).head?.map Prod.fst = l.head?.map (·.base) := by
  cases l <;> rfl

theorem getLast?_entries : (entries l).getLast?.map Prod.fst = l.getLast?.map (·.base) := by
  simp [entries, List.getLast?_map, Function.comp_def]

theorem mem_entries {e : Nat × VirtualMemoryArea} :
    e ∈ entries l ↔ e.1 = e.2.base ∧ e.2 ∈ l := by
  constructor
  · intro he
    obtain ⟨v, hv, rfl⟩ := List.mem_map.mp he
    exact ⟨rfl, hv⟩
  · rintro ⟨hkey, hv⟩
    exact List.mem_map.mpr ⟨e.2, hv, by rw [← hkey]⟩

theorem sorted_entries (h : Tiled lo l hi) : Sorted (entries l) := by
  unfold Sorted entries
  rw [List.pairwise_map]
  exact h.pairwise

end Entries

namespace VMManager

/-- The areas of an address space in address order. -/
def areas (vm : VMManager) : List VirtualMemoryArea := vm.vmaMap.map Prod.snd

/-- The map holds exactly the areas `l` under their bases; they cover the addresses below
`maxAddress` without gap or overlap, and every size is a positive number of pages. -/
structure Layout (vm : VMManager) (l : List VirtualMemoryArea) : Prop where
  map_eq : vm.vmaMap = entries l
  tiled : Tiled 0 l maxAddress
  paged : ∀ v ∈ l, pageSize ∣ v.size

/-- The map of the address space is an exact tiling. -/
def WellFormed (vm : VMManager) : Prop := vm.Layout vm.areas

/-- The address space as a function on addresses, read through `FindVMA`. -/
def view (vm : VMManager) (address : Nat) : Option Cell :=
  ((vm.findVMA address).bind (at? vm.vmaMap)).map fun vma => vma.cell address

variable {vm vm' : VMManager} {l pre post : List VirtualMemoryArea} {v w : VirtualMemoryArea}
  {a b : Nat}

theorem Layout.areas_eq (h : vm.Layout l) : vm.areas = l := by
  unfold areas
  rw [h.map_eq, entries, List.map_map]
  exact List.map_id l

theorem Layout.wellFormed (h : vm.Layout l) : vm.WellFormed := by
  unfold WellFormed
  rw [h.areas_eq]
  exact h

theorem Layout.sorted (h : vm.Layout l) : Sorted (entries l) := sorted_entries h.tiled

theorem Layout.sorted_split (h : vm.Layout (pre ++ v :: post)) :
    Sorted (entries pre ++ (v.base, v) :: entries post) := by
  simpa using h.sorted

theorem Layout.map_split (h : vm.Layout (pre ++ v :: post)) :
    vm.vmaMap = entries pre ++ (v.base, v) :: entries post := by
  simpa using h.map_eq

theorem Layout.at?_base (h : vm.Layout (pre ++ v :: post)) : at? vm.vmaMap v.base = some v := by
  rw [h.map_split]
  exact at?_split h.sorted_split

theorem Layout.pre_tiled (h : vm.Layout (pre ++ v :: post)) : Tiled 0 pre v.base := by
  obtain ⟨mid, hpre, hbase, -, -⟩ := tiled_append.mp h.tiled
  simp only [start_eq] at hbase
  exact hbase ▸ hpre

theorem Layout.post_tiled (h : vm.Layout (pre ++ v :: post)) :
    Tiled (v.base + v.size) post maxAddress := by
  obtain ⟨mid, -, -, -, hpost⟩ := tiled_append.mp h.tiled
  exact hpost

theorem Layout.bounds (h : vm.Layout l) (hv : v ∈ l) :
    0 < v.size ∧ v.base + v.size ≤ maxAddress := by
  have hb := h.tiled.start_lt hv
  simp only [start_eq, stop_eq] at hb
  omega

theorem Layout.exists_area (h : vm.Layout l) (ha : a < maxAddress) :
    ∃ pre v post, l = pre ++ v :: post ∧ v.base ≤ a ∧ a < v.base + v.size := by
  obtain ⟨pre, v, post, rfl, -, hlo, hhi, -⟩ := h.tiled.split_at (Nat.zero_le a) ha
  exact ⟨pre, v, post, rfl, hlo, hhi⟩

theorem Layout.upperBound_eq (h : vm.Layout (pre ++ v :: post)) (hlo : v.base ≤ a)
    (hhi : a < v.base + v.size) : upperBound vm.vmaMap a = post.head?.map (·.base) := by
  have happ : vm.vmaMap = (entries pre ++ [(v.base, v)]) ++ entries post := by
    rw [h.map_split, List.append_assoc]
    rfl
  rw [happ, upperBound_append, head?_entries]
  · intro e he
    rcases List.mem_append.mp he with he | he
    · exact ((h.sorted_split).lt_of_mem_pre e he).le.trans hlo
    · rw [List.mem_singleton.mp he]
      exact hlo
  · intro e he
    obtain ⟨hkey, hmem⟩ := mem_entries.mp (List.mem_of_mem_head? he)
    have hb := (h.post_tiled.start_lt hmem).1
    simp only [start_eq] at hb
    omega

theorem Layout.findVMA_eq (h : vm.Layout (pre ++ v :: post)) (hlo : v.base ≤ a)
    (hhi : a < v.base + v.size) : vm.findVMA a = some v.base := by
  have hmax := (h.bounds (v := v) (by simp)).2
  have hsorted : Sorted ((entries pre ++ [(v.base, v)]) ++ entries post) := by
    simpa using h.sorted_split
  unfold findVMA
  rw [if_neg (by omega), h.upperBound_eq hlo hhi, ← head?_entries, h.map_split,
    List.append_cons, prev_append hsorted]
  simp

theorem findVMA_of_le (vm : VMManager) (ha : maxAddress ≤ a) : vm.findVMA a = none :=
  if_pos ha

theorem Layout.findVMA_ne_none (h : vm.Layout l) (ha : a < maxAddress) :
    vm.findVMA a ≠ none := by
  obtain ⟨pre, v, post, rfl, hlo, hhi⟩ := h.exists_area ha
  simp [h.findVMA_eq hlo hhi]

theorem Layout.view_eq (h : vm.Layout (pre ++ v :: post)) (hlo : v.base ≤ a)
    (hhi : a < v.base + v.size) : vm.view a = some (v.cell a) := by
  unfold view
  rw [h.findVMA_eq hlo hhi, Option.bind_some, h.at?_base, Option.map_some]

theorem view_of_le (vm : VMManager) (ha : maxAddress ≤ a) : vm.view a = none := by
  unfold view
  rw [vm.findVMA_of_le ha]
  rfl

theorem Layout.view_eq_lookup (h : vm.Layout l) (a : Nat) : vm.view a = lookup l a := by
  by_cases ha : a < maxAddress
  · obtain ⟨pre, v, post, rfl, hlo, hhi⟩ := h.exists_area ha
    rw [h.view_eq hlo hhi]
    exact (Tiled.lookup_at h.pre_tiled hlo hhi).symm
  · rw [vm.view_of_le (by omega), h.tiled.lookup_of_le (by omega)]

end VMManager

end Cytrus.Kernel
