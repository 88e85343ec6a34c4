import Cytrus.Kernel.AddressSpace

/-!
# The maximal-merging invariant of the area map

No two neighbours of the map should be mergeable. The loops of the range
calls break this in one situation: the range ends inside an area, and the
visit to the area before it absorbs the near half of the cut, so that the
half is never visited and never merged with the far one.
-/

namespace Cytrus.Kernel.VMManager

open Support Support.OrderedMap Support.Segment Memory
open VirtualMemoryArea (start_eq stop_eq length_eq dropTo_canBeMergedWith takeTo_size takeTo_base
  extend_canBeMergedWith dropTo_size dropTo_base)

variable {vm vm' : VMManager} {l left right : List VirtualMemoryArea}
  {v n : VirtualMemoryArea} {f : VirtualMemoryArea → VirtualMemoryArea} {a target size : Nat}
  {α : Type}

/-- Neighbours that cannot be merged. -/
def Apart (v n : VirtualMemoryArea) : Prop := v.canBeMergedWith n = false

/-- No two adjacent areas can be merged, except where the second starts at an address in `X`. -/
def MergedExcept (X : Nat → Prop) (l : List VirtualMemoryArea) : Prop :=
  l.IsChain fun v n => X n.base ∨ Apart v n

/-- No two adjacent areas can be merged. -/
def Merged (l : List VirtualMemoryArea) : Prop := l.IsChain Apart

instance (v n : VirtualMemoryArea) : Decidable (Apart v n) :=
  inferInstanceAs (Decidable (v.canBeMergedWith n = false))

instance (l : List VirtualMemoryArea) : Decidable (Merged l) :=
  inferInstanceAs (Decidable (l.IsChain Apart))

theorem Merged.mergedExcept (h : Merged l) (X : Nat → Prop) : MergedExcept X l :=
  h.imp fun _ _ h => .inr h

theorem MergedExcept.mono {X Y : Nat → Prop} (h : MergedExcept X l) (hXY : ∀ a, X a → Y a) :
    MergedExcept Y l :=
  h.imp fun _ _ h => h.imp_left (hXY _)

theorem MergedExcept.merged {X : Nat → Prop} (h : MergedExcept X l)
    (hX : ∀ v ∈ l.tail, ¬ X v.base) : Merged l := by
  rw [MergedExcept, List.isChain_iff_forall_rel_of_append_cons_cons] at h
  rw [Merged, List.isChain_iff_forall_rel_of_append_cons_cons]
  intro v n pre post hl
  refine (h hl).resolve_left (hX n ?_)
  rw [hl]
  cases pre <;> simp

theorem MergedExcept.append {X : Nat → Prop} {l₁ l₂ : List VirtualMemoryArea}
    (h : MergedExcept X (l₁ ++ l₂)) : MergedExcept X l₁ ∧ MergedExcept X l₂ :=
  ⟨(List.isChain_append.mp h).1, (List.isChain_append.mp h).2.1⟩

theorem mergedExcept_cutAt {X : Nat → Prop} (h : MergedExcept X l) (hcut : Cuttable a l) :
    MergedExcept (fun b => X b ∨ b = a) (cutAt a l) := by
  rcases cutAt_cases a l with ⟨heq, -⟩ | ⟨pre, v, post, rfl, hlo, hhi, heq⟩
  · rw [heq]
    exact h.mono fun _ hb => .inl hb
  · rw [heq]
    have hv := hcut v (by simp) hlo hhi
    obtain ⟨hpre, hpost, hjoin⟩ := List.isChain_append.mp h
    have hmono {m : List VirtualMemoryArea} (hm : MergedExcept X m) :
        MergedExcept (fun b => X b ∨ b = a) m := hm.mono fun _ hb => .inl hb
    refine List.isChain_append.mpr ⟨hmono hpre, ?_, ?_⟩
    · refine List.isChain_cons_cons.mpr ⟨.inl (.inr rfl), ?_⟩
      rw [List.isChain_cons] at hpost ⊢
      refine ⟨fun n hn => ?_, hmono hpost.2⟩
      refine (hpost.1 n hn).imp .inl fun happ => ?_
      rw [Apart, dropTo_canBeMergedWith hv hlo.le hhi.le]
      exact happ
    · intro p hp n hn
      simp only [List.head?_cons, Option.mem_some] at hn
      subst hn
      exact (hjoin p hp v (by simp)).imp .inl fun happ => happ

/-! ## One merge -/

theorem merged_reverse_cons {p : VirtualMemoryArea} :
    Merged (p :: left).reverse ↔ Merged left.reverse ∧ ∀ q ∈ left.head?, Apart q p := by
  rw [Merged, Merged, List.reverse_cons, List.isChain_append]
  simp

theorem merge_merged (z : Zipper) (hleft : Merged z.left.reverse)
    (hnext : ∀ n rest, z.right = n :: rest → z.focus.canBeMergedWith n = true →
      ∀ m ∈ rest.head?, Apart n m) :
    Merged (z.merge.focus :: z.merge.left).reverse ∧
      ∀ m ∈ z.merge.right.head?, Apart z.merge.focus m := by
  have hfirst : z.mergeNext.left = z.left ∧
      ∀ m ∈ z.mergeNext.right.head?, Apart z.mergeNext.focus m := by
    rcases z.mergeNext_cases with ⟨heq, hno⟩ | ⟨n, rest, hr, hm, heq⟩
    · rw [heq]
      exact ⟨rfl, hno⟩
    · rw [heq]
      refine ⟨rfl, fun m hmem => ?_⟩
      rw [Apart, extend_canBeMergedWith hm]
      exact hnext n rest hr hm m hmem
  obtain ⟨hl, hright⟩ := hfirst
  unfold Zipper.merge
  rcases z.mergeNext.mergePrev_cases with ⟨heq, hno⟩ | ⟨p, rest, hp, hm, heq⟩
  · rw [heq]
    exact ⟨merged_reverse_cons.mpr ⟨hl ▸ hleft, hno⟩, hright⟩
  · rw [heq]
    rw [← hl, hp] at hleft
    obtain ⟨hrest, hq⟩ := merged_reverse_cons.mp hleft
    refine ⟨merged_reverse_cons.mpr ⟨hrest, hq⟩, fun m hmem => ?_⟩
    rw [Apart, extend_canBeMergedWith hm]
    exact hright m hmem

theorem merge_right_suffix (z : Zipper) : ∃ taken, z.right = taken ++ z.merge.right := by
  rcases merge_right_cases z with heq | ⟨n, rest, hr, -, heq⟩
  · exact ⟨[], by rw [heq]; rfl⟩
  · exact ⟨[n], by rw [heq, hr]; rfl⟩

theorem visit_merged (z : Zipper) (hleft : Merged z.left.reverse) (hright : Merged z.right) :
    Merged (z.onFocus f).merge.areas := by
  obtain ⟨hnew, hjoin⟩ := merge_merged (z.onFocus f) hleft fun n rest hr _ m hm => by
    have hr : z.right = n :: rest := hr
    rw [Merged, hr, List.isChain_cons] at hright
    exact hright.1 m hm
  obtain ⟨taken, htaken⟩ := merge_right_suffix (z.onFocus f)
  have hsuffix : Merged (z.onFocus f).merge.right := by
    have hz : z.right = taken ++ (z.onFocus f).merge.right := htaken
    rw [Merged, hz] at hright
    exact (List.isChain_append.mp hright).2.1
  have hareas : (z.onFocus f).merge.areas =
      ((z.onFocus f).merge.focus :: (z.onFocus f).merge.left).reverse ++
        (z.onFocus f).merge.right := by
    simp [Zipper.areas]
  rw [hareas]
  refine List.isChain_append.mpr ⟨hnew, hsuffix, fun p hp m hm => ?_⟩
  rw [List.getLast?_reverse, List.head?_cons, Option.mem_some] at hp
  exact hp ▸ hjoin m hm

/-! ## The range loop -/

/-- The near half of a cut at `targetEnd` is not absorbed before its own visit. -/
def NoSeam (f : VirtualMemoryArea → VirtualMemoryArea) (targetEnd : Nat)
    (right : List VirtualMemoryArea) : Prop :=
  ∀ pre x n m post, right = pre ++ x :: n :: m :: post → m.base = targetEnd →
    n.canBeMergedWith m = true → Apart (f x) n

/-- The loop invariant: everything behind is merged, everything ahead is merged but for the
cut at the end of the range. -/
structure Tidy (f : VirtualMemoryArea → VirtualMemoryArea) (targetEnd : Nat)
    (left right : List VirtualMemoryArea) : Prop where
  behind : Merged left.reverse
  ahead : MergedExcept (· = targetEnd) right
  noSeam : NoSeam f targetEnd right
  between : ∀ p ∈ left.head?, ∀ v ∈ right.head?, v.base < targetEnd ∨ Apart p v

theorem tidy_survives (f : VirtualMemoryArea → VirtualMemoryArea) (targetEnd : Nat) :
    Survives f targetEnd (Tidy f targetEnd) := by
  intro left v right _ _ hinv
  obtain ⟨hbehind, hahead, hseam, -⟩ := hinv
  obtain ⟨hnew, hjoin⟩ := merge_merged ⟨left, f v, right⟩ hbehind fun n rest hr hmerge m hm => by
    have hr : right = n :: rest := hr
    obtain ⟨post, rfl⟩ := List.head?_eq_some_iff.mp hm
    subst hr
    have hpair := (List.isChain_cons_cons.mp (List.isChain_cons_cons.mp hahead).2).1
    refine hpair.elim (fun hend => ?_) (fun happ => happ)
    by_contra hnot
    have happ := hseam [] v n m post rfl hend (by simpa [Apart] using hnot)
    rw [Apart] at happ
    change (f v).canBeMergedWith n = true at hmerge
    rw [hmerge] at happ
    contradiction
  obtain ⟨taken, htaken⟩ := merge_right_suffix ⟨left, f v, right⟩
  change right = taken ++ (visited f left v right).right at htaken
  refine ⟨hnew, ?_, ?_, fun p hp m hm => ?_⟩
  · rw [MergedExcept, htaken, ← List.cons_append] at hahead
    exact (List.isChain_append.mp hahead).2.1
  · intro pre x n m post heq
    refine hseam (v :: taken ++ pre) x n m post ?_
    rw [List.append_assoc, ← heq, List.cons_append, ← htaken]
  · rw [List.head?_cons, Option.mem_some] at hp
    exact .inr (hp ▸ hjoin m hm)

theorem tidy_end {targetEnd : Nat} (h : Tidy f targetEnd left right)
    (ht : Tiled 0 (left.reverse ++ right) maxAddress)
    (hend : ∀ v ∈ right.head?, targetEnd ≤ v.base) : Merged (left.reverse ++ right) := by
  refine List.isChain_append.mpr ⟨h.behind, h.ahead.merged fun v hv => ?_, fun p hp v hv => ?_⟩
  · cases right with
    | nil => simp at hv
    | cons w rest =>
        have hw := hend w (by simp)
        obtain ⟨mid, -, -, hpos, hrest⟩ := tiled_append.mp ht
        have hlt := (hrest.start_lt hv).1
        simp only [stop_eq, start_eq,
          length_eq] at hlt hpos
        omega
  · rw [List.getLast?_reverse] at hp
    have hv' := hend v hv
    exact (h.between p hp v hv).resolve_left (by omega)

theorem mergedExcept_cut_cut {b : Nat} (h : Merged l) (hcut : Cuttable a l)
    (hcut' : Cuttable b (cutAt a l)) :
    MergedExcept (fun c => c = a ∨ c = b) (cutAt b (cutAt a l)) :=
  (mergedExcept_cutAt (mergedExcept_cutAt (h.mergedExcept fun _ => False) hcut) hcut').mono
    fun _ hc => hc.imp_left (·.resolve_left id)

theorem tidy_start (h : MergedExcept (fun b => b = target ∨ b = target + size)
      (Zipper.mk left v right).areas)
    (ht : Tiled 0 (Zipper.mk left v right).areas maxAddress) (hbase : v.base = target)
    (hpos : 0 < size) (hseam : NoSeam f (target + size) (v :: right)) :
    Tidy f (target + size) left (v :: right) := by
  obtain ⟨mid, hpre, hmid, hvpos, hpost⟩ := tiled_append.mp ht
  simp only [start_eq, stop_eq,
    length_eq] at hmid hpost hvpos
  obtain ⟨hleft, hright⟩ := h.append
  refine ⟨hleft.merged fun w hw => ?_, ?_, hseam, fun p _ w hw => .inl ?_⟩
  · have hlt := hpre.start_lt (List.mem_of_mem_tail hw)
    simp only [start_eq, stop_eq] at hlt
    omega
  · rw [MergedExcept, List.isChain_iff_forall_rel_of_append_cons_cons]
    intro x y pre post heq
    have hxy := (List.isChain_iff_forall_rel_of_append_cons_cons.mp hright) heq
    refine hxy.imp_left fun hend => hend.resolve_left fun hy => ?_
    have hmem : y ∈ right := by
      cases pre with
      | nil =>
          obtain ⟨-, rfl⟩ := List.cons.inj heq
          simp
      | cons d ds =>
          obtain ⟨-, rfl⟩ := List.cons.inj heq
          simp
    have hlt := (hpost.start_lt hmem).1
    simp only [start_eq] at hlt
    omega
  · rw [List.head?_cons, Option.mem_some] at hw
    rw [← hw, hbase]
    omega

/-- The range ends strictly inside an area that starts strictly inside it, and the area before,
rewritten, can be merged with that one. -/
def LeavesSeam (f : VirtualMemoryArea → VirtualMemoryArea) (l : List VirtualMemoryArea)
    (target targetEnd : Nat) : Prop :=
  ∃ v ∈ l, ∃ n ∈ l, v.base + v.size = n.base ∧ target < n.base ∧ n.base < targetEnd ∧
    targetEnd < n.base + n.size ∧ (f v).canBeMergedWith n = true

instance (f : VirtualMemoryArea → VirtualMemoryArea) (l : List VirtualMemoryArea)
    (target targetEnd : Nat) : Decidable (LeavesSeam f l target targetEnd) :=
  inferInstanceAs (Decidable (∃ v ∈ l, ∃ n ∈ l, v.base + v.size = n.base ∧ target < n.base ∧
    n.base < targetEnd ∧ targetEnd < n.base + n.size ∧ (f v).canBeMergedWith n = true))

/-- A rewrite of attributes alone gives both halves of an area what it gives the whole. -/
def Uniform (f : VirtualMemoryArea → VirtualMemoryArea) : Prop :=
  ∀ v n a, v.base < a → a < v.base + v.size → v.CutOk a →
    (f (v.dropTo a)).canBeMergedWith n = (f v).canBeMergedWith n

theorem reprotected_uniform (newPerms : VMAPermission) : Uniform (.reprotected newPerms) := by
  intro v n a hlo hhi hcut
  exact dropTo_canBeMergedWith (v := v.reprotected newPerms) hcut hlo.le hhi.le

theorem restated_uniform (newState : MemoryState) (newPerms : VMAPermission) :
    Uniform (.restated newState newPerms) := by
  intro v n a hlo hhi hcut
  exact dropTo_canBeMergedWith (v := v.restated newState newPerms) hcut hlo.le
    hhi.le

theorem Tiled.touch {lo hi : Nat} {pre post : List VirtualMemoryArea}
    (h : Tiled lo (pre ++ v :: n :: post) hi) : v.base + v.size = n.base := by
  obtain ⟨mid, -, -, -, hn, -, -⟩ := tiled_append.mp h
  exact hn.symm

theorem noSeam_of_not_leavesSeam (hf : Uniform f) (h : Tiled 0 l maxAddress) (hm : Merged l)
    (hcut : Cuttable target l) (hpos : 0 < size)
    (hno : ¬ LeavesSeam f l target (target + size))
    (hlist : cutAt (target + size) (cutAt target l) = (Zipper.mk left v right).areas)
    (hbase : v.base = target) : NoSeam f (target + size) (v :: right) := by
  intro pre x n m post heq hmbase hnm
  by_contra hxn
  have hxn : (f x).canBeMergedWith n = true := by simpa [Apart] using hxn
  have ht₁ := tiled_cutAt h target
  have ht₂ := tiled_cutAt ht₁ (target + size)
  have hsplit : cutAt (target + size) (cutAt target l) =
      (left.reverse ++ pre) ++ x :: n :: m :: post := by
    rw [hlist, Zipper.areas, heq, List.append_assoc]
  have htx := ht₂
  rw [hsplit] at htx
  have hxtouch := Tiled.touch htx
  rw [List.append_cons] at htx
  have hntouch := Tiled.touch htx
  have hxt := ht₂.start_lt (e := x) (by rw [hsplit]; simp)
  have hnt := ht₂.start_lt (e := n) (by rw [hsplit]; simp)
  simp only [start_eq, stop_eq] at hxt hnt
  have hxbase : target ≤ x.base := by
    obtain ⟨mid, -, hright⟩ := tiled_append.mp (hlist ▸ ht₂)
    have hmid : v.base = mid := hright.1
    have hle := (hright.start_lt (e := x) (by rw [heq]; simp)).1
    simp only [start_eq] at hle
    omega
  -- The near half belongs to an area of the old list that the end of the range cuts.
  obtain ⟨b, hb, hblo, hbhi, hnb⟩ : ∃ b ∈ cutAt target l, b.base < target + size ∧
      target + size < b.base + b.size ∧ n = b.takeTo (target + size) := by
    rcases mem_cutAt_cases (l := cutAt target l) (w := n) (by rw [hsplit]; simp) with
      hn | ⟨b, hb, hblo, hbhi, hn | hn⟩
    · have hedge : EdgeAt (target + size) (cutAt target l) := by
        obtain ⟨pre', post', hsplit'⟩ := List.append_of_mem hn
        rw [hsplit'] at ht₁ ⊢
        intro w hw hstrict
        obtain ⟨mid, hpre', hmid, -, hpost'⟩ := tiled_append.mp ht₁
        simp only [start_eq, stop_eq] at hmid hpost'
        simp only [List.mem_append, List.mem_cons] at hw
        rcases hw with hw | rfl | hw
        · have hle := (hpre'.start_lt hw).2.2
          simp only [stop_eq] at hle
          omega
        · omega
        · have hle := (hpost'.start_lt hw).1
          simp only [start_eq] at hle
          omega
      have hchain := mergedExcept_cutAt (hm.mergedExcept fun _ => False) hcut
      rw [cutAt_of_edgeAt hedge, List.append_cons] at hsplit
      rw [MergedExcept, List.isChain_iff_forall_rel_of_append_cons_cons] at hchain
      rcases hchain hsplit with hfalse | happ
      · have heqt : m.base = target := hfalse.resolve_left id
        omega
      · rw [Apart, hnm] at happ
        contradiction
    · exact ⟨b, hb, hblo, hbhi, hn⟩
    · have hnbase : n.base = target + size := by rw [hn]; rfl
      omega
  have hbbase : b.base = n.base := by rw [hnb]; rfl
  have hbl : b ∈ l := by
    rcases mem_cutAt_cases hb with hb | ⟨w, hw, hwlo, hwhi, hb | hb⟩
    · exact hb
    · have hbw : b.base = w.base := by rw [hb]; rfl
      omega
    · have hbw : b.base = target := by rw [hb]; rfl
      omega
  have hxb : (f x).canBeMergedWith b = true := by
    rw [hnb, VirtualMemoryArea.canBeMergedWith_takeTo] at hxn
    exact hxn
  -- The area before it is an area of the old list or the far half of one.
  have hx₁ : x ∈ cutAt target l := by
    rcases mem_cutAt_cases (l := cutAt target l) (w := x) (by rw [hsplit]; simp) with
      hx | ⟨w, hw, hwlo, hwhi, hx | hx⟩
    · exact hx
    · have hxw : x.base + x.size = target + size := by
        rw [hx]
        simp only [takeTo_base, takeTo_size]
        omega
      omega
    · have hxw : x.base = target + size := by rw [hx]; rfl
      omega
  rcases mem_cutAt_cases hx₁ with hx | ⟨w, hw, hwlo, hwhi, hx | hx⟩
  · exact hno ⟨x, hx, b, hbl, by omega, by omega, by omega, hbhi, hxb⟩
  · have hxw : x.base + x.size = target := by
      rw [hx]
      simp only [takeTo_base, takeTo_size]
      omega
    omega
  · have hxw : x.base + x.size = w.base + w.size := by
      rw [hx]
      simp only [dropTo_base, dropTo_size]
      omega
    rw [hx, hf w b target hwlo hwhi (hcut w hw hwlo hwhi)] at hxb
    exact hno ⟨w, hw, b, hbl, by omega, by omega, by omega, hbhi, hxb⟩

/-- Unmapping never absorbs an area of its range, none of which is free. -/
theorem noSeam_unmapped (h : Tiled 0 l maxAddress)
    (hmapped : Throughout (fun v => v.type ≠ .free) l target (target + size))
    (hlist : cutAt (target + size) (cutAt target l) = (Zipper.mk left v right).areas)
    (hbase : v.base = target) : NoSeam .unmapped (target + size) (v :: right) := by
  intro pre x n m post heq hmbase _
  have ht₂ := tiled_cutAt (tiled_cutAt h target) (target + size)
  have hmem : n ∈ cutAt (target + size) (cutAt target l) := by
    rw [hlist, Zipper.areas, heq]
    simp
  have hright := ht₂
  rw [hlist] at hright
  obtain ⟨mid, -, hright⟩ := tiled_append.mp hright
  have hmid : v.base = mid := hright.1
  rw [heq] at hright
  have hsplit : Tiled mid ((pre ++ [x]) ++ n :: m :: post) maxAddress := by simpa using hright
  have hntouch := Tiled.touch hsplit
  have hnt := hright.start_lt (e := n) (by simp)
  simp only [start_eq, stop_eq] at hnt
  obtain ⟨w, hw, hwtype, -, -, hwlo, hwhi⟩ := mem_cutAt hmem
  obtain ⟨u, hu, hutype, -, -, hulo, huhi⟩ := mem_cutAt hw
  have hnfree : n.type ≠ .free := by
    rw [hwtype, hutype]
    exact hmapped u hu (by omega) (by omega)
  rw [Apart]
  by_contra hnot
  obtain ⟨-, -, htype, -⟩ := VirtualMemoryArea.canBeMergedWith_iff.mp
    (Bool.not_eq_false _ ▸ hnot)
  exact hnfree htype.symm

theorem tidy_started (h : Tiled 0 l maxAddress) (hm : Merged l) (hpos : 0 < size)
    (hseam : Started l target size fun _ right => NoSeam f (target + size) right) :
    Started l target size (Tidy f (target + size)) := by
  intro left v right hlist hbase hthrough hcut hcut'
  have hexcept := mergedExcept_cut_cut hm hcut hcut'
  have htiled := tiled_cutAt (tiled_cutAt h target) (target + size)
  rw [hlist] at hexcept htiled
  exact tidy_start hexcept htiled hbase hpos (hseam left v right hlist hbase hthrough hcut hcut')

theorem merged_of_ended {targetEnd : Nat} (h : vm.Ended (Tidy f targetEnd) targetEnd vm') :
    Merged vm'.areas := by
  obtain ⟨left, right, hnow, htidy, hend⟩ := h
  rw [hnow.layout.areas_eq]
  exact tidy_end htidy hnow.layout.tiled hend

/-! ## The calls -/

theorem Mapped.merged {memory : MemoryRef} {state : MemoryState} {z : Zipper}
    (hmap : vm.Mapped l target size memory state z vm') (h : vm.Layout l) (hm : Merged l)
    (hpos : 0 < size) : Merged vm'.areas := by
  obtain ⟨hin, hlist, -, hbase, hsize, hnow⟩ := hmap
  obtain ⟨hcut, hcut'⟩ := hin.cuttable h hpos
  have hexcept := mergedExcept_cut_cut hm hcut hcut'
  have htiled := tiled_cutAt (tiled_cutAt h.tiled (target + size)) target
  rw [hlist] at hexcept htiled
  obtain ⟨mid, hpre, hmid, hfpos, hpost⟩ := tiled_append.mp htiled
  simp only [start_eq, stop_eq,
    length_eq] at hmid hpost hfpos
  obtain ⟨hleft, hright⟩ := hexcept.append
  have hright : MergedExcept _ ([z.focus] ++ z.right) := hright
  have hright := hright.append.2
  rw [hnow.layout.areas_eq]
  refine visit_merged z (hleft.merged fun w hw => ?_) (hright.merged fun w hw => ?_)
  · have hlt := hpre.start_lt (List.mem_of_mem_tail hw)
    simp only [start_eq, stop_eq] at hlt
    omega
  · cases hr : z.right with
    | nil => simp [hr] at hw
    | cons d rest =>
        rw [hr] at hw hpost
        obtain ⟨hd, hdpos, hrest⟩ := hpost
        have hlt := (hrest.start_lt (by simpa using hw)).1
        simp only [start_eq, stop_eq,
          length_eq] at hd hdpos hlt
        omega

/-- Whether a call keeps clear of the situation in which a cut is never merged again. -/
def Call.LeavesNoSeam (vm : VMManager) : Call α → Prop
  | .reprotectRange target size newPerms =>
      ¬ (Throughout (fun v => v.type ≠ .free) vm.areas target (target + size) ∧
        LeavesSeam (.reprotected newPerms) vm.areas target (target + size))
  | .changeMemoryState target size expectedState expectedPerms newState newPerms =>
      ¬ (Throughout (fun v => v.type ≠ .free) vm.areas target (target + size) ∧
        Throughout (Expected expectedState expectedPerms) vm.areas target (target + size) ∧
        LeavesSeam (.restated newState newPerms) vm.areas target (target + size))
  | _ => True

theorem Call.merged (c : Call α) (hu : vm.isLocked = false) (h : vm.WellFormed)
    (hm : Merged vm.areas) (hc : c.Allowed vm) (hseam : c.LeavesNoSeam vm) :
    c.run.Post vm (fun _ vm' => Merged vm'.areas) (fun _ vm' => Merged vm'.areas)
      (fun _ => True) := by
  cases c with
  | mapBackingMemory target memory size state =>
      obtain ⟨hmem, hp⟩ := hc
      refine (mapBackingMemory_post hu h hp.target_dvd hp.size_dvd hp.pos
        (lt_of_le_of_lt hp.le_max (by decide)) hmem).mono ?_ ?_ (fun _ _ => trivial)
      · rintro it vm' ⟨z, hmap, -⟩
        exact hmap.merged h hm hp.pos
      · rintro e vm' ⟨rfl, -⟩
        exact hm
  | mapBackingMemoryToBase base regionSize memory size state =>
      refine (mapBackingMemoryToBase_post hu h hc.2 hc.1).mono ?_ ?_ (fun _ _ => trivial)
      · rintro target vm' ⟨z, hmap⟩
        exact hmap.merged h hm hc.2.pos
      · rintro e vm' rfl
        exact hm
  | unmapRange target size =>
      refine (unmapRange_loop (tidy_survives _ _) (tidy_started h.tiled hm hc.pos
        fun left v right hlist hbase hthrough _ _ =>
          noSeam_unmapped h.tiled hthrough hlist hbase) hu h hc).mono ?_ ?_ (fun _ _ => trivial)
      · rintro _ vm' ⟨-, hended⟩
        exact merged_of_ended hended
      · rintro e vm' ⟨rfl, -⟩
        exact hm
  | reprotect vmaHandle newPerms =>
      obtain ⟨v, hv, rfl⟩ := hc
      obtain ⟨pre, post, hareas⟩ := List.append_of_mem hv
      have hz : vm.Layout (Zipper.mk pre.reverse v post).areas := by
        rw [Zipper.areas, List.reverse_reverse, ← hareas]
        exact h
      refine (reprotect_post hu ⟨pre.reverse, v, post⟩ hz).mono ?_ (fun _ _ h => h.elim)
        (fun _ _ => trivial)
      rintro it vm' ⟨-, hnow⟩
      rw [hareas] at hm
      obtain ⟨hleft, hright, -⟩ := List.isChain_append.mp hm
      rw [hnow.layout.areas_eq]
      refine visit_merged ⟨pre.reverse, v, post⟩ ?_ (List.IsChain.tail hright)
      rw [List.reverse_reverse]
      exact hleft
  | reprotectRange target size newPerms =>
      refine (reprotectRange_loop (tidy_survives _ _) (tidy_started h.tiled hm hc.pos
        fun left v right hlist hbase hthrough hcut _ =>
          noSeam_of_not_leavesSeam (reprotected_uniform newPerms) h.tiled hm hcut hc.pos
            (fun hleaves => hseam ⟨hthrough, hleaves⟩) hlist hbase) hu h hc).mono ?_ ?_
        (fun _ _ => trivial)
      · rintro _ vm' ⟨-, hended⟩
        exact merged_of_ended hended
      · rintro e vm' ⟨rfl, -⟩
        exact hm
  | changeMemoryState target size expectedState expectedPerms newState newPerms =>
      refine (changeMemoryState_loop (tidy_survives _ _)
        (fun hexpected => tidy_started h.tiled hm hc.pos
          fun left v right hlist hbase hthrough hcut _ =>
            noSeam_of_not_leavesSeam (restated_uniform newState newPerms) h.tiled hm hcut hc.pos
              (fun hleaves => hseam ⟨hthrough, hexpected, hleaves⟩) hlist hbase)
        hu h hc).mono ?_ ?_ (fun _ _ => trivial)
      · rintro _ vm' ⟨-, -, hended⟩
        exact merged_of_ended hended
      · rintro e vm' ⟨rfl, -⟩
        exact hm

/-! ## Runs -/

/-- One call that stays clear of the seam. -/
def SeamFreeStep (vm vm' : VMManager) : Prop :=
  ∃ (α : Type) (c : Call α), c.Allowed vm ∧ c.LeavesNoSeam vm ∧ Moves c.run vm vm'

theorem SeamFreeStep.step (h : SeamFreeStep vm vm') : Step vm vm' := by
  obtain ⟨α, c, hc, -, hmoves⟩ := h
  exact ⟨α, c, hc, hmoves⟩

/-- In every run whose calls all stay clear of the seam, no state has adjacent areas that can be
merged. -/
theorem seamFree_run_merged (hreach : Reachable Fresh SeamFreeStep vm) : Merged vm.areas := by
  have hinv : (vm.isLocked = false ∧ vm.WellFormed) ∧ Merged vm.areas := by
    refine hreach.invariant (I := fun vm => (vm.isLocked = false ∧ vm.WellFormed) ∧
      Merged vm.areas) (fun vm hfresh => ⟨hfresh.wellFormed, ?_⟩) ?_
    · rw [hfresh.areas_eq]
      exact List.isChain_singleton _
    · rintro vm vm' ⟨⟨hu, hwf⟩, hm⟩ ⟨α, c, hc, hseam, hmoves⟩
      exact ⟨step_wellFormed ⟨hu, hwf⟩ ⟨α, c, hc, hmoves⟩, (c.merged hu hwf hm hc hseam).moves
        hmoves⟩
  exact hinv.2

/-- Three pages mapped, the first of them made read-only. -/
def readOnlyPage : VMManager :=
  (reprotectRange 0x1000 0x1000 .read).after
    ((mapBackingMemory 0x1000 exampleMemory 0x3000 .privateMem).after resetSpace)

theorem reachable_readOnlyPage : Reachable Fresh SeamFreeStep readOnlyPage := by
  refine .step (.step (.start fresh_resetSpace) ⟨_, .mapBackingMemory 0x1000 exampleMemory 0x3000
    .privateMem, ⟨by decide, ⟨by decide, by decide, by decide, by decide⟩⟩, trivial,
    moves_after (by decide)⟩) ⟨_, .reprotectRange 0x1000 0x1000 .read,
    ⟨by decide, by decide, by decide, by decide⟩, fun hseam => ?_, moves_after (by decide)⟩
  exact absurd hseam.2 (by decide)

theorem seamFree_run_merged_readOnlyPage :
    readOnlyPage.areas.length = 4 ∧ Merged readOnlyPage.areas :=
  ⟨by decide, seamFree_run_merged reachable_readOnlyPage⟩

/-- Making the first two of the three pages writable again absorbs the second page into the
first before its visit, and leaves it next to a third page with the same attributes. -/
theorem reprotectRange_leaves_mergeable : ∃ vm,
    Moves (reprotectRange 0x1000 0x2000 .readWrite) readOnlyPage vm ∧
      Reachable Fresh Step vm ∧ ¬ Merged vm.areas := by
  have hmoves : Moves (reprotectRange 0x1000 0x2000 .readWrite) readOnlyPage
      ((reprotectRange 0x1000 0x2000 .readWrite).after readOnlyPage) :=
    moves_after (by decide +kernel)
  refine ⟨_, hmoves, .step (reachable_readOnlyPage.mono (fun _ h => h)
    fun _ _ h => h.step) ⟨_, .reprotectRange 0x1000 0x2000 .readWrite,
    ⟨by decide, by decide, by decide, by decide⟩, hmoves⟩, by decide +kernel⟩

end Cytrus.Kernel.VMManager
