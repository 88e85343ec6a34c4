import Cytrus.Kernel.Process
import Cytrus.Kernel.HostMemory

/-!
# Mapping blocks one after the other

A block is mapped with all permissions, merged with its neighbours, and then
given its own permissions through the area that came back. When a neighbour
was merged in, it gets those permissions too. The specification says exactly
how far the area reaches on both sides.
-/

namespace Cytrus.Kernel.Process

open Support Support.OrderedMap Support.Segment Memory VMManager
open VirtualMemoryArea (start_eq stop_eq length_eq takeTo_base extend_base takeTo_size
  extend_size dropTo_base canBeMergedWith_iff dropTo_size)
open Exec (post_bind post_get post_pure post_assert)

variable {host : Host} {vm vm' : VMManager} {l : List VirtualMemoryArea} {target size : Nat}
  {memory : MemoryRef} {state : MemoryState} {perms : VMAPermission}

/-! ## How far a merge reaches -/

/-- The focus reaches further down exactly when the area before it can absorb it. -/
theorem merge_focus_base (z : Zipper) {hi : Nat} (h : Tiled 0 z.areas hi) :
    z.merge.focus.base < z.focus.base ↔
      ∃ p ∈ z.left.head?, p.canBeMergedWith z.focus = true := by
  have hnext : z.mergeNext.left = z.left ∧ z.mergeNext.focus.base = z.focus.base ∧
      ∀ p : VirtualMemoryArea,
        p.canBeMergedWith z.mergeNext.focus = p.canBeMergedWith z.focus := by
    rcases z.mergeNext_cases with ⟨heq, -⟩ | ⟨n, rest, -, -, heq⟩
    · simp [heq]
    · simp [heq, VirtualMemoryArea.extend, VirtualMemoryArea.canBeMergedWith]
  obtain ⟨hleft, hbase, hmerge⟩ := hnext
  have hareas := z.same_mergeNext.tiled hi h
  unfold Zipper.merge
  rcases z.mergeNext.mergePrev_cases with ⟨heq, hno⟩ | ⟨p, rest, hl, hm, heq⟩
  · rw [heq, hbase]
    constructor
    · intro hlt
      omega
    · rintro ⟨p, hp, hpm⟩
      have hnot := hno p (by rwa [hleft])
      rw [hmerge, hpm] at hnot
      contradiction
  · rw [heq]
    constructor
    · intro _
      refine ⟨p, by rw [← hleft, hl]; rfl, ?_⟩
      rw [← hmerge]
      exact hm
    · intro _
      rw [Zipper.areas, hl, List.reverse_cons, List.append_assoc] at hareas
      obtain ⟨mid, -, -, hpos, hfocus, -, -⟩ := tiled_append.mp hareas
      simp only [start_eq, stop_eq,
        length_eq] at hfocus hpos
      simp only [extend_base]
      omega

/-- The focus reaches further up exactly when it can absorb the area after it. -/
theorem merge_focus_stop (z : Zipper) {hi : Nat} (h : Tiled 0 z.areas hi) :
    z.focus.base + z.focus.size < z.merge.focus.base + z.merge.focus.size ↔
      ∃ n ∈ z.right.head?, z.focus.canBeMergedWith n = true := by
  have hprev : z.merge.focus.base + z.merge.focus.size =
      z.mergeNext.focus.base + z.mergeNext.focus.size := by
    have hareas := z.same_mergeNext.tiled hi h
    unfold Zipper.merge
    rcases z.mergeNext.mergePrev_cases with ⟨heq, -⟩ | ⟨p, rest, hl, -, heq⟩
    · rw [heq]
    · rw [heq]
      rw [Zipper.areas, hl, List.reverse_cons, List.append_assoc] at hareas
      obtain ⟨mid, -, -, -, hfocus, -, -⟩ := tiled_append.mp hareas
      simp only [start_eq, stop_eq] at hfocus
      simp only [extend_base, extend_size]
      omega
  rw [hprev]
  rcases z.mergeNext_cases with ⟨heq, hno⟩ | ⟨n, rest, hr, hm, heq⟩
  · rw [heq]
    constructor
    · intro hlt
      omega
    · rintro ⟨n, hn, hnm⟩
      rw [hno n hn] at hnm
      contradiction
  · rw [heq]
    constructor
    · intro _
      exact ⟨n, by rw [hr]; rfl, hm⟩
    · intro _
      rw [Zipper.areas, hr] at h
      obtain ⟨mid, -, -, -, -, hpos, -⟩ := tiled_append.mp h
      simp only [length_eq] at hpos
      simp only [extend_base, extend_size]
      omega

theorem mem_merge_of_type_ne (z : Zipper) {w : VirtualMemoryArea}
    (hw : w ∈ z.left ∨ w ∈ z.right) (htype : w.type ≠ z.focus.type) :
    w ∈ z.merge.left ∨ w ∈ z.merge.right := by
  have hnext : (w ∈ z.mergeNext.left ∨ w ∈ z.mergeNext.right) ∧
      z.mergeNext.focus.type = z.focus.type := by
    rcases z.mergeNext_cases with ⟨heq, -⟩ | ⟨n, rest, hr, hm, heq⟩
    · rw [heq]
      exact ⟨hw, rfl⟩
    · obtain ⟨-, -, ht, -⟩ := VirtualMemoryArea.canBeMergedWith_iff.mp hm
      rw [heq]
      refine ⟨hw.imp id fun hw => ?_, rfl⟩
      rw [hr] at hw
      rcases List.mem_cons.mp hw with rfl | hw
      · exact (htype ht.symm).elim
      · exact hw
  obtain ⟨hw, hfocus⟩ := hnext
  unfold Zipper.merge
  rcases z.mergeNext.mergePrev_cases with ⟨heq, -⟩ | ⟨p, rest, hl, hm, heq⟩
  · rw [heq]
    exact hw
  · obtain ⟨-, -, ht, -⟩ := VirtualMemoryArea.canBeMergedWith_iff.mp hm
    rw [heq]
    refine hw.imp (fun hw => ?_) id
    rw [hl] at hw
    rcases List.mem_cons.mp hw with rfl | hw
    · exact (htype (ht.trans hfocus)).elim
    · exact hw

/-- The address below a block holds the byte before it, mapped as the block is. -/
def JoinsBelow (vm : VMManager) (target : Nat) (state : MemoryState) (pointer : Nat) : Prop :=
  0 < target ∧ vm.view (target - 1) = some ⟨.backingMemory, .readWrite, state, pointer - 1⟩

/-- The address above a block holds the byte after it, mapped as the block is. -/
def JoinsAbove (vm : VMManager) (targetEnd : Nat) (state : MemoryState) (pointer : Nat) : Prop :=
  vm.view targetEnd = some ⟨.backingMemory, .readWrite, state, pointer⟩

theorem joinsBelow_iff {z : Zipper} (h : Tiled 0 z.areas maxAddress)
    (hview : ∀ a, vm.view a = lookup z.areas a) (hptr : memory.getPtr ≠ 0) :
    (∃ p ∈ z.left.head?, p.canBeMergedWith (z.focus.mapped memory state) = true) ↔
      JoinsBelow vm z.focus.base state memory.getPtr := by
  obtain ⟨left, v, right⟩ := z
  cases left with
  | nil =>
      have hbase : v.base = 0 := h.1
      simp [JoinsBelow, hbase]
  | cons p rest =>
      simp only [Zipper.areas, List.reverse_cons, List.append_assoc, List.singleton_append] at h hview
      obtain ⟨mid, hrest, hp, hpos, hv, -, -⟩ := tiled_append.mp h
      simp only [start_eq, stop_eq,
        length_eq] at hp hpos hv
      subst hp
      have hcell : vm.view (v.base - 1) = some (p.cell (v.base - 1)) := by
        rw [hview]
        exact hrest.lookup_at (by simp only [start_eq]; omega)
          (by simp only [stop_eq]; omega)
      simp only [List.head?_cons, Option.mem_def, Option.some.injEq, exists_eq_left',
        canBeMergedWith_iff, JoinsBelow, hcell, VirtualMemoryArea.cell,
        VirtualMemoryArea.mapped, Cell.mk.injEq, VirtualMemoryArea.pointerAt]
      constructor
      · rintro ⟨hperms, hstate, htype, hjoin⟩
        refine ⟨by omega, htype, hperms, hstate, ?_⟩
        have hjoin := hjoin htype
        rw [htype]
        simp only
        omega
      · rintro ⟨-, htype, hperms, hstate, hjoin⟩
        refine ⟨hperms, hstate, htype, fun _ => ?_⟩
        rw [htype] at hjoin
        simp only at hjoin
        omega

theorem joinsAbove_iff {z : Zipper} (h : Tiled 0 z.areas maxAddress)
    (hview : ∀ a, vm.view a = lookup z.areas a) :
    (∃ n ∈ z.right.head?, (z.focus.mapped memory state).canBeMergedWith n = true) ↔
      JoinsAbove vm (z.focus.base + z.focus.size) state (memory.getPtr + z.focus.size) := by
  obtain ⟨left, v, right⟩ := z
  obtain ⟨mid, hleft, hv, hpos, hright⟩ := tiled_append.mp h
  simp only [start_eq, stop_eq] at hv hright
  subst hv
  cases right with
  | nil =>
      have hmax : v.base + v.size = maxAddress := hright
      simp [JoinsAbove, hmax, view_of_le]
  | cons n rest =>
      obtain ⟨hn, hnpos, -⟩ := hright
      simp only [start_eq, length_eq] at hn hnpos
      have hcell : vm.view (v.base + v.size) = some (n.cell (v.base + v.size)) := by
        rw [hview, Zipper.areas, hleft.lookup_append_right (by simp),
          lookup_area_of_le (by simp), lookup_area_of_lt (by omega)]
      simp only [List.head?_cons, Option.mem_def, Option.some.injEq, exists_eq_left',
        canBeMergedWith_iff, JoinsAbove, hcell, VirtualMemoryArea.cell,
        VirtualMemoryArea.mapped, Cell.mk.injEq, VirtualMemoryArea.pointerAt]
      constructor
      · rintro ⟨hperms, hstate, htype, hjoin⟩
        refine ⟨htype.symm, hperms.symm, hstate.symm, ?_⟩
        have hjoin := hjoin trivial
        rw [← htype]
        simp only
        omega
      · rintro ⟨htype, hperms, hstate, hjoin⟩
        refine ⟨hperms.symm, hstate.symm, htype.symm, fun _ => ?_⟩
        rw [htype] at hjoin
        simp only at hjoin
        omega

/-! ## One block -/

/-- The assertions of `MapBackingMemory` on its arguments. -/
structure Mappable (target size : Nat) (memory : MemoryRef) : Prop where
  target_dvd : pageSize ∣ target
  size_dvd : pageSize ∣ size
  pos : 0 < size
  ptr_ne : memory.getPtr ≠ 0

theorem splitVMA_outside {pre post : List VirtualMemoryArea} {v : VirtualMemoryArea}
    {offset : Nat} (h : vm.Layout (pre ++ v :: post)) (hout : v.size ≤ offset ∨ offset = 0)
    {Q : VMAIter → VMManager → Prop} {E : ResultCode → VMManager → Prop} :
    (splitVMA (some v.base) offset).Post vm Q E (fun _ => True) := by
  unfold splitVMA
  simp only [post_bind, h.post_deref, post_assert]
  exact ⟨fun hlt => ⟨fun hpos => by omega, fun _ => trivial⟩, fun _ => trivial⟩

/-- An empty range, or one that wraps around, ends in the area before it starts: the second
split of `CarveVMA` aborts. -/
theorem carveVMA_unfit (h : vm.Layout l) (ht : target < 2 ^ 32) (hs : size < 2 ^ 32)
    (hbad : size = 0 ∨ 2 ^ 32 ≤ target + size) :
    (carveVMA target size).Post vm (fun _ _ => False) (fun _ _ => True) (fun _ => True) := by
  unfold carveVMA
  simp only [post_bind, post_assertAligned, post_get, Exec.post_require]
  refine ⟨fun hsd => ⟨fun htd => ⟨fun hsome => ?_, fun _ => trivial⟩, fun _ => trivial⟩,
    fun _ => trivial⟩
  have hlt : target < maxAddress := by
    by_contra hge
    exact hsome (vm.findVMA_of_le (by omega))
  obtain ⟨pre, v, post, rfl, hlo, hhi, hfind⟩ := h.around hlt
  have hvmax := (h.bounds (v := v) (by simp)).2
  have hmax : maxAddress < 2 ^ 31 := by decide
  rw [hfind, h.post_deref, sub32_of_le hlo (by omega)]
  refine ⟨fun _ => ⟨fun hle => ?_, fun _ => trivial⟩, fun _ => trivial⟩
  have hend : add32 (target - v.base) size ≤ target - v.base := by
    unfold add32 at hle ⊢
    omega
  have hne : add32 (target - v.base) size ≠ v.size := by omega
  have hpage : pageSize ∣ v.base + add32 (target - v.base) size := by
    have hbase := h.base_dvd
    unfold add32
    simp only [pageSize] at *
    omega
  rw [Exec.post_when]
  refine ⟨fun _ => ?_, fun hcon => (hcon hne).elim⟩
  rw [post_bind]
  by_cases hzero : add32 (target - v.base) size = 0
  · exact splitVMA_outside h (.inr hzero)
  · have hsplit := splitVMA_post h (a := v.base + add32 (target - v.base) size) (by omega)
      (by omega) hpage
    rw [Nat.add_sub_cancel_left] at hsplit
    refine hsplit.mono ?_ (fun _ _ _ => trivial) (fun _ _ => trivial)
    rintro it vm₁ ⟨-, -, hnow⟩
    -- what is left of the area is no longer than the offset of the second split
    have hshort : (v.takeTo (v.base + add32 (target - v.base) size)).size ≤ target - v.base := by
      simp only [takeTo_size]
      omega
    rw [post_pure, if_pos (by omega)]
    exact splitVMA_outside hnow.layout (.inl hshort)

/-- Arguments that miss an assertion never give a mapping. -/
theorem mapBackingMemory_unfit (h : vm.Layout l) (ht : target < 2 ^ 32) (hs : size < 2 ^ 32)
    (hbad : ¬ (Mappable target size memory ∧ target + size < 2 ^ 32)) :
    (mapBackingMemory target memory size state).Post vm (fun _ _ => False) (fun _ _ => True)
      (fun _ => True) := by
  unfold mapBackingMemory
  simp only [post_bind, assertUnlocked, post_get, post_assert]
  refine ⟨fun _ => ⟨fun hptr => ?_, fun _ => trivial⟩, fun _ => trivial⟩
  by_cases hfit : size = 0 ∨ 2 ^ 32 ≤ target + size
  · exact (carveVMA_unfit h ht hs hfit).mono (fun _ _ hq => hq.elim) (fun _ _ h => h)
      (fun _ h => h)
  · -- only the alignment is left to fail
    unfold carveVMA
    simp only [post_bind, post_assertAligned]
    exact ⟨fun hsd => ⟨fun htd => (hbad ⟨⟨htd, hsd, by omega, hptr⟩, by omega⟩).elim,
      fun _ => trivial⟩, fun _ => trivial⟩

/-- What one block does to the address space: its own range shows the block, and the addresses
that were merged with it, from `lo` to `hi`, get its permissions. -/
structure Placed (host : Host) (vm : VMManager) (target size pointer : Nat)
    (state : MemoryState) (perms : VMAPermission) (lo hi : Nat) (vm' : VMManager) : Prop where
  lo_le : lo ≤ target
  le_hi : target + size ≤ hi
  lo_lt_iff : lo < target ↔ JoinsBelow vm target state pointer
  lt_hi_iff : target + size < hi ↔ JoinsAbove vm (target + size) state (pointer + size)
  joined : ∀ a, lo ≤ a → a < hi → ¬ (target ≤ a ∧ a < target + size) →
    ∃ c, vm.view a = some c ∧ c.type = .backingMemory ∧ c.permissions = .readWrite ∧
      c.meminfoState = state
  inside : ∀ a, target ≤ a → a < target + size →
    vm'.view a = some ⟨.backingMemory, perms, state, pointer + (a - target)⟩
  merged : ∀ a, lo ≤ a → a < hi → ¬ (target ≤ a ∧ a < target + size) →
    vm'.view a = (vm.view a).map fun c => { c with permissions := perms }
  outside : ∀ a, ¬ (lo ≤ a ∧ a < hi) → vm'.view a = vm.view a
  sound : Sound host vm'
  free : ∀ e, target + size < e → InFree vm.areas target e → InFree vm'.areas (target + size) e

theorem Mapped.exists_rest {z : Zipper} {e : Nat} (h : vm.Layout l) (hpos : 0 < size)
    (hmap : vm.Mapped l target size memory state z vm') (he : target + size < e)
    (hfree : InFree l target e) :
    ∃ w, (w ∈ z.left ∨ w ∈ z.right) ∧ w.type = .free ∧ w.base ≤ target + size ∧
      e ≤ w.base + w.size := by
  obtain ⟨u, hu, hufree, hulo, huhi⟩ := hfree
  obtain ⟨pre, post, rfl⟩ := List.append_of_mem hu
  have hlist := hmap.areas_eq
  rw [cutAt_split h.tiled (by omega) (by omega)] at hlist
  have hmem : u.dropTo (target + size) ∈
      cutAt target (pre ++ u.takeTo (target + size) :: u.dropTo (target + size) :: post) := by
    have htiled := tiled_cut h.tiled (a := target + size) (by omega) (by omega)
    by_cases heq : u.base = target
    · have hedge := edgeAt_base htiled
      rw [takeTo_base, heq] at hedge
      rw [cutAt_of_edgeAt hedge]
      simp
    · rw [cutAt_split htiled (by simp only [takeTo_base]; omega)
        (by simp only [takeTo_base, takeTo_size]; omega)]
      simp
  rw [hlist] at hmem
  simp only [Zipper.areas, List.mem_append, List.mem_reverse, List.mem_cons] at hmem
  have hne : u.dropTo (target + size) ≠ z.focus := by
    intro heq
    have hbase := congrArg VirtualMemoryArea.base heq
    rw [hmap.base_eq, dropTo_base] at hbase
    omega
  refine ⟨u.dropTo (target + size), ?_, hufree, le_of_eq rfl, ?_⟩
  · rcases hmem with hl | hf | hr
    · exact .inl hl
    · exact (hne hf).elim
    · exact .inr hr
  · simp only [dropTo_base, dropTo_size]
    omega

theorem Mapped.placed {z : Zipper} {vm₁ vm₂ : VMManager} (h : Sound host vm)
    (hmap : vm.Mapped vm.areas target size memory state z vm₁)
    (hfit : Mappable target size memory) (hmem : host.Holds memory size)
    (hnow : vm₁.Now
      ((z.onFocus (.mapped memory state)).merge.onFocus (.reprotected perms)).merge.areas vm₂) :
    ∃ lo hi, Placed host vm target size memory.getPtr state perms lo hi vm₂ := by
  have hlayout : vm.Layout vm.areas := h.wellFormed
  have hsound := Mapped.sound h hmap hmem
  have htiled : Tiled 0 z.areas maxAddress := by
    rw [← hmap.areas_eq]
    exact tiled_cutAt (tiled_cutAt hlayout.tiled _) _
  have hview : ∀ a, vm.view a = lookup z.areas a := by
    intro a
    obtain ⟨hcut, hcut'⟩ := hmap.inFree.cuttable hlayout hfit.pos
    rw [hlayout.view_eq_lookup, ← hmap.areas_eq, lookup_cutAt hcut', lookup_cutAt hcut]
  have htiled₁ := tiled_onFocus (mapped_keeps memory state) htiled
  obtain ⟨htype, hperms, hstate, hlo, hhi, -⟩ := merge_focus (z.onFocus (.mapped memory state)) htiled₁
  have hbelow := merge_focus_base (z.onFocus (.mapped memory state)) htiled₁
  have habove := merge_focus_stop (z.onFocus (.mapped memory state)) htiled₁
  have heffect := hmap.effect hlayout hfit.pos
  have heffect' := reprotect_effect hmap.now.layout hnow
  have hcell : ∀ a, (z.onFocus (.mapped memory state)).merge.focus.base ≤ a →
      a < (z.onFocus (.mapped memory state)).merge.focus.base +
        (z.onFocus (.mapped memory state)).merge.focus.size →
      vm₁.view a = some ((z.onFocus (.mapped memory state)).merge.focus.cell a) :=
    fun a hla hah => Layout.view_eq hmap.now.layout hla hah
  have hbelow' : (∃ p ∈ z.left.head?, p.canBeMergedWith (z.focus.mapped memory state) = true) ↔
      JoinsBelow vm z.focus.base state memory.getPtr := joinsBelow_iff htiled hview hfit.ptr_ne
  have habove' : (∃ n ∈ z.right.head?, (z.focus.mapped memory state).canBeMergedWith n = true) ↔
      JoinsAbove vm (z.focus.base + z.focus.size) state (memory.getPtr + z.focus.size) :=
    joinsAbove_iff htiled hview
  rw [hmap.base_eq] at hbelow'
  rw [hmap.base_eq, hmap.size_eq] at habove'
  generalize hz₁ : (z.onFocus (.mapped memory state)).merge = z₁ at *
  have hfocus : (z.onFocus (.mapped memory state)).focus = z.focus.mapped memory state := rfl
  have hmapped : (z.focus.mapped memory state).base = target ∧
      (z.focus.mapped memory state).size = size := ⟨hmap.base_eq, hmap.size_eq⟩
  rw [hfocus] at htype hperms hstate hlo hhi hbelow habove
  rw [hmapped.1] at hlo hhi hbelow habove
  rw [hmapped.2] at hhi habove
  refine ⟨z₁.focus.base, z₁.focus.base + z₁.focus.size, hlo, hhi, ?_, ?_, ?_, ?_, ?_, ?_, ?_, ?_⟩
  · exact hbelow.trans hbelow'
  · exact habove.trans habove'
  · intro a hla hah hout
    have hv := heffect.view a
    rw [onRange, if_neg hout, hcell a hla hah] at hv
    exact ⟨z₁.focus.cell a, hv.symm, htype, hperms, hstate⟩
  · intro a hla hah
    obtain ⟨c, hc⟩ := hlayout.tiled.exists_lookup (Nat.zero_le a) (by
      obtain ⟨u, hu, -, -, huhi⟩ := hmap.inFree
      have humax := (hlayout.bounds hu).2
      omega)
    have hv := heffect'.view a
    rw [onRange, if_pos ⟨by omega, by omega⟩, heffect.view, onRange, if_pos ⟨hla, hah⟩,
      hlayout.view_eq_lookup, hc] at hv
    exact hv
  · intro a hla hah hout
    rw [heffect'.view, onRange, if_pos ⟨hla, hah⟩, heffect.view, onRange, if_neg hout]
  · intro a hout
    rw [heffect'.view, onRange, if_neg hout, heffect.view, onRange, if_neg (by omega)]
  · refine ⟨hnow.locked.trans hsound.unlocked, hnow.layout.wellFormed, ?_⟩
    rw [hnow.layout.areas_eq]
    have hcovers := hsound.covers
    rw [hmap.now.layout.areas_eq, hz₁] at hcovers
    exact coversAll_merge (coversAll_onFocus (reprotected_kept perms _) hcovers)
  · intro e he hfree
    obtain ⟨w, hw, hwfree, hwlo, hwhi⟩ := Mapped.exists_rest hlayout hfit.pos hmap he hfree
    have hw₁ : w ∈ z₁.left ∨ w ∈ z₁.right := by
      rw [← hz₁]
      exact mem_merge_of_type_ne (z.onFocus (.mapped memory state)) hw (by
        rw [hwfree]
        exact fun hcon => by cases hcon)
    have hw₂ := mem_merge_of_type_ne (z₁.onFocus (.reprotected perms)) hw₁ (by
      rw [hwfree]
      intro hcon
      rw [show (z₁.onFocus (.reprotected perms)).focus.type = z₁.focus.type from rfl, htype] at hcon
      cases hcon)
    refine ⟨w, ?_, hwfree, hwlo, hwhi⟩
    rw [hnow.layout.areas_eq]
    simp only [Zipper.areas, List.mem_append, List.mem_reverse, List.mem_cons]
    rcases hw₂ with hl | hr
    · exact .inl hl
    · exact .inr (.inr hr)

theorem mapBlock_post (h : Sound host vm) (ht : target < 2 ^ 32) (hs : size < 2 ^ 32)
    (hmem : host.Holds memory size) :
    (mapBlock target memory size state perms).Post vm
      (fun _ vm' => Mappable target size memory ∧ InFree vm.areas target (target + size) ∧
        ∃ lo hi, Placed host vm target size memory.getPtr state perms lo hi vm')
      (fun _ _ => False)
      (fun _ => ¬ (Mappable target size memory ∧ InFree vm.areas target (target + size))) := by
  have hlayout : vm.Layout vm.areas := h.wellFormed
  unfold mapBlock
  rw [post_bind, Exec.post_unwrap]
  by_cases hfit : Mappable target size memory ∧ target + size < 2 ^ 32
  · obtain ⟨hfit, hwrap⟩ := hfit
    refine (mapBackingMemory_post h.unlocked hlayout hfit.target_dvd hfit.size_dvd hfit.pos
      hwrap hfit.ptr_ne).mono ?_ ?_ (fun _ hf => hf.elim)
    · rintro it vm₁ ⟨z, hmap, rfl⟩
      rw [post_bind]
      refine (reprotect_post (hmap.now.locked.trans h.unlocked) _ hmap.now.layout).mono ?_
        (fun _ _ he => he) (fun _ hf => hf.elim)
      rintro it vm₂ ⟨-, hnow⟩
      exact ⟨hfit, hmap.inFree, Mapped.placed h hmap hfit hmem hnow⟩
    · rintro e vm' ⟨-, hfree⟩
      exact fun hand => hfree hand.2
  · have hbad : ¬ (Mappable target size memory ∧ InFree vm.areas target (target + size)) := by
      rintro ⟨hgood, u, hu, -, -, huhi⟩
      have humax := (hlayout.bounds hu).2
      have hmax : maxAddress < 2 ^ 32 := by decide
      exact hfit ⟨hgood, by omega⟩
    exact (mapBackingMemory_unfit hlayout ht hs hfit).mono (fun _ _ hq => hq.elim)
      (fun _ _ _ => hbad) (fun _ _ => hbad)

/-! ## A list of blocks -/

/-- How many bytes a list of blocks has. -/
def blocksSize (blocks : List (MemoryRef × Nat)) : Nat := (blocks.map Prod.snd).sum

/-- The host byte at an offset into a list of blocks. -/
def blocksPointer : List (MemoryRef × Nat) → Nat → Nat
  | [], _ => 0
  | (memory, size) :: rest, offset =>
      if offset < size then memory.getPtr + offset else blocksPointer rest (offset - size)

/-- What the mapping of a list of blocks asserts of its arguments. -/
def Fits (target : Nat) (blocks : List (MemoryRef × Nat)) : Prop :=
  pageSize ∣ target ∧ ∀ b ∈ blocks, pageSize ∣ b.2 ∧ 0 < b.2

/-- The first block joins the address below, or the last one the address above. -/
def Joins (vm : VMManager) (target : Nat) (state : MemoryState)
    (blocks : List (MemoryRef × Nat)) : Prop :=
  (∃ b ∈ blocks.head?, JoinsBelow vm target state b.1.getPtr) ∨
    ∃ b ∈ blocks.getLast?, JoinsAbove vm (target + blocksSize blocks) state (b.1.getPtr + b.2)

@[simp] theorem blocksSize_nil : blocksSize [] = 0 := rfl

@[simp] theorem blocksSize_cons (b : MemoryRef × Nat) (rest : List (MemoryRef × Nat)) :
    blocksSize (b :: rest) = b.2 + blocksSize rest := rfl

/-- What a list of blocks does to the address space. The addresses in `spill` lie outside the
range and get the permissions of the blocks. -/
structure Laid (host : Host) (vm : VMManager) (target : Nat) (blocks : List (MemoryRef × Nat))
    (state : MemoryState) (perms : VMAPermission) (spill : Set Nat) (vm' : VMManager) :
    Prop where
  fits : blocks ≠ [] → Fits target blocks
  start_free : blocks ≠ [] → ∃ c, vm.view target = some c ∧ c.type = .free
  inside : ∀ a, target ≤ a → a < target + blocksSize blocks →
    vm'.view a = some ⟨.backingMemory, perms, state, blocksPointer blocks (a - target)⟩
  spill_cell : ∀ a ∈ spill, ¬ (target ≤ a ∧ a < target + blocksSize blocks) ∧
    ∃ c, vm.view a = some c ∧ c.type = .backingMemory ∧ c.permissions = .readWrite ∧
      c.meminfoState = state
  spilled : ∀ a ∈ spill, vm'.view a = (vm.view a).map fun c => { c with permissions := perms }
  outside : ∀ a ∉ spill, ¬ (target ≤ a ∧ a < target + blocksSize blocks) →
    vm'.view a = vm.view a
  nonempty_iff : perms ≠ .readWrite → (spill.Nonempty ↔ Joins vm target state blocks)
  sound : Sound host vm'

theorem laid_nil (h : Sound host vm) : Laid host vm target [] state perms ∅ vm where
  fits hne := (hne rfl).elim
  start_free hne := (hne rfl).elim
  inside a hlo hhi := by simp only [blocksSize_nil] at hhi; omega
  spill_cell a ha := ha.elim
  spilled a ha := ha.elim
  outside _ _ _ := rfl
  nonempty_iff _ := by simp [Joins]
  sound := h

theorem map_permissions_self {o : Option Cell} {c : Cell} (ho : o = some c)
    (hc : c.permissions = perms) : o.map (fun c => { c with permissions := perms }) = o := by
  subst ho hc
  rfl

section Cons

variable {rest : List (MemoryRef × Nat)} {lo hi : Nat} {spill : Set Nat} {vm₁ vm₂ : VMManager}

/-- The addresses that a block merged with, outside its own range. -/
def placedSpill (target size lo hi : Nat) : Set Nat :=
  {a | lo ≤ a ∧ a < hi ∧ ¬ (target ≤ a ∧ a < target + size)}

theorem Placed.hi_eq (hp : Placed host vm target size memory.getPtr state perms lo hi vm₁)
    (hl : Laid host vm₁ (target + size) rest state perms spill vm₂) (hrest : rest ≠ []) :
    hi = target + size := by
  by_contra hne
  have hle := hp.le_hi
  have hlo := hp.lo_le
  have hout : ¬ (target ≤ target + size ∧ target + size < target + size) := by omega
  obtain ⟨c, hc, htype, -, -⟩ := hp.joined (target + size) (by omega) (by omega) hout
  have hm := hp.merged (target + size) (by omega) (by omega) hout
  obtain ⟨d, hd, hfree⟩ := hl.start_free hrest
  rw [hm, hc, Option.map_some, Option.some.injEq] at hd
  rw [← hd, htype] at hfree
  cases hfree

theorem Placed.inside_kept (hp : Placed host vm target size memory.getPtr state perms lo hi vm₁)
    (hl : Laid host vm₁ (target + size) rest state perms spill vm₂) {a : Nat}
    (hlo : target ≤ a) (hhi : a < target + size) :
    vm₂.view a = some ⟨.backingMemory, perms, state, memory.getPtr + (a - target)⟩ := by
  have hcell := hp.inside a hlo hhi
  by_cases ha : a ∈ spill
  · rw [hl.spilled a ha, map_permissions_self hcell rfl, hcell]
  · rw [hl.outside a ha (by omega), hcell]

theorem Laid.fits_cons (hl : Laid host vm₁ (target + size) rest state perms spill vm₂)
    (hfit : Mappable target size memory) : Fits target ((memory, size) :: rest) := by
  refine ⟨hfit.target_dvd, fun b hb => ?_⟩
  rcases List.mem_cons.mp hb with rfl | hb
  · exact ⟨hfit.size_dvd, hfit.pos⟩
  · exact (hl.fits (List.ne_nil_of_mem hb)).2 b hb

theorem Placed.laid_readWrite
    (hp : Placed host vm target size memory.getPtr state .readWrite lo hi vm₁)
    (hl : Laid host vm₁ (target + size) rest state .readWrite spill vm₂)
    (hfree : ∃ c, vm.view target = some c ∧ c.type = .free)
    (hfit : Mappable target size memory) :
    Laid host vm target ((memory, size) :: rest) state .readWrite ∅ vm₂ where
  fits _ := hl.fits_cons hfit
  start_free _ := hfree
  inside a hlo hhi := by
    simp only [blocksSize_cons] at hhi
    by_cases ha : a < target + size
    · rw [hp.inside_kept hl hlo ha, blocksPointer, if_pos (by omega)]
    · rw [hl.inside a (by omega) (by omega), blocksPointer, if_neg (by omega),
        Nat.sub_sub]
  spill_cell a ha := ha.elim
  spilled a ha := ha.elim
  outside a _ hout := by
    simp only [blocksSize_cons] at hout
    have h₂ : vm₂.view a = vm₁.view a := by
      by_cases ha : a ∈ spill
      · obtain ⟨-, c, hc, -, hperms, -⟩ := hl.spill_cell a ha
        rw [hl.spilled a ha, map_permissions_self hc hperms]
      · exact hl.outside a ha (by omega)
    rw [h₂]
    by_cases ha : lo ≤ a ∧ a < hi
    · obtain ⟨c, hc, -, hperms, -⟩ := hp.joined a ha.1 ha.2 (by omega)
      rw [hp.merged a ha.1 ha.2 (by omega), map_permissions_self hc hperms]
    · exact hp.outside a ha
  nonempty_iff hne := (hne rfl).elim
  sound := hl.sound

theorem placedSpill_nonempty (hp : Placed host vm target size memory.getPtr state perms lo hi vm₁) :
    (placedSpill target size lo hi).Nonempty ↔
      JoinsBelow vm target state memory.getPtr ∨
        JoinsAbove vm (target + size) state (memory.getPtr + size) := by
  have hlo := hp.lo_le
  have hhi := hp.le_hi
  rw [← hp.lo_lt_iff, ← hp.lt_hi_iff]
  constructor
  · rintro ⟨a, hla, hah, hout⟩
    omega
  · rintro (hlt | hlt)
    · exact ⟨lo, le_refl lo, by omega, by omega⟩
    · exact ⟨target + size, by omega, hlt, by omega⟩

theorem Placed.joins_iff (hp : Placed host vm target size memory.getPtr state perms lo hi vm₁)
    (hl : Laid host vm₁ (target + size) rest state perms spill vm₂) (hpos : 0 < size)
    (hne : perms ≠ .readWrite) :
    Joins vm target state ((memory, size) :: rest) ↔
      (JoinsBelow vm target state memory.getPtr ∨
        JoinsAbove vm (target + size) state (memory.getPtr + size)) ∨
      Joins vm₁ (target + size) state rest := by
  rcases List.eq_nil_or_concat rest with rfl | ⟨front, last, hlast⟩
  · simp [Joins]
  · have hnil : rest ≠ [] := by simp [hlast]
    have heq := hp.hi_eq hl hnil
    have habove : ¬ JoinsAbove vm (target + size) state (memory.getPtr + size) := by
      rw [← hp.lt_hi_iff]
      omega
    have hinner : ∀ pointer, ¬ JoinsBelow vm₁ (target + size) state pointer := by
      rintro pointer ⟨-, hcell⟩
      rw [hp.inside (target + size - 1) (by omega) (by omega)] at hcell
      simp only [Option.some.injEq, Cell.mk.injEq] at hcell
      exact hne hcell.2.1
    have hview : vm₁.view (target + size + blocksSize rest) =
        vm.view (target + size + blocksSize rest) := hp.outside _ (by omega)
    simp only [Joins, List.head?_cons, Option.mem_def, Option.some.injEq, exists_eq_left',
      blocksSize_cons, ← Nat.add_assoc, JoinsAbove, hview, List.getLast?_cons_of_ne_nil hnil]
    constructor
    · rintro (hbelow | hlast)
      · exact .inl (.inl hbelow)
      · exact .inr (.inr hlast)
    · rintro ((hbelow | hcon) | ⟨b, -, hcon⟩ | hlast)
      · exact .inl hbelow
      · exact (habove hcon).elim
      · exact (hinner _ hcon).elim
      · exact .inr hlast

theorem Placed.laid (hp : Placed host vm target size memory.getPtr state perms lo hi vm₁)
    (hl : Laid host vm₁ (target + size) rest state perms spill vm₂)
    (hfree : ∃ c, vm.view target = some c ∧ c.type = .free)
    (hfit : Mappable target size memory) (hne : perms ≠ .readWrite) :
    Laid host vm target ((memory, size) :: rest) state perms
      (placedSpill target size lo hi ∪ spill) vm₂ := by
  have hlo := hp.lo_le
  have hhi := hp.le_hi
  -- no cell of the spill is in the block or merged with it: those are no longer read-write
  have hsep : ∀ a ∈ spill, ¬ (lo ≤ a ∧ a < hi) := by
    rintro a ha ⟨hla, hah⟩
    obtain ⟨-, c, hc, -, hperms, -⟩ := hl.spill_cell a ha
    by_cases hin : target ≤ a ∧ a < target + size
    · rw [hp.inside a hin.1 hin.2, Option.some.injEq] at hc
      exact hne (by rw [← hc] at hperms; exact hperms)
    · obtain ⟨d, hd, -, -, -⟩ := hp.joined a hla hah hin
      rw [hp.merged a hla hah hin, hd, Option.map_some, Option.some.injEq] at hc
      exact hne (by rw [← hc] at hperms; exact hperms)
  have hrest : ∀ a ∈ placedSpill target size lo hi,
      ¬ (target + size ≤ a ∧ a < target + size + blocksSize rest) := by
    rintro a ⟨hla, hah, hout⟩ hin
    by_cases hnil : rest = []
    · subst hnil
      simp only [blocksSize_nil] at hin
      omega
    · have heq := hp.hi_eq hl hnil
      omega
  refine ⟨fun _ => hl.fits_cons hfit, fun _ => hfree, ?_, ?_, ?_, ?_, fun _ => ?_, hl.sound⟩
  · intro a hla hah
    simp only [blocksSize_cons] at hah
    by_cases ha : a < target + size
    · rw [hp.inside_kept hl hla ha, blocksPointer, if_pos (by omega)]
    · rw [hl.inside a (by omega) (by omega), blocksPointer, if_neg (by omega), Nat.sub_sub]
  · rintro a (ha | ha)
    · refine ⟨?_, hp.joined a ha.1 ha.2.1 ha.2.2⟩
      have hout := hrest a ha
      have hout' := ha.2.2
      simp only [blocksSize_cons]
      omega
    · obtain ⟨hout, c, hc⟩ := hl.spill_cell a ha
      have hfar := hsep a ha
      rw [hp.outside a hfar] at hc
      simp only [blocksSize_cons]
      exact ⟨by omega, c, hc⟩
  · rintro a (ha | ha)
    · have hnot : a ∉ spill := fun hs => hsep a hs ⟨ha.1, ha.2.1⟩
      rw [hl.outside a hnot (hrest a ha), hp.merged a ha.1 ha.2.1 ha.2.2]
    · rw [hl.spilled a ha, hp.outside a (hsep a ha)]
  · intro a ha hout
    rw [Set.mem_union, not_or] at ha
    simp only [blocksSize_cons] at hout
    rw [hl.outside a ha.2 (by omega), hp.outside a fun hin => ha.1 ⟨hin.1, hin.2, by omega⟩]
  · rw [Set.union_nonempty, placedSpill_nonempty hp, hl.nonempty_iff hne,
      hp.joins_iff hl hfit.pos hne]

end Cons

theorem InFree.start_free (h : vm.WellFormed) (hpos : 0 < size)
    (hfree : InFree vm.areas target (target + size)) :
    ∃ c, vm.view target = some c ∧ c.type = .free := by
  have hlayout : vm.Layout vm.areas := h
  obtain ⟨u, hu, htype, hlo, hhi⟩ := hfree
  obtain ⟨pre, post, hsplit⟩ := List.append_of_mem hu
  rw [hsplit] at hlayout
  exact ⟨u.cell target, hlayout.view_eq hlo (by omega), htype⟩

/-- The block loop lays its blocks, and aborts only when an argument misses an assertion or the
range is not inside one free area. -/
theorem mapBlocks_post (blocks : List (MemoryRef × Nat)) :
    ∀ (vm : VMManager) (target : Nat), Sound host vm → target < 2 ^ 32 →
      (∀ b ∈ blocks, host.Holds b.1 b.2 ∧ b.2 < 2 ^ 32) →
      (mapBlocks state perms blocks target).Post vm
        (fun _ vm' => ∃ spill, Laid host vm target blocks state perms spill vm')
        (fun _ _ => False)
        (fun _ => blocks ≠ [] ∧ ¬ (Fits target blocks ∧
          InFree vm.areas target (target + blocksSize blocks))) := by
  induction blocks with
  | nil =>
      intro vm target h _ _
      exact ⟨∅, laid_nil h⟩
  | cons b rest ih =>
      intro vm target h ht hblocks
      obtain ⟨memory, size⟩ := b
      obtain ⟨hmem, hs⟩ := hblocks (memory, size) (by simp)
      rw [mapBlocks, post_bind]
      refine (mapBlock_post h ht hs hmem).mono ?_ (fun _ _ he => he) ?_
      · rintro _ vm₁ ⟨hfit, hin, lo, hi, hp⟩
        have hle : target + size ≤ maxAddress := by
          obtain ⟨u, hu, -, -, huhi⟩ := hin
          have humax := (Layout.bounds h.wellFormed hu).2
          omega
        have hmax : maxAddress < 2 ^ 32 := by decide
        rw [add32_of_lt (by omega)]
        refine (ih vm₁ (target + size) hp.sound (by omega)
          fun b hb => hblocks b (by simp [hb])).mono ?_ (fun _ _ he => he) ?_
        · rintro _ vm₂ ⟨spill, hl⟩
          have hstart := InFree.start_free h.wellFormed hfit.pos hin
          by_cases hperms : perms = .readWrite
          · subst hperms
            exact ⟨∅, hp.laid_readWrite hl hstart hfit⟩
          · exact ⟨_, hp.laid hl hstart hfit hperms⟩
        · rintro f ⟨hnil, hnot⟩
          refine ⟨by simp, ?_⟩
          rintro ⟨⟨-, hfits⟩, hall⟩
          obtain ⟨b, rest', rfl⟩ := List.exists_cons_of_ne_nil hnil
          have hpos := (hfits b (by simp)).2
          simp only [blocksSize_cons, ← Nat.add_assoc] at hall hnot
          refine hnot ⟨⟨hfit.target_dvd.add hfit.size_dvd, fun b hb => hfits b ?_⟩,
            hp.free _ (by omega) hall⟩
          exact List.mem_cons_of_mem _ hb
      · rintro f hnot
        refine ⟨by simp, ?_⟩
        rintro ⟨⟨htd, hfits⟩, u, hu, hufree, hulo, huhi⟩
        obtain ⟨hsd, hpos⟩ := hfits (memory, size) (by simp)
        simp only [blocksSize_cons] at huhi
        exact hnot ⟨⟨htd, hsd, hpos, hmem.getPtr_pos.ne'⟩, u, hu, hufree, hulo, by omega⟩

/-- The frame of a list of blocks is exact unless a neighbour was merged in and the permissions
are not those it had. -/
theorem Laid.frame_iff {blocks : List (MemoryRef × Nat)} {spill : Set Nat}
    (hl : Laid host vm target blocks state perms spill vm') :
    (∀ a, ¬ (target ≤ a ∧ a < target + blocksSize blocks) → vm'.view a = vm.view a) ↔
      perms = .readWrite ∨ ¬ Joins vm target state blocks := by
  by_cases hperms : perms = .readWrite
  · refine iff_of_true (fun a hout => ?_) (.inl hperms)
    by_cases ha : a ∈ spill
    · obtain ⟨-, c, hc, -, hrw, -⟩ := hl.spill_cell a ha
      rw [hl.spilled a ha, map_permissions_self hc (hrw.trans hperms.symm)]
    · exact hl.outside a ha hout
  · rw [← hl.nonempty_iff hperms, Set.not_nonempty_iff_eq_empty]
    constructor
    · intro hframe
      refine .inr (Set.eq_empty_of_forall_notMem fun a ha => ?_)
      obtain ⟨hout, c, hc, -, hrw, -⟩ := hl.spill_cell a ha
      have hsame := hframe a hout
      rw [hl.spilled a ha, hc, Option.map_some, Option.some.injEq] at hsame
      exact hperms ((congrArg Cell.permissions hsame).trans hrw)
    · rintro (hcon | rfl)
      · exact (hperms hcon).elim
      · exact fun a hout => hl.outside a (Set.notMem_empty a) hout

theorem Laid.same_backing {blocks : List (MemoryRef × Nat)} {spill : Set Nat}
    (hl : Laid host vm target blocks state perms spill vm') {a : Nat}
    (hout : ¬ (target ≤ a ∧ a < target + blocksSize blocks)) :
    (vm'.view a).map (fun c => (c.type, c.pointer)) =
      (vm.view a).map fun c => (c.type, c.pointer) := by
  by_cases ha : a ∈ spill
  · rw [hl.spilled a ha]
    cases vm.view a <;> rfl
  · rw [hl.outside a ha hout]

/-! ## The blocks behind a range -/

/-- The blocks behind `size` bytes from an address on. -/
structure Behind (host : Host) (vm : VMManager) (target size : Nat)
    (blocks : List (MemoryRef × Nat)) : Prop where
  size_eq : blocksSize blocks = size
  held : ∀ b ∈ blocks, host.Holds b.1 b.2 ∧ pageSize ∣ b.2 ∧ 0 < b.2
  cell : ∀ a, target ≤ a → a < target + size → ∃ c, vm.view a = some c ∧
    c.type = .backingMemory ∧ c.pointer = blocksPointer blocks (a - target)

theorem behind_nil : Behind host vm target 0 [] where
  size_eq := rfl
  held b hb := by simp at hb
  cell a hlo hhi := by omega

theorem Behind.cons {pre post : List VirtualMemoryArea} {v : VirtualMemoryArea}
    {stop rest : Nat} {blocks : List (MemoryRef × Nat)} (h : Sound host vm)
    (hsplit : vm.areas = pre ++ v :: post) (htype : v.type = .backingMemory)
    (hlo : v.base ≤ target) (hlt : target < stop) (hstop : stop ≤ v.base + v.size)
    (ht : pageSize ∣ target) (hs : pageSize ∣ stop) (hrest : Behind host vm stop rest blocks) :
    Behind host vm target (stop - target + rest)
      ((v.backingMemory.plus (target - v.base), stop - target) :: blocks) := by
  have hlayout : vm.Layout (pre ++ v :: post) := hsplit ▸ h.wellFormed
  have hheld := h.covers v (by simp [hsplit]) htype
  have hptr := MemoryRef.getPtr_plus (n := target - v.base) (r := v.backingMemory) (by
    have hle := hheld.le_getSize
    omega)
  refine ⟨by rw [blocksSize_cons, hrest.size_eq], ?_, ?_⟩
  · intro b hb
    rcases List.mem_cons.mp hb with rfl | hb
    · exact ⟨(hheld.plus (k := target - v.base) (by omega)).mono (by omega),
        Nat.dvd_sub hs ht, by simp only; omega⟩
    · exact hrest.held b hb
  · intro a hla hah
    by_cases ha : a < stop
    · refine ⟨v.cell a, hlayout.view_eq (by omega) (by omega), htype, ?_⟩
      rw [blocksPointer, if_pos (by omega), hptr]
      simp only [VirtualMemoryArea.cell, VirtualMemoryArea.pointerAt, htype]
      omega
    · obtain ⟨c, hc, hctype, hcptr⟩ := hrest.cell a (by omega) (by omega)
      refine ⟨c, hc, hctype, ?_⟩
      rw [hcptr, blocksPointer, if_neg (by omega)]
      congr 1
      omega

/-- What the search for blocks returns from one address on. -/
def FindsBlocks (host : Host) (vm : VMManager) (rangeEnd fuel target : Nat) : Prop :=
  (backingBlocks rangeEnd fuel target).Post vm
    (fun blocks vm' => vm' = vm ∧ Behind host vm target (rangeEnd - target) blocks)
    (fun _ vm' => vm' = vm ∧ ¬ vm.Everywhere Cell.IsMapped target rangeEnd)
    (fun _ => False)

theorem findsBlocks_end (fuel rangeEnd : Nat) :
    FindsBlocks host vm rangeEnd (fuel + 1) rangeEnd := by
  unfold FindsBlocks
  rw [backingBlocks, if_pos rfl, post_pure, Nat.sub_self]
  exact ⟨rfl, behind_nil⟩

theorem findsBlocks_step {pre post : List VirtualMemoryArea} {v : VirtualMemoryArea}
    {rangeEnd fuel : Nat} (h : Sound host vm) (hend : rangeEnd ≤ maxAddress)
    (hpage : pageSize ∣ rangeEnd) (hsplit : vm.areas = pre ++ v :: post) (hlo : v.base ≤ target)
    (hhi : target < v.base + v.size) (hlt : target < rangeEnd) (ht : pageSize ∣ target)
    (hrest : FindsBlocks host vm rangeEnd fuel (min rangeEnd (v.base + v.size))) :
    FindsBlocks host vm rangeEnd (fuel + 1) target := by
  have hlayout : vm.Layout (pre ++ v :: post) := hsplit ▸ h.wellFormed
  have hvmax := (hlayout.bounds (v := v) (by simp)).2
  have hmax : maxAddress < 2 ^ 32 := by decide
  have hview := hlayout.view_eq hlo hhi
  have hstop : min rangeEnd (add32 v.base v.size) = min rangeEnd (v.base + v.size) := by
    rw [add32_of_lt (by omega)]
  have hsize : sub32 (min rangeEnd (v.base + v.size)) target =
      min rangeEnd (v.base + v.size) - target := sub32_of_le (by omega) (by omega)
  have hnext : add32 target (min rangeEnd (v.base + v.size) - target) =
      min rangeEnd (v.base + v.size) := by
    rw [add32_of_lt (by omega)]
    omega
  unfold FindsBlocks
  rw [backingBlocks, if_neg (by omega), post_bind, post_get, post_bind, hlayout.findVMA_eq hlo hhi,
    hlayout.post_deref, post_bind, Exec.post_require]
  simp only [hstop, hsize, hnext]
  refine ⟨fun htype => ?_, fun htype => ⟨trivial, fun hmapped => ?_⟩⟩
  · have hheld := h.covers v (by simp [hsplit]) htype
    have hle := hheld.le_getSize
    rw [sub32_of_le hlo (by omega), MemoryRef.advance]
    simp only [post_bind, post_assert, post_pure]
    refine ⟨fun _ => hrest.mono ?_ ?_ (fun _ hf => hf), fun hout => hout (by omega)⟩
    · rintro blocks vm' ⟨rfl, hbehind⟩
      have hstopPage : pageSize ∣ min rangeEnd (v.base + v.size) := by
        rcases min_choice rangeEnd (v.base + v.size) with heq | heq
        · rw [heq]
          exact hpage
        · rw [heq]
          exact hlayout.base_dvd.add (hlayout.paged v (by simp))
      refine ⟨rfl, ?_⟩
      have hcons := hbehind.cons h hsplit htype hlo (by omega) (by omega) ht hstopPage
      rwa [show min rangeEnd (v.base + v.size) - target +
        (rangeEnd - min rangeEnd (v.base + v.size)) = rangeEnd - target by omega] at hcons
    · rintro e vm' ⟨rfl, hnot⟩
      exact ⟨rfl, fun hmapped => hnot fun a hla hah => hmapped a (by omega) hah⟩
  · obtain ⟨c, hc, hcm⟩ := hmapped target (le_refl target) hlt
    rw [hview, Option.some.injEq] at hc
    subst hc
    cases hv : v.type with
    | free => exact hcm hv
    | backingMemory => exact htype hv

theorem findsBlocks {rangeEnd : Nat} (h : Sound host vm) (hend : rangeEnd ≤ maxAddress)
    (hpage : pageSize ∣ rangeEnd) (post : List VirtualMemoryArea) :
    ∀ (fuel : Nat) (pre : List VirtualMemoryArea) (v : VirtualMemoryArea) (target : Nat),
      vm.areas = pre ++ v :: post → v.base ≤ target → target < v.base + v.size →
      target < rangeEnd → pageSize ∣ target →
      FindsBlocks host vm rangeEnd (fuel + post.length + 2) target := by
  induction post with
  | nil =>
      intro fuel pre v target hsplit hlo hhi hlt ht
      have hlayout : vm.Layout (pre ++ v :: []) := hsplit ▸ h.wellFormed
      have hstop : v.base + v.size = maxAddress := hlayout.post_tiled
      refine findsBlocks_step h hend hpage hsplit hlo hhi hlt ht ?_
      rw [min_eq_left (by omega)]
      exact findsBlocks_end _ _
  | cons w post ih =>
      intro fuel pre v target hsplit hlo hhi hlt ht
      have hlayout : vm.Layout (pre ++ v :: w :: post) := hsplit ▸ h.wellFormed
      obtain ⟨hbase, hpos, -⟩ := hlayout.post_tiled
      simp only [start_eq, length_eq] at hbase hpos
      refine findsBlocks_step h hend hpage hsplit hlo hhi hlt ht ?_
      rw [List.length_cons]
      rcases Nat.lt_or_ge (v.base + v.size) rangeEnd with hnext | hlast
      · -- the range goes on in the next area
        rw [min_eq_right (by omega), ← hbase]
        refine ih fuel (pre ++ [v]) w w.base (by simp [hsplit]) (le_refl _) (by omega) (by omega)
          ?_
        rw [hbase]
        exact hlayout.base_dvd.add (hlayout.paged v (by simp))
      · rw [min_eq_left hlast]
        exact findsBlocks_end _ _

theorem getBackingBlocksForRange_post (h : Sound host vm) (hp : Proper target size) :
    (getBackingBlocksForRange target size).Post vm
      (fun blocks vm' => vm' = vm ∧ Behind host vm target size blocks)
      (fun _ vm' => vm' = vm ∧ ¬ vm.Everywhere Cell.IsMapped target (target + size))
      (fun _ => False) := by
  have hmax : maxAddress < 2 ^ 32 := by decide
  have hle := hp.le_max
  have hpos := hp.pos
  have hlayout : vm.Layout vm.areas := h.wellFormed
  obtain ⟨pre, v, post, hsplit, hlo, hhi⟩ := hlayout.exists_area (a := target) (by omega)
  have hlength : vm.vmaMap.length + 1 = pre.length + post.length + 2 := by
    have hmap := congrArg List.length hsplit
    simp only [areas, List.length_map, List.length_append, List.length_cons] at hmap
    omega
  have hfinds := findsBlocks h hle (hp.target_dvd.add hp.size_dvd) post pre.length pre v target
    hsplit hlo hhi (by omega) hp.target_dvd
  unfold FindsBlocks at hfinds
  unfold getBackingBlocksForRange
  rw [post_bind, post_get, add32_of_lt (by omega), hlength]
  rwa [Nat.add_sub_cancel_left] at hfinds

theorem Behind.everywhere {blocks : List (MemoryRef × Nat)}
    (h : Behind host vm target size blocks) :
    vm.Everywhere Cell.IsMapped target (target + size) := by
  intro a hlo hhi
  obtain ⟨c, hc, htype, -⟩ := h.cell a hlo hhi
  exact ⟨c, hc, by rw [Cell.IsMapped, htype]; exact fun hcon => by cases hcon⟩

end Cytrus.Kernel.Process
