import Cytrus.Kernel.VMManagerCalls

/-!
# Address spaces as functions, over whole runs

`Call` lists the calls on an address space with what each returns. From the
state that `Reset` leaves, every sequence of calls within their asserted
preconditions keeps the map an exact tiling, and each call updates the
function the map denotes on its target range only, or not at all.
-/

namespace Cytrus.Kernel.VMManager

open Support Support.OrderedMap Support.Segment Memory

variable {vm vm' : VMManager} {l : List VirtualMemoryArea} {α : Type}

/-- A call, indexed by what it returns. -/
inductive Call : Type → Type where
  | mapBackingMemory (target : Nat) (memory : MemoryRef) (size : Nat) (state : MemoryState) :
      Call VMAIter
  | mapBackingMemoryToBase (base regionSize : Nat) (memory : MemoryRef) (size : Nat)
      (state : MemoryState) : Call Nat
  | unmapRange (target size : Nat) : Call PUnit
  | reprotect (vmaHandle : VMAIter) (newPerms : VMAPermission) : Call VMAIter
  | reprotectRange (target size : Nat) (newPerms : VMAPermission) : Call PUnit
  | changeMemoryState (target size : Nat) (expectedState : MemoryState)
      (expectedPerms : VMAPermission) (newState : MemoryState) (newPerms : VMAPermission) :
      Call PUnit

namespace Call

def run : Call α → VM α
  | mapBackingMemory target memory size state =>
      VMManager.mapBackingMemory target memory size state
  | mapBackingMemoryToBase base regionSize memory size state =>
      VMManager.mapBackingMemoryToBase base regionSize memory size state
  | unmapRange target size => VMManager.unmapRange target size
  | reprotect vmaHandle newPerms => VMManager.reprotect vmaHandle newPerms
  | reprotectRange target size newPerms => VMManager.reprotectRange target size newPerms
  | changeMemoryState target size expectedState expectedPerms newState newPerms =>
      VMManager.changeMemoryState target size expectedState expectedPerms newState newPerms

/-- The asserted preconditions; a handle has to point to an area of the map. -/
def Allowed (vm : VMManager) : Call α → Prop
  | mapBackingMemory target memory size _ => memory.getPtr ≠ 0 ∧ Proper target size
  | mapBackingMemoryToBase base _ memory size _ => memory.getPtr ≠ 0 ∧ Proper base size
  | unmapRange target size => Proper target size
  | reprotect vmaHandle _ => ∃ vma ∈ vm.areas, vmaHandle = some vma.base
  | reprotectRange target size _ => Proper target size
  | changeMemoryState target size _ _ _ _ => Proper target size

/-- How a call that returned `r` has updated the function: the abstract meaning of the calls. -/
def update (vm : VMManager) : Call α → α → Nat → Option Cell → Option Cell
  | mapBackingMemory target memory size state, _ =>
      onRange target (target + size) fun a _ => mappedCell target memory state a
  | mapBackingMemoryToBase _ _ memory size state, target =>
      onRange target (target + size) fun a _ => mappedCell target memory state a
  | unmapRange target size, _ => onRange target (target + size) fun _ _ => freeCell
  | reprotect vmaHandle newPerms, _ =>
      match vmaHandle.bind (at? vm.vmaMap) with
      | some vma =>
          onRange vma.base (vma.base + vma.size) fun _ c => { c with permissions := newPerms }
      | none => fun _ c => c
  | reprotectRange target size newPerms, _ =>
      onRange target (target + size) fun _ c => { c with permissions := newPerms }
  | changeMemoryState target size _ _ newState newPerms, _ =>
      onRange target (target + size) fun _ c =>
        { c with permissions := newPerms, meminfoState := newState }

/-- The aborts that the preconditions leave: a split of an area whose host buffer is too short,
and a search for a free area that finds none. -/
def MayAbort (vm : VMManager) : Call α → Fault → Prop
  | mapBackingMemoryToBase base _ _ size _, f =>
      f = .invalidIterator ∧ ∀ vma ∈ vm.areas, vma.type = .free →
        base < vma.base + vma.size → vma.base + vma.size < base + size
  | mapBackingMemory .., _ => False
  | reprotect .., _ => False
  | _, f => f = .memoryRefOffset ∧ ∃ vma ∈ vm.areas, ¬ vma.Backed

end Call

/-! ## The search for a free area -/

theorem mapBackingMemoryToBase_post {base regionSize size : Nat} {memory : MemoryRef}
    {state : MemoryState} (hu : vm.isLocked = false) (h : vm.Layout l) (hp : Proper base size)
    (hmem : memory.getPtr ≠ 0) :
    (mapBackingMemoryToBase base regionSize memory size state).Post vm
      (fun target vm' => ∃ z, vm.Mapped l target size memory state z vm')
      (fun _ vm' => vm' = vm)
      (fun f => f = .invalidIterator ∧ ∀ vma ∈ l, vma.type = .free →
        base < vma.base + vma.size → vma.base + vma.size < base + size) := by
  obtain ⟨hbase, hsize, hpos, hmax⟩ := hp
  have hmax' : 2 * maxAddress < 2 ^ 32 := by decide
  unfold mapBackingMemoryToBase
  rw [Exec.post_bind, post_assertUnlocked hu, Exec.post_bind, Exec.post_get, Exec.post_bind]
  cases hfound : (vm.vmaMap.find? fun entry =>
      entry.2.type = .free && base < add32 entry.2.base entry.2.size &&
        add32 base size ≤ add32 entry.2.base entry.2.size) with
  | none =>
      rw [Option.map_none]
      simp only [deref, Exec.post_read, Option.bind_none]
      refine ⟨by simp, fun _ => ⟨trivial, fun vma hvma hfree hlt => ?_⟩⟩
      have hnot := List.find?_eq_none.mp hfound (vma.base, vma)
        (by rw [h.map_eq]; exact mem_entries.mpr ⟨rfl, hvma⟩)
      have hv := (h.bounds hvma).2
      rw [add32_of_lt (a := vma.base) (b := vma.size) (by omega), add32_of_lt (by omega)] at hnot
      simp only [hfree, hlt, decide_true, Bool.and_true, Bool.true_and, decide_eq_true_eq] at hnot
      omega
  | some entry =>
      obtain ⟨key, v⟩ := entry
      obtain ⟨hkey, hv⟩ := mem_entries.mp (h.map_eq ▸ List.mem_of_find?_eq_some hfound)
      obtain ⟨pre, post, rfl⟩ := List.append_of_mem hv
      have hkey : key = v.base := hkey
      have hvmax := (h.bounds hv).2
      rw [Option.map_some, hkey, h.post_deref, Exec.post_bind, Exec.post_require]
      refine ⟨fun _ => ?_, fun _ => rfl⟩
      have htarget : pageSize ∣ max base v.base := by
        rcases max_choice base v.base with heq | heq <;> rw [heq]
        · exact hbase
        · exact h.base_dvd
      rw [Exec.post_bind]
      refine (mapBackingMemory_post hu h htarget hsize hpos (by omega) hmem).mono ?_
        (fun _ _ h => h.1) (fun _ h => h.elim)
      rintro it vm' ⟨z, hmap, -⟩
      exact ⟨z, hmap⟩

/-! ## Runs -/

theorem Call.post (c : Call α) (hu : vm.isLocked = false) (h : vm.WellFormed)
    (hc : c.Allowed vm) :
    c.run.Post vm (fun r vm' => vm.Effect (c.update vm r) vm') (fun _ vm' => vm' = vm)
      (c.MayAbort vm) := by
  cases c with
  | mapBackingMemory target memory size state =>
      obtain ⟨hmem, hp⟩ := hc
      refine (mapBackingMemory_post hu h hp.target_dvd hp.size_dvd hp.pos
        (lt_of_le_of_lt hp.le_max (by decide)) hmem).mono ?_ (fun _ _ h => h.1) (fun _ h => h)
      rintro it vm' ⟨z, hmap, -⟩
      exact hmap.effect h hp.pos
  | mapBackingMemoryToBase base regionSize memory size state =>
      refine (mapBackingMemoryToBase_post hu h hc.2 hc.1).mono ?_ (fun _ _ h => h) (fun _ h => h)
      rintro target vm' ⟨z, hmap⟩
      exact hmap.effect h hc.2.pos
  | unmapRange target size =>
      exact (unmapRange_post hu h hc).mono (fun _ _ h => h.2) (fun _ _ h => h.1) (fun _ h => h)
  | reprotect vmaHandle newPerms =>
      obtain ⟨v, hv, rfl⟩ := hc
      obtain ⟨pre, post, hareas⟩ := List.append_of_mem hv
      have hz : vm.Layout (Zipper.mk pre.reverse v post).areas := by
        rw [Zipper.areas, List.reverse_reverse, ← hareas]
        exact h
      refine (reprotect_post hu ⟨pre.reverse, v, post⟩ hz).mono ?_ (fun _ _ h => h.elim)
        (fun _ h => h)
      rintro it vm' ⟨-, hnow⟩
      have hat : at? vm.vmaMap v.base = some v := Layout.at?_base hz
      simp only [Call.update, Option.bind_some, hat]
      exact reprotect_effect hz hnow
  | reprotectRange target size newPerms =>
      exact (reprotectRange_post hu h hc).mono (fun _ _ h => h.2) (fun _ _ h => h.1)
        (fun _ h => h)
  | changeMemoryState target size expectedState expectedPerms newState newPerms =>
      exact (changeMemoryState_post hu h hc).mono (fun _ _ h => h.2.2) (fun _ _ h => h.1)
        (fun _ h => h)

/-- The states that `Reset` leaves. -/
def Fresh (vm : VMManager) : Prop := ∃ before, reset before = .value ⟨⟩ vm

/-- One call within its preconditions, whatever it returns. -/
def Step (vm vm' : VMManager) : Prop :=
  ∃ (α : Type) (c : Call α), c.Allowed vm ∧ Moves c.run vm vm'

/-- The one free area that covers the whole managed space. -/
def initialVma : VirtualMemoryArea := { size := maxAddress }

theorem reset_eq (hu : vm.isLocked = false) :
    reset vm = .value ⟨⟩
      { vm with vmaMap := entries [initialVma], pageTable := PageTable.clear } := by
  apply Exec.Post.eq_value
  have hpages : mapPages vm.cacheMarker .unmapped PageTable.clear (initialVma.base / pageSize)
      (initialVma.size / pageSize) .null = some PageTable.clear :=
    mapPages_clear _ _ _ (by decide)
  unfold reset
  rw [Exec.post_bind, post_assertUnlocked hu, Exec.post_bind, Exec.post_modify]
  change (updatePageTableForVMA initialVma).Post _ _ _ _
  have htype : initialVma.type = .free := rfl
  simp only [updatePageTableForVMA, Exec.post_bind, post_assertAligned, Exec.post_read, htype,
    hpages, Exec.post_modify]
  refine ⟨fun _ => ⟨fun _ => ⟨?_, by simp⟩, fun hn => hn (by decide)⟩, fun hn => hn (by decide)⟩
  rintro table htable
  obtain rfl := Option.some.inj htable
  exact ⟨trivial, rfl⟩

theorem layout_initialVma (hmap : vm.vmaMap = entries [initialVma]) :
    vm.Layout [initialVma] := by
  refine ⟨hmap, ⟨rfl, by decide, rfl⟩, ?_⟩
  simp only [List.mem_singleton, forall_eq]
  decide

theorem Fresh.exists_unlocked (h : Fresh vm) :
    vm.isLocked = false ∧ vm.vmaMap = entries [initialVma] := by
  obtain ⟨before, hreset⟩ := h
  cases hu : before.isLocked with
  | true =>
      have hlocked : reset.Post before (fun _ _ => False) (fun _ _ => False) fun _ => True := by
        unfold reset
        simp [assertUnlocked, hu]
      exact (hlocked.value hreset).elim
  | false =>
      rw [reset_eq hu] at hreset
      obtain ⟨-, rfl⟩ := Outcome.value.inj hreset
      exact ⟨hu, rfl⟩

theorem Fresh.areas_eq (h : Fresh vm) : vm.areas = [initialVma] :=
  (layout_initialVma h.exists_unlocked.2).areas_eq

theorem Fresh.wellFormed (h : Fresh vm) : vm.isLocked = false ∧ vm.WellFormed :=
  ⟨h.exists_unlocked.1, (layout_initialVma h.exists_unlocked.2).wellFormed⟩

theorem step_wellFormed (h : vm.isLocked = false ∧ vm.WellFormed) (hs : Step vm vm') :
    vm'.isLocked = false ∧ vm'.WellFormed := by
  obtain ⟨hu, hwf⟩ := h
  obtain ⟨α, c, hc, hmoves⟩ := hs
  have hpost : c.run.Post vm (fun _ vm' => vm'.isLocked = false ∧ vm'.WellFormed)
      (fun _ vm' => vm'.isLocked = false ∧ vm'.WellFormed) (fun _ => True) := by
    refine (c.post hu hwf hc).mono ?_ ?_ (fun _ _ => trivial)
    · intro r vm' heffect
      exact ⟨heffect.locked.trans hu, heffect.wellFormed⟩
    · rintro e vm' rfl
      exact ⟨hu, hwf⟩
  exact hpost.moves hmoves

theorem Reachable.wellFormed (h : Reachable Fresh Step vm) :
    vm.isLocked = false ∧ vm.WellFormed :=
  h.invariant (I := fun vm => vm.isLocked = false ∧ vm.WellFormed) (fun _ h => h.wellFormed)
    fun _ _ => step_wellFormed

/-- The map of a reachable address space is an exact tiling, and every call within its
preconditions updates the function the map denotes on its target range and nowhere else when it
succeeds, and not at all when it returns an error. -/
theorem reachable_call_refines (hreach : Reachable Fresh Step vm) :
    vm.WellFormed ∧ ∀ {α : Type} (c : Call α), c.Allowed vm →
      c.run.Post vm
        (fun r vm' => vm'.WellFormed ∧ ∀ a, vm'.view a = c.update vm r a (vm.view a))
        (fun _ vm' => vm'.WellFormed ∧ ∀ a, vm'.view a = vm.view a)
        (c.MayAbort vm) := by
  obtain ⟨hu, hwf⟩ := Reachable.wellFormed hreach
  refine ⟨hwf, fun c hc => (c.post hu hwf hc).mono ?_ ?_ (fun _ h => h)⟩
  · intro r vm' heffect
    exact ⟨heffect.wellFormed, heffect.view⟩
  · rintro e vm' rfl
    exact ⟨hwf, fun _ => rfl⟩

/-- An address space as `Reset` leaves it. -/
def resetSpace : VMManager where
  vmaMap := entries [initialVma]
  pageTable := PageTable.clear
  cacheMarker := fun _ => false
  isLocked := false

theorem fresh_resetSpace : Fresh resetSpace := ⟨resetSpace, reset_eq rfl⟩

/-- The heap of host memory that the fixed examples map from. -/
def exampleMemory : MemoryRef := { backingMem := some ⟨0x10000000, 0x100000⟩, offset := 0x1000 }

theorem reachable_call_refines_resetSpace :
    resetSpace.WellFormed ∧
      (Call.mapBackingMemory 0x1000 exampleMemory 0x3000 .privateMem).run.Post resetSpace
        (fun _ vm' => vm'.WellFormed ∧ vm'.view 0x2000 =
          some ⟨.backingMemory, .readWrite, .privateMem, 0x10002000⟩)
        (fun _ _ => True) (fun _ => False) := by
  have hcall := reachable_call_refines (.start fresh_resetSpace)
  have hrange : Proper 0x1000 0x3000 := ⟨by decide, by decide, by decide, by decide⟩
  refine ⟨hcall.1, (hcall.2 (.mapBackingMemory 0x1000 exampleMemory 0x3000 .privateMem)
    ⟨by decide, hrange⟩).mono ?_ (fun _ _ _ => trivial) (fun _ h => h)⟩
  rintro it vm' ⟨hwf, hview⟩
  refine ⟨hwf, ?_⟩
  have hlayout : resetSpace.Layout [initialVma] := layout_initialVma rfl
  rw [hview, hlayout.view_eq_lookup]
  rfl

end Cytrus.Kernel.VMManager
