import Cytrus.Kernel.ProcessSpec
import Cytrus.Kernel.RegionAllocator

/-!
# Reachable processes

A process starts with an empty address space and a fresh memory region. It
moves by its own calls, by system calls of the guest, by calls of the kernel
on its address space, and by other users of its memory region. Every reachable
process is `Intact`.
-/

namespace Cytrus.Kernel.Process

open Support Support.OrderedMap Support.Segment Memory VMManager
open Exec (post_bind post_ite post_get)

variable {host : Host} {p p' : Process} {vm : VMManager} {target source size : Nat}
  {perms : VMAPermission} {privileged : Bool}

/-! ## Every call keeps a process intact -/

theorem Intact.withVm (h : Intact host p) {vmManager : VMManager}
    (hvm : VMManager.Sound host vmManager) : Intact host { p with vmManager } :=
  ⟨hvm, h.fcram_mem, h.fcram_size, h.region⟩

theorem changeMemoryState_sound {expectedState newState : MemoryState}
    {expectedPerms newPerms : VMAPermission} (h : VMManager.Sound host vm)
    (ht : target < 2 ^ 32) (hs : size < 2 ^ 32) :
    (changeMemoryState target size expectedState expectedPerms newState newPerms).Post vm
      (fun _ vm' => VMManager.Sound host vm') (fun _ vm' => VMManager.Sound host vm')
      (fun _ => True) := by
  by_cases hp : Proper target size
  · refine (h.changeMemoryState_post hp).mono ?_ ?_ (fun _ _ => trivial)
    · rintro _ vm' ⟨-, -, hb⟩
      exact hb.sound
    · rintro e vm' ⟨rfl, -⟩
      exact h
  · refine (changeMemoryState_improper h ht hs hp).mono (fun _ _ hq => hq.elim) ?_
      (fun _ _ => trivial)
    rintro e vm' rfl
    exact h

theorem map_sound (h : VMManager.Sound host vm) (hsrc : source < 2 ^ 32) (hs : size < 2 ^ 32) :
    (map target source size perms privileged).Post vm
      (fun _ vm' => VMManager.Sound host vm') (fun _ vm' => VMManager.Sound host vm')
      (fun _ => True) := by
  refine (map_post h hsrc hs).mono ?_ ?_ (fun _ _ => trivial)
  · rintro _ vm' (hmap | hmap)
    · obtain ⟨vm₁, blocks, spill, -, -, hlaid⟩ := hmap.laid
      exact hlaid.sound
    · exact hmap.becomes.sound
  · rintro e vm' ⟨rfl, -⟩
    exact h

theorem unmap_sound (h : VMManager.Sound host vm) (ht : target < 2 ^ 32)
    (hsrc : source < 2 ^ 32) (hs : size < 2 ^ 32) :
    (unmap target source size perms privileged).Post vm
      (fun _ vm' => VMManager.Sound host vm') (fun _ vm' => VMManager.Sound host vm')
      (fun _ => True) := by
  unfold unmap
  rw [post_bind, Exec.post_require, post_ite, post_ite, post_ite,
    post_bind]
  refine ⟨fun _ => ⟨fun _ => ⟨fun _ => ⟨fun _ => changeMemoryState_sound h hsrc hs,
    fun _ => h⟩, fun _ => h⟩, fun _ => ?_⟩, fun _ => h⟩
  refine (h.unmapRange_post ht hs).mono ?_ ?_ (fun _ _ => trivial)
  · rintro _ vm₁ ⟨-, -, hb⟩
    exact changeMemoryState_sound hb.sound hsrc hs
  · rintro e vm' ⟨rfl, -⟩
    exact h

theorem Freed.intact {frames : Finset Nat} (h : Intact host p)
    (hf : Freed host p target size frames p') : Intact host p' :=
  ⟨hf.unmapped.sound, hf.fcram_eq ▸ h.fcram_mem, hf.fcram_eq ▸ h.fcram_size, hf.region_valid⟩

theorem heapAllocated_intact {spill : Set Nat} {state : MemoryState} {vm' : VMManager}
    {blocks : List (MemoryRef × Nat)} (h : Intact host p)
    (hl : Laid host p.vmManager target blocks state perms spill vm') :
    Intact host (p.heapAllocated size vm') where
  vm := hl.sound
  fcram_mem := h.fcram_mem
  fcram_size := h.fcram_size
  region := h.region.taken (by rw [IntervalSet.toFinset_subSet]; exact Finset.sdiff_subset)

theorem linearAllocated_intact {spill : Set Nat} {state : MemoryState} {vm' : VMManager}
    {blocks : List (MemoryRef × Nat)} {offset : Nat} (h : Intact host p)
    (hl : Laid host p.vmManager target blocks state perms spill vm') :
    Intact host (p.linearAllocated offset size vm') where
  vm := hl.sound
  fcram_mem := h.fcram_mem
  fcram_size := h.fcram_size
  region := h.region.taken (by rw [IntervalSet.toFinset_sub]; exact Finset.sdiff_subset)

/-! ## ControlMemory -/

/-- The checks that `ControlMemory` makes before it looks at the operation. -/
structure ArgsOk (addr0 addr1 size permissions : Nat) : Prop where
  addr0_dvd : pageSize ∣ addr0
  addr1_dvd : pageSize ∣ addr1
  size_dvd : pageSize ∣ size
  perms_ok : permissions &&& VMAPermission.readWrite.bits = permissions

/-- The operation that a system call asks for. -/
def operationOf (operation : Nat) : Option MemoryOperation :=
  MemoryOperation.ofBits (operation - (operation &&& MemoryOperation.regionMask))

/-- Whether a system call asks for the linear heap. -/
def isLinear (operation : Nat) : Bool :=
  (operation - (operation &&& MemoryOperation.regionMask)) &&& MemoryOperation.linear ≠ 0

/-- When the `switch` of `ControlMemory` aborts. -/
def CaseAborts (p : Process) (addr0 addr1 size : Nat) (linear : Bool) :
    Option MemoryOperation → Prop
  | some .free =>
      (heapVaddr ≤ addr0 ∧ addr0 < heapVaddrEnd) ∧ HeapFreeAborts p addr0 size ∨
        ¬ (heapVaddr ≤ addr0 ∧ addr0 < heapVaddrEnd) ∧
        (p.getLinearHeapBase ≤ addr0 ∧ addr0 < p.getLinearHeapLimit) ∧
        LinearFreeAborts p addr0 size
  | some .commit =>
      if linear then LinearAllocateAborts p addr0 size
      else HeapAllocateAborts p addr0 size false
  | some .map => MapAborts p.vmManager addr0 addr1 size
  | some .unmap => UnmapAborts addr0 addr1 size
  | some .protect => size = 0 ∨ maxAddress < addr0 + size
  | none => False

/-- When `ControlMemory` aborts. -/
def ControlMemoryAborts (p : Process) (addr0 addr1 size operation permissions : Nat) : Prop :=
  ArgsOk addr0 addr1 size permissions ∧
    CaseAborts p addr0 addr1 size (isLinear operation) (operationOf operation)

section ControlMemory

variable {addr0 addr1 operation permissions : Nat}

/-- What `ControlMemory` guarantees, whatever the operation: the process stays intact, an error
changes nothing unless it comes from the second half of an `Unmap`, and the condition for an
abort is exact. -/
structure Outcomes (host : Host) (p : Process) (aborts unmaps : Prop) (x : Proc (Option Nat)) :
    Prop where
  post : x.Post p (fun _ p' => Intact host p' ∧ ¬ aborts)
    (fun _ p' => Intact host p' ∧ ¬ aborts ∧ (p' = p ↔ ¬ unmaps)) (fun _ => aborts)

theorem Outcomes.congr {aborts unmaps unmaps' : Prop} {x : Proc (Option Nat)}
    (h : Outcomes host p aborts unmaps x) (hiff : unmaps ↔ unmaps') :
    Outcomes host p aborts unmaps' x :=
  propext hiff ▸ h

theorem free_outcomes (h : Intact host p) (ht : addr0 < 2 ^ 32) (hs : size < 2 ^ 32)
    (htd : pageSize ∣ addr0) (hsd : pageSize ∣ size) :
    Outcomes host p (CaseAborts p addr0 addr1 size false (some .free)) False
      (controlMemoryCase (some .free) false addr0 addr1 size perms) := by
  refine ⟨?_⟩
  unfold controlMemoryCase CaseAborts
  rw [post_bind, post_get, post_ite]
  refine ⟨fun hheap => ?_, fun hheap => ?_⟩
  · rw [post_bind]
    refine (heapFree_post h ht hs htd hsd).mono ?_ ?_ ?_
    · rintro _ p' ⟨hno, -, hcase⟩
      have hintact : Intact host p' := by
        rcases hcase with ⟨-, rfl⟩ | ⟨-, -, -, hfreed⟩
        · exact h
        · exact hfreed.intact h
      exact ⟨hintact, fun hcon => hcon.elim (fun hc => hno hc.2) (fun hc => hc.1 hheap)⟩
    · rintro e p' ⟨rfl, hno⟩
      exact ⟨h, fun hcon => hcon.elim (fun hc => hno hc.2) (fun hc => hc.1 hheap), by simp⟩
    · exact fun f habort => .inl ⟨hheap, habort⟩
  · rw [post_ite]
    refine ⟨fun hlin => ?_, fun hlin => ?_⟩
    · rw [post_bind]
      refine (linearFree_post h ht hs htd hsd).mono ?_ ?_ ?_
      · rintro _ p' ⟨hno, -, hcase⟩
        have hintact : Intact host p' := by
          rcases hcase with ⟨-, rfl⟩ | ⟨-, -, hfreed⟩
          · exact h
          · exact hfreed.intact h
        exact ⟨hintact, fun hcon => hcon.elim (fun hc => hheap hc.1) (fun hc => hno hc.2.2)⟩
      · rintro e p' ⟨rfl, hno⟩
        exact ⟨h, fun hcon => hcon.elim (fun hc => hheap hc.1) (fun hc => hno hc.2.2), by simp⟩
      · exact fun f habort => .inr ⟨hheap, hlin, habort⟩
    · exact ⟨h, fun hcon => hcon.elim (fun hc => hheap hc.1) (fun hc => hlin hc.2.1), by simp⟩

theorem commit_outcomes {linear : Bool} (h : Intact host p) (ht : addr0 < 2 ^ 32)
    (hs : size < 2 ^ 32) :
    Outcomes host p (CaseAborts p addr0 addr1 size linear (some .commit)) False
      (controlMemoryCase (some .commit) linear addr0 addr1 size perms) := by
  refine ⟨?_⟩
  unfold controlMemoryCase CaseAborts
  rw [post_bind, post_get]
  cases linear with
  | true =>
      simp only [if_true]
      rw [post_bind]
      refine (linearAllocate_post h ht hs).mono ?_ ?_ (fun _ hf => hf)
      · rintro out p' ⟨place, spill, vm', -, -, -, hno, hlaid, rfl⟩
        exact ⟨linearAllocated_intact h hlaid, hno⟩
      · rintro e p' ⟨rfl, hno⟩
        exact ⟨h, hno, by simp⟩
  | false =>
      simp only [Bool.false_eq_true, if_false]
      rw [post_bind]
      refine (heapAllocate_post h ht).mono ?_ ?_ (fun _ hf => hf)
      · rintro out p' ⟨-, hno, -, spill, vm', hlaid, rfl⟩
        exact ⟨heapAllocated_intact h hlaid, hno⟩
      · rintro e p' ⟨rfl, hno⟩
        exact ⟨h, hno, by simp⟩

theorem map_outcomes (h : Intact host p) (hsrc : addr1 < 2 ^ 32)
    (hs : size < 2 ^ 32) (hargs : ArgsOk addr0 addr1 size permissions) :
    Outcomes host p (CaseAborts p addr0 addr1 size false (some .map)) False
      (controlMemoryCase (some .map) false addr0 addr1 size perms) := by
  refine ⟨?_⟩
  have hadm : Admitted addr0 addr1 size false :=
    ⟨hargs.addr0_dvd, hargs.addr1_dvd, hargs.size_dvd, rfl⟩
  unfold controlMemoryCase CaseAborts
  rw [post_bind, post_get, post_bind, post_onVm]
  refine ((map_post h.vm hsrc hs).and (map_sound h.vm hsrc hs)).mono ?_ ?_ ?_
  · rintro _ vm' ⟨hmap | hmap, hsound⟩
    · refine ⟨h.withVm hsound, ?_⟩
      obtain ⟨w, hw, -, -, hwhi, -⟩ := hmap.room
      have hwmax := (Layout.bounds h.vm.wellFormed hw).2
      have hpos := hmap.proper.pos
      rintro ⟨-, -, hfar | ⟨hzero, -⟩⟩ <;> omega
    · cases hmap.privileged
  · rintro e vm' ⟨⟨rfl, hno⟩, -⟩
    exact ⟨h, hno hadm, by simp⟩
  · exact fun f habort => habort.1 hadm

theorem unmap_outcomes (h : Intact host p) (ht : addr0 < 2 ^ 32) (hsrc : addr1 < 2 ^ 32)
    (hs : size < 2 ^ 32) (hargs : ArgsOk addr0 addr1 size permissions) :
    Outcomes host p (CaseAborts p addr0 addr1 size false (some .unmap))
      (UnmapsTarget p.vmManager addr0 addr1 size)
      (controlMemoryCase (some .unmap) false addr0 addr1 size perms) := by
  refine ⟨?_⟩
  unfold controlMemoryCase CaseAborts
  rw [post_bind, post_get, post_bind, post_onVm]
  refine (unmap_post h.vm ht hsrc hs hargs.addr0_dvd hargs.addr1_dvd hargs.size_dvd).mono ?_ ?_
    (fun _ hf => hf)
  · rintro _ vm' ⟨hunmaps, vm₁, -, hbecomes⟩
    refine ⟨h.withVm hbecomes.sound, ?_⟩
    have hpos := hunmaps.proper.pos
    have hle := hunmaps.proper.le_max
    rintro ⟨-, -, hcon⟩
    omega
  · rintro e vm' ⟨hno, ⟨rfl, hnot⟩ | ⟨hunmaps, hfree⟩⟩
    · exact ⟨h, hno, iff_of_true rfl hnot⟩
    · refine ⟨h.withVm hfree.sound, hno, iff_of_false ?_ (not_not_intro hunmaps)⟩
      intro heq
      exact UnmappedTarget.ne hunmaps.proper.pos hunmaps.mapped hfree
        (congrArg Process.vmManager heq)

theorem protect_outcomes (h : Intact host p) (ht : addr0 < 2 ^ 32) (hs : size < 2 ^ 32)
    (hargs : ArgsOk addr0 addr1 size permissions) :
    Outcomes host p (CaseAborts p addr0 addr1 size false (some .protect)) False
      (controlMemoryCase (some .protect) false addr0 addr1 size perms) := by
  refine ⟨?_⟩
  have hproper : Proper addr0 size ↔ ¬ (size = 0 ∨ maxAddress < addr0 + size) := by
    constructor
    · intro hp
      have hpos := hp.pos
      have hle := hp.le_max
      omega
    · intro hnot
      exact ⟨hargs.addr0_dvd, hargs.size_dvd, by omega, by omega⟩
  unfold controlMemoryCase CaseAborts
  rw [post_bind, post_get, post_bind, post_onVm]
  refine (h.vm.reprotectRange_post ht hs).mono ?_ ?_ ?_
  · rintro _ vm' ⟨hp, -, hb⟩
    exact ⟨h.withVm hb.sound, hproper.mp hp⟩
  · rintro e vm' ⟨rfl, hp, -⟩
    exact ⟨h, hproper.mp hp, by simp⟩
  · exact fun f hnot => by_contra fun hcon => hnot (hproper.mpr hcon)

/-- The linear flag matters for `COMMIT` only. -/
theorem controlMemoryCase_linear {op : Option MemoryOperation} (hop : op ≠ some .commit)
    (linear : Bool) :
    controlMemoryCase op linear addr0 addr1 size perms =
        controlMemoryCase op false addr0 addr1 size perms ∧
      (CaseAborts p addr0 addr1 size linear op ↔ CaseAborts p addr0 addr1 size false op) := by
  rcases op with _ | op
  · exact ⟨rfl, Iff.rfl⟩
  · cases op with
    | commit => exact (hop rfl).elim
    | _ => exact ⟨rfl, Iff.rfl⟩

theorem controlMemoryCase_outcomes {linear : Bool} (op : Option MemoryOperation)
    (h : Intact host p) (ht : addr0 < 2 ^ 32) (hsrc : addr1 < 2 ^ 32) (hs : size < 2 ^ 32)
    (hargs : ArgsOk addr0 addr1 size permissions) :
    Outcomes host p (CaseAborts p addr0 addr1 size linear op)
      (op = some .unmap ∧ UnmapsTarget p.vmManager addr0 addr1 size)
      (controlMemoryCase op linear addr0 addr1 size perms) := by
  by_cases hop : op = some .commit
  · subst hop
    exact (commit_outcomes h ht hs).congr (by simp)
  · have hlinear : controlMemoryCase op linear addr0 addr1 size perms =
          controlMemoryCase op false addr0 addr1 size perms ∧
        (CaseAborts p addr0 addr1 size linear op ↔ CaseAborts p addr0 addr1 size false op) :=
      controlMemoryCase_linear hop linear
    rw [hlinear.1, propext hlinear.2]
    rcases op with _ | op
    · exact ⟨⟨h, fun hcon => hcon, by simp⟩⟩
    · cases op with
      | free =>
          exact (free_outcomes h ht hs hargs.addr0_dvd hargs.size_dvd).congr (by simp)
      | commit => exact (hop rfl).elim
      | map => exact (map_outcomes h hsrc hs hargs).congr (by simp)
      | unmap => exact (unmap_outcomes h ht hsrc hs hargs).congr (by simp)
      | protect => exact (protect_outcomes h ht hs hargs).congr (by simp)

/-- An `Unmap` that gets past its first half. -/
def UnmapsHalf (p : Process) (addr0 addr1 size operation permissions : Nat) : Prop :=
  ArgsOk addr0 addr1 size permissions ∧ operationOf operation = some .unmap ∧
    UnmapsTarget p.vmManager addr0 addr1 size

theorem controlMemory_outcomes (h : Intact host p) (ht : addr0 < 2 ^ 32) (hsrc : addr1 < 2 ^ 32)
    (hs : size < 2 ^ 32) :
    Outcomes host p (ControlMemoryAborts p addr0 addr1 size operation permissions)
      (UnmapsHalf p addr0 addr1 size operation permissions)
      (controlMemory addr0 addr1 size operation permissions) := by
  have hearly : ¬ ArgsOk addr0 addr1 size permissions →
      Intact host p ∧ ¬ ControlMemoryAborts p addr0 addr1 size operation permissions ∧
        (True ↔ ¬ UnmapsHalf p addr0 addr1 size operation permissions) :=
    fun hbad => ⟨h, fun hcon => hbad hcon.1, iff_of_true trivial fun hcon => hbad hcon.1⟩
  refine ⟨?_⟩
  unfold controlMemory
  simp only [post_bind, Exec.post_require, aligned_iff]
  refine ⟨fun h0 => ⟨fun h1 => ⟨fun hsz => ⟨fun hperm => ?_, fun hperm => ?_⟩, fun hsz => ?_⟩,
    fun h1 => ?_⟩, fun h0 => ?_⟩
  · have hargs : ArgsOk addr0 addr1 size permissions := ⟨h0, h1, hsz, hperm⟩
    refine (controlMemoryCase_outcomes _ h ht hsrc hs hargs).post.mono ?_ ?_ ?_
    · rintro _ p' ⟨hintact, hno⟩
      exact ⟨hintact, fun hcon => hno hcon.2⟩
    · rintro e p' ⟨hintact, hno, hiff⟩
      refine ⟨hintact, fun hcon => hno hcon.2, ?_⟩
      rw [hiff]
      exact not_congr ⟨fun hcon => ⟨hargs, hcon⟩, fun hcon => hcon.2⟩
    · exact fun f habort => ⟨hargs, habort⟩
  · exact hearly fun hcon => hperm hcon.perms_ok
  · exact hearly fun hcon => hsz hcon.size_dvd
  · exact hearly fun hcon => h1 hcon.addr1_dvd
  · exact hearly fun hcon => h0 hcon.addr0_dvd

end ControlMemory

/-! ## Runs -/

/-- A process as it is created: nothing is mapped, and its memory region, inside FCRAM, is as
`Reset` leaves it. -/
structure Start (host : Host) (p : Process) : Prop where
  vm : p.vmManager.Fresh
  fcram_mem : p.fcram ∈ host.buffers
  fcram_size : p.fcram.size = fcramN3dsSize
  region : ∃ before, MemoryRegionInfo.reset p.memoryRegion.base p.memoryRegion.size before =
    .value ⟨⟩ p.memoryRegion
  region_end : p.memoryRegion.base + p.memoryRegion.size ≤ fcramN3dsSize

/-- One move of a process: a call of its own, a call of the kernel on its address space, a call
of another user of its memory region, who gives back nothing outside FCRAM, or a change of the
books that only count. -/
inductive Step (host : Host) : Process → Process → Prop where
  | vmCall {p p' : Process} {α : Type} (c : VMManager.Call α) (hc : c.Allowed p.vmManager)
      (hs : c.Supplied host) (h : Moves (onVm c.run) p p') : Step host p p'
  | regionCall {p p' : Process} {α : Type} (c : MemoryRegionInfo.Call α) (hc : c.Below fcramN3dsSize)
      (h : Moves (onRegion c.run) p p') : Step host p p'
  | heapAllocate {p p' : Process} (target size : Nat) (perms : VMAPermission)
      (state : MemoryState) (skipRangeCheck : Bool) (ht : target < 2 ^ 32)
      (h : Moves (heapAllocate target size perms state skipRangeCheck) p p') : Step host p p'
  | map {p p' : Process} (target source size : Nat) (perms : VMAPermission) (privileged : Bool)
      (hsrc : source < 2 ^ 32) (hs : size < 2 ^ 32)
      (h : Moves (onVm (map target source size perms privileged)) p p') : Step host p p'
  | unmap {p p' : Process} (target source size : Nat) (perms : VMAPermission) (privileged : Bool)
      (ht : target < 2 ^ 32) (hsrc : source < 2 ^ 32) (hs : size < 2 ^ 32)
      (h : Moves (onVm (unmap target source size perms privileged)) p p') : Step host p p'
  | mapShared {p p' : Process} (memory : SharedMemory) (isOwner : Bool) (address : Nat)
      (permissions otherPermissions : MemoryPermission) (hm : memory.Created host)
      (ha : address < 2 ^ 32)
      (h : Moves (onVm (memory.map isOwner address permissions otherPermissions)) p p') :
      Step host p p'
  | controlMemory {p p' : Process} (addr0 addr1 size operation permissions : Nat)
      (ht : addr0 < 2 ^ 32) (hsrc : addr1 < 2 ^ 32) (hs : size < 2 ^ 32)
      (h : Moves (controlMemory addr0 addr1 size operation permissions) p p') : Step host p p'
  | account {p : Process} (holdingTlsMemory : IntervalSet) (memoryUsed : Nat) (commit : Int)
      (kernelVersion : Nat) :
      Step host p { p with holdingTlsMemory, memoryUsed, commit, kernelVersion }

theorem Start.intact (h : Start host p) : Intact host p := by
  obtain ⟨hunlocked, hwf⟩ := h.vm.wellFormed
  have hend := h.region_end
  refine ⟨⟨hunlocked, hwf, ?_⟩, h.fcram_mem, h.fcram_size, ?_⟩
  · rw [h.vm.areas_eq]
    intro v hv htype
    rw [List.mem_singleton.mp hv] at htype
    cases htype
  · obtain ⟨before, hreset⟩ := h.region
    have hpost : (MemoryRegionInfo.reset p.memoryRegion.base p.memoryRegion.size).Post before
        (fun _ region => region.isLocked = false ∧ region.used = 0 ∧ region.freeBlocks =
          IntervalSet.empty.add ⟨p.memoryRegion.base,
            add32 p.memoryRegion.base p.memoryRegion.size⟩)
        (fun _ _ => True) (fun _ => True) := by
      simp [MemoryRegionInfo.reset, MemoryRegionInfo.assertUnlocked]
    obtain ⟨hlocked, hused, hfree⟩ := hpost.value hreset
    refine ⟨hlocked, by omega, fun x hx => ?_, hend⟩
    rw [hfree, IntervalSet.toFinset_add] at hx
    rw [add32_of_lt (by unfold fcramN3dsSize at hend; omega)] at hx
    simp only [IntervalSet.toFinset_empty, Finset.empty_union, Block.mem_toFinset] at hx
    omega

theorem Intact.step (h : Intact host p) (hs : Step host p p') : Intact host p' := by
  cases hs with
  | vmCall c hc hsup hmoves =>
      refine Exec.Post.moves (F := fun _ => True) ?_ hmoves
      rw [post_onVm]
      exact (h.vm.call_post c hc hsup).mono (fun _ _ => h.withVm) (fun _ _ => h.withVm)
        (fun _ hf => hf)
  | regionCall c hc hmoves =>
      refine Exec.Post.moves (F := fun _ => True) ?_ hmoves
      rw [post_onRegion]
      have hregion := h.region.call_post (by decide) c hc
      exact hregion.mono (fun _ _ hr => ⟨h.vm, h.fcram_mem, h.fcram_size, hr⟩)
        (fun _ _ hr => ⟨h.vm, h.fcram_mem, h.fcram_size, hr⟩) (fun _ hf => hf)
  | heapAllocate target size perms state skipRangeCheck ht hmoves =>
      refine Exec.Post.moves (F := fun _ => True) ?_ hmoves
      refine (heapAllocate_post h ht).mono ?_ ?_ (fun _ _ => trivial)
      · rintro out p' ⟨-, -, -, spill, vm', hlaid, rfl⟩
        exact heapAllocated_intact h hlaid
      · rintro e p' ⟨rfl, -⟩
        exact h
  | map target source size perms privileged hsrc hs hmoves =>
      refine Exec.Post.moves (F := fun _ => True) ?_ hmoves
      rw [post_onVm]
      exact (map_sound h.vm hsrc hs).mono (fun _ _ => h.withVm) (fun _ _ => h.withVm)
        (fun _ hf => hf)
  | unmap target source size perms privileged ht hsrc hs hmoves =>
      refine Exec.Post.moves (F := fun _ => True) ?_ hmoves
      rw [post_onVm]
      exact (unmap_sound h.vm ht hsrc hs).mono (fun _ _ => h.withVm) (fun _ _ => h.withVm)
        (fun _ hf => hf)
  | mapShared memory isOwner address permissions otherPermissions hm ha hmoves =>
      refine Exec.Post.moves (F := fun _ => True) ?_ hmoves
      rw [post_onVm]
      refine (SharedMemory.map_post h.vm hm ha).mono ?_ ?_ (fun _ hf => hf)
      · rintro _ vm' ⟨spill, hlaid⟩
        exact h.withVm hlaid.sound
      · rintro e vm' rfl
        exact h
  | controlMemory addr0 addr1 size operation permissions ht hsrc hs hmoves =>
      refine Exec.Post.moves (F := fun _ => True) ?_ hmoves
      exact (controlMemory_outcomes h ht hsrc hs).post.mono (fun _ _ hq => hq.1)
        (fun _ _ he => he.1) (fun _ _ => trivial)
  | account => exact ⟨h.vm, h.fcram_mem, h.fcram_size, h.region⟩

theorem reachable_intact (h : Reachable (Start host) (Step host) p) : Intact host p :=
  h.invariant (fun _ h => h.intact) fun _ _ h hs => h.step hs

/-! ## A process to try the calls on -/

/-- FCRAM of the fixed examples. -/
def exampleFcram : BackingMem := ⟨0x20000000, fcramN3dsSize⟩

/-- A host whose only buffer is FCRAM. -/
def exampleHost : Host where
  buffers := {exampleFcram}
  apart := by
    rintro b rfl c rfl hne
    exact (hne rfl).elim
  pos := by
    rintro b rfl
    decide

/-- A process as it is created. -/
def exampleProcess : Process where
  vmManager := resetSpace
  memoryRegion := MemoryRegionInfo.Ledger.exampleRegion
  fcram := exampleFcram
  holdingMemory := IntervalSet.empty
  holdingTlsMemory := IntervalSet.empty
  memoryUsed := 0
  commit := 0
  kernelVersion := 0x22C

theorem start_exampleProcess : Start exampleHost exampleProcess where
  vm := fresh_resetSpace
  fcram_mem := rfl
  fcram_size := rfl
  region := ⟨MemoryRegionInfo.Ledger.exampleRegion, rfl⟩
  region_end := by decide

/-- The process after it has committed one page of the heap. -/
def committedProcess : Process := (controlMemory 0x08000000 0 0x1000 3 3).after exampleProcess

theorem reachable_committedProcess :
    Reachable (Start exampleHost) (Step exampleHost) committedProcess :=
  .step (.start start_exampleProcess) (.controlMemory _ _ _ _ _ (by decide) (by decide)
    (by decide) (moves_after (by decide)))

/-! ## Error atomicity and aborts of ControlMemory -/

section Results

variable {addr0 addr1 operation permissions : Nat}

/-- An error of `ControlMemory` leaves every book as it was, unless it comes from the second
half of an `Unmap`: then the target range is gone. -/
theorem controlMemory_error_same_iff {e : ResultCode}
    (h : Reachable (Start host) (Step host) p) (ht : addr0 < 2 ^ 32) (hsrc : addr1 < 2 ^ 32)
    (hs : size < 2 ^ 32)
    (herror : controlMemory addr0 addr1 size operation permissions p = .error e p') :
    p' = p ↔ ¬ UnmapsHalf p addr0 addr1 size operation permissions :=
  ((controlMemory_outcomes (reachable_intact h) ht hsrc hs).post.error herror).2.2

theorem controlMemory_error_same_exampleProcess :
    controlMemory 0x04000000 0 0x1000 3 3 exampleProcess = .error .invalidAddress exampleProcess :=
  have hrun : controlMemory 0x04000000 0 0x1000 3 3 exampleProcess =
      .error .invalidAddress ((controlMemory 0x04000000 0 0x1000 3 3).after exampleProcess) :=
    Exec.error_after rfl
  have hsame := (controlMemory_error_same_iff (.start start_exampleProcess) (by decide)
    (by decide) (by decide) hrun).mpr fun hhalf => absurd hhalf.2.1 (by decide)
  hsame ▸ hrun

/-- An `UNMAP` whose source range is not aliased: the target page is unmapped, then the error is
returned. -/
theorem unmap_error_unmaps_target :
    Reachable (Start exampleHost) (Step exampleHost) committedProcess ∧
      ∃ p', controlMemory 0x08000000 0x08001000 0x1000 5 3 committedProcess =
        .error .invalidAddressState p' ∧ p' ≠ committedProcess := by
  refine ⟨reachable_committedProcess, _, Exec.error_after (by decide +kernel), fun heq => ?_⟩
  have htype := congrArg (fun p => (p.vmManager.view 0x08000000).map Cell.type) heq
  revert htype
  decide +kernel

/-- `ControlMemory` aborts exactly on the arguments of `ControlMemoryAborts`. -/
theorem controlMemory_aborts_iff (h : Reachable (Start host) (Step host) p)
    (ht : addr0 < 2 ^ 32) (hsrc : addr1 < 2 ^ 32) (hs : size < 2 ^ 32) :
    (∃ p', (controlMemory addr0 addr1 size operation permissions p).state? = some p') ↔
      ¬ ControlMemoryAborts p addr0 addr1 size operation permissions := by
  have hout : Outcomes host p (ControlMemoryAborts p addr0 addr1 size operation permissions)
      (UnmapsHalf p addr0 addr1 size operation permissions)
      (controlMemory addr0 addr1 size operation permissions) :=
    controlMemory_outcomes (reachable_intact h) ht hsrc hs
  have hpost := hout.post
  cases hrun : controlMemory addr0 addr1 size operation permissions p with
  | value a p' => exact iff_of_true ⟨p', rfl⟩ (hpost.value hrun).2
  | error e p' => exact iff_of_true ⟨p', rfl⟩ (hpost.error hrun).2.1
  | fault f =>
      exact iff_of_false (fun ⟨_, hp'⟩ => by cases hp') (not_not_intro (hpost.fault hrun))

theorem controlMemory_returns_exampleProcess :
    ∃ p', (controlMemory 0x08000000 0 0x1000 6 3 exampleProcess).state? = some p' := by
  refine (controlMemory_aborts_iff (.start start_exampleProcess) (by decide) (by decide)
    (by decide)).mpr ?_
  rintro ⟨-, hsize | hend⟩
  · exact absurd hsize (by decide)
  · exact absurd hend (by decide)

/-- A `PROTECT` of no bytes runs into the assertion of `CarveVMARange`. -/
theorem protect_empty_range_aborts :
    Reachable (Start exampleHost) (Step exampleHost) exampleProcess ∧
      (controlMemory 0x08000000 0 0 6 3 exampleProcess).fault? = some .assertFailed :=
  ⟨.start start_exampleProcess, by decide⟩

end Results

end Cytrus.Kernel.Process
