import Cytrus.Kernel.ProcessRuns

/-!
# The frame of an allocation

An allocation should show its blocks in its own range and leave every other
address alone. The block loops give the new permissions to the whole area that
`MapBackingMemory` returned, so the frame fails exactly when that area has
absorbed a neighbour and the permissions are not read-write.
-/

namespace Cytrus.Kernel.Process

open Support Support.OrderedMap Support.Segment Memory VMManager

/-- The calls that map fresh ranges. -/
inductive Allocation where
  | heap (target size : Nat) (perms : VMAPermission) (state : MemoryState)
      (skipRangeCheck : Bool)
  | linear (target size : Nat) (perms : VMAPermission)
  | map (target source size : Nat) (perms : VMAPermission) (privileged : Bool)
  | shared (memory : SharedMemory) (isOwner : Bool) (address : Nat)
      (permissions otherPermissions : MemoryPermission)

namespace Allocation

/-- Run the call and return the address of the range it has mapped. -/
def run : Allocation → Proc Nat
  | heap target size perms state skipRangeCheck =>
      heapAllocate target size perms state skipRangeCheck
  | linear target size perms => linearAllocate target size perms
  | map target source size perms privileged => do
      onVm (Process.map target source size perms privileged)
      pure target
  | shared memory isOwner address permissions otherPermissions => do
      onVm (memory.map isOwner address permissions otherPermissions)
      pure (memory.targetAddress address)

def size : Allocation → Nat
  | heap _ size .. => size
  | linear _ size _ => size
  | map _ _ size .. => size
  | shared memory .. => memory.size

def perms : Allocation → VMAPermission
  | heap _ _ perms .. => perms
  | linear _ _ perms => perms
  | map _ _ _ perms _ => perms
  | shared _ _ _ permissions _ => SharedMemory.convertPermissions permissions

/-- The addresses whose state the call changes by design, besides its own range. -/
def InSource : Allocation → Nat → Prop
  | map _ source size .., a => source ≤ a ∧ a < source + size
  | _, _ => False

/-- The arguments are machine words, and a block of shared memory is one that was created. -/
def WellTyped (host : Host) : Allocation → Prop
  | heap target .. => target < 2 ^ 32
  | linear target size _ => target < 2 ^ 32 ∧ size < 2 ^ 32
  | map _ source size .. => source < 2 ^ 32 ∧ size < 2 ^ 32
  | shared memory _ address .. => memory.Created host ∧ address < 2 ^ 32

/-- The byte behind an address. -/
def pointerAt (vm : VMManager) (a : Nat) : Nat := ((vm.view a).map Cell.pointer).getD 0

/-- The address before or after the range is mapped read-write, in the state that the call gives
to its range, and is backed by the byte before or after those that the call maps. -/
def Joins (p : Process) : Allocation → Prop
  | heap target size _ state _ => Process.Joins p.vmManager target state (p.heapRefs size)
  | linear target size _ => ∃ place, p.linearSpot target size = some place ∧
      Process.Joins p.vmManager place.1 .continuous [(fcramRef p.fcram place.2, size)]
  | map target source size _ privileged => overlaps target source size = false ∧
      (JoinsBelow p.vmManager target (aliasState privileged) (pointerAt p.vmManager source) ∨
        JoinsAbove p.vmManager (target + size) (aliasState privileged)
          (pointerAt p.vmManager (source + size - 1) + 1))
  | shared memory _ address .. =>
      Process.Joins p.vmManager (memory.targetAddress address) .shared memory.backingBlocks

end Allocation

variable {host : Host} {p p' : Process} {vm vm' : VMManager} {target source size : Nat}
  {perms : VMAPermission}

/-- The range has the permissions that were asked for, and the permissions, state and backing of
every other address are as before; `except` is left out. -/
structure FrameLaw (vm : VMManager) (target size : Nat) (perms : VMAPermission)
    (except : Nat → Prop) (vm' : VMManager) : Prop where
  inside : ∀ a, target ≤ a → a < target + size → ∃ c, vm'.view a = some c ∧ c.permissions = perms
  outside : ∀ a, ¬ (target ≤ a ∧ a < target + size) → ¬ except a → vm'.view a = vm.view a

theorem Laid.frameLaw_iff {blocks : List (MemoryRef × Nat)} {state : MemoryState}
    {spill : Set Nat} (hl : Laid host vm target blocks state perms spill vm')
    (hsize : blocksSize blocks = size) :
    FrameLaw vm target size perms (fun _ => False) vm' ↔
      perms = .readWrite ∨ ¬ Joins vm target state blocks := by
  rw [← hl.frame_iff, hsize]
  constructor
  · intro hframe a hout
    exact hframe.outside a hout id
  · intro hout
    refine ⟨fun a hlo hhi => ⟨_, hl.inside a hlo (by omega), rfl⟩, fun a ha _ => hout a ha⟩

/-! ## Blocks that were mapped before -/

theorem blocksPointer_zero {blocks : List (MemoryRef × Nat)} (hpos : ∀ b ∈ blocks, 0 < b.2)
    (P : Nat → Prop) (hne : blocks ≠ []) :
    (∃ b ∈ blocks.head?, P b.1.getPtr) ↔ P (blocksPointer blocks 0) := by
  cases blocks with
  | nil => exact (hne rfl).elim
  | cons b rest =>
      have hb := hpos b List.mem_cons_self
      simp [blocksPointer, hb]

theorem blocksPointer_last {blocks : List (MemoryRef × Nat)} (hpos : ∀ b ∈ blocks, 0 < b.2)
    (P : Nat → Prop) (hne : blocks ≠ []) :
    (∃ b ∈ blocks.getLast?, P (b.1.getPtr + b.2)) ↔
      P (blocksPointer blocks (blocksSize blocks - 1) + 1) := by
  induction blocks with
  | nil => exact (hne rfl).elim
  | cons b rest ih =>
      have hb := hpos b List.mem_cons_self
      cases rest with
      | nil =>
          have hlast : b.1.getPtr + (b.2 - 1) + 1 = b.1.getPtr + b.2 := by omega
          simp [blocksPointer, blocksSize, hb, hlast]
      | cons b' rest' =>
          have hb' := hpos b' (by simp)
          have hskip : b.2 + blocksSize (b' :: rest') - 1 =
              b.2 + (blocksSize (b' :: rest') - 1) := by
            rw [blocksSize_cons]
            omega
          rw [List.getLast?_cons_cons, ih (fun x hx => hpos x (List.mem_cons_of_mem _ hx)) (by simp),
            blocksSize_cons b, hskip, blocksPointer_add]

theorem Behind.joins_iff {blocks : List (MemoryRef × Nat)} {vm₁ : VMManager}
    {state : MemoryState} (hb : Behind host vm source size blocks) (hpos : 0 < size) :
    Joins vm₁ target state blocks ↔
      JoinsBelow vm₁ target state (Allocation.pointerAt vm source) ∨
        JoinsAbove vm₁ (target + size) state
          (Allocation.pointerAt vm (source + size - 1) + 1) := by
  have hne : blocks ≠ [] := by
    rintro rfl
    have hsize := hb.size_eq
    simp only [blocksSize_nil] at hsize
    omega
  have hsizes : ∀ b ∈ blocks, 0 < b.2 := fun b hmem => (hb.held b hmem).2.2
  have hfirst : Allocation.pointerAt vm source = blocksPointer blocks 0 := by
    obtain ⟨c, hc, -, hptr⟩ := hb.cell source le_rfl (by omega)
    simp [Allocation.pointerAt, hc, hptr]
  have hlast : Allocation.pointerAt vm (source + size - 1) =
      blocksPointer blocks (blocksSize blocks - 1) := by
    obtain ⟨c, hc, -, hptr⟩ := hb.cell (source + size - 1) (by omega) (by omega)
    simp only [Allocation.pointerAt, hc, Option.map_some, Option.getD_some, hptr, hb.size_eq]
    congr 1
    omega
  unfold Joins
  rw [blocksPointer_zero hsizes (JoinsBelow vm₁ target state) hne,
    blocksPointer_last hsizes (JoinsAbove vm₁ (target + blocksSize blocks) state) hne,
    hfirst, hlast, hb.size_eq]

section Map

variable {privileged : Bool}

/-- The mark on the source range of a `Map`. -/
def marked (privileged : Bool) (c : Cell) : Cell :=
  { c with permissions := aliasedPerms privileged, meminfoState := aliasedState privileged }

theorem marked_state_ne (privileged : Bool) (c : Cell) :
    (marked privileged c).meminfoState ≠ aliasState privileged := by
  cases privileged <;> simp [marked, aliasedState, aliasState]

theorem privateMem_ne_aliasState (privileged : Bool) :
    MemoryState.privateMem ≠ aliasState privileged := by
  cases privileged <;> decide

theorem view_marked {vm₁ : VMManager} (h : Becomes host vm
      (onRange source (source + size) fun _ => marked privileged) vm₁) {a : Nat}
    (hlo : source ≤ a) (hhi : a < source + size) :
    vm₁.view a = (vm.view a).map (marked privileged) := by
  rw [h.view, onRange, if_pos ⟨hlo, hhi⟩]

theorem view_marked_iff {vm₁ : VMManager} (h : Becomes host vm
      (onRange source (source + size) fun _ => marked privileged) vm₁)
    (hexpected : vm.Everywhere (Cell.Expected .privateMem .readWrite) source (source + size))
    {a pointer : Nat} {perms : VMAPermission} {type : VMAType} :
    vm₁.view a = some ⟨type, perms, aliasState privileged, pointer⟩ ↔
      vm.view a = some ⟨type, perms, aliasState privileged, pointer⟩ := by
  by_cases hin : source ≤ a ∧ a < source + size
  · obtain ⟨c, hc, hstate, -⟩ := hexpected a hin.1 hin.2
    rw [view_marked h hin.1 hin.2, hc]
    constructor
    · intro heq
      have hcell := Option.some.inj heq
      exact (marked_state_ne privileged c (congrArg Cell.meminfoState hcell)).elim
    · intro heq
      have hcell := congrArg Cell.meminfoState (Option.some.inj heq)
      exact (privateMem_ne_aliasState privileged (hstate.symm.trans hcell)).elim
  · rw [h.view, onRange, if_neg hin]

theorem MappedTo.frameLaw_iff (hm : MappedTo host vm target source size perms privileged vm') :
    FrameLaw vm target size perms (fun a => source ≤ a ∧ a < source + size) vm' ↔
      perms = .readWrite ∨
        ¬ (JoinsBelow vm target (aliasState privileged) (Allocation.pointerAt vm source) ∨
          JoinsAbove vm (target + size) (aliasState privileged)
            (Allocation.pointerAt vm (source + size - 1) + 1)) := by
  obtain ⟨vm₁, blocks, spill, hmark, hbehind, hlaid⟩ := hm.laid
  have hjoins : Joins vm₁ target (aliasState privileged) blocks ↔
      JoinsBelow vm target (aliasState privileged) (Allocation.pointerAt vm source) ∨
        JoinsAbove vm (target + size) (aliasState privileged)
          (Allocation.pointerAt vm (source + size - 1) + 1) := by
    rw [hbehind.joins_iff hm.proper.pos]
    unfold JoinsBelow JoinsAbove
    rw [view_marked_iff hmark hm.expected, view_marked_iff hmark hm.expected]
  rw [← hjoins, ← hlaid.frame_iff, hbehind.size_eq]
  constructor
  · intro hframe a hout
    by_cases hin : source ≤ a ∧ a < source + size
    · refine hlaid.outside a (fun hspill => ?_) (by rwa [hbehind.size_eq])
      obtain ⟨-, c, hc, -, -, hstate⟩ := hlaid.spill_cell a hspill
      obtain ⟨c₀, hc₀, -⟩ := hm.expected a hin.1 hin.2
      rw [view_marked hmark hin.1 hin.2, hc₀] at hc
      obtain rfl := Option.some.inj hc
      exact marked_state_ne privileged c₀ hstate
    · rw [hframe.outside a hout hin, hmark.view, onRange, if_neg hin]
  · intro hout
    refine ⟨fun a hlo hhi => ⟨_, hlaid.inside a hlo (by rw [hbehind.size_eq]; exact hhi), rfl⟩,
      fun a ha hin => ?_⟩
    rw [hout a ha, hmark.view, onRange, if_neg hin]

theorem MappedInPlace.frameLaw (h : Sound host vm)
    (hm : MappedInPlace host vm target source size perms privileged vm') :
    FrameLaw vm target size perms (fun a => source ≤ a ∧ a < source + size) vm' := by
  refine ⟨fun a hlo hhi => ?_, fun a hout _ => by rw [hm.becomes.view, onRange, if_neg hout]⟩
  have hmax := hm.proper.le_max
  obtain ⟨pre, v, post, hareas, hvlo, hvhi⟩ := h.wellFormed.exists_area (a := a) (by omega)
  have hlayout : vm.Layout (pre ++ v :: post) := hareas ▸ h.wellFormed
  refine ⟨{ v.cell a with permissions := perms, meminfoState := .aliasCode }, ?_, rfl⟩
  rw [hm.becomes.view, onRange, if_pos ⟨hlo, hhi⟩, hlayout.view_eq hvlo hvhi]
  rfl

end Map

/-! ## Every allocation -/

/-- A successful allocation gives its range the permissions that were asked for and leaves every
other address alone exactly when these are read-write, or no neighbour joins its blocks. -/
theorem allocation_frame_iff (h : Reachable (Start host) (Step host) p) (x : Allocation)
    (hx : x.WellTyped host) (hrun : x.run p = .value target p') :
    FrameLaw p.vmManager target x.size x.perms x.InSource p'.vmManager ↔
      x.perms = .readWrite ∨ ¬ x.Joins p := by
  have hp := reachable_intact h
  cases x with
  | heap target' size perms state skipRangeCheck =>
      obtain ⟨rfl, -, hne, spill, vm', hlaid, rfl⟩ := (heapAllocate_post hp hx).value hrun
      exact hlaid.frameLaw_iff (blocksSize_heapRefs hne)
  | linear target' size perms =>
      obtain ⟨place, spill, vm', hspot, -, rfl, -, hlaid, rfl⟩ :=
        (linearAllocate_post hp hx.1 hx.2).value hrun
      have hjoins : Allocation.Joins p (.linear target' size perms) ↔
          Joins p.vmManager place.1 .continuous [(fcramRef p.fcram place.2, size)] := by
        constructor
        · rintro ⟨place', hspot', hjoin⟩
          obtain rfl := Option.some.inj (hspot.symm.trans hspot')
          exact hjoin
        · exact fun hjoin => ⟨place, hspot, hjoin⟩
      rw [hjoins]
      exact hlaid.frameLaw_iff rfl
  | map target' source size perms privileged =>
      have hpost : (Allocation.run (.map target' source size perms privileged)).Post p
          (fun out p' => out = target' ∧
            (MappedTo host p.vmManager target' source size perms privileged p'.vmManager ∨
              MappedInPlace host p.vmManager target' source size perms privileged p'.vmManager))
          (fun _ _ => True) (fun _ => True) := by
        simp only [Allocation.run, Exec.post_bind, post_onVm, Exec.post_pure]
        exact (map_post hp.vm hx.1 hx.2).mono (fun _ _ hm => ⟨trivial, hm⟩) (fun _ _ _ => trivial)
          (fun _ _ => trivial)
      obtain ⟨rfl, hmap | hmap⟩ := hpost.value hrun
      · refine hmap.frameLaw_iff.trans (or_congr_right (not_congr ?_))
        exact ⟨fun hjoin => ⟨hmap.apart, hjoin⟩, fun hjoin => hjoin.2⟩
      · refine iff_of_true (hmap.frameLaw hp.vm) (.inr fun hjoin => ?_)
        have hpos := hmap.proper.pos
        have hapart := hjoin.1
        rw [hmap.same] at hapart
        simp [overlaps, sub32] at hapart
        omega
  | shared memory isOwner address permissions otherPermissions =>
      have hpost : (Allocation.run
          (.shared memory isOwner address permissions otherPermissions)).Post p
          (fun out p' => out = memory.targetAddress address ∧ ∃ spill,
            Laid host p.vmManager (memory.targetAddress address) memory.backingBlocks .shared
              (SharedMemory.convertPermissions permissions) spill p'.vmManager)
          (fun _ _ => True) (fun _ => True) := by
        simp only [Allocation.run, Exec.post_bind, post_onVm, Exec.post_pure]
        exact (SharedMemory.map_post hp.vm hx.1 hx.2).mono (fun _ _ hm => ⟨trivial, hm⟩)
          (fun _ _ _ => trivial) (fun _ _ => trivial)
      obtain ⟨rfl, spill, hlaid⟩ := hpost.value hrun
      exact hlaid.frameLaw_iff hx.1.size_eq

/-- A page of the heap, mapped before the page below it. -/
def upperPage : Allocation := .heap 0x08001000 0x1000 .readWrite .privateMem false

/-- The page below, read-only. -/
def lowerPage : Allocation := .heap 0x08000000 0x1000 .read .privateMem false

theorem allocation_frame_upperPage :
    FrameLaw exampleProcess.vmManager 0x08001000 0x1000 .readWrite (fun _ => False)
      (upperPage.run.after exampleProcess).vmManager :=
  have hword : (0x08001000 : Nat) < 2 ^ 32 := by decide
  (allocation_frame_iff (.start start_exampleProcess) upperPage hword
    (Exec.value_after (by decide +kernel))).mpr (.inl rfl)

/-- The heap hands out FCRAM from the top, so the two pages continue each other: mapping the lower
one read-only makes the upper one read-only. -/
theorem lowerPage_reprotects_upperPage :
    Reachable (Start exampleHost) (Step exampleHost) (upperPage.run.after exampleProcess) ∧
      ∃ p', lowerPage.run (upperPage.run.after exampleProcess) = .value 0x08000000 p' ∧
        ¬ FrameLaw (upperPage.run.after exampleProcess).vmManager 0x08000000 0x1000 .read
          (fun _ => False) p'.vmManager := by
  refine ⟨.step (.start start_exampleProcess) (.heapAllocate _ _ _ _ _ (by decide)
    (moves_after (by decide +kernel))), _, Exec.value_after (by decide +kernel),
    fun hframe => ?_⟩
  have hview := hframe.outside 0x08001000 (by decide) id
  revert hview
  decide +kernel

end Cytrus.Kernel.Process
