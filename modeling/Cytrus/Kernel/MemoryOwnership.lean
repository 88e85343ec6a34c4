import Cytrus.Kernel.ProcessRuns

/-!
# Who owns a page of FCRAM

The address space, the free blocks of the region and the memory the process
holds are three books of one thing. They agree through every run in which no
page is given back while another address still shows it.

## Implementation notes

The books are compared byte by byte. `Safe` is the condition on a call: it says
nothing about allocations and mappings, and of the two ways to give memory back
it asks what they do not check themselves.
-/

namespace Cytrus.Kernel.Process

open Support Support.OrderedMap Support.Segment Memory VMManager

variable {host : Host} {p p' : Process} {target source size : Nat} {perms : VMAPermission}

/-- A memory call of a process with the arguments that `ControlMemory` passes on; the loader
allocates in other states and outside the heap. -/
inductive MemoryCall where
  | heapAllocate (target size : Nat) (perms : VMAPermission) (state : MemoryState)
      (skipRangeCheck : Bool)
  | heapFree (target size : Nat)
  | linearAllocate (target size : Nat) (perms : VMAPermission)
  | linearFree (target size : Nat)
  | map (target source size : Nat) (perms : VMAPermission)
  | unmap (target source size : Nat) (perms : VMAPermission)

/-- A page-aligned machine word. -/
def PageWord (n : Nat) : Prop := n < 2 ^ 32 ∧ pageSize ∣ n

namespace MemoryCall

def run : MemoryCall → Proc PUnit
  | heapAllocate target size perms state skipRangeCheck => do
      let _ ← Process.heapAllocate target size perms state skipRangeCheck
      pure ⟨⟩
  | heapFree target size => Process.heapFree target size
  | linearAllocate target size perms => do
      let _ ← Process.linearAllocate target size perms
      pure ⟨⟩
  | linearFree target size => Process.linearFree target size
  | map target source size perms => onVm (Process.map target source size perms false)
  | unmap target source size perms => onVm (Process.unmap target source size perms false)

/-- All arguments are aligned to pages. -/
def Aligned : MemoryCall → Prop
  | heapAllocate target size .. => PageWord target ∧ PageWord size
  | heapFree target size => PageWord target ∧ PageWord size
  | linearAllocate target size _ => PageWord target ∧ PageWord size
  | linearFree target size => PageWord target ∧ PageWord size
  | map target source size _ => PageWord target ∧ PageWord source ∧ PageWord size
  | unmap target source size _ => PageWord target ∧ PageWord source ∧ PageWord size

/-- No mapped address outside the range shows one of the bytes of FCRAM. -/
def Exclusive (p : Process) (target size : Nat) (frames : Finset Nat) : Prop :=
  ∀ a c, ¬ (target ≤ a ∧ a < target + size) → p.vmManager.view a = some c → c.IsMapped →
    InFcram p.fcram c.pointer → c.pointer - p.fcram.ptr ∉ frames

/-- What the calls that give memory back do not check. `HeapFree` of a mapped range: no other
address shows the bytes behind it. `LinearFree` of a mapped range: the process holds the bytes at
the place of the range, and no other address shows them. -/
def Safe (p : Process) : MemoryCall → Prop
  | heapFree target size => inHeap target size = true →
      p.vmManager.Everywhere Cell.IsMapped target (target + size) →
      Exclusive p target size (p.framesOf target size)
  | linearFree target size => p.inLinearHeap target size = true →
      p.vmManager.Everywhere Cell.IsMapped target (target + size) →
      (Block.mk (target - p.getLinearHeapAreaAddress)
          (target - p.getLinearHeapAreaAddress + size)).toFinset ⊆ p.holdingMemory.toFinset ∧
        Exclusive p target size (Block.mk (target - p.getLinearHeapAreaAddress)
          (target - p.getLinearHeapAreaAddress + size)).toFinset
  | _ => True

end MemoryCall

/-- The books of a process agree. -/
structure Owned (host : Host) (p : Process) : Prop where
  intact : Intact host p
  backing : ∀ a c, p.vmManager.view a = some c → c.IsMapped → InFcram p.fcram c.pointer →
    c.pointer - p.fcram.ptr ∉ p.memoryRegion.freeBlocks.toFinset
  disjoint : Disjoint p.holdingMemory.toFinset p.memoryRegion.freeBlocks.toFinset
  used_eq : p.memoryUsed = p.holdingMemory.toFinset.card + p.holdingTlsMemory.toFinset.card
  holding_lt : ∀ x ∈ p.holdingMemory.toFinset, x < fcramN3dsSize
  tls_lt : ∀ x ∈ p.holdingTlsMemory.toFinset, x < fcramN3dsSize
  heap : ∀ a c, heapVaddr ≤ a → a < heapVaddrEnd → p.vmManager.view a = some c → c.IsMapped →
    InFcram p.fcram c.pointer ∧ c.pointer - p.fcram.ptr ∈ p.holdingMemory.toFinset

/-- A process before its first memory call: it holds nothing, nothing is mapped in the heap, and
what is mapped elsewhere is not free. -/
structure Unspent (host : Host) (p : Process) : Prop where
  intact : Intact host p
  backing : ∀ a c, p.vmManager.view a = some c → c.IsMapped → InFcram p.fcram c.pointer →
    c.pointer - p.fcram.ptr ∉ p.memoryRegion.freeBlocks.toFinset
  heap : ∀ a c, heapVaddr ≤ a → a < heapVaddrEnd → p.vmManager.view a = some c → ¬ c.IsMapped
  holding_eq : p.holdingMemory = IntervalSet.empty
  used_eq : p.memoryUsed = p.holdingTlsMemory.size
  tls_lt : ∀ x ∈ p.holdingTlsMemory.toFinset, x < fcramN3dsSize

theorem Unspent.owned (h : Unspent host p) : Owned host p where
  intact := h.intact
  backing := h.backing
  disjoint := by rw [h.holding_eq, IntervalSet.toFinset_empty]; exact Finset.disjoint_empty_left _
  used_eq := by
    rw [h.used_eq, IntervalSet.size_eq_card, h.holding_eq, IntervalSet.toFinset_empty,
      Finset.card_empty, Nat.zero_add]
  holding_lt x hx := by
    rw [h.holding_eq, IntervalSet.toFinset_empty] at hx
    exact absurd hx (Finset.notMem_empty x)
  tls_lt := h.tls_lt
  heap a c hlo hhi hc hm := absurd hm (h.heap a c hlo hhi hc)

theorem card_le_fcram {s : Finset Nat} (h : ∀ x ∈ s, x < fcramN3dsSize) :
    s.card ≤ fcramN3dsSize := by
  have hsub : s ⊆ Finset.range fcramN3dsSize := fun x hx => Finset.mem_range.mpr (h x hx)
  simpa using Finset.card_le_card hsub

/-! ## Taking memory -/

section Take

variable {blocks : List (MemoryRef × Nat)} {state : MemoryState} {spill : Set Nat}
  {vm' : VMManager} {frames : Finset Nat}

theorem Laid.mapped_cases {vm : VMManager}
    (hl : Laid host vm target blocks state perms spill vm') {a : Nat} {c : Cell}
    (hc : vm'.view a = some c) (hm : c.IsMapped) :
    (target ≤ a ∧ a < target + blocksSize blocks ∧
        c.pointer = blocksPointer blocks (a - target)) ∨
      ∃ c₀, vm.view a = some c₀ ∧ c₀.IsMapped ∧ c₀.pointer = c.pointer := by
  by_cases hin : target ≤ a ∧ a < target + blocksSize blocks
  · rw [hl.inside a hin.1 hin.2] at hc
    obtain rfl := Option.some.inj hc
    exact .inl ⟨hin.1, hin.2, rfl⟩
  · have hsame := hl.same_backing hin
    rw [hc, Option.map_some] at hsame
    obtain ⟨c₀, hc₀, heq⟩ := Option.map_eq_some_iff.mp hsame.symm
    obtain ⟨htype, hptr⟩ := Prod.mk.inj heq
    exact .inr ⟨c₀, hc₀, fun hfree => hm (htype ▸ hfree), hptr⟩

/-- What an allocation of the bytes `frames` does to the books. -/
structure TookFrames (p : Process) (size : Nat) (frames : Finset Nat) (p' : Process) : Prop where
  fcram_eq : p'.fcram = p.fcram
  tls_eq : p'.holdingTlsMemory = p.holdingTlsMemory
  subset : frames ⊆ p.memoryRegion.freeBlocks.toFinset
  card_eq : frames.card = size
  free_eq : p'.memoryRegion.freeBlocks.toFinset = p.memoryRegion.freeBlocks.toFinset \ frames
  holding_eq : p'.holdingMemory.toFinset = p.holdingMemory.toFinset ∪ frames
  used_eq : p'.memoryUsed = add32 p.memoryUsed size

theorem Owned.took (h : Owned host p) (ht : TookFrames p size frames p')
    (hintact : Intact host p')
    (hl : Laid host p.vmManager target blocks state perms spill p'.vmManager)
    (hptr : ∀ i < blocksSize blocks, ∃ x ∈ frames, blocksPointer blocks i = p.fcram.ptr + x) :
    Owned host p' := by
  have hlt : ∀ x ∈ frames, x < fcramN3dsSize :=
    fun x hx => h.intact.region.free_lt x (ht.subset hx)
  have hapart : Disjoint p.holdingMemory.toFinset frames := h.disjoint.mono_right ht.subset
  have hholding : ∀ x ∈ p'.holdingMemory.toFinset, x < fcramN3dsSize := by
    rw [ht.holding_eq]
    intro x hx
    rcases Finset.mem_union.mp hx with hx | hx
    · exact h.holding_lt x hx
    · exact hlt x hx
  have hcard : p'.holdingMemory.toFinset.card = p.holdingMemory.toFinset.card + size := by
    rw [ht.holding_eq, Finset.card_union_of_disjoint hapart, ht.card_eq]
  have hpointer : ∀ a, target ≤ a → a < target + blocksSize blocks →
      InFcram p.fcram (blocksPointer blocks (a - target)) ∧
        blocksPointer blocks (a - target) - p.fcram.ptr ∈ frames := by
    intro a hlo hhi
    obtain ⟨x, hx, heq⟩ := hptr (a - target) (by omega)
    have hxlt := hlt x hx
    rw [heq, Nat.add_sub_cancel_left]
    exact ⟨⟨by omega, by omega⟩, hx⟩
  refine ⟨hintact, ?_, ?_, ?_, hholding, ht.tls_eq ▸ h.tls_lt, ?_⟩
  · intro a c hc hm hin
    rw [ht.fcram_eq] at hin ⊢
    rw [ht.free_eq, Finset.mem_sdiff]
    rintro ⟨hfree, hnot⟩
    obtain ⟨hlo, hhi, hcptr⟩ | ⟨c₀, hc₀, hm₀, hcptr⟩ := hl.mapped_cases hc hm
    · rw [hcptr] at hnot
      exact hnot (hpointer a hlo hhi).2
    · rw [← hcptr] at hin hfree
      exact h.backing a c₀ hc₀ hm₀ hin hfree
  · rw [ht.holding_eq, ht.free_eq, Finset.disjoint_union_left]
    exact ⟨h.disjoint.mono_right Finset.sdiff_subset, Finset.disjoint_sdiff⟩
  · have hle := card_le_fcram hholding
    have htls := card_le_fcram h.tls_lt
    have hused := h.used_eq
    unfold fcramN3dsSize at hle htls
    rw [ht.used_eq, add32_of_lt (by omega), hcard, ht.tls_eq]
    omega
  · intro a c hlo hhi hc hm
    rw [ht.fcram_eq, ht.holding_eq, Finset.mem_union]
    obtain ⟨hlo', hhi', hcptr⟩ | ⟨c₀, hc₀, hm₀, hcptr⟩ := hl.mapped_cases hc hm
    · rw [hcptr]
      exact ⟨(hpointer a hlo' hhi').1, .inr (hpointer a hlo' hhi').2⟩
    · obtain ⟨hin, hheld⟩ := h.heap a c₀ hlo hhi hc₀ hm₀
      rw [hcptr] at hin hheld
      exact ⟨hin, .inl hheld⟩

theorem blocksPointer_fcramBlock {fcram : BackingMem} (l : List Block) :
    ∀ i < blocksSize (l.map (fcramBlock fcram)), ∃ x ∈ Block.union l,
      blocksPointer (l.map (fcramBlock fcram)) i = fcram.ptr + x := by
  induction l with
  | nil =>
      intro i hi
      simp at hi
  | cons b rest ih =>
      intro i hi
      rw [List.map_cons, blocksSize_cons] at hi
      rw [List.map_cons, Block.union_cons]
      have hb : fcramBlock fcram b = (fcramRef fcram b.lower, b.length) := rfl
      by_cases hlt : i < b.length
      · refine ⟨b.lower + i, Finset.mem_union_left _ ?_, ?_⟩
        · unfold Block.length at hlt
          exact Block.mem_toFinset.mpr ⟨by omega, by omega⟩
        · rw [hb, blocksPointer_of_lt hlt]
          exact Nat.add_assoc _ _ _
      · obtain ⟨x, hx, heq⟩ := ih (i - b.length) (by
          have hlen : (fcramBlock fcram b).2 = b.length := rfl
          omega)
        refine ⟨x, Finset.mem_union_right _ hx, ?_⟩
        rw [← heq, hb]
        exact if_neg hlt

theorem Owned.heapAllocated (h : Owned host p) (hne : p.heapRefs size ≠ [])
    (hl : Laid host p.vmManager target (p.heapRefs size) state perms spill vm') :
    Owned host (p.heapAllocated size vm') := by
  have hblocks : (p.memoryRegion.heapBlocks size).blocks ≠ [] := fun hnil => hne (by
    rw [heapRefs, hnil, List.map_nil])
  have htook : TookFrames p size (p.memoryRegion.heapBlocks size).toFinset
      (p.heapAllocated size vm') :=
    ⟨rfl, rfl, (MemoryRegionInfo.heapBlocks_spec _ _).1,
      (MemoryRegionInfo.card_heapBlocks hblocks).2, IntervalSet.toFinset_subSet _ _,
      IntervalSet.toFinset_addSet _ _, rfl⟩
  exact h.took htook (heapAllocated_intact h.intact hl) hl (blocksPointer_fcramBlock _)

theorem Owned.linearAllocated {place : Nat × Nat} (h : Owned host p) (hspot : Spot p size place)
    (hl : Laid host p.vmManager place.1 [(fcramRef p.fcram place.2, size)] .continuous perms
      spill vm') :
    Owned host (p.linearAllocated place.2 size vm') := by
  have htook : TookFrames p size (Block.mk place.2 (place.2 + size)).toFinset
      (p.linearAllocated place.2 size vm') :=
    ⟨rfl, rfl, hspot.free, by simp [Block.length], IntervalSet.toFinset_sub _ _,
      IntervalSet.toFinset_add _ _, rfl⟩
  refine h.took htook (linearAllocated_intact h.intact hl) hl fun i hi => ?_
  have hlt : i < size := by simpa [blocksSize] using hi
  refine ⟨place.2 + i, Block.mem_toFinset.mpr ⟨by simp, by simpa using hlt⟩, ?_⟩
  rw [blocksPointer_of_lt hlt]
  exact Nat.add_assoc _ _ _

end Take

/-! ## Giving memory back -/

theorem Owned.freed {frames : Finset Nat} (h : Owned host p)
    (hf : Freed host p target size frames p') (hcard : frames.card = size)
    (hheld : frames ⊆ p.holdingMemory.toFinset)
    (hexcl : MemoryCall.Exclusive p target size frames) : Owned host p' := by
  have hle := card_le_fcram h.holding_lt
  have htls := card_le_fcram h.tls_lt
  have hsize := Finset.card_le_card hheld
  have hused := h.used_eq
  -- a cell that is still mapped lies outside the range and is as it was
  have hcell : ∀ a c, p'.vmManager.view a = some c → c.IsMapped →
      ¬ (target ≤ a ∧ a < target + size) ∧ p.vmManager.view a = some c := by
    intro a c hc hm
    rw [hf.unmapped.view, onRange] at hc
    by_cases hin : target ≤ a ∧ a < target + size
    · rw [if_pos hin] at hc
      obtain ⟨c₀, -, rfl⟩ := Option.map_eq_some_iff.mp hc
      exact (hm rfl).elim
    · rw [if_neg hin] at hc
      exact ⟨hin, hc⟩
  refine ⟨hf.intact h.intact, ?_, ?_, ?_, ?_, hf.tls_eq ▸ h.tls_lt, ?_⟩
  · intro a c hc hm hin
    obtain ⟨hout, hc₀⟩ := hcell a c hc hm
    rw [hf.fcram_eq] at hin ⊢
    rw [hf.free_eq, Finset.mem_union, not_or]
    exact ⟨h.backing a c hc₀ hm hin, hexcl a c hout hc₀ hm hin⟩
  · rw [hf.holding_eq, hf.free_eq, Finset.disjoint_union_right]
    exact ⟨h.disjoint.mono_left Finset.sdiff_subset, Finset.sdiff_disjoint⟩
  · unfold fcramN3dsSize at hle htls
    rw [hf.used_eq, hf.holding_eq, Finset.card_sdiff_of_subset hheld, hf.tls_eq,
      sub32_of_le (by omega) (by omega)]
    omega
  · intro x hx
    rw [hf.holding_eq] at hx
    exact h.holding_lt x (Finset.mem_sdiff.mp hx).1
  · intro a c hlo hhi hc hm
    obtain ⟨hout, hc₀⟩ := hcell a c hc hm
    obtain ⟨hin, hheld'⟩ := h.heap a c hlo hhi hc₀ hm
    rw [hf.fcram_eq, hf.holding_eq, Finset.mem_sdiff]
    exact ⟨hin, hheld', hexcl a c hout hc₀ hm hin⟩

theorem Owned.heapFreed (h : Owned host p) (ht : target < 2 ^ 32) (hs : size < 2 ^ 32)
    (hin : inHeap target size = true)
    (hmapped : p.vmManager.Everywhere Cell.IsMapped target (target + size))
    (hfreeable : Freeable p target size)
    (hsafe : MemoryCall.Exclusive p target size (p.framesOf target size))
    (hf : Freed host p target size (p.framesOf target size) p') : Owned host p' := by
  obtain ⟨hlo, hhi⟩ := (inHeap_iff ht hs).mp hin
  refine h.freed hf ?_ ?_ hsafe
  · rw [framesOf, Finset.card_image_of_injOn, Nat.card_Ico, Nat.add_sub_cancel_left]
    intro a ha b hb heq
    simp only [Finset.coe_Ico, Set.mem_Ico] at ha hb
    exact hfreeable.injOn a ha.1 ha.2 b hb.1 hb.2 heq
  · intro x hx
    obtain ⟨a, ha, rfl⟩ := Finset.mem_image.mp hx
    rw [Finset.mem_Ico] at ha
    obtain ⟨c, hc, hm⟩ := hmapped a ha.1 ha.2
    have hheld := (h.heap a c (by omega) (by omega) hc hm).2
    rwa [frameAt, hc, Option.map_some, Option.getD_some]

theorem Owned.linearFreed (h : Owned host p)
    (hsafe : (Block.mk (target - p.getLinearHeapAreaAddress)
          (target - p.getLinearHeapAreaAddress + size)).toFinset ⊆ p.holdingMemory.toFinset ∧
        MemoryCall.Exclusive p target size (Block.mk (target - p.getLinearHeapAreaAddress)
          (target - p.getLinearHeapAreaAddress + size)).toFinset)
    (hf : Freed host p target size (Block.mk (target - p.getLinearHeapAreaAddress)
      (target - p.getLinearHeapAreaAddress + size)).toFinset p') : Owned host p' :=
  h.freed hf (by simp [Block.length]) hsafe.1 hsafe.2

/-! ## Moving mappings -/

theorem Owned.withVm (h : Owned host p) {vmManager : VMManager}
    (hsound : VMManager.Sound host vmManager)
    (hcells : ∀ a c, vmManager.view a = some c → c.IsMapped →
      ∃ b c₀, p.vmManager.view b = some c₀ ∧ c₀.IsMapped ∧ c₀.pointer = c.pointer ∧
        (b = a ∨ heapVaddr ≤ b ∧ b < heapVaddrEnd)) :
    Owned host { p with vmManager } where
  intact := h.intact.withVm hsound
  backing a c hc hm hin := by
    obtain ⟨b, c₀, hc₀, hm₀, hptr, -⟩ := hcells a c hc hm
    simp only [← hptr] at hin ⊢
    exact h.backing b c₀ hc₀ hm₀ hin
  disjoint := h.disjoint
  used_eq := h.used_eq
  holding_lt := h.holding_lt
  tls_lt := h.tls_lt
  heap a c hlo hhi hc hm := by
    obtain ⟨b, c₀, hc₀, hm₀, hptr, hb⟩ := hcells a c hc hm
    rw [← hptr]
    rcases hb with rfl | hb
    · exact h.heap b c₀ hlo hhi hc₀ hm₀
    · exact h.heap b c₀ hb.1 hb.2 hc₀ hm₀

theorem mapped_of_becomes {vm vm' : VMManager} {lo hi : Nat} {g : Nat → Cell → Cell}
    (hb : Becomes host vm (onRange lo hi g) vm')
    (hg : ∀ a c, (g a c).IsMapped → c.IsMapped ∧ c.pointer = (g a c).pointer) {a : Nat} {c : Cell}
    (hc : vm'.view a = some c) (hm : c.IsMapped) :
    ∃ c₀, vm.view a = some c₀ ∧ c₀.IsMapped ∧ c₀.pointer = c.pointer := by
  rw [hb.view, onRange] at hc
  by_cases hin : lo ≤ a ∧ a < hi
  · rw [if_pos hin] at hc
    obtain ⟨c₀, hc₀, rfl⟩ := Option.map_eq_some_iff.mp hc
    exact ⟨c₀, hc₀, hg a c₀ hm⟩
  · rw [if_neg hin] at hc
    exact ⟨c, hc, hm, rfl⟩

theorem Owned.mappedTo {vm' : VMManager} (h : Owned host p) (hsrc : source < 2 ^ 32)
    (hs : size < 2 ^ 32) (hin : inHeap source size = true)
    (hm : MappedTo host p.vmManager target source size perms false vm') :
    Owned host { p with vmManager := vm' } := by
  obtain ⟨hlo, hhi⟩ := (inHeap_iff hsrc hs).mp hin
  obtain ⟨vm₁, blocks, spill, hmark, hbehind, hlaid⟩ := hm.laid
  refine h.withVm hlaid.sound fun a c hc hmap => ?_
  obtain ⟨hlo', hhi', hptr⟩ | ⟨c₀, hc₀, hm₀, hptr⟩ := hlaid.mapped_cases hc hmap
  · rw [hbehind.size_eq] at hhi'
    obtain ⟨c₀, hc₀, htype, hptr₀⟩ := hbehind.cell (source + (a - target)) (by omega) (by omega)
    refine ⟨_, c₀, hc₀, fun hfree => ?_, ?_, .inr ⟨by omega, by omega⟩⟩
    · rw [htype] at hfree
      cases hfree
    · rw [hptr₀, hptr, Nat.add_sub_cancel_left]
  · obtain ⟨c₁, hc₁, hm₁, hptr₁⟩ := mapped_of_becomes hmark (fun _ _ hm => ⟨hm, rfl⟩) hc₀ hm₀
    exact ⟨a, c₁, hc₁, hm₁, hptr₁.trans hptr, .inl rfl⟩

theorem mapped_of_unmapped {vm vm' : VMManager} (hu : UnmappedTarget host vm target size vm')
    {a : Nat} {c : Cell} (hc : vm'.view a = some c) (hm : c.IsMapped) :
    ∃ c₀, vm.view a = some c₀ ∧ c₀.IsMapped ∧ c₀.pointer = c.pointer :=
  mapped_of_becomes hu (fun _ _ hm => (hm rfl).elim) hc hm

/-! ## Runs -/

/-- A call that asks for what `Safe` says, whatever it returns. -/
def SafeStep (p p' : Process) : Prop :=
  ∃ c : MemoryCall, c.Aligned ∧ c.Safe p ∧ Moves c.run p p'

theorem map_inHeap {vm : VMManager} :
    (map target source size perms false).Post vm (fun _ _ => inHeap source size = true)
      (fun _ _ => True) (fun _ => True) := by
  unfold map
  rw [Exec.post_bind, Exec.post_require]
  refine ⟨fun hin => ?_, fun _ => trivial⟩
  have hheap : inHeap source size = true := hin.resolve_left Bool.false_ne_true
  exact Exec.post_iff.mpr ⟨fun _ _ _ => hheap, fun _ _ _ => trivial, fun _ _ => trivial⟩

theorem Owned.step (h : Owned host p) (hs : SafeStep p p') : Owned host p' := by
  obtain ⟨c, haligned, hsafe, hmoves⟩ := hs
  refine Exec.Post.moves (F := fun _ => True) ?_ hmoves
  cases c with
  | heapAllocate target size perms state skipRangeCheck =>
      simp only [MemoryCall.run, Exec.post_bind, Exec.post_pure]
      refine (heapAllocate_post h.intact haligned.1.1).mono ?_ ?_ (fun _ _ => trivial)
      · rintro out p' ⟨-, -, hne, spill, vm', hlaid, rfl⟩
        exact h.heapAllocated hne hlaid
      · rintro e p' ⟨rfl, -⟩
        exact h
  | heapFree target size =>
      obtain ⟨ht, hsz⟩ := haligned
      refine (heapFree_post h.intact ht.1 hsz.1 ht.2 hsz.2).mono ?_ ?_ (fun _ _ => trivial)
      · rintro _ p' ⟨-, hin, ⟨-, rfl⟩ | ⟨-, hmapped, hfreeable, hfreed⟩⟩
        · exact h
        · exact h.heapFreed ht.1 hsz.1 hin hmapped hfreeable (hsafe hin hmapped) hfreed
      · rintro e p' ⟨rfl, -⟩
        exact h
  | linearAllocate target size perms =>
      simp only [MemoryCall.run, Exec.post_bind, Exec.post_pure]
      refine (linearAllocate_post h.intact haligned.1.1 haligned.2.1).mono ?_ ?_
        (fun _ _ => trivial)
      · rintro out p' ⟨place, spill, vm', -, hspot, -, -, hlaid, rfl⟩
        exact h.linearAllocated hspot hlaid
      · rintro e p' ⟨rfl, -⟩
        exact h
  | linearFree target size =>
      obtain ⟨ht, hsz⟩ := haligned
      refine (linearFree_post h.intact ht.1 hsz.1 ht.2 hsz.2).mono ?_ ?_ (fun _ _ => trivial)
      · rintro _ p' ⟨-, hin, ⟨-, rfl⟩ | ⟨-, hmapped, hfreed⟩⟩
        · exact h
        · exact h.linearFreed (hsafe hin hmapped) hfreed
      · rintro e p' ⟨rfl, -⟩
        exact h
  | map target source size perms =>
      obtain ⟨-, hsrc, hsz⟩ := haligned
      simp only [MemoryCall.run, post_onVm]
      refine ((map_post h.intact.vm hsrc.1 hsz.1).and map_inHeap).mono ?_ ?_ (fun _ _ => trivial)
      · rintro _ vm' ⟨hmap | hmap, hin⟩
        · exact h.mappedTo hsrc.1 hsz.1 hin hmap
        · cases hmap.privileged
      · rintro e vm' ⟨⟨rfl, -⟩, -⟩
        exact h
  | unmap target source size perms =>
      obtain ⟨ht, hsrc, hsz⟩ := haligned
      simp only [MemoryCall.run, post_onVm]
      refine (unmap_post h.intact.vm ht.1 hsrc.1 hsz.1 ht.2 hsrc.2 hsz.2).mono ?_ ?_
        (fun _ _ => trivial)
      · rintro _ vm' ⟨-, vm₁, hunmapped, hchanged⟩
        refine h.withVm hchanged.sound fun a c hc hm => ?_
        obtain ⟨c₁, hc₁, hm₁, hptr₁⟩ :=
          mapped_of_becomes hchanged (fun _ _ hm => ⟨hm, rfl⟩) hc hm
        obtain ⟨c₀, hc₀, hm₀, hptr₀⟩ := mapped_of_unmapped hunmapped hc₁ hm₁
        exact ⟨a, c₀, hc₀, hm₀, hptr₀.trans hptr₁, .inl rfl⟩
      · rintro e vm' ⟨-, ⟨rfl, -⟩ | ⟨-, hunmapped⟩⟩
        · exact h
        · refine h.withVm hunmapped.sound fun a c hc hm => ?_
          obtain ⟨c₀, hc₀, hm₀, hptr₀⟩ := mapped_of_unmapped hunmapped hc hm
          exact ⟨a, c₀, hc₀, hm₀, hptr₀, .inl rfl⟩

/-- In every run in which memory is given back only as `Safe` asks: no mapped address shows a
free byte of FCRAM, no held byte is free, and `memoryUsed` is the size of what is held. -/
theorem safe_run_owned (h : Reachable (Unspent host) SafeStep p) :
    (∀ a c, p.vmManager.view a = some c → c.type ≠ .free → InFcram p.fcram c.pointer →
        c.pointer - p.fcram.ptr ∉ p.memoryRegion.freeBlocks.toFinset) ∧
      Disjoint p.holdingMemory.toFinset p.memoryRegion.freeBlocks.toFinset ∧
      p.memoryUsed = p.holdingMemory.size + p.holdingTlsMemory.size := by
  have howned : Owned host p := h.invariant (fun _ h => h.owned) fun _ _ h hs => h.step hs
  refine ⟨howned.backing, howned.disjoint, ?_⟩
  rw [IntervalSet.size_eq_card, IntervalSet.size_eq_card]
  exact howned.used_eq

theorem unspent_exampleProcess : Unspent exampleHost exampleProcess := by
  have hfree : ∀ a c, exampleProcess.vmManager.view a = some c → ¬ c.IsMapped := by
    intro a c hc hm
    have hlayout : resetSpace.Layout [initialVma] := layout_initialVma rfl
    have hlookup := (hlayout.view_eq_lookup a).symm.trans hc
    simp only [lookup] at hlookup
    split at hlookup
    · obtain rfl := Option.some.inj hlookup
      exact hm rfl
    · cases hlookup
  exact ⟨start_exampleProcess.intact, fun a c hc hm => (hfree a c hc hm).elim,
    fun a c _ _ hc => hfree a c hc, rfl, rfl, fun x hx => by simp [exampleProcess] at hx⟩

/-- The process after it has allocated a page of the heap. -/
def heapPage : Process :=
  (MemoryCall.run (.heapAllocate 0x08000000 0x1000 .readWrite .privateMem false)).after
    exampleProcess

/-- The page is mapped a second time. -/
def aliasedPage : Process :=
  (MemoryCall.run (.map 0x09000000 0x08000000 0x1000 .readWrite)).after heapPage

/-- The page is given back at its first address. -/
def freedPage : Process := (MemoryCall.run (.heapFree 0x08000000 0x1000)).after aliasedPage

theorem safe_run_owned_heapPage :
    Disjoint heapPage.holdingMemory.toFinset heapPage.memoryRegion.freeBlocks.toFinset ∧
      heapPage.memoryUsed = heapPage.holdingMemory.size + heapPage.holdingTlsMemory.size :=
  (safe_run_owned (.step (.start unspent_exampleProcess)
    ⟨.heapAllocate 0x08000000 0x1000 .readWrite .privateMem false,
      ⟨⟨by decide, by decide⟩, by decide, by decide⟩, trivial,
      moves_after (by decide +kernel)⟩)).2

/-- `HeapFree` does not look at the state of the range: the page it gives back to the region is
still mapped at its second address. -/
theorem heapFree_of_aliased_page :
    Moves (MemoryCall.run (.heapAllocate 0x08000000 0x1000 .readWrite .privateMem false))
        exampleProcess heapPage ∧
      Moves (MemoryCall.run (.map 0x09000000 0x08000000 0x1000 .readWrite)) heapPage
        aliasedPage ∧
      Moves (MemoryCall.run (.heapFree 0x08000000 0x1000)) aliasedPage freedPage ∧
      ∃ c, freedPage.vmManager.view 0x09000000 = some c ∧ c.type ≠ .free ∧
        InFcram freedPage.fcram c.pointer ∧
        c.pointer - freedPage.fcram.ptr ∈ freedPage.memoryRegion.freeBlocks.toFinset := by
  refine ⟨moves_after (by decide +kernel), moves_after (by decide +kernel),
    moves_after (by decide +kernel),
    ⟨.backingMemory, .readWrite, .aliasMem, 0x20000000 + 0xFFF000⟩, by decide +kernel, by decide,
    ⟨by decide +kernel, by decide +kernel⟩, ?_⟩
  rw [IntervalSet.mem_toFinset]
  decide +kernel

end Cytrus.Kernel.Process
