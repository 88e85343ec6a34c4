import Cytrus.Kernel.MemoryRegion

/-!
# The region allocator over whole runs

A ledger is a memory region together with the bytes that were handed out and
not given back. From `Reset` on, free and outstanding bytes partition the
region, `used` counts the outstanding ones, and an allocation fails exactly
when its policy finds no room.
-/

namespace Cytrus.Kernel.MemoryRegionInfo

open Support
open IntervalSet (toFinset_sub toFinset_empty toFinset_add size_eq_card toFinset_subSet)

variable {region region' : MemoryRegionInfo} {size offset : Nat} {α : Type}

/-- A call on the allocator, indexed by what it returns. -/
inductive Call : Type → Type where
  | heapAllocate (size : Nat) : Call IntervalSet
  | linearAllocateAt (offset size : Nat) : Call Bool
  | linearAllocate (size : Nat) : Call (Option Nat)
  | rLinearAllocate (size : Nat) : Call (Option Nat)
  | free (offset size : Nat) : Call PUnit

namespace Call

def run : Call α → Region α
  | heapAllocate size => MemoryRegionInfo.heapAllocate size
  | linearAllocateAt offset size => MemoryRegionInfo.linearAllocateAt offset size
  | linearAllocate size => MemoryRegionInfo.linearAllocate size
  | rLinearAllocate size => MemoryRegionInfo.rLinearAllocate size
  | free offset size => MemoryRegionInfo.free offset size

/-- The number of bytes an allocation asks for. -/
def request : Call α → Nat
  | heapAllocate size => size
  | linearAllocateAt _ size => size
  | linearAllocate size => size
  | rLinearAllocate size => size
  | free _ _ => 0

/-- The arguments are machine words, and a placed block does not wrap around. -/
def NoWrap : Call α → Prop
  | heapAllocate size => size < 2 ^ 32
  | linearAllocateAt offset size => offset + size < 2 ^ 32
  | linearAllocate size => size < 2 ^ 32
  | rLinearAllocate size => size < 2 ^ 32
  | free offset size => offset + size < 2 ^ 32

/-- The bytes that a result hands out; none when the call failed. -/
def obtained : Call α → α → Option (Finset Nat)
  | heapAllocate size, result => if result.size = size then some result.toFinset else none
  | linearAllocateAt offset size, result =>
      if result then some (Finset.Ico offset (offset + size)) else none
  | linearAllocate size, result => result.map fun offset => Finset.Ico offset (offset + size)
  | rLinearAllocate size, result => result.map fun offset => Finset.Ico offset (offset + size)
  | free _ _, _ => some ∅

/-- The policy of an allocation finds room. -/
def HasRoom (region : MemoryRegionInfo) : Call α → Prop
  | heapAllocate size => size ≤ region.freeBlocks.toFinset.card
  | linearAllocateAt offset size =>
      Finset.Ico offset (offset + size) ⊆ region.freeBlocks.toFinset
  | linearAllocate size => ∃ block ∈ region.freeBlocks.blocks, size ≤ block.length
  | rLinearAllocate size => ∃ block ∈ region.freeBlocks.blocks, size ≤ block.length
  | free _ _ => True

/-- The call takes memory from the region. -/
def Allocates : Call α → Prop
  | free _ _ => False
  | _ => True

end Call

/-- Nothing past a limit is given back. -/
def Call.Below (limit : Nat) : Call α → Prop
  | free offset size => offset + size ≤ limit
  | _ => True

theorem Valid.take_sub {limit : Nat} {β : Type} {result : β} {b : Block}
    {F : Fault → Prop} {E : ResultCode → MemoryRegionInfo → Prop} (h : region.Valid limit) :
    (take (region.freeBlocks.sub b) size >>= fun _ => pure result).Post region
      (fun _ region' => region'.Valid limit) E F :=
  h.taken (by rw [toFinset_sub]; exact Finset.sdiff_subset)

theorem Valid.call_post {limit : Nat} (h : region.Valid limit) (hlimit : limit < 2 ^ 32)
    (c : Call α) (hc : c.Below limit) :
    c.run.Post region (fun _ region' => region'.Valid limit)
      (fun _ region' => region'.Valid limit) (fun _ => True) := by
  cases c with
  | heapAllocate size =>
      refine (heapAllocate_post h).mono ?_ (fun _ _ he => he) (fun _ hf => hf)
      rintro result region' ⟨-, hnil, hne⟩
      by_cases hempty : result.blocks = []
      · rw [hnil hempty]
        exact h
      · rw [hne hempty]
        exact h.taken (by rw [toFinset_subSet]; exact Finset.sdiff_subset)
  | linearAllocateAt offset size =>
      simp only [Call.run, MemoryRegionInfo.linearAllocateAt, assertUnlocked, Exec.post_bind,
        Exec.post_get, Exec.post_assert, Exec.post_ite, Exec.post_pure]
      exact ⟨fun _ => ⟨fun _ => h.take_sub, fun _ => h⟩, fun _ => trivial⟩
  | linearAllocate size =>
      simp only [Call.run, MemoryRegionInfo.linearAllocate, assertUnlocked, Exec.post_bind,
        Exec.post_get, Exec.post_assert]
      refine ⟨fun _ => ?_, fun _ => trivial⟩
      cases region.freeBlocks.blocks.find? fun block => size ≤ block.length with
      | none => exact h
      | some block => exact h.take_sub
  | rLinearAllocate size =>
      simp only [Call.run, MemoryRegionInfo.rLinearAllocate, assertUnlocked, Exec.post_bind,
        Exec.post_get, Exec.post_assert]
      refine ⟨fun _ => ?_, fun _ => trivial⟩
      cases region.freeBlocks.blocks.reverse.find? fun block => size ≤ block.length with
      | none => exact h
      | some block => exact h.take_sub
  | free offset size =>
      have hle : offset + size ≤ limit := hc
      refine (free_post h (by omega)).mono ?_ (fun _ _ he => he) (fun _ _ => trivial)
      rintro _ region' ⟨-, rfl⟩
      exact h.freed hle

theorem takeBlocks_exhausts (l : List Block) :
    ∀ (result : IntervalSet) (rest : Nat), (takeBlocks l result rest).2 ≠ 0 →
      (takeBlocks l result rest).1.toFinset = result.toFinset ∪ Block.union l := by
  induction l with
  | nil =>
      intro result rest _
      simp [takeBlocks]
  | cons block more ih =>
      intro result rest hrest
      unfold takeBlocks at hrest ⊢
      by_cases hfit : rest ≤ block.length
      · rw [if_pos hfit] at hrest
        exact (hrest rfl).elim
      · rw [if_neg hfit] at hrest ⊢
        rw [ih _ _ hrest, toFinset_add, Block.union_cons, Finset.union_assoc]

/-- There is space exactly when the free bytes suffice. -/
theorem hasSpace_iff (region : MemoryRegionInfo) (size : Nat) :
    region.hasSpace size = true ↔ size ≤ region.freeBlocks.toFinset.card := by
  obtain ⟨hsub, hcard, -⟩ := heapBlocks_spec region size
  constructor
  · intro hspace
    rw [← hcard hspace]
    exact Finset.card_le_card hsub
  · intro hle
    by_contra hspace
    have hrest : (takeBlocks region.freeBlocks.blocks.reverse IntervalSet.empty size).2 ≠ 0 := by
      simpa [hasSpace] using hspace
    have hall := takeBlocks_exhausts _ _ _ hrest
    rw [Block.union_reverse, toFinset_empty, Finset.empty_union] at hall
    have hpair := region.freeBlocks.spaced.pairwise
    have hcount := (takeBlocks_spec region.freeBlocks.blocks.reverse IntervalSet.empty size
      (List.pairwise_reverse.mpr (hpair.imp fun h => h.symm)) (by simp)).2
    rw [hall] at hcount
    simp only [toFinset_empty, Finset.card_empty] at hcount
    rw [IntervalSet.toFinset] at hle
    omega

/-! ## What one allocation does -/

/-- The bytes `bytes` were moved from the free to the used ones. -/
structure Took (region : MemoryRegionInfo) (size : Nat) (bytes : Finset Nat)
    (region' : MemoryRegionInfo) : Prop where
  card_eq : bytes.card = size
  subset : bytes ⊆ region.freeBlocks.toFinset
  free_eq : region'.freeBlocks.toFinset = region.freeBlocks.toFinset \ bytes
  used_eq : region'.used = add32 region.used size
  same : region'.base = region.base ∧ region'.size = region.size ∧
    region'.isLocked = region.isLocked

/-- What an allocation that returned `result` has done. -/
def Served (region : MemoryRegionInfo) (c : Call α) (result : α) (region' : MemoryRegionInfo) :
    Prop :=
  ((c.obtained result).isSome ↔ c.HasRoom region) ∧
    (c.obtained result = none → region' = region) ∧
    ∀ bytes, c.obtained result = some bytes → Took region c.request bytes region'

theorem taken_took {freeBlocks : IntervalSet} {bytes : Finset Nat}
    (hfree : freeBlocks.toFinset = region.freeBlocks.toFinset \ bytes)
    (hsub : bytes ⊆ region.freeBlocks.toFinset) (hcard : bytes.card = size) :
    Took region size bytes (region.taken freeBlocks size) :=
  ⟨hcard, hsub, hfree, rfl, rfl, rfl, rfl⟩

theorem heapAllocate_served {limit : Nat} (h : region.Valid limit) :
    (heapAllocate size).Post region
      (fun result region' => Served region (.heapAllocate size) result region')
      (fun _ _ => False) (fun _ => False) := by
  obtain ⟨hsub, hcard, hempty⟩ := heapBlocks_spec region size
  refine (heapAllocate_post h).mono ?_ (fun _ _ he => he) (fun _ hf => hf)
  rintro result region' ⟨rfl, hnil, hne⟩
  have hsize : (region.heapBlocks size).size = size ↔ region.hasSpace size = true := by
    rw [size_eq_card]
    constructor
    · intro heq
      by_contra hspace
      rw [hempty (by simpa using hspace), toFinset_empty, Finset.card_empty] at heq
      subst heq
      exact hspace ((hasSpace_iff region 0).mpr (Nat.zero_le _))
    · exact hcard
  simp only [Served, Call.obtained, Call.HasRoom, Call.request]
  rw [← hasSpace_iff, ← hsize]
  refine ⟨by by_cases heq : (region.heapBlocks size).size = size <;> simp [heq], ?_, ?_⟩
  · intro hnone
    by_cases heq : (region.heapBlocks size).size = size
    · simp [heq] at hnone
    · refine hnil ?_
      rw [hempty (by simpa using mt hsize.mpr heq)]
      rfl
  · intro bytes hsome
    by_cases heq : (region.heapBlocks size).size = size
    · rw [if_pos heq, Option.some.injEq] at hsome
      subst hsome
      have hcard' := hcard (hsize.mp heq)
      by_cases hblocks : (region.heapBlocks size).blocks = []
      · -- nothing was asked for, and nothing has changed
        rw [hnil hblocks]
        have hbytes : (region.heapBlocks size).toFinset = ∅ := by
          rw [IntervalSet.toFinset, hblocks]
          rfl
        have hzero : size = 0 := by rw [← hcard', hbytes, Finset.card_empty]
        have hused : add32 region.used 0 = region.used := add32_of_lt h.used_lt
        refine ⟨hcard', hsub, by rw [hbytes, Finset.sdiff_empty], ?_, rfl, rfl, rfl⟩
        rw [hzero, hused]
      · rw [hne hblocks]
        exact taken_took (toFinset_subSet _ _) hsub hcard'
    · simp [heq] at hsome

theorem linearAllocateAt_served {limit : Nat} (h : region.Valid limit)
    (hwrap : offset + size < 2 ^ 32) :
    (linearAllocateAt offset size).Post region
      (fun result region' => Served region (.linearAllocateAt offset size) result region')
      (fun _ _ => False) (fun _ => False) := by
  refine (linearAllocateAt_post h hwrap).mono ?_ (fun _ _ he => he) (fun _ hf => hf)
  rintro result region' ⟨hiff, hfalse, htrue⟩
  have hiff : result = true ↔
    Finset.Ico offset (offset + size) ⊆ region.freeBlocks.toFinset := hiff
  simp only [Served, Call.obtained, Call.HasRoom, Call.request]
  cases result with
  | false => exact ⟨by simpa using hiff, fun _ => hfalse rfl, fun bytes hsome => by simp at hsome⟩
  | true =>
      refine ⟨by simpa using hiff, fun hnone => by simp at hnone, fun bytes hsome => ?_⟩
      rw [if_pos rfl, Option.some.injEq] at hsome
      subst hsome
      rw [htrue rfl]
      exact taken_took (toFinset_sub _ _) (hiff.mp rfl) (by simp)

theorem linearAllocate_served {limit : Nat} (h : region.Valid limit) (hlimit : limit < 2 ^ 32) :
    (linearAllocate size).Post region
      (fun result region' => Served region (.linearAllocate size) result region')
      (fun _ _ => False) (fun _ => False) := by
  refine (linearAllocate_post h hlimit).mono ?_ (fun _ _ he => he) (fun _ hf => hf)
  rintro result region' ⟨rfl, hnone, hsome⟩
  simp only [Served, Call.obtained, Call.HasRoom, Call.request]
  refine ⟨?_, fun hfail => hnone (by simpa using hfail), fun bytes hbytes => ?_⟩
  · simp [linearOffset]
  · obtain ⟨offset, hoffset, rfl⟩ := Option.map_eq_some_iff.mp hbytes
    obtain ⟨hsub, -, rfl⟩ := hsome offset hoffset
    exact taken_took (toFinset_sub _ _) hsub (by simp)

theorem rLinearAllocate_served {limit : Nat} (h : region.Valid limit) (hlimit : limit < 2 ^ 32) :
    (rLinearAllocate size).Post region
      (fun result region' => Served region (.rLinearAllocate size) result region')
      (fun _ _ => False) (fun _ => False) := by
  unfold rLinearAllocate assertUnlocked take
  simp only [Exec.post_bind, Exec.post_get, Exec.post_assert]
  refine ⟨fun _ => ?_, fun hlocked => (hlocked h.unlocked).elim⟩
  simp only [Served, Call.obtained, Call.HasRoom, Call.request]
  cases hfind : region.freeBlocks.blocks.reverse.find? fun block => size ≤ block.length with
  | none =>
      have hall := List.find?_eq_none.mp hfind
      refine ⟨?_, fun _ => rfl, fun bytes hbytes => by simp at hbytes⟩
      simpa using hall
  | some block =>
      have hmem : block ∈ region.freeBlocks.blocks := by
        simpa using List.mem_of_find?_eq_some hfind
      have hlen : size ≤ block.length := by simpa using List.find?_some hfind
      have hbounds := region.freeBlocks.spaced.bounds hmem
      have hsub := IntervalSet.toFinset_of_mem hmem
      have hlast := h.free_lt (block.upper - 1) (hsub (Block.mem_toFinset.mpr (by omega)))
      have hstart : sub32 block.upper size = block.upper - size := by
        unfold Block.length at hlen
        exact sub32_of_le (by omega) (by omega)
      simp only [Exec.post_bind, Exec.post_modify, Exec.post_pure, hstart]
      refine ⟨by simpa using ⟨block, hmem, hlen⟩, fun hnone => by simp at hnone, ?_⟩
      intro bytes hbytes
      have hend : block.upper - size + size = block.upper := by
        unfold Block.length at hlen
        omega
      rw [Option.map_some, Option.some.injEq, hend] at hbytes
      subst hbytes
      refine taken_took (toFinset_sub _ _) (fun x hx => hsub ?_) ?_
      · rw [Finset.mem_Ico] at hx
        unfold Block.length at hlen
        exact Block.mem_toFinset.mpr (by omega)
      · unfold Block.length at hlen
        rw [Nat.card_Ico]
        omega

/-! ## Ledgers -/

/-- A region with the bytes handed out and not given back; `base` and `size` are those of the
`Reset` it started from. -/
structure Ledger where
  base : Nat
  size : Nat
  region : MemoryRegionInfo
  outstanding : Finset Nat

namespace Ledger

variable {l l' : Ledger}

/-- A ledger as `Reset` leaves it. -/
def Fresh (l : Ledger) : Prop :=
  l.base + l.size < 2 ^ 32 ∧ l.outstanding = ∅ ∧
    ∃ before, reset l.base l.size before = .value ⟨⟩ l.region

/-- One call that returned: an allocation adds what it obtained to the outstanding bytes, and
only outstanding bytes are given back. -/
inductive Step : Ledger → Ledger → Prop where
  | allocate {l : Ledger} {α : Type} (c : Call α) (hc : c.Allocates) (hw : c.NoWrap) {result : α}
      {region : MemoryRegionInfo} (h : c.run l.region = .value result region) :
      Step l { l with
        region
        outstanding := l.outstanding ∪ (c.obtained result).getD ∅ }
  | free {l : Ledger} (offset size : Nat) (hw : offset + size < 2 ^ 32)
      (hout : Finset.Ico offset (offset + size) ⊆ l.outstanding) {region : MemoryRegionInfo}
      (h : MemoryRegionInfo.free offset size l.region = .value ⟨⟩ region) :
      Step l { l with
        region
        outstanding := l.outstanding \ Finset.Ico offset (offset + size) }

/-- Free and outstanding bytes partition the region, and `used` counts the latter. -/
structure Balanced (l : Ledger) : Prop where
  no_wrap : l.base + l.size < 2 ^ 32
  unlocked : l.region.isLocked = false
  base_eq : l.region.base = l.base
  size_eq : l.region.size = l.size
  union_eq : l.region.freeBlocks.toFinset ∪ l.outstanding = Finset.Ico l.base (l.base + l.size)
  disjoint : Disjoint l.region.freeBlocks.toFinset l.outstanding
  used_eq : l.region.used = l.outstanding.card

theorem Balanced.card_eq (h : l.Balanced) :
    l.region.freeBlocks.toFinset.card + l.outstanding.card = l.size := by
  rw [← Finset.card_union_of_disjoint h.disjoint, h.union_eq, Nat.card_Ico]
  omega

theorem Balanced.used_add (h : l.Balanced) :
    l.region.used = l.size - l.region.freeBlocks.toFinset.card := by
  have hcard := h.card_eq
  rw [h.used_eq]
  omega

theorem Balanced.free_subset (h : l.Balanced) :
    l.region.freeBlocks.toFinset ⊆ Finset.Ico l.base (l.base + l.size) := by
  rw [← h.union_eq]
  exact Finset.subset_union_left

theorem Balanced.valid (h : l.Balanced) : l.region.Valid (l.base + l.size) where
  unlocked := h.unlocked
  used_lt := by
    have hcard := h.card_eq
    have hwrap := h.no_wrap
    rw [h.used_eq]
    omega
  free_lt x hx := (Finset.mem_Ico.mp (h.free_subset hx)).2
  end_le := by rw [h.base_eq, h.size_eq]

theorem Fresh.balanced (h : l.Fresh) : l.Balanced := by
  obtain ⟨hwrap, hout, before, hreset⟩ := h
  have hpost : (reset l.base l.size).Post before
      (fun _ region => region.isLocked = false ∧ region.base = l.base ∧ region.size = l.size ∧
        region.used = 0 ∧
        region.freeBlocks.toFinset = Finset.Ico l.base (l.base + l.size))
      (fun _ _ => False) (fun _ => True) := by
    unfold reset assertUnlocked
    simp only [Exec.post_bind, Exec.post_get, Exec.post_assert, Exec.post_modify]
    refine ⟨fun hunlocked => ⟨hunlocked, trivial, trivial, trivial, ?_⟩, fun _ => trivial⟩
    rw [add32_of_lt hwrap, toFinset_add, toFinset_empty,
      Finset.empty_union]
    rfl
  obtain ⟨hunlocked, hbase, hsize, hused, hfree⟩ := hpost.value hreset
  refine ⟨hwrap, hunlocked, hbase, hsize, ?_, ?_, ?_⟩
  · rw [hfree, hout, Finset.union_empty]
  · rw [hout]
    exact Finset.disjoint_empty_right _
  · rw [hused, hout, Finset.card_empty]

theorem Balanced.served {α : Type} (h : l.Balanced) (c : Call α) (hc : c.Allocates)
    (hw : c.NoWrap) :
    c.run.Post l.region (fun result region' => Served l.region c result region')
      (fun _ _ => False) (fun _ => False) := by
  cases c with
  | heapAllocate size => exact heapAllocate_served h.valid
  | linearAllocateAt offset size => exact linearAllocateAt_served h.valid hw
  | linearAllocate size => exact linearAllocate_served h.valid h.no_wrap
  | rLinearAllocate size => exact rLinearAllocate_served h.valid h.no_wrap
  | free offset size => exact hc.elim

theorem Balanced.took {size : Nat} {bytes : Finset Nat} {region : MemoryRegionInfo}
    (h : l.Balanced) (ht : Took l.region size bytes region) :
    Balanced { l with
      region
      outstanding := l.outstanding ∪ bytes } := by
  have hdisj : Disjoint l.outstanding bytes := h.disjoint.symm.mono_right ht.subset
  have hcard := h.card_eq
  have hle := Finset.card_le_card ht.subset
  have hwrap := h.no_wrap
  have hcard' := ht.card_eq
  refine ⟨hwrap, ht.same.2.2.trans h.unlocked, ht.same.1.trans h.base_eq,
    ht.same.2.1.trans h.size_eq, ?_, ?_, ?_⟩
  · rw [← h.union_eq]
    simp only [ht.free_eq]
    rw [Finset.union_comm l.outstanding, ← Finset.union_assoc,
      Finset.sdiff_union_of_subset ht.subset]
  · simp only [ht.free_eq]
    rw [Finset.disjoint_union_right]
    exact ⟨h.disjoint.mono_left Finset.sdiff_subset, Finset.sdiff_disjoint⟩
  · simp only
    rw [Finset.card_union_of_disjoint hdisj, ht.used_eq, h.used_eq, ht.card_eq,
      add32_of_lt (by omega)]

theorem Balanced.gaveBack {offset size : Nat} (h : l.Balanced)
    (hout : Finset.Ico offset (offset + size) ⊆ l.outstanding) :
    Balanced { l with
      region := l.region.freed offset size
      outstanding := l.outstanding \ Finset.Ico offset (offset + size) } := by
  have hcard := h.card_eq
  have hle := Finset.card_le_card hout
  have hwrap := h.no_wrap
  have hbytes : (Block.mk offset (offset + size)).toFinset = Finset.Ico offset (offset + size) :=
    rfl
  rw [Nat.card_Ico, Nat.add_sub_cancel_left] at hle
  refine ⟨hwrap, h.unlocked, h.base_eq, h.size_eq, ?_, ?_, ?_⟩
  · simp only [toFinset_freed, hbytes]
    rw [Finset.union_assoc, Finset.union_sdiff_of_subset hout, h.union_eq]
  · simp only [toFinset_freed, hbytes]
    rw [Finset.disjoint_union_left]
    exact ⟨h.disjoint.mono_right Finset.sdiff_subset, Finset.disjoint_sdiff⟩
  · simp only
    rw [Finset.card_sdiff_of_subset hout, Nat.card_Ico, Nat.add_sub_cancel_left]
    exact (congrArg (fun used => sub32 used size) h.used_eq).trans
      (sub32_of_le hle (by omega))

theorem Balanced.step (h : l.Balanced) (hs : Step l l') : l'.Balanced := by
  cases hs with
  | allocate c hc hw hrun =>
      obtain ⟨-, hnone, hsome⟩ := (h.served c hc hw).value hrun
      cases hobt : c.obtained _ with
      | none =>
          rw [hnone hobt, Option.getD_none, Finset.union_empty]
          exact h
      | some bytes =>
          rw [Option.getD_some]
          exact h.took (hsome bytes hobt)
  | free offset size hw hout hrun =>
      obtain ⟨-, rfl⟩ := (free_post (E := fun _ _ => False) h.valid hw).value hrun
      exact h.gaveBack hout

/-- The region of the fixed examples. -/
def exampleRegion : MemoryRegionInfo where
  base := 0
  size := 0x1000000
  used := 0
  freeBlocks := IntervalSet.empty.add ⟨0, 0x1000000⟩
  isLocked := false

/-- The ledger of the fixed examples, as `Reset` leaves it. -/
def exampleLedger : Ledger := ⟨0, 0x1000000, exampleRegion, ∅⟩

theorem fresh_exampleLedger : exampleLedger.Fresh :=
  ⟨by decide, rfl, exampleRegion, rfl⟩

end Ledger

end Cytrus.Kernel.MemoryRegionInfo
