import Cytrus.Kernel.AddressSpace

/-!
# The search for a free block

`MapBackingMemoryToBase` takes the first free area that ends far enough above
`base` and maps at its start, or at `base`. The blocks it is meant to choose
from are the ranges of free addresses inside the region. The two agree exactly
when no free area below the lowest such block ends at or above `base + size`.
-/

namespace Cytrus.Kernel.VMManager

open Support Support.OrderedMap Support.Segment Memory

variable {vm vm' : VMManager} {l pre post : List VirtualMemoryArea} {v : VirtualMemoryArea}
  {base regionSize size a x : Nat} {memory : MemoryRef} {state : MemoryState}

/-- The address belongs to a free area. -/
def FreeAt (vm : VMManager) (address : Nat) : Prop :=
  ∃ c, vm.view address = some c ∧ c.type = .free

/-- The addresses at which a block fits: inside the region, and free throughout. -/
def fits (vm : VMManager) (base regionSize size : Nat) : Set Nat :=
  { a | base ≤ a ∧ a + size ≤ base + regionSize ∧ ∀ x, a ≤ x → x < a + size → vm.FreeAt x }

/-- If a block fits anywhere, the call maps it at the lowest address where it does. -/
def TakesFirstFit (vm : VMManager) (base regionSize : Nat) (memory : MemoryRef) (size : Nat)
    (state : MemoryState) : Prop :=
  ∀ a, IsLeast (vm.fits base regionSize size) a →
    ∃ vm', mapBackingMemoryToBase base regionSize memory size state vm = .value a vm' ∧
      ∀ x, vm'.view x =
        onRange a (a + size) (fun x _ => mappedCell a memory state x) x (vm.view x)

/-- The lowest fitting block is a whole number of pages from zero and inside one area, and no
free area below it ends at or above `base + size`. -/
def LowestFitFound (vm : VMManager) (base regionSize size : Nat) : Prop :=
  ∀ a, IsLeast (vm.fits base regionSize size) a →
    pageSize ∣ a ∧ InFree vm.areas a (a + size) ∧
      ∀ w ∈ vm.areas, w.type = .free → w.base + w.size ≤ a → w.base + w.size < base + size

theorem Layout.freeAt_iff (h : vm.Layout (pre ++ v :: post)) (hlo : v.base ≤ x)
    (hhi : x < v.base + v.size) : vm.FreeAt x ↔ v.type = .free := by
  unfold FreeAt
  rw [h.view_eq hlo hhi]
  constructor
  · rintro ⟨c, hc, hfree⟩
    obtain rfl := Option.some.inj hc
    exact hfree
  · intro hfree
    exact ⟨_, rfl, hfree⟩

theorem Layout.mem_fits (h : vm.Layout (pre ++ v :: post)) (hfree : v.type = .free)
    (hlo : v.base ≤ a) (hhi : a + size ≤ v.base + v.size) (hbase : base ≤ a)
    (hregion : a + size ≤ base + regionSize) : a ∈ vm.fits base regionSize size := by
  refine ⟨hbase, hregion, fun x hax hxa => ?_⟩
  exact (h.freeAt_iff (by omega) (by omega)).mpr hfree

/-- An area that the search would take: free, and ending at or above `base + size`. -/
def Reaching (base size : Nat) (v : VirtualMemoryArea) : Prop :=
  v.type = .free ∧ base + size ≤ v.base + v.size

theorem Layout.find?_eq_some (h : vm.Layout l) (hpos : 0 < size) (hwrap : base + size < 2 ^ 32)
    {key : Nat} :
    (vm.vmaMap.find? fun entry =>
      entry.2.type = .free && base < add32 entry.2.base entry.2.size &&
        add32 base size ≤ add32 entry.2.base entry.2.size) = some (key, v) ↔
      key = v.base ∧ Reaching base size v ∧
        ∃ pre post, l = pre ++ v :: post ∧ ∀ w ∈ pre, ¬ Reaching base size w := by
  have hmax : 2 * maxAddress < 2 ^ 32 := by decide
  have hcongr : ∀ w ∈ l, (w.type = .free && base < add32 w.base w.size &&
      add32 base size ≤ add32 w.base w.size) = true ↔ Reaching base size w := by
    intro w hw
    have hwmax := (h.bounds hw).2
    rw [add32_of_lt (a := w.base) (b := w.size) (by omega), add32_of_lt (by omega)]
    simp only [Bool.and_eq_true, decide_eq_true_eq, Reaching, and_assoc]
    exact and_congr_right fun _ => ⟨fun hand => hand.2, fun hle => ⟨by omega, hle⟩⟩
  rw [h.map_eq, entries, List.find?_map, Option.map_eq_some_iff]
  simp only [Prod.mk.injEq, List.find?_eq_some_iff_append, Function.comp_apply]
  constructor
  · rintro ⟨w, ⟨hw, pre, post, rfl, hfirst⟩, rfl, rfl⟩
    refine ⟨rfl, (hcongr w (by simp)).mp hw, pre, post, rfl, fun u hu hreach => ?_⟩
    have hnot := hfirst u hu
    rw [(hcongr u (by simp [hu])).mpr hreach] at hnot
    contradiction
  · rintro ⟨rfl, hv, pre, post, rfl, hfirst⟩
    refine ⟨v, ⟨(hcongr v (by simp)).mpr hv, pre, post, rfl, fun u hu => ?_⟩, rfl, rfl⟩
    rw [Bool.not_eq_true', ← Bool.not_eq_true]
    exact mt (hcongr u (by simp [hu])).mp (hfirst u hu)

theorem mapBackingMemoryToBase_eq_value (hu : vm.isLocked = false) (h : vm.Layout l)
    (hpos : 0 < size) (hwrap : base + size < 2 ^ 32) (hregion : base + regionSize < 2 ^ 32) :
    mapBackingMemoryToBase base regionSize memory size state vm = .value a vm' ↔
      ∃ pre v post, l = pre ++ v :: post ∧ Reaching base size v ∧
        (∀ w ∈ pre, ¬ Reaching base size w) ∧ a = max base v.base ∧
        a + size ≤ base + regionSize ∧
        ∃ it, mapBackingMemory a memory size state vm = .value it vm' := by
  have hmax : 2 * maxAddress < 2 ^ 32 := by decide
  unfold mapBackingMemoryToBase assertUnlocked deref
  simp only [Exec.bind_eq_value, Exec.get_eq_value, Exec.assert_eq_value, Exec.read_eq_value,
    Exec.require_eq_value, Exec.pure_eq_value]
  constructor
  · rintro ⟨⟨⟩, t, ⟨u, t', ⟨rfl, rfl⟩, -, rfl⟩, u, t, ⟨rfl, rfl⟩, w, t, ⟨hread, rfl⟩, ⟨⟩, t,
      ⟨hroom, rfl⟩, it, t, hmap, rfl, rfl⟩
    cases hfound : (vm.vmaMap.find? fun entry =>
        entry.2.type = .free && base < add32 entry.2.base entry.2.size &&
          add32 base size ≤ add32 entry.2.base entry.2.size) with
    | none => simp [hfound] at hread
    | some entry =>
        obtain ⟨key, v⟩ := entry
        obtain ⟨rfl, hv, pre, post, rfl, hfirst⟩ := (h.find?_eq_some hpos hwrap).mp hfound
        rw [hfound, Option.map_some, Option.bind_some, h.at?_base] at hread
        obtain rfl := Option.some.inj hread
        have hvb := h.bounds (v := v) (by simp)
        have hreach := hv.2
        rw [add32_of_lt (by omega), add32_of_lt hregion] at hroom
        exact ⟨pre, v, post, rfl, hv, hfirst, rfl, hroom, it, hmap⟩
  · rintro ⟨pre, v, post, rfl, hv, hfirst, rfl, hroom, it, hmap⟩
    have hfound := (h.find?_eq_some hpos hwrap).mpr ⟨rfl, hv, pre, post, rfl, hfirst⟩
    refine ⟨⟨⟩, vm, ⟨vm, vm, ⟨rfl, rfl⟩, hu, rfl⟩, vm, vm, ⟨rfl, rfl⟩, v, vm, ⟨?_, rfl⟩, ⟨⟩, vm,
      ⟨?_, rfl⟩, it, vm', hmap, rfl, rfl⟩
    · rw [hfound, Option.map_some, Option.bind_some, h.at?_base]
    · rwa [add32_of_lt (by omega), add32_of_lt hregion]

theorem dvd_of_mapBackingMemory {it : VMAIter}
    (hvalue : mapBackingMemory a memory size state vm = .value it vm') : pageSize ∣ a := by
  unfold mapBackingMemory carveVMA assertAligned at hvalue
  simp only [Exec.bind_eq_value, Exec.assert_eq_value] at hvalue
  obtain ⟨-, -, -, -, -, -, -, -, ⟨-, -, -, -, -, ⟨haligned, -⟩, -⟩, -⟩ := hvalue
  exact aligned_iff.mp haligned

/-- From a well-formed address space, and for a block of whole pages that does not wrap, the call
maps at the lowest address where the block fits exactly when the search finds that address. -/
theorem takesFirstFit_iff (hu : vm.isLocked = false) (h : vm.WellFormed)
    (hmem : memory.getPtr ≠ 0) (hs : pageSize ∣ size) (hpos : 0 < size)
    (hwrap : base + size < 2 ^ 32) (hregion : base + regionSize < 2 ^ 32) :
    vm.TakesFirstFit base regionSize memory size state ↔
      vm.LowestFitFound base regionSize size := by
  have hmax : 2 * maxAddress < 2 ^ 32 := by decide
  constructor
  · intro hfirstFit a ha
    obtain ⟨vm', hvalue, -⟩ := hfirstFit a ha
    obtain ⟨pre, v, post, hareas, ⟨hfree, hreach⟩, hfirst, rfl, hroom, it, hmap⟩ :=
      (mapBackingMemoryToBase_eq_value hu h hpos hwrap hregion).mp hvalue
    have hdvd := dvd_of_mapBackingMemory hmap
    have hv := h.bounds (v := v) (by simp [hareas])
    have hin : InFree vm.areas (max base v.base) (max base v.base + size) := by
      obtain ⟨z, hmapped, -⟩ := (mapBackingMemory_post hu h hdvd hs hpos (by omega) hmem).value hmap
      exact hmapped.inFree
    refine ⟨hdvd, hin, fun w hw hwfree hwle => ?_⟩
    by_contra hge
    have hlayout : vm.Layout (pre ++ v :: post) := hareas ▸ h
    rw [hareas] at hw
    rcases List.mem_append.mp hw with hw | hw
    · exact hfirst w hw ⟨hwfree, by omega⟩
    · rcases List.mem_cons.mp hw with rfl | hw
      · omega
      · have hstart := (hlayout.post_tiled.start_lt hw).1
        simp only [VirtualMemoryArea.start_eq] at hstart
        omega
  · intro hfound a ha
    obtain ⟨hdvd, hin, hbelow⟩ := hfound a ha
    obtain ⟨v, hv, hfree, hlo, hhi⟩ := hin
    obtain ⟨pre, post, hareas⟩ := List.append_of_mem hv
    obtain ⟨hbase, hroom, -⟩ := ha.1
    have hlayout : vm.Layout (pre ++ v :: post) := hareas ▸ h
    have htarget : a = max base v.base := by
      apply le_antisymm
      · exact ha.2 (hlayout.mem_fits hfree (by omega) (by omega) (by omega) (by omega))
      · exact max_le hbase hlo
    have hvb := h.bounds hv
    have hpost := @mapBackingMemory_post _ _ _ _ _ state hu h hdvd hs hpos (by omega) hmem
    cases hmap : mapBackingMemory a memory size state vm with
    | value it vm' =>
        obtain ⟨z, hmapped, -⟩ := hpost.value hmap
        refine ⟨vm', ?_, (hmapped.effect h hpos).view⟩
        apply (mapBackingMemoryToBase_eq_value hu h hpos hwrap hregion).mpr
        refine ⟨pre, v, post, hareas, ⟨hfree, by omega⟩, fun w hw hreach => ?_, htarget, hroom, it,
          hmap⟩
        have hstop := (hlayout.pre_tiled.start_lt hw).2.2
        simp only [VirtualMemoryArea.stop_eq] at hstop
        have hlt := hbelow w (by simp [hareas, hw]) hreach.1 (by omega)
        exact absurd hreach.2 (by omega)
    | error e vm' => exact ((hpost.error hmap).2 ⟨v, hv, hfree, hlo, hhi⟩).elim
    | fault f => exact (hpost.fault hmap).elim

/-- Two pages mapped with a free page between them. -/
def fragmentedSpace : VMManager :=
  (mapBackingMemory 0x2000 exampleMemory 0x1000 .privateMem).after
    ((mapBackingMemory 0 exampleMemory 0x1000 .privateMem).after resetSpace)

theorem reachable_fragmentedSpace : Reachable Fresh Step fragmentedSpace :=
  .step (.step (.start fresh_resetSpace)
    ⟨_, .mapBackingMemory 0 exampleMemory 0x1000 .privateMem,
      ⟨by decide, ⟨by decide, by decide, by decide, by decide⟩⟩, moves_after (by decide)⟩)
    ⟨_, .mapBackingMemory 0x2000 exampleMemory 0x1000 .privateMem,
      ⟨by decide, ⟨by decide, by decide, by decide, by decide⟩⟩, moves_after (by decide)⟩

/-- The free space from the third page on, seen from the end of the free page. -/
theorem takesFirstFit_fragmentedSpace :
    fragmentedSpace.TakesFirstFit 0x1000 0x1000 exampleMemory 0x1000 .privateMem := by
  have hwf := Reachable.wellFormed reachable_fragmentedSpace
  apply (takesFirstFit_iff hwf.1 hwf.2 (by decide) (by decide) (by decide) (by decide)
    (by decide)).mpr
  rintro a ⟨⟨hbase, hroom, -⟩, -⟩
  obtain rfl : a = 0x1000 := by omega
  refine ⟨by decide, ⟨⟨0x1000, 0x1000, .free, .none, .free, .null⟩, by decide, rfl,
    by decide, by decide⟩, by decide⟩

/-- A block of two pages fits after the mapped pages, but the search stops at the free page
between them, which ends two pages above the base. -/
theorem mapBackingMemoryToBase_stops_short :
    Reachable Fresh Step fragmentedSpace ∧
      0x3000 ∈ fragmentedSpace.fits 0 0x10000 0x2000 ∧
      (mapBackingMemoryToBase 0 0x10000 exampleMemory 0x2000 .privateMem
        fragmentedSpace).code? = some .invalidAddressState ∧
      ¬ fragmentedSpace.TakesFirstFit 0 0x10000 exampleMemory 0x2000 .privateMem := by
  have hwf := Reachable.wellFormed reachable_fragmentedSpace
  have hcode : (mapBackingMemoryToBase 0 0x10000 exampleMemory 0x2000 .privateMem
      fragmentedSpace).code? = some .invalidAddressState := by decide
  have hfits : 0x3000 ∈ fragmentedSpace.fits 0 0x10000 0x2000 := by
    have hlast : (⟨0x3000, 0x3fffd000, .free, .none, .free, .null⟩ : VirtualMemoryArea) ∈
        fragmentedSpace.areas := by decide
    obtain ⟨pre, post, hareas⟩ := List.append_of_mem hlast
    have hlayout := hwf.2
    unfold WellFormed at hlayout
    rw [hareas] at hlayout
    exact hlayout.mem_fits rfl (by decide) (by decide) (by decide) (by decide)
  refine ⟨reachable_fragmentedSpace, hfits, hcode, fun htakes => ?_⟩
  obtain ⟨a, ha⟩ : ∃ a, IsLeast (fragmentedSpace.fits 0 0x10000 0x2000) a :=
    ⟨_, Nat.sInf_mem ⟨_, hfits⟩, fun b hb => Nat.sInf_le hb⟩
  obtain ⟨vm', hvalue, -⟩ := htakes a ha
  rw [hvalue] at hcode
  contradiction

end Cytrus.Kernel.VMManager
