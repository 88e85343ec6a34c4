import Cytrus.Kernel.AddressSpace

/-!
# Address spaces that are backed by host buffers

The bounds assertion of a memory reference cannot fail when the buffer behind
each area covers it. Merging keeps this because two buffers of the host never
touch: areas whose pointers continue each other lie in one buffer.

## Implementation notes

`Sound` is what all reachable address spaces have in common. The specifications
here are those of `VMManagerCalls` under `Sound`, for arbitrary arguments: a
range call aborts exactly when its range is not `Proper`.
-/

namespace Cytrus.Kernel

open Support Support.OrderedMap Support.Segment Memory

/-- Something is mapped at the address. -/
def Cell.IsMapped (c : Cell) : Prop := c.type ≠ .free

/-- What `ChangeMemoryState` expects of a cell. -/
def Cell.Expected (state : MemoryState) (perms : VMAPermission) (c : Cell) : Prop :=
  c.meminfoState = state ∧ c.permissions.includes perms = true

namespace VMManager

/-- The buffers of the host; there is a gap between any two of them. -/
structure Host where
  buffers : Set BackingMem
  apart : ∀ b ∈ buffers, ∀ c ∈ buffers, b ≠ c → b.ptr + b.size < c.ptr ∨ c.ptr + c.size < b.ptr
  pos : ∀ b ∈ buffers, 0 < b.ptr

/-- `size` bytes from a reference on lie inside one buffer. -/
def Host.Holds (host : Host) (memory : MemoryRef) (size : Nat) : Prop :=
  ∃ b ∈ host.buffers, memory.backingMem = some b ∧ memory.offset + size ≤ b.size

/-- A mapped area is covered by its buffer. -/
def Host.Covers (host : Host) (v : VirtualMemoryArea) : Prop :=
  v.type = .backingMemory → host.Holds v.backingMemory v.size

variable {host : Host} {vm vm' : VMManager} {l : List VirtualMemoryArea}
  {v n : VirtualMemoryArea} {memory : MemoryRef} {target size a k : Nat}

namespace Host

theorem Holds.getPtr_pos (h : host.Holds memory size) : 0 < memory.getPtr := by
  obtain ⟨b, hb, hmem, -⟩ := h
  have hpos := host.pos b hb
  simp only [MemoryRef.getPtr, hmem]
  omega

theorem Holds.le_getSize (h : host.Holds memory size) : size ≤ memory.getSize := by
  obtain ⟨b, -, hmem, hle⟩ := h
  simp only [MemoryRef.getSize, hmem]
  omega

theorem Holds.mono (h : host.Holds memory size) (hk : k ≤ size) : host.Holds memory k := by
  obtain ⟨b, hb, hmem, hle⟩ := h
  exact ⟨b, hb, hmem, by omega⟩

theorem Holds.plus (h : host.Holds memory size) (hk : k ≤ size) :
    host.Holds (memory.plus k) (size - k) := by
  obtain ⟨b, hb, hmem, hle⟩ := h
  exact ⟨b, hb, hmem, by simp only [MemoryRef.plus_offset]; omega⟩

theorem Covers.backed (h : host.Covers v) : v.Backed := fun htype => (h htype).le_getSize

theorem Covers.takeTo (h : host.Covers v) (ha : a ≤ v.base + v.size) : host.Covers (v.takeTo a) := by
  intro htype
  exact (h htype).mono (by simp only [VirtualMemoryArea.takeTo_size]; omega)

theorem Covers.dropTo (h : host.Covers v) (hlo : v.base ≤ a) (hhi : a ≤ v.base + v.size) :
    host.Covers (v.dropTo a) := by
  intro htype
  have hv : v.type = .backingMemory := htype
  have hplus := (h hv).plus (k := a - v.base) (by omega)
  simp only [VirtualMemoryArea.dropTo, hv]
  exact hplus.mono (by omega)

theorem Covers.extend (hv : host.Covers v) (hn : host.Covers n)
    (hm : v.canBeMergedWith n = true) : host.Covers (v.extend n) := by
  obtain ⟨-, -, htype, hptr⟩ := VirtualMemoryArea.canBeMergedWith_iff.mp hm
  intro hbacked
  have hvtype : v.type = .backingMemory := hbacked
  obtain ⟨b, hb, hvmem, hvle⟩ := hv hvtype
  obtain ⟨c, hc, hnmem, hnle⟩ := hn (htype ▸ hvtype)
  have hjoin := hptr hvtype
  simp only [MemoryRef.getPtr, hvmem, hnmem] at hjoin
  -- the two pointers meet, so the buffers are the same
  have hbc : b = c := by
    by_contra hne
    rcases host.apart b hb c hc hne with hlt | hlt <;> omega
  subst hbc
  exact ⟨b, hb, hvmem, by simp only [VirtualMemoryArea.extend]; omega⟩

end Host

/-- Every area of the list is covered by its buffer. -/
def Host.CoversAll (host : Host) (l : List VirtualMemoryArea) : Prop := ∀ v ∈ l, host.Covers v

theorem coversAll_cutAt (h : host.CoversAll l) : host.CoversAll (cutAt a l) := by
  intro w hw
  rcases mem_cutAt_cases hw with hw | ⟨u, hu, hlo, hhi, rfl | rfl⟩
  · exact h w hw
  · exact (h u hu).takeTo (by omega)
  · exact (h u hu).dropTo (by omega) (by omega)

theorem coversAll_merge {z : Zipper} (h : host.CoversAll z.areas) :
    host.CoversAll z.merge.areas := by
  have hjoin : ∀ (pre post : List VirtualMemoryArea) (v n : VirtualMemoryArea),
      host.CoversAll (pre ++ v :: n :: post) → v.canBeMergedWith n = true →
      host.CoversAll (pre ++ v.extend n :: post) := by
    intro pre post v n hall hm w hw
    simp only [List.mem_append, List.mem_cons] at hw
    rcases hw with hw | rfl | hw
    · exact hall w (by simp [hw])
    · exact (hall v (by simp)).extend (hall n (by simp)) hm
    · exact hall w (by simp [hw])
  have hnext : host.CoversAll z.mergeNext.areas := by
    rcases z.mergeNext_cases with ⟨heq, -⟩ | ⟨n, rest, hr, hm, heq⟩
    · rw [heq]
      exact h
    · rw [heq]
      exact hjoin z.left.reverse rest z.focus n (by rw [Zipper.areas, hr] at h; exact h) hm
  unfold Zipper.merge
  rcases z.mergeNext.mergePrev_cases with ⟨heq, -⟩ | ⟨p, rest, hl, hm, heq⟩
  · rw [heq]
    exact hnext
  · rw [heq]
    refine hjoin rest.reverse z.mergeNext.right p z.mergeNext.focus ?_ hm
    rw [Zipper.areas, hl] at hnext
    simpa using hnext

/-- A rewrite of an area after which its buffer still covers it. -/
def Host.Kept (host : Host) (f : VirtualMemoryArea → VirtualMemoryArea) : Prop :=
  ∀ v, host.Covers v → host.Covers (f v)

theorem coversAll_onFocus {f : VirtualMemoryArea → VirtualMemoryArea} {z : Zipper}
    (hf : host.Covers z.focus → host.Covers (f z.focus)) (h : host.CoversAll z.areas) :
    host.CoversAll (z.onFocus f).areas := by
  intro w hw
  simp only [Zipper.areas, Zipper.onFocus, List.mem_append, List.mem_cons] at hw
  rcases hw with hw | rfl | hw
  · exact h w (by simp only [Zipper.areas, List.mem_append, List.mem_cons, hw, true_or])
  · exact hf (h z.focus (by simp [Zipper.areas]))
  · exact h w (by simp only [Zipper.areas, List.mem_append, List.mem_cons, hw, or_true])

/-- The loop invariant of the range calls that carries the buffers along. -/
def Host.Around (host : Host) (left right : List VirtualMemoryArea) : Prop :=
  host.CoversAll (left.reverse ++ right)

theorem covers_survives {f : VirtualMemoryArea → VirtualMemoryArea} (hf : host.Kept f)
    (targetEnd : Nat) : Survives f targetEnd host.Around := by
  intro left v right _ _ h
  have hz : host.CoversAll (Zipper.mk left v right).areas := h
  have hmerge := coversAll_merge (coversAll_onFocus (f := f) (hf v) hz)
  simpa [Host.Around, Zipper.areas, visited, Zipper.onFocus] using hmerge

theorem covers_start (h : host.CoversAll l) : Started l target size host.Around := by
  intro left v right hlist _ _ _ _
  have hcut := coversAll_cutAt (a := target + size) (coversAll_cutAt (a := target) h)
  rw [hlist] at hcut
  exact hcut

theorem Ended.coversAll {targetEnd : Nat} (h : vm.Ended host.Around targetEnd vm') :
    host.CoversAll vm'.areas := by
  obtain ⟨left, right, hnow, haround, -⟩ := h
  rw [hnow.layout.areas_eq]
  exact haround

theorem unmapped_kept : host.Kept .unmapped := fun _ _ htype => by cases htype

theorem reprotected_kept (newPerms : VMAPermission) : host.Kept (.reprotected newPerms) :=
  fun _ h => h

theorem restated_kept (newState : MemoryState) (newPerms : VMAPermission) :
    host.Kept (.restated newState newPerms) := fun _ h => h

/-- The address space of every reachable state. -/
structure Sound (host : Host) (vm : VMManager) : Prop where
  unlocked : vm.isLocked = false
  wellFormed : vm.WellFormed
  covers : host.CoversAll vm.areas

/-- The state after a call that returns: sound again, and changed as `update` says. -/
structure Becomes (host : Host) (vm : VMManager) (update : Nat → Option Cell → Option Cell)
    (vm' : VMManager) : Prop where
  sound : Sound host vm'
  view : ∀ a, vm'.view a = update a (vm.view a)

theorem Sound.not_short (h : Sound host vm) : ¬ ∃ v ∈ vm.areas, ¬ v.Backed := by
  rintro ⟨v, hv, hshort⟩
  exact hshort (h.covers v hv).backed

theorem Sound.becomes {update : Nat → Option Cell → Option Cell} (h : Sound host vm)
    (he : vm.Effect update vm') (hc : host.CoversAll vm'.areas) : Becomes host vm update vm' :=
  ⟨⟨he.locked.trans h.unlocked, he.wellFormed, hc⟩, he.view⟩

/-! ## What a range holds -/

/-- Every address of the range holds a cell with the property. -/
def Everywhere (vm : VMManager) (P : Cell → Prop) (lo hi : Nat) : Prop :=
  ∀ a, lo ≤ a → a < hi → ∃ c, vm.view a = some c ∧ P c

theorem Layout.throughout_iff {p : VirtualMemoryArea → Prop} {P : Cell → Prop} {lo hi : Nat}
    (h : vm.Layout l) (hP : ∀ v a, P (VirtualMemoryArea.cell v a) ↔ p v) (hlt : lo < hi)
    (hmax : hi ≤ maxAddress) : Throughout p l lo hi ↔ vm.Everywhere P lo hi := by
  constructor
  · intro hall a hlo hhi
    obtain ⟨pre, v, post, rfl, hva, hav⟩ := h.exists_area (a := a) (by omega)
    exact ⟨v.cell a, h.view_eq hva hav, (hP v a).mpr (hall v (by simp) (by omega) (by omega))⟩
  · intro hall v hv hvhi hvlo
    obtain ⟨pre, post, rfl⟩ := List.append_of_mem hv
    have hpos := (h.bounds hv).1
    -- the first address that the area and the range share
    obtain ⟨c, hc, hPc⟩ := hall (max lo v.base) (by omega) (by omega)
    rw [h.view_eq (by omega) (by omega)] at hc
    obtain rfl := Option.some.inj hc
    exact (hP v _).mp hPc

theorem Sound.mapped_iff (h : Sound host vm) (hp : Proper target size) :
    Throughout (fun v => v.type ≠ .free) vm.areas target (target + size) ↔
      vm.Everywhere Cell.IsMapped target (target + size) :=
  Layout.throughout_iff h.wellFormed (fun _ _ => Iff.rfl) (by have := hp.pos; omega) hp.le_max

theorem Sound.expected_iff {state : MemoryState} {perms : VMAPermission} (h : Sound host vm)
    (hp : Proper target size) :
    Throughout (Expected state perms) vm.areas target (target + size) ↔
      vm.Everywhere (Cell.Expected state perms) target (target + size) :=
  Layout.throughout_iff h.wellFormed (fun _ _ => Iff.rfl) (by have := hp.pos; omega) hp.le_max

/-! ## The range calls -/

theorem carveVMARange_improper {E : ResultCode → VMManager → Prop} (ht : target < 2 ^ 32)
    (hs : size < 2 ^ 32) (hp : ¬ Proper target size) {Q : VMAIter → VMManager → Prop} :
    (carveVMARange target size).Post vm Q E (fun _ => ¬ Proper target size) := by
  unfold carveVMARange
  simp only [Exec.post_bind, post_assertAligned, Exec.post_assert]
  refine ⟨fun hsd => ⟨fun htd => ⟨fun hle => ⟨fun hmax => ⟨fun hpos => ?_, fun _ => hp⟩,
    fun _ => hp⟩, fun _ => hp⟩, fun _ => hp⟩, fun _ => hp⟩
  refine (hp ⟨htd, hsd, hpos, ?_⟩).elim
  unfold add32 at hle hmax
  omega

section Calls

variable {newPerms expectedPerms : VMAPermission} {expectedState newState : MemoryState}

theorem Sound.reprotectRange_post (h : Sound host vm) (ht : target < 2 ^ 32)
    (hs : size < 2 ^ 32) :
    (reprotectRange target size newPerms).Post vm
      (fun _ vm' => Proper target size ∧ vm.Everywhere Cell.IsMapped target (target + size) ∧
        Becomes host vm (onRange target (target + size) fun _ c =>
          { c with permissions := newPerms }) vm')
      (fun _ vm' => vm' = vm ∧ Proper target size ∧
        ¬ vm.Everywhere Cell.IsMapped target (target + size))
      (fun _ => ¬ Proper target size) := by
  by_cases hp : Proper target size
  · refine ((VMManager.reprotectRange_post h.unlocked h.wellFormed hp).and
      (reprotectRange_loop (covers_survives (reprotected_kept newPerms) _)
        (covers_start h.covers) h.unlocked h.wellFormed hp)).mono ?_ ?_ ?_
    · rintro _ vm' ⟨⟨hmapped, heffect⟩, -, hended⟩
      exact ⟨hp, (h.mapped_iff hp).mp hmapped, h.becomes heffect hended.coversAll⟩
    · rintro e vm' ⟨⟨rfl, -, hfree⟩, -⟩
      exact ⟨rfl, hp, fun hmapped => hfree ((h.mapped_iff hp).mpr hmapped)⟩
    · rintro f ⟨⟨-, hshort⟩, -⟩
      exact (h.not_short hshort).elim
  · unfold reprotectRange
    rw [Exec.post_bind, post_assertUnlocked h.unlocked, Exec.post_bind]
    exact carveVMARange_improper ht hs hp

theorem Sound.unmapRange_post (h : Sound host vm) (ht : target < 2 ^ 32)
    (hs : size < 2 ^ 32) :
    (unmapRange target size).Post vm
      (fun _ vm' => Proper target size ∧ vm.Everywhere Cell.IsMapped target (target + size) ∧
        Becomes host vm (onRange target (target + size) fun _ _ => freeCell) vm')
      (fun _ vm' => vm' = vm ∧ Proper target size ∧
        ¬ vm.Everywhere Cell.IsMapped target (target + size))
      (fun _ => ¬ Proper target size) := by
  by_cases hp : Proper target size
  · refine ((VMManager.unmapRange_post h.unlocked h.wellFormed hp).and
      (unmapRange_loop (covers_survives unmapped_kept _)
        (covers_start h.covers) h.unlocked h.wellFormed hp)).mono ?_ ?_ ?_
    · rintro _ vm' ⟨⟨hmapped, heffect⟩, -, hended⟩
      exact ⟨hp, (h.mapped_iff hp).mp hmapped, h.becomes heffect hended.coversAll⟩
    · rintro e vm' ⟨⟨rfl, -, hfree⟩, -⟩
      exact ⟨rfl, hp, fun hmapped => hfree ((h.mapped_iff hp).mpr hmapped)⟩
    · rintro f ⟨⟨-, hshort⟩, -⟩
      exact (h.not_short hshort).elim
  · unfold unmapRange
    rw [Exec.post_bind, post_assertUnlocked h.unlocked, Exec.post_bind]
    exact carveVMARange_improper ht hs hp

theorem Sound.changeMemoryState_post (h : Sound host vm) (hp : Proper target size) :
    (changeMemoryState target size expectedState expectedPerms newState newPerms).Post vm
      (fun _ vm' => vm.Everywhere Cell.IsMapped target (target + size) ∧
        vm.Everywhere (Cell.Expected expectedState expectedPerms) target (target + size) ∧
        Becomes host vm (onRange target (target + size) fun _ c =>
          { c with permissions := newPerms, meminfoState := newState }) vm')
      (fun _ vm' => vm' = vm ∧ ¬ (vm.Everywhere Cell.IsMapped target (target + size) ∧
        vm.Everywhere (Cell.Expected expectedState expectedPerms) target (target + size)))
      (fun _ => False) := by
  refine ((VMManager.changeMemoryState_post h.unlocked h.wellFormed hp).and
    (changeMemoryState_loop (covers_survives (restated_kept newState newPerms) _)
      (fun _ => covers_start h.covers) h.unlocked h.wellFormed hp)).mono ?_ ?_ ?_
  · rintro _ vm' ⟨⟨hmapped, hexpected, heffect⟩, -, -, hended⟩
    exact ⟨(h.mapped_iff hp).mp hmapped, (h.expected_iff hp).mp hexpected,
      h.becomes heffect hended.coversAll⟩
  · rintro e vm' ⟨⟨rfl, -, hnot⟩, -⟩
    rw [h.mapped_iff hp, h.expected_iff hp] at hnot
    exact ⟨rfl, hnot⟩
  · rintro f ⟨⟨-, hshort⟩, -⟩
    exact h.not_short hshort

end Calls

/-! ## All calls -/

theorem Mapped.sound {z : Zipper} {state : MemoryState} (h : Sound host vm)
    (hmap : vm.Mapped vm.areas target size memory state z vm') (hmem : host.Holds memory size) :
    Sound host vm' := by
  have hz : host.CoversAll z.areas := by
    rw [← hmap.areas_eq]
    exact coversAll_cutAt (coversAll_cutAt h.covers)
  have hfocus : host.CoversAll (z.onFocus (.mapped memory state)).areas := by
    refine coversAll_onFocus (fun _ _ => ?_) hz
    simpa [VirtualMemoryArea.mapped, hmap.size_eq] using hmem
  refine ⟨hmap.now.locked.trans h.unlocked, hmap.now.layout.wellFormed, ?_⟩
  rw [hmap.now.layout.areas_eq]
  exact coversAll_merge hfocus

/-- The memory a call maps lies in a buffer. -/
def Call.Supplied {α : Type} (host : Host) : Call α → Prop
  | .mapBackingMemory _ memory size _ => host.Holds memory size
  | .mapBackingMemoryToBase _ _ memory size _ => host.Holds memory size
  | _ => True

theorem Sound.call_post {α : Type} (h : Sound host vm) (c : Call α) (hc : c.Allowed vm)
    (hs : c.Supplied host) :
    c.run.Post vm (fun _ vm' => Sound host vm') (fun _ vm' => Sound host vm')
      (fun _ => True) := by
  have hmax : maxAddress < 2 ^ 32 := by decide
  cases c with
  | mapBackingMemory target memory size state =>
      obtain ⟨hmem, hp⟩ := hc
      have hle := hp.le_max
      refine (mapBackingMemory_post h.unlocked h.wellFormed hp.target_dvd hp.size_dvd hp.pos
        (by omega) hmem).mono ?_ ?_ (fun _ _ => trivial)
      · rintro it vm' ⟨z, hmap, -⟩
        exact Mapped.sound h hmap hs
      · rintro e vm' ⟨rfl, -⟩
        exact h
  | mapBackingMemoryToBase base regionSize memory size state =>
      obtain ⟨hmem, hp⟩ := hc
      refine (mapBackingMemoryToBase_post h.unlocked h.wellFormed hp hmem).mono ?_ ?_
        (fun _ _ => trivial)
      · rintro target vm' ⟨z, hmap⟩
        exact Mapped.sound h hmap hs
      · rintro e vm' rfl
        exact h
  | unmapRange target size =>
      have hp : Proper target size := hc
      have hle := hp.le_max
      refine (h.unmapRange_post (by omega) (by omega)).mono ?_ ?_ (fun _ _ => trivial)
      · rintro _ vm' ⟨-, -, hb⟩
        exact hb.sound
      · rintro e vm' ⟨rfl, -⟩
        exact h
  | reprotect vmaHandle newPerms =>
      obtain ⟨v, hv, rfl⟩ := hc
      obtain ⟨pre, post, hsplit⟩ := List.append_of_mem hv
      let z : Zipper := ⟨pre.reverse, v, post⟩
      have hz : vm.areas = z.areas := by simp [z, Zipper.areas, hsplit]
      have hlayout : vm.Layout z.areas := hz ▸ h.wellFormed
      refine (reprotect_post h.unlocked z hlayout).mono ?_ (fun _ _ h => h.elim)
        (fun _ _ => trivial)
      rintro it vm' ⟨-, hnow⟩
      refine ⟨hnow.locked.trans h.unlocked, hnow.layout.wellFormed, ?_⟩
      rw [hnow.layout.areas_eq]
      exact coversAll_merge (coversAll_onFocus (reprotected_kept newPerms v) (hz ▸ h.covers))
  | reprotectRange target size newPerms =>
      have hp : Proper target size := hc
      have hle := hp.le_max
      refine (h.reprotectRange_post (by omega) (by omega)).mono ?_ ?_ (fun _ _ => trivial)
      · rintro _ vm' ⟨-, -, hb⟩
        exact hb.sound
      · rintro e vm' ⟨rfl, -⟩
        exact h
  | changeMemoryState target size expectedState expectedPerms newState newPerms =>
      refine (h.changeMemoryState_post hc).mono ?_ ?_ (fun _ _ => trivial)
      · rintro _ vm' ⟨-, -, hb⟩
        exact hb.sound
      · rintro e vm' ⟨rfl, -⟩
        exact h

end VMManager

end Cytrus.Kernel
