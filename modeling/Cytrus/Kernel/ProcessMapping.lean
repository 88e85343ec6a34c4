import Cytrus.Kernel.BlockMapping

/-!
# What the mapping calls of a process do to its address space

`Process::Map`, `Process::Unmap` and `SharedMemory::Map` touch nothing but the
address space. Each lemma says what a success has done, that an error has
changed nothing (`Unmap` apart), and when the call aborts.
-/

namespace Cytrus.Kernel.Process

open Support Support.OrderedMap Support.Segment Memory VMManager
open Exec (post_bind post_require post_ite post_get post_read)

variable {host : Host} {vm vm' : VMManager} {target source size : Nat}
  {perms : VMAPermission} {privileged : Bool}

/-- The address lies in a free area that reaches to the end of the range. -/
def HasRoom (l : List VirtualMemoryArea) (target size : Nat) : Prop :=
  ∃ v ∈ l, v.type = .free ∧ v.base ≤ target ∧ target < v.base + v.size ∧
    target + size ≤ v.base + v.size

theorem HasRoom.inFree {l : List VirtualMemoryArea} (h : HasRoom l target size) :
    InFree l target (target + size) := by
  obtain ⟨v, hv, hfree, hlo, -, hle⟩ := h
  exact ⟨v, hv, hfree, hlo, hle⟩

/-- A range that does not wrap around passes the check exactly when there is room for it. -/
theorem requireFree_post (h : Sound host vm) :
    (requireFree target size).Post vm
      (fun _ vm' => vm' = vm ∧ target < maxAddress ∧
        (target + size < 2 ^ 32 → HasRoom vm.areas target size))
      (fun _ vm' => vm' = vm ∧ target < maxAddress ∧ ¬ HasRoom vm.areas target size)
      (fun _ => maxAddress ≤ target) := by
  have hlayout : vm.Layout vm.areas := h.wellFormed
  have hmax : maxAddress < 2 ^ 32 := by decide
  unfold requireFree
  rw [post_bind, post_get, post_bind]
  by_cases hlt : target < maxAddress
  · obtain ⟨pre, v, post, hsplit, hlo, hhi, hfind⟩ := hlayout.around hlt
    have hat : vm.Layout (pre ++ v :: post) := hsplit ▸ hlayout
    have hvmax := (hat.bounds (v := v) (by simp)).2
    rw [hfind, hat.post_deref, post_require, add32_of_lt (a := v.base) (by omega)]
    refine ⟨fun hcheck => ⟨rfl, hlt, fun hwrap => ?_⟩, fun hcheck => ⟨rfl, hlt, ?_⟩⟩
    · rw [add32_of_lt hwrap] at hcheck
      exact ⟨v, by simp [hsplit], hcheck.1, hlo, hhi, hcheck.2⟩
    · rintro ⟨w, hw, hwfree, hwlo, hwhi, hwle⟩
      rw [hsplit] at hw
      obtain rfl := hat.area_unique hw ⟨hlo, hhi⟩ ⟨hwlo, hwhi⟩
      exact hcheck ⟨hwfree, by rw [add32_of_lt (by omega)]; exact hwle⟩
  · rw [vm.findVMA_of_le (by omega)]
    simp only [deref, post_read]
    exact ⟨fun v hv => by simp at hv, fun _ => by omega⟩

/-! ## Changing the state of improper ranges -/

theorem allOf_same (p : VirtualMemoryArea → Bool) (last : VMAIter) (fuel : Nat) :
    ∀ it, (allOf p last fuel it).Post vm (fun _ vm' => vm' = vm) (fun _ _ => False)
      (fun _ => True) := by
  induction fuel with
  | zero => exact fun _ => trivial
  | succ fuel ih =>
      intro it
      rw [allOf, post_ite, post_bind]
      refine ⟨fun _ => rfl, fun _ => ?_⟩
      simp only [deref, post_read]
      refine ⟨fun v _ => ?_, fun _ => trivial⟩
      rw [post_ite, post_bind]
      refine ⟨fun _ => ?_, fun _ => rfl⟩
      simp only [next, post_read]
      exact ⟨fun after _ => ih after, fun _ => trivial⟩

section ChangeMemoryState

variable {expectedState newState : MemoryState} {expectedPerms newPerms : VMAPermission}

/-- A range that misses an assertion is never changed. -/
theorem changeMemoryState_improper (h : Sound host vm) (ht : target < 2 ^ 32)
    (hs : size < 2 ^ 32) (hp : ¬ Proper target size) :
    (changeMemoryState target size expectedState expectedPerms newState newPerms).Post vm
      (fun _ _ => False) (fun _ vm' => vm' = vm) (fun _ => True) := by
  unfold changeMemoryState
  rw [post_bind, post_get, post_ite]
  refine ⟨fun hlocked => by simp [h.unlocked] at hlocked, fun _ => ?_⟩
  rw [post_bind, post_require]
  refine ⟨fun _ => ?_, fun _ => rfl⟩
  rw [post_bind]
  refine (allOf_same _ _ _ _).mono ?_ (fun _ _ he => he.elim) (fun _ hf => hf)
  rintro expected vm₁ rfl
  rw [post_bind, post_require]
  refine ⟨fun _ => ?_, fun _ => rfl⟩
  rw [post_bind]
  exact (carveVMARange_improper ht hs hp).mono (fun _ _ hq => hq) (fun _ _ he => he)
    (fun _ _ => trivial)

/-- The check of an empty range looks at the area around its address unless one starts there;
when it passes, the assertion on the size fails. -/
def EmptyAborts (vm : VMManager) (expectedState : MemoryState) (expectedPerms : VMAPermission)
    (target : Nat) : Prop :=
  (∃ v ∈ vm.areas, v.base = target) ∨
    ∃ c, vm.view target = some c ∧ c.Expected expectedState expectedPerms

theorem changeMemoryState_empty (h : Sound host vm) (ht : target < maxAddress) :
    (changeMemoryState target 0 expectedState expectedPerms newState newPerms).Post vm
      (fun _ _ => False)
      (fun _ vm' => vm' = vm ∧ ¬ EmptyAborts vm expectedState expectedPerms target)
      (fun _ => EmptyAborts vm expectedState expectedPerms target) := by
  have hlayout : vm.Layout vm.areas := h.wellFormed
  have hmax : maxAddress < 2 ^ 32 := by decide
  have himproper : ¬ Proper target 0 := fun hp => absurd hp.pos (by omega)
  obtain ⟨pre, v, post, hsplit, hlo, hhi, hfind⟩ := hlayout.around ht
  have hat : vm.Layout (pre ++ v :: post) := hsplit ▸ hlayout
  have hlength : vm.vmaMap.length = pre.length + post.length + 1 := by
    have hmap := congrArg List.length hsplit
    simp only [areas, List.length_map, List.length_append, List.length_cons] at hmap
    omega
  have hbase : (∃ w ∈ vm.areas, w.base = target) ↔ v.base = target := by
    constructor
    · rintro ⟨w, hw, hwbase⟩
      have hwpos := (hlayout.bounds hw).1
      rw [hsplit] at hw
      obtain rfl := hat.area_unique hw ⟨hlo, hhi⟩ ⟨by omega, by omega⟩
      exact hwbase
    · exact fun heq => ⟨v, by simp [hsplit], heq⟩
  unfold changeMemoryState EmptyAborts
  rw [hbase, hat.view_eq hlo hhi]
  rw [post_bind, post_get, post_ite]
  refine ⟨fun hlocked => by simp [h.unlocked] at hlocked, fun _ => ?_⟩
  rw [add32_of_lt (by omega), Nat.add_zero, post_bind, post_require, hfind]
  refine ⟨fun _ => ?_, fun hnone => absurd (Option.some_ne_none v.base) hnone⟩
  rw [post_bind]
  have hpre : ∀ w ∈ pre, w.base < target := by
    intro w hw
    have hwlo := (hat.pre_tiled.start_lt hw).2
    simp only [VirtualMemoryArea.start_eq, VirtualMemoryArea.stop_eq] at hwlo
    omega
  by_cases heq : v.base = target
  · -- the range ends where it starts: no area is looked at
    have hlower : lowerBound vm.vmaMap target = (v :: post).head?.map (·.base) :=
      hat.lowerBound_eq hpre (by simp [heq])
    rw [hlower]
    refine (allOf_post _ [] (vm.vmaMap.length + 1) pre (by simp) hat).mono ?_ (fun _ _ he => he.elim) (fun _ hf => hf.elim)
    rintro expected vm₁ ⟨rfl, rfl⟩
    rw [post_bind, post_require]
    refine ⟨fun _ => ?_, fun hnot => by simp at hnot⟩
    rw [post_bind]
    exact (carveVMARange_improper (by omega) (by omega) himproper).mono (fun _ _ hq => hq)
      (fun _ _ he => he) (fun _ _ => .inl heq)
  · have hnext : ∀ w ∈ post.head?, target ≤ w.base := by
      intro w hw
      have hwlo := (hat.post_tiled.start_lt (List.mem_of_mem_head? hw)).1
      simp only [VirtualMemoryArea.start_eq] at hwlo
      omega
    have hlower : lowerBound vm.vmaMap target = post.head?.map (·.base) := by
      have hat' : vm.Layout ((pre ++ [v]) ++ post) := by simpa using hat
      refine hat'.lowerBound_eq (fun w hw => ?_) hnext
      simp only [List.mem_append, List.mem_singleton] at hw
      rcases hw with hw | rfl
      · exact hpre w hw
      · omega
    rw [hlower]
    refine (allOf_post _ [v] (vm.vmaMap.length + 1) pre (by simp; omega) hat).mono ?_ (fun _ _ he => he.elim) (fun _ hf => hf.elim)
    rintro expected vm₁ ⟨rfl, rfl⟩
    rw [post_bind, post_require]
    have hiff : ([v].all fun vma =>
        vma.meminfoState = expectedState && vma.permissions.includes expectedPerms) = true ↔
          ∃ c, some (v.cell target) = some c ∧ c.Expected expectedState expectedPerms := by
      simp [Cell.Expected, VirtualMemoryArea.cell]
    rw [hiff]
    refine ⟨fun hexp => ?_, fun hnot => ⟨rfl, fun hcon => hcon.elim heq hnot⟩⟩
    rw [post_bind]
    exact (carveVMARange_improper (by omega) (by omega) himproper).mono (fun _ _ hq => hq)
      (fun _ _ he => he) (fun _ _ => .inr hexp)

/-- The loop invariant under which a free area survives: it is still there, and the areas to
come are mapped. -/
def FreeArea (w : VirtualMemoryArea) (targetEnd : Nat) (left right : List VirtualMemoryArea) :
    Prop :=
  (w ∈ left ∨ w ∈ right) ∧ ∀ v ∈ right, v.base < targetEnd → v.type ≠ .free

theorem freeArea_survives {w : VirtualMemoryArea} (hw : w.type = .free) (targetEnd : Nat) :
    Survives (.restated newState newPerms) targetEnd (FreeArea w targetEnd) := by
  rintro left v right _ hlt ⟨hmem, hmapped⟩
  have hv : v.type ≠ .free := hmapped v (by simp) hlt
  have hne : w ≠ v := fun heq => hv (heq ▸ hw)
  have hside : w ∈ left ∨ w ∈ right := by simpa [hne] using hmem
  have hmerge := mem_merge_of_type_ne
    (Zipper.mk left (v.restated newState newPerms) right) hside (by
      rw [hw]
      exact fun hcon => hv hcon.symm)
  refine ⟨hmerge.imp (fun hl => List.mem_cons_of_mem _ hl) id, fun u hu => ?_⟩
  have hright : u ∈ right := by
    rcases merge_right_cases (Zipper.mk left (v.restated newState newPerms) right) with
      heq | ⟨n, rest, hn, -, heq⟩
    · rw [visited, heq] at hu
      exact hu
    · rw [visited, heq] at hu
      have hu' : u ∈ rest := hu
      rw [show right = n :: rest from hn]
      exact List.mem_cons_of_mem _ hu'
  exact hmapped u (List.mem_cons_of_mem _ hright)

theorem mem_cutAt_of_outside {w : VirtualMemoryArea} {l : List VirtualMemoryArea} {a : Nat}
    (hw : w ∈ l) (hout : ¬ (w.base < a ∧ a < w.base + w.size)) : w ∈ cutAt a l := by
  rcases cutAt_cases a l with ⟨heq, -⟩ | ⟨pre, v, post, rfl, hlo, hhi, heq⟩
  · rwa [heq]
  · rw [heq]
    simp only [List.mem_append, List.mem_cons] at hw ⊢
    rcases hw with hw | rfl | hw
    · exact .inl hw
    · exact (hout ⟨hlo, hhi⟩).elim
    · exact .inr (.inr (.inr hw))

theorem freeArea_start {w : VirtualMemoryArea} {l : List VirtualMemoryArea}
    (h : Tiled 0 l maxAddress) (hpos : 0 < size) (hw : w ∈ l) (hfree : w.type = .free) :
    Started l target size (FreeArea w (target + size)) := by
  intro left v right hlist hbase hthrough _ _
  have haway : ¬ (w.base < target + size ∧ target < w.base + w.size) :=
    fun hmeet => hthrough w hw hmeet.1 hmeet.2 hfree
  have hcut : w ∈ cutAt (target + size) (cutAt target l) :=
    mem_cutAt_of_outside (mem_cutAt_of_outside hw (by omega)) (by omega)
  have htiled := tiled_cutAt (tiled_cutAt h target) (target + size)
  rw [hlist, Zipper.areas] at hcut htiled
  refine ⟨by simpa using hcut, fun u hu hlt hutype => ?_⟩
  -- an area of the carved range is part of an area that meets it
  have hu' : u ∈ cutAt (target + size) (cutAt target l) := by
    rw [hlist, Zipper.areas]
    exact List.mem_append_right _ hu
  obtain ⟨x, hx, hxtype, -, -, hxlo, hxhi⟩ := mem_cutAt hu'
  obtain ⟨y, hy, hytype, -, -, hylo, hyhi⟩ := mem_cutAt hx
  obtain ⟨mid, -, hright⟩ := tiled_append.mp htiled
  have hmid : target = mid := by rw [← hbase]; exact hright.1
  obtain ⟨hulo, hupos, -⟩ := hright.start_lt hu
  simp only [VirtualMemoryArea.start_eq, VirtualMemoryArea.stop_eq] at hulo hupos
  exact hthrough y hy (by omega) (by omega) (by rw [← hytype, ← hxtype]; exact hutype)

theorem changeMemoryState_free {w : VirtualMemoryArea} (h : Sound host vm)
    (hp : Proper target size) (hw : w ∈ vm.areas) (hfree : w.type = .free) :
    (changeMemoryState target size expectedState expectedPerms newState newPerms).Post vm
      (fun _ vm' => w ∈ vm'.areas) (fun _ _ => True) (fun _ => True) := by
  have hlayout : vm.Layout vm.areas := h.wellFormed
  refine (changeMemoryState_loop (freeArea_survives hfree _)
    (fun _ => freeArea_start hlayout.tiled hp.pos hw hfree) h.unlocked hlayout hp).mono ?_
    (fun _ _ _ => trivial) (fun _ _ => trivial)
  rintro _ vm' ⟨-, -, left, right, hnow, ⟨hmem, -⟩, -⟩
  rw [hnow.layout.areas_eq]
  simpa using hmem

end ChangeMemoryState

/-! ## Map -/

/-- The state of the target range, by privilege. -/
def aliasState (privileged : Bool) : MemoryState := if privileged then .aliasCode else .aliasMem

/-- The permissions of the source range, by privilege. -/
def aliasedPerms (privileged : Bool) : VMAPermission := if privileged then .none else .readWrite

/-- What a `Map` between two ranges has done: the source range is marked, and its blocks are laid
into the target range. -/
structure MappedTo (host : Host) (vm : VMManager) (target source size : Nat)
    (perms : VMAPermission) (privileged : Bool) (vm' : VMManager) : Prop where
  proper : Proper source size
  apart : overlaps target source size = false
  room : HasRoom vm.areas target size
  mapped : vm.Everywhere Cell.IsMapped source (source + size)
  expected : vm.Everywhere (Cell.Expected .privateMem .readWrite) source (source + size)
  laid : ∃ vm₁ blocks spill,
    Becomes host vm (onRange source (source + size) fun _ c =>
      { c with permissions := aliasedPerms privileged, meminfoState := aliasedState privileged })
      vm₁ ∧
    Behind host vm source size blocks ∧
    Laid host vm₁ target blocks (aliasState privileged) perms spill vm'

/-- What a privileged `Map` of a range onto itself has done. -/
structure MappedInPlace (host : Host) (vm : VMManager) (target source size : Nat)
    (perms : VMAPermission) (privileged : Bool) (vm' : VMManager) : Prop where
  privileged : privileged = true
  same : source = target
  proper : Proper target size
  becomes : Becomes host vm (onRange target (target + size) fun _ c =>
    { c with permissions := perms, meminfoState := .aliasCode }) vm'

/-- When an unprivileged `Map` aborts: the target is not managed, or both sizes are zero and the
checks pass. -/
def MapAborts (vm : VMManager) (target source size : Nat) : Prop :=
  inHeap source size = true ∧ overlaps target source size = false ∧
    (maxAddress ≤ target ∨
      size = 0 ∧ HasRoom vm.areas target 0 ∧ EmptyAborts vm .privateMem .readWrite source)

/-- The arguments `ControlMemory` passes on. -/
structure Admitted (target source size : Nat) (privileged : Bool) : Prop where
  target_dvd : pageSize ∣ target
  source_dvd : pageSize ∣ source
  size_dvd : pageSize ∣ size
  unprivileged : privileged = false

theorem inHeap_iff (ht : target < 2 ^ 32) (hs : size < 2 ^ 32) :
    inHeap target size = true ↔ heapVaddr ≤ target ∧ target + size ≤ heapVaddrEnd := by
  unfold inHeap add32 heapVaddr heapVaddrEnd
  simp only [Bool.and_eq_true, decide_eq_true_eq]
  omega

theorem proper_of_inHeap (ht : target < 2 ^ 32) (hs : size < 2 ^ 32)
    (hin : inHeap target size = true) (htd : pageSize ∣ target) (hsd : pageSize ∣ size)
    (hpos : 0 < size) : Proper target size := by
  obtain ⟨-, hle⟩ := (inHeap_iff ht hs).mp hin
  have hend : heapVaddrEnd ≤ maxAddress := by decide
  exact ⟨htd, hsd, hpos, by omega⟩

theorem Behind.of_becomes {update : Nat → Option Cell → Option Cell}
    {blocks : List (MemoryRef × Nat)} {vm₁ : VMManager} (hb : Becomes host vm update vm₁)
    (hkeep : ∀ a c c', update a (some c) = some c' → c.type = c'.type ∧ c.pointer = c'.pointer)
    (hnone : ∀ a, update a none = none) (h : Behind host vm₁ source size blocks) :
    Behind host vm source size blocks where
  size_eq := h.size_eq
  held := h.held
  cell a hlo hhi := by
    obtain ⟨c', hc', htype, hptr⟩ := h.cell a hlo hhi
    rw [hb.view] at hc'
    cases hc : vm.view a with
    | none =>
        rw [hc, hnone] at hc'
        cases hc'
    | some c =>
        rw [hc] at hc'
        obtain ⟨ht, hp⟩ := hkeep a c c' hc'
        exact ⟨c, rfl, ht.trans htype, hp.trans hptr⟩

theorem le_blocksSize {blocks : List (MemoryRef × Nat)} {b : MemoryRef × Nat}
    (hb : b ∈ blocks) : b.2 ≤ blocksSize blocks :=
  List.le_sum_of_mem (List.mem_map_of_mem hb)

theorem mapAlias_post {vm₁ : VMManager} {update : Cell → Cell} {state : MemoryState}
    (h₁ : Becomes host vm (onRange source (source + size) fun _ => update) vm₁)
    (hkeep : ∀ c, (update c).type = c.type ∧ (update c).pointer = c.pointer)
    (hmapped : vm.Everywhere Cell.IsMapped source (source + size)) (hp : Proper source size)
    (ht : target < 2 ^ 32) (hs : size < 2 ^ 32)
    (hfree : InFree vm₁.areas target (target + size)) :
    (getBackingBlocksForRange source size >>= fun backingBlocks =>
        mapBlocks state perms backingBlocks target).Post vm₁
      (fun _ vm' => ∃ blocks spill, Behind host vm source size blocks ∧
        Laid host vm₁ target blocks state perms spill vm')
      (fun _ _ => False) (fun _ => ¬ pageSize ∣ target) := by
  have hview : ∀ a c, vm.view a = some c → ∃ c', vm₁.view a = some c' ∧ c'.type = c.type := by
    intro a c hc
    rw [h₁.view, hc, onRange]
    by_cases ha : source ≤ a ∧ a < source + size
    · rw [if_pos ha]
      exact ⟨update c, rfl, (hkeep c).1⟩
    · rw [if_neg ha]
      exact ⟨c, rfl, rfl⟩
  rw [post_bind]
  refine (getBackingBlocksForRange_post h₁.sound hp).mono ?_ ?_ (fun _ hf => hf.elim)
  · rintro blocks vm₂ ⟨rfl, hbehind⟩
    refine (mapBlocks_post blocks vm₂ target h₁.sound ht fun b hb => ⟨(hbehind.held b hb).1, ?_⟩).mono
      ?_ (fun _ _ he => he) ?_
    · have hle := le_blocksSize hb
      rw [hbehind.size_eq] at hle
      omega
    · rintro _ vm' ⟨spill, hlaid⟩
      refine ⟨blocks, spill, Behind.of_becomes h₁ ?_ ?_ hbehind, hlaid⟩
      · intro a c c' hc
        unfold onRange at hc
        by_cases ha : source ≤ a ∧ a < source + size
        · rw [if_pos ha, Option.map_some, Option.some.injEq] at hc
          rw [← hc]
          exact ⟨(hkeep c).1.symm, (hkeep c).2.symm⟩
        · rw [if_neg ha, Option.some.injEq] at hc
          rw [hc]
          exact ⟨rfl, rfl⟩
      · intro a
        unfold onRange
        by_cases ha : source ≤ a ∧ a < source + size
        · rw [if_pos ha]
          rfl
        · rw [if_neg ha]
    · rintro f ⟨-, hnot⟩ htd
      rw [hbehind.size_eq] at hnot
      exact hnot ⟨⟨htd, fun b hb => (hbehind.held b hb).2⟩, hfree⟩
  · rintro e vm₂ ⟨-, hnot⟩
    refine hnot fun a hlo hhi => ?_
    obtain ⟨c, hc, hcm⟩ := hmapped a hlo hhi
    obtain ⟨c', hc', htype⟩ := hview a c hc
    exact ⟨c', hc', by rw [Cell.IsMapped, htype]; exact hcm⟩

theorem mapApart_post (h : Sound host vm) (ht : target < maxAddress) (hsrc : source < 2 ^ 32)
    (hs : size < 2 ^ 32) (hin : privileged = true ∨ inHeap source size = true)
    (hapart : overlaps target source size = false)
    (hroom : target + size < 2 ^ 32 → HasRoom vm.areas target size) :
    (changeMemoryState source size .privateMem .readWrite (aliasedState privileged)
        (aliasedPerms privileged) >>= fun _ =>
      getBackingBlocksForRange source size >>= fun backingBlocks =>
        mapBlocks (aliasState privileged) perms backingBlocks target).Post vm
      (fun _ vm' => MappedTo host vm target source size perms privileged vm')
      (fun _ vm' => vm' = vm ∧
        (Admitted target source size privileged → ¬ MapAborts vm target source size))
      (fun _ => Admitted target source size privileged → MapAborts vm target source size) := by
  have hmax : maxAddress < 2 ^ 31 := by decide
  rw [post_bind]
  by_cases hp : Proper source size
  · have hle := hp.le_max
    have hpos := hp.pos
    have hroom := hroom (by omega)
    obtain ⟨w, hw, hwfree, hwlo, hwhi, hwle⟩ := hroom
    refine ((h.changeMemoryState_post hp).and (changeMemoryState_free h hp hw hwfree)).mono ?_ ?_
      (fun _ hf => hf.1.elim)
    · rintro _ vm₁ ⟨⟨hmapped, hexpected, hbecomes⟩, hw₁⟩
      refine (mapAlias_post hbecomes (fun c => ⟨rfl, rfl⟩) hmapped hp (by omega) hs
        ⟨w, hw₁, hwfree, hwlo, hwle⟩).mono ?_ (fun _ _ he => he.elim)
        (fun _ hf hadm => (hf hadm.target_dvd).elim)
      rintro _ vm' ⟨blocks, spill, hbehind, hlaid⟩
      exact ⟨hp, hapart, ⟨w, hw, hwfree, hwlo, hwhi, hwle⟩, hmapped, hexpected, vm₁, blocks,
        spill, hbecomes, hbehind, hlaid⟩
    · rintro e vm' ⟨⟨rfl, -⟩, -⟩
      refine ⟨rfl, fun _ => ?_⟩
      rintro ⟨-, -, hfar | ⟨hzero, -⟩⟩ <;> omega
  · by_cases hadm : Admitted target source size privileged
    · have hinHeap : inHeap source size = true := by simpa [hadm.unprivileged] using hin
      have hzero : size = 0 := by
        by_contra hne
        exact hp (proper_of_inHeap hsrc hs hinHeap hadm.source_dvd hadm.size_dvd (by omega))
      subst hzero
      have hsource : source < maxAddress := by
        have hend := ((inHeap_iff hsrc hs).mp hinHeap).2
        have hlt : heapVaddrEnd < maxAddress := by decide
        omega
      refine (changeMemoryState_empty h hsource).mono (fun _ _ hq => hq.elim) ?_ ?_
      · rintro e vm' ⟨rfl, hnot⟩
        refine ⟨rfl, fun _ => ?_⟩
        rintro ⟨-, -, hfar | ⟨-, -, hempty⟩⟩
        · omega
        · exact hnot hempty
      · intro f hempty _
        exact ⟨hinHeap, hapart, .inr ⟨rfl, hroom (by omega), hempty⟩⟩
    · exact (changeMemoryState_improper h hsrc hs hp).mono (fun _ _ hq => hq.elim)
        (fun _ _ heq => ⟨heq, fun hcon => (hadm hcon).elim⟩) (fun _ _ hcon => (hadm hcon).elim)

theorem map_post (h : Sound host vm) (hsrc : source < 2 ^ 32) (hs : size < 2 ^ 32) :
    (map target source size perms privileged).Post vm
      (fun _ vm' => MappedTo host vm target source size perms privileged vm' ∨
        MappedInPlace host vm target source size perms privileged vm')
      (fun _ vm' => vm' = vm ∧
        (Admitted target source size privileged → ¬ MapAborts vm target source size))
      (fun _ => Admitted target source size privileged → MapAborts vm target source size) := by
  unfold map
  rw [post_bind, post_require]
  refine ⟨fun hin => ?_, fun hout => ⟨rfl, fun hadm hcon => hout (.inr hcon.1)⟩⟩
  rw [post_ite]
  refine ⟨fun hover => ?_, fun hapart => ?_⟩
  · have hno : ¬ MapAborts vm target source size := fun hcon => by simp [hcon.2.1] at hover
    rw [post_ite, post_ite]
    refine ⟨fun hpriv => ⟨fun hsame => ?_, fun _ => ⟨rfl, fun _ => hno⟩⟩,
      fun _ => ⟨rfl, fun _ => hno⟩⟩
    have hnadm : ¬ Admitted target source size privileged := fun hadm => by
      simp [hadm.unprivileged] at hpriv
    by_cases hp : Proper source size
    · refine (h.changeMemoryState_post hp).mono ?_ ?_ (fun _ hf => hf.elim)
      · rintro _ vm' ⟨-, -, hbecomes⟩
        exact .inr ⟨hpriv, hsame, hsame ▸ hp, hsame ▸ hbecomes⟩
      · rintro e vm' ⟨rfl, -⟩
        exact ⟨rfl, fun hadm => (hnadm hadm).elim⟩
    · exact (changeMemoryState_improper h hsrc hs hp).mono (fun _ _ hq => hq.elim)
        (fun _ _ heq => ⟨heq, fun hadm => (hnadm hadm).elim⟩) (fun _ _ hadm => (hnadm hadm).elim)
  · have hapart' : overlaps target source size = false := by simpa using hapart
    rw [post_bind]
    refine (requireFree_post h).mono ?_ ?_ ?_
    · rintro _ vm₁ ⟨rfl, hlt, hroom⟩
      exact (mapApart_post h hlt hsrc hs hin hapart' hroom).mono (fun _ _ hq => .inl hq)
        (fun _ _ he => he) (fun _ hf => hf)
    · rintro e vm' ⟨rfl, hlt, hnone⟩
      refine ⟨rfl, fun _ => ?_⟩
      rintro ⟨-, -, hfar | ⟨rfl, hroom, -⟩⟩
      · omega
      · exact hnone hroom
    · intro f hfar hadm
      have hinHeap : inHeap source size = true := by simpa [hadm.unprivileged] using hin
      exact ⟨hinHeap, hapart', .inl hfar⟩

/-! ## Unmap -/

/-- The first half of an unprivileged `Unmap` goes through: the target range is unmapped. -/
structure UnmapsTarget (vm : VMManager) (target source size : Nat) : Prop where
  inHeap : inHeap source size = true
  apart : overlaps target source size = false
  proper : Proper target size
  mapped : vm.Everywhere Cell.IsMapped target (target + size)

/-- When an unprivileged `Unmap` aborts. -/
def UnmapAborts (target source size : Nat) : Prop :=
  inHeap source size = true ∧ overlaps target source size = false ∧
    (size = 0 ∨ maxAddress < target + size)

/-- The target range is free, and everything else is as it was. -/
def UnmappedTarget (host : Host) (vm : VMManager) (target size : Nat) (vm' : VMManager) : Prop :=
  Becomes host vm (onRange target (target + size) fun _ _ => freeCell) vm'

theorem unmap_post (h : Sound host vm) (ht : target < 2 ^ 32) (hsrc : source < 2 ^ 32)
    (hs : size < 2 ^ 32) (htd : pageSize ∣ target) (hsrcd : pageSize ∣ source)
    (hsd : pageSize ∣ size) :
    (unmap target source size perms false).Post vm
      (fun _ vm' => UnmapsTarget vm target source size ∧ ∃ vm₁,
        UnmappedTarget host vm target size vm₁ ∧
        Becomes host vm₁ (onRange source (source + size) fun _ c =>
          { c with permissions := perms, meminfoState := .privateMem }) vm')
      (fun _ vm' => ¬ UnmapAborts target source size ∧
        (vm' = vm ∧ ¬ UnmapsTarget vm target source size ∨
          UnmapsTarget vm target source size ∧ UnmappedTarget host vm target size vm'))
      (fun _ => UnmapAborts target source size) := by
  have hproper : Proper target size ↔ ¬ (size = 0 ∨ maxAddress < target + size) := by
    constructor
    · intro hp
      have hpos := hp.pos
      have hle := hp.le_max
      omega
    · intro hnot
      exact ⟨htd, hsd, by omega, by omega⟩
  unfold unmap
  rw [post_bind, post_require]
  simp only [Bool.false_eq_true, false_or]
  refine ⟨fun hin => ?_, fun hout => ⟨fun hcon => hout hcon.1, .inl ⟨trivial, fun hcon => ?_⟩⟩⟩
  · rw [post_ite]
    refine ⟨fun hover => ?_, fun hapart => ?_⟩
    · refine ⟨?_, .inl ⟨rfl, ?_⟩⟩
      · rintro ⟨-, hcon, -⟩
        simp [hcon] at hover
      · intro hcon
        simp [hcon.apart] at hover
    · have hapart' : overlaps target source size = false := by simpa using hapart
      rw [post_bind]
      refine (h.unmapRange_post ht hs).mono ?_ ?_ ?_
      · rintro _ vm₁ ⟨hp, hmapped, hfree⟩
        have hsp := proper_of_inHeap hsrc hs hin hsrcd hsd hp.pos
        have hunmaps : UnmapsTarget vm target source size := ⟨hin, hapart', hp, hmapped⟩
        refine (hfree.sound.changeMemoryState_post hsp).mono ?_ ?_ (fun _ hf => hf.elim)
        · rintro _ vm' ⟨-, -, hbecomes⟩
          exact ⟨hunmaps, vm₁, hfree, hbecomes⟩
        · rintro e vm' ⟨rfl, -⟩
          exact ⟨fun hcon => hproper.mp hp hcon.2.2, .inr ⟨hunmaps, hfree⟩⟩
      · rintro e vm' ⟨rfl, hp, hnot⟩
        exact ⟨fun hcon => hproper.mp hp hcon.2.2, .inl ⟨rfl, fun hcon => hnot hcon.mapped⟩⟩
      · intro f hp
        exact ⟨hin, hapart', by_contra fun hcon => hp (hproper.mpr hcon)⟩
  · exact hout hcon.inHeap

theorem UnmappedTarget.ne (hp : 0 < size) (hm : vm.Everywhere Cell.IsMapped target (target + size))
    (h : UnmappedTarget host vm target size vm') : vm' ≠ vm := by
  intro heq
  obtain ⟨c, hc, hmapped⟩ := hm target (le_refl target) (by omega)
  have hview := h.view target
  rw [heq, hc, onRange, if_pos ⟨le_refl target, by omega⟩, Option.map_some,
    Option.some.injEq] at hview
  exact hmapped (by rw [hview]; rfl)

end Cytrus.Kernel.Process

namespace Cytrus.Kernel.SharedMemory

open Support Memory VMManager Process

variable {host : Host} {vm : VMManager}

/-- A block of shared memory as it is created: its size is that of its blocks, which lie in
host buffers. -/
structure Created (host : Host) (memory : SharedMemory) : Prop where
  size_eq : blocksSize memory.backingBlocks = memory.size
  size_lt : memory.size < 2 ^ 32
  held : ∀ b ∈ memory.backingBlocks, host.Holds b.1 b.2

theorem targetAddress_lt (memory : SharedMemory) {address : Nat} (h : address < 2 ^ 32) :
    memory.targetAddress address < 2 ^ 32 := by
  unfold targetAddress
  by_cases hauto : memory.baseAddress = 0 ∧ address = 0
  · rw [if_pos hauto]
    exact add32_lt _ _
  · rw [if_neg hauto]
    exact h

theorem map_post {memory : SharedMemory} {isOwner : Bool} {address : Nat}
    {permissions otherPermissions : MemoryPermission} (h : Sound host vm)
    (hm : memory.Created host) (ha : address < 2 ^ 32) :
    (memory.map isOwner address permissions otherPermissions).Post vm
      (fun _ vm' => ∃ spill, Laid host vm (memory.targetAddress address) memory.backingBlocks
        .shared (convertPermissions permissions) spill vm')
      (fun _ vm' => vm' = vm) (fun _ => True) := by
  unfold SharedMemory.map
  simp only [Exec.post_bind, Exec.post_require]
  refine ⟨fun _ => ⟨fun _ => ⟨fun _ => ⟨fun _ => ⟨fun _ => ?_, fun _ => trivial⟩, fun _ => trivial⟩,
    fun _ => trivial⟩, fun _ => trivial⟩, fun _ => trivial⟩
  refine (requireFree_post h).mono ?_ (fun _ _ he => he.1) (fun _ _ => trivial)
  rintro _ vm₁ ⟨rfl, -, -⟩
  refine (mapBlocks_post memory.backingBlocks vm₁ _ h (memory.targetAddress_lt ha)
    fun b hb => ⟨hm.held b hb, ?_⟩).mono (fun _ _ hq => hq) (fun _ _ he => he.elim)
    (fun _ _ => trivial)
  have hle := le_blocksSize hb
  rw [hm.size_eq] at hle
  exact lt_of_le_of_lt hle hm.size_lt

end Cytrus.Kernel.SharedMemory
