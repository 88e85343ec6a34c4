import Cytrus.Kernel.VMLayout

/-!
# What the helpers of the address space do to its list of areas

One lemma for each helper, from a layout to a layout. The range calls are
then one loop rule: an invariant of the zipper that survives a visit.

## Implementation notes

The only abort left in these lemmas is the bounds assertion of a host memory
reference, which a split meets when the buffer behind an area is shorter than
the area.
-/

namespace Cytrus.Kernel.VMManager

open Support Support.OrderedMap Support.Segment Memory
open VirtualMemoryArea (start_eq stop_eq length_eq)
open Exec (post_bind post_pure post_ite post_modify post_assert post_get post_when)

variable {vm vm' : VMManager} {l pre post left right : List VirtualMemoryArea}
  {v w : VirtualMemoryArea} {a b : Nat} {E : ResultCode → VMManager → Prop} {F : Fault → Prop}

/-- The state after a call: its areas, and what no call but `Unlock` changes. -/
structure Now (vm : VMManager) (l : List VirtualMemoryArea) (vm' : VMManager) : Prop where
  layout : vm'.Layout l
  locked : vm'.isLocked = vm.isLocked

theorem Now.trans {vm'' : VMManager} (h : vm.Now l vm') (h' : vm'.Now right vm'') :
    vm.Now right vm'' :=
  ⟨h'.layout, h'.locked.trans h.locked⟩

theorem Layout.now (h : vm.Layout l) : vm.Now l vm := ⟨h, rfl⟩

theorem Layout.post_deref (h : vm.Layout (pre ++ v :: post))
    {Q : VirtualMemoryArea → VMManager → Prop} :
    (deref (some v.base)).Post vm Q E F ↔ Q v vm := by
  simp [deref, h.at?_base]

theorem Layout.post_next (h : vm.Layout (pre ++ v :: post)) {Q : VMAIter → VMManager → Prop} :
    (next (some v.base)).Post vm Q E F ↔ Q (post.head?.map (·.base)) vm := by
  have hsize := (h.bounds (v := v) (by simp)).1
  simp [next, h.upperBound_eq (a := v.base) le_rfl (by omega)]

theorem post_assertUnlocked (hu : vm.isLocked = false) {Q : PUnit → VMManager → Prop} :
    assertUnlocked.Post vm Q E F ↔ Q ⟨⟩ vm := by
  simp [assertUnlocked, hu]

theorem aligned_iff {n : Nat} : n &&& pageMask = 0 ↔ pageSize ∣ n := by
  have hmask : n &&& pageMask = n % pageSize := Nat.and_two_pow_sub_one_eq_mod n 12
  rw [hmask, Nat.dvd_iff_mod_eq_zero]

theorem post_assertAligned {n : Nat} {Q : PUnit → VMManager → Prop} :
    (assertAligned n).Post vm Q E F ↔
      (pageSize ∣ n → Q ⟨⟩ vm) ∧ (¬ pageSize ∣ n → F .assertFailed) := by
  simp [assertAligned, aligned_iff]

theorem Layout.base_dvd (h : vm.Layout (pre ++ v :: post)) : pageSize ∣ v.base :=
  h.pre_tiled.dvd (dvd_zero _) fun v hv => h.paged v (by simp [hv])

/-! ## Splitting -/

theorem post_splitBackingMemory {Q : MemoryRef → VMManager → Prop} :
    (splitBackingMemory v (a - v.base)).Post vm Q E F ↔
      (v.CutOk a → Q (v.dropTo a).backingMemory vm) ∧ (¬ v.CutOk a → F .memoryRefOffset) := by
  unfold splitBackingMemory VirtualMemoryArea.CutOk VirtualMemoryArea.dropTo
  cases hv : v.type with
  | free => simp
  | backingMemory => simp [MemoryRef.advance]

theorem Layout.cut (h : vm.Layout (pre ++ v :: post)) (hlo : v.base < a)
    (hhi : a < v.base + v.size) (ha : pageSize ∣ a)
    (hmap : vm'.vmaMap = emplace (write vm.vmaMap v.base (v.takeTo a)) a (v.dropTo a)) :
    vm'.Layout (pre ++ v.takeTo a :: v.dropTo a :: post) := by
  refine ⟨?_, tiled_cut h.tiled hlo hhi, ?_⟩
  · have hsorted := h.sorted_split
    rw [hmap, h.map_split, write_split hsorted, List.append_cons, emplace_append]
    · simp
    · intro e he
      rcases List.mem_append.mp he with he | he
      · exact (hsorted.lt_of_mem_pre e he).trans hlo
      · rw [List.mem_singleton.mp he]
        exact hlo
    · intro e he
      obtain ⟨hkey, hmem⟩ := mem_entries.mp (List.mem_of_mem_head? he)
      have hb := (h.post_tiled.start_lt hmem).1
      simp only [start_eq] at hb
      omega
  · have hbase := h.base_dvd
    have hsize := h.paged v (by simp)
    intro w hw
    simp only [List.mem_append, List.mem_cons] at hw
    rcases hw with hw | rfl | rfl | hw
    · exact h.paged w (by simp [hw])
    · exact Nat.dvd_sub ha hbase
    · exact Nat.dvd_sub (hbase.add hsize) ha
    · exact h.paged w (by simp [hw])

theorem splitVMA_post (h : vm.Layout (pre ++ v :: post)) (hlo : v.base < a)
    (hhi : a < v.base + v.size) (ha : pageSize ∣ a) :
    (splitVMA (some v.base) (a - v.base)).Post vm
      (fun it vm' => it = some a ∧ v.CutOk a ∧
        vm.Now (pre ++ v.takeTo a :: v.dropTo a :: post) vm')
      (fun _ _ => False) (fun f => f = .memoryRefOffset ∧ ¬ v.CutOk a) := by
  have hmax := (h.bounds (v := v) (by simp)).2
  have hmax' : maxAddress < 2 ^ 32 := by decide
  have hadd : add32 v.base (a - v.base) = a := by
    rw [add32_of_lt (by omega)]
    omega
  have hsub : sub32 v.size (a - v.base) = v.base + v.size - a := by
    rw [sub32_of_le (by omega) (by omega)]
    omega
  unfold splitVMA
  simp only [post_bind, h.post_deref, post_assert, post_splitBackingMemory]
  refine ⟨fun _ => ⟨fun _ => ⟨fun hcut => ?_, fun hcut => ⟨trivial, hcut⟩⟩, by omega⟩, by omega⟩
  have hright : ({ v with
      base := add32 v.base (a - v.base)
      size := sub32 v.size (a - v.base)
      backingMemory := (v.dropTo a).backingMemory } : VirtualMemoryArea) = v.dropTo a := by
    rw [hadd, hsub]
    rfl
  have hleft : ({ v with size := a - v.base } : VirtualMemoryArea) = v.takeTo a := rfl
  have htouch : add32 (v.takeTo a).base (v.takeTo a).size = (v.dropTo a).base := hadd
  rw [hright, hleft, hadd]
  simp only [store, canBeMergedWith, post_modify, post_bind, post_assert,
    post_pure, VirtualMemoryArea.takeTo_canBeMergedWith_dropTo hcut]
  exact ⟨fun _ => ⟨fun _ => ⟨trivial, hcut, h.cut hlo hhi ha rfl, rfl⟩, fun hne => (hne trivial).elim⟩,
    fun hne => (hne htouch).elim⟩

/-! ## Merging -/

theorem Layout.join (h : vm.Layout (pre ++ v :: w :: post))
    (hmap : vm'.vmaMap = erase (write vm.vmaMap v.base (v.extend w)) w.base) :
    vm'.Layout (pre ++ v.extend w :: post) := by
  refine ⟨?_, tiled_join h.tiled, ?_⟩
  · have hsorted := h.sorted_split
    rw [hmap, h.map_split, write_split hsorted, entries_cons, List.append_cons, erase_split]
    · simp
    · simpa using hsorted.replace (v.extend w)
  · intro u hu
    simp only [List.mem_append, List.mem_cons] at hu
    rcases hu with hu | rfl | hu
    · exact h.paged u (by simp [hu])
    · exact (h.paged v (by simp)).add (h.paged w (by simp))
    · exact h.paged u (by simp [hu])

/-- Areas that follow each other in a layout touch, and joining them does not wrap around. -/
theorem Layout.touch (h : vm.Layout (pre ++ v :: w :: post)) :
    add32 v.base v.size = w.base ∧ add32 v.size w.size = v.size + w.size := by
  have hbase := h.post_tiled.1
  have hmax := (h.bounds (v := w) (by simp)).2
  have hmax' : maxAddress < 2 ^ 32 := by decide
  simp only [start_eq] at hbase
  exact ⟨by rw [add32_of_lt (by omega), hbase], add32_of_lt (by omega)⟩

theorem mergeNext_post (z : Zipper) (h : vm.Layout z.areas) :
    (mergeNext (some z.focus.base)).Post vm (fun _ vm' => vm.Now z.mergeNext.areas vm')
      (fun _ _ => False) (fun _ => False) := by
  obtain ⟨left, focus, right⟩ := z
  unfold mergeNext Zipper.mergeNext
  rw [post_bind, h.post_next, post_when]
  cases right with
  | nil => simpa using h.now
  | cons n rest =>
      obtain ⟨htouch, hsize⟩ := Layout.touch h
      have hn : vm.Layout ((left.reverse ++ [focus]) ++ n :: rest) := by
        simpa [Zipper.areas] using h
      simp only [post_bind, h.post_deref, post_when, hn.post_deref, canBeMergedWith,
        post_assert, post_pure, store, post_modify, List.head?_cons,
        Option.map_some, hsize, Option.elim_some]
      refine ⟨fun _ => ⟨fun _ => ⟨fun hm => ?_, fun hm => ?_⟩, fun hne => hne htouch⟩,
        fun hne => (hne (by simp)).elim⟩
      · rw [if_pos hm]
        exact ⟨Layout.join h rfl, rfl⟩
      · rw [if_neg hm]
        exact h.now

theorem mergePrev_post (z : Zipper) (h : vm.Layout z.areas) :
    (mergePrev (some z.focus.base)).Post vm
      (fun it vm' => it = some z.mergePrev.focus.base ∧ vm.Now z.mergePrev.areas vm')
      (fun _ _ => False) (fun _ => False) := by
  obtain ⟨left, focus, right⟩ := z
  unfold mergePrev Zipper.mergePrev
  rw [post_bind, post_get]
  have hhead : vm.vmaMap.head?.map Prod.fst =
      (left.reverse ++ focus :: right).head?.map (·.base) := by
    rw [h.map_eq, head?_entries]
    rfl
  have hprev : prev vm.vmaMap (some focus.base) = left.head?.map (·.base) := by
    rw [Layout.map_split h, prev_split (Layout.sorted_split h), getLast?_entries]
    simp
  cases left with
  | nil =>
      simp only [hhead]
      simpa using h.now
  | cons p rest =>
      have hp : vm.Layout (rest.reverse ++ p :: focus :: right) := by
        simpa [Zipper.areas] using h
      obtain ⟨htouch, hsize⟩ := hp.touch
      have hfirst : some focus.base ≠ ((p :: rest).reverse ++ focus :: right).head?.map
          (·.base) := by
        intro heq
        obtain ⟨x, hx, hxb⟩ := Option.map_eq_some_iff.mp heq.symm
        have hxin : x ∈ rest.reverse ++ [p] := by
          cases hr : rest.reverse with
          | nil => simp_all
          | cons y ys => simp_all
        have hfocus : vm.Layout ((rest.reverse ++ [p]) ++ focus :: right) := by simpa using hp
        have hxt := hfocus.pre_tiled.start_lt hxin
        simp only [start_eq, stop_eq] at hxt
        omega
      rw [if_pos (hhead ▸ hfirst)]
      simp only [post_bind, hprev, List.head?_cons, Option.map_some, hp.post_deref,
        Layout.post_deref h, canBeMergedWith, post_assert,
        post_pure, post_ite, store, post_modify, hsize, Option.elim_some]
      refine ⟨fun _ => ⟨fun hm => ?_, fun hm => ?_⟩, fun hne => hne htouch⟩
      · rw [if_pos hm]
        exact ⟨rfl, hp.join rfl, rfl⟩
      · rw [if_neg hm]
        exact ⟨rfl, h.now⟩

theorem mergeAdjacent_post (z : Zipper) (h : vm.Layout z.areas) :
    (mergeAdjacent (some z.focus.base)).Post vm
      (fun it vm' => it = some z.merge.focus.base ∧ vm.Now z.merge.areas vm')
      (fun _ _ => False) (fun _ => False) := by
  have hfocus : z.mergeNext.focus.base = z.focus.base := by
    rcases z.mergeNext_cases with ⟨heq, -⟩ | ⟨n, rest, -, -, heq⟩
    · rw [heq]
    · rw [heq]
      rfl
  unfold mergeAdjacent
  rw [post_bind]
  refine (mergeNext_post z h).mono (fun _ vm₁ h₁ => ?_) (fun _ _ h => h) (fun _ h => h)
  rw [← hfocus]
  refine (mergePrev_post z.mergeNext h₁.layout).mono ?_ (fun _ _ h => h) (fun _ h => h)
  rintro it vm₂ ⟨hit, h₂⟩
  exact ⟨hit, h₁.trans h₂⟩

/-! ## Visiting areas -/

/-- A rewrite of an area that leaves it where it is. -/
structure Keeps (f : VirtualMemoryArea → VirtualMemoryArea) : Prop where
  base : ∀ v, (f v).base = v.base
  size : ∀ v, (f v).size = v.size

/-- The page table has room for every area of a layout. -/
theorem updatePageTableForVMA_post (h : vm.Layout (pre ++ v :: post))
    {Q : PUnit → VMManager → Prop} (hQ : ∀ pageTable, Q ⟨⟩ { vm with pageTable }) :
    (updatePageTableForVMA v).Post vm Q (fun _ _ => False) (fun _ => False) := by
  have hbase := h.base_dvd
  have hsize := h.paged v (by simp)
  have hmax := (h.bounds (v := v) (by simp)).2
  have hroom : v.base / pageSize + v.size / pageSize ≤ pageTableNumEntries := by
    rw [← Nat.add_div_of_dvd_right hbase]
    refine (Nat.div_le_div_right hmax).trans ?_
    decide
  have hok (type : PageType) (memory : MemoryRef) :=
    exists_mapPages vm.cacheMarker type vm.pageTable _ _ memory hroom
  unfold updatePageTableForVMA
  simp only [post_bind, post_assertAligned, Exec.post_read, post_modify]
  refine ⟨fun _ => ⟨fun _ => ⟨fun table _ => hQ table, ?_⟩, fun hn => hn hbase⟩,
    fun hn => hn hsize⟩
  cases hv : v.type with
  | free =>
      obtain ⟨table, htable⟩ := hok .unmapped .null
      simp [htable]
  | backingMemory =>
      obtain ⟨table, htable⟩ := hok .memory v.backingMemory
      simp [htable]

theorem Layout.replace (h : vm.Layout (pre ++ v :: post)) (hb : w.base = v.base)
    (hs : w.size = v.size) (hmap : vm'.vmaMap = write vm.vmaMap v.base w) :
    vm'.Layout (pre ++ w :: post) := by
  refine ⟨?_, ?_, ?_⟩
  · rw [hmap, h.map_split, write_split h.sorted_split]
    simp [hb]
  · obtain ⟨mid, hpre, hv, hlen, hpost⟩ := tiled_append.mp h.tiled
    simp only [start_eq, length_eq,
      stop_eq] at hv hlen hpost
    refine hpre.append ⟨hb.trans hv, ?_, ?_⟩
    · simpa [hs] using hlen
    · simpa [hb, hs] using hpost
  · intro u hu
    simp only [List.mem_append, List.mem_cons] at hu
    rcases hu with hu | rfl | hu
    · exact h.paged u (by simp [hu])
    · rw [hs]
      exact h.paged v (by simp)
    · exact h.paged u (by simp [hu])

/-- A visit rewrites the area it is given and merges it with its neighbours. -/
def Visits (f : VirtualMemoryArea → VirtualMemoryArea) (visit : VMAIter → VM VMAIter) : Prop :=
  ∀ (vm : VMManager) (z : Zipper), vm.isLocked = false → vm.Layout z.areas →
    (visit (some z.focus.base)).Post vm
      (fun it vm' => it = some (z.onFocus f).merge.focus.base ∧
        vm.Now (z.onFocus f).merge.areas vm')
      (fun _ _ => False) (fun _ => False)

theorem rewrite_visits {f : VirtualMemoryArea → VirtualMemoryArea} (hf : Keeps f) :
    Visits f (rewrite f) := by
  intro vm z _ h
  obtain ⟨left, v, right⟩ := z
  unfold rewrite
  simp only [post_bind, Layout.post_deref h, store, post_modify]
  have hnew : { vm with vmaMap := write vm.vmaMap v.base (f v) }.Layout
      (left.reverse ++ f v :: right) := Layout.replace h (hf.base v) (hf.size v) rfl
  refine updatePageTableForVMA_post hnew fun pageTable => ?_
  have hz : { vm with vmaMap := write vm.vmaMap v.base (f v), pageTable }.Layout
      (Zipper.onFocus f ⟨left, v, right⟩).areas := ⟨hnew.map_eq, hnew.tiled, hnew.paged⟩
  have hkey : (Zipper.onFocus f ⟨left, v, right⟩).focus.base = v.base := hf.base v
  have hmerge := mergeAdjacent_post _ hz
  rw [hkey] at hmerge
  refine hmerge.mono ?_ (fun _ _ h => h) (fun _ h => h)
  rintro it vm₁ ⟨hit, hnow⟩
  exact ⟨hit, hnow.layout, hnow.locked⟩

theorem unlocked_visits {f : VirtualMemoryArea → VirtualMemoryArea} (hf : Keeps f) :
    Visits f (fun it => assertUnlocked >>= fun _ => rewrite f it) := by
  intro vm z hu h
  rw [post_bind, post_assertUnlocked hu]
  exact rewrite_visits hf vm z hu h

theorem allOf_post (p : VirtualMemoryArea → Bool) (mid : List VirtualMemoryArea) :
    ∀ (fuel : Nat) (pre : List VirtualMemoryArea), mid.length < fuel →
      vm.Layout (pre ++ (mid ++ post)) →
      (allOf p (post.head?.map (·.base)) fuel ((mid ++ post).head?.map (·.base))).Post vm
        (fun r vm' => vm' = vm ∧ r = mid.all p) (fun _ _ => False) (fun _ => False) := by
  induction mid with
  | nil =>
      intro fuel pre hfuel h
      obtain ⟨fuel, rfl⟩ := Nat.exists_eq_succ_of_ne_zero (by omega : fuel ≠ 0)
      simp [allOf]
  | cons v rest ih =>
      intro fuel pre hfuel h
      obtain ⟨fuel, rfl⟩ := Nat.exists_eq_succ_of_ne_zero (by omega : fuel ≠ 0)
      have h : vm.Layout (pre ++ v :: (rest ++ post)) := h
      have hne : some v.base ≠ post.head?.map (·.base) := by
        intro heq
        obtain ⟨w, hw, hbase⟩ := Option.map_eq_some_iff.mp heq.symm
        have hmem : w ∈ rest ++ post := by simp [List.mem_of_mem_head? hw]
        have hlt := (h.post_tiled.start_lt hmem).1
        have hpos := (h.bounds (v := v) (by simp)).1
        simp only [start_eq] at hlt
        omega
      change (allOf p _ (fuel + 1) (some v.base)).Post _ _ _ _
      rw [allOf, if_neg hne]
      simp only [post_bind, h.post_deref, post_ite, post_pure, List.all_cons]
      refine ⟨fun hp => ?_, fun hp => ⟨trivial, by simp [hp]⟩⟩
      rw [h.post_next]
      refine (ih fuel (pre ++ [v]) (by simpa using hfuel) (by simpa using h)).mono ?_
        (fun _ _ h => h) (fun _ h => h)
      rintro r vm' ⟨rfl, rfl⟩
      exact ⟨rfl, by simp [hp]⟩

section Loop

variable {f : VirtualMemoryArea → VirtualMemoryArea} {visit : VMAIter → VM VMAIter}
  {targetEnd : Nat}

/-- The zipper a visit leaves behind. -/
def visited (f : VirtualMemoryArea → VirtualMemoryArea) (left : List VirtualMemoryArea)
    (v : VirtualMemoryArea) (right : List VirtualMemoryArea) : Zipper :=
  (Zipper.mk left (f v) right).merge

/-- What a loop invariant has to survive: one visit, and the step past the merged area. -/
def Survives (f : VirtualMemoryArea → VirtualMemoryArea) (targetEnd : Nat)
    (I : List VirtualMemoryArea → List VirtualMemoryArea → Prop) : Prop :=
  ∀ left v right, Tiled 0 (left.reverse ++ v :: right) maxAddress → v.base < targetEnd →
    I left (v :: right) →
    I ((visited f left v right).focus :: (visited f left v right).left)
      (visited f left v right).right

/-- How a range loop ends: the invariant holds and the next area starts past the range. -/
def Ended (vm : VMManager) (I : List VirtualMemoryArea → List VirtualMemoryArea → Prop)
    (targetEnd : Nat) (vm' : VMManager) : Prop :=
  ∃ left right, vm.Now (left.reverse ++ right) vm' ∧ I left right ∧
    ∀ v ∈ right.head?, targetEnd ≤ v.base

/-- Loop rule of the range calls. The loop always comes to an end: every visit leaves fewer
areas to its right than there were from it on. -/
theorem forEachInRange_post (hvisit : Visits f visit)
    {I : List VirtualMemoryArea → List VirtualMemoryArea → Prop}
    (hI : Survives f targetEnd I) :
    ∀ (fuel : Nat) (vm : VMManager) (left right : List VirtualMemoryArea),
      right.length < fuel → vm.isLocked = false → vm.Layout (left.reverse ++ right) →
      I left right →
      (forEachInRange visit targetEnd fuel (right.head?.map (·.base))).Post vm
        (fun _ vm' => vm.Ended I targetEnd vm') (fun _ _ => False) (fun _ => False) := by
  intro fuel
  induction fuel with
  | zero =>
      intro vm left right hfuel
      omega
  | succ fuel ih =>
      intro vm left right hfuel hu h hinv
      cases right with
      | nil =>
          simp only [forEachInRange, List.head?_nil, Option.map_none, if_true, post_pure]
          exact ⟨left, [], h.now, hinv, by simp⟩
      | cons v right =>
          simp only [forEachInRange, List.head?_cons, Option.map_some, reduceCtorEq, if_false,
            post_bind, h.post_deref, post_ite, post_pure]
          refine ⟨fun hlt => ?_, fun hge => ⟨left, v :: right, h.now, hinv, by simpa using hge⟩⟩
          refine (hvisit vm ⟨left, v, right⟩ hu h).mono ?_ (fun _ _ h => h) (fun _ h => h)
          rintro it vm₁ ⟨rfl, hnow⟩
          change vm.Now (visited f left v right).areas vm₁ at hnow
          change (next (some (visited f left v right).focus.base)).Post _ _ _ _
          have h₁ := hnow.layout
          rw [Zipper.areas] at h₁
          rw [h₁.post_next]
          have hlen := (Zipper.mk left (f v) right).length_merge_right
          refine (ih vm₁ (_ :: (visited f left v right).left) _ ?_ (hnow.locked.trans hu) ?_
            (hI left v right h.tiled hlt hinv)).mono ?_ (fun _ _ h => h) (fun _ h => h)
          · simp only [List.length_cons] at hfuel
            change (visited f left v right).right.length ≤ right.length at hlen
            omega
          · simpa using h₁
          · rintro _ vm₂ ⟨left', right', hnow', hinv', hend⟩
            exact ⟨left', right', hnow.trans hnow', hinv', hend⟩

theorem forEachUntil_post (hvisit : Visits f visit)
    {I : List VirtualMemoryArea → List VirtualMemoryArea → Prop}
    (hI : Survives f targetEnd I) (hu : vm.isLocked = false)
    (h : vm.Layout (left.reverse ++ right)) (hinv : I left right) :
    (forEachUntil visit targetEnd (right.head?.map (·.base))).Post vm
      (fun _ vm' => vm.Ended I targetEnd vm') (fun _ _ => False) (fun _ => False) := by
  unfold forEachUntil
  rw [post_bind, post_get]
  refine forEachInRange_post hvisit hI _ vm left right ?_ hu h hinv
  rw [h.map_eq]
  simp [entries]

end Loop

/-! ## Carving -/

theorem Layout.lowerBound_eq (h : vm.Layout (pre ++ post)) (hpre : ∀ v ∈ pre, v.base < b)
    (hpost : ∀ v ∈ post.head?, b ≤ v.base) :
    lowerBound vm.vmaMap b = post.head?.map (·.base) := by
  rw [h.map_eq, entries_append, lowerBound_append, head?_entries]
  · intro e he
    obtain ⟨hkey, hmem⟩ := mem_entries.mp he
    rw [hkey]
    exact hpre _ hmem
  · intro e he
    cases post with
    | nil => simp at he
    | cons w rest =>
        simp only [entries_cons, List.head?_cons, Option.mem_some] at he
        subst he
        exact hpost w (by simp)

theorem Layout.around (h : vm.Layout l) (ha : a < maxAddress) :
    ∃ pre v post, l = pre ++ v :: post ∧ v.base ≤ a ∧ a < v.base + v.size ∧
      vm.findVMA a = some v.base := by
  obtain ⟨pre, v, post, rfl, hlo, hhi⟩ := h.exists_area ha
  exact ⟨pre, v, post, rfl, hlo, hhi, h.findVMA_eq hlo hhi⟩

theorem Layout.meets (h : vm.Layout l) (ha : a < maxAddress) (hab : a < b) :
    ∃ pre v mid post, l = pre ++ (v :: mid ++ post) ∧ v.base ≤ a ∧ a < v.base + v.size ∧
      vm.findVMA a = some v.base ∧ lowerBound vm.vmaMap b = post.head?.map (·.base) ∧
      ∀ p : VirtualMemoryArea → Prop, (∀ w ∈ v :: mid, p w) ↔
        ∀ w ∈ l, w.base < b → a < w.base + w.size → p w := by
  obtain ⟨pre, v, rest, rfl, hlo, hhi, hfind⟩ := h.around ha
  have hpre : ∀ w ∈ pre, w.base + w.size ≤ v.base := fun w hw =>
    (h.pre_tiled.start_lt hw).2.2
  obtain ⟨mid, post, rfl, hmid, hpost⟩ := h.post_tiled.split_below b
  simp only [start_eq] at hmid hpost
  refine ⟨pre, v, mid, post, rfl, hlo, hhi, hfind, ?_, ?_⟩
  · have hl : vm.Layout ((pre ++ v :: mid) ++ post) := by simpa using h
    refine hl.lowerBound_eq ?_ fun w hw => hpost w (List.mem_of_mem_head? hw)
    intro w hw
    simp only [List.mem_append, List.mem_cons] at hw
    rcases hw with hw | rfl | hw
    · have hle := hpre w hw
      omega
    · omega
    · exact hmid w hw
  · intro p
    constructor
    · intro hp w hw hwb haw
      simp only [List.mem_append, List.mem_cons] at hw
      rcases hw with hw | hw | hw | hw
      · have hle := hpre w hw
        omega
      · exact hp w (by simp [hw])
      · exact hp w (by simp [hw])
      · have hle := hpost w hw
        omega
    · intro hp w hw
      rcases List.mem_cons.mp hw with rfl | hw
      · exact hp w (by simp) (by omega) hhi
      · have hr : w ∈ mid ++ post := by simp [hw]
        have hle := (h.post_tiled.start_lt hr).1
        have hpos := (h.bounds (v := w) (by simp [hw])).1
        simp only [start_eq] at hle
        exact hp w (by simp [hw]) (hmid w hw) (by omega)

theorem splitUnlessBase_post (h : vm.Layout l) (ha : a < maxAddress) (hpage : pageSize ∣ a) :
    (splitUnlessBase (vm.findVMA a) a).Post vm
      (fun it vm' => it = some a ∧ Cuttable a l ∧ vm.Now (cutAt a l) vm')
      (fun _ _ => False) (fun f => f = .memoryRefOffset ∧ ¬ Cuttable a l) := by
  obtain ⟨pre, v, post, rfl, hlo, hhi, hfind⟩ := h.around ha
  have hmax : maxAddress < 2 ^ 32 := by decide
  unfold splitUnlessBase
  rw [hfind, post_bind, h.post_deref, post_ite]
  refine ⟨fun hne => ?_, fun heq => ?_⟩
  · have hlt : v.base < a := by omega
    have honly : Cuttable a (pre ++ v :: post) ↔ v.CutOk a := by
      refine ⟨fun hall => hall v (by simp) hlt hhi, fun hv w hw hwlo hwhi => ?_⟩
      have hedge := edgeAt_cutAt h.tiled a
      rw [cutAt_split h.tiled hlt hhi] at hedge
      simp only [List.mem_append, List.mem_cons] at hw
      rcases hw with hw | rfl | hw
      · exact (hedge w (by simp [hw]) ⟨hwlo, hwhi⟩).elim
      · exact hv
      · exact (hedge w (by simp [hw]) ⟨hwlo, hwhi⟩).elim
    rw [sub32_of_le hlo (by omega), cutAt_split h.tiled hlt hhi, honly]
    exact splitVMA_post h hlt hhi hpage
  · have heq : a = v.base := not_not.mp heq
    have hedge : EdgeAt a (pre ++ v :: post) := heq ▸ edgeAt_base h.tiled
    rw [post_pure, cutAt_of_edgeAt hedge]
    exact ⟨by rw [heq], fun w hw hwlo hwhi => (hedge w hw ⟨hwlo, hwhi⟩).elim, h.now⟩

/-- Every area that meets `[target, targetEnd)` satisfies `p`. -/
def Throughout (p : VirtualMemoryArea → Prop) (l : List VirtualMemoryArea)
    (target targetEnd : Nat) : Prop :=
  ∀ v ∈ l, v.base < targetEnd → target < v.base + v.size → p v

/-- The range lies inside one free area. -/
def InFree (l : List VirtualMemoryArea) (target targetEnd : Nat) : Prop :=
  ∃ v ∈ l, v.type = .free ∧ v.base ≤ target ∧ targetEnd ≤ v.base + v.size

/-- A range that meets the assertions: whole pages, at least one, below the limit. -/
structure Proper (target size : Nat) : Prop where
  target_dvd : pageSize ∣ target
  size_dvd : pageSize ∣ size
  pos : 0 < size
  le_max : target + size ≤ maxAddress

section Carve

variable {target size : Nat}

theorem carveVMARange_post (h : vm.Layout l) (hp : Proper target size) :
    (carveVMARange target size).Post vm
      (fun it vm' => it = some target ∧
        Throughout (fun v => v.type ≠ .free) l target (target + size) ∧
        Cuttable target l ∧ Cuttable (target + size) (cutAt target l) ∧
        vm.Now (cutAt (target + size) (cutAt target l)) vm')
      (fun e vm' => vm' = vm ∧ e = .invalidAddressState ∧
        ¬ Throughout (fun v => v.type ≠ .free) l target (target + size))
      (fun f => f = .memoryRefOffset ∧ ∃ v ∈ l, ¬ v.Backed) := by
  obtain ⟨ht, hs, hpos, hmax⟩ := hp
  have hmax' : maxAddress < 2 ^ 32 := by decide
  have hend : add32 target size = target + size := add32_of_lt (by omega)
  obtain ⟨pre, v, mid, post, hl, -, -, hfind, hlower, hmeet⟩ :=
    h.meets (a := target) (b := target + size) (by omega) (by omega)
  have hshort (hall : ¬ ((∀ v ∈ l, v.Backed))) : ∃ v ∈ l, ¬ v.Backed := by
    simpa using hall
  have hfuel : (v :: mid).length < vm.vmaMap.length + 1 := by
    rw [h.map_eq, hl]
    simp [entries]
    omega
  unfold carveVMARange
  rw [hend]
  simp only [post_bind, post_assertAligned, post_assert, post_get, hlower]
  refine ⟨fun _ => ⟨fun _ => ⟨fun _ => ⟨fun _ => ⟨fun _ => ?_, by omega⟩, by omega⟩, by omega⟩,
    fun hn => (hn ht).elim⟩, fun hn => (hn hs).elim⟩
  have hsplit : vm.Layout (pre ++ (v :: mid ++ post)) := hl ▸ h
  have hall := allOf_post (fun v => v.type ≠ .free) (v :: mid) (vm.vmaMap.length + 1) pre hfuel
    hsplit
  simp only [List.cons_append, List.head?_cons, Option.map_some, ← hfind] at hall
  refine hall.mono ?_ (fun _ _ h => h.elim) (fun _ h => h.elim)
  rintro r vm₁ ⟨rfl, hr⟩
  have hthrough : r = true ↔ Throughout (fun v => v.type ≠ .free) l target (target + size) := by
    rw [hr, List.all_eq_true]
    simpa [Throughout] using hmeet fun v => v.type ≠ .free
  rw [Exec.post_require]
  refine ⟨fun hmapped => ?_, fun hmapped => ⟨rfl, rfl, hthrough.not.mp hmapped⟩⟩
  refine (splitUnlessBase_post h (by omega) ht).mono ?_ (fun _ _ h => h.elim) ?_
  · rintro it vm₂ ⟨rfl, hcut, hnow⟩
    rw [post_when]
    refine ⟨fun hne => ?_, fun hnone => ?_⟩
    · have hlt : target + size < maxAddress := by
        by_contra hge
        exact hne (findVMA_of_le _ (by omega))
      rw [post_bind]
      refine (splitUnlessBase_post hnow.layout hlt (ht.add hs)).mono ?_ (fun _ _ h => h.elim) ?_
      · rintro _ vm₃ ⟨-, hcut', hnow'⟩
        exact ⟨rfl, hthrough.mp hmapped, hcut, hcut', hnow.trans hnow'⟩
      · rintro f ⟨rfl, hncut⟩
        exact ⟨rfl, hshort fun hb => hncut (cuttable_of_backed (backed_cutAt hb))⟩
    · have hge : maxAddress ≤ target + size := by
        by_contra hlt
        exact hnone (hnow.layout.findVMA_ne_none (by omega))
      have hedge := edgeAt_of_le (tiled_cutAt h.tiled target) hge
      rw [post_pure, cutAt_of_edgeAt hedge]
      exact ⟨rfl, hthrough.mp hmapped, hcut,
        fun w hw hlo hhi => (hedge w hw ⟨hlo, hhi⟩).elim, hnow⟩
  · rintro f ⟨rfl, hncut⟩
    exact ⟨rfl, hshort fun hb => hncut (cuttable_of_backed hb)⟩

/-- The first split of `CarveVMA`, after which the free area ends where the range does. -/
theorem carveEnd_post (h : vm.Layout (pre ++ v :: post)) (hfree : v.type = .free)
    (hb : pageSize ∣ b) (hlo : v.base < b) (hhi : b ≤ v.base + v.size) :
    (Exec.when (b - v.base ≠ v.size) do
      let _ ← splitVMA (some v.base) (b - v.base)).Post vm
      (fun _ vm' => ∃ u post', cutAt b (pre ++ v :: post) = pre ++ u :: post' ∧
        u.type = .free ∧ u.base = v.base ∧ u.base + u.size = b ∧
        vm.Now (pre ++ u :: post') vm')
      (fun _ _ => False) (fun _ => False) := by
  rw [post_when]
  refine ⟨fun hne => ?_, fun heq => ?_⟩
  · have hlt : b < v.base + v.size := by omega
    rw [post_bind]
    refine (splitVMA_post h hlo hlt hb).mono ?_ (fun _ _ h => h) ?_
    · rintro it vm' ⟨-, -, hnow⟩
      exact ⟨_, _, cutAt_split h.tiled hlo hlt, hfree, rfl, by simp; omega, hnow⟩
    · rintro f ⟨-, hcut⟩
      exact hcut (by simp [VirtualMemoryArea.CutOk, hfree])
  · have hstop : b = v.base + v.size := by omega
    have hedge : EdgeAt b (pre ++ v :: post) := by
      intro w hw hstrict
      have hend := edgeAt_of_le h.pre_tiled (a := b) (by omega)
      simp only [List.mem_append, List.mem_cons] at hw
      rcases hw with hw | rfl | hw
      · exact hend w hw hstrict
      · omega
      · have hle := (h.post_tiled.start_lt hw).1
        simp only [start_eq] at hle
        omega
    exact ⟨v, post, cutAt_of_edgeAt hedge, hfree, rfl, hstop.symm, h.now⟩

theorem Layout.area_unique (h : vm.Layout (pre ++ v :: post)) (hw : w ∈ pre ++ v :: post)
    (hv : v.base ≤ a ∧ a < v.base + v.size) (hwa : w.base ≤ a ∧ a < w.base + w.size) :
    w = v := by
  simp only [List.mem_append, List.mem_cons] at hw
  rcases hw with hw | rfl | hw
  · have hle := (h.pre_tiled.start_lt hw).2.2
    simp only [stop_eq] at hle
    omega
  · rfl
  · have hle := (h.post_tiled.start_lt hw).1
    simp only [start_eq] at hle
    omega

theorem carveVMA_post (h : vm.Layout l) (ht : pageSize ∣ target) (hs : pageSize ∣ size)
    (hpos : 0 < size) (hwrap : target + size < 2 ^ 32) :
    (carveVMA target size).Post vm
      (fun it vm' => it = some target ∧ InFree l target (target + size) ∧
        ∃ z : Zipper, cutAt target (cutAt (target + size) l) = z.areas ∧
          z.focus.type = .free ∧ z.focus.base = target ∧ z.focus.size = size ∧
          vm.Now z.areas vm')
      (fun _ vm' => vm' = vm ∧ ¬ InFree l target (target + size)) (fun _ => False) := by
  unfold carveVMA
  simp only [post_bind, post_assertAligned, post_get, Exec.post_require]
  refine ⟨fun _ => ⟨fun _ => ⟨fun hsome => ?_, fun hnone => ?_⟩, fun hn => hn ht⟩,
    fun hn => hn hs⟩
  · have hlt : target < maxAddress := by
      by_contra hge
      exact hsome (vm.findVMA_of_le (by omega))
    obtain ⟨pre, v, post, rfl, hlo, hhi, hfind⟩ := h.around hlt
    have hvmax := (h.bounds (v := v) (by simp)).2
    have hunique : InFree (pre ++ v :: post) target (target + size) ↔
        v.type = .free ∧ target + size ≤ v.base + v.size := by
      constructor
      · rintro ⟨w, hw, hwfree, hwlo, hwhi⟩
        obtain rfl := h.area_unique hw ⟨hlo, hhi⟩ ⟨hwlo, by omega⟩
        exact ⟨hwfree, hwhi⟩
      · rintro ⟨hfree, hle⟩
        exact ⟨v, by simp, hfree, hlo, hle⟩
    have hstart : sub32 target v.base = target - v.base := sub32_of_le hlo (by omega)
    have hend : add32 (target - v.base) size = target + size - v.base := by
      rw [add32_of_lt (by omega)]
      omega
    rw [hfind, h.post_deref, hstart, hend]
    refine ⟨fun hfree => ⟨fun hle => ?_, fun hle => ⟨rfl, ?_⟩⟩, fun hfree => ⟨rfl, ?_⟩⟩
    · refine (carveEnd_post h hfree (ht.add hs) (by omega) (by omega)).mono ?_
        (fun _ _ h => h.elim) (fun _ h => h)
      rintro _ vm₁ ⟨u, post', hcut, hufree, hubase, hustop, hnow⟩
      have h₁ := hnow.layout
      rw [hcut, post_ite, ← hubase]
      refine ⟨fun hne => ?_, fun heq => ?_⟩
      · have hult : u.base < target := by omega
        refine (splitVMA_post h₁ hult (by omega) ht).mono ?_ (fun _ _ h => h.elim) ?_
        · rintro it vm₂ ⟨rfl, -, hnow'⟩
          rw [cutAt_split h₁.tiled hult (by omega)]
          refine ⟨rfl, hunique.mpr ⟨hfree, by omega⟩, ⟨(pre ++ [u.takeTo target]).reverse, u.dropTo target, post'⟩, by simp [Zipper.areas],
            hufree, rfl, by simp; omega, ?_⟩
          simpa [Zipper.areas] using hnow.trans hnow'
        · rintro f ⟨-, hncut⟩
          exact hncut (by simp [VirtualMemoryArea.CutOk, hufree])
      · have hueq : u.base = target := by omega
        have hedge : EdgeAt target (pre ++ u :: post') := hueq ▸ edgeAt_base h₁.tiled
        rw [post_pure, cutAt_of_edgeAt hedge]
        refine ⟨by rw [hueq], hunique.mpr ⟨hfree, by omega⟩, ⟨pre.reverse, u, post'⟩,
          by simp [Zipper.areas], hufree, hueq, by simp only; omega, ?_⟩
        simpa [Zipper.areas] using hnow
    · rw [hunique]
      omega
    · rw [hunique]
      exact fun hand => hfree hand.1
  · have hge : maxAddress ≤ target := by
      by_contra hlt
      exact hnone (h.findVMA_ne_none (by omega))
    refine ⟨trivial, ?_⟩
    rintro ⟨w, hw, -, hwlo, hwhi⟩
    have hwmax := (h.bounds hw).2
    omega

end Carve

end Cytrus.Kernel.VMManager
